import EchoServer.Lib.Machine
import EchoServer.Lib.Threads

/-!
# The table of connections

`net/io_service.cpp` : `adopt` makes a connection of a socket and puts it into the table, unless the
table is full; `sweep_loop` takes out what is closed and has nothing outstanding, and closes what
has been silent too long. The workers that adopt, the sweeper and the connections themselves run
side by side, and the mutex of the table is held for one access, by the sweeper for a whole scan.

Of a connection the table sees whether it is closed, how many operations are outstanding, and when
it was active last (`Peer`); what else happens to it is left open. `gone` records how an identifier
was lost, `cut` what the sweeper has closed and `noted` the times of activity that were stored; no
step reads them.

A worker tests the limit and registers in one section of the mutex, so the table never exceeds it,
and every identifier is in one place (`table_bounded`). After a round of the sweeper, whatever it
has looked at is closed or has noted an activity within the timeout (`sweep_closes_silent`). Two
workers that touch one connection may store their times in either order, so the time that the
sweeper reads is one that was noted, and need not be the newest.
-/

namespace EchoServer

open Threads

/-- What `net/io_service.cpp` reads of its options; a bound of zero is none. -/
structure IoConfig where
  maxConnections : ℤ
  heartbeatTimeoutMs : ℤ

/-- A connection, as the table sees it. -/
structure Peer where
  closed : Bool
  pending : ℕ
  lastActiveMs : ℤ

/-- What a call of `adopt` has still to do; a connector reserves the identifier itself, and adopts
when the socket is connected. -/
inductive AdoptOp where
  | reserveId (bound : Bool)
  | connected (id : ℕ)
  | construct (id : ℕ) (bound : Bool)
  | bindSocket (id : ℕ)
  | register (id : ℕ)
  | countRefused
  | start (id : ℕ)
  | eraseFailed (id : ℕ)

/-- How an identifier is lost. -/
inductive Gone where
  | notConnected
  | unbound
  /-- The table was full, with so many connections. -/
  | refused (registered : ℕ)
  | notStarted
  | reclaimed
  deriving DecidableEq

/-- Where `sweep_loop` is. -/
inductive SweepPlace where
  | asleep
  | lock
  | scan
  -- `reclaimable`
  | testClosed (id : ℕ)
  | testPending (id : ℕ)
  | reclaim (id : ℕ)
  -- the heartbeat
  | testOpen (id : ℕ)
  | testSilent (id : ℕ)
  | close
  deriving DecidableEq

namespace SweepPlace

/-- The sweeper holds the mutex of the table. -/
def locked : SweepPlace → Bool
  | asleep | lock | close => false
  | _ => true

/-- The connection that is looked at. -/
def current : SweepPlace → Option ℕ
  | testClosed id | testPending id | reclaim id | testOpen id | testSilent id => some id
  | _ => none

end SweepPlace

/-- The thread of `sweep_loop`, with its local variables. -/
structure Sweeper where
  place : SweepPlace
  /-- The clock, as it was read for the round. -/
  clock : ℤ
  /-- What the scan has still to look at. -/
  todo : List ℕ
  /-- `expired`, with the time of the last activity that was read. -/
  expired : List (ℕ × ℤ)
  /-- What was in the table when the round began. -/
  round : List ℕ
  /-- What the sweeper has closed : the clock of the round, and what was read. -/
  cut : List (ℕ × ℤ × ℤ)

/-- The connections of the service, and the threads that adopt and sweep them. -/
structure ConnectionTable where
  now : ℤ
  nextId : ℕ
  conns : ℕ → Peer
  table : List ℕ
  refused : ℕ
  adopts : Threads AdoptOp
  sweeper : Sweeper
  gone : List (ℕ × Gone)
  /-- The times of activity that were stored, from the one that a connection is registered with. -/
  noted : List (ℕ × ℤ)

/-- One access of a thread to the table, or something that happens to a connection. -/
inductive TableStep where
  /-- A socket is accepted; or a connector is asked for one. -/
  | accept
  | connect
  /-- Thread `i` goes on; `ok` is what its system call answers. -/
  | adopt (i : ℕ) (ok : Bool)
  /-- The sweeper goes on; the iteration comes to `id`. -/
  | sweep (id : ℕ)
  | tick (ms : ℕ)
  /-- A connection has read the clock some time ago, and notes that it was active. -/
  | touch (id : ℕ) (ms : ℤ)
  | close (id : ℕ)
  | raise (id : ℕ)
  | lower (id : ℕ)

namespace ConnectionTable

/-- The service as it starts, without connections. -/
def fresh : ConnectionTable :=
  ⟨0, 1, fun _ => ⟨false, 0, 0⟩, [], 0, [], ⟨.asleep, 0, [], [], [], []⟩, [], []⟩

/-- Something happens to the connection `id`. -/
def updConn (s : ConnectionTable) (id : ℕ) (f : Peer → Peer) : ConnectionTable :=
  { s with conns := Function.update s.conns id (f (s.conns id)) }

/-- The identifier will not be registered any more. -/
def lose (s : ConnectionTable) (id : ℕ) (how : Gone) : ConnectionTable :=
  { s with gone := s.gone ++ [(id, how)] }

/-- The time of an activity is noted. -/
def note (s : ConnectionTable) (id : ℕ) (ms : ℤ) : ConnectionTable :=
  { s with noted := s.noted ++ [(id, ms)] }

/-- `max_connections` is set and reached. -/
def full (cfg : IoConfig) (s : ConnectionTable) : Bool :=
  0 < cfg.maxConnections && cfg.maxConnections ≤ s.table.length

/-- One operation of `adopt`, and what is left to do after it; `none` while the mutex is held. -/
def adoptOp (cfg : IoConfig) (ok : Bool) (s : ConnectionTable) :
    AdoptOp → Option (ConnectionTable × List AdoptOp)
  | .reserveId bound =>
    some ({ s with nextId := s.nextId + 1 },
      [if bound then .connected s.nextId else .construct s.nextId false])
  | .connected id =>
    if ok then some (s, [.construct id true]) else some (s.lose id .notConnected, [])
  | .construct id bound =>
    some (s.updConn id fun _ => ⟨false, 0, s.now⟩, [if bound then .register id else .bindSocket id])
  | .bindSocket id => if ok then some (s, [.register id]) else some (s.lose id .unbound, [])
  | .register id =>
    if s.sweeper.place.locked then none
    else if s.full cfg then some (s.lose id (.refused s.table.length), [.countRefused])
    else
      some ({ s with table := s.table ++ [id] }.note id (s.conns id).lastActiveMs, [.start id])
  | .countRefused => some ({ s with refused := s.refused + 1 }, [])
  | .start id =>
    if (s.conns id).closed then some (s, [.eraseFailed id])
    else if ok then some (s.updConn id fun c => { c with pending := c.pending + 1 }, [])
    else some (s.updConn id fun c => { c with closed := true }, [.eraseFailed id])
  | .eraseFailed id =>
    if s.sweeper.place.locked then none
    else if id ∈ s.table then some ({ s with table := s.table.erase id }.lose id .notStarted, [])
    else some (s, [])

/-- The sweeper goes on to another place. -/
def goTo (s : ConnectionTable) (place : SweepPlace) : ConnectionTable :=
  { s with sweeper := { s.sweeper with place } }

/-- One operation of `sweep_loop`. -/
def sweepOp (cfg : IoConfig) (id : ℕ) (s : ConnectionTable) : Option ConnectionTable :=
  match s.sweeper.place with
  | .asleep => some { s with sweeper := { s.sweeper with clock := s.now, place := .lock } }
  | .lock =>
    some { s with sweeper := { s.sweeper with todo := s.table, round := s.table, place := .scan } }
  | .scan =>
    if s.sweeper.todo = [] then some (s.goTo .close)
    else if id ∈ s.sweeper.todo then
      some { s with
        sweeper := { s.sweeper with todo := s.sweeper.todo.erase id, place := .testClosed id } }
    else none
  | .testClosed k => some (s.goTo (if (s.conns k).closed then .testPending k else .testOpen k))
  | .testPending k => some (s.goTo (if (s.conns k).pending = 0 then .reclaim k else .testOpen k))
  | .reclaim k => some (({ s with table := s.table.erase k }.lose k .reclaimed).goTo .scan)
  | .testOpen k =>
    some (s.goTo
      (if 0 < cfg.heartbeatTimeoutMs ∧ (s.conns k).closed = false then .testSilent k else .scan))
  | .testSilent k =>
    if cfg.heartbeatTimeoutMs < s.sweeper.clock - (s.conns k).lastActiveMs then
      some { s with
        sweeper := { s.sweeper with
          expired := s.sweeper.expired ++ [(k, (s.conns k).lastActiveMs)], place := .scan } }
    else some (s.goTo .scan)
  | .close =>
    match s.sweeper.expired with
    | [] => some (s.goTo .asleep)
    | (k, last) :: expired =>
      some { s.updConn k fun c => { c with closed := true } with
        sweeper := { s.sweeper with
          expired, cut := s.sweeper.cut ++ [(k, s.sweeper.clock, last)] } }

/-- One step of any thread. -/
def step (cfg : IoConfig) (s : ConnectionTable) : TableStep → Option ConnectionTable
  | .accept => some { s with adopts := s.adopts.spawn [.reserveId false] }
  | .connect => some { s with adopts := s.adopts.spawn [.reserveId true] }
  | .adopt i ok =>
    match s.adopts.head i with
    | none => none
    | some op =>
      (s.adoptOp cfg ok op).map fun r => { r.1 with adopts := s.adopts.exec i r.2 }
  | .sweep id => s.sweepOp cfg id
  | .tick ms => some { s with now := s.now + ms }
  | .touch id ms =>
    -- `touch` stores what it has read, whatever another worker has stored since
    if ms ≤ s.now then some ((s.updConn id fun c => { c with lastActiveMs := ms }).note id ms)
    else none
  | .close id => some (s.updConn id fun c => { c with closed := true })
  | .raise id => some (s.updConn id fun c => { c with pending := c.pending + 1 })
  | .lower id => some (s.updConn id fun c => { c with pending := c.pending - 1 })

/-- The identifier has been registered, or is lost. -/
def Known (s : ConnectionTable) (id : ℕ) : Prop := id ∈ s.table ∨ id ∈ s.gone.map Prod.fst

end ConnectionTable

/-- The table from the start of the service on. -/
def connectionTable (cfg : IoConfig) : Machine ConnectionTable TableStep where
  init s := s = .fresh
  step := ConnectionTable.step cfg

/-! ## Identifiers -/

namespace AdoptOp

/-- The call has the identifier, and has not registered it. -/
def holding (id : ℕ) : AdoptOp → ℕ
  | connected k | construct k _ | bindSocket k | register k => [k].count id
  | _ => 0

/-- The call is about to count its refusal. -/
def refusing : AdoptOp → ℕ
  | countRefused => 1
  | _ => 0

end AdoptOp

/-- The identifier was refused by a full table. -/
def Gone.isRefused : Gone → Bool
  | refused _ => true
  | _ => false

namespace ConnectionTable

variable {cfg : IoConfig} {s s' : ConnectionTable} {ok : Bool} {op : AdoptOp} {id : ℕ}
  {new : List AdoptOp}

/-- Each identifier is in one place, the table keeps its bound, and the refusals are counted. -/
structure Placed (cfg : IoConfig) (s : ConnectionTable) : Prop where
  pos : 0 < s.nextId
  place : ∀ id, s.adopts.weight (AdoptOp.holding id) + s.table.count id +
    (s.gone.map Prod.fst).count id = if 0 < id ∧ id < s.nextId then 1 else 0
  limit : 0 < cfg.maxConnections → s.table.length ≤ cfg.maxConnections
  full : ∀ id n, (id, Gone.refused n) ∈ s.gone → 0 < cfg.maxConnections ∧ cfg.maxConnections ≤ n
  counted : s.refused + s.adopts.weight AdoptOp.refusing =
    s.gone.countP fun g => g.2.isRefused

/-- No connection is in the table twice. -/
theorem Placed.nodup (hs : Placed cfg s) : s.table.Nodup := by
  refine List.nodup_iff_count_le_one.mpr fun id => ?_
  have := hs.place id
  split_ifs at this <;> omega

/-- Nobody adopts what is known. -/
theorem Placed.not_holding (hs : Placed cfg s) (hk : s.Known id) :
    s.adopts.weight (AdoptOp.holding id) = 0 := by
  have hplace := hs.place id
  have hpos : 0 < s.table.count id + (s.gone.map Prod.fst).count id := by
    obtain hk | hk := hk
    · exact Nat.add_pos_left (List.count_pos_iff.mpr hk) _
    · exact Nat.add_pos_right _ (List.count_pos_iff.mpr hk)
  split_ifs at hplace <;> omega

/-- Nobody knows what is being adopted. -/
theorem Placed.not_known (hs : Placed cfg s) {i : ℕ} (hop : s.adopts.head i = some op)
    (hid : 0 < op.holding id) : ¬s.Known id := by
  intro hk
  have hle := le_weight (AdoptOp.holding id) hop
  have := hs.not_holding hk
  omega

/-- Adopting takes the next id, or none. -/
theorem adoptOp_nextId (h : s.adoptOp cfg ok op = some (s', new)) :
    s'.nextId = s.nextId ∨ s'.nextId = s.nextId + 1 := by
  cases op <;> simp only [adoptOp] at h
  all_goals repeat' split at h
  all_goals cases h
  all_goals first
    | exact Or.inl rfl
    | exact Or.inr rfl

/-- `adopt` leaves the sweeper alone, and the table while that scans it. -/
theorem adoptOp_rest (h : s.adoptOp cfg ok op = some (s', new)) : s'.sweeper = s.sweeper ∧
    (s.sweeper.place.locked = true → s'.table = s.table) ∧
      ∀ id, (id, Gone.reclaimed) ∈ s'.gone → (id, Gone.reclaimed) ∈ s.gone := by
  cases op <;> simp only [adoptOp] at h
  all_goals repeat' split at h
  all_goals cases h
  all_goals simp_all [lose, updConn, note]

/-- An operation of `adopt` moves its identifier from one place to another; the first one gives a
new one. -/
theorem adoptOp_place (h : s.adoptOp cfg ok op = some (s', new)) (id : ℕ) :
    stackWeight (AdoptOp.holding id) new + s'.table.count id + (s'.gone.map Prod.fst).count id =
      op.holding id + s.table.count id + (s.gone.map Prod.fst).count id +
        if s'.nextId = s.nextId + 1 ∧ s.nextId = id then 1 else 0 := by
  cases op with
  | reserveId bound =>
    cases h
    cases bound <;> simp [AdoptOp.holding, List.count_singleton] <;> omega
  | connected k | bindSocket k =>
    simp only [adoptOp] at h
    split_ifs at h <;> cases h
    · simp [AdoptOp.holding]
    · simp [AdoptOp.holding, lose]
      omega
  | construct k bound =>
    cases h
    cases bound <;> simp [AdoptOp.holding, updConn]
  | register k =>
    simp only [adoptOp] at h
    split_ifs at h <;> cases h
    · simp [AdoptOp.holding, lose]
      omega
    · simp [AdoptOp.holding, note]
      omega
  | countRefused =>
    cases h
    simp [AdoptOp.holding]
  | start k =>
    simp only [adoptOp] at h
    split_ifs at h <;> cases h <;> simp [AdoptOp.holding, updConn]
  | eraseFailed k =>
    simp only [adoptOp] at h
    split_ifs at h with hlocked hmem <;> cases h
    · have hpos := List.count_pos_iff.mpr hmem
      by_cases hk : k = id
      · subst hk
        simp [AdoptOp.holding, lose]
        omega
      · simp [AdoptOp.holding, lose, hk, List.count_erase_of_ne (Ne.symm hk)]
    · simp [AdoptOp.holding]

/-- A refusal is counted, and is one of a table that is full. -/
theorem adoptOp_refused (h : s.adoptOp cfg ok op = some (s', new)) :
    s'.refused + stackWeight AdoptOp.refusing new + s.gone.countP (fun g => g.2.isRefused) =
        s.refused + op.refusing + s'.gone.countP (fun g => g.2.isRefused) ∧
      (∀ id n, (id, Gone.refused n) ∈ s'.gone → (id, Gone.refused n) ∈ s.gone ∨
        0 < cfg.maxConnections ∧ cfg.maxConnections ≤ n) ∧
      (s'.table.length ≤ s.table.length ∨
        s'.table.length = s.table.length + 1 ∧ s.full cfg = false) := by
  cases op with
  | reserveId bound =>
    cases h
    cases bound <;> simp +contextual [AdoptOp.refusing]
  | connected k | bindSocket k =>
    simp only [adoptOp] at h
    split_ifs at h <;> cases h <;> simp +contextual [AdoptOp.refusing, lose, Gone.isRefused]
  | construct k bound =>
    cases h
    cases bound <;> simp +contextual [AdoptOp.refusing, updConn]
  | register k =>
    simp only [adoptOp] at h
    split_ifs at h with hlocked hfull <;> cases h
    · simp only [full, Bool.and_eq_true, decide_eq_true_eq] at hfull
      refine ⟨by simp [AdoptOp.refusing, lose, Gone.isRefused]; omega, fun id n hmem => ?_,
        Or.inl le_rfl⟩
      obtain hmem | hmem := List.mem_append.mp hmem
      · exact Or.inl hmem
      · obtain ⟨rfl, rfl⟩ : id = k ∧ n = s.table.length := by simpa using hmem
        exact Or.inr hfull
    · simp +contextual [AdoptOp.refusing, hfull, note]
  | countRefused =>
    cases h
    simp +contextual [AdoptOp.refusing]
  | start k =>
    simp only [adoptOp] at h
    split_ifs at h <;> cases h <;> simp +contextual [AdoptOp.refusing, updConn]
  | eraseFailed k =>
    simp only [adoptOp] at h
    split_ifs at h with hlocked hmem <;> cases h
    · simp +contextual [AdoptOp.refusing, lose, Gone.isRefused, List.length_erase_of_mem hmem]
    · simp +contextual [AdoptOp.refusing]

/-- Adopting keeps each id in one place. -/
theorem Placed.adopt (hs : Placed cfg s) {i : ℕ} (hop : s.adopts.head i = some op)
    (h : s.adoptOp cfg ok op = some (s', new)) :
    Placed cfg { s' with adopts := s.adopts.exec i new } := by
  obtain ⟨hcount, hfull, hlen⟩ := adoptOp_refused h
  have hnext := adoptOp_nextId h
  refine ⟨?_, fun id => ?_, fun hmax => ?_, fun id n hmem => ?_, ?_⟩
  · have := hs.pos
    dsimp only
    omega
  · have hpos := hs.pos
    have hold := hs.place id
    have hmoved := adoptOp_place h id
    have hweight := weight_exec (AdoptOp.holding id) hop new
    dsimp only at hweight ⊢
    split_ifs at hold hmoved ⊢ <;> omega
  · have hlimit := hs.limit hmax
    obtain hle | ⟨heq, hnot⟩ := hlen
    · exact (Int.ofNat_le.mpr hle).trans hlimit
    · have hlt : ¬cfg.maxConnections ≤ s.table.length := by
        simpa [ConnectionTable.full, hmax] using hnot
      dsimp only
      omega
  · obtain hmem | hfull := hfull id n hmem
    · exact hs.full id n hmem
    · exact hfull
  · have hweight := weight_exec AdoptOp.refusing hop new
    have := hs.counted
    dsimp only at hweight ⊢
    omega

/-! ## The sweeper -/

/-- What is known stays so, what is closed stays closed, and what is noted stays noted. -/
structure Onward (s s' : ConnectionTable) : Prop where
  known : ∀ id, s.Known id → s'.Known id
  closed : ∀ id, s.Known id → (s.conns id).closed = true → (s'.conns id).closed = true
  noted : ∀ e ∈ s.noted, e ∈ s'.noted

/-- A connection that is lost from the table is still accounted for. -/
theorem known_lose_erase (s : ConnectionTable) (id k : ℕ) (how : Gone) (h : s.Known id) :
    ({ s with table := s.table.erase k }.lose k how).Known id := by
  by_cases hk : id = k
  · exact Or.inr (by simp [lose, hk])
  · obtain h | h := h
    · exact Or.inl ((List.mem_erase_of_ne hk).mpr h)
    · exact Or.inr (by simp [lose] at h ⊢; tauto)

/-- The connection is closed, or has noted an activity within the timeout. -/
def Settled (cfg : IoConfig) (s : ConnectionTable) (id : ℕ) : Prop :=
  (s.conns id).closed = true ∨
    ∃ ms, (id, ms) ∈ s.noted ∧ s.sweeper.clock - ms ≤ cfg.heartbeatTimeoutMs

/-- What the table says of the last activity of a connection was noted. -/
def Noted (s : ConnectionTable) : Prop := ∀ id ∈ s.table, (id, (s.conns id).lastActiveMs) ∈ s.noted

/-- What the sweeper knows, at each place of its round, of what it has looked at. -/
structure Swept (cfg : IoConfig) (s : ConnectionTable) : Prop where
  todo : s.sweeper.place.locked = true → s.sweeper.todo.Nodup ∧
    (∀ id ∈ s.sweeper.todo, id ∈ s.table) ∧
      ∀ id ∈ s.sweeper.place.current, id ∈ s.table ∧ id ∉ s.sweeper.todo
  outside : s.sweeper.place.locked = false → s.sweeper.todo = []
  quiet : s.sweeper.place = .asleep ∨ s.sweeper.place = .lock → s.sweeper.expired = []
  found : ∀ id, s.sweeper.place = .testPending id ∨ s.sweeper.place = .reclaim id →
    (s.conns id).closed = true
  timed : ∀ id, s.sweeper.place = .testSilent id → 0 < cfg.heartbeatTimeoutMs
  round : ∀ id ∈ s.sweeper.round, s.Known id
  settled : 0 < cfg.heartbeatTimeoutMs → s.sweeper.place ≠ .lock → ∀ id ∈ s.sweeper.round,
    s.Settled cfg id ∨ id ∈ s.sweeper.todo ∨ id ∈ s.sweeper.place.current ∨
      id ∈ s.sweeper.expired.map Prod.fst
  expired : ∀ e ∈ s.sweeper.expired, s.Known e.1 ∧ e ∈ s.noted ∧ 0 < cfg.heartbeatTimeoutMs ∧
    cfg.heartbeatTimeoutMs < s.sweeper.clock - e.2
  cut : ∀ e ∈ s.sweeper.cut, s.Known e.1 ∧ (s.conns e.1).closed = true ∧
    (e.1, e.2.2) ∈ s.noted ∧ 0 < cfg.heartbeatTimeoutMs ∧ cfg.heartbeatTimeoutMs < e.2.1 - e.2.2
  reclaimed : ∀ id, (id, Gone.reclaimed) ∈ s.gone → (s.conns id).closed = true

theorem Onward.refl (s : ConnectionTable) : Onward s s :=
  ⟨fun _ h => h, fun _ _ h => h, fun _ h => h⟩

/-- A connection goes on, and the table and what is lost stay as they are. -/
theorem Onward.updConn (s : ConnectionTable) (id : ℕ) {f : Peer → Peer}
    (hclosed : (s.conns id).closed = true → (f (s.conns id)).closed = true) :
    Onward s (s.updConn id f) := by
  refine ⟨fun _ h => h, fun k _ hk => ?_, fun _ h => h⟩
  by_cases h : k = id
  · subst h
    simpa [ConnectionTable.updConn] using hclosed hk
  · simpa [ConnectionTable.updConn, h] using hk

/-- Adopting goes on from what was. -/
theorem Onward.adopt (hs : Placed cfg s) {i : ℕ} (hop : s.adopts.head i = some op)
    (h : s.adoptOp cfg ok op = some (s', new)) : Onward s s' := by
  have hlose : ∀ id how, Onward s (s.lose id how) := fun id how =>
    ⟨fun k hk => hk.imp_right fun hk => by simp [lose] at hk ⊢; tauto, fun _ _ h => h,
      fun _ h => h⟩
  cases op with
  | reserveId bound | countRefused =>
    cases h
    exact ⟨fun _ h => h, fun _ _ h => h, fun _ h => h⟩
  | connected k | bindSocket k =>
    simp only [adoptOp] at h
    split_ifs at h <;> cases h
    · exact Onward.refl s
    · exact hlose _ _
  | construct k bound =>
    cases h
    have hne : ∀ id, s.Known id → id ≠ k := by
      rintro id hid rfl
      exact hs.not_known hop (by simp [AdoptOp.holding]) hid
    refine ⟨fun _ h => h, fun id hid h => ?_, fun _ h => h⟩
    simpa [ConnectionTable.updConn, hne id hid] using h
  | register k =>
    simp only [adoptOp] at h
    split_ifs at h <;> cases h
    · exact hlose _ _
    · exact ⟨fun id hid => hid.imp_left (List.mem_append_left _), fun _ _ h => h,
        fun e he => List.mem_append_left _ he⟩
  | start k =>
    simp only [adoptOp] at h
    split_ifs at h <;> cases h
    · exact Onward.refl s
    · exact .updConn s k fun h => h
    · exact .updConn s k fun _ => rfl
  | eraseFailed k =>
    simp only [adoptOp] at h
    split_ifs at h <;> cases h
    · exact ⟨fun id hid => known_lose_erase s id k _ hid, fun _ _ h => h, fun _ h => h⟩
    · exact Onward.refl s

/-- What goes on beside the sweeper does it no harm. -/
theorem Swept.onward (hs : Swept cfg s) (hon : Onward s s') (hsweeper : s'.sweeper = s.sweeper)
    (htable : s.sweeper.place.locked = true → s'.table = s.table)
    (hgone : ∀ id, (id, Gone.reclaimed) ∈ s'.gone → (id, Gone.reclaimed) ∈ s.gone) :
    Swept cfg s' := by
  have hsettled : ∀ id, s.Known id → s.Settled cfg id → s'.Settled cfg id := by
    rintro id hid (h | ⟨ms, hms, hlate⟩)
    · exact Or.inl (hon.closed id hid h)
    · exact Or.inr ⟨ms, hon.noted _ hms, by rwa [hsweeper]⟩
  refine
    { todo := fun h => ?_
      outside := by rw [hsweeper]; exact hs.outside
      quiet := by rw [hsweeper]; exact hs.quiet
      found := fun id h => ?_
      timed := by rw [hsweeper]; exact hs.timed
      round := by rw [hsweeper]; exact fun id hid => hon.known id (hs.round id hid)
      settled := fun htime hplace id hid => ?_
      expired := by
        rw [hsweeper]
        intro e he
        obtain ⟨hknown, hnoted, hrest⟩ := hs.expired e he
        exact ⟨hon.known _ hknown, hon.noted _ hnoted, hrest⟩
      cut := fun e he => ?_
      reclaimed := fun id hid => ?_ }
  · rw [hsweeper] at h ⊢
    rw [htable h]
    exact hs.todo h
  · rw [hsweeper] at h
    have hlocked : s.sweeper.place.locked = true ∧ id ∈ s.sweeper.place.current := by
      obtain h | h := h <;> simp [h, SweepPlace.locked, SweepPlace.current]
    exact hon.closed id (Or.inl ((hs.todo hlocked.1).2.2 id hlocked.2).1) (hs.found id h)
  · rw [hsweeper] at hplace hid ⊢
    exact (hs.settled htime hplace id hid).imp_left (hsettled id (hs.round id hid))
  · obtain ⟨hknown, hclosed, hnoted, hrest⟩ := hs.cut e (hsweeper ▸ he)
    exact ⟨hon.known _ hknown, hon.closed _ hknown hclosed, hon.noted _ hnoted, hrest⟩
  · have hmem := hgone id hid
    exact hon.closed id (Or.inr (List.mem_map_of_mem (f := Prod.fst) hmem))
      (hs.reclaimed id hmem)

/-- Where the ids are does not depend on the times. -/
theorem Placed.congr (hs : Placed cfg s) (hnext : s'.nextId = s.nextId)
    (hadopts : s'.adopts = s.adopts) (htable : s'.table = s.table) (hrefused : s'.refused = s.refused)
    (hgone : s'.gone = s.gone) : Placed cfg s' := by
  obtain ⟨hpos, hplace, hlimit, hfull, hcounted⟩ := hs
  rw [← hnext] at hpos hplace
  rw [← htable] at hplace hlimit
  rw [← hgone] at hplace hfull hcounted
  rw [← hadopts] at hplace hcounted
  rw [← hrefused] at hcounted
  exact ⟨hpos, hplace, hlimit, hfull, hcounted⟩

/-- A connection that is reclaimed leaves the table for good. -/
theorem Placed.reclaim (hs : Placed cfg s) {k : ℕ} (hk : k ∈ s.table) (place : SweepPlace) :
    Placed cfg (({ s with table := s.table.erase k }.lose k .reclaimed).goTo place) := by
  have hlen := List.length_erase_of_mem hk
  refine ⟨hs.pos, fun id => ?_, fun hmax => ?_, fun id n hmem => hs.full id n ?_, ?_⟩
  · have hplace := hs.place id
    have hpos := List.count_pos_iff.mpr hk
    change _ = if 0 < id ∧ id < s.nextId then 1 else 0
    by_cases hid : k = id
    · subst hid
      simp only [goTo, lose, List.count_erase_self, List.map_append, List.count_append,
        List.map_cons, List.map_nil, List.count_singleton_self]
      omega
    · simpa [goTo, lose, hid, List.count_erase_of_ne (Ne.symm hid)] using hplace
  · have := hs.limit hmax
    simp only [goTo, lose, hlen]
    omega
  · simpa [goTo, lose] using hmem
  · simpa [goTo, lose, Gone.isRefused] using hs.counted

/-- The sweeper keeps each id in one place. -/
theorem Placed.sweep (hs : Placed cfg s) (hsw : Swept cfg s) (h : s.sweepOp cfg id = some s') :
    Placed cfg s' := by
  unfold sweepOp at h
  split at h
  case h_6 k hplace =>
    obtain rfl := Option.some.inj h
    have hlocked := hsw.todo (by rw [hplace]; rfl)
    exact hs.reclaim (hlocked.2.2 k (by rw [hplace]; rfl)).1 .scan
  all_goals repeat' split at h
  all_goals cases h
  all_goals exact hs.congr rfl rfl rfl rfl rfl

/-- The sweeper goes on from what was. -/
theorem onward_sweep (h : s.sweepOp cfg id = some s') : Onward s s' := by
  unfold sweepOp at h
  split at h
  case h_6 k hplace =>
    obtain rfl := Option.some.inj h
    exact ⟨fun id hid => known_lose_erase s id k _ hid, fun _ _ h => h, fun _ h => h⟩
  case h_9 hplace =>
    split at h <;> cases h
    · exact ⟨fun _ h => h, fun _ _ h => h, fun _ h => h⟩
    · rename_i k last expired _
      have hon := Onward.updConn s k (f := fun c => { c with closed := true }) fun _ => rfl
      exact ⟨hon.known, hon.closed, hon.noted⟩
  all_goals repeat' split at h
  all_goals cases h
  all_goals exact ⟨fun _ h => h, fun _ _ h => h, fun _ h => h⟩

/-- The sweeper goes on in its round. -/
theorem Swept.turn (hs : Swept cfg s) (hon : Onward s s')
    (hsame : s'.sweeper.round = s.sweeper.round ∧ s'.sweeper.clock = s.sweeper.clock ∧
      s'.sweeper.cut = s.sweeper.cut ∧ s.sweeper.place ≠ .lock)
    (htodo : s'.sweeper.place.locked = true → s'.sweeper.todo.Nodup ∧
      (∀ id ∈ s'.sweeper.todo, id ∈ s'.table) ∧
        ∀ id ∈ s'.sweeper.place.current, id ∈ s'.table ∧ id ∉ s'.sweeper.todo)
    (houtside : s'.sweeper.place.locked = false → s'.sweeper.todo = [])
    (hquiet : s'.sweeper.place = .asleep ∨ s'.sweeper.place = .lock → s'.sweeper.expired = [])
    (hfound : ∀ id, s'.sweeper.place = .testPending id ∨ s'.sweeper.place = .reclaim id →
      (s'.conns id).closed = true)
    (htimed : ∀ id, s'.sweeper.place = .testSilent id → 0 < cfg.heartbeatTimeoutMs)
    (hleft : ∀ id, id ∈ s.sweeper.todo ∨ id ∈ s.sweeper.place.current ∨
        id ∈ s.sweeper.expired.map Prod.fst → 0 < cfg.heartbeatTimeoutMs →
      s'.Settled cfg id ∨ id ∈ s'.sweeper.todo ∨ id ∈ s'.sweeper.place.current ∨
        id ∈ s'.sweeper.expired.map Prod.fst)
    (hexpired : ∀ e ∈ s'.sweeper.expired, e ∈ s.sweeper.expired ∨ s.Known e.1 ∧ e ∈ s.noted ∧
      0 < cfg.heartbeatTimeoutMs ∧ cfg.heartbeatTimeoutMs < s.sweeper.clock - e.2)
    (hgone : ∀ id, (id, Gone.reclaimed) ∈ s'.gone →
      (id, Gone.reclaimed) ∈ s.gone ∨ (s'.conns id).closed = true) : Swept cfg s' := by
  obtain ⟨hround, hclock, hcut, hlock⟩ := hsame
  refine
    { todo := htodo
      outside := houtside
      quiet := hquiet
      found := hfound
      timed := htimed
      round := fun id hid => hon.known id (hs.round id (hround ▸ hid))
      settled := fun htime _ id hid => ?_
      expired := fun e he => ?_
      cut := fun e he => ?_
      reclaimed := fun id hid => ?_ }
  · have hid : id ∈ s.sweeper.round := hround ▸ hid
    obtain (hclosed | ⟨ms, hms, hlate⟩) | hleft' := hs.settled htime hlock id hid
    · exact Or.inl (Or.inl (hon.closed id (hs.round id hid) hclosed))
    · exact Or.inl (Or.inr ⟨ms, hon.noted _ hms, by rwa [hclock]⟩)
    · exact hleft id hleft' htime
  · rw [hclock]
    obtain ⟨hknown, hnoted, hrest⟩ := (hexpired e he).elim (hs.expired e) id
    exact ⟨hon.known _ hknown, hon.noted _ hnoted, hrest⟩
  · obtain ⟨hknown, hclosed, hnoted, hrest⟩ := hs.cut e (hcut ▸ he)
    exact ⟨hon.known _ hknown, hon.closed _ hknown hclosed, hon.noted _ hnoted, hrest⟩
  · obtain hmem | hclosed := hgone id hid
    · exact hon.closed id (Or.inr (List.mem_map_of_mem (f := Prod.fst) hmem))
        (hs.reclaimed id hmem)
    · exact hclosed

/-- The next connection, or the end of the scan. -/
theorem Swept.scan (hs : Swept cfg s) (hplace : s.sweeper.place = .scan)
    (h : s.sweepOp cfg id = some s') : Swept cfg s' := by
  have hon := onward_sweep h
  obtain ⟨hnodup, hmem, -⟩ := hs.todo (by rw [hplace]; rfl)
  simp only [sweepOp, hplace] at h
  split_ifs at h with hnil hid <;> cases h
  · refine hs.turn hon ⟨rfl, rfl, rfl, by simp [hplace]⟩ (by simp [goTo, SweepPlace.locked])
      (fun _ => hnil) (by simp [goTo]) (by simp [goTo]) (by simp [goTo]) (fun id hleft _ => ?_)
      (fun e he => Or.inl he) fun _ hgone => Or.inl hgone
    right
    simpa [hnil, hplace, SweepPlace.current, goTo] using hleft
  · refine hs.turn hon ⟨rfl, rfl, rfl, by simp [hplace]⟩ (fun _ => ⟨hnodup.erase id, ?_, ?_⟩)
      (by simp [SweepPlace.locked]) (by simp) (by simp) (by simp) (fun k hleft _ => ?_)
      (fun e he => Or.inl he) fun _ hgone => Or.inl hgone
    · exact fun k hk => hmem k (List.mem_of_mem_erase hk)
    · simpa [SweepPlace.current] using ⟨hmem id hid, hnodup.not_mem_erase⟩
    · by_cases hk : k = id
      · exact Or.inr (Or.inr (Or.inl (by simp [SweepPlace.current, hk])))
      · obtain hleft | hleft | hleft := hleft
        · exact Or.inr (Or.inl ((List.mem_erase_of_ne hk).mpr hleft))
        · simp [hplace, SweepPlace.current] at hleft
        · exact Or.inr (Or.inr (Or.inr hleft))

/-- The sweeper reads on about the connection it looks at. -/
theorem Swept.look (hs : Swept cfg s) {k : ℕ} {place : SweepPlace}
    (hlocked : s.sweeper.place.locked = true) (hlocked' : place.locked = true)
    (hcurrent : s.sweeper.place.current = some k) (hcurrent' : place.current = some k)
    (hfound : place = .testPending k ∨ place = .reclaim k → (s.conns k).closed = true)
    (htimed : place = .testSilent k → 0 < cfg.heartbeatTimeoutMs) : Swept cfg (s.goTo place) := by
  have hk : ∀ id, place = .testPending id ∨ place = .reclaim id ∨ place = .testSilent id →
      id = k := by
    rintro id (rfl | rfl | rfl) <;> exact Option.some.inj hcurrent'
  refine hs.turn ⟨fun _ h => h, fun _ _ h => h, fun _ h => h⟩
    ⟨rfl, rfl, rfl, fun h => by simp [h, SweepPlace.locked] at hlocked⟩ (fun _ => ?_)
    (fun h => ?_) (fun h => ?_) (fun id h => ?_) (fun id h => ?_) (fun id hleft _ => ?_)
    (fun e he => Or.inl he) fun _ hgone => Or.inl hgone
  · have htodo := hs.todo hlocked
    rw [hcurrent] at htodo
    simpa only [goTo, hcurrent'] using htodo
  · simp [goTo, hlocked'] at h
  · simp only [goTo] at h
    obtain rfl | rfl := h <;> cases hlocked'
  · obtain rfl := hk id (h.imp_right Or.inl)
    exact hfound h
  · obtain rfl := hk id (Or.inr (Or.inr h))
    exact htimed h
  · right
    simpa only [goTo, hcurrent, hcurrent'] using hleft

/-- The sweeper is through with the connection it looks at. -/
theorem Swept.back (hs : Swept cfg s) {k : ℕ} (hlocked : s.sweeper.place.locked = true)
    (hcurrent : s.sweeper.place.current = some k)
    (hk : 0 < cfg.heartbeatTimeoutMs → s.Settled cfg k) : Swept cfg (s.goTo .scan) := by
  obtain ⟨hnodup, hmem, -⟩ := hs.todo hlocked
  refine hs.turn ⟨fun _ h => h, fun _ _ h => h, fun _ h => h⟩
    ⟨rfl, rfl, rfl, fun h => by simp [h, SweepPlace.locked] at hlocked⟩
    (fun _ => ⟨hnodup, hmem, by simp [goTo, SweepPlace.current]⟩) (by simp [goTo, SweepPlace.locked])
    (by simp [goTo]) (by simp [goTo]) (by simp [goTo]) (fun id hleft htime => ?_)
    (fun e he => Or.inl he) fun _ hgone => Or.inl hgone
  obtain hleft | hleft | hleft := hleft
  · exact Or.inr (Or.inl hleft)
  · obtain rfl : k = id := by simpa [hcurrent] using hleft
    exact Or.inl (hk htime)
  · exact Or.inr (Or.inr (Or.inr hleft))

/-- What the sweeper has seen stays true as it reclaims a connection. -/
theorem Swept.reclaim (hs : Swept cfg s) {k : ℕ} (hplace : s.sweeper.place = .reclaim k)
    (hon : Onward s (({ s with table := s.table.erase k }.lose k .reclaimed).goTo .scan)) :
    Swept cfg (({ s with table := s.table.erase k }.lose k .reclaimed).goTo .scan) := by
  have hclosed := hs.found k (Or.inr hplace)
  obtain ⟨hnodup, hmem, hcurrent⟩ := hs.todo (by rw [hplace]; rfl)
  have hnot : k ∉ s.sweeper.todo := (hcurrent k (by rw [hplace]; rfl)).2
  refine hs.turn hon ⟨rfl, rfl, rfl, by simp [hplace]⟩
    (fun _ => ⟨hnodup, fun id hid => ?_, by simp [goTo, SweepPlace.current]⟩)
    (by simp [goTo, SweepPlace.locked]) (by simp [goTo]) (by simp [goTo]) (by simp [goTo])
    (fun id hleft _ => ?_) (fun e he => Or.inl he) fun id hgone => ?_
  · have hne : id ≠ k := by
      rintro rfl
      exact hnot hid
    exact (List.mem_erase_of_ne hne).mpr (hmem id hid)
  · obtain hleft | hleft | hleft := hleft
    · exact Or.inr (Or.inl hleft)
    · obtain rfl : k = id := by simpa [hplace, SweepPlace.current] using hleft
      exact Or.inl (Or.inl hclosed)
    · exact Or.inr (Or.inr (Or.inr hleft))
  · obtain hgone | hgone := List.mem_append.mp hgone
    · exact Or.inl hgone
    · obtain rfl : id = k := by simpa using hgone
      exact Or.inr hclosed

/-- A connection is found silent. -/
theorem Swept.silent (hs : Swept cfg s) (hn : s.Noted) {k : ℕ}
    (hplace : s.sweeper.place = .testSilent k)
    (hlate : cfg.heartbeatTimeoutMs < s.sweeper.clock - (s.conns k).lastActiveMs) :
    Swept cfg { s with
      sweeper := { s.sweeper with
        expired := s.sweeper.expired ++ [(k, (s.conns k).lastActiveMs)], place := .scan } } := by
  obtain ⟨hnodup, hmem, hcurrent⟩ := hs.todo (by rw [hplace]; rfl)
  refine hs.turn ⟨fun _ h => h, fun _ _ h => h, fun _ h => h⟩
    ⟨rfl, rfl, rfl, by simp [hplace]⟩ (fun _ => ⟨hnodup, hmem, by simp [SweepPlace.current]⟩)
    (by simp [SweepPlace.locked]) (by simp) (by simp) (by simp) (fun id hleft _ => ?_)
    (fun e he => ?_) fun id hgone => Or.inl hgone
  · obtain hleft | hleft | hleft := hleft
    · exact Or.inr (Or.inl hleft)
    · obtain rfl : k = id := by simpa [hplace, SweepPlace.current] using hleft
      simp
    · exact Or.inr (Or.inr (Or.inr (by simp at hleft ⊢; tauto)))
  · obtain he | he := List.mem_append.mp he
    · exact Or.inl he
    · obtain rfl := List.mem_singleton.mp he
      have hk := (hcurrent k (by rw [hplace]; rfl)).1
      exact Or.inr ⟨Or.inl hk, hn k hk, hs.timed k hplace, hlate⟩

/-- A round begins, with the clock and with what is in the table. -/
theorem Swept.begin (hs : Swept cfg s) (hp : Placed cfg s)
    (hplace : s.sweeper.place = .asleep ∨ s.sweeper.place = .lock)
    (h : s.sweepOp cfg id = some s') : Swept cfg s' := by
  have hexpired := hs.quiet hplace
  obtain hplace | hplace := hplace <;> simp only [sweepOp, hplace] at h <;> cases h
  · exact
      { todo := by simp [SweepPlace.locked]
        outside := fun _ => hs.outside (by rw [hplace]; rfl)
        quiet := fun _ => hexpired
        found := by simp
        timed := by simp
        round := hs.round
        settled := by simp
        expired := by simp [hexpired]
        cut := hs.cut
        reclaimed := hs.reclaimed }
  · exact
      { todo := fun _ => ⟨hp.nodup, fun _ h => h, by simp [SweepPlace.current]⟩
        outside := by simp [SweepPlace.locked]
        quiet := by simp
        found := by simp
        timed := by simp
        round := fun _ h => Or.inl h
        settled := fun _ _ _ h => Or.inr (Or.inl h)
        expired := by simp [hexpired]
        cut := hs.cut
        reclaimed := hs.reclaimed }

/-- What has been found silent is closed, one after the other. -/
theorem Swept.close (hs : Swept cfg s) (hplace : s.sweeper.place = .close)
    (h : s.sweepOp cfg id = some s') : Swept cfg s' := by
  have hon := onward_sweep h
  have hnil := hs.outside (by rw [hplace]; rfl)
  simp only [sweepOp, hplace] at h
  split at h <;> cases h
  · rename_i hexpired
    refine hs.turn hon ⟨rfl, rfl, rfl, by simp [hplace]⟩ (by simp [goTo, SweepPlace.locked])
      (fun _ => hnil) (fun _ => hexpired) (by simp [goTo]) (by simp [goTo])
      (fun id hleft _ => ?_) (fun e he => Or.inl he) fun id hgone => Or.inl hgone
    simp [hnil, hplace, hexpired, SweepPlace.current] at hleft
  · rename_i k last expired hexpired
    have hk := hs.expired (k, last) (by simp [hexpired])
    have hclosed : ((s.updConn k fun c => { c with closed := true }).conns k).closed = true := by
      simp [updConn]
    exact
      { todo := by simp [SweepPlace.locked]
        outside := fun _ => hnil
        quiet := by simp
        found := by simp
        timed := by simp
        round := hs.round
        settled := fun htime _ id hid => by
          by_cases hk : id = k
          · subst hk
            exact Or.inl (Or.inl hclosed)
          · have hsettled := hs.settled htime (by simp [hplace]) id hid
            rw [hnil, hplace, hexpired] at hsettled
            simpa [Settled, updConn, hk, hnil, SweepPlace.current] using hsettled
        expired := fun e he => hs.expired e (by rw [hexpired]; exact List.mem_cons_of_mem _ he)
        cut := fun e he => by
          obtain he | he := List.mem_append.mp he
          · obtain ⟨hknown, hclosed, hrest⟩ := hs.cut e he
            exact ⟨hknown, hon.closed _ hknown hclosed, hrest⟩
          · obtain rfl := List.mem_singleton.mp he
            exact ⟨hk.1, hclosed, hk.2⟩
        reclaimed := fun id hid => hon.closed id
          (Or.inr (List.mem_map_of_mem (f := Prod.fst) hid)) (hs.reclaimed id hid) }

/-- And as it goes on through the table. -/
theorem Swept.sweep (hs : Swept cfg s) (hp : Placed cfg s) (hn : s.Noted)
    (h : s.sweepOp cfg id = some s') : Swept cfg s' := by
  have hon := onward_sweep h
  cases hplace : s.sweeper.place with
  | asleep => exact hs.begin hp (Or.inl hplace) h
  | lock => exact hs.begin hp (Or.inr hplace) h
  | scan => exact hs.scan hplace h
  | close => exact hs.close hplace h
  | testClosed k =>
    simp only [sweepOp, hplace] at h
    cases h
    refine hs.look (k := k) (by rw [hplace]; rfl) (by split_ifs <;> rfl) (by rw [hplace]; rfl)
      (by split_ifs <;> rfl) ?_ ?_ <;> split_ifs with hclosed <;> simp [hclosed]
  | testPending k =>
    have hclosed := hs.found k (Or.inl hplace)
    simp only [sweepOp, hplace] at h
    cases h
    refine hs.look (k := k) (by rw [hplace]; rfl) (by split_ifs <;> rfl) (by rw [hplace]; rfl)
      (by split_ifs <;> rfl) ?_ ?_ <;> split_ifs <;> simp [hclosed]
  | reclaim k =>
    simp only [sweepOp, hplace] at h
    cases h
    exact hs.reclaim hplace hon
  | testOpen k =>
    simp only [sweepOp, hplace] at h
    split_ifs at h with htest <;> cases h
    · exact hs.look (k := k) (by rw [hplace]; rfl) rfl (by rw [hplace]; rfl) rfl (by simp)
        fun _ => htest.1
    · refine hs.back (k := k) (by rw [hplace]; rfl) (by rw [hplace]; rfl) fun htime => Or.inl ?_
      simpa [htime] using htest
  | testSilent k =>
    simp only [sweepOp, hplace] at h
    split_ifs at h with hlate <;> cases h
    · exact hs.silent hn hplace hlate
    · obtain ⟨-, -, hcurrent⟩ := hs.todo (by rw [hplace]; rfl)
      have hk := (hcurrent k (by rw [hplace]; rfl)).1
      exact hs.back (k := k) (by rw [hplace]; rfl) (by rw [hplace]; rfl) fun _ =>
        Or.inr ⟨_, hn k hk, not_lt.mp hlate⟩

/-- Nothing enters the table, and the connections in it keep their times. -/
theorem Noted.congr (hn : s.Noted) (htable : ∀ id ∈ s'.table, id ∈ s.table)
    (hactive : ∀ id ∈ s.table, (s'.conns id).lastActiveMs = (s.conns id).lastActiveMs)
    (hnoted : s'.noted = s.noted) : s'.Noted := by
  intro id hid
  rw [hactive id (htable id hid), hnoted]
  exact hn id (htable id hid)

/-- A connection goes on with its time. -/
theorem Noted.updConn (hn : s.Noted) (id : ℕ) {f : Peer → Peer}
    (hactive : (f (s.conns id)).lastActiveMs = (s.conns id).lastActiveMs) :
    (s.updConn id f).Noted := by
  refine hn.congr (fun _ h => h) (fun k _ => ?_) rfl
  by_cases h : k = id
  · subst h
    simpa [ConnectionTable.updConn] using hactive
  · simp [ConnectionTable.updConn, h]

/-- A connection is touched. -/
theorem Noted.touch (hn : s.Noted) (id : ℕ) (ms : ℤ) :
    ((s.updConn id fun c => { c with lastActiveMs := ms }).note id ms).Noted := by
  intro k hk
  by_cases h : k = id
  · subst h
    simp [ConnectionTable.updConn, note]
  · exact List.mem_append_left _ (by simpa [ConnectionTable.updConn, note, h] using hn k hk)

/-- A new connection is noted as it is adopted. -/
theorem Noted.adopt (hn : s.Noted) (hs : Placed cfg s) {i : ℕ} (hop : s.adopts.head i = some op)
    (h : s.adoptOp cfg ok op = some (s', new)) : s'.Noted := by
  cases op with
  | reserveId bound | countRefused =>
    cases h
    exact hn
  | connected k | bindSocket k =>
    simp only [adoptOp] at h
    split_ifs at h <;> cases h <;> exact hn
  | construct k bound =>
    cases h
    refine hn.congr (fun _ h => h) (fun id hid => ?_) rfl
    have hne : id ≠ k := by
      rintro rfl
      exact hs.not_known hop (by simp [AdoptOp.holding]) (Or.inl hid)
    simp [ConnectionTable.updConn, hne]
  | register k =>
    simp only [adoptOp] at h
    split_ifs at h <;> cases h
    · exact hn
    · intro id hid
      obtain hid | hid := List.mem_append.mp hid
      · exact List.mem_append_left _ (hn id hid)
      · obtain rfl := List.mem_singleton.mp hid
        exact List.mem_append_right _ (List.mem_singleton.mpr rfl)
  | start k =>
    simp only [adoptOp] at h
    split_ifs at h <;> cases h
    · exact hn
    · exact hn.updConn k rfl
    · exact hn.updConn k rfl
  | eraseFailed k =>
    simp only [adoptOp] at h
    split_ifs at h <;> cases h
    · exact hn.congr (fun _ h => List.mem_of_mem_erase h) (fun _ _ => rfl) rfl
    · exact hn

/-- The sweeper notes nothing. -/
theorem Noted.sweep (hn : s.Noted) (h : s.sweepOp cfg id = some s') : s'.Noted := by
  unfold sweepOp at h
  split at h
  case h_6 k hplace =>
    obtain rfl := Option.some.inj h
    exact hn.congr (fun _ h => List.mem_of_mem_erase h) (fun _ _ => rfl) rfl
  case h_9 hplace =>
    split at h <;> cases h
    · exact hn
    · rename_i k last expired _
      exact hn.updConn k (f := fun c => { c with closed := true }) rfl
  all_goals repeat' split at h
  all_goals cases h
  all_goals exact hn

/-- What holds of the table in every run. -/
structure Sound (cfg : IoConfig) (s : ConnectionTable) : Prop where
  placed : Placed cfg s
  swept : Swept cfg s
  noted : s.Noted

theorem sound_fresh (cfg : IoConfig) : Sound cfg fresh := by
  refine ⟨⟨by simp [fresh], fun id => ?_, fun h => ?_, by simp [fresh], by simp [fresh]⟩, ?_, ?_⟩
  · rw [if_neg (by simp only [fresh]; omega)]
    rfl
  · simpa [fresh] using h.le
  · constructor <;> simp [fresh, SweepPlace.locked]
  · simp [Noted, fresh]

/-- Every step keeps the table sound. -/
theorem Sound.step (hs : Sound cfg s) {a : TableStep}
    (hstep : (connectionTable cfg).step s a = some s') : Sound cfg s' := by
  obtain ⟨hp, hw, hn⟩ := hs
  -- a step of a connection, which the sweeper may be looking at
  have hconn : ∀ id (f : Peer → Peer),
      ((s.conns id).closed = true → (f (s.conns id)).closed = true) →
        (f (s.conns id)).lastActiveMs = (s.conns id).lastActiveMs → Sound cfg (s.updConn id f) :=
    fun id f hclosed hactive => ⟨hp.congr rfl rfl rfl rfl rfl,
      hw.onward (.updConn s id hclosed) rfl (fun _ => rfl) fun _ h => h, hn.updConn id hactive⟩
  simp only [connectionTable] at hstep
  cases a with
  | accept | connect =>
    cases hstep
    refine ⟨⟨hp.pos, fun id => ?_, hp.limit, hp.full, ?_⟩,
      hw.onward ⟨fun _ h => h, fun _ _ h => h, fun _ h => h⟩ rfl (fun _ => rfl) fun _ h => h, hn⟩
    · simpa [AdoptOp.holding] using hp.place id
    · simpa [AdoptOp.refusing] using hp.counted
  | adopt i ok =>
    simp only [ConnectionTable.step] at hstep
    split at hstep
    · cases hstep
    · rename_i op hop
      obtain ⟨⟨t, new⟩, hadopt, rfl⟩ := Option.map_eq_some_iff.mp hstep
      have hon := Onward.adopt hp hop hadopt
      have hnoted := hn.adopt hp hop hadopt
      have hrest := adoptOp_rest hadopt
      exact ⟨hp.adopt hop hadopt, hw.onward ⟨hon.known, hon.closed, hon.noted⟩ hrest.1 hrest.2.1
        hrest.2.2, hnoted⟩
  | sweep id => exact ⟨hp.sweep hw hstep, hw.sweep hp hn hstep, hn.sweep hstep⟩
  | tick ms =>
    cases hstep
    exact ⟨hp.congr rfl rfl rfl rfl rfl,
      hw.onward ⟨fun _ h => h, fun _ _ h => h, fun _ h => h⟩ rfl (fun _ => rfl) fun _ h => h, hn⟩
  | touch id ms =>
    simp only [ConnectionTable.step] at hstep
    split_ifs at hstep
    cases hstep
    have hon := Onward.updConn s id (f := fun c => { c with lastActiveMs := ms }) fun h => h
    refine ⟨hp.congr rfl rfl rfl rfl rfl, hw.onward ?_ rfl (fun _ => rfl) fun _ h => h,
      hn.touch id ms⟩
    exact ⟨hon.known, hon.closed, fun e he => List.mem_append_left _ he⟩
  | close id =>
    cases hstep
    exact hconn id _ (fun _ => rfl) rfl
  | raise id | lower id =>
    cases hstep
    exact hconn id _ (fun h => h) rfl

/-- The table is sound in every state that is reached. -/
theorem sound_of_reaches (h : (connectionTable cfg).Reaches s) : Sound cfg s := by
  refine h.invariant ?_ fun s a s' hs hstep => hs.step hstep
  rintro s rfl
  exact sound_fresh cfg

end ConnectionTable

/-- In every run, whatever workers adopt side by side and whatever the sweeper does : when
`max_connections` is set, the table never has more entries; each identifier that has been issued is
in one place, with a call that adopts it, in the table or lost; a call is refused only when the
table is full; and each refusal is counted, or is about to be. -/
theorem table_bounded {cfg : IoConfig} {s : ConnectionTable} (h : (connectionTable cfg).Reaches s) :
    (0 < cfg.maxConnections → s.table.length ≤ cfg.maxConnections) ∧
      (∀ id, s.adopts.weight (AdoptOp.holding id) + s.table.count id +
        (s.gone.map Prod.fst).count id = if 0 < id ∧ id < s.nextId then 1 else 0) ∧
      (∀ id n, (id, Gone.refused n) ∈ s.gone →
        0 < cfg.maxConnections ∧ cfg.maxConnections ≤ n) ∧
      s.refused + s.adopts.weight AdoptOp.refusing = s.gone.countP fun g => g.2.isRefused :=
  have hp := (ConnectionTable.sound_of_reaches h).placed
  ⟨hp.limit, hp.place, hp.full, hp.counted⟩

/-- Two sockets are accepted, and there is room for one. -/
def crowdedRun : List TableStep :=
  [.accept, .accept] ++ List.replicate 5 (.adopt 0 true) ++ List.replicate 5 (.adopt 1 true)

/-- With a limit of one, a second connection is refused. -/
theorem table_bounded_refused : ∃ s : ConnectionTable, s.table = [1] ∧ s.refused = 1 ∧
    (s.table.length : ℤ) ≤ 1 := by
  obtain ⟨s, hs, htest⟩ := (connectionTable ⟨1, 10⟩).exists_reachesWhen (fun _ _ => True) .fresh
    crowdedRun (fun s => s.table = [1] ∧ s.refused = 1) rfl (by decide +kernel)
  obtain ⟨htable, hrefused⟩ := of_decide_eq_true htest
  exact ⟨s, htable, hrefused, (table_bounded hs).1 one_pos⟩

/-- In every run, whatever the sweeper takes out is closed; the time that it has read of what it
closes was noted, and is longer ago than the timeout, by the clock of its round; and between two
rounds, everything that was in the table when the last one began is closed, or has noted an activity
within the timeout before it. -/
theorem sweep_closes_silent {cfg : IoConfig} {s : ConnectionTable}
    (h : (connectionTable cfg).Reaches s) :
    (∀ id, (id, Gone.reclaimed) ∈ s.gone → (s.conns id).closed = true) ∧
      (∀ id clock last, (id, clock, last) ∈ s.sweeper.cut → (s.conns id).closed = true ∧
        (id, last) ∈ s.noted ∧
          0 < cfg.heartbeatTimeoutMs ∧ cfg.heartbeatTimeoutMs < clock - last) ∧
      (s.sweeper.place = .asleep → 0 < cfg.heartbeatTimeoutMs → ∀ id ∈ s.sweeper.round,
        (s.conns id).closed = true ∨
          ∃ ms, (id, ms) ∈ s.noted ∧ s.sweeper.clock - ms ≤ cfg.heartbeatTimeoutMs) := by
  have hs := (ConnectionTable.sound_of_reaches h).swept
  refine ⟨hs.reclaimed, fun id clock last hmem => (hs.cut _ hmem).2, fun hplace htime id hid => ?_⟩
  have hsettled := hs.settled htime (by simp [hplace]) id hid
  rw [hs.outside (by rw [hplace]; rfl), hs.quiet (Or.inl hplace), hplace] at hsettled
  simpa [ConnectionTable.Settled, SweepPlace.current] using hsettled

/-- The connection is silent, is closed in one round and taken out in the next. -/
theorem sweep_closes_silent_twice : ∃ s : ConnectionTable,
    s.gone = [(2, .refused 1), (1, .reclaimed)] ∧ s.sweeper.cut = [(1, 20, 0)] ∧
      ∀ id, (id, Gone.reclaimed) ∈ s.gone → (s.conns id).closed = true := by
  obtain ⟨s, hs, htest⟩ := (connectionTable ⟨1, 10⟩).exists_reachesWhen (fun _ _ => True) .fresh
    (crowdedRun ++ [.tick 20] ++ List.replicate 9 (.sweep 1) ++ [.lower 1] ++
      List.replicate 8 (.sweep 1))
    (fun s => s.gone = [(2, .refused 1), (1, .reclaimed)] ∧ s.sweeper.cut = [(1, 20, 0)]) rfl
    (by decide +kernel)
  obtain ⟨hgone, hcut⟩ := of_decide_eq_true htest
  exact ⟨s, hgone, hcut, (sweep_closes_silent hs).1⟩

end EchoServer
