import EchoServer.Lib.Machine

/-!
# The connection of a worker

`WorkerPool::run` in `db/db_worker_pool.cpp`, as far as it looks after its connection : it opens it,
tries again while it is lost, pings it while it has nothing to do, and `handle` opens it once more
for a request that may be repeated. What the database answers, and how long anything takes, is left
open.

`connected` is what `connected_workers` counts. Other threads read it at any time, so the store
behind an `open` that succeeds is a step of its own. `KeeperHistory` records the clock at what the
worker has done; no step reads it.

`reconnect_paced` : the flag is down only while the connection is lost, or is about to be raised;
while the connection is lost, the worker tries to open it once a second, a request makes one attempt
more at most, and no attempt is late by more than a round takes; and a ping comes three seconds
after the last one and after the last request at the earliest.
-/

namespace EchoServer

/-- The time between two attempts of the loop. -/
def kReconnectIntervalMs : ℕ := 1000

/-- The time without a request after which the connection is tried. -/
def kIdlePingIntervalMs : ℕ := 3000

/-- Where `connected` is stored after an `open`. -/
inductive Opener where
  | start
  | loop
  | handle
  deriving DecidableEq

/-- Where `run` is. -/
inductive KeeperPlace where
  | opening
  | maintain
  | ping
  /-- The batch; `done` tells whether it had a request. -/
  | serve (done : Bool)
  /-- A request has lost the connection, and may be repeated. -/
  | reopen
  | store (opener : Opener)
  /-- The request is repeated. -/
  | again
  | wait
  deriving DecidableEq

/-- What a run has done. -/
structure KeeperHistory where
  /-- The attempts of `run` that have failed since the connection was open, each by the clock that
  the next one is counted from. -/
  failed : List ℕ
  /-- The attempts of `handle` that have. -/
  retried : ℕ
  lostAt : ℕ
  /-- When the round began. -/
  began : ℕ
  /-- When the worker was last through with a batch that had a request. -/
  served : ℕ
  /-- The pings, each with `served` as it was. -/
  pings : List (ℕ × ℕ)
  deriving DecidableEq

/-- A worker, as it looks after its connection. -/
structure Keeper where
  now : ℕ
  usable : Bool
  connected : Bool
  nextRetryMs : ℕ
  nextPingMs : ℕ
  place : KeeperPlace
  history : KeeperHistory
  deriving DecidableEq

/-- What the worker does next, or has to do. -/
inductive KeeperStep where
  /-- The worker goes on : what `open` or `ping` answers, or whether a request that is repeated
  keeps the connection, and how long it takes. -/
  | go (ok : Bool) (ms : ℕ)
  /-- A request of the batch. -/
  | request (lost retrySafe : Bool) (ms : ℕ)
  /-- The end of a round, with a signal or after a sleep. -/
  | sleep (signaled : Bool) (ms : ℕ)

namespace Keeper

/-- The worker before its first attempt. -/
def start (now : ℕ) : Keeper :=
  ⟨now, false, false, 0, now + kIdlePingIntervalMs, .opening, ⟨[], 0, now, now, now, []⟩⟩

/-- `ensure_usable` has opened the connection. -/
def opened (opener : Opener) (ms : ℕ) (s : Keeper) : Keeper :=
  { s with
    now := s.now + ms
    usable := true
    place := .store opener
    history := { s.history with failed := [], retried := 0 } }

/-- The connection is found lost. -/
def lose (ms : ℕ) (s : Keeper) : Keeper :=
  { s with
    now := s.now + ms
    usable := false
    history := { s.history with lostAt := s.now + ms } }

/-- The worker goes on in its round. -/
def go (ok : Bool) (ms : ℕ) (s : Keeper) : Option Keeper :=
  match s.place with
  | .opening =>
    if ok then some (s.opened .start ms)
    else
      some { s.lose ms with
        nextRetryMs := s.now + ms + kReconnectIntervalMs
        place := .maintain
        history := { (s.lose ms).history with
          failed := s.history.failed ++ [s.now + ms]
          began := s.now + ms } }
  | .maintain =>
    if !s.usable && s.nextRetryMs ≤ s.now then
      if ok then some (s.opened .loop ms)
      else
        some { s with
          now := s.now + ms
          connected := false
          nextRetryMs := s.now + kReconnectIntervalMs
          place := .ping
          history := { s.history with failed := s.history.failed ++ [s.now] } }
    else some { s with place := .ping }
  | .ping =>
    if s.usable && s.nextPingMs ≤ s.now then
      let pinged : Keeper := { s with
        nextPingMs := s.now + kIdlePingIntervalMs
        place := .serve false
        history := { s.history with pings := s.history.pings ++ [(s.now, s.history.served)] } }
      if ok then some { pinged with now := s.now + ms }
      else some { pinged.lose ms with connected := false, nextRetryMs := 0 }
    else some { s with place := .serve false }
  | .serve done =>
    if done then
      some { s with
        nextPingMs := s.now + kIdlePingIntervalMs
        place := .wait
        history := { s.history with served := s.now } }
    else some { s with place := .wait }
  | .reopen =>
    if ok then some (s.opened .handle ms)
    else
      some { s with
        now := s.now + ms
        place := .serve true
        history := { s.history with retried := s.history.retried + 1 } }
  | .store opener =>
    some { s with
      connected := true
      place := match opener with | .start => .maintain | .loop => .ping | .handle => .again }
  | .again =>
    if ok then some { s with now := s.now + ms, place := .serve true }
    else some { s.lose ms with place := .serve true }
  | .wait => none

/-- A request; without a connection it is refused. -/
def request (lost retrySafe : Bool) (ms : ℕ) (s : Keeper) : Option Keeper :=
  match s.place with
  | .serve _ =>
    if s.usable && lost then
      some { s.lose ms with place := if retrySafe then .reopen else .serve true }
    else some { s with now := s.now + ms, place := .serve true }
  | _ => none

/-- How long the worker waits at most for a signal. -/
def waitMs (s : Keeper) : ℕ :=
  if s.usable then 50 else min (max 1 (s.nextRetryMs - s.now)) kReconnectIntervalMs

/-- The worker waits for a request, or for the next thing to do. -/
def sleep (ms : ℕ) (s : Keeper) : Option Keeper :=
  match s.place with
  | .wait =>
    some { s with
      now := s.now + ms
      place := .maintain
      history := { s.history with began := s.now + ms } }
  | _ => none

/-- What the worker does next. -/
def step (s : Keeper) : KeeperStep → Option Keeper
  | .go ok ms => s.go ok ms
  | .request lost retrySafe ms => s.request lost retrySafe ms
  | .sleep _ ms => s.sleep ms

/-- A round takes at most `busyMs`, the sleep that it asks for apart. -/
def Prompt (busyMs : ℕ) (s : Keeper) : KeeperStep → Prop
  | .sleep signaled ms =>
    s.now - s.history.began + (ms - if signaled then 0 else s.waitMs) ≤ busyMs
  | _ => True

instance (busyMs : ℕ) (s : Keeper) (a : KeeperStep) : Decidable (s.Prompt busyMs a) := by
  cases a <;> unfold Prompt <;> infer_instance

end Keeper

/-- The worker from its start on. -/
def keeper : Machine Keeper KeeperStep where
  init s := ∃ now, s = .start now
  step := Keeper.step

/-- The worker is in a round, and may have found the connection lost. -/
def KeeperPlace.inRound : KeeperPlace → Bool
  | ping | serve _ | reopen | wait => true
  | _ => false

namespace Keeper

variable {busyMs : ℕ} {s s' : Keeper}

/-- What the next attempt is counted from. -/
def due (s : Keeper) : ℕ :=
  s.history.failed.getLast?.elim s.history.lostAt (· + kReconnectIntervalMs)

/-- How the attempts are spaced, at each place of a round. -/
structure Paced (busyMs : ℕ) (s : Keeper) : Prop where
  usable : s.usable = true → s.history.failed = [] ∧ s.history.retried = 0 ∧ s.nextRetryMs ≤ s.now
  flag : s.usable = true → s.connected = true ∨ ∃ o, s.place = .store o
  store : ∀ o, s.place = .store o ∨ s.place = .again → s.usable = true
  first : s.place = .opening ∨ s.place = .reopen →
    s.usable = false ∧ s.history.failed = [] ∧ s.history.retried = 0
  retried : s.history.retried ≤ 1
  retry : s.usable = false → s.nextRetryMs ≤ s.due ∧
    (s.history.failed ≠ [] → s.nextRetryMs = s.due)
  chain : s.history.failed.IsChain fun a b =>
    a + kReconnectIntervalMs ≤ b ∧ b ≤ a + kReconnectIntervalMs + busyMs + 1
  began : s.history.began ≤ s.now
  lost : s.history.lostAt ≤ s.now
  late : s.place = .maintain → s.usable = false → s.now ≤ s.due + busyMs + 1
  round : s.place.inRound = true → s.usable = false → s.history.began ≤ s.due

theorem paced_start (busyMs now : ℕ) : (start now).Paced busyMs := by
  constructor <;> simp [start, due, KeeperPlace.inRound]

/-- Opening the connection when a try is due keeps the pace. -/
theorem Paced.opened (hs : s.Paced busyMs) (opener : Opener) (ms : ℕ)
    (hdue : s.nextRetryMs ≤ s.now) : (s.opened opener ms).Paced busyMs := by
  have hbegan := hs.began
  have hlost := hs.lost
  constructor <;> simp [Keeper.opened, KeeperPlace.inRound] <;> omega

/-- A connection that is found lost is due at once. -/
theorem Paced.lose (hs : s.Paced busyMs) (husable : s.usable = true) (ms : ℕ) (connected : Bool)
    {nextRetryMs : ℕ} (hnext : nextRetryMs ≤ s.now) {place : KeeperPlace}
    (hplace : place = .reopen ∨ ∃ done, place = .serve done) :
    ({ s.lose ms with connected, nextRetryMs, place }).Paced busyMs := by
  obtain ⟨hfailed, hretried, -⟩ := hs.usable husable
  have hbegan := hs.began
  have hdue : ({ s.lose ms with connected, nextRetryMs, place }).due = s.now + ms := by
    simp [due, Keeper.lose, hfailed]
  refine
    { usable := by simp [Keeper.lose]
      flag := by simp [Keeper.lose]
      store := ?_
      first := by simp [Keeper.lose, hfailed, hretried]
      retried := by simp [Keeper.lose, hretried]
      retry := fun _ => ⟨?_, ?_⟩
      chain := by simp [Keeper.lose, hfailed]
      began := ?_
      lost := by simp [Keeper.lose]
      late := ?_
      round := fun _ _ => ?_ }
  · obtain rfl | ⟨done, rfl⟩ := hplace <;> simp
  · rw [hdue]
    dsimp only
    omega
  · simp [Keeper.lose, hfailed]
  · simp only [Keeper.lose]
    omega
  · obtain rfl | ⟨done, rfl⟩ := hplace <;> simp
  · rw [hdue]
    simp only [Keeper.lose]
    omega

/-- The worker goes on in its round, with the connection as it is. -/
theorem Paced.proceed (hs : s.Paced busyMs)
    (hround : s.place.inRound = true ∨ s.place = .again) (ms : ℕ)
    {place : KeeperPlace} (hplace : place = .wait ∨ ∃ done, place = .serve done) :
    ({ s with now := s.now + ms, place }).Paced busyMs := by
  have hbegan := hs.began
  refine
    { usable := fun husable => ?_
      flag := fun husable => ?_
      store := ?_
      first := ?_
      retried := hs.retried
      retry := hs.retry
      chain := hs.chain
      began := by dsimp only; omega
      lost := by have := hs.lost; dsimp only; omega
      late := ?_
      round := fun _ husable => ?_ }
  · obtain ⟨hfailed, hretried, hnext⟩ := hs.usable husable
    exact ⟨hfailed, hretried, by dsimp only; omega⟩
  · obtain hflag | ⟨o, ho⟩ := hs.flag husable
    · exact Or.inl hflag
    · simp [ho, KeeperPlace.inRound] at hround
  · obtain rfl | ⟨done, rfl⟩ := hplace <;> simp
  · obtain rfl | ⟨done, rfl⟩ := hplace <;> simp
  · obtain rfl | ⟨done, rfl⟩ := hplace <;> simp
  · obtain hround | hagain := hround
    · exact hs.round hround husable
    · simp [hs.store .handle (Or.inr hagain)] at husable

/-- The upkeep of the connection keeps the pace. -/
theorem Paced.maintain (hs : s.Paced busyMs) (hplace : s.place = .maintain) {ok : Bool} {ms : ℕ}
    (h : s.go ok ms = some s') : s'.Paced busyMs := by
  have hbegan := hs.began
  simp only [go, hplace] at h
  split_ifs at h with hdue hok <;> cases h
  · exact hs.opened .loop ms (by simp at hdue; exact hdue.2)
  · -- the attempt fails
    obtain ⟨husable, hnext⟩ : s.usable = false ∧ s.nextRetryMs ≤ s.now := by simpa using hdue
    have hlate := hs.late hplace husable
    obtain ⟨-, heq⟩ := hs.retry husable
    refine
      { usable := by simp [husable]
        flag := by simp [husable]
        store := by simp
        first := by simp
        retried := hs.retried
        retry := by simp [due]
        chain := ?_
        began := by dsimp only; omega
        lost := by have := hs.lost; dsimp only; omega
        late := by simp
        round := fun _ _ => by simp [due]; omega }
    rw [List.isChain_append]
    refine ⟨hs.chain, List.isChain_singleton _, fun a ha b hb => ?_⟩
    obtain rfl : s.now = b := by simpa using hb
    have hne : s.history.failed ≠ [] := by
      rintro hnil
      simp [hnil] at ha
    have hdue : s.due = a + kReconnectIntervalMs := by
      rw [due, ha]
      rfl
    have := heq hne
    omega
  · refine
      { usable := hs.usable
        flag := fun husable => Or.inl ?_
        store := by simp
        first := by simp
        retried := hs.retried
        retry := hs.retry
        chain := hs.chain
        began := hbegan
        lost := hs.lost
        late := by simp
        round := fun _ husable => ?_ }
    · simpa [hplace] using hs.flag husable
    · have husable : s.usable = false := husable
      have hlt : ¬s.nextRetryMs ≤ s.now := by simpa [husable] using hdue
      have hle : s.nextRetryMs ≤ s.due := (hs.retry husable).1
      change s.history.began ≤ s.due
      omega

/-- The records of the pings and of the requests are no part of it. -/
theorem Paced.congr (hs : s.Paced busyMs) (hnow : s'.now = s.now) (husable : s'.usable = s.usable)
    (hconnected : s'.connected = s.connected) (hnext : s'.nextRetryMs = s.nextRetryMs)
    (hplace : s'.place = s.place)
    (hhistory : s'.history.failed = s.history.failed ∧ s'.history.retried = s.history.retried ∧
      s'.history.lostAt = s.history.lostAt ∧ s'.history.began = s.history.began) :
    s'.Paced busyMs := by
  obtain ⟨hfailed, hretried, hlost, hbegan⟩ := hhistory
  have hdue : s'.due = s.due := by rw [due, due, hfailed, hlost]
  constructor
  · rw [husable, hfailed, hretried, hnext, hnow]
    exact hs.usable
  · rw [husable, hconnected, hplace]
    exact hs.flag
  · rw [husable, hplace]
    exact hs.store
  · rw [husable, hplace, hfailed, hretried]
    exact hs.first
  · rw [hretried]
    exact hs.retried
  · rw [husable, hnext, hdue, hfailed]
    exact hs.retry
  · rw [hfailed]
    exact hs.chain
  · rw [hbegan, hnow]
    exact hs.began
  · rw [hlost, hnow]
    exact hs.lost
  · rw [husable, hplace, hdue, hnow]
    exact hs.late
  · rw [husable, hplace, hdue, hbegan]
    exact hs.round

/-- The first attempt, of `run` itself. -/
theorem Paced.opening (hs : s.Paced busyMs) (hplace : s.place = .opening) {ok : Bool} {ms : ℕ}
    (h : s.go ok ms = some s') : s'.Paced busyMs := by
  obtain ⟨husable, hfailed, hretried⟩ := hs.first (Or.inl hplace)
  have hnext : s.nextRetryMs ≤ s.now := by
    have hle := (hs.retry husable).1
    have hlost := hs.lost
    simp only [due, hfailed, List.getLast?_nil, Option.elim_none] at hle
    omega
  simp only [Keeper.go, hplace] at h
  split_ifs at h <;> cases h
  · exact hs.opened .start ms hnext
  · constructor <;> simp [Keeper.lose, due, hfailed, hretried, KeeperPlace.inRound]
    omega

/-- A ping keeps it, whether it is due or not. -/
theorem Paced.pinging (hs : s.Paced busyMs) (hplace : s.place = .ping) {ok : Bool} {ms : ℕ}
    (h : s.go ok ms = some s') : s'.Paced busyMs := by
  have hround : s.place.inRound = true ∨ s.place = .again := by rw [hplace]; exact Or.inl rfl
  simp only [Keeper.go, hplace] at h
  split_ifs at h with hdue hok <;> cases h
  · exact Paced.congr (hs.proceed hround ms (Or.inr ⟨false, rfl⟩)) rfl rfl rfl rfl rfl
      ⟨rfl, rfl, rfl, rfl⟩
  · obtain ⟨husable, -⟩ := Bool.and_eq_true_iff.mp hdue
    exact Paced.congr (hs.lose husable ms false (Nat.zero_le _) (Or.inr ⟨false, rfl⟩)) rfl rfl rfl
      rfl rfl ⟨rfl, rfl, rfl, rfl⟩
  · exact hs.proceed hround 0 (Or.inr ⟨false, rfl⟩)

/-- The connection is opened again after a request has lost it. -/
theorem Paced.reopen (hs : s.Paced busyMs) (hplace : s.place = .reopen) {ok : Bool} {ms : ℕ}
    (h : s.go ok ms = some s') : s'.Paced busyMs := by
  have hround : s.place.inRound = true ∨ s.place = .again := by rw [hplace]; exact Or.inl rfl
  obtain ⟨husable, hfailed, hretried⟩ := hs.first (Or.inr hplace)
  simp only [Keeper.go, hplace] at h
  split_ifs at h with hok <;> cases h
  · have hle := (hs.retry husable).1
    have hlost := hs.lost
    simp only [due, hfailed, List.getLast?_nil, Option.elim_none] at hle
    exact hs.opened .handle ms (by omega)
  · have hserve : KeeperPlace.serve true = .wait ∨ ∃ done, KeeperPlace.serve true = .serve done :=
      Or.inr ⟨true, rfl⟩
    have hp := hs.proceed hround ms hserve
    exact
      { usable := by simp [husable]
        flag := by simp [husable]
        store := by simp
        first := by simp
        retried := by simp [hretried]
        retry := hp.retry
        chain := hp.chain
        began := hp.began
        lost := hp.lost
        late := by simp
        round := hp.round }

/-- Every step of the worker's own keeps it. -/
theorem Paced.go (hs : s.Paced busyMs) {ok : Bool} {ms : ℕ} (h : s.go ok ms = some s') :
    s'.Paced busyMs := by
  cases hplace : s.place with
  | opening => exact hs.opening hplace h
  | maintain => exact hs.maintain hplace h
  | wait => simp [Keeper.go, hplace] at h
  | ping => exact hs.pinging hplace h
  | serve done =>
    have hround : s.place.inRound = true ∨ s.place = .again := by rw [hplace]; exact Or.inl rfl
    simp only [Keeper.go, hplace] at h
    split_ifs at h with hdone <;> cases h
    · exact Paced.congr (hs.proceed hround 0 (Or.inl rfl)) rfl rfl rfl rfl rfl ⟨rfl, rfl, rfl, rfl⟩
    · exact hs.proceed hround 0 (Or.inl rfl)
  | reopen => exact hs.reopen hplace h
  | store opener =>
    have husable := hs.store opener (Or.inl hplace)
    simp only [Keeper.go, hplace] at h
    cases h
    exact
      { usable := hs.usable
        flag := fun _ => Or.inl rfl
        store := fun _ _ => husable
        first := by cases opener <;> simp
        retried := hs.retried
        retry := by simp [husable]
        chain := hs.chain
        began := hs.began
        lost := hs.lost
        late := by simp [husable]
        round := by simp [husable] }
  | again =>
    have husable := hs.store .handle (Or.inr hplace)
    simp only [Keeper.go, hplace] at h
    split_ifs at h with hok <;> cases h
    · exact hs.proceed (Or.inr hplace) ms (Or.inr ⟨true, rfl⟩)
    · exact hs.lose husable ms s.connected (hs.usable husable).2.2 (Or.inr ⟨true, rfl⟩)

/-- So does a request, and the reconnect inside it. -/
theorem Paced.request (hs : s.Paced busyMs) {lost retrySafe : Bool} {ms : ℕ}
    (h : s.request lost retrySafe ms = some s') : s'.Paced busyMs := by
  unfold Keeper.request at h
  split at h
  · rename_i done hplace
    split_ifs at h with hlost hsafe <;> cases h
    · obtain ⟨husable, -⟩ := Bool.and_eq_true_iff.mp hlost
      exact hs.lose husable ms s.connected (hs.usable husable).2.2 (Or.inl rfl)
    · obtain ⟨husable, -⟩ := Bool.and_eq_true_iff.mp hlost
      exact hs.lose husable ms s.connected (hs.usable husable).2.2 (Or.inr ⟨true, rfl⟩)
    · exact hs.proceed (Or.inl (by rw [hplace]; rfl)) ms (Or.inr ⟨true, rfl⟩)
  · cases h

/-- A round ends before the next attempt is due, but for what it takes beyond its sleep. -/
theorem Paced.sleep (hs : s.Paced busyMs) {signaled : Bool} {ms : ℕ}
    (ha : s.Prompt busyMs (.sleep signaled ms)) (h : s.sleep ms = some s') : s'.Paced busyMs := by
  have hbegan := hs.began
  unfold Keeper.sleep at h
  split at h
  · rename_i hplace
    cases h
    refine
      { usable := fun husable => ?_
        flag := fun husable => Or.inl ?_
        store := by simp
        first := by simp
        retried := hs.retried
        retry := hs.retry
        chain := hs.chain
        began := le_rfl
        lost := by have := hs.lost; dsimp only; omega
        late := fun _ husable => ?_
        round := by simp [KeeperPlace.inRound] }
    · obtain ⟨hfailed, hretried, hnext⟩ := hs.usable husable
      exact ⟨hfailed, hretried, by dsimp only; omega⟩
    · simpa [hplace] using hs.flag husable
    · have husable : s.usable = false := husable
      have hround := hs.round (by rw [hplace]; rfl) husable
      have hretry := (hs.retry husable).1
      have hwait : s.waitMs ≤ max 1 (s.nextRetryMs - s.now) := by
        rw [waitMs, husable]
        exact min_le_left ..
      have ha : s.now - s.history.began + (ms - if signaled then 0 else s.waitMs) ≤ busyMs := ha
      change s.now + ms ≤ s.due + busyMs + 1
      split_ifs at ha <;> omega
  · cases h

/-! ## Pings -/

/-- How the pings are spaced. -/
structure Pinged (s : Keeper) : Prop where
  chain : s.history.pings.IsChain fun a b => a.1 + kIdlePingIntervalMs ≤ b.1
  next : ∀ p ∈ s.history.pings.getLast?, p.1 + kIdlePingIntervalMs ≤ s.nextPingMs
  past : ∀ p ∈ s.history.pings, p.1 ≤ s.now
  idle : s.history.served + kIdlePingIntervalMs ≤ s.nextPingMs
  idles : ∀ p ∈ s.history.pings, p.2 + kIdlePingIntervalMs ≤ p.1

/-- As time passes the next ping stays where it was set. -/
theorem Pinged.mono (hs : s.Pinged) (hnow : s.now ≤ s'.now) (hnext : s'.nextPingMs = s.nextPingMs)
    (hhistory : s'.history.pings = s.history.pings ∧ s'.history.served = s.history.served) :
    s'.Pinged := by
  obtain ⟨hpings, hserved⟩ := hhistory
  constructor
  · rw [hpings]
    exact hs.chain
  · rw [hpings, hnext]
    exact hs.next
  · rw [hpings]
    exact fun p hp => (hs.past p hp).trans hnow
  · rw [hserved, hnext]
    exact hs.idle
  · rw [hpings]
    exact hs.idles

/-- A ping, three seconds after the last one and after the last request. -/
theorem Pinged.ping (hs : s.Pinged) (hdue : s.nextPingMs ≤ s.now) (hnow : s.now ≤ s'.now)
    (hnext : s'.nextPingMs = s.now + kIdlePingIntervalMs)
    (hpings : s'.history.pings = s.history.pings ++ [(s.now, s.history.served)])
    (hserved : s'.history.served = s.history.served) : s'.Pinged := by
  have hidle := hs.idle
  constructor
  · rw [hpings, List.isChain_append]
    refine ⟨hs.chain, List.isChain_singleton _, fun a ha b hb => ?_⟩
    obtain rfl : (s.now, s.history.served) = b := by simpa using hb
    exact (hs.next a ha).trans hdue
  · rw [hpings, hnext]
    simp
  · rw [hpings]
    intro p hp
    obtain hp | hp := List.mem_append.mp hp
    · exact (hs.past p hp).trans hnow
    · obtain rfl := List.mem_singleton.mp hp
      exact hnow
  · rw [hserved, hnext]
    omega
  · rw [hpings]
    intro p hp
    obtain hp | hp := List.mem_append.mp hp
    · exact hs.idles p hp
    · obtain rfl := List.mem_singleton.mp hp
      exact hidle.trans hdue

/-- The worker's steps ping only when it is due. -/
theorem Pinged.go (hs : s.Pinged) {ok : Bool} {ms : ℕ} (h : s.go ok ms = some s') : s'.Pinged := by
  have hle : s.now ≤ s.now + ms := Nat.le_add_right ..
  unfold Keeper.go at h
  split at h
  case h_3 =>
    split_ifs at h with hdue hok <;> cases h
    · exact hs.ping (by simp at hdue; exact hdue.2) hle rfl rfl rfl
    · exact hs.ping (by simp at hdue; exact hdue.2) hle rfl rfl rfl
    · exact hs.mono le_rfl rfl ⟨rfl, rfl⟩
  case h_4 =>
    split_ifs at h with hdone <;> cases h
    · refine ⟨hs.chain, fun p hp => ?_, hs.past, le_rfl, hs.idles⟩
      exact Nat.add_le_add_right (hs.past p (List.mem_of_getLast? hp)) _
    · exact hs.mono le_rfl rfl ⟨rfl, rfl⟩
  all_goals repeat' split at h
  all_goals cases h
  all_goals first
    | exact hs.mono hle rfl ⟨rfl, rfl⟩
    | exact hs.mono le_rfl rfl ⟨rfl, rfl⟩

/-- So does every step. -/
theorem Pinged.step (hs : s.Pinged) {a : KeeperStep} (h : keeper.step s a = some s') :
    s'.Pinged := by
  cases a with
  | go ok ms => exact hs.go h
  | request lost retrySafe ms =>
    have hle : s.now ≤ s.now + ms := Nat.le_add_right ..
    simp only [keeper, Keeper.step, Keeper.request] at h
    repeat' split at h
    all_goals cases h
    all_goals exact hs.mono hle rfl ⟨rfl, rfl⟩
  | sleep signaled ms =>
    have hle : s.now ≤ s.now + ms := Nat.le_add_right ..
    simp only [keeper, Keeper.step, Keeper.sleep] at h
    split at h <;> cases h
    exact hs.mono hle rfl ⟨rfl, rfl⟩

/-- Each, in every run; the first one in those whose rounds are short. -/
theorem paced_of_reachesWhen (h : keeper.ReachesWhen (Prompt busyMs) s) : s.Paced busyMs := by
  refine h.invariant ?_ fun s a s' hs ha hstep => ?_
  · rintro _ ⟨now, rfl⟩
    exact paced_start busyMs now
  · cases a with
    | go ok ms => exact hs.go hstep
    | request lost retrySafe ms => exact hs.request hstep
    | sleep signaled ms => exact hs.sleep ha hstep

/-- The pings are paced in every run. -/
theorem pinged_of_reaches {ok : Keeper → KeeperStep → Prop} (h : keeper.ReachesWhen ok s) :
    s.Pinged := by
  refine h.invariant ?_ fun s a s' hs _ hstep => hs.step hstep
  rintro _ ⟨now, rfl⟩
  constructor <;> simp [start]

end Keeper

/-- In every run in which a round takes at most `busyMs` beyond its sleep : while the flag is down
the connection is lost, or the flag is about to be raised; the attempts to open a lost connection
are at least a second apart, and at most `busyMs` and one millisecond more, and the next one is no
later than that; requests make one more at most; and a ping comes three seconds after the last ping
and after the last request at the earliest. -/
theorem reconnect_paced {busyMs : ℕ} {s : Keeper} (h : keeper.ReachesWhen (Keeper.Prompt busyMs) s) :
    (s.connected = false → s.usable = false ∨ ∃ o, s.place = .store o) ∧
      (s.history.failed.IsChain fun a b =>
        a + kReconnectIntervalMs ≤ b ∧ b ≤ a + kReconnectIntervalMs + busyMs + 1) ∧
      (s.place = .maintain → s.usable = false → s.now ≤ s.due + busyMs + 1) ∧
      s.history.retried ≤ 1 ∧
      (s.history.pings.IsChain fun a b => a.1 + kIdlePingIntervalMs ≤ b.1) ∧
      ∀ p ∈ s.history.pings, p.2 + kIdlePingIntervalMs ≤ p.1 := by
  have hs := Keeper.paced_of_reachesWhen h
  have hp := Keeper.pinged_of_reaches h
  refine ⟨fun hdown => ?_, hs.chain, hs.late, hs.retried, hp.chain, hp.idles⟩
  cases husable : s.usable with
  | false => exact Or.inl rfl
  | true =>
    obtain hup | hstore := hs.flag husable
    · simp [hdown] at hup
    · exact Or.inr hstore

/-- The first two attempts fail. -/
theorem reconnect_paced_twice : ∃ s : Keeper, s.history.failed = [5, 1006] ∧
    s.history.failed.IsChain fun a b =>
      a + kReconnectIntervalMs ≤ b ∧ b ≤ a + kReconnectIntervalMs + 10 + 1 := by
  obtain ⟨s, hs, htest⟩ := keeper.exists_reachesWhen (Keeper.Prompt 10) (.start 0)
    [.go false 5, .go true 0, .go true 0, .request true true 1, .go true 0, .sleep false 1000,
      .go false 5]
    (fun s => s.history.failed = [5, 1006]) ⟨0, rfl⟩ (by decide +kernel)
  exact ⟨s, of_decide_eq_true htest, (reconnect_paced hs).2.1⟩

end EchoServer
