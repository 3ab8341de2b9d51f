import EchoServer.System.GameThread
import EchoServer.System.Passing

/-!
# The key comes first

A connection is adopted by one thread, announced to its game lane, and answered with its session key
by the thread of the lane. The client may have sent frames before its key is made, another thread
may be closing it, and a queue that is full may refuse the key as any frame. Of what the game
service sends to a connection the key is the first, all the same, it is sent once, and it is the key
that the table of the lane holds (`key_first`); when the key is lost nothing of the game service
follows it.

`Keyed` follows the frames through the thread of the lane. Those sent and those on their way are
nothing, or a key and answers; or the key is lost, and then the connection is closed, or the next
thing that the thread does is to close it.
-/

namespace EchoServer

open Threads

variable {cfg : ServerConfig} {e : Env} {s s' : ServerState} {t : Server} {op : Op}
  {new : List Op} {i id : ℕ} {results : List (Job ℕ × Outcome)}

/-- The frame that brings a session key. -/
def keyAck (key : Bytes) : Frame := ⟨kSessionAck, (ByteWriter.scratch.str key).data⟩

/-- The frame of the game service that an operation is about to send. -/
def Op.bringing (id : ℕ) : Op → Option Frame
  | send k _ f | lockSend k _ f => if k = id ∧ f.ofGame = true then some f else none
  | _ => none

/-- The operation sends a frame of the game service, and has seen the connection open. -/
def Op.locks (id : ℕ) : Op → Bool
  | lockSend k _ f => k = id ∧ f.ofGame = true
  | _ => false

/-- The operation closes the connection. -/
def Op.shuts (id : ℕ) : Op → Bool
  | close k | closeOverflow k => k = id
  | _ => false

/-- A connection is closed by `close`, or as its send buffer overflows. -/
theorem Op.shuts_cases (h : op.shuts id = true) : op = .close id ∨ op = .closeOverflow id := by
  cases op with
  | close k | closeOverflow k => simp_all [shuts]
  | _ => cases h

/-- What a connection has sent that only the game service sends. -/
def Conn.ofGame (c : Conn) : List Frame := (c.sent.map Prod.snd).filter Frame.ofGame

/-- No frame, or an issued key and frames that bring no key. -/
def Opens (issued : List (ℕ × Bytes)) (id : ℕ) (frames : List Frame) : Prop :=
  frames = [] ∨ ∃ key rest, frames = keyAck key :: rest ∧ (id, key) ∈ issued ∧
    ∀ f ∈ rest, f.isKey = false

namespace Opens

variable {issued later : List (ℕ × Bytes)} {frames more : List Frame}

/-- Keys that are issued later change nothing. -/
theorem mono (h : Opens issued id frames) (hsub : issued ⊆ later) : Opens later id frames :=
  h.imp_right fun ⟨key, rest, heq, hkey, hrest⟩ => ⟨key, rest, heq, hsub hkey, hrest⟩

/-- Frames that bring no key may follow. -/
theorem append (h : Opens issued id frames) (hne : frames ≠ [])
    (hmore : ∀ f ∈ more, f.isKey = false) : Opens issued id (frames ++ more) := by
  obtain rfl | ⟨key, rest, rfl, hkey, hrest⟩ := h
  · exact absurd rfl hne
  · refine Or.inr ⟨key, rest ++ more, rfl, hkey, fun f hf => ?_⟩
    obtain hf | hf := List.mem_append.mp hf
    · exact hrest f hf
    · exact hmore f hf

/-- A frame behind the key may get lost. -/
theorem drop {f : Frame} (h : Opens issued id (frames ++ f :: more)) (hne : frames ≠ []) :
    Opens issued id (frames ++ more) := by
  obtain hnil | ⟨key, rest, heq, hkey, hrest⟩ := h
  · simp at hnil
  · cases frames with
    | nil => exact absurd rfl hne
    | cons g frames =>
      obtain ⟨rfl, rfl⟩ := List.cons.inj heq
      refine Or.inr ⟨key, frames ++ more, rfl, hkey, fun k hk => hrest k ?_⟩
      obtain hk | hk := List.mem_append.mp hk
      · exact List.mem_append_left _ hk
      · exact List.mem_append_right _ (List.mem_cons_of_mem _ hk)

/-- Without a key there are no frames. -/
theorem eq_nil (h : Opens issued id frames) (hnone : ∀ key, (id, key) ∉ issued) : frames = [] := by
  obtain hnil | ⟨key, -, -, hkey, -⟩ := h
  · exact hnil
  · exact absurd hkey (hnone key)

/-- And with frames there is a key. -/
theorem exists_key (h : Opens issued id frames) (hne : frames ≠ []) :
    ∃ key, (id, key) ∈ issued := by
  obtain hnil | ⟨key, -, -, hkey, -⟩ := h
  · exact absurd hnil hne
  · exact ⟨key, hkey⟩

end Opens

/-! ## What a turn sends -/

theorem Op.bringing_of_calm (h : op.calm cfg id = true) :
    op.bringing id = none ∧ op.locks id = false := by
  cases op with
  | send k answers f | lockSend k answers f =>
    have hne : ¬ (k = id ∧ f.ofGame = true) := by
      rintro ⟨rfl, hf⟩
      simp [calm, hf] at h
    exact ⟨if_neg hne, by simp [locks, hne]⟩
  | _ => exact ⟨rfl, rfl⟩

/-- What belongs to no turn brings no frame. -/
theorem bringing_calm {ops : List Op} (h : ∀ o ∈ ops, o.calm cfg id = true) :
    ops.filterMap (Op.bringing id) = [] ∧ ∀ o ∈ ops, o.locks id = false :=
  ⟨List.filterMap_eq_nil_iff.mpr fun o ho => (Op.bringing_of_calm (h o ho)).1,
    fun o ho => (Op.bringing_of_calm (h o ho)).2⟩

/-- Nor does an error of the service. -/
theorem bringing_sendError (id k index origin : ℕ) {code : ErrorCode} {detail : String}
    (h : (errorAck origin code detail).ofGame = false) :
    (sendError k index origin code detail).filterMap (Op.bringing id) = [] := by
  refine List.filterMap_eq_nil_iff.mpr fun o ho => ?_
  obtain rfl | rfl := mem_sendError ho
  · simp [Op.bringing, h]
  · rfl

namespace GameLane

variable {lane lane' : GameLane} {ops : List Op}

/-- A turn sends a frame only to a connection that has a session, and no key. -/
def SendsNoKey (id : ℕ) (lane : GameLane) (ops : List Op) : Prop :=
  ∀ f ∈ ops.filterMap (Op.bringing id), f.isKey = false ∧ lane.knows id = true

/-- A frame that is no key, for a connection that has a session. -/
theorem sendsNoKey_send {k : ℕ} {key : Bytes} (hkey : lane.sessions.lookup k = some key)
    (answers : Option ℕ) {f : Frame} (hf : f.isKey = false) :
    lane.SendsNoKey id [.send k answers f] := by
  intro g hg
  by_cases hid : k = id ∧ f.ofGame = true
  · obtain ⟨rfl, hof⟩ := hid
    obtain rfl : g = f := by simpa [Op.bringing, hof] using hg
    exact ⟨hf, by simp [knows, hkey]⟩
  · simp [Op.bringing, hid] at hg

/-- The answer to a response of the database brings no key. -/
theorem sendsNoKey_onReply (index : ℕ) (res : Response) :
    lane.SendsNoKey id (lane.onReply index res) := by
  have hof := ofResponse_processDbResponse res
  have hkind : (processDbResponse res).isKey = false := by
    by_contra hk
    simp [(processDbResponse res).kinds.2 (by simpa using hk)] at hof
  unfold onReply
  split
  · exact fun f hf => by simp at hf
  · rename_i key hkey
    exact sendsNoKey_send hkey _ hkind

/-- A message brings no key. -/
theorem sendsNoKey_message (e : Env) (m : Message) :
    lane.SendsNoKey id (lane.onEvent e (.message m)).2 := by
  intro f hf
  simp only [onEvent] at hf
  split at hf
  · simp at hf
  · rename_i key hkey
    cases hv : onMessage e.unixMs m with
    | reply g =>
      rw [hv] at hf
      exact sendsNoKey_send hkey _ (g.kinds.1 (prompt_onMessage hv)).2 f hf
    | refuse code detail =>
      rw [hv] at hf
      rw [Verdict.ops, bringing_sendError id _ _ _ (ofGame_refuse hv _)] at hf
      simp at hf
    | pass req =>
      rw [hv] at hf
      simp [Verdict.ops, Op.bringing] at hf

/-- A connection is announced once, so no key has been issued to it before. -/
theorem not_issued_of_announced {ev : Event} {rest : List Event}
    (hev : lane.events = ev :: rest) (hconn : ev = .connected id) (honce : lane.announced id ≤ 1)
    (key : Bytes) : (id, key) ∉ lane.issued := by
  intro hmem
  have hpos : 0 < (lane.issued.filter fun p => p.1 = id).length :=
    List.length_pos_of_mem (List.mem_filter.mpr ⟨hmem, by simp⟩)
  rw [announced, hev, hconn, List.count_cons_self] at honce
  omega

/-- A turn about a connection that has a session sends no key; the turn that makes the session sends
the key, and nothing else. -/
theorem Turn.brings (h : Turn e lane lane' ops) (hl : lane.Issued)
    (honce : lane.announced id ≤ 1) :
    (lane.SendsNoKey id ops ∧ (lane'.knows id = true → lane.knows id = true)) ∨
      ∃ key, ops.filterMap (Op.bringing id) = [keyAck key] ∧ (id, key) ∈ lane'.issued ∧
        ∀ key', (id, key') ∉ lane.issued := by
  cases h with
  | move _ _ hsess => exact Or.inl ⟨fun f hf => by simp at hf, by simp [knows, hsess]⟩
  | reply index res _ _ hsess =>
    exact Or.inl ⟨sendsNoKey_onReply index res, by simp [knows, hsess]⟩
  | event ev hev _ hsess hiss =>
    have hknows : lane'.knows id = ev.settle id (lane.knows id) := by
      rw [← knows_onEvent e lane ev id, knows, knows, hsess]
    cases ev with
    | connected k =>
      by_cases hk : k = id
      · subst hk
        have hnone := not_issued_of_announced hev rfl honce
        cases hlook : lane.sessions.lookup k with
        | some key => exact absurd (hl k key hlook) (hnone key)
        | none =>
          have hop : (⟨kSessionAck, (ByteWriter.scratch.str e.key).data⟩ : Frame).ofGame = true :=
            rfl
          refine Or.inr ⟨e.key, ?_, ?_, hnone⟩
          · simp [onEvent, hlook, Op.bringing, hop, keyAck]
          · rw [hiss]
            simp [onEvent, hlook]
      · refine Or.inl ⟨fun f hf => ?_, by simp [hknows, Event.settle, hk]⟩
        simp only [onEvent] at hf
        split at hf <;> simp [Op.bringing, hk] at hf
    | disconnected k =>
      refine Or.inl ⟨fun f hf => by simp [onEvent] at hf, fun h => ?_⟩
      rw [hknows, Event.settle, Bool.and_eq_true] at h
      exact h.1
    | message m => exact Or.inl ⟨sendsNoKey_message e m, by simp [hknows, Event.settle]⟩

/-- A turn ends with frames to send, none of which has seen the connection open yet. -/
theorem Turn.locks (h : Turn e lane lane' ops) {o : Op} (ho : o ∈ ops) : o.locks id = false := by
  obtain ⟨_, _, _, rfl⟩ | ⟨_, rfl⟩ | ⟨_, _, rfl⟩ | ⟨_, rfl⟩ := h.mem_ops ho
  all_goals rfl

end GameLane

namespace Server

variable {s : Server}

/-- The frame that an operation brings is passed on or sent; an operation that is about to send it
under the lock is pushed alone, and only while the connection is open. -/
def Brings (id : ℕ) (s t : Server) (op : Op) (new : List Op) : Prop :=
  (t.conns id).ofGame ++ new.filterMap (Op.bringing id) =
      (s.conns id).ofGame ++ (op.bringing id).toList ∧
    ∀ o ∈ new, o.locks id = true → (s.conns id).closed = false ∧ new = [o]

/-- The frame that an operation brings is lost, and the connection is closed or is about to be. -/
def Loses (id : ℕ) (s t : Server) (op : Op) (new : List Op) : Prop :=
  ∃ f, op.bringing id = some f ∧ (t.conns id).ofGame = (s.conns id).ofGame ∧
    ((s.conns id).closed = true ∧ new = [] ∨ ∃ o, new = [o] ∧ o.shuts id = true)

/-- Closing brings no frame. -/
theorem bringing_onClose (id k : ℕ) (c : Conn) (sender : Sender) :
    (onClose k c sender).filterMap (Op.bringing id) = [] ∧
      ∀ o ∈ onClose k c sender, o.locks id = false := by
  refine ⟨List.filterMap_eq_nil_iff.mpr fun o ho => ?_, fun o ho => ?_⟩
  all_goals
    rw [mem_onClose ho]
    rfl

/-- The frame is appended to the send buffer, or refused there. -/
theorem brings_lockSend {k : ℕ} {answers : Option ℕ} {f : Frame}
    (h : s.exec cfg e (.lockSend k answers f) = some (t, new)) :
    Brings id s t (.lockSend k answers f) new ∨ Loses id s t (.lockSend k answers f) new := by
  simp only [exec, lockSend] at h
  by_cases hk : k = id ∧ f.ofGame = true
  · obtain ⟨rfl, hf⟩ := hk
    have hbring : (Op.lockSend k answers f).bringing k = some f := if_pos ⟨rfl, hf⟩
    split at h <;> cases h
    · obtain ⟨hnil, hnone⟩ := bringing_onClose k k _ _
      refine Or.inl ⟨?_, fun o ho hlock => ?_⟩
      · rw [hnil, hbring]
        simp [Conn.ofGame, updConn, hf]
      · rw [hnone o ho] at hlock
        cases hlock
    · exact Or.inr ⟨f, hbring, by simp [Conn.ofGame, updConn],
        Or.inr ⟨_, rfl, by simp [Op.shuts]⟩⟩
  · have hbring : (Op.lockSend k answers f).bringing id = none := if_neg hk
    refine Or.inl ?_
    unfold Brings
    rw [hbring, Option.toList_none, List.append_nil]
    split at h <;> cases h
    · obtain ⟨hnil, hnone⟩ := bringing_onClose id k _ _
      rw [hnil]
      refine ⟨?_, fun o ho hlock => ?_⟩
      · by_cases hid : id = k
        · subst hid
          have hf : f.ofGame = false := by simpa using hk
          simp [Conn.ofGame, updConn, hf]
        · simp [Conn.ofGame, updConn, hid]
      · rw [hnone o ho] at hlock
        cases hlock
    · refine ⟨?_, by simp [Op.locks]⟩
      by_cases hid : id = k
      · subst hid
        simp [Conn.ofGame, updConn, Op.bringing]
      · simp [Conn.ofGame, updConn, hid, Op.bringing]

/-- An operation that brings nothing to the connection. -/
theorem brings_calm (h : s.exec cfg e op = some (t, new)) (hown : ∀ l, s.Owned cfg l)
    (hcalm : op.calm cfg id = true) (hsent : (t.conns id).ofGame = (s.conns id).ofGame) :
    Brings id s t op new := by
  obtain ⟨hnew, hlocks⟩ := bringing_calm (calm_exec hown h hcalm)
  refine ⟨by rw [hsent, hnew, (Op.bringing_of_calm hcalm).1, Option.toList_none], ?_⟩
  intro o ho hlock
  rw [hlocks o ho] at hlock
  cases hlock

/-- `send`, up to the lock. -/
theorem brings_send {k : ℕ} {answers : Option ℕ} {f : Frame} (hk : k = id) (hf : f.ofGame = true)
    (h : s.exec cfg e (.send k answers f) = some (t, new))
    (hsent : (t.conns id).ofGame = (s.conns id).ofGame) :
    Brings id s t (.send k answers f) new ∨ Loses id s t (.send k answers f) new := by
  subst hk
  have hbring : (Op.send k answers f).bringing k = some f := if_pos ⟨rfl, hf⟩
  simp only [exec] at h
  split_ifs at h with hclosed hlarge <;> cases h
  · exact Or.inr ⟨f, hbring, hsent, Or.inl ⟨hclosed, rfl⟩⟩
  · exact Or.inr ⟨f, hbring, hsent, Or.inr ⟨_, rfl, by simp [Op.shuts]⟩⟩
  · refine Or.inl ⟨by simp [Op.bringing, hf], fun o ho _ => ?_⟩
    rw [List.mem_singleton.mp ho]
    exact ⟨by simpa using hclosed, rfl⟩

/-- A request that is refused is answered, and not by a frame of the game service alone. -/
theorem brings_submitDb {n : ℕ} {req : Request}
    (h : s.exec cfg e (.submitDb n req) = some (t, new))
    (hsent : (t.conns id).ofGame = (s.conns id).ofGame) : Brings id s t (.submitDb n req) new := by
  unfold Brings
  rw [hsent]
  simp only [exec] at h
  obtain ⟨_, _, href, hcase⟩ | ⟨us, -, hcase⟩ := s.submitDb_cases cfg n req
  · rw [hcase] at h
    cases h
    rw [bringing_sendError id _ _ _ (href.ofGame _)]
    refine ⟨rfl, fun o ho hlock => ?_⟩
    obtain rfl | rfl := mem_sendError ho <;> cases hlock
  · rw [hcase] at h
    cases h
    exact ⟨rfl, by simp⟩

/-- A frame on its way is passed on or sent, unless it is lost. -/
theorem brings_exec (h : s.exec cfg e op = some (t, new)) (hown : ∀ l, s.Owned cfg l)
    (hop : op.calm cfg id = true ∨ op.quiet = true) (hloop : op ≠ .gameLoop (cfg.laneOf id))
    (hadopt : op = .adopt → s.nextId ≠ id) : Brings id s t op new ∨ Loses id s t op new := by
  by_cases hlock : ∃ k answers f, op = .lockSend k answers f
  · obtain ⟨k, answers, f, rfl⟩ := hlock
    exact brings_lockSend h
  have hsent : (t.conns id).ofGame = (s.conns id).ofGame := by
    rw [Conn.ofGame, sent_exec h hadopt fun answers f hop => hlock ⟨_, _, _, hop⟩, Conn.ofGame]
  cases hcalm : op.calm cfg id with
  | true => exact Or.inl (brings_calm h hown hcalm hsent)
  | false =>
    cases op with
    | gameLoop l => simp_all [Op.calm]
    | broadcast => simp [Op.quiet, hcalm] at hop
    | lockSend k answers f => exact absurd ⟨k, answers, f, rfl⟩ hlock
    | send k answers f =>
      obtain ⟨hk, hf⟩ : k = id ∧ f.ofGame = true := by
        simp only [Op.calm, Bool.or_eq_false_iff, decide_eq_false_iff_not, not_not,
          Bool.not_eq_false'] at hcalm
        exact hcalm
      exact brings_send hk hf h hsent
    | submitDb n req => exact Or.inl (brings_submitDb h hsent)
    | _ => simp [Op.calm] at hcalm

end Server

/-! ## Every run -/

/-- The frames of the game service that are on their way. -/
def ServerState.bringing (cfg : ServerConfig) (id : ℕ) (s : ServerState) : List Frame :=
  (s.ahead cfg id).filterMap (Op.bringing id)

/-- The keys that the lane of a connection has issued. -/
def ServerState.issued (cfg : ServerConfig) (id : ℕ) (s : ServerState) : List (ℕ × Bytes) :=
  (s.server.game (cfg.laneOf id)).issued

/-- The key has been made and not been sent, and nothing can be sent any more. -/
structure KeyLost (cfg : ServerConfig) (s : ServerState) (id : ℕ) : Prop where
  issued : ∃ key, (id, key) ∈ s.issued cfg id
  nothing : (s.server.conns id).ofGame = []
  unlocked : ∀ o ∈ s.ahead cfg id, o.locks id = false
  shut : (s.server.conns id).closed = true ∨
    ∃ o rest, s.ahead cfg id = o :: rest ∧ o.shuts id = true

/-- The key is at the front of what is sent and of what is on its way. -/
structure KeyLeads (cfg : ServerConfig) (s : ServerState) (id : ℕ) : Prop where
  opens : Opens (s.issued cfg id) id ((s.server.conns id).ofGame ++ s.bringing cfg id)
  known : (s.server.game (cfg.laneOf id)).knows id = true →
    (s.server.conns id).ofGame ++ s.bringing cfg id ≠ []

/-- What holds of the session key of a connection in every run. -/
structure Keyed (cfg : ServerConfig) (s : ServerState) (id : ℕ) : Prop where
  laned : Laned cfg s id
  tail : ∀ o ∈ (s.ahead cfg id).tail, o.locks id = false
  key : KeyLost cfg s id ∨ KeyLeads cfg s id

/-- A connection with a key has been adopted. -/
theorem Issue.lt_nextId (hs : Issue cfg s id) (h : ∃ key, (id, key) ∈ s.issued cfg id) :
    id < s.server.nextId := by
  obtain ⟨key, hkey⟩ := h
  by_contra hle
  have hzero := hs.unborn (Nat.le_of_not_lt hle)
  have hpos : 0 < ((s.server.game (cfg.laneOf id)).issued.filter fun p => p.1 = id).length :=
    List.length_pos_of_mem (List.mem_filter.mpr ⟨hkey, by simp⟩)
  rw [GameLane.announced] at hzero
  omega

/-- Only its loop changes what a lane knows. -/
theorem lane_exec (h : s.server.exec cfg e op = some (t, new))
    (hloop : op ≠ .gameLoop (cfg.laneOf id)) :
    ServerState.issued cfg id ⟨t, s.threads.exec i new⟩ = s.issued cfg id ∧
      (t.game (cfg.laneOf id)).knows id = (s.server.game (cfg.laneOf id)).knows id := by
  obtain ⟨heq, -⟩ | ⟨-, hlane⟩ := Server.exec_game h (cfg.laneOf id)
  · exact absurd heq hloop
  · simp [ServerState.issued, GameLane.knows, hlane]

namespace Keyed

theorem fresh (cfg : ServerConfig) (id : ℕ) : Keyed cfg (.fresh cfg) id := by
  refine ⟨.fresh cfg id, by simp [Laned.ahead_fresh], Or.inr ⟨Or.inl ?_, ?_⟩⟩
  · rw [ServerState.bringing, Laned.ahead_fresh]
    rfl
  · simp [ServerState.fresh, Server.fresh, GameLane.fresh, GameLane.knows]

/-- The lane of the connection takes a turn. -/
theorem turn (hs : Keyed cfg s id) (ht : Traced cfg s results) (hissue : Issue cfg s id)
    (h : s.server.exec cfg e (.gameLoop (cfg.laneOf id)) = some (t, new))
    (hlaned : Laned cfg ⟨t, s.threads.exec i new⟩ id) (hidle : s.ahead cfg id = [])
    (hnew : new = ServerState.ahead cfg id ⟨t, s.threads.exec i new⟩ ++
      [.gameLoop (cfg.laneOf id)]) : Keyed cfg ⟨t, s.threads.exec i new⟩ id := by
  have hsent : (t.conns id).ofGame = (s.server.conns id).ofGame := by
    rw [Conn.ofGame, Server.sent_exec h (by simp) (by simp), Conn.ofGame]
  obtain ⟨-, ops, hops, hstep⟩ | ⟨hne, -⟩ := Server.exec_game h (cfg.laneOf id)
  · obtain hahead := List.append_cancel_right (hops.symm.trans hnew)
    have hturn := GameLane.turn hstep
    have hlocks : ∀ o ∈ ServerState.ahead cfg id ⟨t, s.threads.exec i new⟩,
        o.locks id = false := fun o ho => hturn.locks (hahead ▸ ho)
    have hsub : s.issued cfg id ⊆ ServerState.issued cfg id ⟨t, s.threads.exec i new⟩ :=
      hturn.issued_subset
    have honce : (s.server.game (cfg.laneOf id)).announced id ≤ 1 :=
      (Nat.le_add_left ..).trans hissue.once
    have hbring : ServerState.bringing cfg id ⟨t, s.threads.exec i new⟩ =
        ops.filterMap (Op.bringing id) := by rw [ServerState.bringing, ← hahead]
    refine ⟨hlaned, fun o ho => hlocks o (List.mem_of_mem_tail ho), ?_⟩
    obtain ⟨hframes, hknows⟩ | ⟨key, hframes, hkey, hnone⟩ :=
      hturn.brings (ht.keys _) honce
    · refine hs.key.imp (fun hlost => ?_) fun hleads => ?_
      · -- the thread of the lane has closed the connection before it takes a turn
        have hclosed : (s.server.conns id).closed = true := by
          refine hlost.shut.resolve_right ?_
          rintro ⟨o, rest, hahead, -⟩
          rw [hidle] at hahead
          cases hahead
        refine ⟨hlost.issued.imp fun _ hkey => hsub hkey, hsent.trans hlost.nothing, hlocks,
          Or.inl ?_⟩
        exact Server.closed_exec_of_lt h (hissue.lt_nextId hlost.issued) hclosed
      · have hopens := hleads.opens
        have hknown := hleads.known
        rw [ServerState.bringing, hidle, List.filterMap_nil, List.append_nil] at hopens hknown
        refine ⟨?_, fun hk => ?_⟩
        · dsimp only
          rw [hbring, hsent]
          cases hlist : ops.filterMap (Op.bringing id) with
          | nil =>
            rw [List.append_nil]
            exact hopens.mono hsub
          | cons f fs =>
            have hk := (hframes f (hlist ▸ List.mem_cons_self ..)).2
            exact (hopens.append (hknown hk) fun g hg => (hframes g (hlist ▸ hg)).1).mono hsub
        · dsimp only
          rw [hsent]
          exact List.append_ne_nil_of_left_ne_nil (hknown (hknows hk)) _
    · refine Or.inr ?_
      obtain hlost | hleads := hs.key
      · obtain ⟨key', hkey'⟩ := hlost.issued
        exact absurd hkey' (hnone key')
      · have hnil := hleads.opens.eq_nil hnone
        obtain ⟨hnil, -⟩ := List.append_eq_nil_iff.mp hnil
        refine ⟨?_, fun _ => ?_⟩
        · dsimp only
          rw [hbring, hsent, hnil, hframes]
          exact Or.inr ⟨key, [], rfl, hkey, by simp⟩
        · dsimp only
          rw [hbring, hframes]
          simp
  · exact absurd rfl hne

section

variable {rest : List Op}

/-- The frames on their way : that of the next operation, and those behind it. -/
theorem bringing_ahead (hbefore : s.ahead cfg id = op :: rest) :
    s.bringing cfg id = (op.bringing id).toList ++ rest.filterMap (Op.bringing id) := by
  rw [ServerState.bringing, hbefore]
  cases hb : op.bringing id <;> simp [hb]

/-- And after it : those it leads to, and those behind it. -/
theorem bringing_after (hafter : ServerState.ahead cfg id ⟨t, s.threads.exec i new⟩ = new ++ rest) :
    ServerState.bringing cfg id ⟨t, s.threads.exec i new⟩ =
      new.filterMap (Op.bringing id) ++ rest.filterMap (Op.bringing id) := by
  rw [ServerState.bringing, hafter, List.filterMap_append]

/-- What closes the connection pushes nothing that would send on it. -/
theorem closed_of_shuts (hown : ∀ l, s.server.Owned cfg l)
    (h : s.server.exec cfg e op = some (t, new)) (hshut : op.shuts id = true) :
    (t.conns id).closed = true ∧ ∀ o ∈ new, o.locks id = false := by
  have hop := Op.shuts_cases hshut
  refine ⟨Server.closed_of_close h hop, (bringing_calm (Server.calm_exec hown h ?_)).2⟩
  obtain rfl | rfl := hop <;> rfl

/-- The key stays lost while what is ahead is executed : the connection is closed, so nothing that
is on its way is sent. -/
theorem lost_ahead (hlost : KeyLost cfg s id) (hown : ∀ l, s.server.Owned cfg l)
    (hissue : Issue cfg s id) (h : s.server.exec cfg e op = some (t, new))
    (hloop : op ≠ .gameLoop (cfg.laneOf id)) (hadopt : op = .adopt → s.server.nextId ≠ id)
    (hbefore : s.ahead cfg id = op :: rest)
    (hafter : ServerState.ahead cfg id ⟨t, s.threads.exec i new⟩ = new ++ rest)
    (hrest : ∀ o ∈ rest, o.locks id = false) (hb : Server.Brings id s.server t op new) :
    KeyLost cfg ⟨t, s.threads.exec i new⟩ id := by
  obtain ⟨hkept, hlocks⟩ := hb
  have hop : (s.server.conns id).closed = true ∨ op.shuts id = true := by
    refine hlost.shut.imp_right ?_
    rintro ⟨o, l, heq, hshut⟩
    rw [hbefore] at heq
    obtain ⟨rfl, -⟩ := List.cons.inj heq
    exact hshut
  refine ⟨by rw [(lane_exec (i := i) h hloop).1]; exact hlost.issued, ?_, ?_, Or.inl ?_⟩
  · dsimp only
    rw [hlost.nothing, List.nil_append] at hkept
    cases hb : op.bringing id with
    | none =>
      rw [hb] at hkept
      exact (List.append_eq_nil_iff.mp hkept).1
    | some f =>
      have hunlocked := hlost.unlocked op (hbefore ▸ List.mem_cons_self ..)
      have hnolock : ∀ answers g, op ≠ .lockSend id answers g := by
        rintro answers g rfl
        obtain ⟨hg, -⟩ : g.ofGame = true ∧ g = f := by simpa [Op.bringing] using hb
        simp [Op.locks, hg] at hunlocked
      rw [Conn.ofGame, Server.sent_exec h hadopt hnolock, ← Conn.ofGame, hlost.nothing]
  · rw [hafter]
    intro o ho
    obtain ho | ho := List.mem_append.mp ho
    · obtain hcl | hshut := hop
      · by_contra hlock
        rw [(hlocks o ho (by simpa using hlock)).1] at hcl
        cases hcl
      · exact (closed_of_shuts hown h hshut).2 o ho
    · exact hrest o ho
  · obtain hcl | hshut := hop
    · exact Server.closed_exec_of_lt h (hissue.lt_nextId hlost.issued) hcl
    · exact (closed_of_shuts hown h hshut).1

/-- The key still leads when the frame at hand is passed on. -/
theorem leads_ahead (hleads : KeyLeads cfg s id) (h : s.server.exec cfg e op = some (t, new))
    (hloop : op ≠ .gameLoop (cfg.laneOf id)) (hbefore : s.ahead cfg id = op :: rest)
    (hafter : ServerState.ahead cfg id ⟨t, s.threads.exec i new⟩ = new ++ rest)
    (hb : Server.Brings id s.server t op new) : KeyLeads cfg ⟨t, s.threads.exec i new⟩ id := by
  have hlane := lane_exec (i := i) h hloop
  have heq : (t.conns id).ofGame ++ ServerState.bringing cfg id ⟨t, s.threads.exec i new⟩ =
      (s.server.conns id).ofGame ++ s.bringing cfg id := by
    rw [bringing_ahead hbefore, bringing_after hafter, ← List.append_assoc, hb.1,
      List.append_assoc]
  refine ⟨?_, ?_⟩
  · rw [hlane.1]
    exact heq ▸ hleads.opens
  · dsimp only
    rw [hlane.2, heq]
    exact hleads.known

/-- The frame at hand is lost : if it was the key, nothing is sent any more, and if the key has been
sent, it still leads. -/
theorem loses_ahead (hs : Keyed cfg s id) (hissue : Issue cfg s id)
    (h : s.server.exec cfg e op = some (t, new)) (hloop : op ≠ .gameLoop (cfg.laneOf id))
    (hlaned : Laned cfg ⟨t, s.threads.exec i new⟩ id) (hbefore : s.ahead cfg id = op :: rest)
    (hafter : ServerState.ahead cfg id ⟨t, s.threads.exec i new⟩ = new ++ rest)
    (hrest : ∀ o ∈ rest, o.locks id = false) (hb : Server.Loses id s.server t op new) :
    Keyed cfg ⟨t, s.threads.exec i new⟩ id := by
  obtain ⟨f, hf, hsent, hend⟩ := hb
  have hlane := lane_exec (i := i) h hloop
  have hnew : new.filterMap (Op.bringing id) = [] ∧ ∀ o ∈ new, o.locks id = false := by
    obtain ⟨-, rfl⟩ | ⟨o, rfl, hshut⟩ := hend
    · simp
    · obtain rfl | rfl := Op.shuts_cases hshut <;> simp [Op.bringing, Op.locks]
  have hunlocked : ∀ o ∈ ServerState.ahead cfg id ⟨t, s.threads.exec i new⟩,
      o.locks id = false := by
    rw [hafter]
    intro o ho
    exact (List.mem_append.mp ho).elim (hnew.2 o) (hrest o)
  have hshut : (∃ key, (id, key) ∈ s.issued cfg id) → (t.conns id).closed = true ∨
      ∃ o l, ServerState.ahead cfg id ⟨t, s.threads.exec i new⟩ = o :: l ∧ o.shuts id = true := by
    intro hkey
    refine hend.imp (fun hend => Server.closed_exec_of_lt h (hissue.lt_nextId hkey) hend.1) ?_
    rintro ⟨o, rfl, ho⟩
    exact ⟨o, rest, hafter, ho⟩
  refine ⟨hlaned, fun o ho => hunlocked o (List.mem_of_mem_tail ho), ?_⟩
  obtain hlost | hleads := hs.key
  · exact Or.inl ⟨by rw [hlane.1]; exact hlost.issued, hsent.trans hlost.nothing, hunlocked,
      hshut hlost.issued⟩
  · have hopens := hleads.opens
    rw [bringing_ahead hbefore, hf, Option.toList_some, List.singleton_append] at hopens
    by_cases hnil : (s.server.conns id).ofGame = []
    · have hkey := hopens.exists_key (by simp)
      exact Or.inl ⟨by rw [hlane.1]; exact hkey, hsent.trans hnil, hunlocked, hshut hkey⟩
    · refine Or.inr ⟨?_, fun _ => ?_⟩
      · dsimp only
        rw [hlane.1, bringing_after hafter, hnew.1, List.nil_append, hsent]
        exact hopens.drop hnil
      · dsimp only
        rw [hsent]
        exact List.append_ne_nil_of_left_ne_nil hnil _

/-- The thread of the lane executes what is ahead of the next turn. -/
theorem ahead (hs : Keyed cfg s id) (ht : Traced cfg s results) (hissue : Issue cfg s id)
    (h : s.server.exec cfg e op = some (t, new)) (hloop : op ≠ .gameLoop (cfg.laneOf id))
    (hquiet : op.quiet = true) (hadopt : op = .adopt → s.server.nextId ≠ id)
    (hlaned : Laned cfg ⟨t, s.threads.exec i new⟩ id) (hbefore : s.ahead cfg id = op :: rest)
    (hafter : ServerState.ahead cfg id ⟨t, s.threads.exec i new⟩ = new ++ rest) :
    Keyed cfg ⟨t, s.threads.exec i new⟩ id := by
  have hrest : ∀ o ∈ rest, o.locks id = false := fun o ho =>
    hs.tail o (by rw [hbefore]; exact ho)
  obtain hb | hb := Server.brings_exec h ht.owned (Or.inr hquiet) hloop hadopt
  · refine ⟨hlaned, ?_, hs.key.imp (fun hlost => ?_) fun hleads => ?_⟩
    · rw [hafter]
      cases new with
      | nil => exact fun o ho => hrest o (List.mem_of_mem_tail ho)
      | cons n new =>
        intro o ho
        obtain ho | ho := List.mem_append.mp ho
        · by_contra hlock
          obtain ⟨-, hone⟩ := hb.2 o (List.mem_cons_of_mem _ ho) (by simpa using hlock)
          rw [(List.cons.inj hone).2] at ho
          cases ho
        · exact hrest o ho
    · exact lost_ahead hlost ht.owned hissue h hloop hadopt hbefore hafter hrest hb
    · exact leads_ahead hleads h hloop hbefore hafter hb
  · exact hs.loses_ahead hissue h hloop hlaned hbefore hafter hrest hb

end

/-- Another thread executes a calm operation. -/
theorem other (hs : Keyed cfg s id) (ht : Traced cfg s results) (hissue : Issue cfg s id)
    (h : s.server.exec cfg e op = some (t, new)) (hcalm : op.calm cfg id = true)
    (hadopt : op = .adopt → s.server.nextId ≠ id)
    (hlaned : Laned cfg ⟨t, s.threads.exec i new⟩ id)
    (hahead : ServerState.ahead cfg id ⟨t, s.threads.exec i new⟩ = s.ahead cfg id) :
    Keyed cfg ⟨t, s.threads.exec i new⟩ id := by
  have hloop : op ≠ .gameLoop (cfg.laneOf id) := by
    rintro rfl
    simp [Op.calm] at hcalm
  have hlane := lane_exec (i := i) h hloop
  have hnone := (Op.bringing_of_calm hcalm).1
  have hnew := (bringing_calm (Server.calm_exec ht.owned h hcalm)).1
  have hsent : (t.conns id).ofGame = (s.server.conns id).ofGame := by
    obtain ⟨hkept, -⟩ | ⟨f, hf, -⟩ :=
      Server.brings_exec h ht.owned (Or.inl hcalm) hloop hadopt
    · rwa [hnew, hnone, Option.toList_none, List.append_nil, List.append_nil] at hkept
    · rw [hnone] at hf
      cases hf
  have hbringing : ServerState.bringing cfg id ⟨t, s.threads.exec i new⟩ = s.bringing cfg id := by
    rw [ServerState.bringing, hahead, ServerState.bringing]
  refine ⟨hlaned, by rw [hahead]; exact hs.tail, hs.key.imp (fun hlost => ?_) fun hleads => ?_⟩
  · refine ⟨by rw [hlane.1]; exact hlost.issued, hsent.trans hlost.nothing,
      by rw [hahead]; exact hlost.unlocked, ?_⟩
    rw [hahead]
    exact hlost.shut.imp_left (Server.closed_exec_of_lt h (hissue.lt_nextId hlost.issued))
  · refine ⟨?_, ?_⟩
    · dsimp only
      rw [hlane.1, hbringing, hsent]
      exact hleads.opens
    · dsimp only
      rw [hlane.2, hbringing, hsent]
      exact hleads.known

/-- A connection that is adopted has not been announced before. -/
theorem adopt (hs : Keyed cfg s id) (hissue : Issue cfg s id) (hid : s.server.nextId = id)
    (h : s.server.exec cfg e .adopt = some (t, new))
    (hlaned : Laned cfg ⟨t, s.threads.exec i new⟩ id)
    (hmoves : Moves cfg id i .adopt new (s.ahead cfg id)
      (ServerState.ahead cfg id ⟨t, s.threads.exec i new⟩)) :
    Keyed cfg ⟨t, s.threads.exec i new⟩ id := by
  have hnone : ∀ key, (id, key) ∉ s.issued cfg id := fun key hkey =>
    absurd hid (hissue.lt_nextId ⟨key, hkey⟩).ne'
  have hconn : t.conns id = .fresh := by
    cases h
    simp [Server.updConn, hid]
  have hnew : new = [.register s.server.nextId] := by
    cases h
    rfl
  have hgame : t.game = s.server.game := by
    cases h
    rfl
  obtain ⟨key, hkey⟩ | hleads := hs.key.imp_left KeyLost.issued
  · exact absurd hkey (hnone key)
  have hnil := hleads.opens.eq_nil hnone
  have hahead : ServerState.bringing cfg id ⟨t, s.threads.exec i new⟩ = [] ∧
      ∀ o ∈ (ServerState.ahead cfg id ⟨t, s.threads.exec i new⟩).tail, o.locks id = false := by
    have hbring := (List.append_eq_nil_iff.mp hnil).2
    have htail := hs.tail
    rw [ServerState.bringing] at hbring ⊢
    cases hmoves with
    | turn _ hop => cases hop
    | ahead rest hbefore hafter =>
      rw [hbefore, List.filterMap_cons] at hbring
      rw [hbefore] at htail
      rw [hafter, hnew]
      exact ⟨by simpa [Op.bringing] using hbring, htail⟩
    | other _ hafter =>
      rw [hafter]
      exact ⟨hbring, htail⟩
  refine ⟨hlaned, hahead.2, Or.inr ⟨Or.inl ?_, fun hk => ?_⟩⟩
  · rw [hahead.1, hconn]
    rfl
  · rw [hgame] at hk
    exact absurd hnil (hleads.known hk)

/-- Every operation keeps the key in front. -/
theorem exec (hs : Keyed cfg s id) (ht : Traced cfg s results) (hissue : Issue cfg s id)
    (hi : s.threads.head i = some op) (h : s.server.exec cfg e op = some (t, new)) :
    Keyed cfg ⟨t, s.threads.exec i new⟩ id := by
  obtain ⟨hlaned, hmoves⟩ := hs.laned.exec ht.owned hi h
  by_cases hadopt : op = .adopt ∧ s.server.nextId = id
  · obtain ⟨rfl, hid⟩ := hadopt
    exact hs.adopt hissue hid h hlaned hmoves
  have hadopt : op = .adopt → s.server.nextId ≠ id := fun hop hid => hadopt ⟨hop, hid⟩
  cases hmoves with
  | turn _ hop hidle hnew =>
    subst hop
    exact hs.turn ht hissue h hlaned hidle hnew
  | ahead rest hbefore hafter hloop hquiet =>
    exact hs.ahead ht hissue h hloop hquiet hadopt hlaned hbefore hafter
  | other hcalm hafter => exact hs.other ht hissue h hcalm hadopt hlaned hafter

/-- So does every step. -/
theorem step {a : ServerStep} (hs : Keyed cfg s id) (ht : Traced cfg s results)
    (hissue : Issue cfg s id) (h : (serverThreads cfg).step s a = some s') : Keyed cfg s' id := by
  obtain ⟨i, e, op, new, -, hi, hex, hth⟩ | ⟨op, -, hext, hsv, hth⟩ := ServerState.step_cases h
  · have := hs.exec ht hissue hi hex
    rwa [← hth] at this
  · obtain ⟨server, threads⟩ := s'
    dsimp only at hsv hth
    subst hsv hth
    obtain ⟨hlaned, hahead⟩ := hs.laned.spawn hext
    refine ⟨hlaned, by rw [hahead]; exact hs.tail, hs.key.imp (fun hlost => ?_) fun hleads => ?_⟩
    · exact ⟨hlost.issued, hlost.nothing, by rw [hahead]; exact hlost.unlocked,
        by rw [hahead]; exact hlost.shut⟩
    · have hbringing : ServerState.bringing cfg id
          { s with threads := s.threads.spawn [op] } = s.bringing cfg id := by
        rw [ServerState.bringing, hahead, ServerState.bringing]
      exact ⟨by rw [hbringing]; exact hleads.opens, by rw [hbringing]; exact hleads.known⟩

end Keyed

/-- In every run, of what a connection has sent that only the game service sends, the first frame is
the session key, and no other brings a key; it is the key that has been issued to the connection. -/
theorem key_first (h : (serverThreads cfg).Reaches s) (id : ℕ) :
    (s.server.conns id).ofGame = [] ∨
      ∃ key rest, (s.server.conns id).ofGame = keyAck key :: rest ∧
        (id, key) ∈ (s.server.game (cfg.laneOf id)).issued ∧ ∀ f ∈ rest, f.isKey = false := by
  have hs : (∃ results, Traced cfg s results) ∧ Issue cfg s id ∧ Keyed cfg s id := by
    refine Machine.Reaches.invariant
      (I := fun s => (∃ results, Traced cfg s results) ∧ Issue cfg s id ∧ Keyed cfg s id) ?_
      (fun s a s' hs hstep => ?_) h
    · rintro s rfl
      exact ⟨⟨[], .fresh cfg⟩, .fresh cfg id, .fresh cfg id⟩
    · obtain ⟨⟨results, ht⟩, hissue, hkeyed⟩ := hs
      exact ⟨⟨_, ht.step hstep⟩, hissue.step hstep, hkeyed.step ht hissue hstep⟩
  obtain ⟨-, -, hkeyed⟩ := hs
  obtain hlost | hleads := hkeyed.key
  · exact Or.inl hlost.nothing
  · obtain hnil | ⟨key, rest, heq, hkey, hrest⟩ := hleads.opens
    · exact Or.inl (List.append_eq_nil_iff.mp hnil).1
    · cases hframes : (s.server.conns id).ofGame with
      | nil => exact Or.inl rfl
      | cons f frames =>
        rw [hframes] at heq
        obtain ⟨rfl, rfl⟩ := List.cons.inj heq
        exact Or.inr ⟨key, frames, rfl, hkey, fun g hg => hrest g (List.mem_append_left _ hg)⟩

/-- A connection sends an Echo. -/
def echoRun : List ServerStep :=
  adoptedRun ++ .spawn (.arrive 1 ⟨kEchoReq, (ByteWriter.scratch.str [97]).data⟩) :: runs 4 1 ++
    .spawn (.receive 1) :: runs 5 8 ++ runs 0 12

/-- The key is sent, and the answer behind it. -/
theorem key_first_echo : ∃ s : ServerState,
    (s.server.conns 1).ofGame.map Frame.msgId = [kSessionAck, kEchoAck] ∧
      ∃ key rest, (s.server.conns 1).ofGame = keyAck key :: rest ∧
        (1, key) ∈ (s.server.game (oneLane.laneOf 1)).issued ∧ ∀ f ∈ rest, f.isKey = false := by
  obtain ⟨s, hs, htest⟩ := (serverThreads oneLane).exists_reachesWhen (fun _ _ => True)
    (.fresh oneLane) echoRun
    (fun s => decide ((s.server.conns 1).ofGame.map Frame.msgId = [kSessionAck, kEchoAck])) rfl
    (by decide +kernel)
  have hsent := of_decide_eq_true htest
  refine ⟨s, hsent, (key_first hs 1).resolve_left fun hnil => ?_⟩
  rw [hnil] at hsent
  cases hsent

end EchoServer
