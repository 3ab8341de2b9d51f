import EchoServer.System.Receivers

/-!
# The thread of a game lane

Some frames only the game service sends : the session key, the answers to Echo and Ping, and what it
makes of a response of the database. It sends them from the thread of the connection's lane, which
executes what a turn has left to it before it takes the next turn. Every other operation is calm for
the connection, and what a calm operation pushes is calm (`Server.calm_exec`).

`Laned` says so of the threads, and `Laned.moves` names the three ways in which a step goes on with
it : the lane takes a turn, its thread executes what is ahead of the next turn, or another thread
executes a calm operation.
-/

namespace EchoServer

open Threads

variable {cfg : ServerConfig} {e : Env} {s s' : ServerState} {t : Server} {op : Op}
  {new : List Op} {i id : ℕ}

/-! ## The frames of the game service -/

namespace Frame

/-- The answer to an Echo or to a Ping. -/
def prompt (f : Frame) : Bool := f.msgId = kEchoAck || f.msgId = kPongAck

/-- What the game service sends for a response of the database. -/
def ofResponse (f : Frame) : Bool :=
  f.msgId = kSaveAck || f.msgId = kHistoryAck || f.msgId = kCounterAck ||
    f.msgId = kErrorAck &&
      (f.body.drop 4 = (ByteWriter.scratch.str (utf8 "db request failed")).data ||
        f.body.drop 4 = (ByteWriter.scratch.str (utf8 "db request expired")).data)

/-- The frame brings a session key. -/
def isKey (f : Frame) : Bool := f.msgId = kSessionAck

/-- Only a game lane sends the frame. -/
def ofGame (f : Frame) : Bool := f.isKey || f.prompt || f.ofResponse

end Frame

/-- The text of an error is what stands behind its two numbers. -/
theorem text_errorAck (origin : ℕ) (code : ErrorCode) (detail : String) :
    (errorAck origin code detail).body.drop 4 = (ByteWriter.scratch.str (utf8 detail)).data := by
  have hlen : (storeBe 2 origin ++ storeBe 2 code.value).length = 4 := by simp
  simp only [errorAck, ByteWriter.scratch, ByteWriter.u16, ByteWriter.str, List.nil_append,
    List.append_assoc]
  rw [← List.append_assoc, List.drop_left' hlen]

theorem ofResponse_errorAck (origin : ℕ) (code : ErrorCode) (detail : String) :
    (errorAck origin code detail).ofResponse =
      decide ((ByteWriter.scratch.str (utf8 detail)).data ∈
        ["db request failed", "db request expired"].map
          fun text => (ByteWriter.scratch.str (utf8 text)).data) := by
  have hid : (errorAck origin code detail).msgId = kErrorAck := rfl
  simp [Frame.ofResponse, hid, text_errorAck, kErrorAck, kSaveAck, kHistoryAck, kCounterAck,
    kSaveReq, kHistoryReq, kCounterReq, kAckOffset]

/-- An error is of the game service exactly if it stands for a response. -/
theorem ofGame_errorAck (origin : ℕ) (code : ErrorCode) (detail : String) :
    (errorAck origin code detail).ofGame = (errorAck origin code detail).ofResponse := by
  have hid : (errorAck origin code detail).msgId = kErrorAck := rfl
  simp [Frame.ofGame, Frame.isKey, Frame.prompt, hid, kErrorAck, kSessionAck, kEchoAck, kPongAck,
    kEchoReq, kPingReq, kAckOffset]

/-- What the router refuses a frame with is no response of the database. -/
theorem RouterRefusal.ofGame {code : ErrorCode} {detail : String} (h : RouterRefusal code detail)
    (origin : ℕ) : (errorAck origin code detail).ofGame = false := by
  rw [ofGame_errorAck, ofResponse_errorAck]
  cases h <;> decide +kernel

/-- A request that the pool has refused has no response. -/
theorem DbRefusal.ofGame {code : ErrorCode} {detail : String} (h : DbRefusal code detail)
    (origin : ℕ) : (errorAck origin code detail).ofGame = false := by
  rw [ofGame_errorAck, ofResponse_errorAck]
  cases h <;> decide +kernel

/-- A message that the game service answers at once is answered with a prompt reply. -/
theorem prompt_onMessage {unixMs : ℕ} {m : Message} {f : Frame}
    (h : onMessage unixMs m = .reply f) : f.prompt = true := by
  unfold onMessage at h
  split_ifs at h
  · simp only [handleEcho, withPayload] at h
    split_ifs at h
    cases h
    rfl
  · simp only [handlePing] at h
    split_ifs at h
    cases h
    rfl
  · simp only [handleSave, withPayload] at h
    split_ifs at h
  · simp only [handleHistory] at h
    split_ifs at h
  · simp only [handleCounter] at h
    split_ifs at h

/-- Nor has a request that the game service refuses. -/
theorem ofGame_refuse {unixMs : ℕ} {m : Message} {code : ErrorCode} {detail : String}
    (h : onMessage unixMs m = .refuse code detail) (origin : ℕ) :
    (errorAck origin code detail).ofGame = false := by
  rw [ofGame_errorAck, ofResponse_errorAck]
  unfold onMessage at h
  split_ifs at h
  · cases h
    decide +kernel
  · simp only [handleEcho, withPayload] at h
    split_ifs at h <;> cases h <;> decide +kernel
  · simp only [handlePing] at h
    split_ifs at h
    cases h
    decide +kernel
  · simp only [handleSave, withPayload] at h
    split_ifs at h <;> cases h <;> decide +kernel
  · simp only [handleHistory] at h
    split_ifs at h <;> cases h <;> decide +kernel
  · simp only [handleCounter] at h
    split_ifs at h <;> cases h <;> decide +kernel
  · cases h
    decide +kernel

/-- Or the chat service. -/
theorem ofGame_refuseChat {m : Message} {code : ErrorCode} {detail : String}
    (h : onChatMessage m = .refuse code detail) (origin : ℕ) :
    (errorAck origin code detail).ofGame = false := by
  rw [ofGame_errorAck, ofResponse_errorAck]
  unfold onChatMessage at h
  split_ifs at h
  · cases h
    decide +kernel
  · simp only [withPayload] at h
    split_ifs at h <;> cases h <;> decide +kernel

theorem ofGame_chatPush (sender text : Bytes) : (chatPush sender text).ofGame = false := rfl

theorem ofResponse_processDbResponse (res : Response) :
    (processDbResponse res).ofResponse = true := by
  unfold processDbResponse
  split
  · cases hkind : res.kind <;> simp [dbReply, hkind, Frame.ofResponse]
  all_goals
    rw [ofResponse_errorAck]
    simp

/-- The frames of the game service are of three kinds. -/
theorem Frame.kinds (f : Frame) : (f.prompt = true → f.ofResponse = false ∧ f.isKey = false) ∧
    (f.isKey = true → f.ofResponse = false) := by
  refine ⟨fun h => ?_, fun h => ?_⟩
  · obtain h | h : f.msgId = kEchoAck ∨ f.msgId = kPongAck := by simpa [prompt] using h
    all_goals simp [ofResponse, isKey, h, kErrorAck, kSessionAck, kEchoAck, kPongAck, kSaveAck,
      kHistoryAck, kCounterAck, kEchoReq, kPingReq, kSaveReq, kHistoryReq, kCounterReq, kAckOffset]
  · have h : f.msgId = kSessionAck := by simpa [isKey] using h
    simp [ofResponse, h, kErrorAck, kSessionAck, kSaveAck, kHistoryAck, kCounterAck, kSaveReq,
      kHistoryReq, kCounterReq, kAckOffset]

/-! ## Calm operations -/

/-- The operation belongs to no turn of the connection's lane. -/
def Op.calm (cfg : ServerConfig) (id : ℕ) : Op → Bool
  | gameLoop l => l ≠ cfg.laneOf id
  | submitDb _ req => req.connId ≠ id
  | send k _ f | lockSend k _ f => k ≠ id || !f.ofGame
  | broadcast _ _ f _ => !f.ofGame
  | _ => true

/-- What the network does belongs to no turn. -/
theorem Op.calm_of_bare (h : op.bare = true) : op.calm cfg id = true := by
  cases op <;> simp_all [bare, calm]

theorem calm_sendError {k index origin : ℕ} {code : ErrorCode} {detail : String}
    (hcalm : k = id → (errorAck origin code detail).ofGame = false)
    (h : op ∈ sendError k index origin code detail) : op.calm cfg id = true := by
  obtain rfl | rfl := mem_sendError h
  · by_cases hk : k = id
    · simp [Op.calm, hcalm hk]
    · simp [Op.calm, hk]
  · rfl

/-- What a turn leaves to its thread is about one connection. -/
theorem GameLane.Turn.calm {lane lane' : GameLane} {ops : List Op} (h : Turn e lane lane' ops)
    (hevents : ∀ ev ∈ lane.events, ev.connId ≠ id) (hreplies : ∀ r ∈ lane.replies, r.2.connId ≠ id)
    (hop : op ∈ ops) : op.calm cfg id = true := by
  cases h with
  | move => simp at hop
  | reply index res _ hrep =>
    have hne : res.connId ≠ id := hreplies (index, res) (hrep ▸ List.mem_cons_self ..)
    unfold onReply at hop
    split at hop
    · simp at hop
    · obtain rfl := List.mem_singleton.mp hop
      simp [Op.calm, hne]
  | event ev hev =>
    have hne : ev.connId ≠ id := hevents ev (hev ▸ List.mem_cons_self ..)
    cases ev with
    | connected k =>
      simp only [Event.connId] at hne
      simp only [onEvent] at hop
      split at hop <;> simp only [List.mem_cons, List.not_mem_nil, or_false] at hop
      all_goals
        obtain rfl | rfl := hop
        · simp [Op.calm, hne]
        · rfl
    | disconnected k => simp [onEvent] at hop
    | message m =>
      simp only [Event.connId] at hne
      simp only [onEvent] at hop
      split at hop
      · simp at hop
      · cases hv : onMessage e.unixMs m with
        | reply f =>
          rw [hv] at hop
          obtain rfl := List.mem_singleton.mp hop
          simp [Op.calm, hne]
        | refuse code detail =>
          rw [hv] at hop
          exact calm_sendError (fun hk => absurd hk hne) hop
        | pass req =>
          rw [hv] at hop
          obtain rfl := List.mem_singleton.mp hop
          simp [Op.calm, hne]

/-- Nor does what the chat service does. -/
theorem ChatLane.calm_turn {lane lane' : ChatLane} {ops : List Op} (h : Turn lane lane' ops)
    (hop : op ∈ ops) : op.calm cfg id = true := by
  cases h with
  | move => simp at hop
  | relay => simp at hop
  | event ev =>
    cases ev with
    | connected k => simp [onEvent] at hop
    | disconnected k => simp [onEvent] at hop
    | message m =>
      simp only [onEvent] at hop
      split at hop
      · simp at hop
      · cases hv : onChatMessage m with
        | reply f => exact absurd hv (onChatMessage_ne_reply m f)
        | refuse code detail =>
          rw [hv] at hop
          exact calm_sendError (fun _ => ofGame_refuseChat hv _) hop
        | pass text =>
          rw [hv] at hop
          obtain rfl := List.mem_singleton.mp hop
          simp [Op.calm, ofGame_chatPush]

namespace Server

variable {s : Server}

/-- Nor what begins a thread. -/
theorem calm_of_external (h : s.external op = true) : op.calm cfg id = true := by
  cases op <;> simp [external, Op.calm] at h ⊢

/-- A calm operation pushes calm operations. -/
theorem calm_exec (hown : ∀ l, s.Owned cfg l) (h : s.exec cfg e op = some (t, new))
    (hcalm : op.calm cfg id = true) : ∀ o ∈ new, o.calm cfg id = true := by
  intro o ho
  cases expandsTo_exec h ho with
  | game l mem =>
    have hl : l ≠ cfg.laneOf id := by simpa [Op.calm] using hcalm
    refine (GameLane.turn rfl).calm (fun ev hev hid => hl ?_) (fun r hr hid => hl ?_) mem
    · rw [← hid, (hown l).events ev hev]
    · rw [← hid, (hown l).replies r hr]
  | chat mem => exact ChatLane.calm_turn (ChatLane.turn rfl) mem
  | again => exact hcalm
  | bare hbare => exact Op.calm_of_bare hbare
  | handler k _ hgoes => obtain rfl | rfl | rfl := hgoes <;> rfl
  | offer | pass | route => rfl
  | refuse k index view hframe href => simp [Op.calm, href.ofGame]
  | refuseDb index req href => simp [Op.calm, href.ofGame]
  | lock => exact hcalm
  | member k index f mem => simpa [Op.calm] using Or.inr hcalm
  | members => exact hcalm

end Server

/-! ## What is ahead of the next turn -/

/-- What the thread of the connection's lane executes before the next turn. -/
def ServerState.ahead (cfg : ServerConfig) (id : ℕ) (s : ServerState) : List Op :=
  (s.threads[cfg.laneOf id]?.getD []).dropLast

/-- A turn of the connection's lane is carried out by the thread of the lane. -/
structure Laned (cfg : ServerConfig) (s : ServerState) (id : ℕ) : Prop where
  others : ∀ i, i ≠ cfg.laneOf id → ∀ stack, s.threads[i]? = some stack →
    ∀ o ∈ stack, o.calm cfg id = true
  lane : s.threads[cfg.laneOf id]? = some (s.ahead cfg id ++ [.gameLoop (cfg.laneOf id)])
  single : ∀ o ∈ s.ahead cfg id, o ≠ .gameLoop (cfg.laneOf id) ∧ o.quiet = true

/-- The loop of a lane is pushed by itself only. -/
theorem Server.gameLoop_of_exec {s : Server} {l : ℕ} (h : s.exec cfg e op = some (t, new))
    (hmem : .gameLoop l ∈ new) : op = .gameLoop l := by
  generalize ho : Op.gameLoop l = o at hmem
  cases expandsTo_exec h hmem with
  | game k mem =>
    obtain ⟨_, _, _, rfl⟩ | ⟨_, rfl⟩ | ⟨_, _, rfl⟩ | ⟨_, rfl⟩ := (GameLane.turn rfl).mem_ops mem
    all_goals cases ho
  | chat mem =>
    obtain ⟨_, _, _, rfl⟩ | ⟨_, rfl⟩ | ⟨_, _, _, _, rfl⟩ := (ChatLane.turn rfl).mem_ops mem
    all_goals cases ho
  | again => rfl
  | bare hbare =>
    subst ho
    cases hbare
  | handler k _ hgoes =>
    subst ho
    simp at hgoes
  | offer | pass | route | refuse | refuseDb | lock | member | members => cases ho

/-- How a step goes on with what is ahead of the next turn. -/
inductive Moves (cfg : ServerConfig) (id i : ℕ) (op : Op) (new before after : List Op) : Prop
  | turn (lane_eq : i = cfg.laneOf id) (op_eq : op = .gameLoop (cfg.laneOf id))
      (idle : before = []) (new_eq : new = after ++ [.gameLoop (cfg.laneOf id)])
  | ahead (rest : List Op) (before_eq : before = op :: rest) (after_eq : after = new ++ rest)
      (op_ne : op ≠ .gameLoop (cfg.laneOf id)) (op_quiet : op.quiet = true)
  | other (calm : op.calm cfg id = true) (after_eq : after = before)

namespace Laned

theorem ahead_eq {ahead : List Op}
    (h : s.threads[cfg.laneOf id]? = some (ahead ++ [.gameLoop (cfg.laneOf id)])) :
    s.ahead cfg id = ahead := by
  simp [ServerState.ahead, h]

/-- Before the first turn, the thread of the lane is at the top of its loop. -/
theorem lane_fresh (cfg : ServerConfig) (id : ℕ) :
    (ServerState.fresh cfg).threads[cfg.laneOf id]? = some ([] ++ [.gameLoop (cfg.laneOf id)]) := by
  have hlt : cfg.laneOf id < cfg.lanes := Nat.mod_lt _ cfg.lanes_pos
  simp only [ServerState.fresh]
  rw [List.getElem?_append_left (by simpa using hlt)]
  simp [hlt]

theorem ahead_fresh (cfg : ServerConfig) (id : ℕ) : (ServerState.fresh cfg).ahead cfg id = [] :=
  ahead_eq (lane_fresh cfg id)

theorem fresh (cfg : ServerConfig) (id : ℕ) : Laned cfg (.fresh cfg) id := by
  have hlen : ((List.range cfg.lanes).map fun l => [Op.gameLoop l]).length = cfg.lanes := by simp
  refine ⟨fun i hi stack hstack o ho => ?_, by rw [ahead_fresh, lane_fresh],
    by simp [ahead_fresh]⟩
  simp only [ServerState.fresh] at hstack
  obtain hi' | hi' := Nat.lt_or_ge i cfg.lanes
  · rw [List.getElem?_append_left (by omega)] at hstack
    simp only [List.getElem?_map, List.getElem?_range hi', Option.map_some,
      Option.some.injEq] at hstack
    subst hstack
    obtain rfl := List.mem_singleton.mp ho
    simpa [Op.calm] using hi
  · rw [List.getElem?_append_right (by omega), hlen] at hstack
    have hmem := List.mem_of_getElem? hstack
    simp only [List.mem_cons, List.not_mem_nil, or_false] at hmem
    obtain rfl | rfl := hmem
    all_goals
      obtain rfl := List.mem_singleton.mp ho
      rfl

/-- What the thread of the lane does leaves the other threads as they are. -/
theorem others_exec (hs : Laned cfg s id) (new : List Op) :
    ∀ j, j ≠ cfg.laneOf id → ∀ stack, (s.threads.exec (cfg.laneOf id) new)[j]? = some stack →
      ∀ o ∈ stack, o.calm cfg id = true := by
  intro j hj stack hstack
  rw [getElem?_exec_of_ne _ (Ne.symm hj)] at hstack
  exact hs.others j hj stack hstack

/-- With nothing ahead, the thread of the lane takes a turn. -/
theorem exec_turn (hs : Laned cfg s id) {rest : List Op}
    (hrest : s.threads[cfg.laneOf id]? = some (op :: rest)) (hahead : s.ahead cfg id = [])
    (h : s.server.exec cfg e op = some (t, new)) :
    Laned cfg ⟨t, s.threads.exec (cfg.laneOf id) new⟩ id ∧
      Moves cfg id (cfg.laneOf id) op new []
        (ServerState.ahead cfg id ⟨t, s.threads.exec (cfg.laneOf id) new⟩) := by
  have hstack := hs.lane
  rw [hahead, hrest, List.nil_append] at hstack
  obtain ⟨rfl, rfl⟩ := List.cons.inj (Option.some.inj hstack)
  obtain ⟨-, ops, rfl, hstep⟩ | ⟨hne, -⟩ := Server.exec_game h (cfg.laneOf id)
  · have hnew := getElem?_exec hrest (ops ++ [.gameLoop (cfg.laneOf id)])
    rw [List.append_nil] at hnew
    have heq : ServerState.ahead cfg id
        ⟨t, s.threads.exec (cfg.laneOf id) (ops ++ [.gameLoop (cfg.laneOf id)])⟩ = ops :=
      ahead_eq hnew
    refine ⟨⟨hs.others_exec _, by rw [heq]; exact hnew, fun o ho => ?_⟩, ?_⟩
    · rw [heq] at ho
      refine ⟨?_, GameLane.quiet_step hstep ho⟩
      obtain ⟨_, _, _, rfl⟩ | ⟨_, rfl⟩ | ⟨_, _, rfl⟩ | ⟨_, rfl⟩ :=
        (GameLane.turn hstep).mem_ops ho
      all_goals simp
    · rw [heq]
      exact .turn rfl rfl rfl rfl
  · exact absurd rfl hne

/-- What is ahead of the next turn comes first. -/
theorem exec_ahead (hs : Laned cfg s id) {rest ahead : List Op}
    (hrest : s.threads[cfg.laneOf id]? = some (op :: rest)) (hahead : s.ahead cfg id = o :: ahead)
    (h : s.server.exec cfg e op = some (t, new)) :
    Laned cfg ⟨t, s.threads.exec (cfg.laneOf id) new⟩ id ∧
      Moves cfg id (cfg.laneOf id) op new (o :: ahead)
        (ServerState.ahead cfg id ⟨t, s.threads.exec (cfg.laneOf id) new⟩) := by
  have hstack := hs.lane
  rw [hahead, hrest] at hstack
  obtain ⟨rfl, rfl⟩ := List.cons.inj (Option.some.inj hstack)
  obtain ⟨hne, hquiet⟩ := hs.single op (hahead ▸ List.mem_cons_self ..)
  have hnew : (s.threads.exec (cfg.laneOf id) new)[cfg.laneOf id]? =
      some ((new ++ ahead) ++ [.gameLoop (cfg.laneOf id)]) := by
    rw [getElem?_exec hrest, List.append_assoc]
    rfl
  have heq : ServerState.ahead cfg id ⟨t, s.threads.exec (cfg.laneOf id) new⟩ = new ++ ahead :=
    ahead_eq hnew
  refine ⟨⟨hs.others_exec _, by rw [heq]; exact hnew, fun o ho => ?_⟩, ?_⟩
  · rw [heq, List.mem_append] at ho
    obtain ho | ho := ho
    · refine ⟨?_, Server.quiet_exec h hquiet o ho⟩
      rintro rfl
      exact hne (Server.gameLoop_of_exec h ho)
    · exact hs.single o (hahead ▸ List.mem_cons_of_mem _ ho)
  · rw [heq]
    exact .ahead ahead rfl rfl hne hquiet

/-- Another thread executes a calm operation, and leaves what is ahead as it is. -/
theorem exec_other (hs : Laned cfg s id) (hown : ∀ l, s.server.Owned cfg l) {rest : List Op}
    (hrest : s.threads[i]? = some (op :: rest)) (hlane : i ≠ cfg.laneOf id)
    (h : s.server.exec cfg e op = some (t, new)) :
    Laned cfg ⟨t, s.threads.exec i new⟩ id ∧ Moves cfg id i op new (s.ahead cfg id)
      (ServerState.ahead cfg id ⟨t, s.threads.exec i new⟩) := by
  have hcalm := hs.others i hlane _ hrest
  have hop := hcalm op (List.mem_cons_self ..)
  have hnew : (s.threads.exec i new)[cfg.laneOf id]? =
      some (s.ahead cfg id ++ [.gameLoop (cfg.laneOf id)]) := by
    rw [getElem?_exec_of_ne _ hlane, hs.lane]
  have heq : ServerState.ahead cfg id ⟨t, s.threads.exec i new⟩ = s.ahead cfg id :=
    ahead_eq hnew
  refine ⟨⟨fun j hj stack hstack o ho => ?_, by rw [heq]; exact hnew,
    by rw [heq]; exact hs.single⟩, by rw [heq]; exact .other hop rfl⟩
  by_cases hij : i = j
  · subst hij
    rw [getElem?_exec hrest] at hstack
    obtain rfl := Option.some.inj hstack
    obtain ho | ho := List.mem_append.mp ho
    · exact Server.calm_exec hown h hop o ho
    · exact hcalm o (List.mem_cons_of_mem _ ho)
  · rw [getElem?_exec_of_ne _ hij] at hstack
    exact hs.others j hj stack hstack o ho

/-- The lane takes a turn, or its thread executes what is ahead of the next turn, or another thread
executes a calm operation. -/
theorem exec (hs : Laned cfg s id) (hown : ∀ l, s.server.Owned cfg l)
    (hi : s.threads.head i = some op) (h : s.server.exec cfg e op = some (t, new)) :
    Laned cfg ⟨t, s.threads.exec i new⟩ id ∧ Moves cfg id i op new (s.ahead cfg id)
      (ServerState.ahead cfg id ⟨t, s.threads.exec i new⟩) := by
  obtain ⟨rest, hrest⟩ := head_eq_some.mp hi
  by_cases hlane : i = cfg.laneOf id
  · subst hlane
    cases hahead : s.ahead cfg id with
    | nil => exact hs.exec_turn hrest hahead h
    | cons o ahead => exact hs.exec_ahead hrest hahead h
  · exact hs.exec_other hown hrest hlane h

/-- A thread that the environment starts is calm. -/
theorem spawn (hs : Laned cfg s id) (hext : s.server.external op = true) :
    Laned cfg { s with threads := s.threads.spawn [op] } id ∧
      ServerState.ahead cfg id { s with threads := s.threads.spawn [op] } = s.ahead cfg id := by
  obtain ⟨hlt, -⟩ := List.getElem?_eq_some_iff.mp hs.lane
  have hnew : (s.threads.spawn [op])[cfg.laneOf id]? =
      some (s.ahead cfg id ++ [.gameLoop (cfg.laneOf id)]) := by
    rw [Threads.spawn, List.getElem?_append_left hlt, hs.lane]
  have heq := ahead_eq (s := { s with threads := s.threads.spawn [op] }) hnew
  refine ⟨⟨fun j hj stack hstack o ho => ?_, by rw [heq]; exact hnew,
    by rw [heq]; exact hs.single⟩, heq⟩
  obtain hj' | hj' := Nat.lt_or_ge j s.threads.length
  · rw [Threads.spawn, List.getElem?_append_left hj'] at hstack
    exact hs.others j hj stack hstack o ho
  · rw [Threads.spawn, List.getElem?_append_right hj'] at hstack
    obtain rfl := List.mem_singleton.mp (List.mem_of_getElem? hstack)
    obtain rfl := List.mem_singleton.mp ho
    exact Server.calm_of_external hext

end Laned

end EchoServer
