import EchoServer.Db.Results
import EchoServer.System.FatalAnswers
import EchoServer.System.Pushes
import EchoServer.System.SessionNames

/-!
# Whose reply it is

A database request carries the session key that was issued to the connection it came from, and its
response finds the connection again through a number of places : the pool, the inbox of a game lane,
the session table at the time of the reply, the threads that send.

`Traced` says for each of these places what it holds stems from : a message from a frame of its
connection, a request from a message and the key of the session, a response from the calls that the
database has made for its request, a frame that is sent from the frame that it answers. One
operation hands these on (`Traced.exec`), so every reply of the database is to the connection that
asked, and carries the id of the row inserted for it (`replies_belong`).
-/

namespace EchoServer

open Threads

variable {cfg : ServerConfig} {e : Env} {s s' : ServerState} {t : Server} {op : Op}
  {new : List Op} {i id : ℕ} {results later : List (Job ℕ × Outcome)}

/-! ## The frames of the database -/

/-- The answer to a database request, or the error that there is none. -/
def Frame.fromDb (f : Frame) : Bool :=
  f.msgId = kSaveAck || f.msgId = kHistoryAck || f.msgId = kCounterAck ||
    f.msgId = kErrorAck && (loadBe16 (f.body.drop 2) = ErrorCode.dbUnavailable.value ||
      loadBe16 (f.body.drop 2) = ErrorCode.dbTimeout.value ||
      f.body.drop 4 = (ByteWriter.scratch.str (utf8 "db queue full")).data)

theorem fromDb_errorAck (origin : ℕ) (code : ErrorCode) (detail : String) :
    (errorAck origin code detail).fromDb = (code = .dbUnavailable || code = .dbTimeout ||
      (ByteWriter.scratch.str (utf8 detail)).data =
        (ByteWriter.scratch.str (utf8 "db queue full")).data) := by
  have htext : (errorAck origin code detail).body.drop 4 =
      (ByteWriter.scratch.str (utf8 detail)).data := by
    have hlen : (storeBe 2 origin ++ storeBe 2 code.value).length = 4 := by simp
    simp only [errorAck, ByteWriter.scratch, ByteWriter.u16, ByteWriter.str, List.nil_append,
      List.append_assoc]
    rw [← List.append_assoc, List.drop_left' hlen]
  have hid : (errorAck origin code detail).msgId = kErrorAck := rfl
  simp only [Frame.fromDb, loadBe16_errorAck, htext, hid]
  cases code <;> simp [ErrorCode.value, kErrorAck, kSaveAck, kHistoryAck, kCounterAck, kSaveReq,
    kHistoryReq, kCounterReq, kAckOffset]

/-- What the game service replies and refuses by itself is not of the database. -/
theorem fromDb_onMessage {unixMs : ℕ} {m : Message} {f : Frame}
    (h : onMessage unixMs m = .reply f) : f.fromDb = false := by
  unfold onMessage at h
  split_ifs at h
  · simp only [handleEcho, withPayload] at h
    split_ifs at h
    cases h
    rfl
  · simp only [handlePing] at h
    split_ifs at h
    cases h
    rfl
  · simp only [handleSave, withPayload] at h
    split_ifs at h
  · simp only [handleHistory] at h
    split_ifs at h
  · simp only [handleCounter] at h
    split_ifs at h

/-- A refusal of the game service is no frame of the database. -/
theorem fromDb_refuse {unixMs : ℕ} {m : Message} {code : ErrorCode} {detail : String}
    (h : onMessage unixMs m = .refuse code detail) (origin : ℕ) :
    (errorAck origin code detail).fromDb = false := by
  unfold onMessage at h
  rw [fromDb_errorAck]
  split_ifs at h
  · cases h
    decide +kernel
  · simp only [handleEcho, withPayload] at h
    split_ifs at h <;> cases h <;> decide +kernel
  · simp only [handlePing] at h
    split_ifs at h
    cases h
    decide +kernel
  · simp only [handleSave, withPayload] at h
    split_ifs at h <;> cases h <;> decide +kernel
  · simp only [handleHistory] at h
    split_ifs at h <;> cases h <;> decide +kernel
  · simp only [handleCounter] at h
    split_ifs at h <;> cases h <;> decide +kernel
  · cases h
    decide +kernel

/-- Nor is one of the chat service. -/
theorem fromDb_refuseChat {m : Message} {code : ErrorCode} {detail : String}
    (h : onChatMessage m = .refuse code detail) (origin : ℕ) :
    (errorAck origin code detail).fromDb = false := by
  unfold onChatMessage at h
  rw [fromDb_errorAck]
  split_ifs at h
  · cases h
    decide +kernel
  · simp only [withPayload] at h
    split_ifs at h <;> cases h <;> decide +kernel

/-- Only chat messages go to the chat service. -/
theorem eq_kChatReq_of_route {msgId : ℕ} (h : route msgId = some .chat) : msgId = kChatReq := by
  unfold route at h
  split_ifs at h with _ _ hchat
  · cases h
  · exact hchat

/-! ## Where things stem from -/

namespace Server

/-- The request is what frame `index` of its connection asks for, with the session key that was
issued to the connection. -/
structure Asked (cfg : ServerConfig) (s : Server) (index : ℕ) (req : Request) : Prop where
  frame : ∃ view unixMs asked, (s.conns req.connId).received[index]? = some view ∧
    onMessage unixMs (.ofFrame req.connId index view) = .pass asked ∧
    req = { asked with
      connId := req.connId, sessionKey := req.sessionKey, deadlineUs := req.deadlineUs }
  key : (req.connId, req.sessionKey) ∈ (s.game (cfg.laneOf req.connId)).issued

/-- The frame replies to the database request of frame `index` of connection `id` : the request was
not taken in, or this is its response. -/
inductive Replied (cfg : ServerConfig) (s : Server) (results : List (Job ℕ × Outcome))
    (id index : ℕ) (f : Frame) : Prop
  | refused (req : Request) (code : ErrorCode) (detail : String) (conn : req.connId = id)
      (asked : s.Asked cfg index req) (refusal : DbRefusal code detail)
      (frame_eq : f = errorAck (requestMsgId req.kind) code detail)
  | responded (j : Job ℕ) (res : Response) (conn : j.req.connId = id) (tag : j.tag = index)
      (asked : s.Asked cfg j.tag j.req) (mem : (j, res) ∈ s.pool.responded)
      (stems : res.StemsFrom results j) (frame_eq : f = processDbResponse res)

/-- What is sent to connection `id` answers the frame that it is to answer; a frame of the database
replies to it. -/
structure Answer (cfg : ServerConfig) (s : Server) (results : List (Job ℕ × Outcome)) (id : ℕ)
    (answers : Option ℕ) (f : Frame) : Prop where
  frame : ∀ index, answers = some index →
    ∃ view, (s.conns id).received[index]? = some view ∧ f.Answers view.msgId
  database : f.fromDb = true → ∃ index, answers = some index ∧ s.Replied cfg results id index f

/-- The event of a service is not a message, or it is a frame of its connection. -/
def Framed (s : Server) (svc : ServiceId) : Event → Prop
  | .message m => ∃ view, (s.conns m.connId).received[m.index]? = some view ∧
      route view.msgId = some svc ∧ m = .ofFrame m.connId m.index view
  | _ => True

end Server

/-- What an operation carries stems from what it says. -/
def Op.Traced (cfg : ServerConfig) (s : Server) (results : List (Job ℕ × Outcome)) : Op → Prop
  | .arrive id _ => id < s.nextId
  | .onMessage id index view | .postMessage id index view =>
    (s.conns id).received[index]? = some view
  | .tryEmplace svc id index view =>
    (s.conns id).received[index]? = some view ∧ route view.msgId = some svc
  | .submitDb index req => s.Asked cfg index req
  | .send id answers f | .lockSend id answers f => s.Answer cfg results id answers f
  | .broadcast id index f _ => f.fromDb = false ∧
      ∃ view, (s.conns id).received[index]? = some view ∧ f.Answers view.msgId
  | _ => True

/-- What is on its way to a connection stems from what the database has answered. -/
structure Traced (cfg : ServerConfig) (s : ServerState) (results : List (Job ℕ × Outcome)) :
    Prop where
  owned : ∀ l, s.server.Owned cfg l
  keys : ∀ l, (s.server.game l).Issued
  pool : Pool.Inv cfg.pool s.server.pool
  sound : s.server.pool.Sound results
  unborn : ∀ id, s.server.nextId ≤ id → (s.server.conns id).received = []
  ops : ∀ stack ∈ s.threads, ∀ o ∈ stack, o.Traced cfg s.server results
  game : ∀ l, ∀ ev ∈ (s.server.game l).events, s.server.Framed .game ev
  chat : ∀ ev ∈ s.server.chat.events, s.server.Framed .chat ev
  jobs : ∀ j ∈ s.server.pool.accepted, s.server.Asked cfg j.tag j.req
  replies : ∀ l, ∀ p ∈ (s.server.game l).replies,
    ∃ j, (j, p.2) ∈ s.server.pool.responded ∧ j.tag = p.1
  sent : ∀ id, ∀ p ∈ (s.server.conns id).sent, s.server.Answer cfg results id p.1 p.2

/-! ## What stays -/

namespace Server

variable {s : Server}

/-- What things stem from only grows. -/
structure Grows (s t : Server) : Prop where
  received : ∀ id, (s.conns id).received <+: (t.conns id).received
  issued : ∀ l, (s.game l).issued ⊆ (t.game l).issued
  responded : s.pool.responded ⊆ t.pool.responded
  nextId : s.nextId ≤ t.nextId

namespace Grows

/-- A frame that was received stays received. -/
theorem frame (h : s.Grows t) {index : ℕ} {view : Frame}
    (hview : (s.conns id).received[index]? = some view) :
    (t.conns id).received[index]? = some view := by
  obtain ⟨rest, hrest⟩ := h.received id
  rw [← hrest, List.getElem?_append_left (List.getElem?_eq_some_iff.mp hview).1]
  exact hview

/-- A request stays asked for. -/
theorem asked (h : s.Grows t) {index : ℕ} {req : Request} (hreq : s.Asked cfg index req) :
    t.Asked cfg index req := by
  obtain ⟨view, unixMs, asked, hview, hpass, heq⟩ := hreq.frame
  exact ⟨⟨view, unixMs, asked, h.frame hview, hpass, heq⟩, h.issued _ hreq.key⟩

/-- A reply stays a reply. -/
theorem replied (h : s.Grows t) (hsub : results ⊆ later) {index : ℕ} {f : Frame}
    (hf : s.Replied cfg results id index f) : t.Replied cfg later id index f := by
  cases hf with
  | refused req code detail hconn hasked href heq =>
    exact .refused req code detail hconn (h.asked hasked) href heq
  | responded j res hconn htag hasked hmem hstems heq =>
    exact .responded j res hconn htag (h.asked hasked) (h.responded hmem) (hstems.mono hsub) heq

/-- An answer stays an answer. -/
theorem answer (h : s.Grows t) (hsub : results ⊆ later) {answers : Option ℕ} {f : Frame}
    (hf : s.Answer cfg results id answers f) : t.Answer cfg later id answers f := by
  refine ⟨fun index hindex => ?_, fun hdb => ?_⟩
  · obtain ⟨view, hview, hans⟩ := hf.frame index hindex
    exact ⟨view, h.frame hview, hans⟩
  · obtain ⟨index, hindex, hreplied⟩ := hf.database hdb
    exact ⟨index, hindex, h.replied hsub hreplied⟩

/-- A message stays a frame of its connection. -/
theorem framed (h : s.Grows t) {svc : ServiceId} {ev : Event} (hev : s.Framed svc ev) :
    t.Framed svc ev := by
  cases ev with
  | message m =>
    obtain ⟨view, hview, hroute, hm⟩ := hev
    exact ⟨view, h.frame hview, hroute, hm⟩
  | _ => trivial

/-- What is on its way stays traced. -/
theorem traced (h : s.Grows t) (hsub : results ⊆ later) (ho : op.Traced cfg s results) :
    op.Traced cfg t later := by
  cases op with
  | arrive id view => exact lt_of_lt_of_le ho h.nextId
  | onMessage id index view => exact h.frame ho
  | postMessage id index view => exact h.frame ho
  | tryEmplace svc id index view => exact ⟨h.frame ho.1, ho.2⟩
  | submitDb index req => exact h.asked ho
  | send id answers f => exact h.answer hsub ho
  | lockSend id answers f => exact h.answer hsub ho
  | broadcast id index f todo =>
    obtain ⟨hdb, view, hview, hans⟩ := ho
    exact ⟨hdb, view, h.frame hview, hans⟩
  | _ => trivial

end Grows

/-- A response that was given stays given, whatever the pool does. -/
theorem responded_exec (h : s.exec cfg e op = some (t, new)) :
    s.pool.responded <+: t.pool.responded := by
  obtain hp | ⟨a, hstep⟩ := exec_pool h
  · rw [hp]
  · cases a with
    | submit req tag => rw [← Option.some.inj hstep, submit_responded]
    | work i o => exact Pool.responded_work hstep
    | tick us => rw [← Option.some.inj hstep]
    | drain => rw [← Option.some.inj hstep]

/-- An operation takes nothing back. -/
theorem grows_exec (h : s.exec cfg e op = some (t, new))
    (hunborn : (s.conns s.nextId).received = []) : s.Grows t := by
  refine ⟨fun id => ?_, issued_exec h, (responded_exec h).subset, nextId_le_exec h⟩
  by_cases hid : id = s.nextId
  · rw [hid, hunborn]
    exact List.nil_prefix
  · obtain heq | ⟨view, -, heq⟩ := received_exec h id fun _ => Ne.symm hid
    · rw [heq]
    · rw [heq]
      exact List.prefix_append ..

/-! ## What an operation hands on -/

/-- An error that answers a frame. -/
theorem traced_sendError {index : ℕ} {view : Frame} {code : ErrorCode} {detail : String}
    (hview : (s.conns id).received[index]? = some view)
    (hdb : (errorAck view.msgId code detail).fromDb = false)
    (hop : op ∈ sendError id index view.msgId code detail) : op.Traced cfg s results := by
  obtain rfl | rfl := mem_sendError hop
  · refine ⟨fun n hn => ⟨view, ?_, errorAck_answers ..⟩, fun htrue => ?_⟩
    · rw [← Option.some.inj hn]
      exact hview
    · simp [hdb] at htrue
  · trivial

/-- A request is of the kind that its frame names. -/
theorem Asked.msgId_eq {index : ℕ} {req : Request} (h : s.Asked cfg index req) :
    ∃ view, (s.conns req.connId).received[index]? = some view ∧
      requestMsgId req.kind = view.msgId := by
  obtain ⟨view, unixMs, asked, hview, hpass, heq⟩ := h.frame
  have hans := onMessage_answers unixMs (.ofFrame req.connId index view)
  rw [hpass, Message.msgId_ofFrame] at hans
  refine ⟨view, hview, ?_⟩
  rw [heq]
  exact hans

/-- A request that the pool does not take in is refused to its connection. -/
theorem Asked.answer_refused {index : ℕ} {req : Request} {code : ErrorCode} {detail : String}
    (h : s.Asked cfg index req) (href : DbRefusal code detail) :
    s.Answer cfg results req.connId (some index)
      (errorAck (requestMsgId req.kind) code detail) := by
  obtain ⟨view, hview, hid⟩ := h.msgId_eq
  refine ⟨fun n hn => ⟨view, ?_, ?_⟩,
    fun _ => ⟨index, rfl, .refused req code detail rfl h href rfl⟩⟩
  · rw [← Option.some.inj hn]
    exact hview
  · rw [hid]
    exact errorAck_answers ..

end Server

/-- The database calls that an operation sees succeed, each with its request. -/
def Op.returned (s : Server) : Op → List (Job ℕ × Outcome)
  | .dbWork w o => s.pool.returned w o
  | _ => []

/-- The database calls that a step sees succeed. -/
def ServerState.returned (s : ServerState) : ServerStep → List (Job ℕ × Outcome)
  | .exec i _ =>
    match s.threads.head i with
    | some op => op.returned s.server
    | none => []
  | .spawn _ => []

/-- A request that is submitted is the one that is taken in. -/
theorem Op.Submits.asked {s : Server} {j : Job ℕ} (h : op.Submits j)
    (hop : op.Traced cfg s results) : s.Asked cfg j.tag j.req := by
  obtain ⟨req, us, rfl, hreq⟩ := h
  obtain ⟨⟨view, unixMs, asked, hview, hpass, heq⟩, hkey⟩ := hop
  rw [hreq]
  exact ⟨⟨view, unixMs, asked, hview, hpass, by rw [heq]⟩, hkey⟩

namespace Server

variable {s : Server}

/-- Every response stems from the calls for its request, whatever the server does. -/
theorem pool_sound_exec (h : s.exec cfg e op = some (t, new)) (hs : s.pool.Sound results) :
    t.pool.Sound (results ++ op.returned s) := by
  cases op with
  | submitDb index req =>
    simp only [exec] at h
    simp only [Op.returned, List.append_nil]
    obtain ⟨_, _, -, hsub⟩ | ⟨us, -, hsub⟩ := s.submitDb_cases cfg index req
    · rw [hsub] at h
      cases h
      exact hs
    · rw [hsub] at h
      cases h
      exact hs.submit _ _
  | dbWork w o =>
    simp only [exec] at h
    split at h <;> cases h
    rename_i hwork
    obtain ⟨pool, hpool, rfl⟩ := Option.map_eq_some_iff.mp hwork
    rw [(foldl_postDbResponse_same _ _ _).2.2.2]
    exact hs.work hpool
  | _ =>
    obtain ⟨now, draining, hpool⟩ := pool_same h (by simp) (by simp)
    simp only [hpool, Op.returned, List.append_nil]
    exact ⟨hs.worker, hs.responded⟩

/-- What is queued is a frame of its connection. -/
theorem framed_posted {svc : ServiceId} {ev : Event} (hop : op.Traced cfg s results)
    (hev : ev ∈ s.posted cfg svc op) : s.Framed svc ev := by
  cases op with
  | postConnected svc' k =>
    simp only [posted] at hev
    split_ifs at hev
    · obtain rfl := List.mem_singleton.mp hev
      trivial
    · simp at hev
  | postDisconnected svc' k =>
    simp only [posted] at hev
    split_ifs at hev
    · obtain rfl := List.mem_singleton.mp hev
      trivial
    · simp at hev
  | tryEmplace svc' k index view =>
    simp only [posted] at hev
    split_ifs at hev with hcond
    · obtain rfl := List.mem_singleton.mp hev
      exact ⟨view, by simpa using hop.1, hcond.1 ▸ hop.2, by simp⟩
    · simp at hev
  | _ => simp [posted] at hev

end Server

/-- What the router answers by itself is not of the database. -/
theorem fromDb_router {origin : ℕ} {code : ErrorCode} {detail : String}
    (h : RouterRefusal code detail) : (errorAck origin code detail).fromDb = false := by
  rw [fromDb_errorAck]
  cases h <;> decide +kernel

namespace Traced

/-- A response goes back to the connection whose frame asked for it. -/
theorem response (hs : Traced cfg s results) {j : Job ℕ} {res : Response}
    (hmem : (j, res) ∈ s.server.pool.responded) :
    s.server.Answer cfg results res.connId (some j.tag) (processDbResponse res) := by
  have hstems := hs.sound.responded _ hmem
  have hasked := hs.jobs j (hs.pool.mem_of_responded hmem)
  obtain ⟨view, hview, hid⟩ := hasked.msgId_eq
  have hconn : res.connId = j.req.connId := hstems.connId_eq
  refine ⟨fun n hn => ⟨view, ?_, ?_⟩, fun _ => ⟨j.tag, rfl, ?_⟩⟩
  · rw [← Option.some.inj hn, hconn]
    exact hview
  · rw [← hid, ← hstems.kind_eq]
    exact processDbResponse_answers res
  · exact .responded j res hconn.symm rfl hasked hmem hstems rfl

/-- What a game lane leaves to its thread. -/
theorem gameTurn (hs : Traced cfg s results) {l : ℕ} {lane' : GameLane} {ops : List Op}
    (h : GameLane.Turn e (s.server.game l) lane' ops) (hop : op ∈ ops) :
    op.Traced cfg s.server results := by
  cases h with
  | move => simp at hop
  | reply index res _ hrep =>
    unfold GameLane.onReply at hop
    split at hop
    · simp at hop
    · obtain rfl := List.mem_singleton.mp hop
      obtain ⟨j, hmem, htag⟩ := hs.replies l (index, res) (by simp [hrep])
      have hans := hs.response hmem
      rw [htag] at hans
      exact hans
  | event ev hev =>
    have hmem : ev ∈ (s.server.game l).events := by simp [hev]
    have hframed := hs.game l ev hmem
    cases ev with
    | connected k =>
      simp only [GameLane.onEvent] at hop
      split at hop <;> simp only [List.mem_cons, List.not_mem_nil, or_false] at hop
      all_goals
        obtain rfl | rfl := hop
        · exact ⟨by simp, fun htrue => by cases htrue⟩
        · trivial
    | disconnected k => simp [GameLane.onEvent] at hop
    | message m =>
      obtain ⟨view, hview, -, hm⟩ := hframed
      have hid : m.msgId = view.msgId := by rw [hm, Message.msgId_ofFrame]
      simp only [GameLane.onEvent] at hop
      split at hop
      · simp at hop
      · rename_i key hkey
        have hans := onMessage_answers e.unixMs m
        cases hv : onMessage e.unixMs m with
        | reply f =>
          rw [hv] at hop hans
          obtain rfl := List.mem_singleton.mp hop
          refine ⟨fun n hn => ⟨view, ?_, hid ▸ hans⟩, fun htrue => ?_⟩
          · rw [← Option.some.inj hn]
            exact hview
          · simp [fromDb_onMessage hv] at htrue
        | refuse code detail =>
          rw [hv, Verdict.ops, hid] at hop
          exact Server.traced_sendError hview (fromDb_refuse hv _) hop
        | pass req =>
          rw [hv] at hop
          obtain rfl := List.mem_singleton.mp hop
          have hlane : cfg.laneOf m.connId = l := (hs.owned l).events _ hmem
          refine ⟨⟨view, e.unixMs, req, hview, hm ▸ hv, rfl⟩, ?_⟩
          show (m.connId, key) ∈ (s.server.game (cfg.laneOf m.connId)).issued
          rw [hlane]
          exact hs.keys l m.connId key hkey

/-- What the chat service leaves to its thread. -/
theorem chatTurn (hs : Traced cfg s results) {lane' : ChatLane} {ops : List Op}
    (h : ChatLane.Turn s.server.chat lane' ops) (hop : op ∈ ops) :
    op.Traced cfg s.server results := by
  cases h with
  | move => simp at hop
  | relay => simp at hop
  | event ev hev =>
    have hframed := hs.chat ev (by simp [hev])
    cases ev with
    | connected k => simp [ChatLane.onEvent] at hop
    | disconnected k => simp [ChatLane.onEvent] at hop
    | message m =>
      obtain ⟨view, hview, hroute, hm⟩ := hframed
      have hid : m.msgId = view.msgId := by rw [hm, Message.msgId_ofFrame]
      simp only [ChatLane.onEvent] at hop
      split at hop
      · simp at hop
      · cases hv : onChatMessage m with
        | reply f => exact absurd hv (onChatMessage_ne_reply m f)
        | refuse code detail =>
          rw [hv, Verdict.ops, hid] at hop
          exact Server.traced_sendError hview (fromDb_refuseChat hv _) hop
        | pass text =>
          rw [hv] at hop
          obtain rfl := List.mem_singleton.mp hop
          refine ⟨rfl, view, hview, ?_⟩
          rw [eq_kChatReq_of_route hroute]
          exact chatPush_answers ..

/-- What an operation pushes stems from what it says itself, or from what a service has. -/
theorem ops_exec (hs : Traced cfg s results) (hop : op.Traced cfg s.server results)
    (h : s.server.exec cfg e op = some (t, new)) : ∀ o ∈ new, o.Traced cfg s.server results := by
  intro o ho
  cases Server.expandsTo_exec h ho with
  | game l mem => exact hs.gameTurn (GameLane.turn rfl) mem
  | chat mem => exact hs.chatTurn (ChatLane.turn rfl) mem
  | again => exact hop
  | bare hbare => cases o <;> trivial
  | handler id _ hgoes => obtain rfl | rfl | rfl := hgoes <;> trivial
  | offer id hnext => exact hnext
  | pass => exact hop
  | route id index hroute => exact ⟨hop, hroute⟩
  | refuse id index view hframe href =>
    have hview : (s.server.conns id).received[index]? = some view := by
      obtain rfl | rfl | ⟨service, rfl⟩ := hframe
      · exact hop
      · exact hop
      · exact hop.1
    exact Server.traced_sendError hview (fromDb_router href) (List.mem_cons_self ..)
  | refuseDb index req href => exact Server.Asked.answer_refused hop href
  | lock => exact hop
  | member id index f =>
    obtain ⟨hdb, view, hview, hans⟩ := hop
    refine ⟨fun n hn => ?_, fun htrue => by simp [hdb] at htrue⟩
    split_ifs at hn with hid
    rw [← Option.some.inj hn, hid]
    exact ⟨view, hview, hans⟩
  | members => exact hop

/-- A frame that is sent answers the frame that it was to answer. -/
theorem sent_exec (hs : Traced cfg s results) (hi : s.threads.head i = some op)
    (h : s.server.exec cfg e op = some (t, new)) (id : ℕ) :
    ∀ p ∈ (t.conns id).sent, s.server.Answer cfg results id p.1 p.2 := by
  intro p hp
  obtain hp | rfl := Server.mem_sent_exec h hp
  · exact hs.sent id p hp
  · obtain ⟨stack, hstack, hmem⟩ := mem_of_head hi
    exact hs.ops stack hstack _ hmem

/-- What one operation leaves stems from what it has found, and from the calls it has seen
succeed. -/
theorem exec (hs : Traced cfg s results) (hi : s.threads.head i = some op)
    (h : s.server.exec cfg e op = some (t, new)) :
    Traced cfg ⟨t, s.threads.exec i new⟩ (results ++ op.returned s.server) := by
  have hgrows : s.server.Grows t := Server.grows_exec h (hs.unborn _ le_rfl)
  have hsub : results ⊆ results ++ op.returned s.server := List.subset_append_left ..
  obtain ⟨stack, hstack, hmem⟩ := mem_of_head hi
  have hop : op.Traced cfg s.server results := hs.ops stack hstack op hmem
  exact {
    owned := fun l => (hs.owned l).exec h
    keys := fun l => Server.issued_game_exec (hs.keys l) h
    pool := hs.pool.exec h
    sound := Server.pool_sound_exec h hs.sound
    unborn := fun id hid => by
      by_cases hadopt : op = .adopt
      · subst hadopt
        cases h
        have hne : id ≠ s.server.nextId := by
          have : s.server.nextId + 1 ≤ id := hid
          omega
        simpa [Server.updConn, hne] using hs.unborn id (Nat.le_of_succ_le hid)
      · have hold := hs.unborn id (hgrows.nextId.trans hid)
        obtain heq | ⟨view, rfl, -⟩ := Server.received_exec h id fun heq => absurd heq hadopt
        · exact heq.trans hold
        · exact absurd (lt_of_lt_of_le hop (hgrows.nextId.trans hid)) (lt_irrefl id)
    ops := forall_exec hi (fun stack hstack o ho => hgrows.traced hsub (hs.ops stack hstack o ho))
      fun rest hrest o ho => by
        obtain ho | ho := List.mem_append.mp ho
        · exact hgrows.traced hsub (hs.ops_exec hop h o ho)
        · exact hrest o (List.mem_cons_of_mem _ ho)
    game := fun l ev hev => by
      obtain hev | hev := Server.game_events_exec h l hev
      · exact hgrows.framed (hs.game l ev hev)
      · exact hgrows.framed (Server.framed_posted hop hev)
    chat := fun ev hev => by
      obtain hev | hev := Server.chat_events_exec h hev
      · exact hgrows.framed (hs.chat ev hev)
      · exact hgrows.framed (Server.framed_posted hop hev)
    jobs := fun j hj => by
      obtain ⟨-, ⟨js, hjs, hsubmits⟩, -⟩ := Server.exec_unstarted h hs.pool
      rw [hjs] at hj
      obtain hj | hj := List.mem_append.mp hj
      · exact hgrows.asked (hs.jobs j hj)
      · exact hgrows.asked ((hsubmits j hj).asked hop)
    replies := fun l p hp => by
      obtain ⟨rfl, ops, -, hstep⟩ | ⟨-, hlane⟩ := Server.exec_game h l
      · obtain ⟨j, hj, htag⟩ := hs.replies l p (GameLane.replies_turn (GameLane.turn hstep) hp)
        exact ⟨j, hgrows.responded hj, htag⟩
      · have heq : (t.game l).replies = (s.server.game l).replies ++
            Server.repliesFor cfg l (s.server.answers t) := by
          simp [GameLane.replies, hlane]
        rw [heq] at hp
        obtain hp | hp := List.mem_append.mp hp
        · obtain ⟨j, hj, htag⟩ := hs.replies l p hp
          exact ⟨j, hgrows.responded hj, htag⟩
        · obtain ⟨-, j, hj, htag⟩ := Server.mem_repliesFor.mp hp
          exact ⟨j, List.mem_of_mem_drop hj, htag⟩
    sent := fun id p hp => hgrows.answer hsub (hs.sent_exec hi h id p hp) }

theorem fresh (cfg : ServerConfig) : Traced cfg (.fresh cfg) [] where
  owned := Server.owned_fresh cfg
  keys l id key hkey := by simp [ServerState.fresh, Server.fresh, GameLane.fresh] at hkey
  pool := Pool.inv_fresh cfg.pool
  sound := Pool.sound_fresh cfg.pool
  unborn _ _ := rfl
  ops stack hstack o ho := by
    simp only [ServerState.fresh, List.mem_append, List.mem_map, List.mem_cons,
      List.not_mem_nil, or_false] at hstack
    obtain ⟨l, -, rfl⟩ | rfl | rfl := hstack
    all_goals
      obtain rfl := List.mem_singleton.mp ho
      trivial
  game l ev hev := by
    simp [ServerState.fresh, Server.fresh, GameLane.fresh, GameLane.events,
      GameLoop.heldEvents] at hev
  chat ev hev := by
    simp [ServerState.fresh, Server.fresh, ChatLane.fresh, ChatLane.events,
      ChatLoop.heldEvents] at hev
  jobs j hj := by simp [ServerState.fresh, Server.fresh, Pool.fresh] at hj
  replies l p hp := by
    simp [ServerState.fresh, Server.fresh, GameLane.fresh, GameLane.replies,
      GameLoop.heldReplies] at hp
  sent id p hp := by simp [ServerState.fresh, Server.fresh, Conn.fresh] at hp

/-- Every step traces what it puts on its way. -/
theorem step {a : ServerStep} (hs : Traced cfg s results)
    (h : (serverThreads cfg).step s a = some s') : Traced cfg s' (results ++ s.returned a) := by
  obtain ⟨i, e, op, new, rfl, hi, hex, hth⟩ | ⟨op, rfl, hext, hsv, hth⟩ :=
    ServerState.step_cases h
  · have := hs.exec hi hex
    rw [ServerState.returned, hi]
    rwa [← hth] at this
  · obtain ⟨server, threads⟩ := s'
    dsimp only at hsv hth
    subst hsv hth
    rw [ServerState.returned, List.append_nil]
    refine { hs with ops := fun stack hstack o ho => ?_ }
    rw [spawn, List.mem_append, List.mem_singleton] at hstack
    obtain hstack | rfl := hstack
    · exact hs.ops stack hstack o ho
    · obtain rfl := List.mem_singleton.mp ho
      cases o <;> simp_all [Server.external, Op.Traced]

end Traced

/-! ## Every reply -/

/-- The server, with a record of the database calls that have succeeded. -/
def serverResults (cfg : ServerConfig) :
    Machine (ServerState × List (Job ℕ × Outcome)) ServerStep :=
  (serverThreads cfg).recording [] fun s a results => results ++ s.returned a

/-- An error is no ack of a Save. -/
theorem errorAck_ne_saveAck (origin : ℕ) (code : ErrorCode) (detail : String) :
    (errorAck origin code detail).msgId ≠ kSaveAck :=
  (by decide : kErrorAck ≠ kSaveAck)

/-- A reply to a Save carries the id of the row inserted for it. -/
theorem Response.StemsFrom.row {j : Job ℕ} {res : Response} (h : res.StemsFrom results j)
    (hf : (processDbResponse res).msgId = kSaveAck) : ∃ o, (j, o) ∈ results ∧
      processDbResponse res = ⟨kSaveAck, (ByteWriter.scratch.u64 o.logId).data⟩ := by
  cases h with
  | success o hmem =>
    refine ⟨o, hmem, ?_⟩
    cases hkind : j.req.kind with
    | save => simp [processDbResponse, dbReply, Job.success, Job.failure, hkind]
    | history =>
      simp [processDbResponse, dbReply, Job.success, Job.failure, hkind, kHistoryAck,
        kSaveAck, kHistoryReq, kSaveReq] at hf
    | counter =>
      simp [processDbResponse, dbReply, Job.success, Job.failure, hkind, kCounterAck,
        kSaveAck, kCounterReq, kSaveReq] at hf
  | failure status hne =>
    cases status with
    | ok => exact absurd rfl hne
    | _ => exact absurd hf (errorAck_ne_saveAck _ _ _)

/-- In every run, a reply of the database is to the connection that asked for it, under the one key
that was issued to the connection; the id in the reply to a Save is that of the row inserted for
that request. -/
theorem replies_belong (h : (serverResults cfg).Reaches (s, results)) {p : Option ℕ × Frame}
    (hp : p ∈ (s.server.conns id).sent) (hdb : p.2.fromDb = true) :
    ∃ index, p.1 = some index ∧ s.server.Replied cfg results id index p.2 ∧
      (∃! key, ∃ l, (id, key) ∈ (s.server.game l).issued) ∧
      (p.2.msgId = kSaveAck → ∃ j o, (j, o) ∈ results ∧ j.req.connId = id ∧ j.tag = index ∧
        s.server.Asked cfg j.tag j.req ∧
          p.2 = ⟨kSaveAck, (ByteWriter.scratch.u64 o.logId).data⟩) := by
  obtain ⟨hs, hissue⟩ : Traced cfg s results ∧ Issue cfg s id := by
    refine Machine.recording_invariant (I := fun s results => Traced cfg s results ∧ Issue cfg s id)
      ?_ ?_ h
    · rintro s rfl
      exact ⟨.fresh cfg, .fresh cfg id⟩
    · exact fun s a s' results hs hstep => ⟨hs.1.step hstep, hs.2.step hstep⟩
  obtain ⟨index, hindex, hreplied⟩ := (hs.sent id p hp).database hdb
  have hunique : ∀ key, (id, key) ∈ (s.server.game (cfg.laneOf id)).issued →
      ∃! key, ∃ l, (id, key) ∈ (s.server.game l).issued := by
    refine fun key hkey => ⟨key, ⟨_, hkey⟩, ?_⟩
    rintro key' ⟨l, hl⟩
    obtain rfl := (hs.owned l).issued _ hl
    exact hissue.key_unique hl hkey
  refine ⟨index, hindex, hreplied, ?_⟩
  cases hreplied with
  | refused req code detail hconn hasked href heq =>
    refine ⟨hunique req.sessionKey (hconn ▸ hasked.key), fun hsave => ?_⟩
    rw [heq] at hsave
    exact absurd hsave (errorAck_ne_saveAck _ _ _)
  | responded j res hconn htag hasked hmem hstems heq =>
    refine ⟨hunique j.req.sessionKey (hconn ▸ hasked.key), fun hsave => ?_⟩
    rw [heq] at hsave ⊢
    obtain ⟨o, ho, hrow⟩ := hstems.row hsave
    exact ⟨j, o, ho, hconn, htag, hasked, hrow⟩

/-- One database worker, which saves in batches of two. -/
def oneWorker : ServerConfig := { oneLane with pool := ⟨1, .static, 2, fun _ => 0⟩ }

/-- A connection sends a Save. -/
def savesRun (thread id : ℕ) : List ServerStep :=
  .spawn (.arrive id ⟨kSaveReq, (ByteWriter.scratch.str [97]).data⟩) :: runs thread 1 ++
    .spawn (.receive id) :: runs (thread + 1) 8

/-- The database worker takes `n` steps, and every call succeeds; the row inserted in the step of
thread `i` gets the id `i`. -/
def worksRun (thread n : ℕ) : List ServerStep :=
  (List.range' thread n).flatMap fun i =>
    [.spawn (.dbWork 0 ⟨true, false, i, [], 0, false⟩), .exec i envOk]

/-- The Saves of two sessions go into one batch. -/
def batchRun : List ServerStep :=
  adoptedRun ++ .spawn .adopt :: runs 4 6 ++ List.replicate 7 (.exec 0 { envOk with key := [2] }) ++
    savesRun 5 1 ++ savesRun 7 2 ++ runs 0 9 ++ worksRun 9 14 ++ runs 0 12

/-- Each session of a batch is answered with the id of its own row. -/
theorem replies_belong_batch :
    ∃ (s : ServerState) (results : List (Job ℕ × Outcome)), ∀ id ∈ [1, 2],
      ∃ p ∈ (s.server.conns id).sent,
        p.2 = ⟨kSaveAck, (ByteWriter.scratch.u64 (14 + 2 * id)).data⟩ ∧
          ∃ index, p.1 = some index ∧ s.server.Replied oneWorker results id index p.2 := by
  obtain ⟨⟨s, results⟩, hs, hp⟩ := (serverResults oneWorker).exists_reachesWhen
    (fun _ _ => True) (.fresh oneWorker, []) batchRun
    (fun p => decide (∀ id ∈ [1, 2], (some 0,
      (⟨kSaveAck, (ByteWriter.scratch.u64 (14 + 2 * id)).data⟩ : Frame)) ∈
        (p.1.server.conns id).sent)) ⟨rfl, rfl⟩ (by decide +kernel)
  refine ⟨s, results, fun id hid => ?_⟩
  have hsent := of_decide_eq_true hp id hid
  obtain ⟨index, hindex, hreplied, -⟩ := replies_belong hs hsent (by simp [Frame.fromDb])
  exact ⟨_, hsent, rfl, index, hindex, hreplied⟩

end EchoServer
