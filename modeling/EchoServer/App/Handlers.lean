import EchoServer.App.Events
import EchoServer.App.Reply
import EchoServer.Db.Types

/-!
# The message handlers

`app/handlers.cpp` and the message branch of `app/broadcast_service.cpp`, as functions from a
message, or a database response, to what is done about it (`Verdict`) : send a reply, refuse
with an error, or pass the work on, to the database or to a broadcast.

Every handler reads its body first and refuses one that is not read to its last byte. What a
verdict sends is an answer to the request it is about (`Verdict.Answers`) : the frame
`id + 100`, an error that names `id`, or a database request whose response will be answered
under the same id.
-/

namespace EchoServer

/-- What is done about a request. -/
inductive Verdict (α : Type) where
  | reply (f : Frame)
  | refuse (code : ErrorCode) (detail : String)
  /-- The answer comes from elsewhere. -/
  | pass (a : α)
  deriving DecidableEq, Repr

/-- Read a body that is one string of bounded length. -/
def withPayload {α : Type} (body : Bytes) (what : String) (next : Bytes → Verdict α) :
    Verdict α :=
  let (payload, r) := (ByteReader.ofBody body).str
  if !r.consumedAll then .refuse .invalidField what
  else if kMaxPayloadBytes < payload.length then .refuse .payloadTooLong "512 bytes max"
  else next payload

/-- Echo : the payload is sent back. -/
def handleEcho (body : Bytes) : Verdict Request :=
  withPayload body "echo body" fun payload => .reply ⟨kEchoAck, (ByteWriter.scratch.str payload).data⟩

/-- Ping : the time of the client is sent back with the time of the server. -/
def handlePing (unixMs : ℕ) (body : Bytes) : Verdict Request :=
  let (clientMs, r) := (ByteReader.ofBody body).u64
  if !r.consumedAll then .refuse .invalidField "ping body"
  else .reply ⟨kPongAck, ((ByteWriter.scratch.u64 clientMs).u64 unixMs).data⟩

/-- A request before `submit_db` says whose it is. -/
def Request.ofKind (kind : RequestKind) : Request := ⟨kind, 0, [], [], [], 0, 0⟩

/-- Save : the payload goes to the database. -/
def handleSave (body : Bytes) : Verdict Request :=
  withPayload body "save body" fun payload => .pass { Request.ofKind .save with payload }

/-- History : the number of rows that is asked for has to be in its range. -/
def handleHistory (body : Bytes) : Verdict Request :=
  let (limit, r) := (ByteReader.ofBody body).u16
  if !r.consumedAll then .refuse .invalidField "history body"
  else if limit < kMinHistoryLimit ∨ kMaxHistoryLimit < limit then
    .refuse .limitOutOfRange "1..100"
  else .pass { Request.ofKind .history with limit }

/-- Counter : the key of the request is a text of 36 bytes. -/
def handleCounter (body : Bytes) : Verdict Request :=
  let (requestKey, r) := (ByteReader.ofBody body).str
  if !r.consumedAll then .refuse .invalidField "counter body"
  else if requestKey.length ≠ 36 then .refuse .invalidField "request_key must be 36 chars"
  else .pass { Request.ofKind .counter with requestKey }

/-- `on_message` of the game service, for a message whose session exists. -/
def onMessage (unixMs : ℕ) (m : Message) : Verdict Request :=
  if m.oversized then .refuse .payloadTooLong "body too large"
  else if m.msgId = kEchoReq then handleEcho m.body
  else if m.msgId = kPingReq then handlePing unixMs m.body
  else if m.msgId = kSaveReq then handleSave m.body
  else if m.msgId = kHistoryReq then handleHistory m.body
  else if m.msgId = kCounterReq then handleCounter m.body
  else .refuse .unknownMessage "unknown id"

/-- The message branch of the chat service's `on_event`, for a message whose member exists;
it passes on the text to broadcast. -/
def onChatMessage (m : Message) : Verdict Bytes :=
  if m.oversized then .refuse .payloadTooLong "body too large"
  else withPayload m.body "chat body" .pass

/-- What `broadcast` sends to every member. -/
def chatPush (sender text : Bytes) : Frame :=
  ⟨kChatPush, ((ByteWriter.scratch.str sender).str text).data⟩

/-- The id of the message that a request to the database came in. -/
def requestMsgId : RequestKind → ℕ
  | .save => kSaveReq
  | .history => kHistoryReq
  | .counter => kCounterReq

/-- The reply to a request whose query succeeded. -/
def dbReply (res : Response) : Frame :=
  match res.kind with
  | .save => ⟨kSaveAck, (ByteWriter.scratch.u64 res.logId).data⟩
  | .history =>
    ⟨kHistoryAck, (res.rows.foldl
      (fun w row => ((w.u64 row.logId).str row.payload).u64 row.createdAtMs)
      (ByteWriter.scratch.u16 res.rows.length)).data⟩
  | .counter =>
    ⟨kCounterAck, ((ByteWriter.scratch.u64 res.hitCount).u8 res.alreadyApplied.toNat).data⟩

/-- The frame that `process_db_response` sends to the session of a response. None of its
error codes is fatal, so the connection stays open. -/
def processDbResponse (res : Response) : Frame :=
  match res.status with
  | .ok => dbReply res
  | .unavailable => errorAck (requestMsgId res.kind) .dbUnavailable "db request failed"
  | .failed => errorAck (requestMsgId res.kind) .dbTimeout "db request failed"
  | .expired => errorAck (requestMsgId res.kind) .dbTimeout "db request expired"

/-! ## Answers -/

/-- The frame answers a request with this id : it is the reply to it, or an error that names
it. -/
def Frame.Answers (f : Frame) (msgId : ℕ) : Prop :=
  f.msgId = ackOf msgId ∨ ∃ code detail, f = errorAck msgId code detail

/-- An `ErrorAck` answers the message that it names. -/
theorem errorAck_answers (msgId : ℕ) (code : ErrorCode) (detail : String) :
    (errorAck msgId code detail).Answers msgId :=
  Or.inr ⟨code, detail, rfl⟩

/-- The verdict answers a request with this id, or passes on what will. -/
def Verdict.Answers {α : Type} (passes : α → Prop) (msgId : ℕ) : Verdict α → Prop
  | reply f => f.Answers msgId
  | refuse _ _ => True
  | pass a => passes a

/-- A body that is checked first is still answered, if what follows the check answers. -/
theorem withPayload_answers {α : Type} {passes : α → Prop} {msgId : ℕ} (body : Bytes)
    (what : String) {next : Bytes → Verdict α} (h : ∀ b, (next b).Answers passes msgId) :
    (withPayload body what next).Answers passes msgId := by
  simp only [withPayload]
  split_ifs
  · trivial
  · trivial
  · exact h _

/-- The game service answers a message under its own id, and submits database requests of the
kind that id names. -/
theorem onMessage_answers (unixMs : ℕ) (m : Message) :
    (onMessage unixMs m).Answers (fun req => requestMsgId req.kind = m.msgId) m.msgId := by
  unfold onMessage
  split_ifs with _ hecho hping hsave hhistory hcounter
  · trivial
  · exact withPayload_answers _ _ fun _ => Or.inl (by rw [hecho]; rfl)
  · simp only [handlePing]
    split_ifs
    · trivial
    · exact Or.inl (by rw [hping]; rfl)
  · exact withPayload_answers _ _ fun _ => hsave.symm
  · simp only [handleHistory]
    split_ifs
    · trivial
    · trivial
    · exact hhistory.symm
  · simp only [handleCounter]
    split_ifs
    · trivial
    · trivial
    · exact hcounter.symm
  · trivial

/-- The push of a chat message answers it at its sender. -/
theorem chatPush_answers (sender text : Bytes) : (chatPush sender text).Answers kChatReq :=
  Or.inl rfl

/-- A database response is answered under the id of its request. -/
theorem processDbResponse_answers (res : Response) :
    (processDbResponse res).Answers (requestMsgId res.kind) := by
  unfold processDbResponse
  split
  · refine Or.inl ?_
    cases h : res.kind <;> simp [dbReply, h] <;> rfl
  · exact errorAck_answers _ _ _
  · exact errorAck_answers _ _ _
  · exact errorAck_answers _ _ _

end EchoServer
