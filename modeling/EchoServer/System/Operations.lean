import EchoServer.App.Handlers
import EchoServer.Db.WorkerPool
import EchoServer.Net.SendPath

/-!
# The operations of the server's threads

A thread is the stack of operations it has still to execute. One operation is one access to
what threads share : the section of a queue's mutex or of the send mutex, an atomic flag, a
callback. Executing it is the subject of `System.Server`; the operations come first because
the service lanes push them.

A frame that is sent carries the place of the frame it answers, counted among the frames of
the connection it is sent to. No operation reads it.
-/

namespace EchoServer

/-- What a thread has still to do, one access to the shared state each. -/
inductive Op where
  -- `adopt`
  | adopt
  | register (id : ℕ)
  | installHandlers (id : ℕ)
  | postConnected (service : ServiceId) (id : ℕ)
  | start (id : ℕ)
  | erase (id : ℕ)
  -- the receive handlers, `drain_frames` and the message handler
  | arrive (id : ℕ) (view : Frame)
  | receive (id : ℕ)
  | drainFrames (id : ℕ)
  | onMessage (id index : ℕ) (view : Frame)
  | postMessage (id index : ℕ) (view : Frame)
  | tryEmplace (service : ServiceId) (id index : ℕ) (view : Frame)
  | consume (id : ℕ)
  /-- What a handler does after `drain_frames`. -/
  | endReceive (id : ℕ)
  -- the send path; `answers` is the frame of `id` that is answered
  | send (id : ℕ) (answers : Option ℕ) (f : Frame)
  | lockSend (id : ℕ) (answers : Option ℕ) (f : Frame)
  | closeOverflow (id : ℕ)
  | net (id : ℕ) (a : SendStep)
  -- `close` and its callback
  | close (id : ℕ)
  | postDisconnected (service : ServiceId) (id : ℕ)
  | reclaim (id : ℕ)
  -- the services
  | gameLoop (l : ℕ)
  | chatLoop
  | submitDb (index : ℕ) (req : Request)
  | relay (msg : ServiceMessage)
  | broadcast (id index : ℕ) (f : Frame) (todo : List ℕ)
  -- the database workers and the clock
  | dbWork (i : ℕ) (o : Outcome)
  | dbTick (us : ℕ)
  -- the main thread
  | mainLoop

/-- What the environment chooses for one operation. -/
structure Env where
  /-- The limiter passes a frame, a post is accepted, a wait goes on. -/
  ok : Bool
  flushOk : Bool
  wsaOk : Bool
  /-- The member that a broadcast goes to next. -/
  pick : ℕ
  unixMs : ℕ
  /-- The session key made for a new session. -/
  key : Bytes

/-- `send_error` : the frame, and a close after a fatal code. -/
def sendError (id index origin : ℕ) (code : ErrorCode) (detail : String) : List Op :=
  .send id (some index) (errorAck origin code detail) ::
    if code.isFatal then [.close id] else []

/-- The operations that carry out a verdict on frame `index` of connection `id`. -/
def Verdict.ops {α : Type} (id index origin : ℕ) (next : α → List Op) : Verdict α → List Op
  | reply f => [.send id (some index) f]
  | refuse code detail => sendError id index origin code detail
  | pass a => next a

/-- An error is sent, and closes the connection if it is fatal. -/
theorem mem_sendError {id index origin : ℕ} {code : ErrorCode} {detail : String} {op : Op}
    (h : op ∈ sendError id index origin code detail) :
    op = .send id (some index) (errorAck origin code detail) ∨ op = .close id := by
  unfold sendError at h
  split_ifs at h
  · simpa using h
  · exact Or.inl (by simpa using h)

/-- A verdict is a reply, perhaps with a close behind it, or what it passes on to. -/
theorem Verdict.mem_ops {α : Type} {id index origin : ℕ} {next : α → List Op} {v : Verdict α}
    {op : Op} (h : op ∈ v.ops id index origin next) :
    (∃ f, op = .send id (some index) f) ∨ op = .close id ∨ ∃ a, v = .pass a ∧ op ∈ next a := by
  cases v with
  | reply f => exact Or.inl ⟨f, by simpa [ops] using h⟩
  | refuse code detail => exact (mem_sendError h).imp (fun h => ⟨_, h⟩) Or.inl
  | pass a => exact Or.inr (Or.inr ⟨a, rfl, h⟩)

end EchoServer
