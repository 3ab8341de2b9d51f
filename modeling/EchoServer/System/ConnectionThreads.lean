import EchoServer.App.Reply
import EchoServer.App.Route
import EchoServer.Lib.Machine
import EchoServer.Lib.Threads
import EchoServer.Net.SendBuffer

/-!
# One connection among its threads

Everything `net/connection.cpp`, `net/io_service.cpp` and the posting half of
`app/service.cpp` do to one connection, one step for each access to what its threads share :
an atomic flag or counter, a queue, the table of connections, the completion port, or a
system call. What a mutex guards is read and written while the model holds the mutex. A
thread is the stack of instructions it has still to execute, and a call pushes the
instructions of its body (`Link.exec`). A worker that has taken a completion, a service
thread in `resume_paused`, a thread in `send` or `close`, the sweeper and the thread in
`adopt` are all such stacks.

The environment chooses what the code does not : whether a system call or a post is
accepted, whether the rate limiter lets a frame pass, what a receive brings, and when other
connections fill the inbound queues. Rounds of one service may overlap here, which the
source never does.

A worker whose frame was refused reads `closed_` and `recv_paused_` again like any other;
`Poster.refused` records the reason it got there, for the statements below it.
-/

namespace EchoServer

/-- What is set once for the server. -/
structure LinkConfig where
  directSend : Bool
  sendLimit : ℕ
  inboundQueueCap : ℕ
  policy : OverflowPolicy

/-- The cap that `Service::start` works with. -/
def LinkConfig.inboundCap (cfg : LinkConfig) : ℕ := max 64 cfg.inboundQueueCap

/-- A completion taken from the port. -/
inductive Completion where
  | receive (data : Bytes) (ok : Bool)
  | send (transferred : ℕ) (ok : Bool)
  | flush
  | resume
  deriving DecidableEq, Repr

/-- How a thread comes to post a receive. -/
inductive Poster where
  /-- `start`, called by `adopt`. -/
  | start
  /-- A drain that ended because no whole frame was left. -/
  | drained
  /-- A drain that ended because the service refused a frame. -/
  | refused
  deriving DecidableEq, Repr

/-- An instruction on a connection that other threads can see. -/
inductive Instr where
  -- the worker that has taken a completion
  | dispatch (op : Completion)
  | lowerPending
  | commitWrite (data : Bytes)
  -- `drain_frames` and the message handler
  | drain
  | onMessage (view : Frame) (consumed : ℕ)
  | postMessage (view : Frame) (consumed : ℕ)
  | tryEmplace (service : ServiceId) (view : Frame) (consumed : ℕ)
  | pauseReceive
  | park (service : ServiceId)
  | consume (consumed : ℕ)
  | checkClosed
  -- the end of `on_receive_done` and `on_resume`, and `post_receive`
  | recheckClosed (poster : Poster)
  | recheckPaused (poster : Poster)
  | postReceive (poster : Poster)
  | reserveFree (start : Bool)
  | raiseReceive (start : Bool)
  | wsaRecv (start : Bool)
  | clearPaused
  | clearResumeQueued
  -- `resume_receive`
  | resumeReceive
  | exchangeResumeQueued
  | raiseResume
  | postResume
  -- `send`, `on_flush`, `on_send_done` and `post_send_locked`
  | send (f : Frame)
  | lockSend (f : Frame)
  | appendSend (f : Frame)
  | exchangeFlushQueued
  | raiseFlush
  | postFlush
  | lockFlush
  | clearFlushQueued
  | lockSendDone (transferred : ℕ) (ok : Bool)
  | settleSend (transferred : ℕ) (ok : Bool)
  | recheckSend
  | postSend
  | raiseSend
  | wsaSend
  | unlockSend
  | close
  -- `adopt`
  | register
  | postConnected (service : ServiceId)
  | eraseFailed
  -- `sweep_loop`
  | lockTable
  | testClosed
  | testPending
  | eraseReclaimed
  | unlockTable
  -- `run_step`
  | swapInbound (service : ServiceId)
  | resumePaused (service : ServiceId)
  deriving DecidableEq, Repr

/-- What the threads of one connection share. -/
structure Link where
  /-- In `connections_`. -/
  registered : Bool
  /-- Known to a service, through its Connected event. -/
  published : Bool
  closed : Bool
  recvPaused : Bool
  resumeQueued : Bool
  flushQueued : Bool
  /-- The counter `pending_`. -/
  pending : ℤ
  /-- The mutex of the connection table. -/
  tableLocked : Bool
  /-- `send_mutex_`. -/
  sendLocked : Bool
  /-- The readable bytes of the receive buffer. -/
  recvBuf : Bytes
  sendBuf : SendBuffer
  /-- The operations on the completion port, by kind. -/
  recvs : ℕ
  sends : ℕ
  flushes : ℕ
  resumes : ℕ
  /-- The entries of this connection in the paused list of a service. -/
  parked : ServiceId → ℕ
  /-- The length of the inbound queue of a service. -/
  inbound : ServiceId → ℕ

namespace Link

/-- A connection that is not in the table. -/
def fresh : Link where
  registered := false
  published := false
  closed := false
  recvPaused := false
  resumeQueued := false
  flushQueued := false
  pending := 0
  tableLocked := false
  sendLocked := false
  recvBuf := []
  sendBuf := .empty
  recvs := 0
  sends := 0
  flushes := 0
  resumes := 0
  parked := fun _ => 0
  inbound := fun _ => 0

/-- What `adopt` does when `start` fails. -/
def onStartFailed (start : Bool) : List Instr := if start then [.eraseFailed] else []

theorem stackWeight_onStartFailed {w : Instr → ℕ} (hw : w .eraseFailed = 0) (start : Bool) :
    Threads.stackWeight w (onStartFailed start) = 0 := by
  cases start <;> simp [onStartFailed, hw]

/-- The body of the completion handler for `op`. -/
def handler : Completion → List Instr
  | .receive data ok =>
    if !ok || data.isEmpty then [.close, .lowerPending]
    else [.commitWrite data, .drain, .lowerPending]
  | .send transferred ok => [.lockSendDone transferred ok]
  | .flush => [.lockFlush]
  | .resume => [.clearPaused, .clearResumeQueued, .drain, .lowerPending]

/-- Execute one instruction : the new shared state and the instructions it expands to.
`c` is the environment's choice where there is one; a thread that waits for a mutex cannot
execute. -/
def exec (cfg : LinkConfig) (c : Bool) (s : Link) : Instr → Option (Link × List Instr)
  | .dispatch op =>
    if s.tableLocked then none
    else some (s, if s.registered then handler op else [])
  | .lowerPending => some ({ s with pending := s.pending - 1 }, [])
  | .commitWrite data => some ({ s with recvBuf := s.recvBuf ++ data }, [])
  | .drain =>
    match peekFrame s.recvBuf with
    | .incomplete => some (s, [.recheckClosed .drained])
    | .tooLarge => some (s, [.close, .recheckClosed .drained])
    | .ok view consumed => some (s, [.onMessage view consumed])
  | .onMessage view consumed =>
    if c then some (s, [.postMessage view consumed])
    else some (s, [.send (errorAck view.msgId .serverBusy "rate limit"), .consume consumed])
  | .postMessage view consumed =>
    match route view.msgId with
    | none =>
      some (s, [.send (errorAck view.msgId .unknownMessage "unknown id"), .close,
        .consume consumed])
    | some service => some (s, [.tryEmplace service view consumed])
  | .tryEmplace service view consumed =>
    if s.inbound service < cfg.inboundCap then
      some ({ s with inbound := Function.update s.inbound service (s.inbound service + 1) },
        [.consume consumed])
    else
      match cfg.policy with
      | .backpressure => some (s, [.pauseReceive, .park service, .recheckClosed .refused])
      | .reject =>
        some (s, [.send (errorAck view.msgId .serverBusy "inbound queue full"),
          .consume consumed])
  | .pauseReceive => some ({ s with recvPaused := true }, [])
  | .park service =>
    some ({ s with parked := Function.update s.parked service (s.parked service + 1) }, [])
  | .consume consumed => some ({ s with recvBuf := s.recvBuf.drop consumed }, [.checkClosed])
  | .checkClosed => some (s, if s.closed then [.recheckClosed .drained] else [.drain])
  | .recheckClosed poster => some (s, if s.closed then [] else [.recheckPaused poster])
  | .recheckPaused poster => some (s, if s.recvPaused then [] else [.postReceive poster])
  | .postReceive poster =>
    let start := poster = .start
    some (s, if s.closed then onStartFailed start else [.reserveFree start])
  | .reserveFree start =>
    some (s, if c then [.raiseReceive start] else .close :: onStartFailed start)
  | .raiseReceive start => some ({ s with pending := s.pending + 1 }, [.wsaRecv start])
  | .wsaRecv start =>
    if c then some ({ s with recvs := s.recvs + 1 }, [])
    else some (s, .lowerPending :: .close :: onStartFailed start)
  | .clearPaused => some ({ s with recvPaused := false }, [])
  | .clearResumeQueued => some ({ s with resumeQueued := false }, [])
  | .resumeReceive => some (s, if s.recvPaused then [.exchangeResumeQueued] else [])
  | .exchangeResumeQueued =>
    some ({ s with resumeQueued := true }, if s.resumeQueued then [] else [.raiseResume])
  | .raiseResume => some ({ s with pending := s.pending + 1 }, [.postResume])
  | .postResume =>
    if c then some ({ s with resumes := s.resumes + 1 }, [])
    else some (s, [.lowerPending, .clearResumeQueued])
  | .send f =>
    if s.closed then some (s, [])
    else some (s, if kMaxOutboundBody < f.body.length then [.close] else [.lockSend f])
  | .lockSend f => if s.sendLocked then none else some ({ s with sendLocked := true }, [.appendSend f])
  | .appendSend f =>
    match s.sendBuf.append cfg.sendLimit f with
    | none => some (s, [.unlockSend, .close])
    | some sendBuf =>
      some ({ s with sendBuf },
        [if cfg.directSend then .postSend else .exchangeFlushQueued, .unlockSend])
  | .exchangeFlushQueued =>
    if s.sendBuf.sending then some (s, [])
    else some ({ s with flushQueued := true }, if s.flushQueued then [] else [.raiseFlush])
  | .raiseFlush => some ({ s with pending := s.pending + 1 }, [.postFlush])
  | .postFlush =>
    if c then some ({ s with flushes := s.flushes + 1 }, [])
    else some (s, [.lowerPending, .clearFlushQueued, .postSend])
  | .lockFlush =>
    if s.sendLocked then none
    else some ({ s with sendLocked := true },
      [.clearFlushQueued, .postSend, .unlockSend, .lowerPending])
  | .clearFlushQueued => some ({ s with flushQueued := false }, [])
  | .lockSendDone transferred ok =>
    if s.sendLocked then none
    else some ({ s with sendLocked := true }, [.settleSend transferred ok])
  | .settleSend transferred ok =>
    let (fail, sendBuf) := s.sendBuf.settle transferred ok
    some ({ s with sendBuf },
      if fail then [.unlockSend, .close, .lowerPending]
      else [.recheckSend, .unlockSend, .lowerPending])
  | .recheckSend => some (s, if s.closed then [] else [.postSend])
  | .postSend =>
    if s.sendBuf.sending || s.closed || s.sendBuf.pending.isEmpty then some (s, [])
    else some ({ s with sendBuf := s.sendBuf.stage }, [.raiseSend])
  | .raiseSend => some ({ s with pending := s.pending + 1 }, [.wsaSend])
  | .wsaSend =>
    if c then some ({ s with sends := s.sends + 1 }, [])
    else some ({ s with sendBuf := { s.sendBuf with sending := false } }, [.lowerPending, .close])
  | .unlockSend => some ({ s with sendLocked := false }, [])
  | .close => some ({ s with closed := true }, [])
  | .register =>
    if s.tableLocked then none
    else if c then
      some ({ s with registered := true },
        [.postConnected .game, .postConnected .chat, .postReceive .start])
    else some (s, [])
  | .postConnected service =>
    some ({ s with
      published := true
      inbound := Function.update s.inbound service (s.inbound service + 1) }, [])
  | .eraseFailed => if s.tableLocked then none else some ({ s with registered := false }, [])
  | .lockTable =>
    if s.tableLocked then none
    else some ({ s with tableLocked := true },
      if s.registered then [.testClosed, .unlockTable] else [.unlockTable])
  | .testClosed => some (s, if s.closed then [.testPending] else [])
  | .testPending => some (s, if s.pending = 0 then [.eraseReclaimed] else [])
  | .eraseReclaimed => some ({ s with registered := false }, [])
  | .unlockTable => some ({ s with tableLocked := false }, [])
  | .swapInbound service => some ({ s with inbound := Function.update s.inbound service 0 }, [])
  | .resumePaused service =>
    some ({ s with parked := Function.update s.parked service 0 },
      List.replicate (s.parked service) .resumeReceive)

/-- Take a completion from the port. -/
def take (s : Link) : Completion → Option Link
  | .receive _ _ => if 0 < s.recvs then some { s with recvs := s.recvs - 1 } else none
  | .send _ _ => if 0 < s.sends then some { s with sends := s.sends - 1 } else none
  | .flush => if 0 < s.flushes then some { s with flushes := s.flushes - 1 } else none
  | .resume => if 0 < s.resumes then some { s with resumes := s.resumes - 1 } else none

/-- The completions of this connection outstanding on the port. -/
def outstanding (s : Link) : ℕ := s.recvs + s.sends + s.flushes + s.resumes

end Link

/-- A connection and every thread that is at work on it. -/
structure LinkState where
  link : Link
  /-- `adopt` has been called. -/
  adopted : Bool
  threads : Threads Instr

/-- An instruction is executed, or a thread begins with the connection. -/
inductive LinkStep where
  /-- Thread `i` executes its next instruction. -/
  | exec (i : ℕ) (c : Bool)
  | adopt
  /-- A worker takes a completion. -/
  | complete (op : Completion)
  /-- A service thread sends. -/
  | send (f : Frame)
  /-- A thread that holds the connection closes it. -/
  | close
  | sweep
  /-- Another event fills a place in the inbound queue of a service. -/
  | enqueue (service : ServiceId)
  /-- A service begins a round. -/
  | serve (service : ServiceId)
  deriving Repr

namespace LinkState

/-- The connection has not been adopted, and no thread has to do with it. -/
def fresh : LinkState := ⟨.fresh, false, []⟩

/-- A thread begins. -/
def spawn (s : LinkState) (stack : List Instr) : LinkState :=
  { s with threads := s.threads.spawn stack }

/-- Thread `i` executes its next instruction. -/
def execute (cfg : LinkConfig) (i : ℕ) (c : Bool) (s : LinkState) : Option LinkState :=
  match s.threads.head i with
  | none => none
  | some ins =>
    (s.link.exec cfg c ins).map fun r =>
      { s with link := r.1, threads := s.threads.exec i r.2 }

/-- An instruction is executed by a thread that has it to do next. -/
theorem execute_eq_some {cfg : LinkConfig} {i : ℕ} {c : Bool} {s s' : LinkState}
    (h : s.execute cfg i c = some s') :
    ∃ ins link new, s.threads.head i = some ins ∧ s.link.exec cfg c ins = some (link, new) ∧
      s' = { s with link, threads := s.threads.exec i new } := by
  unfold execute at h
  cases hi : s.threads.head i with
  | none => simp [hi] at h
  | some ins =>
    rw [hi] at h
    obtain ⟨⟨link, new⟩, hex, rfl⟩ := Option.map_eq_some_iff.mp h
    exact ⟨ins, link, new, rfl, hex, rfl⟩

end LinkState

/-- One connection, from before it is adopted. -/
def connectionThreads (cfg : LinkConfig) : Machine LinkState LinkStep where
  init s := s = .fresh
  step s
    | .exec i c => s.execute cfg i c
    | .adopt => if s.adopted then none else some ({ s with adopted := true }.spawn [.register])
    | .complete op => (s.link.take op).map fun link => { s with link }.spawn [.dispatch op]
    | .send f => if s.link.published then some (s.spawn [.send f]) else none
    | .close =>
      if s.link.registered || s.link.published then some (s.spawn [.close]) else none
    | .sweep => some (s.spawn [.lockTable])
    | .enqueue service =>
      some { s with link := { s.link with
        inbound := Function.update s.link.inbound service (s.link.inbound service + 1) } }
    | .serve service => some (s.spawn [.swapInbound service, .resumePaused service])

end EchoServer
