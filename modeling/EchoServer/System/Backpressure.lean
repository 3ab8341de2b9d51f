import EchoServer.System.ConnectionThreads

/-!
# Receives under backpressure

A worker whose frame is refused pauses the connection and puts it on the paused list before
it returns to the end of its handler, where it reads `recv_paused_` again. By then the
service may have resumed the connection and another worker may have taken the Resume
notice, cleared the flag, drained the buffer and posted a receive. The first worker then
reads a cleared flag and posts a second one (`second_receive_reachable`), although
`on_resume` relies on there being none.

Apart from that window the duty to receive is in one place at a time : a receive or a Resume
notice on the port, an entry of a paused list, or a thread on its way to post one of them
(`Instr.duty`). No instruction makes a duty out of nothing except the read that finds the
flag cleared after a refusal (`Link.exec_duty`). So in every run in which that read finds
the flag set, or the connection closed, at most one receive is out
(`single_receive_of_refusalStands`).
-/

namespace EchoServer

open Threads

namespace Instr

/-- Whether a thread with this instruction ahead will post a receive or pass that duty on. -/
def duty : Instr → ℕ
  | dispatch (.receive _ _) | dispatch .resume => 1
  | drain | onMessage _ _ | postMessage _ _ | tryEmplace _ _ _ | park _ | consume _
  | checkClosed => 1
  | recheckClosed poster | recheckPaused poster | postReceive poster =>
    if poster = .refused then 0 else 1
  | reserveFree _ | raiseReceive _ | wsaRecv _ => 1
  | resumeReceive | exchangeResumeQueued | raiseResume | postResume => 1
  | register => 1
  | _ => 0

/-- A worker whose frame was refused, past its read of `recv_paused_`. -/
def refusedPost : Instr → ℕ
  | postReceive .refused => 1
  | _ => 0

end Instr

namespace Link

/-- The duties to receive that no thread holds. -/
def duty (s : Link) : ℕ := s.recvs + s.resumes + s.parked .game + s.parked .chat

@[simp] theorem stackWeight_duty_onStartFailed (start : Bool) :
    stackWeight Instr.duty (onStartFailed start) = 0 :=
  stackWeight_onStartFailed rfl start

@[simp] theorem stackWeight_refusedPost_onStartFailed (start : Bool) :
    stackWeight Instr.refusedPost (onStartFailed start) = 0 :=
  stackWeight_onStartFailed rfl start

/-- A completion's handler has no more duties than the completion itself. -/
theorem stackWeight_duty_handler_le (op : Completion) :
    stackWeight Instr.duty (handler op) ≤ (Instr.dispatch op).duty := by
  cases op with
  | receive data ok =>
    simp only [handler]
    split_ifs <;> simp [Instr.duty]
  | send transferred ok => simp [handler, Instr.duty]
  | flush => simp [handler, Instr.duty]
  | resume => simp [handler, Instr.duty]

theorem stackWeight_refusedPost_handler (op : Completion) :
    stackWeight Instr.refusedPost (handler op) = 0 := by
  cases op with
  | receive data ok =>
    simp only [handler]
    split_ifs <;> simp [Instr.refusedPost]
  | send transferred ok => simp [handler, Instr.refusedPost]
  | flush => simp [handler, Instr.refusedPost]
  | resume => simp [handler, Instr.refusedPost]

/-- No instruction makes a duty to receive, except on a connection already closed. -/
theorem exec_duty {cfg : LinkConfig} {c : Bool} {s s' : Link} {ins : Instr} {new : List Instr}
    (h : s.exec cfg c ins = some (s', new))
    (hp : ins = .postReceive .refused → s.closed = true) :
    s'.duty + stackWeight Instr.duty new ≤ s.duty + ins.duty := by
  cases ins with
  | dispatch op =>
    have := stackWeight_duty_handler_le op
    simp only [exec] at h
    split at h <;> cases h
    split_ifs <;> simp_all
  | park service =>
    cases h
    cases service <;> simp [duty, Instr.duty] <;> omega
  | postReceive poster =>
    cases h
    by_cases hclosed : s.closed = true
    · simp [hclosed]
    · have hne : poster ≠ .refused := fun h => hclosed (hp (by rw [h]))
      simp [hclosed, hne, Instr.duty]
  | wsaRecv start =>
    simp only [exec] at h
    split at h <;> cases h
    · simp only [duty, Instr.duty, stackWeight_nil]
      omega
    · simp [duty, Instr.duty]
  | postResume =>
    simp only [exec] at h
    split at h <;> cases h
    · simp only [duty, Instr.duty, stackWeight_nil]
      omega
    · simp [duty, Instr.duty]
  | resumePaused service =>
    cases h
    cases service
    · simp [duty, Instr.duty, stackWeight_replicate]
      omega
    · simp [duty, Instr.duty, stackWeight_replicate]
  | _ =>
    simp only [exec] at h
    repeat' split at h
    all_goals cases h
    all_goals simp [duty, Instr.duty]

/-- A refused worker gets past its read of `recv_paused_` only on a connection already
closed, if that read finds the flag set on an open one. -/
theorem exec_refusedPost {cfg : LinkConfig} {c : Bool} {s s' : Link} {ins : Instr}
    {new : List Instr} (h : s.exec cfg c ins = some (s', new))
    (hr : ins = .recheckPaused .refused → s.recvPaused = true ∨ s.closed = true)
    (hopen : s'.closed = false) :
    s.closed = false ∧ stackWeight Instr.refusedPost new = 0 := by
  cases ins with
  | dispatch op =>
    simp only [exec] at h
    split at h <;> cases h
    refine ⟨hopen, ?_⟩
    split_ifs <;> simp [stackWeight_refusedPost_handler]
  | recheckPaused poster =>
    cases h
    refine ⟨hopen, ?_⟩
    cases hpaused : s.recvPaused with
    | true => simp
    | false =>
      have hne : poster ≠ .refused := fun h => by simp_all
      cases poster <;> simp_all [Instr.refusedPost]
  | resumePaused service =>
    cases h
    exact ⟨hopen, by simp [Instr.refusedPost, stackWeight_replicate]⟩
  | _ =>
    simp only [exec] at h
    repeat' split at h
    all_goals cases h
    all_goals simp_all [Instr.refusedPost]

end Link

/-- A worker that reads `recv_paused_` again after a refusal finds it set, unless the
connection is closed. -/
def refusalStands (s : LinkState) : LinkStep → Bool
  | .exec i _ =>
    if s.threads.head i = some (.recheckPaused .refused) then
      s.link.recvPaused || s.link.closed
    else true
  | _ => true

namespace LinkState

/-- The connection has at most one duty to receive, and no refused worker is past its read
while it is open. -/
structure OneDuty (s : LinkState) : Prop where
  duty_le : s.link.duty + s.threads.weight Instr.duty + (!s.adopted).toNat ≤ 1
  refused : s.link.closed = false → s.threads.weight Instr.refusedPost = 0

/-- No instruction adds a duty, unless a refused post is taken for a success. -/
theorem OneDuty.execute {cfg : LinkConfig} {i : ℕ} {c : Bool} {s s' : LinkState}
    (hs : OneDuty s) (hok : refusalStands s (.exec i c) = true)
    (h : s.execute cfg i c = some s') : OneDuty s' := by
  obtain ⟨ins, link, new, hi, hex, rfl⟩ := execute_eq_some h
  have hr : ins = .recheckPaused .refused → s.link.recvPaused = true ∨ s.link.closed = true := by
    rintro rfl
    simpa [refusalStands, hi] using hok
  have hp : ins = .postReceive .refused → s.link.closed = true := by
    rintro rfl
    by_contra hopen
    have hle := le_weight Instr.refusedPost hi
    rw [hs.refused (by simpa using hopen)] at hle
    simp [Instr.refusedPost] at hle
  refine ⟨?_, fun hopen => ?_⟩
  · have hd := Link.exec_duty hex hp
    have hw := weight_exec Instr.duty hi new
    have := hs.duty_le
    simp only
    omega
  · obtain ⟨hopen', hnew⟩ := Link.exec_refusedPost hex hr hopen
    have hw := weight_exec Instr.refusedPost hi new
    have := hs.refused hopen'
    simp only
    omega

/-- A thread that starts without a duty to receive keeps the count. -/
theorem OneDuty.spawn {s : LinkState} (hs : OneDuty s) {stack : List Instr}
    (hd : stackWeight Instr.duty stack = 0) (hr : stackWeight Instr.refusedPost stack = 0) :
    OneDuty (s.spawn stack) :=
  ⟨by simpa [LinkState.spawn, hd] using hs.duty_le,
    by simpa [LinkState.spawn, hr] using hs.refused⟩

/-- A completion taken from the port gives its duty to the worker. -/
theorem OneDuty.complete {s : LinkState} (hs : OneDuty s) {op : Completion} {link : Link}
    (h : s.link.take op = some link) :
    OneDuty ({ s with link }.spawn [.dispatch op]) := by
  have hduty : link.duty + (Instr.dispatch op).duty = s.link.duty ∧
      link.closed = s.link.closed := by
    cases op <;> simp only [Link.take] at h <;> split_ifs at h <;> cases h <;>
      simp [Link.duty, Instr.duty] <;> omega
  refine ⟨?_, fun hopen => ?_⟩
  · have := hs.duty_le
    simp only [LinkState.spawn, weight_spawn, stackWeight_cons, stackWeight_nil]
    omega
  · simpa [LinkState.spawn, Instr.refusedPost] using hs.refused (hduty.2.symm.trans hopen)

/-- There is one duty at most in every run in which refusals stand. -/
theorem oneDuty_of_reachesWhen {cfg : LinkConfig} {s : LinkState}
    (h : (connectionThreads cfg).ReachesWhen (refusalStands · ·) s) : OneDuty s := by
  refine Machine.ReachesWhen.invariant ?_ ?_ h
  · rintro s rfl
    exact ⟨by decide, fun _ => rfl⟩
  · intro s a s' hs hok hstep
    cases a with
    | exec i c => exact hs.execute hok hstep
    | adopt =>
      simp only [connectionThreads] at hstep
      split_ifs at hstep with had
      obtain rfl := Option.some.inj hstep
      refine ⟨?_, fun hopen => ?_⟩
      · have := hs.duty_le
        simp only [had, Bool.not_false, Bool.toNat_true] at this
        simp only [LinkState.spawn, weight_spawn, stackWeight_cons, stackWeight_nil, Instr.duty,
          Bool.not_true, Bool.toNat_false]
        omega
      · simpa [LinkState.spawn, Instr.refusedPost] using hs.refused hopen
    | complete op =>
      obtain ⟨link, htake, rfl⟩ := Option.map_eq_some_iff.mp hstep
      exact hs.complete htake
    | send f =>
      simp only [connectionThreads] at hstep
      split_ifs at hstep
      obtain rfl := Option.some.inj hstep
      exact hs.spawn rfl rfl
    | close =>
      simp only [connectionThreads] at hstep
      split_ifs at hstep
      obtain rfl := Option.some.inj hstep
      exact hs.spawn rfl rfl
    | sweep =>
      obtain rfl := Option.some.inj hstep
      exact hs.spawn rfl rfl
    | enqueue service =>
      obtain rfl := Option.some.inj hstep
      exact ⟨hs.duty_le, hs.refused⟩
    | serve service =>
      obtain rfl := Option.some.inj hstep
      exact hs.spawn rfl rfl

end LinkState

/-- In every run in which the read of `recv_paused_` after a refusal finds the flag set, or
the connection closed, at most one receive is outstanding. -/
theorem single_receive_of_refusalStands {cfg : LinkConfig} {s : LinkState}
    (h : (connectionThreads cfg).ReachesWhen (refusalStands · ·) s) : s.link.recvs ≤ 1 := by
  have := (LinkState.oneDuty_of_reachesWhen h).duty_le
  simp only [Link.duty] at this
  omega

/-! ## The window -/

/-- One service queue of 64 places, and backpressure when it is full. -/
def pausingConfig : LinkConfig := ⟨false, 0, 64, .backpressure⟩

/-- `n` steps of thread `i`, each with the environment's consent. -/
def steps (i n : ℕ) : List LinkStep := List.replicate n (.exec i true)

/-- The connection is adopted, the game queue fills up, and a worker is refused an Echo
frame : thread 1 has paused and parked the connection. -/
def refusedRun : List LinkStep :=
  .adopt :: steps 0 7 ++ List.replicate 63 (.enqueue .game) ++
    .complete (.receive (Frame.mk kEchoReq [0, 0]).encode true) :: steps 1 8

/-- The service resumes the connection, and thread 3 takes the Resume notice. -/
def resumedRun : List LinkStep := .serve .game :: steps 2 6 ++ .complete .resume :: steps 3 16

/-- Thread 1 goes on after the connection has been resumed and posts a second receive. -/
theorem second_receive_reachable :
    ¬ ∀ s, (connectionThreads pausingConfig).Reaches s → s.link.recvs ≤ 1 := by
  intro h
  obtain ⟨s, hs, hp⟩ := (connectionThreads pausingConfig).exists_reachesWhen
    (fun _ _ => True) .fresh (refusedRun ++ resumedRun ++ steps 1 6)
    (fun s => s.link.recvs = 2) rfl (by decide +kernel)
  have := h s hs
  have := of_decide_eq_true hp
  omega

/-- The same run with thread 1 at the end of its handler before the service resumes the
connection. -/
theorem single_receive_of_refusalStands_resumed :
    ∃ s : LinkState, s.link.recvs = 1 ∧ s.link.recvPaused = false ∧ s.link.recvs ≤ 1 := by
  obtain ⟨s, hs, hp⟩ := (connectionThreads pausingConfig).exists_reachesWhen
    (fun s a => refusalStands s a = true) .fresh
    (refusedRun ++ steps 1 3 ++ resumedRun)
    (fun s => s.link.recvs = 1 ∧ s.link.recvPaused = false) rfl (by decide +kernel)
  obtain ⟨hrecvs, hrun⟩ := of_decide_eq_true hp
  exact ⟨s, hrecvs, hrun, single_receive_of_refusalStands hs⟩

end EchoServer
