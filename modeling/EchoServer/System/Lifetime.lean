import EchoServer.System.Backpressure

/-!
# The lifetime rule

`net/connection.h` : a connection is let go only when it is closed and `pending_`, the
number of its operations that will come back from the completion port, is 0. In the
threads of one connection every unit of `pending_` is an operation on the port or a thread
that has raised the counter and not yet posted, or has taken a completion and not yet
lowered it (`Instr.unit`, `Link.exec_unit`).

The rule needs two more things, and the source secures neither. The counter has to be
raised while the connection is still in the table, but `resume_receive` raises it for a
connection that has closed, and may have been reclaimed, while it waited on a paused list;
and `send` and `post_receive` raise it some time after they have read `closed_`. And the
connection has to be taken out of the table while the counter is 0, but `adopt` erases it
after a failed `start` whatever the counter says, with the Flush notice of the session key
perhaps on the port, and the sweeper erases it some time after its read of the counter
(`completion_of_erased_reachable`, `resume_of_reclaimed_reachable`). In every run in which
both hold at each such step, a completion on the port belongs to a registered connection
(`lifetime_of_countedWhileRegistered`).
-/

namespace EchoServer

open Threads

/-- The units of `pending_` that a thread with this instruction ahead answers for. -/
def Instr.unit : Instr → ℕ
  | .wsaRecv _ | .postResume | .postFlush | .wsaSend => 1
  | .dispatch _ | .lockFlush | .lockSendDone _ _ | .settleSend _ _ | .lowerPending => 1
  | _ => 0

namespace Link

@[simp] theorem stackWeight_unit_onStartFailed (start : Bool) :
    stackWeight Instr.unit (onStartFailed start) = 0 :=
  stackWeight_onStartFailed rfl start

/-- A completion handler lowers the counter once. -/
theorem stackWeight_unit_handler (op : Completion) : stackWeight Instr.unit (handler op) = 1 := by
  cases op with
  | receive data ok =>
    simp only [handler]
    split_ifs <;> simp [Instr.unit]
  | send transferred ok => simp [handler, Instr.unit]
  | flush => simp [handler, Instr.unit]
  | resume => simp [handler, Instr.unit]

/-- Every instruction moves as many units as it changes the counter by, except one that
drops the completion of an erased connection. -/
theorem exec_unit {cfg : LinkConfig} {c : Bool} {s s' : Link} {ins : Instr} {new : List Instr}
    (h : s.exec cfg c ins = some (s', new))
    (hd : ∀ op, ins = .dispatch op → s.registered = true) :
    s'.pending + s.outstanding + ins.unit =
      s.pending + s'.outstanding + stackWeight Instr.unit new := by
  cases ins with
  | dispatch op =>
    simp only [exec] at h
    split at h <;> cases h
    simp [hd op rfl, stackWeight_unit_handler, Instr.unit]
  | wsaRecv start =>
    simp only [exec] at h
    split at h <;> cases h <;> simp [outstanding, Instr.unit]
    omega
  | postResume =>
    simp only [exec] at h
    split at h <;> cases h <;> simp [outstanding, Instr.unit]
    omega
  | postFlush =>
    simp only [exec] at h
    split at h <;> cases h <;> simp [outstanding, Instr.unit]
    omega
  | wsaSend =>
    simp only [exec] at h
    split at h <;> cases h <;> simp [outstanding, Instr.unit]
    omega
  | resumePaused service =>
    cases h
    simp [outstanding, Instr.unit, stackWeight_replicate]
  | _ =>
    simp only [exec] at h
    repeat' split at h
    all_goals cases h
    all_goals simp [outstanding, Instr.unit]
    all_goals omega

/-- The instruction raises the counter of a registered connection, or erases a connection
whose counter is 0, or does neither. -/
def counted (s : Link) : Instr → Bool
  | .raiseReceive _ | .raiseResume | .raiseFlush | .raiseSend => s.registered
  | .eraseFailed | .eraseReclaimed => s.pending = 0
  | _ => true

/-- A connection that is not in the table has nothing pending, after an instruction as before. -/
theorem exec_registered {cfg : LinkConfig} {c : Bool} {s s' : Link} {ins : Instr}
    {new : List Instr} (h : s.exec cfg c ins = some (s', new)) (hok : s.counted ins = true)
    (hlow : ins = .lowerPending → s.registered = true)
    (hs : s.registered = false → s.pending = 0) (hs' : s'.registered = false) :
    s'.pending = 0 := by
  cases ins with
  | lowerPending =>
    cases h
    simp [hlow rfl] at hs'
  | raiseReceive start =>
    cases h
    simp_all [counted]
  | raiseResume =>
    cases h
    simp_all [counted]
  | raiseFlush =>
    cases h
    simp_all [counted]
  | raiseSend =>
    cases h
    simp_all [counted]
  | eraseFailed =>
    simp only [exec] at h
    split at h <;> cases h
    simpa [counted] using hok
  | eraseReclaimed =>
    cases h
    simpa [counted] using hok
  | _ =>
    simp only [exec] at h
    repeat' split at h
    all_goals cases h
    all_goals simp_all

end Link

/-- The counter is raised only while the connection is registered, and the connection is
erased only while the counter is 0. -/
def countedWhileRegistered (s : LinkState) : LinkStep → Bool
  | .exec i _ => (s.threads.head i).all s.link.counted
  | _ => true

namespace LinkState

/-- `pending_` counts the operations on the port and the units held by threads, and a
connection out of the table has none. -/
structure Counted (s : LinkState) : Prop where
  pending_eq : s.link.pending = s.link.outstanding + s.threads.weight Instr.unit
  registered : s.link.registered = false → s.link.pending = 0

/-- A thread that holds a unit finds the connection registered. -/
theorem Counted.registered_of_unit {s : LinkState} (hs : Counted s) {i : ℕ} {ins : Instr}
    (hi : s.threads.head i = some ins) (hu : ins.unit = 1) : s.link.registered = true := by
  by_contra hreg
  have hzero := hs.registered (by simpa using hreg)
  have hle := le_weight Instr.unit hi
  have := hs.pending_eq
  omega

/-- What is outstanding is counted by the threads and the completions. -/
theorem Counted.execute {cfg : LinkConfig} {i : ℕ} {c : Bool} {s s' : LinkState}
    (hs : Counted s) (hok : countedWhileRegistered s (.exec i c) = true)
    (h : s.execute cfg i c = some s') : Counted s' := by
  obtain ⟨ins, link, new, hi, hex, rfl⟩ := execute_eq_some h
  have hok : s.link.counted ins = true := by simpa [countedWhileRegistered, hi] using hok
  constructor
  · have hu := Link.exec_unit hex fun op hop => hs.registered_of_unit hi (by rw [hop]; rfl)
    have hw := weight_exec Instr.unit hi new
    have := hs.pending_eq
    simp only
    omega
  · exact Link.exec_registered hex hok
      (fun hlow => hs.registered_of_unit hi (by rw [hlow]; rfl)) hs.registered

/-- A thread that starts without a unit keeps the count. -/
theorem Counted.spawn {s : LinkState} (hs : Counted s) {stack : List Instr}
    (hu : stackWeight Instr.unit stack = 0) : Counted (s.spawn stack) :=
  ⟨by simpa [LinkState.spawn, hu] using hs.pending_eq, hs.registered⟩

/-- A completion taken from the port gives its unit to the worker. -/
theorem Counted.complete {s : LinkState} (hs : Counted s) {op : Completion} {link : Link}
    (h : s.link.take op = some link) :
    Counted ({ s with link }.spawn [.dispatch op]) := by
  obtain ⟨hout, hp, hreg⟩ : link.outstanding + 1 = s.link.outstanding ∧
      link.pending = s.link.pending ∧ link.registered = s.link.registered := by
    cases op <;> simp only [Link.take] at h <;> split_ifs at h <;> cases h <;>
      simp [Link.outstanding] <;> omega
  refine ⟨?_, fun hr => ?_⟩
  · have := hs.pending_eq
    simp only [LinkState.spawn, weight_spawn, stackWeight_cons, stackWeight_nil, Instr.unit]
    omega
  · exact hp.trans (hs.registered (hreg.symm.trans hr))

/-- In every run that counts only while the connection is registered. -/
theorem counted_of_reachesWhen {cfg : LinkConfig} {s : LinkState}
    (h : (connectionThreads cfg).ReachesWhen (countedWhileRegistered · ·) s) : Counted s := by
  refine Machine.ReachesWhen.invariant ?_ ?_ h
  · rintro s rfl
    exact ⟨by decide, fun _ => rfl⟩
  · intro s a s' hs hok hstep
    cases a with
    | exec i c => exact hs.execute hok hstep
    | adopt =>
      simp only [connectionThreads] at hstep
      split_ifs at hstep
      obtain rfl := Option.some.inj hstep
      have hadopted : Counted { s with adopted := true } := ⟨hs.pending_eq, hs.registered⟩
      exact hadopted.spawn rfl
    | complete op =>
      obtain ⟨link, htake, rfl⟩ := Option.map_eq_some_iff.mp hstep
      exact hs.complete htake
    | send f =>
      simp only [connectionThreads] at hstep
      split_ifs at hstep
      obtain rfl := Option.some.inj hstep
      exact hs.spawn rfl
    | close =>
      simp only [connectionThreads] at hstep
      split_ifs at hstep
      obtain rfl := Option.some.inj hstep
      exact hs.spawn rfl
    | sweep =>
      obtain rfl := Option.some.inj hstep
      exact hs.spawn rfl
    | enqueue service =>
      obtain rfl := Option.some.inj hstep
      exact ⟨hs.pending_eq, hs.registered⟩
    | serve service =>
      obtain rfl := Option.some.inj hstep
      exact hs.spawn rfl

end LinkState

/-- In every run that raises `pending_` only while the connection is registered and erases
it only while `pending_` is 0 : while a completion is outstanding on the port the connection
is registered, and so does a worker find it that has taken one. -/
theorem lifetime_of_countedWhileRegistered {cfg : LinkConfig} {s : LinkState}
    (h : (connectionThreads cfg).ReachesWhen (countedWhileRegistered · ·) s) :
    (0 < s.link.outstanding → s.link.registered = true) ∧
      ∀ i op, s.threads.head i = some (.dispatch op) → s.link.registered = true := by
  have hs := LinkState.counted_of_reachesWhen h
  refine ⟨fun hout => ?_, fun i op hi => hs.registered_of_unit hi rfl⟩
  by_contra hreg
  have := hs.registered (by simpa using hreg)
  have := hs.pending_eq
  omega

/-! ## Completions of an erased connection -/

/-- The game thread answers the Connected event with the session key, whose Flush notice is
on the port when `start` fails and `adopt` erases the connection. -/
def failedStartRun : List LinkStep :=
  .adopt :: steps 0 3 ++ .send ⟨100, [0, 0]⟩ :: steps 1 7 ++ steps 0 3 ++
    .exec 0 false :: steps 0 3

/-- The refused worker ends its handler, the peer goes and the sweeper reclaims the
connection; then the service resumes it. -/
def reclaimedRun : List LinkStep :=
  refusedRun ++ steps 1 3 ++ .close :: steps 2 1 ++ .sweep :: steps 3 5 ++ .serve .game :: steps 4 6

/-- Some run erases a connection that a completion still refers to. -/
theorem completion_of_erased_reachable :
    ¬ ∀ s, (connectionThreads pausingConfig).Reaches s →
      0 < s.link.outstanding → s.link.registered = true := by
  intro h
  obtain ⟨s, hs, hp⟩ := (connectionThreads pausingConfig).exists_reachesWhen
    (fun _ _ => True) .fresh failedStartRun
    (fun s => 0 < s.link.flushes ∧ s.link.registered = false) rfl (by decide +kernel)
  obtain ⟨hflush, hreg⟩ := of_decide_eq_true hp
  have := h s hs (by simp only [Link.outstanding]; omega)
  simp [hreg] at this

/-- A Resume notice is posted for a connection that the sweeper has reclaimed. -/
theorem resume_of_reclaimed_reachable :
    ∃ s, (connectionThreads pausingConfig).Reaches s ∧ 0 < s.link.resumes ∧
      s.link.registered = false := by
  obtain ⟨s, hs, hp⟩ := (connectionThreads pausingConfig).exists_reachesWhen
    (fun _ _ => True) .fresh reclaimedRun
    (fun s => 0 < s.link.resumes ∧ s.link.registered = false) rfl (by decide +kernel)
  obtain ⟨hresume, hreg⟩ := of_decide_eq_true hp
  exact ⟨s, hs, hresume, hreg⟩

/-- A connection that is resumed while it is registered. -/
theorem lifetime_of_countedWhileRegistered_resumed :
    ∃ s : LinkState, 0 < s.link.resumes ∧ s.link.registered = true := by
  obtain ⟨s, hs, hp⟩ := (connectionThreads pausingConfig).exists_reachesWhen
    (fun s a => countedWhileRegistered s a = true) .fresh
    (refusedRun ++ steps 1 3 ++ .serve .game :: steps 2 6)
    (fun s => 0 < s.link.resumes) rfl (by decide +kernel)
  have hresume := of_decide_eq_true hp
  exact ⟨s, hresume, (lifetime_of_countedWhileRegistered hs).1
    (by simp only [Link.outstanding]; omega)⟩

end EchoServer
