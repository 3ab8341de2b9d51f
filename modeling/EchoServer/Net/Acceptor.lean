import EchoServer.Lib.Machine

/-!
# Accepting connections

`net/acceptor.h` : `kBacklogOps` operations, each an accept request that the kernel has, or whose
completion is being handled. `on_accept_done` posts the operation again when it is through.

The kernel completes requests in any order and with any result, several completions may be handled
at once, and the two system calls of `post_accept` may fail at any time. `on_accept_done` does not
look at what `post_accept` returns, so an operation that could not be posted again is idle for
ever (`idle_run`).
-/

namespace EchoServer

/-- A handle. -/
abbrev Socket := ℕ

/-- Where an accept operation is. -/
inductive OpPlace where
  /-- The kernel has it. -/
  | posted
  /-- Its completion is to be handled : the peer, or a failure. -/
  | completed (peer : Option String)
  /-- `on_accept_done` is about to post it again. -/
  | reposting
  /-- Neither the kernel nor a handler has it. -/
  | idle
  deriving DecidableEq

/-- One of the accepts under way. -/
structure AcceptOp where
  /-- The socket, unless it is invalid. -/
  socket : Option Socket
  place : OpPlace

/-- The acceptor, with its accepts and what has become of the sockets. -/
structure Acceptor where
  listening : Bool
  stopping : Bool
  ops : List AcceptOp
  /-- What the handler has been called with. -/
  accepted : List (Option Socket × String)
  closed : List Socket

/-- What the system calls of `post_accept` do. -/
structure Post where
  /-- The result of `WSASocket`. -/
  socket : Option Socket
  /-- `AcceptEx` has accepted the request. -/
  pending : Bool

/-- The accept is under way. -/
def Post.succeeds (post : Post) : Bool := post.socket.isSome && post.pending

/-- A step of one operation. -/
inductive OpAct where
  /-- The kernel completes it. -/
  | complete (peer : Option String)
  /-- `on_accept_done`, up to `post_accept`. -/
  | handle
  | repost (post : Post)

/-- Not a posting whose system calls fail. -/
def OpAct.succeeds : OpAct → Bool
  | .repost post => post.succeeds
  | _ => true

/-- What a thread does next. -/
inductive AcceptAct where
  | op (i : ℕ) (act : OpAct)
  | stop

/-- The step posts its accept again, if it is to. -/
def AcceptAct.succeeds : AcceptAct → Bool
  | .op _ act => act.succeeds
  | .stop => true

namespace Acceptor

/-- So many accepts are under way at a time. -/
def kBacklogOps : ℕ := 64

/-- The accept with number `i` goes on. -/
def put (a : Acceptor) (i : ℕ) (op : AcceptOp) : Acceptor := { a with ops := a.ops.set i op }

/-- A socket is closed, if there is one. -/
def close (a : Acceptor) (socket : Option Socket) : Acceptor :=
  { a with closed := a.closed ++ socket.toList }

/-- `post_accept` for the operation with number `i`. -/
def postAccept (a : Acceptor) (i : ℕ) (op : AcceptOp) (post : Post) : Acceptor × Bool :=
  if a.stopping || !a.listening then (a.put i { op with place := .idle }, false)
  else
    match post.socket with
    | none => ((a.close op.socket).put i ⟨none, .idle⟩, false)
    | some socket =>
      if post.pending then ((a.close op.socket).put i ⟨some socket, .posted⟩, true)
      else (((a.close op.socket).close socket).put i ⟨none, .idle⟩, false)

/-- The loop of `start`. -/
def startOps : List Post → Acceptor → Option Acceptor
  | [], a => some a
  | post :: posts, a =>
    let op : AcceptOp := ⟨none, .idle⟩
    let r := { a with ops := a.ops ++ [op] }.postAccept a.ops.length op post
    if r.2 then startOps posts r.1 else none

/-- `start` where the socket listens, if it returns true. -/
def start (posts : ℕ → Post) : Option Acceptor :=
  startOps ((List.range kBacklogOps).map posts) ⟨true, false, [], [], []⟩

/-- The part of `on_accept_done` before the operation is posted again. -/
def onAcceptDone (a : Acceptor) (i : ℕ) (op : AcceptOp) : Option String → Acceptor
  | none => (a.close op.socket).put i ⟨none, .reposting⟩
  | some peer =>
    { a with accepted := a.accepted ++ [(op.socket, peer)] }.put i ⟨none, .reposting⟩

/-- `stop` closes the listening socket and the sockets of the accepts. -/
def stop (a : Acceptor) : Acceptor where
  listening := false
  stopping := true
  ops := a.ops.map fun op => { op with socket := none }
  accepted := a.accepted
  closed := a.closed ++ a.ops.filterMap AcceptOp.socket

/-- An accept goes on : it completes, is handled, or is posted again. -/
def opStep (a : Acceptor) (i : ℕ) (op : AcceptOp) : OpAct → Option Acceptor
  | .complete peer =>
    if op.place = .posted then some (a.put i { op with place := .completed peer }) else none
  | .handle =>
    match op.place with
    | .completed peer => some (a.onAcceptDone i op peer)
    | _ => none
  | .repost post => if op.place = .reposting then some (a.postAccept i op post).1 else none

/-- One step of the acceptor. -/
def step (a : Acceptor) : AcceptAct → Option Acceptor
  | .op i act => a.ops[i]?.bind fun op => a.opStep i op act
  | .stop => some a.stop

/-- The acceptor from its start on. -/
def machine : Machine Acceptor AcceptAct where
  init a := ∃ posts, start posts = some a
  step := step

/-- Every operation is with the kernel or is being handled. -/
def InCirculation (a : Acceptor) : Prop :=
  a.ops.length = kBacklogOps ∧ ∀ op ∈ a.ops, op.place ≠ .idle

/-! ## Idle operations -/

/-- The number of operations that nobody has. -/
def idle (a : Acceptor) : ℕ := a.ops.countP fun op => op.place = .idle

variable {a a' : Acceptor} {i : ℕ} {op : AcceptOp}

/-- One operation has been changed. -/
theorem idle_of_set (h : a.ops[i]? = some op) {op' : AcceptOp} (hset : a'.ops = a.ops.set i op') :
    a'.idle + (if op.place = .idle then 1 else 0) =
      a.idle + if op'.place = .idle then 1 else 0 := by
  obtain ⟨hlt, rfl⟩ := List.getElem?_eq_some_iff.mp h
  have hle := List.boole_getElem_le_countP (p := fun op : AcceptOp => op.place = .idle) hlt
  simp only [decide_eq_true_eq] at hle
  simp only [idle, hset, List.countP_set hlt, decide_eq_true_eq]
  omega

/-- `post_accept` changes its operation, which until `stop` it posts unless a system call fails. -/
theorem postAccept_spec (a : Acceptor) (i : ℕ) (op : AcceptOp) (post : Post) :
    ∃ op', (a.postAccept i op post).1.ops = a.ops.set i op' ∧
      (a.postAccept i op post).1.stopping = a.stopping ∧
      (a.postAccept i op post).1.listening = a.listening ∧
      (a.stopping = false → a.listening = true → (a.postAccept i op post).2 = post.succeeds ∧
        op'.place = if post.succeeds then .posted else .idle) := by
  rw [postAccept]
  by_cases hstop : (a.stopping || !a.listening) = true
  · rw [if_pos hstop]
    exact ⟨_, rfl, rfl, rfl, fun hstopping hlistening => by simp [hstopping, hlistening] at hstop⟩
  · rw [if_neg hstop]
    obtain ⟨socket | socket, pending⟩ := post
    · exact ⟨_, rfl, rfl, rfl, fun _ _ => ⟨rfl, rfl⟩⟩
    · cases pending
      · exact ⟨_, rfl, rfl, rfl, fun _ _ => ⟨rfl, rfl⟩⟩
      · exact ⟨_, rfl, rfl, rfl, fun _ _ => ⟨rfl, rfl⟩⟩

/-- What a step does to its operation : until `stop` the operation becomes idle exactly if it could
not be posted. -/
theorem opStep_spec {act : OpAct} (hs : a.opStep i op act = some a') :
    ∃ op', op.place ≠ .idle ∧ a'.ops = a.ops.set i op' ∧ a'.stopping = a.stopping ∧
      a'.listening = a.listening ∧
      (a.stopping = false → a.listening = true → (op'.place = .idle ↔ act.succeeds = false)) := by
  cases act with
  | complete peer =>
    rw [opStep] at hs
    split_ifs at hs with hplace
    obtain rfl := Option.some.inj hs
    exact ⟨_, by simp [hplace], rfl, rfl, rfl, by simp [OpAct.succeeds]⟩
  | handle =>
    rw [opStep] at hs
    cases hplace : op.place with
    | completed peer =>
      rw [hplace] at hs
      obtain rfl := Option.some.inj hs
      cases peer
      · exact ⟨_, by simp, rfl, rfl, rfl, by simp [OpAct.succeeds]⟩
      · exact ⟨_, by simp, rfl, rfl, rfl, by simp [OpAct.succeeds]⟩
    | _ => simp [hplace] at hs
  | repost post =>
    rw [opStep] at hs
    split_ifs at hs with hplace
    obtain rfl := Option.some.inj hs
    obtain ⟨op', hops, hstopping, hlistening, hposted⟩ := a.postAccept_spec i op post
    refine ⟨op', by simp [hplace], hops, hstopping, hlistening, fun hstop hlisten => ?_⟩
    rw [(hposted hstop hlisten).2, OpAct.succeeds]
    cases post.succeeds <;> simp

/-- `start` posts all operations. -/
theorem startOps_spec : ∀ {posts : List Post} {a a' : Acceptor}, a.stopping = false →
    a.listening = true → startOps posts a = some a' →
      a'.stopping = false ∧ a'.listening = true ∧ a'.idle = a.idle ∧
        a'.ops.length = a.ops.length + posts.length
  | [], a, a', hstopping, hlistening, h => by
    obtain rfl := Option.some.inj h
    exact ⟨hstopping, hlistening, rfl, rfl⟩
  | post :: posts, a, a', hstopping, hlistening, h => by
    rw [startOps] at h
    split_ifs at h with hposted
    let opened : Acceptor := { a with ops := a.ops ++ [⟨none, .idle⟩] }
    obtain ⟨op', hops, hstopping', hlistening', hsucceeds⟩ :=
      opened.postAccept_spec a.ops.length ⟨none, .idle⟩ post
    obtain ⟨hpost, hplace⟩ := hsucceeds hstopping hlistening
    rw [← hpost, if_pos hposted] at hplace
    have hset : opened.ops.set a.ops.length op' = a.ops ++ [op'] := by simp [opened]
    have hidle : (opened.postAccept a.ops.length ⟨none, .idle⟩ post).1.idle = a.idle := by
      rw [idle, hops, hset, List.countP_append, List.countP_singleton]
      simp [hplace, idle]
    obtain ⟨h1, h2, h3, h4⟩ :=
      startOps_spec (hstopping'.trans hstopping) (hlistening'.trans hlistening) h
    refine ⟨h1, h2, h3.trans hidle, h4.trans ?_⟩
    rw [hops, hset, List.length_append, List.length_singleton, List.length_cons]
    omega

/-- A successful start has posted every operation. -/
theorem start_spec {posts : ℕ → Post} (h : start posts = some a) :
    a.stopping = false ∧ a.listening = true ∧ a.idle = 0 ∧ a.ops.length = kBacklogOps := by
  obtain ⟨hstopping, hlistening, hidle, hlength⟩ := startOps_spec rfl rfl h
  refine ⟨hstopping, hlistening, hidle, hlength.trans ?_⟩
  simp

/-- A step before the end of a run that no `stop` is part of. -/
theorem step_spec {act : AcceptAct} (hs : a.step act = some a') (hstopping : a'.stopping = false) :
    a.stopping = false ∧ a'.listening = a.listening ∧ a'.ops.length = a.ops.length ∧
      (a.listening = true → a'.idle = a.idle + if act.succeeds then 0 else 1) := by
  cases act with
  | op i act =>
    obtain ⟨op, hop, hs⟩ := Option.bind_eq_some_iff.mp hs
    obtain ⟨op', hplace, hops, hstop, hlisten, hidle⟩ := opStep_spec hs
    rw [hstop] at hstopping
    refine ⟨hstopping, hlisten, by rw [hops, List.length_set], fun hlistening => ?_⟩
    have hset := idle_of_set hop hops
    rw [if_neg hplace, Nat.add_zero] at hset
    rw [hset, AcceptAct.succeeds]
    cases hsucceeds : act.succeeds with
    | false => simp [(hidle hstopping hlistening).mpr hsucceeds]
    | true =>
      have hne : op'.place ≠ .idle := fun heq => by
        simp [(hidle hstopping hlistening).mp heq] at hsucceeds
      simp [hne]
  | stop =>
    obtain rfl := Option.some.inj hs
    cases hstopping

/-- The acceptor does not go back from stopping. -/
theorem stopping_of_run : ∀ {acts : List AcceptAct} {a : Acceptor},
    machine.run a acts = some a' → a'.stopping = false → a.stopping = false
  | [], a, hrun, hstopping => by
    obtain rfl : a = a' := Option.some.inj hrun
    exact hstopping
  | act :: acts, a, hrun, hstopping => by
    obtain ⟨b, hstep, hrun⟩ := Machine.run_cons.mp hrun
    exact (step_spec hstep (stopping_of_run hrun hstopping)).1

/-- Until `stop`, the idle operations are those that could not be posted again. -/
theorem idle_run : ∀ {acts : List AcceptAct} {a : Acceptor}, a.listening = true →
    machine.run a acts = some a' → a'.stopping = false →
      a'.ops.length = a.ops.length ∧ a'.idle = a.idle + acts.countP fun act => !act.succeeds
  | [], a, _, hrun, _ => by
    obtain rfl : a = a' := Option.some.inj hrun
    exact ⟨rfl, rfl⟩
  | act :: acts, a, hlistening, hrun, hstopping => by
    obtain ⟨b, hstep, hrun⟩ := Machine.run_cons.mp hrun
    obtain ⟨-, hlisten, hlength, hidle⟩ := step_spec hstep (stopping_of_run hrun hstopping)
    obtain ⟨hlength', hidle'⟩ := idle_run (hlisten.trans hlistening) hrun hstopping
    refine ⟨hlength'.trans hlength, ?_⟩
    rw [hidle', hidle hlistening, List.countP_cons]
    cases act.succeeds
    · simp only [Bool.false_eq_true, if_false, Bool.not_false, if_true]
      omega
    · simp

/-- In every run from a successful `start` to before `stop` : all accept requests remain in
circulation exactly if the system calls succeed at every posting. -/
theorem in_circulation_iff {posts : ℕ → Post} {acts : List AcceptAct}
    (hstart : start posts = some a) (hrun : machine.run a acts = some a')
    (hstopping : a'.stopping = false) :
    a'.InCirculation ↔ ∀ act ∈ acts, act.succeeds = true := by
  obtain ⟨-, hlistening, hidle, hlength⟩ := start_spec hstart
  obtain ⟨hlength', hidle'⟩ := idle_run hlistening hrun hstopping
  rw [hidle, Nat.zero_add] at hidle'
  have hfull : a'.ops.length = kBacklogOps := hlength'.trans hlength
  have hnone : (∀ op ∈ a'.ops, op.place ≠ .idle) ↔ a'.idle = 0 := by
    simp [idle, List.countP_eq_zero]
  rw [InCirculation, and_iff_right hfull, hnone, hidle', List.countP_eq_zero]
  simp

/-- One connection is accepted, and its operation is posted again. -/
theorem in_circulation_iff_one_accept : ∃ a a' : Acceptor,
    (start fun i => ⟨some i, true⟩) = some a ∧
      a'.accepted = a.accepted ++ [(some 3, "10.0.0.1:5000")] ∧ (a'.InCirculation ↔
      ∀ act ∈ ([.op 3 (.complete (some "10.0.0.1:5000")), .op 3 .handle,
        .op 3 (.repost ⟨some 64, true⟩)] : List AcceptAct), act.succeeds = true) := by
  have hruns : ((start fun i => ⟨some i, true⟩).bind fun a => machine.run a
      [.op 3 (.complete (some "10.0.0.1:5000")), .op 3 .handle,
        .op 3 (.repost ⟨some 64, true⟩)]).any
      (fun a' => !a'.stopping && a'.accepted = [(some 3, "10.0.0.1:5000")]) = true := by
    decide +kernel
  have hempty : (start fun i => ⟨some i, true⟩).all (fun a => a.accepted = []) = true := by
    decide +kernel
  obtain ⟨a', hbind, htest⟩ := (Option.any_eq_true _ _).mp hruns
  obtain ⟨a, hstart, hrun⟩ := Option.bind_eq_some_iff.mp hbind
  rw [Bool.and_eq_true, Bool.not_eq_true', decide_eq_true_eq] at htest
  have haccepted : a.accepted = [] := by simpa [hstart] using hempty
  refine ⟨a, a', hstart, ?_, in_circulation_iff hstart hrun htest.1⟩
  rw [haccepted]
  exact htest.2

/-- One transient failure of `WSASocket`, and one operation is lost. -/
theorem accept_slot_lost : ¬ ∀ (posts : ℕ → Post) (a a' : Acceptor) (acts : List AcceptAct),
    start posts = some a → machine.run a acts = some a' → a'.stopping = false →
      a'.InCirculation := by
  intro hall
  have hruns : ((start fun i => ⟨some i, true⟩).bind fun a => machine.run a
      [.op 3 (.complete none), .op 3 .handle, .op 3 (.repost ⟨none, true⟩)]).any
      (fun a' => !a'.stopping && a'.ops.any fun op => op.place = .idle) = true := by
    decide +kernel
  obtain ⟨a', hbind, htest⟩ := (Option.any_eq_true _ _).mp hruns
  obtain ⟨a, hstart, hrun⟩ := Option.bind_eq_some_iff.mp hbind
  rw [Bool.and_eq_true, Bool.not_eq_true', List.any_eq_true] at htest
  obtain ⟨hstopping, op, hop, hplace⟩ := htest
  exact (hall _ a a' _ hstart hrun hstopping).2 op hop (by simpa using hplace)

end Acceptor

end EchoServer
