import EchoServer.System.Lifetime

/-!
# Connections that are paused

A connection with `recv_paused_` set is not read until `on_resume` clears the flag, so
something has to bring that about : an entry of a paused list, a service thread that has
swapped the entry out, a Resume notice, or a worker that is still at the connection's frames
(`Instr.resuming`, `Instr.handling`).

Two things break the chain. `resume_receive` gives up when `post_resume` fails, and nobody
tries again (`paused_forgotten_reachable`). And it gives up when `resume_queued_` is set,
which is right before `on_resume` has cleared `recv_paused_` and wrong when a second worker
sets it again before `resume_queued_` is cleared as well (`paused_forgotten_by_two_workers`).
In every run without these two steps a paused connection is attended to
(`paused_attended_of_resumeKept`).
-/

namespace EchoServer

open Threads

namespace Instr

/-- In the loop of `resume_paused`, in `resume_receive` for an entry of its vector. -/
def resuming : Instr → Bool
  | resumeReceive | exchangeResumeQueued | raiseResume | postResume => true
  | _ => false

/-- In `on_receive_done` or `on_resume`, or about to call the latter. -/
def handling : Instr → Bool
  | dispatch .resume | commitWrite _ | clearPaused => true
  | drain | onMessage _ _ | postMessage _ _ | tryEmplace _ _ _ | pauseReceive | park _
  | consume _ | checkClosed => true
  | _ => false

/-- Will see to it that `recv_paused_` is cleared. -/
def minds : Instr → ℕ
  | park _ | dispatch .resume | clearPaused => 1
  | ins => ins.resuming.toNat

/-- Posts a Resume notice, or handles one and has not cleared `recv_paused_`. -/
def willClear : Instr → ℕ
  | raiseResume | postResume | dispatch .resume | clearPaused => 1
  | _ => 0

/-- Will clear `resume_queued_`. -/
def unqueues : Instr → ℕ
  | raiseResume | postResume | dispatch .resume | clearResumeQueued => 1
  | _ => 0

/-- Might pause the connection or resume it. -/
def attends (ins : Instr) : ℕ := (ins.resuming || ins.handling).toNat

/-- About to erase a connection that was closed when the sweeper looked. -/
def reclaims : Instr → ℕ
  | testPending | eraseReclaimed => 1
  | _ => 0

/-- A worker that pauses the connection puts it on a list next, and `adopt` erases it only
after closing it. -/
def inOrder : List Instr → Bool
  | [] | close :: _ => true
  | eraseFailed :: _ => false
  | pauseReceive :: rest => rest.any (0 < minds ·) && inOrder rest
  | _ :: rest => inOrder rest

/-- Instructions in order follow instructions in order. -/
theorem inOrder_append {new rest : List Instr} (hnew : inOrder new = true)
    (hrest : inOrder rest = true) : inOrder (new ++ rest) = true := by
  induction new with
  | nil => exact hrest
  | cons ins new ih =>
    cases ins with
    | close => rfl
    | eraseFailed => cases hnew
    | pauseReceive =>
      obtain ⟨hmind, hnew⟩ := Bool.and_eq_true_iff.mp hnew
      simp only [List.cons_append, inOrder, List.any_append, hmind, Bool.true_or, Bool.true_and]
      exact ih hnew
    | _ => exact ih hnew

theorem inOrder_tail {ins : Instr} {rest : List Instr} (h : inOrder (ins :: rest) = true)
    (hclose : ins ≠ .close) : inOrder rest = true := by
  cases ins with
  | close => exact absurd rfl hclose
  | eraseFailed => cases h
  | pauseReceive => exact (Bool.and_eq_true_iff.mp h).2
  | _ => exact h

end Instr

namespace LinkState

/-- The workers between the two stores of `on_resume` : those that will clear
`resume_queued_`, less those that clear `recv_paused_` before. -/
def halfResumed (s : LinkState) : ℕ :=
  s.threads.weight Instr.unqueues - s.threads.weight Instr.willClear

end LinkState

/-- `post_resume` does not fail on an open connection, and no worker pauses it while another
one is between the two stores of `on_resume`. -/
def resumeKept (s : LinkState) : LinkStep → Bool
  | .exec i c =>
    match s.threads.head i with
    | some .postResume => c || s.link.closed
    | some .pauseReceive => s.link.closed || s.halfResumed = 0
    | _ => true
  | _ => true

/-! ## What one instruction gives on -/

namespace Link

variable {cfg : LinkConfig} {c : Bool} {s s' : Link} {ins : Instr} {new : List Instr}

/-- A connection that is open was open, and was not being closed. -/
theorem exec_open (h : s.exec cfg c ins = some (s', new)) (hopen : s'.closed = false) :
    s.closed = false ∧ ins ≠ .close := by
  cases ins with
  | close =>
    cases h
    cases hopen
  | _ =>
    simp only [exec] at h
    repeat' split at h
    all_goals cases h
    all_goals exact ⟨hopen, by simp⟩

theorem inOrder_handler (op : Completion) : Instr.inOrder (handler op) = true := by
  cases op with
  | receive data ok =>
    simp only [handler]
    split_ifs <;> rfl
  | _ => rfl

theorem inOrder_replicate (n : ℕ) : Instr.inOrder (List.replicate n .resumeReceive) = true := by
  induction n with
  | zero => rfl
  | succ n ih => exact ih

/-- What an instruction leads to is in order, while the connection is open. -/
theorem exec_inOrder (h : s.exec cfg c ins = some (s', new)) (hopen : s'.closed = false) :
    Instr.inOrder new = true := by
  cases ins with
  | dispatch op =>
    simp only [exec] at h
    split at h <;> cases h
    split_ifs
    · exact inOrder_handler op
    · rfl
  | postReceive poster =>
    cases h
    rw [if_neg (by simp [hopen])]
    rfl
  | resumePaused service =>
    cases h
    exact inOrder_replicate _
  | _ =>
    simp only [exec] at h
    repeat' split at h
    all_goals cases h
    all_goals rfl

/-- An open connection stays in the table. -/
theorem exec_keeps (h : s.exec cfg c ins = some (s', new)) (hfail : ins ≠ .eraseFailed)
    (hreclaim : ins.reclaims = 0) (hreg : s.registered = true) : s'.registered = true := by
  cases ins with
  | eraseFailed => exact absurd rfl hfail
  | eraseReclaimed => cases hreclaim
  | _ =>
    simp only [exec] at h
    repeat' split at h
    all_goals cases h
    all_goals first | exact hreg | rfl

@[simp] theorem stackWeight_reclaims_onStartFailed (start : Bool) :
    stackWeight Instr.reclaims (onStartFailed start) = 0 :=
  stackWeight_onStartFailed rfl start

theorem stackWeight_reclaims_handler (op : Completion) :
    stackWeight Instr.reclaims (handler op) = 0 := by
  cases op with
  | receive data ok =>
    simp only [handler]
    split_ifs <;> simp [Instr.reclaims]
  | _ => simp [handler, Instr.reclaims]

/-- An open connection is not reclaimed. -/
theorem exec_reclaims (h : s.exec cfg c ins = some (s', new)) (hopen : s.closed = false)
    (hins : ins.reclaims = 0) : stackWeight Instr.reclaims new = 0 := by
  cases ins with
  | dispatch op =>
    simp only [exec] at h
    split at h <;> cases h
    split_ifs
    · exact stackWeight_reclaims_handler op
    · rfl
  | resumePaused service =>
    cases h
    simp [Instr.reclaims, stackWeight_replicate]
  | testPending | eraseReclaimed => cases hins
  | _ =>
    simp only [exec, hopen, Bool.false_eq_true, ↓reduceIte] at h
    repeat' split at h
    all_goals cases h
    all_goals simp [Instr.reclaims]

/-! ### Tokens -/

/-- The entries of the connection in the paused lists. -/
def listed (s : Link) : ℕ := s.parked .game + s.parked .chat

@[simp] theorem stackWeight_attends_onStartFailed (start : Bool) :
    stackWeight Instr.attends (onStartFailed start) = 0 :=
  stackWeight_onStartFailed rfl start

@[simp] theorem stackWeight_minds_onStartFailed (start : Bool) :
    stackWeight Instr.minds (onStartFailed start) = 0 :=
  stackWeight_onStartFailed rfl start

@[simp] theorem stackWeight_willClear_onStartFailed (start : Bool) :
    stackWeight Instr.willClear (onStartFailed start) = 0 :=
  stackWeight_onStartFailed rfl start

@[simp] theorem stackWeight_unqueues_onStartFailed (start : Bool) :
    stackWeight Instr.unqueues (onStartFailed start) = 0 :=
  stackWeight_onStartFailed rfl start

/-- Nothing attends to a connection before it is registered. -/
theorem exec_attends (h : s.exec cfg c ins = some (s', new)) (hreg : s.registered = false)
    (hnone : s.listed + s.resumes = 0) (hins : ins.attends = 0) :
    s'.listed + s'.resumes + stackWeight Instr.attends new = 0 := by
  have hlisted : s.parked .game = 0 ∧ s.parked .chat = 0 ∧ s.resumes = 0 := by
    simp only [listed] at hnone
    omega
  obtain ⟨hgame, hchat, hresumes⟩ := hlisted
  cases ins with
  | dispatch op =>
    simp only [exec, hreg] at h
    split at h <;> cases h
    simpa using hnone
  | resumePaused service =>
    cases h
    cases service <;> simp [listed, hgame, hchat, hresumes]
  | _ =>
    simp only [exec] at h
    repeat' split at h
    all_goals cases h
    all_goals simp [Instr.attends, Instr.resuming, Instr.handling, listed, hgame, hchat, hresumes] at *

/-- A Resume notice is handled as long as the connection is registered. -/
theorem le_stackWeight_handler {w : Instr → ℕ} (hother : ∀ op ≠ .resume, w (.dispatch op) = 0)
    (hresume : w (.dispatch .resume) ≤ stackWeight w (handler .resume)) (op : Completion)
    (hreg : op = .resume → s.registered = true) :
    w (.dispatch op) ≤ stackWeight w (if s.registered then handler op else []) := by
  by_cases hop : op = .resume
  · rw [if_pos (hreg hop), hop]
    exact hresume
  · rw [hother op hop]
    exact Nat.zero_le _

theorem unqueues_dispatch {op : Completion} (hop : op ≠ .resume) :
    (Instr.dispatch op).unqueues = 0 := by
  cases op <;> first | rfl | exact absurd rfl hop

theorem willClear_dispatch {op : Completion} (hop : op ≠ .resume) :
    (Instr.dispatch op).willClear = 0 := by
  cases op <;> first | rfl | exact absurd rfl hop

theorem minds_dispatch {op : Completion} (hop : op ≠ .resume) : (Instr.dispatch op).minds = 0 := by
  cases op <;> first | rfl | exact absurd rfl hop

/-- Whoever clears `resume_queued_` is known while it is set; `n` are the others. -/
theorem exec_unqueues (h : s.exec cfg c ins = some (s', new))
    (hdispatch : ins = .dispatch .resume → s.registered = true) (n : ℕ)
    (hs : s.resumeQueued = true → 1 ≤ s.resumes + ins.unqueues + n)
    (hs' : s'.resumeQueued = true) :
    1 ≤ s'.resumes + stackWeight Instr.unqueues new + n := by
  cases ins with
  | dispatch op =>
    have hle := le_stackWeight_handler (w := Instr.unqueues) (fun _ => unqueues_dispatch) le_rfl op
      fun hop => hdispatch (by rw [hop])
    simp only [exec] at h
    split at h <;> cases h
    have := hs hs'
    omega
  | resumePaused service =>
    cases h
    simpa [Instr.unqueues, stackWeight_replicate] using hs hs'
  | _ =>
    simp only [exec] at h
    repeat' split at h
    all_goals cases h
    all_goals simp_all [Instr.unqueues]
    all_goals omega

/-- While the connection is paused and its Resume notice is queued, the flag has not been
cleared for that notice yet. -/
theorem exec_willClear (h : s.exec cfg c ins = some (s', new))
    (hdispatch : ins = .dispatch .resume → s.registered = true)
    (hpost : ins = .postResume → c = true) (n : ℕ)
    (hpause : ins = .pauseReceive → s.resumeQueued = true → 1 ≤ s.resumes + n)
    (hs : s.recvPaused = true → s.resumeQueued = true → 1 ≤ s.resumes + ins.willClear + n)
    (hpaused : s'.recvPaused = true) (hqueued : s'.resumeQueued = true) :
    1 ≤ s'.resumes + stackWeight Instr.willClear new + n := by
  cases ins with
  | dispatch op =>
    have hle := le_stackWeight_handler (w := Instr.willClear) (fun _ => willClear_dispatch) le_rfl op
      fun hop => hdispatch (by rw [hop])
    simp only [exec] at h
    split at h <;> cases h
    have := hs hpaused hqueued
    omega
  | resumePaused service =>
    cases h
    simpa [Instr.willClear, stackWeight_replicate] using hs hpaused hqueued
  | _ =>
    simp only [exec] at h
    repeat' split at h
    all_goals cases h
    all_goals simp_all [Instr.willClear]
    all_goals omega

/-- A paused connection is minded. -/
theorem exec_minds (h : s.exec cfg c ins = some (s', new))
    (hdispatch : ins = .dispatch .resume → s.registered = true)
    (hpost : ins = .postResume → c = true) (n : ℕ)
    (hpause : ins = .pauseReceive → 1 ≤ n)
    (hqueued : ins = .exchangeResumeQueued → s.recvPaused = true → s.resumeQueued = true →
      1 ≤ s.resumes + n)
    (hs : s.recvPaused = true → 1 ≤ s.listed + s.resumes + ins.minds + n)
    (hpaused : s'.recvPaused = true) :
    1 ≤ s'.listed + s'.resumes + stackWeight Instr.minds new + n := by
  cases ins with
  | dispatch op =>
    have hle := le_stackWeight_handler (w := Instr.minds) (fun _ => minds_dispatch) le_rfl op
      fun hop => hdispatch (by rw [hop])
    simp only [exec] at h
    split at h <;> cases h
    have := hs hpaused
    omega
  | resumePaused service =>
    cases h
    have := hs hpaused
    cases service <;>
      simp [Instr.minds, Instr.resuming, stackWeight_replicate, listed] at * <;> omega
  | park service =>
    cases h
    have := hs hpaused
    cases service <;> simp [Instr.minds, listed] at * <;> omega
  | exchangeResumeQueued =>
    cases h
    cases hq : s.resumeQueued with
    | true =>
      have := hqueued rfl hpaused hq
      simp only [listed, ↓reduceIte, stackWeight_nil]
      omega
    | false => simpa [Instr.minds, Instr.resuming, listed] using hs hpaused
  | _ =>
    simp only [exec] at h
    repeat' split at h
    all_goals cases h
    all_goals simp_all [Instr.minds, Instr.resuming, listed]
    all_goals omega

end Link

namespace LinkState

/-- What holds of a connection while it is open : nobody is about to erase it, nothing attends
to it before it is registered, and the flags agree with who will clear them. -/
structure Minded (s : LinkState) : Prop where
  inOrder : ∀ t ∈ s.threads, Instr.inOrder t = true
  reclaims : s.threads.weight Instr.reclaims = 0
  known : s.link.registered = true ∨
    s.link.listed + s.link.resumes + s.threads.weight Instr.attends = 0
  queued : s.link.resumeQueued = true → 1 ≤ s.link.resumes + s.threads.weight Instr.unqueues
  uncleared : s.link.recvPaused = true → s.link.resumeQueued = true →
    1 ≤ s.link.resumes + s.threads.weight Instr.willClear
  minded : s.link.recvPaused = true →
    1 ≤ s.link.listed + s.link.resumes + s.threads.weight Instr.minds

variable {s s' : LinkState}

/-- A connection that somebody attends to is in the table. -/
theorem Minded.registered_of_attends (h : Minded s) {i : ℕ} {ins : Instr}
    (hi : s.threads.head i = some ins) (hins : ins.attends = 1) : s.link.registered = true := by
  have hle := le_weight Instr.attends hi
  rcases h.known with hreg | hnone
  · exact hreg
  · omega

/-- A worker that pauses the connection has still to put it on a list. -/
theorem Minded.parks (h : Minded s) {i : ℕ} (hi : s.threads.head i = some .pauseReceive) :
    1 ≤ s.threads.weight Instr.minds := by
  obtain ⟨t, ht, hc⟩ := Option.bind_eq_some_iff.mp hi
  obtain ⟨rest, rfl⟩ := List.head?_eq_some_iff.mp hc
  have hmem := List.mem_of_getElem? ht
  obtain ⟨ins, hins, hmind⟩ := List.any_eq_true.mp (Bool.and_eq_true_iff.mp (h.inOrder _ hmem)).1
  exact (of_decide_eq_true hmind).trans_le
    (le_weight_of_mem Instr.minds hmem (List.mem_cons_of_mem _ hins))

/-- Whoever will clear the flag minds the connection. -/
theorem willClear_le_minds (ins : Instr) : ins.willClear ≤ ins.minds := by
  cases ins with
  | dispatch op => cases op <;> exact Nat.le_refl _
  | _ => simp [Instr.willClear, Instr.minds, Instr.resuming]

section

variable {cfg : LinkConfig} {i : ℕ} {c : Bool} {ins : Instr} {link : Link} {new : List Instr}

/-- A connection in the table stays there, and nothing attends to one that is not. -/
theorem Minded.known_exec (h : Minded s) (hi : s.threads.head i = some ins)
    (hex : s.link.exec cfg c ins = some (link, new)) (hreclaim : ins.reclaims = 0) :
    link.registered = true ∨
      link.listed + link.resumes + (s.threads.exec i new).weight Instr.attends = 0 := by
  cases hreg : s.link.registered with
  | true =>
    have hfail : ins ≠ .eraseFailed := by
      rintro rfl
      obtain ⟨t, ht, hc⟩ := Option.bind_eq_some_iff.mp hi
      obtain ⟨rest, rfl⟩ := List.head?_eq_some_iff.mp hc
      cases h.inOrder _ (List.mem_of_getElem? ht)
    exact Or.inl (Link.exec_keeps hex hfail hreclaim hreg)
  | false =>
    have hnone := h.known.resolve_left (by simp [hreg])
    have hle := le_weight Instr.attends hi
    have hw := weight_exec Instr.attends hi new
    have := Link.exec_attends hex hreg (by omega) (by omega)
    exact Or.inr (by omega)

/-- Where both flags are up, a notice or a worker will take them down, unless a worker pauses the
connection while another is about to take down its flag. -/
theorem Minded.uncleared_exec (h : Minded s) (hi : s.threads.head i = some ins)
    (hex : s.link.exec cfg c ins = some (link, new))
    (hdispatch : ins = .dispatch .resume → s.link.registered = true)
    (hpost : ins = .postResume → c = true)
    (hhalf : ins = .pauseReceive →
      s.threads.weight Instr.unqueues ≤ s.threads.weight Instr.willClear)
    (hp : link.recvPaused = true) (hq : link.resumeQueued = true) :
    1 ≤ link.resumes + (s.threads.exec i new).weight Instr.willClear := by
  have hle := le_weight Instr.willClear hi
  have hw := weight_exec Instr.willClear hi new
  have hnew := Link.exec_willClear hex hdispatch hpost
    (s.threads.weight Instr.willClear - ins.willClear)
    (fun hins hq => by
      have := hhalf hins
      have := h.queued hq
      subst hins
      simp only [Instr.willClear]
      omega)
    (fun hp hq => by have := h.uncleared hp hq; omega) hp hq
  omega

/-- A connection that is paused is on a list, has a notice on its way, or a worker that attends to
it. -/
theorem Minded.minded_exec (h : Minded s) (hi : s.threads.head i = some ins)
    (hex : s.link.exec cfg c ins = some (link, new))
    (hdispatch : ins = .dispatch .resume → s.link.registered = true)
    (hpost : ins = .postResume → c = true) (hp : link.recvPaused = true) :
    1 ≤ link.listed + link.resumes + (s.threads.exec i new).weight Instr.minds := by
  have hle := le_weight Instr.minds hi
  have hw := weight_exec Instr.minds hi new
  have hnew := Link.exec_minds hex hdispatch hpost
    (s.threads.weight Instr.minds - ins.minds)
    (fun hins => by
      subst hins
      have := h.parks hi
      simp only [Instr.minds, Instr.resuming, Bool.toNat_false]
      omega)
    (fun hins hp hq => by
      subst hins
      have hunc := h.uncleared hp hq
      have hpop := weight_exec Instr.minds hi []
      have hpop' := weight_exec Instr.willClear hi []
      have hmono := weight_mono willClear_le_minds (s.threads.exec i [])
      simp only [stackWeight_nil, Instr.willClear] at hpop hpop'
      omega)
    (fun hp => by have := h.minded hp; omega) hp
  omega

end

/-- An instruction keeps the open connection minded, if each resume is kept. -/
theorem Minded.execute {cfg : LinkConfig} {i : ℕ} {c : Bool} (h : Minded s)
    (hok : resumeKept s (.exec i c) = true) (hstep : s.execute cfg i c = some s')
    (hopen' : s'.link.closed = false) : Minded s' := by
  obtain ⟨ins, link, new, hi, hex, rfl⟩ := execute_eq_some hstep
  obtain ⟨hopen, hclose⟩ := Link.exec_open hex hopen'
  have hreclaim : ins.reclaims = 0 := by
    have := le_weight Instr.reclaims hi
    have := h.reclaims
    omega
  have hdispatch : ins = .dispatch .resume → s.link.registered = true := by
    rintro rfl
    exact h.registered_of_attends hi rfl
  have hpost : ins = .postResume → c = true := by
    rintro rfl
    simpa [resumeKept, hi, hopen] using hok
  have hhalf : ins = .pauseReceive →
      s.threads.weight Instr.unqueues ≤ s.threads.weight Instr.willClear := by
    rintro rfl
    have : s.halfResumed = 0 := by simpa [resumeKept, hi, hopen] using hok
    simp only [halfResumed] at this
    omega
  refine ⟨?_, ?_, h.known_exec hi hex hreclaim, fun hq => ?_,
    h.uncleared_exec hi hex hdispatch hpost hhalf, h.minded_exec hi hex hdispatch hpost⟩
  · exact forall_exec hi h.inOrder fun rest hrest =>
      Instr.inOrder_append (Link.exec_inOrder hex hopen') (Instr.inOrder_tail hrest hclose)
  · have hw := weight_exec Instr.reclaims hi new
    have := Link.exec_reclaims hex hopen hreclaim
    have := h.reclaims
    dsimp only
    omega
  · have hle := le_weight Instr.unqueues hi
    have hw := weight_exec Instr.unqueues hi new
    have hnew := Link.exec_unqueues hex hdispatch (s.threads.weight Instr.unqueues - ins.unqueues)
      (fun hq => by have := h.queued hq; omega) hq
    dsimp only
    omega

theorem minded_fresh : Minded fresh :=
  ⟨nofun, rfl, Or.inr rfl, nofun, nofun, nofun⟩

/-- A thread that starts with other work. -/
theorem Minded.spawn (h : Minded s) {stack : List Instr} (horder : Instr.inOrder stack = true)
    (hreclaim : stackWeight Instr.reclaims stack = 0)
    (hattend : stackWeight Instr.attends stack = 0) : Minded (s.spawn stack) where
  inOrder := fun t ht => by
    rcases List.mem_append.mp ht with ht | ht
    · exact h.inOrder t ht
    · rwa [List.mem_singleton.mp ht]
  reclaims := by simpa [LinkState.spawn, hreclaim] using h.reclaims
  known := by simpa [LinkState.spawn, hattend] using h.known
  queued := fun hq => by
    have := h.queued hq
    simp only [LinkState.spawn, weight_spawn]
    omega
  uncleared := fun hp hq => by
    have := h.uncleared hp hq
    simp only [LinkState.spawn, weight_spawn]
    omega
  minded := fun hp => by
    have := h.minded hp
    simp only [LinkState.spawn, weight_spawn]
    omega

/-- A worker takes a completion. -/
theorem Minded.complete (h : Minded s) {op : Completion} {link : Link}
    (htake : s.link.take op = some link) : Minded ({ s with link }.spawn [.dispatch op]) := by
  cases op with
  | resume =>
    simp only [Link.take] at htake
    split_ifs at htake with hpos
    obtain rfl := Option.some.inj htake
    have hreg : s.link.registered = true := h.known.resolve_right (by omega)
    refine ⟨fun t ht => ?_, ?_, Or.inl hreg, fun hq => ?_, fun hp hq => ?_, fun hp => ?_⟩
    · rcases List.mem_append.mp ht with ht | ht
      · exact h.inOrder t ht
      · rw [List.mem_singleton.mp ht]
        rfl
    · simpa [LinkState.spawn, Instr.reclaims] using h.reclaims
    all_goals
      simp [LinkState.spawn, Instr.unqueues, Instr.willClear, Instr.minds]
      try omega
  | receive data ok =>
    simp only [Link.take] at htake
    split_ifs at htake
    obtain rfl := Option.some.inj htake
    have hs : Minded { s with link := { s.link with recvs := s.link.recvs - 1 } } := { h with }
    exact hs.spawn rfl rfl rfl
  | send transferred ok =>
    simp only [Link.take] at htake
    split_ifs at htake
    obtain rfl := Option.some.inj htake
    have hs : Minded { s with link := { s.link with sends := s.link.sends - 1 } } := { h with }
    exact hs.spawn rfl rfl rfl
  | flush =>
    simp only [Link.take] at htake
    split_ifs at htake
    obtain rfl := Option.some.inj htake
    have hs : Minded { s with link := { s.link with flushes := s.link.flushes - 1 } } := { h with }
    exact hs.spawn rfl rfl rfl

theorem take_closed {s link : Link} {op : Completion} (h : s.take op = some link) :
    link.closed = s.closed := by
  cases op <;> simp only [Link.take] at h <;> split_ifs at h <;> cases h <;> rfl

/-- An open connection is minded in every run that keeps its resumes. -/
theorem minded_of_reachesWhen {cfg : LinkConfig}
    (h : (connectionThreads cfg).ReachesWhen (resumeKept · ·) s) :
    s.link.closed = false → Minded s := by
  refine Machine.ReachesWhen.invariant (I := fun s => s.link.closed = false → Minded s) ?_ ?_ h
  · rintro s rfl -
    exact minded_fresh
  · intro s a s' hs hok hstep hopen'
    cases a with
    | exec i c =>
      obtain ⟨ins, link, new, -, hex, rfl⟩ := execute_eq_some hstep
      exact (hs (Link.exec_open hex hopen').1).execute hok hstep hopen'
    | adopt =>
      simp only [connectionThreads] at hstep
      split_ifs at hstep
      obtain rfl := Option.some.inj hstep
      have hadopted : Minded { s with adopted := true } := { hs hopen' with }
      exact hadopted.spawn rfl rfl rfl
    | complete op =>
      obtain ⟨link, htake, rfl⟩ := Option.map_eq_some_iff.mp hstep
      exact (hs ((take_closed htake).symm.trans hopen')).complete htake
    | send f =>
      simp only [connectionThreads] at hstep
      split_ifs at hstep
      obtain rfl := Option.some.inj hstep
      exact (hs hopen').spawn rfl rfl rfl
    | close =>
      simp only [connectionThreads] at hstep
      split_ifs at hstep
      obtain rfl := Option.some.inj hstep
      exact (hs hopen').spawn rfl rfl rfl
    | sweep =>
      obtain rfl := Option.some.inj hstep
      exact (hs hopen').spawn rfl rfl rfl
    | enqueue service =>
      obtain rfl := Option.some.inj hstep
      exact { hs hopen' with }
    | serve service =>
      obtain rfl := Option.some.inj hstep
      exact (hs hopen').spawn rfl rfl rfl

end LinkState

/-- Whether something will bring about that a paused connection is read again : an entry of a
paused list, an entry of the vector of `resume_paused`, a Resume notice, or a worker inside
`on_receive_done` or `on_resume`. -/
def LinkState.attended (s : LinkState) : Bool :=
  0 < s.link.parked .game || 0 < s.link.parked .chat || 0 < s.link.resumes ||
    s.threads.any fun t => t.any fun ins => ins.resuming || ins.handling

/-- In every run in which `post_resume` does not fail on the open connection, and no worker
pauses it while another one is between the two stores of `on_resume` : a paused connection that
is open is attended to. -/
theorem paused_attended_of_resumeKept {cfg : LinkConfig} {s : LinkState}
    (h : (connectionThreads cfg).ReachesWhen (resumeKept · ·) s)
    (hopen : s.link.closed = false) (hpaused : s.link.recvPaused = true) : s.attended = true := by
  have hminded := (LinkState.minded_of_reachesWhen h hopen).minded hpaused
  rw [Link.listed] at hminded
  unfold LinkState.attended
  by_cases hpos : 0 < s.threads.weight Instr.minds
  · obtain ⟨t, ht, ins, hins, hmind⟩ := exists_of_weight_pos Instr.minds hpos
    have hattend : (ins.resuming || ins.handling) = true := by
      cases ins with
      | dispatch op => cases op <;> simp [Instr.minds, Instr.resuming, Instr.handling] at *
      | _ => simp [Instr.minds, Instr.resuming, Instr.handling] at *
    have hany : (s.threads.any fun t => t.any fun ins => ins.resuming || ins.handling) = true :=
      List.any_eq_true.mpr ⟨t, ht, List.any_eq_true.mpr ⟨ins, hins, hattend⟩⟩
    simp [hany]
  · have : 0 < s.link.parked .game ∨ 0 < s.link.parked .chat ∨ 0 < s.link.resumes := by omega
    rcases this with h | h | h <;> simp [h]

/-- The connection is paused and open, and nothing will ever look at it. -/
def LinkState.forgotten (s : LinkState) : Bool :=
  s.link.recvPaused && !s.link.closed && !s.attended

/-- The refused worker ends its handler, and the service resumes the connection. -/
theorem paused_attended_of_resumeKept_resumed :
    ∃ s : LinkState, 0 < s.link.resumes ∧ s.attended = true := by
  obtain ⟨s, hs, hp⟩ := (connectionThreads pausingConfig).exists_reachesWhen
    (fun s a => resumeKept s a = true) .fresh
    (refusedRun ++ steps 1 3 ++ .serve .game :: steps 2 6)
    (fun s => 0 < s.link.resumes ∧ s.link.closed = false ∧ s.link.recvPaused = true) rfl
    (by decide +kernel)
  obtain ⟨hresume, hopen, hpaused⟩ := of_decide_eq_true hp
  exact ⟨s, hresume, paused_attended_of_resumeKept hs hopen hpaused⟩

/-- `post_resume` fails, and the service does not try again. -/
theorem paused_forgotten_reachable :
    ¬ ∀ s, (connectionThreads pausingConfig).Reaches s → s.link.closed = false →
      s.link.recvPaused = true → s.attended = true := by
  intro h
  obtain ⟨s, hs, hp⟩ := (connectionThreads pausingConfig).exists_reachesWhen
    (fun _ _ => True) .fresh
    (refusedRun ++ steps 1 3 ++ .serve .game :: steps 2 5 ++ .exec 2 false :: steps 2 2)
    LinkState.forgotten rfl (by decide +kernel)
  simp only [LinkState.forgotten, Bool.and_eq_true, Bool.not_eq_true'] at hp
  obtain ⟨⟨hpaused, hopen⟩, hnone⟩ := hp
  have := h s hs hopen hpaused
  rw [hnone] at this
  cases this

/-- Two receives are out. The first brings a frame that is refused, and the connection is
resumed up to the store that clears `recv_paused_`; the second brings another one. -/
def pausedAgainRun : List LinkStep :=
  let frame := .complete (.receive (Frame.mk kEchoReq [0, 0]).encode true)
  refusedRun ++ resumedRun ++ steps 1 6 ++ List.replicate 63 (.enqueue .game) ++
    frame :: steps 4 11 ++ .serve .game :: steps 5 6 ++ .complete .resume :: steps 6 2 ++
    List.replicate 64 (.enqueue .game) ++ frame :: steps 7 8

/-- No post fails : the service finds `resume_queued_` set and leaves the connection to the
worker that has already cleared `recv_paused_`. -/
theorem paused_forgotten_by_two_workers :
    ∃ s, (connectionThreads pausingConfig).Reaches s ∧ s.forgotten = true :=
  (connectionThreads pausingConfig).exists_reachesWhen (fun _ _ => True) .fresh
    (pausedAgainRun ++ .serve .game :: steps 8 4 ++ steps 6 17 ++ steps 7 3)
    LinkState.forgotten rfl (by decide +kernel)

end EchoServer
