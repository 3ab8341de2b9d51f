import EchoServer.Lib.Machine
import Mathlib.Data.List.ModifyLast

/-!
# The double-buffer queue

`core/swap_queue.h` : any number of producers put items into one of two buffers. The one consumer
takes that buffer, clears the other one and leaves it to the producers. It uses the buffer it has
taken without the mutex, until it swaps again.

The operations are functions of the queue. The calls of them run side by side step by step : taking
the mutex, each access to a buffer, letting the mutex go (`SwapRun`). A call that runs alone comes
to the function (`run_call`, `run_swap`). What has been accepted, returned and seen is recorded
beside the run (`SwapRecord`).

The buffer that is cleared is the one that was taken before : while the consumer uses a buffer, the
other one is being written (`SwapRun.Inv.side`). So nothing is lost or repeated, and nothing changes
under the hands of the consumer (`lossless`).
-/

namespace EchoServer

/-- Two buffers, one of them being written. -/
structure SwapQueue (τ : Type*) where
  buffers : Bool → List τ
  write : Bool

namespace SwapQueue

variable {τ : Type*}

/-- Nothing has been put in. -/
def empty : SwapQueue τ := ⟨fun _ => [], false⟩

/-- An item is put in at the end. -/
def push (q : SwapQueue τ) (item : τ) : SwapQueue τ :=
  { q with buffers := Function.update q.buffers q.write (q.buffers q.write ++ [item]) }

/-- The filled side, and the queue with the other side, cleared, being written. -/
def swap (q : SwapQueue τ) : List τ × SwapQueue τ :=
  (q.buffers q.write, ⟨Function.update q.buffers (!q.write) [], !q.write⟩)

/-- What has not been swapped out. -/
def waiting (q : SwapQueue τ) : List τ := q.buffers q.write

/-- `fill` of the slot at the end. -/
def fillLast (q : SwapQueue τ) (fill : τ → τ) : SwapQueue τ :=
  { q with buffers := Function.update q.buffers q.write ((q.buffers q.write).modifyLast fill) }

/-- A slot is put in at the end and filled. -/
def emplace [Inhabited τ] (q : SwapQueue τ) (fill : τ → τ) : SwapQueue τ :=
  (q.push default).fillLast fill

/-- Whether the item was accepted, and the queue. -/
def tryEmplace [Inhabited τ] (q : SwapQueue τ) (cap : ℕ) (fill : τ → τ) : Bool × SwapQueue τ :=
  if cap ≤ q.waiting.length then (false, q) else (true, q.emplace fill)

@[simp] theorem waiting_empty : (empty : SwapQueue τ).waiting = [] :=
  rfl

@[simp] theorem waiting_push (q : SwapQueue τ) (item : τ) :
    (q.push item).waiting = q.waiting ++ [item] := by
  simp [waiting, push]

/-- Everything that waited is handed out, and nothing waits. -/
@[simp] theorem waiting_swap (q : SwapQueue τ) :
    q.swap.1 = q.waiting ∧ q.swap.2.waiting = [] := by
  simp [waiting, swap]

@[simp] theorem waiting_fillLast (q : SwapQueue τ) (fill : τ → τ) :
    (q.fillLast fill).waiting = q.waiting.modifyLast fill := by
  simp [waiting, fillLast]

end SwapQueue

/-! ## Calls -/

/-- What a producer calls. -/
inductive QueueCall (τ : Type*) where
  | push (item : τ)
  | emplace (fill : τ → τ)
  | tryEmplace (cap : ℕ) (fill : τ → τ)

/-- Where a call of a producer is, the step that it takes next. -/
inductive CallPlace where
  | lock
  -- `push_back` of the item
  | append
  -- the comparison with `cap`
  | test
  -- `emplace_back` of a slot
  | construct
  | fill
  | unlock (accepted : Bool)
  | done (accepted : Bool)
  deriving DecidableEq

/-- Where the consumer is. -/
inductive ConsumerPlace where
  /-- Outside of `swap`, with the buffer that it returned last. -/
  | uses (batch : Option Bool)
  | lock
  | flip
  | clear (filled : Bool)
  | unlock (filled : Bool)
  deriving DecidableEq

/-- Who has the mutex. -/
inductive Holder where
  | consumer
  | caller (n : ℕ)
  deriving DecidableEq

/-- A call, and where it is. -/
structure QueueCaller (τ : Type*) where
  call : QueueCall τ
  place : CallPlace

/-- The queue and the calls of it that have begun. -/
structure SwapRun (τ : Type*) where
  queue : SwapQueue τ
  holder : Option Holder
  place : ConsumerPlace
  callers : List (QueueCaller τ)

/-- What a thread does next. -/
inductive SwapAct (τ : Type*) where
  /-- A producer begins a call. -/
  | call (call : QueueCall τ)
  /-- The call with number `n` goes on. -/
  | caller (n : ℕ)
  /-- The consumer changes the batch that it has. -/
  | use (f : List τ → List τ)
  /-- The consumer begins a `swap`. -/
  | swap
  /-- The `swap` goes on. -/
  | consumer

/-- The call has the mutex. -/
def CallPlace.holds : CallPlace → Bool
  | .lock | .done _ => false
  | _ => true

/-- The consumer has the mutex. -/
def ConsumerPlace.holds : ConsumerPlace → Bool
  | .uses _ | .lock => false
  | _ => true

namespace QueueCall

variable {τ : Type*}

/-- The first step under the mutex. -/
def entry : QueueCall τ → CallPlace
  | push _ => .append
  | emplace _ => .construct
  | tryEmplace .. => .test

@[simp] theorem holds_entry (call : QueueCall τ) : call.entry.holds = true := by
  cases call <;> rfl

/-- What becomes of a slot. -/
def fill : QueueCall τ → τ → τ
  | push item => fun _ => item
  | emplace fill | tryEmplace _ fill => fill

/-- The item of the call. -/
def item [Inhabited τ] (call : QueueCall τ) : τ := call.fill default

/-- The call refuses when the write buffer has `n` items. -/
def full (n : ℕ) : QueueCall τ → Bool
  | tryEmplace cap _ => cap ≤ n
  | _ => false

/-- The whole call. -/
def apply [Inhabited τ] (q : SwapQueue τ) : QueueCall τ → Bool × SwapQueue τ
  | push item => (true, q.push item)
  | emplace fill => (true, q.emplace fill)
  | tryEmplace cap fill => q.tryEmplace cap fill

end QueueCall

namespace SwapRun

variable {τ : Type*}

/-- The call with number `n` goes on to another place. -/
def move (s : SwapRun τ) (n : ℕ) (c : QueueCaller τ) : SwapRun τ :=
  { s with callers := s.callers.set n c }

/-- One step of the call with number `n`. -/
def callerStep [Inhabited τ] (s : SwapRun τ) (n : ℕ) (c : QueueCaller τ) : Option (SwapRun τ) :=
  match c.place with
  | .lock =>
    if s.holder = none then
      some ({ s with holder := some (.caller n) }.move n { c with place := c.call.entry })
    else none
  | .append =>
    some ({ s with queue := s.queue.push c.call.item }.move n { c with place := .unlock true })
  | .test =>
    some (s.move n { c with
      place := if c.call.full s.queue.waiting.length then .unlock false else .construct })
  | .construct => some ({ s with queue := s.queue.push default }.move n { c with place := .fill })
  | .fill =>
    some ({ s with queue := s.queue.fillLast c.call.fill }.move n { c with place := .unlock true })
  | .unlock accepted =>
    some ({ s with holder := none }.move n { c with place := .done accepted })
  | .done _ => none

/-- One step of `swap`. -/
def swapStep (s : SwapRun τ) : Option (SwapRun τ) :=
  match s.place with
  | .uses _ => none
  | .lock =>
    if s.holder = none then some { s with holder := some .consumer, place := .flip } else none
  | .flip =>
    some { s with queue := { s.queue with write := !s.queue.write }, place := .clear s.queue.write }
  | .clear filled =>
    some { s with
      queue := { s.queue with buffers := Function.update s.queue.buffers s.queue.write [] }
      place := .unlock filled }
  | .unlock filled => some { s with holder := none, place := .uses (some filled) }

/-- One access of a thread to the queue. -/
def step [Inhabited τ] (s : SwapRun τ) : SwapAct τ → Option (SwapRun τ)
  | .call call => some { s with callers := s.callers ++ [⟨call, .lock⟩] }
  | .caller n => s.callers[n]?.bind (s.callerStep n)
  | .use f =>
    match s.place with
    | .uses (some b) =>
      some { s with queue := { s.queue with
        buffers := Function.update s.queue.buffers b (f (s.queue.buffers b)) } }
    | _ => none
  | .swap =>
    match s.place with
    | .uses _ => some { s with place := .lock }
    | _ => none
  | .consumer => s.swapStep

/-- Nobody has called, and the consumer has no batch. -/
def initial : SwapRun τ := ⟨.empty, none, .uses none, []⟩

/-- The queue with its producers and its consumer. -/
def machine (τ : Type*) [Inhabited τ] : Machine (SwapRun τ) (SwapAct τ) where
  init s := s = initial
  step := step

end SwapRun

/-- What a run has come to. -/
structure SwapRecord (τ : Type*) where
  /-- The items in the order in which they were put into a buffer, each with its call. -/
  accepted : List (ℕ × τ)
  /-- What each `swap` has returned. -/
  returned : List (List τ)
  /-- The length of the write buffer when a call got the mutex. -/
  lengths : ℕ → ℕ
  /-- The batch that the consumer has, as it got it and has itself changed it. -/
  held : List τ

namespace SwapRecord

variable {τ : Type*}

/-- Nothing has been recorded. -/
def initial : SwapRecord τ := ⟨[], [], fun _ => 0, []⟩

/-- What a call has put into a buffer. -/
def putBy (r : SwapRecord τ) (n : ℕ) : List (ℕ × τ) := r.accepted.filter fun p => p.1 = n

theorem putBy_append_self (r : SwapRecord τ) (n : ℕ) (item : τ) :
    putBy { r with accepted := r.accepted ++ [(n, item)] } n = r.putBy n ++ [(n, item)] := by
  simp [putBy]

theorem putBy_append_of_ne (r : SwapRecord τ) {m n : ℕ} (h : m ≠ n) (item : τ) :
    putBy { r with accepted := r.accepted ++ [(n, item)] } m = r.putBy m := by
  simp [putBy, Ne.symm h]

/-- What is recorded when a call goes on. -/
def noteCaller [Inhabited τ] (s : SwapRun τ) (n : ℕ) (c : QueueCaller τ) (r : SwapRecord τ) :
    SwapRecord τ :=
  match c.place with
  | .lock => { r with lengths := Function.update r.lengths n s.queue.waiting.length }
  | .append => { r with accepted := r.accepted ++ [(n, c.call.item)] }
  -- the item is what the slot becomes
  | .fill =>
    { r with accepted := r.accepted ++
        (s.queue.waiting.getLast?.map fun slot => (n, c.call.fill slot)).toList }
  | _ => r

/-- What is recorded in a step. -/
def note [Inhabited τ] (s : SwapRun τ) (a : SwapAct τ) (r : SwapRecord τ) : SwapRecord τ :=
  match a with
  | .caller n =>
    match s.callers[n]? with
    | some c => noteCaller s n c r
    | none => r
  | .consumer =>
    match s.place with
    | .unlock filled =>
      { r with
        returned := r.returned ++ [s.queue.buffers filled]
        held := s.queue.buffers filled }
    | _ => r
  | .use f => { r with held := f r.held }
  | _ => r

end SwapRecord

/-- The runs of the queue with their record. -/
def swapRuns (τ : Type*) [Inhabited τ] : Machine (SwapRun τ × SwapRecord τ) (SwapAct τ) :=
  (SwapRun.machine τ).recording .initial SwapRecord.note

/-! ## A call alone -/

namespace SwapRun

variable {τ : Type*} {s s' : SwapRun τ} {n k : ℕ} {c c' : QueueCaller τ}

/-- A caller that moves leaves the others where they are. -/
theorem getElem?_move (hc : s.callers[n]? = some c) (c' : QueueCaller τ) (m : ℕ) :
    (s.move n c').callers[m]? = if m = n then some c' else s.callers[m]? := by
  have hlt : n < s.callers.length := (List.getElem?_eq_some_iff.mp hc).1
  rw [move, List.getElem?_set]
  by_cases h : n = m
  · subst h
    simp [hlt]
  · rw [if_neg h, if_neg (Ne.symm h)]

variable [Inhabited τ]

/-- The steps of one caller, one after the other. -/
theorem run_caller (hc : s.callers[n]? = some c) (hstep : s.callerStep n c = some s') :
    (machine τ).run s (List.replicate (k + 1) (.caller n)) =
      (machine τ).run s' (List.replicate k (.caller n)) := by
  have hstep : s.step (.caller n) = some s' := by
    rw [step, hc]
    exact hstep
  rw [List.replicate_succ, Machine.run, Machine.runWhen, if_pos trivial]
  exact congrArg (Option.bind · _) hstep

/-- A call that nothing comes between is the function that it calls. -/
theorem run_call {call : QueueCall τ} (hfree : s.holder = none)
    (hc : s.callers[n]? = some ⟨call, .lock⟩) :
    ∃ k, (machine τ).run s (List.replicate k (.caller n)) =
      some ({ s with queue := (call.apply s.queue).2 }.move n
        ⟨call, .done (call.apply s.queue).1⟩) := by
  obtain ⟨queue, holder, place, callers⟩ := s
  obtain rfl := hfree
  have hself : ∀ (t : SwapRun τ) (c : QueueCaller τ), t.callers.length = callers.length →
      (t.move n c).callers[n]? = some c := by
    intro t c hlen
    have hlt : n < callers.length := (List.getElem?_eq_some_iff.mp hc).1
    simp [move, hlen, hlt]
  cases call with
  | push item =>
    refine ⟨3, (run_caller hc rfl).trans ?_⟩
    refine (run_caller (hself _ _ (by simp)) rfl).trans ?_
    refine (run_caller (hself _ _ (by simp [move])) rfl).trans ?_
    simp [Machine.run, Machine.runWhen, move, QueueCall.apply, QueueCall.item, QueueCall.fill]
  | emplace fill =>
    refine ⟨4, (run_caller hc rfl).trans ?_⟩
    refine (run_caller (hself _ _ (by simp)) rfl).trans ?_
    refine (run_caller (hself _ _ (by simp [move])) rfl).trans ?_
    refine (run_caller (hself _ _ (by simp [move])) rfl).trans ?_
    simp [Machine.run, Machine.runWhen, move, QueueCall.apply, QueueCall.fill, SwapQueue.emplace]
  | tryEmplace cap fill =>
    have htest : ∀ t : SwapRun τ, t.queue = queue →
        t.callerStep n ⟨.tryEmplace cap fill, .test⟩ = some (t.move n ⟨.tryEmplace cap fill,
          if cap ≤ queue.waiting.length then .unlock false else .construct⟩) := by
      rintro t rfl
      simp [callerStep, QueueCall.full]
    by_cases hfull : cap ≤ queue.waiting.length
    · simp only [hfull, if_true] at htest
      refine ⟨3, (run_caller hc rfl).trans ?_⟩
      refine (run_caller (hself _ _ (by simp)) (htest _ rfl)).trans ?_
      refine (run_caller (hself _ _ (by simp [move])) rfl).trans ?_
      simp [Machine.run, Machine.runWhen, move, QueueCall.apply, SwapQueue.tryEmplace, hfull]
    · simp only [hfull, if_false] at htest
      refine ⟨5, (run_caller hc rfl).trans ?_⟩
      refine (run_caller (hself _ _ (by simp)) (htest _ rfl)).trans ?_
      refine (run_caller (hself _ _ (by simp [move])) rfl).trans ?_
      refine (run_caller (hself _ _ (by simp [move])) rfl).trans ?_
      refine (run_caller (hself _ _ (by simp [move])) rfl).trans ?_
      simp [Machine.run, Machine.runWhen, move, QueueCall.apply, QueueCall.fill,
        SwapQueue.tryEmplace, SwapQueue.emplace, hfull]

/-- A `swap` that nothing comes between. -/
theorem run_swap {batch : Option Bool} (hfree : s.holder = none) (hplace : s.place = .uses batch) :
    ∃ b, (machine τ).run s (.swap :: List.replicate 4 .consumer) =
      some { s with queue := s.queue.swap.2, place := .uses (some b) } ∧
        s.queue.swap.2.buffers b = s.queue.swap.1 := by
  obtain ⟨queue, holder, place, callers⟩ := s
  obtain rfl := hfree
  obtain rfl := hplace
  refine ⟨queue.write, rfl, ?_⟩
  simp [SwapQueue.swap]

end SwapRun

/-! ## What is kept -/

/-- The buffer that was filled, once the other one is being written. -/
def ConsumerPlace.filled : ConsumerPlace → Option Bool
  | .uses batch => batch
  | .clear filled | .unlock filled => some filled
  | _ => none

/-- What is known of a call from where it is. -/
def QueueCaller.Ok {τ : Type*} [Inhabited τ] (c : QueueCaller τ) (n : ℕ) (waiting : List τ)
    (r : SwapRecord τ) : Prop :=
  match c.place with
  | .lock => r.putBy n = []
  | .test => r.putBy n = [] ∧ r.lengths n = waiting.length
  | .append | .construct => r.putBy n = [] ∧ c.call.full (r.lengths n) = false
  | .fill =>
    r.putBy n = [] ∧ c.call.full (r.lengths n) = false ∧
      ∃ items, waiting = items ++ [default] ∧
        r.returned.flatten ++ items = r.accepted.map Prod.snd
  | .unlock accepted | .done accepted =>
    r.putBy n = (if accepted then [(n, c.call.item)] else []) ∧
      accepted = !c.call.full (r.lengths n)

/-- A call without the mutex does not depend on the buffers. -/
theorem QueueCaller.Ok.frame {τ : Type*} [Inhabited τ] {c : QueueCaller τ} {n : ℕ}
    {waiting waiting' : List τ} {r r' : SwapRecord τ} (h : c.Ok n waiting r)
    (hidle : c.place.holds = false) (hput : r'.putBy n = r.putBy n)
    (hlen : r'.lengths n = r.lengths n) : c.Ok n waiting' r' := by
  obtain ⟨call, place⟩ := c
  cases place with
  | lock => exact hput.trans h
  | done accepted => exact ⟨hput.trans h.1, by rw [hlen, h.2]⟩
  | _ => cases hidle

namespace SwapRun

variable {τ : Type*} {s s' : SwapRun τ} {r r' : SwapRecord τ} {n : ℕ} {c c' : QueueCaller τ}

/-- What has been accepted and not yet returned, when no slot waits to be filled. -/
def kept (s : SwapRun τ) : List τ :=
  match s.place with
  | .clear filled | .unlock filled => s.queue.buffers filled
  | _ => s.queue.waiting

/-- While the consumer has no lock, what is kept is what waits. -/
theorem kept_of_not_holds (h : s.place.holds = false) : s.kept = s.queue.waiting := by
  unfold kept
  split
  · rename_i filled heq
    simp [heq, ConsumerPlace.holds] at h
  · rename_i filled heq
    simp [heq, ConsumerPlace.holds] at h
  · rfl

variable [Inhabited τ]

/-- What holds between two accesses. -/
structure Inv (s : SwapRun τ) (r : SwapRecord τ) : Prop where
  caller_holds : ∀ (n : ℕ) (c : QueueCaller τ), s.callers[n]? = some c →
    c.place.holds = true → s.holder = some (.caller n)
  consumer_holds : s.place.holds = true → s.holder = some .consumer
  /-- The buffer that the consumer has taken is not the one that is written. -/
  side : ∀ b, s.place.filled = some b → b = !s.queue.write
  held : ∀ b, s.place = .uses (some b) → s.queue.buffers b = r.held
  cleared : ∀ b, s.place = .unlock b → s.queue.waiting = []
  conserved : (∀ (n : ℕ) (c : QueueCaller τ), s.callers[n]? = some c → c.place ≠ .fill) →
    r.returned.flatten ++ s.kept = r.accepted.map Prod.snd
  calls : ∀ (n : ℕ) (c : QueueCaller τ), s.callers[n]? = some c → c.Ok n s.queue.waiting r
  begun : ∀ p ∈ r.accepted, p.1 < s.callers.length

namespace Inv

theorem initial : Inv (.initial : SwapRun τ) .initial := by
  constructor <;>
    simp [SwapRun.initial, SwapRecord.initial, ConsumerPlace.holds, ConsumerPlace.filled, kept]

/-- No other call has the mutex. -/
theorem idle (h : Inv s r) (hmine : s.holder = none ∨ s.holder = some (.caller n)) {m : ℕ}
    (hm : m ≠ n) (hc : s.callers[m]? = some c) : c.place.holds = false := by
  by_contra hholds
  have hholder := h.caller_holds m c hc (by simpa using hholds)
  rcases hmine with hmine | hmine
  · simp [hholder] at hmine
  · rw [hholder] at hmine
    exact hm (by simpa using hmine)

/-- The consumer does not have the mutex. -/
theorem consumer_idle (h : Inv s r) (hmine : s.holder = none ∨ s.holder = some (.caller n)) :
    s.place.holds = false := by
  by_contra hholds
  have hholder := h.consumer_holds (by simpa using hholds)
  rcases hmine with hmine | hmine <;> simp [hholder] at hmine

/-- The write buffer follows what was returned when the call that has the mutex has not begun with
a slot. -/
theorem conserved_waiting (h : Inv s r)
    (hmine : s.holder = none ∨ s.holder = some (.caller n)) (hc : s.callers[n]? = some c)
    (hplace : c.place ≠ .fill) :
    r.returned.flatten ++ s.queue.waiting = r.accepted.map Prod.snd := by
  rw [← kept_of_not_holds (h.consumer_idle hmine)]
  refine h.conserved fun m d hd hfill => ?_
  by_cases hm : m = n
  · subst hm
    obtain rfl : c = d := Option.some.inj (hc.symm.trans hd)
    exact hplace hfill
  · have hidle := h.idle hmine hm hd
    rw [hfill] at hidle
    cases hidle

/-- The call that has the mutex, or takes it, goes on. -/
theorem caller (h : Inv s r) (hmine : s.holder = none ∨ s.holder = some (.caller n))
    (hc : s.callers[n]? = some c) {q : SwapQueue τ} {holder : Option Holder}
    (hholder : holder = if c'.place.holds then some (.caller n) else none)
    (hwrite : q.write = s.queue.write)
    (hother : q.buffers (!q.write) = s.queue.buffers (!q.write)) (hheld : r'.held = r.held)
    (hrest : ∀ m, m ≠ n → r'.putBy m = r.putBy m ∧ r'.lengths m = r.lengths m)
    (hnew : ∀ p ∈ r'.accepted, p ∈ r.accepted ∨ p.1 = n)
    (hconserved : c'.place ≠ .fill → r'.returned.flatten ++ q.waiting = r'.accepted.map Prod.snd)
    (hok : c'.Ok n q.waiting r') :
    Inv ({ s with queue := q, holder := holder }.move n c') r' := by
  have hplace := h.consumer_idle hmine
  have hmove : ∀ m : ℕ, (s.callers.set n c')[m]? = if m = n then some c' else s.callers[m]? :=
    getElem?_move hc c'
  have hlt : n < s.callers.length := (List.getElem?_eq_some_iff.mp hc).1
  have hside : ∀ b, s.place.filled = some b → b = !q.write := by
    rw [hwrite]
    exact h.side
  constructor
  · intro m d hd hholds
    simp only [move, hmove] at hd
    split_ifs at hd with hm
    · obtain rfl := Option.some.inj hd
      simp [move, hholder, hholds, hm]
    · simp [h.idle hmine hm hd] at hholds
  · intro hholds
    simp [move, hplace] at hholds
  · exact hside
  · intro b hb
    obtain rfl := hside b (by rw [show s.place = .uses (some b) from hb]; rfl)
    rw [hheld]
    exact hother.trans (h.held _ (hwrite ▸ hb))
  · intro b hb
    have hb : s.place = .unlock b := hb
    rw [hb] at hplace
    cases hplace
  · intro hfill
    have hkept : SwapRun.kept ({ s with queue := q, holder := holder }.move n c') = q.waiting :=
      kept_of_not_holds hplace
    rw [hkept]
    exact hconserved (hfill n c' (by simp only [move, hmove, if_pos]))
  · intro m d hd
    simp only [move, hmove] at hd
    split_ifs at hd with hm
    · obtain rfl := Option.some.inj hd
      exact hm ▸ hok
    · exact (h.calls m d hd).frame (h.idle hmine hm hd) (hrest m hm).1 (hrest m hm).2
  · intro p hp
    simp only [move, List.length_set]
    obtain hp | hp := hnew p hp
    · exact h.begun p hp
    · exact hp ▸ hlt

/-- A call takes the mutex, and the length that it will be judged by is noted. -/
theorem lockStep (h : Inv s r) {call : QueueCall τ} (hc : s.callers[n]? = some ⟨call, .lock⟩)
    (hstep : s.callerStep n ⟨call, .lock⟩ = some s') :
    Inv s' (SwapRecord.noteCaller s n ⟨call, .lock⟩ r) := by
  have hok := h.calls n _ hc
  simp only [SwapRun.callerStep] at hstep
  split_ifs at hstep with hfree
  obtain rfl := Option.some.inj hstep
  refine h.caller (Or.inl hfree) hc (by simp) rfl rfl rfl (fun m hm => ⟨rfl, ?_⟩)
    (fun _ => Or.inl) (fun _ => h.conserved_waiting (Or.inl hfree) hc (by simp)) ?_
  · exact Function.update_of_ne hm ..
  · cases call with
    | push item => exact ⟨hok, rfl⟩
    | emplace fill => exact ⟨hok, rfl⟩
    | tryEmplace cap fill => exact ⟨hok, Function.update_self ..⟩

/-- `push` appends its item, which is accepted by that. -/
theorem appendStep (h : Inv s r) {call : QueueCall τ} (hc : s.callers[n]? = some ⟨call, .append⟩)
    (hstep : s.callerStep n ⟨call, .append⟩ = some s') :
    Inv s' (SwapRecord.noteCaller s n ⟨call, .append⟩ r) := by
  have hok := h.calls n _ hc
  obtain rfl := Option.some.inj hstep
  have hmine := h.caller_holds n _ hc rfl
  have hconserved := h.conserved_waiting (Or.inr hmine) hc (by simp)
  have hnote : SwapRecord.noteCaller s n ⟨call, .append⟩ r =
      { r with accepted := r.accepted ++ [(n, call.item)] } := rfl
  rw [hnote]
  refine h.caller (Or.inr hmine) hc hmine rfl (by simp [SwapQueue.push]) rfl
    (fun m hm => ⟨SwapRecord.putBy_append_of_ne r hm _, rfl⟩) (fun p hp => ?_) (fun _ => ?_) ?_
  · exact (List.mem_append.mp hp).imp_right fun hp => by rw [List.mem_singleton.mp hp]
  · simp [← hconserved]
  · exact ⟨(SwapRecord.putBy_append_self r n _).trans (by simp [hok.1]), by simp [hok.2]⟩

/-- `emplace` fills the item that it has constructed at the end, which is accepted by that. -/
theorem fillStep (h : Inv s r) {call : QueueCall τ} (hc : s.callers[n]? = some ⟨call, .fill⟩)
    (hstep : s.callerStep n ⟨call, .fill⟩ = some s') :
    Inv s' (SwapRecord.noteCaller s n ⟨call, .fill⟩ r) := by
  obtain rfl := Option.some.inj hstep
  have hmine := h.caller_holds n _ hc rfl
  obtain ⟨hput, hfull, items, hwaiting, hconserved⟩ := h.calls n _ hc
  have hnote : SwapRecord.noteCaller s n ⟨call, .fill⟩ r =
      { r with accepted := r.accepted ++ [(n, call.item)] } := by
    simp [SwapRecord.noteCaller, hwaiting, QueueCall.item]
  rw [hnote]
  refine h.caller (Or.inr hmine) hc hmine rfl (by simp [SwapQueue.fillLast]) rfl
    (fun m hm => ⟨SwapRecord.putBy_append_of_ne r hm _, rfl⟩) (fun p hp => ?_) (fun _ => ?_) ?_
  · exact (List.mem_append.mp hp).imp_right fun hp => by rw [List.mem_singleton.mp hp]
  · simp [hwaiting, List.modifyLast_concat, ← hconserved, QueueCall.item]
  · exact ⟨(SwapRecord.putBy_append_self r n _).trans (by simp [hput]), by simp [hfull]⟩

/-- A caller's step keeps the invariant : the item it puts is recorded when it is accepted. -/
theorem callerStep (h : Inv s r) (hc : s.callers[n]? = some c)
    (hstep : s.callerStep n c = some s') : Inv s' (SwapRecord.noteCaller s n c r) := by
  have hok := h.calls n c hc
  have hsame : ∀ m, m ≠ n → r.putBy m = r.putBy m ∧ r.lengths m = r.lengths m :=
    fun m _ => ⟨rfl, rfl⟩
  obtain ⟨call, place⟩ := c
  cases place with
  | lock => exact h.lockStep hc hstep
  | append => exact h.appendStep hc hstep
  | fill => exact h.fillStep hc hstep
  | test =>
    obtain rfl := Option.some.inj hstep
    have hmine := h.caller_holds n _ hc rfl
    have hconserved := h.conserved_waiting (Or.inr hmine) hc (by simp)
    have hnote : SwapRecord.noteCaller s n ⟨call, .test⟩ r = r := rfl
    have hfull : call.full s.queue.waiting.length = call.full (r.lengths n) := by rw [hok.2]
    rw [hnote, hfull]
    cases hlen : call.full (r.lengths n) with
    | true =>
      exact h.caller (Or.inr hmine) hc hmine rfl rfl rfl hsame (fun _ => Or.inl)
        (fun _ => hconserved) ⟨hok.1, by rw [hlen]; rfl⟩
    | false =>
      exact h.caller (Or.inr hmine) hc hmine rfl rfl rfl hsame (fun _ => Or.inl)
        (fun _ => hconserved) ⟨hok.1, hlen⟩
  | construct =>
    obtain rfl := Option.some.inj hstep
    have hmine := h.caller_holds n _ hc rfl
    have hconserved := h.conserved_waiting (Or.inr hmine) hc (by simp)
    refine h.caller (Or.inr hmine) hc hmine rfl (by simp [SwapQueue.push]) rfl hsame
      (fun _ => Or.inl) (fun hfill => absurd rfl hfill) ?_
    exact ⟨hok.1, hok.2, s.queue.waiting, by simp, hconserved⟩
  | unlock accepted =>
    obtain rfl := Option.some.inj hstep
    have hmine := h.caller_holds n _ hc rfl
    exact h.caller (Or.inr hmine) hc rfl rfl rfl rfl hsame (fun _ => Or.inl)
      (fun _ => h.conserved_waiting (Or.inr hmine) hc (by simp)) hok
  | done accepted => cases hstep

/-- The consumer goes on, and no call has the mutex. -/
theorem consumer (h : Inv s r) (hfree : ∀ n, s.holder ≠ some (.caller n))
    {q : SwapQueue τ} {holder : Option Holder} {place : ConsumerPlace}
    (hholder : holder = if place.holds then some .consumer else none)
    (hside : ∀ b, place.filled = some b → b = !q.write)
    (hheld : ∀ b, place = .uses (some b) → q.buffers b = r'.held)
    (hcleared : ∀ b, place = .unlock b → q.waiting = [])
    (haccepted : r'.accepted = r.accepted) (hlengths : r'.lengths = r.lengths)
    (hconserved : r'.returned.flatten ++ SwapRun.kept { s with queue := q, place := place } =
      r.returned.flatten ++ s.kept) :
    Inv { s with queue := q, holder := holder, place := place } r' := by
  have hidle : ∀ (n : ℕ) (c : QueueCaller τ), s.callers[n]? = some c → c.place.holds = false := by
    intro n c hc
    by_contra hholds
    exact hfree n (h.caller_holds n c hc (by simpa using hholds))
  refine ⟨fun n c hc hholds => ?_, fun hholds => ?_, hside, hheld, hcleared, fun hfill => ?_,
    fun n c hc => ?_, fun p hp => ?_⟩
  · simp [hidle n c hc] at hholds
  · rw [hholder]
    exact if_pos hholds
  · rw [haccepted, ← h.conserved hfill]
    exact hconserved
  · have hput : r'.putBy n = r.putBy n := by rw [SwapRecord.putBy, haccepted, SwapRecord.putBy]
    exact (h.calls n c hc).frame (hidle n c hc) hput (by rw [hlengths])
  · rw [haccepted] at hp
    exact h.begun p hp

/-- A step of the consumer keeps it : the swap moves what waits to the batch. -/
theorem swapStep (h : Inv s r) (hstep : s.swapStep = some s') :
    Inv s' (SwapRecord.note s .consumer r) := by
  have hnone : s.place.holds = true → ∀ n, s.holder ≠ some (.caller n) := by
    intro hholds n
    simp [h.consumer_holds hholds]
  unfold SwapRecord.note
  unfold SwapRun.swapStep at hstep
  cases hplace : s.place with
  | uses batch => simp [hplace] at hstep
  | lock =>
    simp only [hplace] at hstep
    split_ifs at hstep with hfree
    obtain rfl := Option.some.inj hstep
    refine h.consumer (fun n => by simp [hfree]) rfl (fun b hb => ?_) (fun b hb => ?_)
      (fun b hb => ?_) rfl rfl ?_
    · cases hb
    · cases hb
    · cases hb
    · simp [kept, hplace]
  | flip =>
    rw [hplace] at hnone
    simp only [hplace] at hstep
    obtain rfl := Option.some.inj hstep
    refine h.consumer (hnone rfl) (h.consumer_holds (by rw [hplace]; rfl)) (fun b hb => ?_)
      (fun b hb => ?_) (fun b hb => ?_) rfl rfl ?_
    · obtain rfl := Option.some.inj hb
      exact (Bool.not_not _).symm
    · cases hb
    · cases hb
    · simp [kept, hplace, SwapQueue.waiting]
  | clear filled =>
    have hside : filled = !s.queue.write := h.side filled (by rw [hplace]; rfl)
    rw [hplace] at hnone
    simp only [hplace] at hstep
    obtain rfl := Option.some.inj hstep
    refine h.consumer (hnone rfl) (h.consumer_holds (by rw [hplace]; rfl)) (fun b hb => ?_)
      (fun b hb => ?_) (fun b hb => ?_) rfl rfl ?_
    · obtain rfl := Option.some.inj hb
      exact hside
    · cases hb
    · exact Function.update_self ..
    · have hne : filled ≠ s.queue.write := by simp [hside]
      simp [kept, hplace, Function.update_of_ne hne]
  | unlock filled =>
    have hside : filled = !s.queue.write := h.side filled (by rw [hplace]; rfl)
    rw [hplace] at hnone
    simp only [hplace] at hstep
    obtain rfl := Option.some.inj hstep
    refine h.consumer (hnone rfl) rfl (fun b hb => ?_) (fun b hb => ?_) (fun b hb => ?_) rfl rfl ?_
    · obtain rfl := Option.some.inj hb
      exact hside
    · cases hb
      rfl
    · cases hb
    · simp [kept, hplace, h.cleared filled hplace]

/-- A call begins. -/
theorem beginCall (h : Inv s r) (call : QueueCall τ) :
    Inv { s with callers := s.callers ++ [⟨call, .lock⟩] } r := by
  have hcallers : ∀ (n : ℕ) (c : QueueCaller τ),
      (s.callers ++ [⟨call, .lock⟩])[n]? = some c →
        s.callers[n]? = some c ∨ n = s.callers.length ∧ c = ⟨call, .lock⟩ := by
    intro n c hc
    rw [List.getElem?_append] at hc
    split_ifs at hc with hlt
    · exact Or.inl hc
    · obtain ⟨hn, rfl⟩ := List.getElem?_eq_some_iff.mp hc
      rw [List.length_singleton] at hn
      exact Or.inr ⟨by omega, List.getElem_singleton _⟩
  refine ⟨fun n c hc hholds => ?_, h.consumer_holds, h.side, h.held, h.cleared, fun hfill => ?_,
    fun n c hc => ?_, fun p hp => ?_⟩
  · obtain hc | ⟨-, rfl⟩ := hcallers n c hc
    · exact h.caller_holds n c hc hholds
    · cases hholds
  · refine h.conserved fun n c hc => hfill n c ?_
    exact (List.getElem?_append_left (List.getElem?_eq_some_iff.mp hc).1).trans hc
  · obtain hc | ⟨rfl, rfl⟩ := hcallers n c hc
    · exact h.calls n c hc
    · refine List.filter_eq_nil_iff.mpr fun p hp => ?_
      have := h.begun p hp
      simp only [decide_eq_true_eq]
      omega
  · have := h.begun p hp
    simp only [List.length_append]
    omega

/-- The consumer changes the batch that it holds; the other buffer stays as it is. -/
theorem use (h : Inv s r) (f : List τ → List τ) (hstep : s.step (.use f) = some s') :
    Inv s' (SwapRecord.note s (.use f) r) := by
  simp only [SwapRun.step] at hstep
  split at hstep
  · rename_i b hplace
    obtain rfl := Option.some.inj hstep
    have hside : b = !s.queue.write := h.side b (by rw [hplace]; rfl)
    have hwaiting : Function.update s.queue.buffers b (f (s.queue.buffers b)) s.queue.write =
        s.queue.waiting := by
      refine Function.update_of_ne ?_ _ _
      simp [hside]
    refine ⟨h.caller_holds, h.consumer_holds, h.side, fun b' hb' => ?_, fun b' hb' => ?_,
      fun hfill => ?_, fun n c hc => ?_, h.begun⟩
    · obtain rfl : b = b' := by simpa [hplace] using hb'
      simp [SwapRecord.note, h.held b hplace]
    · simp [hplace] at hb'
    · have hkept := h.conserved hfill
      simp only [kept, hplace, SwapQueue.waiting] at hkept hwaiting ⊢
      rw [hwaiting]
      exact hkept
    · have hok := h.calls n c hc
      rwa [← hwaiting] at hok
  · cases hstep

/-- The consumer calls `swap` again. -/
theorem swap (h : Inv s r) (hstep : s.step .swap = some s') :
    Inv s' (SwapRecord.note s .swap r) := by
  simp only [SwapRun.step] at hstep
  split at hstep
  · rename_i batch hplace
    obtain rfl := Option.some.inj hstep
    refine ⟨h.caller_holds, fun hholds => ?_, fun b hb => ?_, fun b hb => ?_, fun b hb => ?_,
      fun hfill => ?_, h.calls, h.begun⟩
    · cases hholds
    · cases hb
    · cases hb
    · cases hb
    · have hkept := h.conserved hfill
      simp only [kept, hplace] at hkept
      exact hkept
  · cases hstep

/-- Every step keeps the invariant. -/
theorem step (h : Inv s r) {a : SwapAct τ} (hstep : s.step a = some s') :
    Inv s' (SwapRecord.note s a r) := by
  cases a with
  | call call =>
    obtain rfl := Option.some.inj hstep
    exact h.beginCall call
  | caller n =>
    obtain ⟨c, hc, hstep⟩ := Option.bind_eq_some_iff.mp hstep
    simp only [SwapRecord.note, hc]
    exact h.callerStep hc hstep
  | use f => exact h.use f hstep
  | swap => exact h.swap hstep
  | consumer => exact h.swapStep hstep

end Inv

/-- What is to hold of the queue at any time. -/
structure Lossless (s : SwapRun τ) (r : SwapRecord τ) : Prop where
  /-- While no call is under way in it, what was returned and then what is being written are the
  accepted items in their order. -/
  conserved : s.holder = none → r.returned.flatten ++ s.queue.waiting = r.accepted.map Prod.snd
  /-- A call that has accepted its item has put it in once, a call that has refused it never. -/
  once : ∀ (n : ℕ) (call : QueueCall τ) (accepted : Bool),
    s.callers[n]? = some ⟨call, .done accepted⟩ →
      r.putBy n = if accepted then [(n, call.item)] else []
  /-- Only `try_emplace` refuses, and does so exactly if the buffer that was being written when it
  got the mutex was full. -/
  accepts : ∀ (n : ℕ) (call : QueueCall τ) (accepted : Bool),
    s.callers[n]? = some ⟨call, .done accepted⟩ →
      (accepted = true ↔ ∀ cap fill, call = .tryEmplace cap fill → r.lengths n < cap)
  /-- The consumer finds its batch as it got it and has itself changed it. -/
  held : ∀ b, s.place = .uses (some b) → s.queue.buffers b = r.held

/-- In every run of the queue. -/
theorem lossless (h : (swapRuns τ).Reaches (s, r)) : Lossless s r := by
  have hinv : Inv s r := by
    refine Machine.recording_invariant (I := Inv) ?_ ?_ h
    · rintro s rfl
      exact .initial
    · exact fun s a s' r hs hstep => hs.step hstep
  refine ⟨fun hfree => ?_, fun n call accepted hc => (hinv.calls n _ hc).1,
    fun n call accepted hc => ?_, hinv.held⟩
  · have hfill : ∀ (n : ℕ) (c : QueueCaller τ), s.callers[n]? = some c → c.place ≠ .fill := by
      intro n c hc hplace
      have hholder := hinv.caller_holds n c hc (by rw [hplace]; rfl)
      simp [hfree] at hholder
    rw [← hinv.conserved hfill, kept_of_not_holds]
    by_contra hholds
    have hholder := hinv.consumer_holds (by simpa using hholds)
    simp [hfree] at hholder
  · rw [(hinv.calls n _ hc).2]
    cases call <;> simp [QueueCall.full]

/-- A batch of one, an item that is refused and one that waits. -/
theorem lossless_refused : ∃ (s : SwapRun ℕ) (r : SwapRecord ℕ), s.holder = none ∧
    r.returned = [[7]] ∧ s.queue.waiting = [8] ∧ r.accepted = [(0, 7), (1, 8)] ∧
      Lossless s r := by
  obtain ⟨⟨s, r⟩, hs, hp⟩ := (swapRuns ℕ).exists_reachesWhen (fun _ _ => True)
    (.initial, .initial)
    [.call (.push 7), .caller 0, .caller 0, .caller 0,
      .swap, .consumer, .consumer, .consumer, .consumer,
      .call (.tryEmplace 1 fun _ => 8), .caller 1, .caller 1, .caller 1, .use fun _ => [],
      .caller 1, .caller 1, .call (.tryEmplace 1 fun _ => 9), .caller 2, .caller 2, .caller 2]
    (fun p => p.1.holder = none ∧ p.2.returned = [[7]] ∧ p.1.queue.waiting = [8] ∧
      p.2.accepted = [(0, 7), (1, 8)]) ⟨rfl, rfl⟩ (by decide +kernel)
  obtain ⟨hfree, hreturned, hwaiting, haccepted⟩ := of_decide_eq_true hp
  exact ⟨s, r, hfree, hreturned, hwaiting, haccepted, lossless hs⟩

end SwapRun

end EchoServer
