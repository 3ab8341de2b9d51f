import EchoServer.Core.SwapQueue

/-!
# Waking a consumer

A consumer sleeps on a condition variable until a producer has put something in one of its queues
and has called `wake`. `core/logic_thread.h` has one such loop and `db/db_worker_pool.h`, with
static dispatch, another : `run` is both, with a `SleepLoop` for what they do differently.

Every atomic operation is one step : a load or a store of a flag, locking or unlocking the mutex,
going to sleep with the mutex let go, a notification. A critical section of `SwapQueue` is one
step, which is what it comes to (`SwapRun.run_call`, `SwapRun.run_swap`). Calls of `wake`, of
`notify` and of `stop` run in any number and in any order, each a place in the function
(`Caller`) : what the consumer itself calls in its step is among them.

The flag is what keeps an item from being forgotten (`Sleeper.Inv.covered`), and a producer that
has not come to its notification is what keeps the flag from being overlooked
(`Sleeper.Inv.decided`, `Sleeper.Inv.announced`).
-/

namespace EchoServer

/-! ## The loop -/

/-- What one consumer does in its own way. -/
structure SleepLoop (ι : Type*) where
  /-- The queues that a step swaps out, in order. -/
  step : List ι
  /-- Turns for a while before it goes to sleep. -/
  spins : Bool
  /-- Leaves the loop where it sees that it is to stop. -/
  breaks : Bool
  /-- `stop` wakes as a producer does, without the mutex around the flag. -/
  notifies : Bool

/-- Where the consumer is in `run`. -/
inductive RunPlace (ι : Type*) where
  | idle
  | test
  | clear
  | step (todo : List ι)
  | look
  | lookRunning
  | spin
  | spinLook
  | spinRunning
  | spun
  | spunRunning
  | lock
  -- the predicate of `wait_for`, under the mutex
  | pred
  | predRunning
  | sleep
  | blocked
  | relock (timedOut : Bool)
  | unlock
  -- the step after the loop
  | last (todo : List ι)
  | done
  deriving DecidableEq

/-- Where a call of `wake` or `stop` is, the step that it takes next. -/
inductive Caller (ι τ : Type*) where
  | push (i : ι) (item : τ)
  -- `wake` and `notify`
  | exchange
  | lock
  | unlock
  | notify
  -- `stop`
  | halt
  | lockStop
  | store
  | unlockStop
  | notifyAll
  | done

/-- An item with the number of the call that pushed it. -/
structure Item (τ : Type*) where
  producer : ℕ
  item : τ

/-- The queues, the flags and the mutex, with the consumer and the calls of its producers. -/
structure Sleeper (ι τ : Type*) where
  queues : ι → SwapQueue (Item τ)
  running : Bool
  signaled : Bool
  holder : Option Holder
  place : RunPlace ι
  callers : List (Caller ι τ)

/-- A step of the consumer or of a call, or a choice of the environment. -/
inductive SleeperAct (ι τ : Type*) where
  | start
  /-- The consumer goes on ; `late` is what the clock of the spin loop says. -/
  | run (late : Bool)
  /-- The wait comes to its time limit. -/
  | expire
  /-- The wait ends for no reason. -/
  | spurious
  | call (c : Caller ι τ)
  | caller (n : ℕ)

/-- A call begins with a push, with a wake alone or with `stop`. -/
def Caller.isEntry {ι τ : Type*} : Caller ι τ → Bool
  | .push .. | .exchange | .halt => true
  | _ => false

/-- Who is blocked wakes up, and takes the mutex again. -/
def RunPlace.notified {ι : Type*} : RunPlace ι → RunPlace ι
  | .blocked => .relock false
  | place => place

namespace Sleeper

variable {ι τ : Type*} [DecidableEq ι]

/-- The consumer goes on to another place. -/
def goto (s : Sleeper ι τ) (place : RunPlace ι) : Sleeper ι τ := { s with place := place }

/-- The call with number `n` goes on to another place. -/
def move (s : Sleeper ι τ) (n : ℕ) (c : Caller ι τ) : Sleeper ι τ :=
  { s with callers := s.callers.set n c }

/-- The consumer swaps out a queue. -/
def swap (s : Sleeper ι τ) (i : ι) : Sleeper ι τ :=
  { s with queues := Function.update s.queues i (s.queues i).swap.2 }

/-- One step of `run`. -/
def runStep (L : SleepLoop ι) (s : Sleeper ι τ) (late : Bool) : Option (Sleeper ι τ) :=
  match s.place with
  | .idle => none
  | .test => some (s.goto (if s.running then .clear else .last L.step))
  | .clear => some ({ s with signaled := false }.goto (.step L.step))
  | .step (i :: todo) => some ((s.swap i).goto (.step todo))
  | .step [] => some (s.goto .look)
  | .look => some (s.goto (if s.signaled then .test else .lookRunning))
  | .lookRunning =>
    some (s.goto
      (if s.running then if L.spins then .spin else .lock
      else if L.breaks then .last L.step else .test))
  | .spin => some (s.goto (if late then .spun else .spinLook))
  | .spinLook => some (s.goto (if s.signaled then .spun else .spinRunning))
  | .spinRunning => some (s.goto (if s.running then .spin else .spun))
  | .spun => some (s.goto (if s.signaled then .test else .spunRunning))
  | .spunRunning => some (s.goto (if s.running then .lock else .test))
  | .lock =>
    if s.holder = none then some ({ s with holder := some .consumer }.goto .pred) else none
  | .pred => some (s.goto (if s.signaled then .unlock else .predRunning))
  | .predRunning => some (s.goto (if s.running then .sleep else .unlock))
  -- the mutex is let go and the wait begun at once
  | .sleep => some ({ s with holder := none }.goto .blocked)
  | .blocked => none
  -- after a time limit the predicate's value is what `wait_for` returns, and nothing reads it
  | .relock timedOut =>
    if s.holder = none then
      some ({ s with holder := some .consumer }.goto (if timedOut then .unlock else .pred))
    else none
  | .unlock => some ({ s with holder := none }.goto .test)
  | .last (i :: todo) => some ((s.swap i).goto (.last todo))
  | .last [] => some (s.goto .done)
  | .done => none

/-- One step of the call with number `n`. -/
def callerStep (L : SleepLoop ι) (s : Sleeper ι τ) (n : ℕ) : Caller ι τ → Option (Sleeper ι τ)
  | .push i item =>
    some ({ s with
      queues := Function.update s.queues i ((s.queues i).push ⟨n, item⟩) }.move n .exchange)
  | .exchange =>
    some (if s.signaled then s.move n .done else { s with signaled := true }.move n .lock)
  | .lock =>
    if s.holder = none then some ({ s with holder := some (.caller n) }.move n .unlock) else none
  | .unlock => some ({ s with holder := none }.move n .notify)
  | .notify => some ((s.goto s.place.notified).move n .done)
  | .halt =>
    some (if s.running then
        { s with running := false }.move n (if L.notifies then .exchange else .lockStop)
      else s.move n .done)
  | .lockStop =>
    if s.holder = none then some ({ s with holder := some (.caller n) }.move n .store) else none
  | .store => some ({ s with signaled := true }.move n .unlockStop)
  | .unlockStop => some ({ s with holder := none }.move n .notifyAll)
  | .notifyAll => some ((s.goto s.place.notified).move n .done)
  | .done => none

/-- One access of a thread. -/
def step (L : SleepLoop ι) (s : Sleeper ι τ) : SleeperAct ι τ → Option (Sleeper ι τ)
  | .start => if s.place = .idle then some ({ s with running := true }.goto .test) else none
  | .run late => s.runStep L late
  | .expire => if s.place = .blocked then some (s.goto (.relock true)) else none
  | .spurious => if s.place = .blocked then some (s.goto (.relock false)) else none
  | .call c => if c.isEntry then some { s with callers := s.callers ++ [c] } else none
  | .caller n => s.callers[n]?.bind (s.callerStep L n)

/-- The thread has not been started. -/
def initial : Sleeper ι τ := ⟨fun _ => .empty, false, false, none, .idle, []⟩

/-- The thread with the calls that wake and stop it. -/
def machine (L : SleepLoop ι) : Machine (Sleeper ι τ) (SleeperAct ι τ) where
  init s := s = initial
  step := step L

end Sleeper

/-- `LogicThread` with a step that swaps out the queues `step`, one after the other. -/
def LogicThread.loop {ι : Type*} (step : List ι) (spinUs : ℤ) : SleepLoop ι where
  step := step
  spins := 0 < spinUs
  breaks := false
  notifies := false

/-- A worker of the pool with static dispatch, which has one queue. -/
def WorkerPool.loop : SleepLoop Unit where
  step := [()]
  spins := false
  breaks := true
  notifies := true

/-! ## What is kept -/

/-- The queues that will be swapped out before the flag is looked at. -/
def RunPlace.todo {ι : Type*} (L : SleepLoop ι) : RunPlace ι → List ι
  | .idle | .test | .clear => L.step
  | .step todo | .last todo => todo
  | _ => []

/-- The consumer has the mutex. -/
def RunPlace.holds {ι : Type*} : RunPlace ι → Bool
  | .pred | .predRunning | .sleep | .unlock => true
  | _ => false

/-- The consumer has seen the flag down and is going to sleep. -/
def RunPlace.decided {ι : Type*} : RunPlace ι → Bool
  | .predRunning | .sleep => true
  | _ => false

/-- The consumer is in `wait_for`, on the way in or out. -/
def RunPlace.waits {ι : Type*} : RunPlace ι → Bool
  | lock | pred | predRunning | sleep | blocked | relock _ | unlock => true
  | _ => false

/-- Without the lock, nothing has been decided. -/
theorem RunPlace.not_decided {ι : Type*} {place : RunPlace ι} (h : place.holds = false) :
    place.decided = false := by
  cases place <;> first | rfl | cases h

namespace Caller

variable {ι τ : Type*}

/-- The call has the mutex. -/
def holds : Caller ι τ → Bool
  | .unlock | .store | .unlockStop => true
  | _ => false

/-- A caller that only enters holds no lock. -/
theorem not_holds {c : Caller ι τ} (h : c.isEntry = true) : c.holds = false := by
  cases c <;> first | rfl | cases h

/-- Between setting the flag and the notification. -/
def announces : Caller ι τ → Bool
  | .lock | .unlock | .notify | .unlockStop | .notifyAll => true
  | _ => false

end Caller

namespace Sleeper

variable {ι τ : Type*}

/-- What holds between two accesses. -/
structure Inv (L : SleepLoop ι) (s : Sleeper ι τ) : Prop where
  /-- An item waits for its producer to set the flag, or the flag is set, or the consumer is on
  its way to the item's queue. -/
  covered : ∀ i, ∀ item ∈ (s.queues i).waiting,
    s.callers[item.producer]? = some .exchange ∨ s.signaled = true ∨ i ∈ s.place.todo L
  consumer_holds : s.place.holds = true → s.holder = some .consumer
  caller_holds : ∀ n c, s.callers[n]? = some c → c.holds = true → s.holder = some (.caller n)
  /-- A flag set since the consumer saw it down belongs to a call that still needs the mutex. -/
  decided : s.place.decided = true → s.signaled = true →
    ∃ n : ℕ, s.callers[n]? = some .lock
  announced : s.place = .blocked → s.signaled = true →
    ∃ n : ℕ, ∃ c, s.callers[n]? = some c ∧ c.announces = true

variable {L : SleepLoop ι} {s s' : Sleeper ι τ} {n : ℕ} {c : Caller ι τ}

theorem getElem?_move (hc : s.callers[n]? = some c) (c' : Caller ι τ) (m : ℕ) :
    (s.move n c').callers[m]? = if m = n then some c' else s.callers[m]? := by
  have hlt : n < s.callers.length := (List.getElem?_eq_some_iff.mp hc).1
  rw [move, List.getElem?_set]
  by_cases h : n = m
  · subst h
    simp [hlt]
  · rw [if_neg h, if_neg (Ne.symm h)]

namespace Inv

/-- A call goes on. -/
theorem move (h : s.Inv L) (hc : s.callers[n]? = some c) {c' : Caller ι τ}
    (hexchange : c = .exchange → s.signaled = true)
    (hholds : c'.holds = true → s.holder = some (.caller n))
    (hlock : c = .lock → s.place.decided = false)
    (hannounces : s.place = .blocked → c.announces = true → c'.announces = true) :
    (s.move n c').Inv L := by
  have hmove := getElem?_move hc c'
  constructor
  · intro i item hitem
    rcases h.covered i item hitem with hpending | hrest
    · by_cases heq : item.producer = n
      · rw [heq, hc] at hpending
        exact Or.inr (Or.inl (hexchange (Option.some.inj hpending)))
      · left
        rw [hmove, if_neg heq, hpending]
    · exact Or.inr hrest
  · exact h.consumer_holds
  · intro m d hd hdholds
    rw [hmove] at hd
    split_ifs at hd with heq
    · obtain rfl := Option.some.inj hd
      rw [heq]
      exact hholds hdholds
    · exact h.caller_holds m d hd hdholds
  · intro hdecided hsignaled
    obtain ⟨m, hm⟩ := h.decided hdecided hsignaled
    refine ⟨m, ?_⟩
    rw [hmove, if_neg, hm]
    rintro rfl
    rw [hc, Option.some.injEq] at hm
    exact Bool.false_ne_true ((hlock hm).symm.trans hdecided)
  · intro hblocked hsignaled
    obtain ⟨m, d, hd, hdann⟩ := h.announced hblocked hsignaled
    by_cases heq : m = n
    · subst heq
      obtain rfl : c = d := Option.some.inj (hc.symm.trans hd)
      exact ⟨m, c', by rw [hmove, if_pos rfl], hannounces hblocked hdann⟩
    · exact ⟨m, d, by rw [hmove, if_neg heq, hd], hdann⟩

/-- A call sets the flag. While the consumer is going to sleep, only `wake` can, and it has yet
to take the mutex. -/
theorem signal (h : s.Inv L) (hc : s.callers[n]? = some c) {c' : Caller ι τ}
    (hholds : c'.holds = true → s.holder = some (.caller n))
    (hlock : s.place.decided = true → c' = .lock) (hannounces : c'.announces = true) :
    ({ s with signaled := true }.move n c').Inv L := by
  have hmove := getElem?_move (s := { s with signaled := true }) hc c'
  have hself : ({ s with signaled := true }.move n c').callers[n]? = some c' := by
    rw [hmove, if_pos rfl]
  constructor
  · exact fun _ _ _ => Or.inr (Or.inl rfl)
  · exact h.consumer_holds
  · intro m d hd hdholds
    rw [hmove] at hd
    split_ifs at hd with heq
    · obtain rfl := Option.some.inj hd
      rw [heq]
      exact hholds hdholds
    · exact h.caller_holds m d hd hdholds
  · intro hdecided _
    exact ⟨n, hself.trans (congrArg some (hlock hdecided))⟩
  · intro _ _
    exact ⟨n, c', hself, hannounces⟩

/-- A push leaves the caller with a wake still to do. -/
theorem push [DecidableEq ι] (h : s.Inv L) {i : ι} {item : τ}
    (hc : s.callers[n]? = some (.push i item)) :
    ({ s with queues := Function.update s.queues i ((s.queues i).push ⟨n, item⟩) }.move n
      .exchange).Inv L := by
  have hmoved : (s.move n .exchange).Inv L := h.move hc (by simp) (by simp [Caller.holds])
    (by simp) (by simp [Caller.announces])
  refine ⟨fun j other hother => ?_, hmoved.consumer_holds, hmoved.caller_holds, hmoved.decided,
    hmoved.announced⟩
  by_cases hj : j = i
  · subst hj
    have hmem : other ∈ (s.queues j).waiting ∨ other = ⟨n, item⟩ := by
      simpa [Sleeper.move] using hother
    rcases hmem with hold | rfl
    · exact hmoved.covered j other hold
    · left
      exact (getElem?_move hc .exchange n).trans (if_pos rfl)
  · have hold : other ∈ (s.queues j).waiting := by
      simpa [Sleeper.move, Function.update_of_ne hj] using hother
    exact hmoved.covered j other hold

/-- The mutex is free, and is taken. -/
theorem acquire (h : s.Inv L) (hfree : s.holder = none) (holder : Holder) :
    Inv L { s with holder := some holder } := by
  refine ⟨h.covered, fun hholds => ?_, fun m c hc hholds => ?_, h.decided, h.announced⟩
  · exact absurd (hfree.symm.trans (h.consumer_holds hholds)) (by simp)
  · exact absurd (hfree.symm.trans (h.caller_holds m c hc hholds)) (by simp)

/-- The mutex is let go, and none of those that would need it is left. -/
theorem release (h : s.Inv L) (hplace : s.place.holds = false)
    (hcallers : ∀ (m : ℕ) (c : Caller ι τ), s.callers[m]? = some c → c.holds = false) :
    Inv L { s with holder := none } := by
  refine ⟨h.covered, fun hholds => ?_, fun m c hc hholds => ?_, h.decided, h.announced⟩
  · exact absurd (hplace.symm.trans hholds) (by simp)
  · exact absurd ((hcallers m c hc).symm.trans hholds) (by simp)

/-- The consumer goes on. -/
theorem goto (h : s.Inv L) {place : RunPlace ι} (htodo : ∀ i ∈ s.place.todo L, i ∈ place.todo L)
    (hholds : place.holds = true → s.holder = some .consumer)
    (hdecided : place.decided = true → s.signaled = true → ∃ n : ℕ, s.callers[n]? = some .lock)
    (hblocked : place = .blocked → s.signaled = true →
      ∃ n : ℕ, ∃ c, s.callers[n]? = some c ∧ c.announces = true) :
    (s.goto place).Inv L := by
  refine ⟨fun i item hitem => ?_, hholds, h.caller_holds, hdecided, hblocked⟩
  exact (h.covered i item hitem).imp_right (Or.imp_right (htodo i))

/-- Stopping the loop takes no item from a queue. -/
theorem setRunning (h : s.Inv L) (running : Bool) : Inv L { s with running := running } :=
  ⟨h.covered, h.consumer_holds, h.caller_holds, h.decided, h.announced⟩

/-- A new call has not taken the mutex. -/
theorem call (h : s.Inv L) (hc : c.holds = false) : Inv L { s with callers := s.callers ++ [c] } := by
  have hold : ∀ {m : ℕ} {d : Caller ι τ}, s.callers[m]? = some d →
      (s.callers ++ [c])[m]? = some d := by
    intro m d hd
    rw [List.getElem?_append_left (List.getElem?_eq_some_iff.mp hd).1, hd]
  refine ⟨fun i item hitem => (h.covered i item hitem).imp_left hold, h.consumer_holds,
    fun m d hd hholds => ?_, fun hdecided hsignaled => ?_, fun hblocked hsignaled => ?_⟩
  · rw [List.getElem?_append] at hd
    split_ifs at hd
    · exact h.caller_holds m d hd hholds
    · obtain rfl := List.mem_singleton.mp (List.mem_of_getElem? hd)
      exact absurd (hc.symm.trans hholds) Bool.false_ne_true
  · obtain ⟨m, hm⟩ := h.decided hdecided hsignaled
    exact ⟨m, hold hm⟩
  · obtain ⟨m, d, hd, hann⟩ := h.announced hblocked hsignaled
    exact ⟨m, d, hold hd, hann⟩

/-- The flag is cleared before any queue is swapped out. -/
theorem clear (h : s.Inv L) (hall : ∀ i, i ∈ L.step) :
    ({ s with signaled := false }.goto (.step L.step)).Inv L := by
  refine ⟨fun i _ _ => Or.inr (Or.inr (hall i)), fun hholds => ?_, h.caller_holds,
    fun hdecided => ?_, fun hblocked => ?_⟩
  · exact absurd hholds Bool.false_ne_true
  · exact absurd hdecided Bool.false_ne_true
  · exact absurd hblocked (by simp [Sleeper.goto])

/-- One queue is swapped out. -/
theorem swap [DecidableEq ι] (h : s.Inv L) {i : ι} {todo : List ι} {place : RunPlace ι}
    (htodo : s.place.todo L = i :: todo) (hplace : place.todo L = todo)
    (hholds : place.holds = false) (hblocked : place ≠ .blocked) (hdecided : place.decided = false) :
    ((s.swap i).goto place).Inv L := by
  refine ⟨fun j item hitem => ?_, fun h => ?_, h.caller_holds, fun h => ?_, fun h => ?_⟩
  · by_cases hj : j = i
    · subst hj
      simp [Sleeper.goto, Sleeper.swap] at hitem
    · have hold : item ∈ (s.queues j).waiting := by
        simpa [Sleeper.goto, Sleeper.swap, Function.update_of_ne hj] using hitem
      refine (h.covered j item hold).imp_right (Or.imp_right fun hmem => ?_)
      rw [htodo] at hmem
      exact hplace ▸ (List.mem_cons.mp hmem).resolve_left hj
  · exact absurd (hholds.symm.trans h) Bool.false_ne_true
  · exact absurd (hdecided.symm.trans h) Bool.false_ne_true
  · exact absurd h hblocked

/-- The consumer is not going to sleep while another has the mutex, or nobody. -/
theorem not_decided (h : s.Inv L) (hholder : s.holder ≠ some .consumer) :
    s.place.decided = false ∧ s.place.holds = false := by
  have hholds : s.place.holds = false := by
    by_contra hne
    exact hholder (h.consumer_holds (by simpa using hne))
  exact ⟨RunPlace.not_decided hholds, hholds⟩

/-- The consumer goes on without the mutex. -/
theorem plain (h : s.Inv L) {place : RunPlace ι} (htodo : ∀ i ∈ s.place.todo L, i ∈ place.todo L)
    (hholds : place.holds = false) (hblocked : place ≠ .blocked) : (s.goto place).Inv L := by
  refine h.goto htodo (fun heq => ?_) (fun heq => ?_) fun heq => absurd heq hblocked
  · exact absurd (hholds.symm.trans heq) Bool.false_ne_true
  · exact absurd ((RunPlace.not_decided hholds).symm.trans heq) Bool.false_ne_true

/-- The consumer takes the mutex. -/
theorem take (h : s.Inv L) (hfree : s.holder = none) (htodo : s.place.todo L = [])
    {place : RunPlace ι} (hdecided : place.decided = false) (hblocked : place ≠ .blocked) :
    ({ s with holder := some .consumer }.goto place).Inv L := by
  refine (h.acquire hfree .consumer).goto (fun i hi => ?_) (fun _ => rfl) (fun heq => ?_)
    fun heq => absurd heq hblocked
  · exact absurd (htodo ▸ hi) List.not_mem_nil
  · exact absurd (hdecided.symm.trans heq) Bool.false_ne_true

/-- The consumer lets go of the mutex. -/
theorem leave (h : s.Inv L) (hheld : s.place.holds = true) {place : RunPlace ι}
    (htodo : ∀ i ∈ s.place.todo L, i ∈ place.todo L) (hholds : place.holds = false)
    (hblocked : place = .blocked → s.place.decided = true) :
    ({ s with holder := none }.goto place).Inv L := by
  have hholder := h.consumer_holds hheld
  have hgoto : (s.goto place).Inv L := by
    refine h.goto htodo (fun heq => ?_) (fun heq => ?_) fun heq hsignaled => ?_
    · exact absurd (hholds.symm.trans heq) Bool.false_ne_true
    · exact absurd ((RunPlace.not_decided hholds).symm.trans heq) Bool.false_ne_true
    · obtain ⟨n, hn⟩ := h.decided (hblocked heq) hsignaled
      exact ⟨n, .lock, hn, rfl⟩
  refine hgoto.release hholds fun m c hc => ?_
  by_contra hne
  exact absurd (hholder.symm.trans (h.caller_holds m c hc (by simpa using hne))) (by simp)

/-- A call lets go of the mutex. -/
theorem unlock (h : s.Inv L) (hc : s.callers[n]? = some c) {c' : Caller ι τ}
    (hheld : c.holds = true) (hlock : c ≠ .lock) (hexchange : c ≠ .exchange)
    (hholds : c'.holds = false) (hannounces : c'.announces = true) :
    ({ s with holder := none }.move n c').Inv L := by
  have hholder := h.caller_holds n c hc hheld
  have hmoved : (s.move n c').Inv L := h.move hc (fun heq => absurd heq hexchange)
    (fun hc' => absurd (hholds.symm.trans hc') Bool.false_ne_true) (fun heq => absurd heq hlock)
    (fun _ _ => hannounces)
  refine hmoved.release (h.not_decided (by simp [hholder])).2 fun m d hd => ?_
  by_contra hd'
  -- the mutex is with the call that lets go of it
  have heq := hmoved.caller_holds m d hd (by simpa using hd')
  obtain rfl : n = m := by simpa using hholder.symm.trans heq
  rw [getElem?_move hc, if_pos rfl, Option.some.injEq] at hd
  exact hd' (hd ▸ hholds)

/-- A call notifies : whoever was blocked is not any more. -/
theorem notify (h : s.Inv L) (hc : s.callers[n]? = some c) (hlock : c ≠ .lock)
    (hexchange : c ≠ .exchange) : ((s.goto s.place.notified).move n .done).Inv L := by
  have hgoto : (s.goto s.place.notified).Inv L := by
    by_cases hblocked : s.place = .blocked
    · rw [hblocked]
      refine h.goto (fun i hi => ?_) (by simp [RunPlace.notified, RunPlace.holds])
        (by simp [RunPlace.notified, RunPlace.decided]) (by simp [RunPlace.notified])
      rwa [hblocked] at hi
    · have heq : s.place.notified = s.place := by
        cases hplace : s.place <;> first | rfl | exact absurd hplace hblocked
      rw [heq]
      exact h
  refine hgoto.move hc (fun heq => absurd heq hexchange) (by simp [Caller.holds])
    (fun heq => absurd heq hlock) fun hblocked _ => absurd hblocked ?_
  show s.place.notified ≠ .blocked
  cases s.place <;> simp [RunPlace.notified]

end Inv

/-- A call keeps the invariant. -/
theorem Inv.callerStep [DecidableEq ι] (h : s.Inv L) (hc : s.callers[n]? = some c)
    (hs : s.callerStep L n c = some s') : s'.Inv L := by
  cases c with
  | push i item =>
    obtain rfl := Option.some.inj hs
    exact h.push hc
  | exchange =>
    obtain rfl := Option.some.inj hs
    split_ifs with hsignaled
    · exact h.move hc (fun _ => hsignaled) (by simp [Caller.holds]) (by simp)
        (by simp [Caller.announces])
    · exact h.signal hc (by simp [Caller.holds]) (fun _ => rfl) rfl
  | lock =>
    rw [Sleeper.callerStep] at hs
    split_ifs at hs with hfree
    obtain rfl := Option.some.inj hs
    exact (h.acquire hfree _).move hc (by simp) (fun _ => rfl)
      (fun _ => (h.not_decided (by simp [hfree])).1) (fun _ _ => rfl)
  | unlock =>
    obtain rfl := Option.some.inj hs
    exact h.unlock hc rfl (by simp) (by simp) rfl rfl
  | notify =>
    obtain rfl := Option.some.inj hs
    exact h.notify hc (by simp) (by simp)
  | halt =>
    rw [Sleeper.callerStep] at hs
    split_ifs at hs
    all_goals obtain rfl := Option.some.inj hs
    · exact (h.setRunning false).move hc (by simp) (by simp [Caller.holds]) (by simp)
        (by simp [Caller.announces])
    · exact (h.setRunning false).move hc (by simp) (by simp [Caller.holds]) (by simp)
        (by simp [Caller.announces])
    · exact h.move hc (by simp) (by simp [Caller.holds]) (by simp) (by simp [Caller.announces])
  | lockStop =>
    rw [Sleeper.callerStep] at hs
    split_ifs at hs with hfree
    obtain rfl := Option.some.inj hs
    exact (h.acquire hfree _).move hc (by simp) (fun _ => rfl) (by simp)
      (by simp [Caller.announces])
  | store =>
    obtain rfl := Option.some.inj hs
    have hholder := h.caller_holds n _ hc rfl
    refine h.signal hc (fun _ => hholder) (fun hdecided => ?_) rfl
    exact absurd ((h.not_decided (by simp [hholder])).1.symm.trans hdecided) Bool.false_ne_true
  | unlockStop =>
    obtain rfl := Option.some.inj hs
    exact h.unlock hc rfl (by simp) (by simp) rfl rfl
  | notifyAll =>
    obtain rfl := Option.some.inj hs
    exact h.notify hc (by simp) (by simp)
  | done => cases hs

/-- With nothing left to swap out, the consumer may go anywhere without the mutex. -/
theorem Inv.plainGoto [DecidableEq ι] (h : s.Inv L) {place : RunPlace ι}
    (htodo : s.place.todo L = []) (hholds : place.holds = false) (hblocked : place ≠ .blocked) :
    (s.goto place).Inv L :=
  h.plain (by simp [htodo]) hholds hblocked

/-- The consumer about to sleep, with the mutex but for `lock` and `relock`. -/
theorem Inv.waitStep [DecidableEq ι] (h : s.Inv L) {late : Bool} (hwaits : s.place.waits = true)
    (hs : s.runStep L late = some s') : s'.Inv L := by
  unfold Sleeper.runStep at hs
  cases hplace : s.place with
  | lock =>
    simp only [hplace] at hs
    split_ifs at hs with hfree
    obtain rfl := Option.some.inj hs
    exact h.take hfree (by rw [hplace]; rfl) rfl (by simp)
  | pred =>
    obtain rfl : _ = s' := by simpa [hplace] using hs
    have hholder := h.consumer_holds (by rw [hplace]; rfl)
    split_ifs with hsignaled
    · exact h.goto (by simp [hplace, RunPlace.todo]) (fun _ => hholder)
        (by simp [RunPlace.decided]) (by simp)
    · exact h.goto (by simp [hplace, RunPlace.todo]) (fun _ => hholder)
        (fun _ hset => absurd hset hsignaled) (by simp)
  | predRunning =>
    obtain rfl : _ = s' := by simpa [hplace] using hs
    have hholder := h.consumer_holds (by rw [hplace]; rfl)
    split_ifs
    · exact h.goto (by simp [hplace, RunPlace.todo]) (fun _ => hholder)
        (fun _ => h.decided (by rw [hplace]; rfl)) (by simp)
    · exact h.goto (by simp [hplace, RunPlace.todo]) (fun _ => hholder)
        (by simp [RunPlace.decided]) (by simp)
  | sleep =>
    obtain rfl : _ = s' := by simpa [hplace] using hs
    exact h.leave (by rw [hplace]; rfl) (by simp [hplace, RunPlace.todo]) rfl
      fun _ => by rw [hplace]; rfl
  | blocked => simp [hplace] at hs
  | relock timedOut =>
    simp only [hplace] at hs
    have htodo : s.place.todo L = [] := by rw [hplace]; rfl
    split_ifs at hs with hfree
    · obtain rfl := Option.some.inj hs
      exact h.take hfree htodo rfl (by simp)
    · obtain rfl := Option.some.inj hs
      exact h.take hfree htodo rfl (by simp)
  | unlock =>
    obtain rfl : _ = s' := by simpa [hplace] using hs
    exact h.leave (by rw [hplace]; rfl) (by simp [hplace, RunPlace.todo]) rfl (by simp)
  | _ =>
    rw [hplace] at hwaits
    cases hwaits

/-- The consumer keeps the invariant. -/
theorem Inv.runStep [DecidableEq ι] (h : s.Inv L) (hall : ∀ i, i ∈ L.step) {late : Bool}
    (hs : s.runStep L late = some s') : s'.Inv L := by
  cases hwaits : s.place.waits with
  | true => exact h.waitStep hwaits hs
  | false =>
    unfold Sleeper.runStep at hs
    cases hplace : s.place with
    | idle | done => simp [hplace] at hs
    | test =>
      obtain rfl : _ = s' := by simpa [hplace] using hs
      split_ifs <;> exact h.plain (fun i _ => hall i) rfl (by simp)
    | clear =>
      obtain rfl : _ = s' := by simpa [hplace] using hs
      exact h.clear hall
    | step todo | last todo =>
      cases todo with
      | nil =>
        obtain rfl : _ = s' := by simpa [hplace] using hs
        exact h.plainGoto (by rw [hplace]; rfl) rfl (by simp)
      | cons i todo =>
        obtain rfl : _ = s' := by simpa [hplace] using hs
        exact h.swap (by rw [hplace]; rfl) rfl rfl (by simp) rfl
    | look | lookRunning | spin | spinLook | spinRunning | spun | spunRunning =>
      obtain rfl : _ = s' := by simpa [hplace] using hs
      split_ifs <;> exact h.plainGoto (by rw [hplace]; rfl) rfl (by simp)
    | _ =>
      rw [hplace] at hwaits
      cases hwaits

/-- Every step keeps the invariant. -/
theorem Inv.step [DecidableEq ι] (h : s.Inv L) (hall : ∀ i, i ∈ L.step) {a : SleeperAct ι τ}
    (hs : s.step L a = some s') : s'.Inv L := by
  cases a with
  | start =>
    rw [Sleeper.step] at hs
    split_ifs at hs with hplace
    obtain rfl := Option.some.inj hs
    exact (h.setRunning true).plain (fun i _ => hall i) rfl (by simp)
  | run late => exact h.runStep hall hs
  | expire =>
    rw [Sleeper.step] at hs
    split_ifs at hs with hplace
    obtain rfl := Option.some.inj hs
    exact h.plain (by simp [hplace, RunPlace.todo]) rfl (by simp)
  | spurious =>
    rw [Sleeper.step] at hs
    split_ifs at hs with hplace
    obtain rfl := Option.some.inj hs
    exact h.plain (by simp [hplace, RunPlace.todo]) rfl (by simp)
  | call c =>
    rw [Sleeper.step] at hs
    split_ifs at hs with hentry
    obtain rfl := Option.some.inj hs
    exact h.call (Caller.not_holds hentry)
  | caller n =>
    obtain ⟨c, hc, hs⟩ := Option.bind_eq_some_iff.mp hs
    exact h.callerStep hc hs

theorem Inv.initial : (initial : Sleeper ι τ).Inv L := by
  constructor <;> simp [Sleeper.initial, RunPlace.holds, RunPlace.decided]

/-- Nothing waits unnoticed while the consumer sleeps, and a flag that is set while it sleeps is
about to be announced. -/
def NoLostWakeUp (s : Sleeper ι τ) : Prop :=
  s.place = .blocked →
    (s.signaled = false → ∀ i, ∀ item ∈ (s.queues i).waiting,
      s.callers[item.producer]? ≠ some .done) ∧
    (s.signaled = true → ∃ (n : ℕ) (c : Caller ι τ), s.callers[n]? = some c ∧ c.announces = true)

/-- No wake-up is lost under the invariant. -/
theorem Inv.noLostWakeUp (h : s.Inv L) : s.NoLostWakeUp := by
  intro hblocked
  refine ⟨fun hsignaled i item hitem hdone => ?_, h.announced hblocked⟩
  rcases h.covered i item hitem with hpending | hset | htodo
  · rw [hdone] at hpending
    simp at hpending
  · rw [hsignaled] at hset
    simp at hset
  · simp [hblocked, RunPlace.todo] at htodo

theorem inv_of_reaches [DecidableEq ι] (hall : ∀ i, i ∈ L.step) (h : (machine L).Reaches s) :
    s.Inv L := by
  refine h.invariant ?_ fun s a s' hinv hs => hinv.step hall hs
  rintro _ rfl
  exact Inv.initial

end Sleeper

/-- For any number of producers, of wakes and of stops, and any step that swaps out all queues : no
wake is lost on a thread of `LogicThread`, with or without the spin loop, nor on a worker. -/
theorem no_lost_wake_up {ι τ : Type*} [DecidableEq ι] (step : List ι) (hall : ∀ i, i ∈ step)
    (spinUs : ℤ) :
    (∀ s : Sleeper ι τ, (Sleeper.machine (LogicThread.loop step spinUs)).Reaches s →
      s.NoLostWakeUp) ∧
    ∀ s : Sleeper Unit τ, (Sleeper.machine WorkerPool.loop).Reaches s → s.NoLostWakeUp := by
  constructor
  · exact fun s h => (Sleeper.inv_of_reaches hall h).noLostWakeUp
  · exact fun s h => (Sleeper.inv_of_reaches (fun _ => List.mem_singleton.mpr rfl) h).noLostWakeUp

/-- The loop is blocked on two empty queues, and the flag is set. -/
theorem no_lost_wake_up_two_queues : ∃ s : Sleeper Bool ℕ,
    (Sleeper.machine (LogicThread.loop [false, true] 0)).Reaches s ∧
      (s.place = .blocked ∧ s.signaled = true) ∧ s.NoLostWakeUp := by
  obtain ⟨s, hs, hp⟩ := Machine.exists_reachesWhen
    (M := Sleeper.machine (LogicThread.loop [false, true] 0)) (fun _ _ => True)
    (Sleeper.initial : Sleeper Bool ℕ)
    (.start :: List.replicate 11 (.run false) ++ [.call (.push true 7), .caller 0, .caller 0])
    (fun s => s.place = .blocked && s.signaled) rfl (by decide)
  exact ⟨s, hs, by simpa using hp, (no_lost_wake_up [false, true] (by decide) 0).1 s hs⟩

end EchoServer
