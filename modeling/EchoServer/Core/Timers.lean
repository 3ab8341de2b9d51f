import EchoServer.Lib.Machine

/-!
# The timers of a logic thread

`core/logic_thread.cpp` : the thread runs its step, fires the timers that are due, and sleeps until
it is signalled, but no longer than until the next timer is due. One step of the machine is one
iteration of the loop in `run`; how long the step and the timers take, when a signal comes and how
long the system lets the thread sleep is left open (`Round`).

`fired` records the readings of the clock at which a timer has fired; no function reads it.

A timer never fires early. It is late by no more than one step and what the iteration before took
beyond the sleep it asked for (`timer_period`).
-/

namespace EchoServer

/-- A timer : it fires when its time has come. -/
structure TimerSlot where
  intervalMs : ℕ
  interval_pos : 0 < intervalMs
  nextMs : ℕ
  fired : List ℕ

/-- `add_timer`. -/
def addTimer (intervalMs : ℤ) (timers : List TimerSlot) : List TimerSlot :=
  if h : 0 < intervalMs then timers ++ [⟨intervalMs.toNat, by omega, 0, []⟩] else timers

/-- The thread between two rounds, with its clock. -/
structure LogicThread where
  maxIdleWaitMs : ℕ
  spinUs : ℕ
  startMs : ℕ
  nowUs : ℕ
  timers : List TimerSlot

/-- One iteration, as it turns out. -/
structure Round where
  stepUs : ℕ
  /-- What the timers that fire take together. -/
  callsUs : ℕ
  signaled : Bool
  spinUs : ℕ
  spinSignaled : Bool
  idleUs : ℕ

namespace TimerSlot

/-- The timer is looked at. -/
def look (current : ℕ) (t : TimerSlot) : TimerSlot :=
  if t.nextMs ≤ current then
    { t with nextMs := current + t.intervalMs, fired := t.fired ++ [current] }
  else t

end TimerSlot

namespace LogicThread

/-- `start`, and `run` up to its loop. -/
def start (maxIdleWaitMs spinUs : ℤ) (nowUs : ℕ) (timers : List TimerSlot) : LogicThread where
  maxIdleWaitMs := (max 1 maxIdleWaitMs).toNat
  spinUs := (max 0 spinUs).toNat
  startMs := nowUs / 1000
  nowUs := nowUs
  timers := timers.map fun t => { t with nextMs := nowUs / 1000 + t.intervalMs, fired := [] }

/-- How long the thread may sleep until a timer is due. -/
def waitBudgetMs (nowMs : ℕ) (s : LogicThread) : ℕ :=
  s.timers.foldl (fun budget t => min budget (t.nextMs - nowMs)) s.maxIdleWaitMs

/-- The iteration up to the timers. -/
def fire (e : Round) (s : LogicThread) : LogicThread :=
  { s with
    nowUs := s.nowUs + e.stepUs + e.callsUs
    timers := s.timers.map (TimerSlot.look ((s.nowUs + e.stepUs) / 1000)) }

/-- The thread spins for a while before it sleeps. -/
def spin (e : Round) (s : LogicThread) : LogicThread :=
  if 0 < s.spinUs then { s with nowUs := s.nowUs + e.spinUs } else s

/-- The thread goes to sleep. -/
def sleeps (e : Round) (s : LogicThread) : Bool :=
  !e.signaled && !(decide (0 < s.spinUs) && e.spinSignaled)

/-- A round of `run` : the timers, the step, and the sleep. -/
def round (e : Round) (s : LogicThread) : LogicThread :=
  let s := s.fire e
  if e.signaled then s
  else
    let s := s.spin e
    if s.sleeps e then { s with nowUs := s.nowUs + e.idleUs } else s

/-- The step takes at most `stepUs`; the timers, the turns and what the sleep takes longer than it
was asked for take at most `restUs`. -/
def Prompt (stepUs restUs : ℕ) (s : LogicThread) (e : Round) : Prop :=
  let s' := (s.fire e).spin e
  e.stepUs ≤ stepUs ∧
    e.callsUs + e.spinUs + (e.idleUs - 1000 * s'.waitBudgetMs (s'.nowUs / 1000)) ≤ restUs

instance (stepUs restUs : ℕ) (s : LogicThread) (e : Round) : Decidable (s.Prompt stepUs restUs e) :=
  inferInstanceAs (Decidable (_ ∧ _))

end LogicThread

/-- The thread from its start on. -/
def logicThread (maxIdleWaitMs spinUs : ℤ) (timers : List TimerSlot) : Machine LogicThread Round where
  init s := ∃ nowUs, s = .start maxIdleWaitMs spinUs nowUs timers
  step s e := some (s.round e)

namespace LogicThread

/-- No timer is due before the budget is used up. -/
theorem waitBudgetMs_le {s : LogicThread} {t : TimerSlot} (ht : t ∈ s.timers) (nowMs : ℕ) :
    s.waitBudgetMs nowMs ≤ t.nextMs - nowMs := by
  have hle : ∀ (ts : List TimerSlot) (b : ℕ),
      ts.foldl (fun budget t => min budget (t.nextMs - nowMs)) b ≤ b ∧
        ∀ t ∈ ts, ts.foldl (fun budget t => min budget (t.nextMs - nowMs)) b ≤ t.nextMs - nowMs := by
    intro ts
    induction ts with
    | nil => simp
    | cons u ts ih =>
      intro b
      obtain ⟨hb, hts⟩ := ih (min b (u.nextMs - nowMs))
      rw [List.foldl_cons]
      refine ⟨hb.trans (min_le_left ..), fun t ht => ?_⟩
      obtain rfl | ht := List.mem_cons.mp ht
      · exact hb.trans (min_le_right ..)
      · exact hts t ht
  exact (hle s.timers s.maxIdleWaitMs).2 t ht

@[simp] theorem timers_spin (e : Round) (s : LogicThread) : (s.spin e).timers = s.timers := by
  unfold spin
  split_ifs <;> rfl

/-- A round looks at each timer once, after its step. -/
theorem timers_round (e : Round) (s : LogicThread) :
    (s.round e).timers = s.timers.map (TimerSlot.look ((s.nowUs + e.stepUs) / 1000)) := by
  unfold round
  split_ifs <;> simp [fire]
  split_ifs <;> simp

theorem startMs_round (e : Round) (s : LogicThread) : (s.round e).startMs = s.startMs := by
  unfold round spin
  dsimp only
  repeat' split
  all_goals rfl

/-- A round ends before the next timer is due, but for what it takes beyond its sleep. -/
theorem nowUs_round {stepUs restUs : ℕ} {e : Round} {s : LogicThread} (h : s.Prompt stepUs restUs e)
    {t : TimerSlot} (ht : t ∈ (s.round e).timers)
    (hdue : (s.nowUs + e.stepUs) / 1000 < t.nextMs) :
    (s.round e).nowUs ≤ 1000 * t.nextMs + 999 + restUs := by
  obtain ⟨-, hrest⟩ := h
  have hfire : (s.fire e).nowUs = s.nowUs + e.stepUs + e.callsUs := rfl
  have hspin : ((s.fire e).spin e).nowUs ≤ (s.fire e).nowUs + e.spinUs := by
    unfold spin
    split_ifs
    · exact le_rfl
    · exact Nat.le_add_right ..
  have hbudget : ((s.fire e).spin e).waitBudgetMs (((s.fire e).spin e).nowUs / 1000) ≤
      t.nextMs - ((s.fire e).spin e).nowUs / 1000 := by
    refine waitBudgetMs_le ?_ _
    rw [timers_spin]
    rwa [timers_round] at ht
  unfold round
  dsimp only at hrest ⊢
  split_ifs
  · omega
  · dsimp only
    omega
  · omega

end LogicThread

namespace TimerSlot

/-- After the look, the next expiry is ahead. -/
theorem lt_nextMs_look (current : ℕ) (t : TimerSlot) : current < (t.look current).nextMs := by
  have := t.interval_pos
  unfold look
  split_ifs
  · dsimp only
    omega
  · omega

/-- When the timer has fired last; at first, when the thread was started. -/
def last (startMs : ℕ) (t : TimerSlot) : ℕ := t.fired.getLastD startMs

/-- The timer has fired in time, and is due in time. -/
structure InTime (startMs lagMs : ℕ) (t : TimerSlot) : Prop where
  chain : (startMs :: t.fired).IsChain fun a b =>
    a + t.intervalMs ≤ b ∧ b ≤ a + t.intervalMs + lagMs
  next : t.nextMs = t.last startMs + t.intervalMs

/-- A timer that is looked at in time stays in time. -/
theorem InTime.look {startMs lagMs current : ℕ} {t : TimerSlot} (h : t.InTime startMs lagMs)
    (hlate : current ≤ t.nextMs + lagMs) : (t.look current).InTime startMs lagMs := by
  unfold TimerSlot.look
  split_ifs with hdue
  · have hnext := h.next
    refine ⟨?_, by simp [last]⟩
    dsimp only
    rw [← List.cons_append, List.isChain_append]
    refine ⟨h.chain, List.isChain_singleton _, fun a ha b hb => ?_⟩
    obtain rfl : current = b := by simpa using hb
    obtain rfl : t.last startMs = a := by simpa [List.getLast?_cons, last] using ha
    omega
  · exact h

end TimerSlot

/-- What holds of a thread whose rounds are prompt. -/
structure LogicThread.InTime (stepUs restUs : ℕ) (s : LogicThread) : Prop where
  near : ∀ t ∈ s.timers, s.nowUs ≤ 1000 * t.nextMs + 999 + restUs
  timers : ∀ t ∈ s.timers, t.InTime s.startMs ((999 + restUs + stepUs) / 1000)

/-- A round that is in time keeps every timer in time. -/
theorem LogicThread.InTime.round {stepUs restUs : ℕ} {s : LogicThread} {e : Round}
    (hs : s.InTime stepUs restUs) (he : s.Prompt stepUs restUs e) :
    (s.round e).InTime stepUs restUs := by
  have hlook : ∀ t' ∈ (s.round e).timers, ∃ t ∈ s.timers,
      t.look ((s.nowUs + e.stepUs) / 1000) = t' := by
    intro t' ht'
    rw [timers_round] at ht'
    exact List.mem_map.mp ht'
  refine ⟨fun t' ht' => ?_, fun t' ht' => ?_⟩
  · obtain ⟨t, -, rfl⟩ := hlook t' ht'
    exact nowUs_round he ht' (t.lt_nextMs_look _)
  · obtain ⟨t, ht, rfl⟩ := hlook t' ht'
    have hnear := hs.near t ht
    have hstep := he.1
    rw [startMs_round]
    exact (hs.timers t ht).look (by omega)

/-- In every run in which a step takes at most `stepUs`, and the timers, the turns and what a sleep
takes longer than it was asked for take at most `restUs` in a round : a timer fires first one
interval after the start and then one interval after it has fired last, never earlier, and later by
no more than these two together, in whole milliseconds; and no timer is overdue by more. -/
theorem timer_period {maxIdleWaitMs spinUs : ℤ} {timers : List TimerSlot} {stepUs restUs : ℕ}
    {s : LogicThread} (h : (logicThread maxIdleWaitMs spinUs timers).ReachesWhen
      (LogicThread.Prompt stepUs restUs) s) : ∀ t ∈ s.timers,
    ((s.startMs :: t.fired).IsChain fun a b =>
      a + t.intervalMs ≤ b ∧ b ≤ a + t.intervalMs + (999 + restUs + stepUs) / 1000) ∧
      s.nowUs / 1000 ≤ t.last s.startMs + t.intervalMs + (999 + restUs) / 1000 := by
  have hs : s.InTime stepUs restUs := by
    refine h.invariant ?_ fun s e s' hs he hstep => ?_
    · rintro _ ⟨nowUs, rfl⟩
      refine ⟨fun t ht => ?_, fun t ht => ?_⟩
      · obtain ⟨u, -, rfl⟩ := List.mem_map.mp ht
        have := u.interval_pos
        simp only [LogicThread.start]
        omega
      · obtain ⟨u, -, rfl⟩ := List.mem_map.mp ht
        exact ⟨List.isChain_singleton _, by simp [TimerSlot.last, LogicThread.start]⟩
    · obtain rfl := Option.some.inj hstep
      exact hs.round he
  intro t ht
  obtain ⟨hchain, hnext⟩ := hs.timers t ht
  have hnear := hs.near t ht
  exact ⟨hchain, by omega⟩

/-- A timer of 50 ms that fires twice, the second time late. -/
theorem timer_period_twice : ∃ s : LogicThread, s.timers.map TimerSlot.fired = [[50, 101]] ∧
    ∀ t ∈ s.timers, (s.startMs :: t.fired).IsChain fun a b =>
      a + t.intervalMs ≤ b ∧ b ≤ a + t.intervalMs + (999 + 1000 + 300) / 1000 := by
  obtain ⟨s, hs, htest⟩ := (logicThread 50 200 (addTimer 50 [])).exists_reachesWhen
    (LogicThread.Prompt 300 1000) (.start 50 200 0 (addTimer 50 []))
    [⟨0, 0, false, 200, false, 50000⟩, ⟨300, 100, false, 200, false, 50200⟩,
      ⟨300, 0, true, 0, false, 0⟩]
    (fun s => s.timers.map TimerSlot.fired = [[50, 101]]) ⟨0, rfl⟩ (by decide +kernel)
  exact ⟨s, of_decide_eq_true htest, fun t ht => (timer_period hs t ht).1⟩

end EchoServer
