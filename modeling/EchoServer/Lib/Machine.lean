import Mathlib.Tactic

/-!
# Machines with computed steps

A `Machine` is a transition system whose steps are computed : `step s a` is the state
after the atomic step `a`, and `none` where `a` cannot be taken in `s`. The label `a`
fixes everything the environment chooses, so a run is a list of labels and the kernel
can replay it (`runWhen`).

`ReachesWhen ok` is reachability by runs each of whose steps satisfies `ok` in the state
it is taken from, and `Reaches` is reachability without a condition. A property of every
state reached is proved with `ReachesWhen.invariant` : it holds initially, and one
allowed step preserves it. `recording` adds to a machine a record of its runs, for what is not
in its states.
-/

/-- A transition system with an initial condition and computed, labelled steps. -/
structure Machine (σ α : Type*) where
  /-- The initial states. -/
  init : σ → Prop
  /-- The state after an atomic step, if the step can be taken. -/
  step : σ → α → Option σ

namespace Machine

variable {σ α : Type*} (M : Machine σ α)

/-- Reachable by steps that satisfy `ok` in the state they are taken from. -/
inductive ReachesWhen (ok : σ → α → Prop) : σ → Prop
  | init {s : σ} : M.init s → ReachesWhen ok s
  | step {s s' : σ} {a : α} :
      ReachesWhen ok s → ok s a → M.step s a = some s' → ReachesWhen ok s'

/-- Reachable by any run. -/
abbrev Reaches : σ → Prop :=
  M.ReachesWhen fun _ _ => True

/-- The runs of the machine that go on from `s`. -/
def onFrom (s : σ) : Machine σ α :=
  { M with init := fun t => t = s }

variable {M} {ok : σ → α → Prop}

/-- The rule of invariants : what holds initially and is kept by every allowed step holds
of every state reached. -/
theorem ReachesWhen.invariant {I : σ → Prop} (h0 : ∀ s, M.init s → I s)
    (hs : ∀ s a s', I s → ok s a → M.step s a = some s' → I s') {s : σ}
    (h : M.ReachesWhen ok s) : I s := by
  induction h with
  | init hi => exact h0 _ hi
  | step _ hok hstep ih => exact hs _ _ _ ih hok hstep

/-- A weaker condition allows the same runs. -/
theorem ReachesWhen.mono {ok' : σ → α → Prop} (hok : ∀ s a, ok s a → ok' s a) {s : σ}
    (h : M.ReachesWhen ok s) : M.ReachesWhen ok' s := by
  induction h with
  | init hi => exact .init hi
  | step _ ha hstep ih => exact ih.step (hok _ _ ha) hstep

/-- The rule of invariants for unconditional runs. -/
theorem Reaches.invariant {I : σ → Prop} (h0 : ∀ s, M.init s → I s)
    (hs : ∀ s a s', I s → M.step s a = some s' → I s') {s : σ} (h : M.Reaches s) : I s :=
  ReachesWhen.invariant h0 (fun s a s' hI _ => hs s a s' hI) h

/-- The machine with a record of its runs, which no step reads : `note s a h` is the record `h`
after the step `a` from `s`. -/
def recording {η : Type*} (M : Machine σ α) (h0 : η) (note : σ → α → η → η) : Machine (σ × η) α where
  init p := M.init p.1 ∧ p.2 = h0
  step p a := (M.step p.1 a).map fun s => (s, note p.1 a p.2)

/-- The rule of invariants for what holds of a state and of the record of the run that led to
it. -/
theorem recording_invariant {η : Type*} {h0 : η} {note : σ → α → η → η} {I : σ → η → Prop}
    (hi : ∀ s, M.init s → I s h0)
    (hs : ∀ s a s' r, I s r → M.step s a = some s' → I s' (note s a r)) {s : σ} {r : η}
    (h : (M.recording h0 note).Reaches (s, r)) : I s r := by
  refine Reaches.invariant (I := fun p => I p.1 p.2) ?_ ?_ h
  · rintro ⟨s, r⟩ ⟨hinit, rfl⟩
    exact hi s hinit
  · rintro ⟨s, r⟩ a p hI hstep
    obtain ⟨t, ht, rfl⟩ := Option.map_eq_some_iff.mp hstep
    exact hs s a t r hI ht

variable (M)

/-- Replay a list of labels, stopping at a label that is not allowed or cannot be taken. -/
def runWhen (ok : σ → α → Prop) [∀ s a, Decidable (ok s a)] : σ → List α → Option σ
  | s, [] => some s
  | s, a :: as => if ok s a then (M.step s a).bind (runWhen ok · as) else none

/-- Replay a list of labels. -/
abbrev run : σ → List α → Option σ :=
  M.runWhen fun _ _ => True

variable {M}

/-- A run takes its first step, and then the others. -/
theorem run_cons {s s' : σ} {a : α} {as : List α} :
    M.run s (a :: as) = some s' ↔ ∃ t, M.step s a = some t ∧ M.run t as = some s' := by
  rw [run, runWhen, if_pos trivial, Option.bind_eq_some_iff]

variable [∀ s a, Decidable (ok s a)]

/-- What is reached goes on to be reached along a run. -/
theorem ReachesWhen.of_runWhen :
    ∀ {as : List α} {s s' : σ}, M.ReachesWhen ok s → M.runWhen ok s as = some s' →
      M.ReachesWhen ok s'
  | [], s, s', h, hr => by
    obtain rfl : s = s' := by simpa [runWhen] using hr
    exact h
  | a :: as, s, s', h, hr => by
    rw [runWhen] at hr
    split_ifs at hr with hok
    obtain ⟨t, ht, hr⟩ := Option.bind_eq_some_iff.mp hr
    exact of_runWhen (h.step hok ht) hr

/-- A replayed run that ends in a state passing the test `p` reaches such a state. -/
theorem exists_reachesWhen (ok : σ → α → Prop) [∀ s a, Decidable (ok s a)] (s : σ) (as : List α)
    (p : σ → Bool) (hi : M.init s) (h : (M.runWhen ok s as).any p = true) :
    ∃ s', M.ReachesWhen ok s' ∧ p s' = true := by
  obtain ⟨s', hs', hp⟩ := (Option.any_eq_true _ _).mp h
  exact ⟨s', .of_runWhen (.init hi) hs', hp⟩

end Machine
