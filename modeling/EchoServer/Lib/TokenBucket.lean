import Mathlib.Tactic

/-!
# Token buckets

A `TokenBucket` fills at a rate up to a capacity, and a call takes one token or is refused. Times
and levels are in an ordered field, so nothing is rounded.

Over any window of calls the tokens taken are no more than what the bucket can hold and what
flows in meanwhile (`count_calls_le`). If no window asks for more than that, no call is refused
(`forall_calls`) : the level never falls below what the window since the bucket was last full
leaves over.
-/

/-- A bucket of tokens, which fills at a rate up to a cap. -/
structure TokenBucket (K : Type*) where
  cap : K
  /-- What flows in per unit of time. -/
  rate : K

namespace TokenBucket

variable {K : Type*} [Field K] [LinearOrder K] (B : TokenBucket K)

/-- The level `dt` after it was `level`. -/
def fill (dt level : K) : K := min B.cap (level + B.rate * dt)

/-- A call `dt` after the level was `level` : whether it is admitted, and the level it leaves. -/
def call (dt level : K) : Bool × K :=
  if B.fill dt level < 1 then (false, B.fill dt level) else (true, B.fill dt level - 1)

/-- The answers to calls at the given times, when the level was `level` at time `last`. -/
def calls : K → K → List K → List Bool
  | _, _, [] => []
  | level, last, t :: ts =>
    (B.call (t - last) level).1 :: calls (B.call (t - last) level).2 t ts

/-- From the `i`-th call to the `j`-th there are no more than fit in the bucket and flow in. -/
def Conforms (ts : List K) : Prop :=
  ∀ i j (hij : i ≤ j) (hj : j < ts.length),
    ((j + 1 - i : ℕ) : K) ≤ B.cap + B.rate * (ts[j] - ts[i])

variable {B} {level last e s : K} {ts : List K}

/-- The first calls do not depend on the later ones. -/
theorem take_calls (ts : List K) : ∀ (n : ℕ) (level last : K),
    (B.calls level last ts).take n = B.calls level last (ts.take n) := by
  induction ts with
  | nil => simp [calls]
  | cons t ts ih =>
    rintro (_ | n) level last
    · rfl
    · exact congrArg _ (ih n _ _)

/-- The calls that are granted are counted one by one. -/
theorem count_calls_cons (level last t : K) (ts : List K) :
    ((B.calls level last (t :: ts)).count true : K) =
      ((B.calls (B.call (t - last) level).2 t ts).count true : K) +
        ((B.call (t - last) level).1.toNat : K) := by
  rw [calls, List.count_cons]
  cases (B.call (t - last) level).1 <;> simp

/-- After `n` calls since `s`, the calls to come do not ask for more than fits and flows in. -/
def Within (B : TokenBucket K) (s : K) (n : ℕ) (ts : List K) : Prop :=
  ∀ k (hk : k < ts.length), ((n + k + 1 : ℕ) : K) ≤ B.cap + B.rate * (ts[k] - s)

/-- The first call of a sequence that conforms is within the rate. -/
theorem Conforms.within {t : K} (h : B.Conforms (t :: ts)) : B.Within t 1 ts := by
  intro k hk
  have := h 0 (k + 1) (Nat.zero_le _) (by simpa using hk)
  simpa [add_comm, add_left_comm] using this

/-- The calls after the first conform, too. -/
theorem Conforms.tail {t : K} (h : B.Conforms (t :: ts)) : B.Conforms ts := by
  intro i j hij hj
  have := h (i + 1) (j + 1) (Nat.succ_le_succ hij) (by simpa using hj)
  simpa using this

/-- A bucket that grants a call holds at least one token. -/
theorem Conforms.one_le {t : K} (h : B.Conforms (t :: ts)) : 1 ≤ B.cap := by
  have := h 0 0 le_rfl (Nat.zero_lt_succ _)
  simpa only [Nat.zero_add, Nat.sub_zero, Nat.cast_one, sub_self, mul_zero, add_zero] using this

variable [IsStrictOrderedRing K]

/-- Filling does not empty the bucket. -/
theorem fill_nonneg (hcap : 0 ≤ B.cap) (hrate : 0 ≤ B.rate) {dt : K} (hdt : 0 ≤ dt)
    (hlevel : 0 ≤ level) : 0 ≤ B.fill dt level :=
  le_min hcap (add_nonneg hlevel (mul_nonneg hrate hdt))

/-- What a call leaves and takes is what was there. -/
theorem call_add (dt level : K) :
    (B.call dt level).2 + ((B.call dt level).1.toNat : K) = B.fill dt level := by
  unfold call
  split_ifs <;> simp

/-- Nor does a call take more than there is. -/
theorem call_nonneg (hcap : 0 ≤ B.cap) (hrate : 0 ≤ B.rate) {dt : K} (hdt : 0 ≤ dt)
    (hlevel : 0 ≤ level) : 0 ≤ (B.call dt level).2 := by
  unfold call
  split_ifs with h
  · exact fill_nonneg hcap hrate hdt hlevel
  · exact sub_nonneg.mpr (not_lt.mp h)

/-! ## No window is given too much -/

/-- The calls up to time `e` take no more than the level and what flows in. -/
theorem count_calls_le_level (hcap : 0 ≤ B.cap) (hrate : 0 ≤ B.rate) :
    ∀ {ts : List K} {level last : K}, 0 ≤ level → (last :: ts).Pairwise (· ≤ ·) →
      (∀ t ∈ last :: ts, t ≤ e) →
        ((B.calls level last ts).count true : K) ≤ level + B.rate * (e - last)
  | [], level, last, hlevel, _, he => by
    have hle := he last List.mem_cons_self
    simpa [calls] using add_nonneg hlevel (mul_nonneg hrate (sub_nonneg.mpr hle))
  | t :: ts, level, last, hlevel, hsorted, he => by
    obtain ⟨hlast, hsorted⟩ := List.pairwise_cons.mp hsorted
    have hdt : 0 ≤ t - last := sub_nonneg.mpr (hlast t List.mem_cons_self)
    have hrest := count_calls_le_level hcap hrate (call_nonneg hcap hrate hdt hlevel) hsorted
      fun u hu => he u (List.mem_cons_of_mem _ hu)
    have hcall := call_add (B := B) (t - last) level
    have hfill : B.fill (t - last) level ≤ level + B.rate * (t - last) := min_le_right ..
    rw [count_calls_cons]
    linarith

/-- Calls from `t` on take no more than what fits in the bucket and flows in until `e`. -/
theorem count_calls_le (hcap : 0 ≤ B.cap) (hrate : 0 ≤ B.rate) (hlevel : 0 ≤ level) {t : K}
    (hlast : last ≤ t) (hsorted : (t :: ts).Pairwise (· ≤ ·)) (he : ∀ u ∈ t :: ts, u ≤ e) :
    ((B.calls level last (t :: ts)).count true : K) ≤ B.cap + B.rate * (e - t) := by
  have hdt : 0 ≤ t - last := sub_nonneg.mpr hlast
  have hrest := count_calls_le_level hcap hrate (call_nonneg hcap hrate hdt hlevel) hsorted he
  have hcall := call_add (B := B) (t - last) level
  have hfill : B.fill (t - last) level ≤ B.cap := min_le_left ..
  rw [count_calls_cons]
  linarith

/-- From the `i`-th call to the `j`-th no more are admitted than fit in the bucket and flow in. -/
theorem count_window_le (hcap : 0 ≤ B.cap) (hrate : 0 ≤ B.rate) :
    ∀ {ts : List K} {level last : K} {i j : ℕ}, 0 ≤ level → (last :: ts).Pairwise (· ≤ ·) →
      (hij : i ≤ j) → (hj : j < ts.length) →
        ((((B.calls level last ts).drop i).take (j + 1 - i)).count true : K) ≤
          B.cap + B.rate * (ts[j] - ts[i])
  | t :: ts, level, last, 0, j, hlevel, hsorted, _, hj => by
    obtain ⟨hlast, hsorted⟩ := List.pairwise_cons.mp hsorted
    rw [List.drop_zero, Nat.sub_zero, take_calls, List.take_succ_cons]
    refine count_calls_le hcap hrate hlevel (hlast t List.mem_cons_self) ?_ fun u hu => ?_
    · exact hsorted.sublist ((List.take_sublist j ts).cons_cons t)
    · rw [← List.take_succ_cons] at hu
      obtain ⟨k, hk, rfl⟩ := List.mem_take_iff_getElem.mp hu
      exact hsorted.rel_get_of_le (a := ⟨k, by omega⟩) (b := ⟨j, hj⟩) (by simp; omega)
  | t :: ts, level, last, i + 1, 0, _, _, hij, _ => absurd hij (Nat.not_succ_le_zero i)
  | t :: ts, level, last, i + 1, j + 1, hlevel, hsorted, hij, hj => by
    obtain ⟨hlast, hsorted⟩ := List.pairwise_cons.mp hsorted
    have hdt : 0 ≤ t - last := sub_nonneg.mpr (hlast t List.mem_cons_self)
    have hrest := count_window_le hcap hrate (call_nonneg hcap hrate hdt hlevel) hsorted
      (Nat.le_of_succ_le_succ hij) (Nat.lt_of_succ_lt_succ hj)
    simpa only [calls, List.drop_succ_cons, Nat.add_sub_add_right, List.getElem_cons_succ] using hrest

/-! ## Conforming calls are admitted -/

/-- A call is admitted as long as the level keeps up with the calls since some time `s`. -/
theorem forall_calls_of_within : ∀ {ts : List K} {level last s : K} {n : ℕ}, B.Conforms ts →
    B.Within s n ts → B.cap + B.rate * (last - s) - n ≤ level →
      ∀ a ∈ B.calls level last ts, a = true
  | [], _, _, _, _, _, _, _ => by simp [calls]
  | t :: ts, level, last, s, n, hconf, hwithin, hlevel => by
    have hfirst : ((n + 0 + 1 : ℕ) : K) ≤ B.cap + B.rate * (t - s) :=
      hwithin 0 (Nat.zero_lt_succ _)
    push_cast at hfirst
    have hflow : B.cap + B.rate * (t - s) - n ≤ level + B.rate * (t - last) := by linarith
    have hone : 1 ≤ B.fill (t - last) level := le_min hconf.one_le (by linarith)
    have hcall : B.call (t - last) level = (true, B.fill (t - last) level - 1) :=
      if_neg (not_lt.mpr hone)
    have hrest : ∀ a ∈ B.calls (B.fill (t - last) level - 1) t ts, a = true := by
      rcases min_choice B.cap (level + B.rate * (t - last)) with hfull | hpart
      · -- the bucket was full, and the window starts again
        refine forall_calls_of_within (s := t) (n := 1) hconf.tail hconf.within ?_
        rw [fill, hfull]
        simp
      · refine forall_calls_of_within (s := s) (n := n + 1) hconf.tail (fun k hk => ?_) ?_
        · have := hwithin (k + 1) (by simpa using hk)
          simpa [add_assoc, add_comm, add_left_comm] using this
        · rw [fill, hpart]
          push_cast
          linarith
    rw [calls, hcall]
    simpa using hrest

/-- From a full bucket, calls that conform are all admitted. -/
theorem forall_calls (hconf : B.Conforms ts) (hlast : ∀ t ∈ ts.head?, t = last) :
    ∀ a ∈ B.calls B.cap last ts, a = true := by
  refine forall_calls_of_within (s := last) (n := 0) hconf (fun k hk => ?_) (by simp)
  obtain ⟨t, us, rfl⟩ := List.exists_cons_of_length_pos (Nat.zero_lt_of_lt hk)
  obtain rfl := hlast t rfl
  have := hconf 0 k (Nat.zero_le _) hk
  simpa using this

end TokenBucket
