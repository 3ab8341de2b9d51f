import EchoServer.Lib.TokenBucket
import EchoServer.Net.RateLimit

/-!
# What the rate limiter admits

`RateLimiter` with exact arithmetic is a token bucket that starts full and fills at `rate` tokens
in a second (`RateLimiter.allowAll_eq`). So it admits what conforms to the rate and the burst, in
every window of calls, and nothing beyond (`rate_limiter_exact`).
-/

namespace EchoServer

namespace RateLimiter

variable {F : Type*} [Add F] [Sub F] [Mul F] [Div F] [IntCast F] [LT F] [DecidableLT F]

/-- The answers to calls at these times. -/
def allowAll : List ℤ → RateLimiter F → List Bool
  | [], _ => []
  | t :: ts, l => (l.allow t).1 :: allowAll ts (l.allow t).2

/-- The bucket of a limiter, in milliseconds. -/
def bucket (l : RateLimiter ℚ) : TokenBucket ℚ := ⟨l.burst, l.rate / 1000⟩

/-- The time from which tokens have to be added; a limiter that has not been asked starts now. -/
def since (nowMs : ℤ) (l : RateLimiter ℚ) : ℤ := if l.lastMs = 0 then nowMs else l.lastMs

/-- A limiter between two calls. -/
structure Filled (l : RateLimiter ℚ) : Prop where
  rate : 0 < l.rate
  tokens : l.tokens ≤ l.burst

variable {l : RateLimiter ℚ} {nowMs : ℤ}

/-- The limiter refills as the bucket does. -/
theorem refill_eq (h : l.Filled) (hnow : l.since nowMs ≤ nowMs) :
    l.refill nowMs = { l with
      tokens := l.bucket.fill ((nowMs : ℚ) - l.since nowMs) l.tokens, lastMs := nowMs } := by
  have hmin : ∀ a : ℚ, (if a < l.burst then a else (l.burst : ℚ)) = min (l.burst : ℚ) a := by
    intro a
    rw [min_comm, min_def_lt]
  have hfull : min (l.burst : ℚ) l.tokens = l.tokens := min_eq_right h.tokens
  change (if 0 < nowMs - l.since nowMs then _ else _) = _
  by_cases helapsed : 0 < nowMs - l.since nowMs
  · have hflow : (l.rate : ℚ) * (((nowMs - l.since nowMs : ℤ) : ℚ) / ((1000 : ℤ) : ℚ)) =
        l.rate / 1000 * ((nowMs : ℚ) - l.since nowMs) := by
      push_cast
      ring
    rw [if_pos helapsed, hmin, ← since, hflow]
    rfl
  · have hsame : l.since nowMs = nowMs := by omega
    rw [if_neg helapsed, ← since, hsame, TokenBucket.fill, sub_self, mul_zero, add_zero, bucket,
      hfull]

/-- One call is one call of the bucket. -/
theorem allow_eq (h : l.Filled) (hnow : l.since nowMs ≤ nowMs) :
    (l.allow nowMs).1 = (l.bucket.call ((nowMs : ℚ) - l.since nowMs) l.tokens).1 ∧
      (l.allow nowMs).2.tokens = (l.bucket.call ((nowMs : ℚ) - l.since nowMs) l.tokens).2 ∧
      (l.allow nowMs).2.lastMs = nowMs ∧ (l.allow nowMs).2.bucket = l.bucket ∧
      (l.allow nowMs).2.Filled := by
  have hfill : l.bucket.fill ((nowMs : ℚ) - l.since nowMs) l.tokens ≤ l.burst := min_le_left ..
  rw [allow, if_neg (not_le.mpr h.rate), refill_eq h hnow, TokenBucket.call]
  simp only [Int.cast_one]
  split_ifs with hlow
  · exact ⟨rfl, rfl, rfl, rfl, h.rate, hfill⟩
  · exact ⟨rfl, rfl, rfl, rfl, h.rate, (sub_le_self _ zero_le_one).trans hfill⟩

/-- The answers are those of the bucket. -/
theorem allowAll_eq : ∀ {ts : List ℤ} {l : RateLimiter ℚ}, l.Filled → l.lastMs ≠ 0 →
    (∀ t ∈ ts, 0 < t) → (l.lastMs :: ts).Pairwise (· ≤ ·) →
      allowAll ts l = l.bucket.calls l.tokens l.lastMs (ts.map Int.cast)
  | [], _, _, _, _, _ => rfl
  | t :: ts, l, hl, hlast, hpos, hsorted => by
    obtain ⟨hle, hsorted⟩ := List.pairwise_cons.mp hsorted
    have hsince : l.since t = l.lastMs := if_neg hlast
    obtain ⟨hanswer, htokens, hms, hbucket, hfilled⟩ :=
      allow_eq hl (hsince.trans_le (hle t List.mem_cons_self))
    have hne : (l.allow t).2.lastMs ≠ 0 := by
      rw [hms]
      exact (hpos t List.mem_cons_self).ne'
    have hrest := allowAll_eq hfilled hne (fun u hu => hpos u (List.mem_cons_of_mem _ hu))
      (by rwa [hms])
    rw [allowAll, hrest, hanswer, htokens, hms, hbucket, hsince]
    rfl

/-- A limiter as `configure` leaves it. -/
theorem filled_configure {rate : ℤ} (hrate : 1 ≤ rate) (burst : ℤ) :
    (configure rate burst : RateLimiter ℚ).Filled := by
  refine ⟨?_, le_refl _⟩
  simp only [configure]
  split_ifs <;> omega

/-- A new limiter is a bucket that was full at the first call. -/
theorem allowAll_configure {rate : ℤ} (hrate : 1 ≤ rate) (burst t : ℤ) {ts : List ℤ}
    (hpos : ∀ u ∈ t :: ts, 0 < u) (hsorted : (t :: ts).Pairwise (· ≤ ·)) :
    allowAll (t :: ts) (configure rate burst : RateLimiter ℚ) =
      (configure rate burst : RateLimiter ℚ).bucket.calls
        (configure rate burst : RateLimiter ℚ).bucket.cap t ((t :: ts).map Int.cast) := by
  have hsince : (configure rate burst : RateLimiter ℚ).since t = t := rfl
  obtain ⟨hanswer, htokens, hms, hbucket, hfilled⟩ :=
    allow_eq (filled_configure hrate burst) hsince.le
  have hne : ((configure rate burst : RateLimiter ℚ).allow t).2.lastMs ≠ 0 := by
    rw [hms]
    exact (hpos t List.mem_cons_self).ne'
  have hrest := allowAll_eq hfilled hne (fun u hu => hpos u (List.mem_cons_of_mem _ hu))
    (by rwa [hms])
  rw [allowAll, hrest, hanswer, htokens, hms, hbucket, hsince]
  rfl

end RateLimiter

/-- The burst of a limiter that is configured with `rate` and `burst`. -/
def effectiveBurst (rate burst : ℤ) : ℤ := if 0 < burst then burst else max 1 rate

/-- Between the `i`-th call and the `j`-th there are `n` conforming ones. -/
def WithinRate (rate burst : ℤ) (times : List ℤ) (i j : Fin times.length) (n : ℕ) : Prop :=
  (n : ℚ) ≤ effectiveBurst rate burst + rate * ((times.get j - times.get i : ℤ) : ℚ) / 1000

/-- The bound on a stretch of calls is that of the bucket. -/
theorem withinRate_iff {rate : ℤ} (hrate : 1 ≤ rate) (burst : ℤ) {times : List ℤ}
    (i j : Fin times.length) (n : ℕ) : WithinRate rate burst times i j n ↔
      (n : ℚ) ≤ (RateLimiter.configure rate burst : RateLimiter ℚ).bucket.cap +
        (RateLimiter.configure rate burst : RateLimiter ℚ).bucket.rate *
          ((times.get j : ℚ) - times.get i) := by
  have hpos : (if 0 < rate then rate else 0) = rate := if_pos (by omega)
  simp only [WithinRate, RateLimiter.bucket, RateLimiter.configure, effectiveBurst, hpos]
  push_cast
  rw [mul_div_right_comm]

/-- With exact arithmetic, for any rate and burst and any calls in the order of their times : in
every window of calls no more are admitted than the burst and what the rate gives in that time,
and if no window has more calls than that, none is refused. -/
theorem rate_limiter_exact {rate : ℤ} (hrate : 1 ≤ rate) (burst : ℤ) {times : List ℤ}
    (hpos : ∀ t ∈ times, 0 < t) (hsorted : times.Pairwise (· ≤ ·)) :
    (∀ i j : Fin times.length, i ≤ j → WithinRate rate burst times i j
        ((((RateLimiter.allowAll times (.configure rate burst : RateLimiter ℚ)).drop i).take
          (j + 1 - i)).count true)) ∧
      ((∀ i j : Fin times.length, i ≤ j → WithinRate rate burst times i j (j + 1 - i)) →
        ∀ a ∈ RateLimiter.allowAll times (.configure rate burst : RateLimiter ℚ), a = true) := by
  cases times with
  | nil => exact ⟨fun i => i.elim0, fun _ => by simp [RateLimiter.allowAll]⟩
  | cons t ts =>
    simp only [withinRate_iff hrate, RateLimiter.allowAll_configure hrate burst t hpos hsorted]
    set B := (RateLimiter.configure rate burst : RateLimiter ℚ).bucket with hB
    have hcap : 0 ≤ B.cap := by
      simp only [hB, RateLimiter.bucket, RateLimiter.configure, Int.cast_nonneg_iff]
      split_ifs <;> omega
    have hflow : 0 ≤ B.rate := by
      have h0 : (0 : ℚ) ≤ ((if 0 < rate then rate else 0 : ℤ) : ℚ) := by
        rw [Int.cast_nonneg_iff]
        split_ifs <;> omega
      exact div_nonneg h0 (by norm_num)
    have hmap : ((t : ℚ) :: (t :: ts).map Int.cast).Pairwise (· ≤ ·) := by
      rw [List.pairwise_cons, List.pairwise_map]
      refine ⟨fun u hu => ?_, hsorted.imp fun h => Int.cast_le.mpr h⟩
      obtain ⟨v, hv, rfl⟩ := List.mem_map.mp hu
      rcases List.mem_cons.mp hv with rfl | hv
      · exact le_rfl
      · exact Int.cast_le.mpr ((List.pairwise_cons.mp hsorted).1 v hv)
    refine ⟨fun i j hij => ?_, fun hconf => TokenBucket.forall_calls (fun i j hij hj => ?_) ?_⟩
    · have := TokenBucket.count_window_le hcap hflow hcap hmap (i := i) (j := j) hij
        (by simpa only [List.length_map] using j.isLt)
      simpa only [List.get_eq_getElem, List.getElem_map] using this
    · have hj' : j < (t :: ts).length := by simpa using hj
      have := hconf ⟨i, by omega⟩ ⟨j, hj'⟩ hij
      simpa only [List.get_eq_getElem, List.getElem_map] using this
    · rintro u hu
      simpa using hu.symm

/-- Two tokens, one a second : three calls at once are one too many. -/
theorem rate_limiter_exact_burst :
    RateLimiter.allowAll [1, 1, 1, 1001] (.configure 1 2 : RateLimiter ℚ) =
        [true, true, false, true] ∧
      WithinRate 1 2 [1, 1, 1, 1001] ⟨0, by decide⟩ ⟨2, by decide⟩ 2 := by
  have hanswers : RateLimiter.allowAll [1, 1, 1, 1001] (.configure 1 2 : RateLimiter ℚ) =
      [true, true, false, true] := by decide +kernel
  have hrate : (1 : ℤ) ≤ 1 := le_rfl
  have hpos : ∀ t ∈ ([1, 1, 1, 1001] : List ℤ), 0 < t := by decide
  have hwindow := (rate_limiter_exact hrate 2 hpos (by decide)).1 ⟨0, by decide⟩ ⟨2, by decide⟩
    (by decide)
  rw [hanswers] at hwindow
  exact ⟨hanswers, hwindow⟩

end EchoServer
