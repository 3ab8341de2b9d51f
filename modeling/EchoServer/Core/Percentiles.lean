import EchoServer.Core.Buckets
import EchoServer.Lib.Ranks

/-!
# Percentiles

What `percentile` of `core/latency.h` says about the samples. A sample below ten seconds lies in a
bucket whose end is above it, by no more than the width of the bucket (`bucketUpper_bounds`); a
percentile is the end of the bucket of the sample of its rank, or the greatest sample if that is
less (`percentile_eq`).

Above ten seconds there is one bucket, and its end is below its samples, so a percentile may be far
below the sample it stands for (`brackets_iff`). And the rank is rounded to the nearest, not up, so
a percentile may lie below more than the rest of the samples (`covers_iff`).
-/

namespace EchoServer

namespace LatencyHistogram

/-! ## Percentiles -/

/-- The scan stops at the bucket in which the running count reaches the target. -/
theorem scan_eq {target : ℕ} {maxUs : ℤ} : ∀ {counts : List ℕ} {b seen : ℕ} {i : ℤ},
    b < counts.length → seen + (counts.take b).sum < target →
      target ≤ seen + (counts.take (b + 1)).sum →
        scan target maxUs i seen counts = min (bucketUpper (i + b)) maxUs
  | [], _, _, _, hb, _, _ => absurd hb (Nat.not_lt_zero _)
  | n :: counts, 0, seen, i, _, _, hle => by
    have hstop : target ≤ seen + n := by simpa using hle
    simp [scan, hstop]
  | n :: counts, b + 1, seen, i, hb, hlt, hle => by
    simp only [List.take_succ_cons, List.sum_cons, ← add_assoc] at hlt hle
    have hgo : ¬ target ≤ seen + n := by omega
    rw [scan, if_neg hgo, scan_eq (Nat.lt_of_succ_lt_succ hb) hlt hle]
    push_cast
    rw [add_assoc, add_comm 1]

/-- The samples in the first `n` buckets. -/
theorem sum_take_buckets {samples : List ℤ} (hall : ∀ us ∈ samples, Indexed us) (n : ℕ) :
    ((List.ofFn (tally samples).buckets).take n).sum =
      (counted samples).countP fun us : ℕ => bucketOf us < n := by
  rw [List.sum_take_ofFn]
  induction samples with
  | nil => simp [tally, counted]
  | cons us samples ih =>
    obtain ⟨hus, hall⟩ := List.forall_mem_cons.mp hall
    obtain ⟨b, hb⟩ : ∃ b : Fin kBucketCount, bucketOf us.toNat = b := by
      rw [bucketOf_toNat]
      have hlt : (bucketOf us).toNat < kBucketCount := by
        have := hus.1
        have := hus.2
        omega
      exact ⟨⟨(bucketOf us).toNat, hlt⟩, (Int.toNat_of_nonneg hus.1).symm⟩
    have hcons : counted (us :: samples) = us.toNat :: counted samples := rfl
    simp only [tally, hcons, List.countP_cons, Finset.sum_add_distrib] at ih ⊢
    rw [ih hall, hb]
    refine Nat.add_left_cancel_iff.mpr ?_
    simp only [decide_eq_true_eq, Nat.cast_inj, ← Fin.ext_iff, Finset.sum_ite_eq,
      Finset.mem_filter, Finset.mem_univ, true_and, Nat.cast_lt]

/-- The `k`-th smallest sample, negative ones being counted as 0. -/
def sampleAt (samples : List ℤ) (k : ℕ) : ℕ := (counted samples).kth k

/-- The rank is that of a sample. -/
theorem rank_mem (p : ℚ) {count : ℕ} (h : 0 < count) : 0 < rank p count ∧ rank p count ≤ count := by
  unfold rank
  dsimp only
  split_ifs <;> omega

/-- A higher share has no lower rank. -/
theorem rank_mono {p q : ℚ} (hpq : p ≤ q) {count : ℕ} (h : 0 < count) :
    rank p count ≤ rank q count := by
  have hle : ⌊(count : ℚ) * max 0 (min p 1) + 1 / 2⌋₊ ≤
      ⌊(count : ℚ) * max 0 (min q 1) + 1 / 2⌋₊ := by
    refine Nat.floor_le_floor (add_le_add_left (mul_le_mul_of_nonneg_left ?_ count.cast_nonneg) _)
    exact max_le_max_left 0 (min_le_min_right 1 hpq)
  unfold rank
  dsimp only
  split_ifs <;> omega

/-- A sample below `10 ^ 12` is recorded. -/
theorem indexed_of_lt {us : ℤ} (h : us < 10 ^ 12) : Indexed us := by
  have hmem := bucketOf_mem h
  refine ⟨hmem.1, hmem.2.trans_lt ?_⟩
  decide

variable {samples : List ℤ} {h : LatencyHistogram}

theorem counted_lt (hsmall : ∀ us ∈ samples, us < 10 ^ 12) {n : ℕ} (hn : n ∈ counted samples) :
    (n : ℤ) < 10 ^ 12 := by
  obtain ⟨us, hus, rfl⟩ := List.mem_map.mp hn
  have := hsmall us hus
  omega

/-- Each sample is counted once. -/
theorem length_counted (samples : List ℤ) : (counted samples).length = samples.length :=
  List.length_map ..

/-- A percentile is the end of the bucket of the sample it stands for, or the maximum. -/
theorem percentile_eq (hne : samples ≠ []) (hsmall : ∀ us ∈ samples, us < 10 ^ 12)
    (hrec : Records samples h) (p : ℚ) : h.percentile p =
      min (bucketUpper (bucketOf (sampleAt samples (rank p samples.length)))) h.maxUs := by
  obtain ⟨hindexed, rfl⟩ := records_iff.mp hrec
  have hpos : 0 < samples.length := List.length_pos_iff.mpr hne
  obtain ⟨hk, hle⟩ := rank_mem p hpos
  replace hle := hle.trans_eq (length_counted samples).symm
  have hmem := List.kth_mem hk hle
  have hbucket := bucketOf_mem (counted_lt hsmall hmem)
  obtain ⟨b, hb⟩ : ∃ b : ℕ, bucketOf (sampleAt samples (rank p samples.length)) = b :=
    ⟨_, (Int.toNat_of_nonneg hbucket.1).symm⟩
  have hlt : b < kBucketCount := by
    have hover : kOverflow < kBucketCount := by decide
    have := hbucket.2
    rw [sampleAt] at hb
    omega
  have hcount : ∀ n : ℕ, rank p samples.length ≤
      ((List.ofFn (tally samples).buckets).take n).sum ↔ (b : ℤ) < n := by
    intro n
    rw [sum_take_buckets hindexed, List.le_countP_iff _ hk hle, ← sampleAt, hb, decide_eq_true_eq]
    intro x _ y hy hxy hlt
    rw [decide_eq_true_eq] at hlt ⊢
    exact (bucketOf_mono (by exact_mod_cast hxy) (counted_lt hsmall hy)).trans_lt hlt
  have hbefore := hcount b
  have hafter := hcount (b + 1)
  have hscan : scan (rank p samples.length) (tally samples).maxUs 0 0
      (List.ofFn (tally samples).buckets) = min (bucketUpper (0 + b)) (tally samples).maxUs :=
    scan_eq (by rwa [List.length_ofFn]) (by omega) (by omega)
  have hcountne : (tally samples).count ≠ 0 := by
    simpa [tally] using hne
  rw [percentile, if_neg hcountne, hb]
  rw [zero_add] at hscan
  exact hscan

theorem le_maxUs {n : ℕ} (hn : n ∈ counted samples) : n ≤ (tally samples).maxUs := by
  show n ≤ (counted samples).foldr max 0
  generalize counted samples = xs at hn
  induction xs with
  | nil => simp at hn
  | cons x xs ih =>
    rcases List.mem_cons.mp hn with rfl | hn
    · exact le_max_left ..
    · exact (ih hn).trans (le_max_right ..)

/-- The sample of a rank is one of the samples. -/
theorem sampleAt_mem {k : ℕ} (hk : 0 < k) (hle : k ≤ samples.length) :
    sampleAt samples k ∈ counted samples :=
  List.kth_mem hk (hle.trans_eq (length_counted samples).symm)

/-- The maximum is the last sample. -/
theorem maxUs_eq (hne : samples ≠ []) :
    (tally samples).maxUs = sampleAt samples samples.length := by
  have hpos : 0 < samples.length := List.length_pos_iff.mpr hne
  refine le_antisymm ?_ (le_maxUs (sampleAt_mem hpos le_rfl))
  have hle : ∀ n ∈ counted samples, n ≤ sampleAt samples samples.length := by
    intro n hn
    rw [sampleAt, ← length_counted]
    exact List.le_kth_length hn
  show (counted samples).foldr max 0 ≤ _
  generalize sampleAt samples samples.length = m at hle
  generalize counted samples = xs at hle
  induction xs with
  | nil => exact Nat.zero_le _
  | cons x xs ih =>
    obtain ⟨hx, hxs⟩ := List.forall_mem_cons.mp hle
    exact max_le hx (ih hxs)

theorem rank_one {count : ℕ} (h : 0 < count) : rank 1 count = count := by
  have hfloor : ⌊(count : ℚ) * max 0 (min 1 1) + 1 / 2⌋₊ = count := by
    rw [min_self, max_eq_right zero_le_one, mul_one, Nat.floor_eq_iff (by positivity)]
    constructor <;> linarith
  simp only [rank, hfloor]
  split_ifs <;> omega

/-- Every percentile is at the sample it stands for or above it, by no more than the width of its
bucket and not above the maximum, percentiles do not fall, and the last is the maximum. -/
structure Brackets (samples : List ℤ) (h : LatencyHistogram) : Prop where
  le_percentile : ∀ p : ℚ, 0 ≤ p → p ≤ 1 →
    (sampleAt samples (rank p samples.length) : ℤ) ≤ h.percentile p
  percentile_le : ∀ p : ℚ, 0 ≤ p → p ≤ 1 → h.percentile p ≤ h.maxUs
  excess : ∀ p : ℚ, 0 ≤ p → p ≤ 1 →
    h.percentile p - sampleAt samples (rank p samples.length) ≤
      bucketWidth (bucketOf (sampleAt samples (rank p samples.length)))
  mono : ∀ p q : ℚ, 0 ≤ p → p ≤ q → q ≤ 1 → h.percentile p ≤ h.percentile q
  percentile_one : h.percentile 1 = h.maxUs

/-- Below the overflow bucket, the percentile is above its sample by less than a bucket. -/
theorem bracket_of_le (hne : samples ≠ []) (hle : ∀ us ∈ samples, us ≤ 10000000)
    (hrec : Records samples h) (p : ℚ) :
    (sampleAt samples (rank p samples.length) : ℤ) ≤ h.percentile p ∧
      h.percentile p - sampleAt samples (rank p samples.length) ≤
        bucketWidth (bucketOf (sampleAt samples (rank p samples.length))) := by
  have hsmall : ∀ us ∈ samples, us < 10 ^ 12 := fun us hus => by
    have := hle us hus
    omega
  have hpos : 0 < samples.length := List.length_pos_iff.mpr hne
  obtain ⟨hk, hkle⟩ := rank_mem p hpos
  have hmem := sampleAt_mem hk hkle
  have hmax : sampleAt samples (rank p samples.length) ≤ h.maxUs :=
    (records_iff.mp hrec).2 ▸ le_maxUs hmem
  obtain ⟨us, hus, hcount⟩ := List.mem_map.mp hmem
  have hbound := hle us hus
  rw [percentile_eq hne hsmall hrec]
  generalize sampleAt samples (rank p samples.length) = x at hmax hcount
  rcases lt_or_ge (x : ℤ) 10000000 with hlt | hge
  · obtain ⟨hlow, hhigh⟩ := bucketUpper_bounds x.cast_nonneg hlt
    omega
  · -- the sample stands at the end of the last range
    have hx : (x : ℤ) = 10000000 := by omega
    have hupper : bucketUpper (bucketOf 10000000) = 10000000 := by decide
    have hwidth : 0 ≤ bucketWidth (bucketOf 10000000) := by decide
    rw [hx, hupper]
    omega

/-- For any samples below 10^12 : the percentiles bracket the samples they stand for exactly if no
sample is above ten seconds. -/
theorem brackets_iff (hne : samples ≠ []) (hsmall : ∀ us ∈ samples, us < 10 ^ 12) :
    (∃ h, Records samples h ∧ Brackets samples h) ↔ ∀ us ∈ samples, us ≤ 10000000 := by
  have hpos : 0 < samples.length := List.length_pos_iff.mpr hne
  have hrec : Records samples (tally samples) :=
    records_iff.mpr ⟨fun us hus => indexed_of_lt (hsmall us hus), rfl⟩
  constructor
  · rintro ⟨h, hrec', hb⟩ us hus
    obtain rfl := (records_iff.mp hrec').2
    have hone := hb.percentile_one
    by_contra hgt
    rw [percentile_eq hne hsmall hrec, rank_one hpos, ← maxUs_eq hne] at hone
    have hmax : us.toNat ≤ (tally samples).maxUs := le_maxUs (List.mem_map_of_mem hus)
    have hmem : (tally samples).maxUs ∈ counted samples :=
      maxUs_eq hne ▸ sampleAt_mem hpos le_rfl
    have hover : bucketOf (tally samples).maxUs = kOverflow :=
      (bucketOf_eq_kOverflow_iff (counted_lt hsmall hmem)).mpr (by omega)
    have hupper : bucketUpper kOverflow = 10000000 := by decide
    rw [hover, hupper] at hone
    omega
  · intro hle
    refine ⟨tally samples, hrec, ?_⟩
    have hbracket := bracket_of_le hne hle hrec
    refine ⟨fun p _ _ => (hbracket p).1, fun p _ _ => ?_, fun p _ _ => (hbracket p).2,
      fun p q _ hpq _ => ?_, ?_⟩
    · rw [percentile_eq hne hsmall hrec]
      exact min_le_right ..
    · rw [percentile_eq hne hsmall hrec, percentile_eq hne hsmall hrec]
      obtain ⟨hk, -⟩ := rank_mem p hpos
      have hkth := List.kth_mono hk (rank_mono hpq hpos)
        ((rank_mem q hpos).2.trans_eq (length_counted samples).symm)
      have hq := counted_lt hsmall (sampleAt_mem (rank_mem q hpos).1 (rank_mem q hpos).2)
      refine min_le_min_right _ (bucketUpper_mono (bucketOf_mem ?_).1 (bucketOf_mono ?_ hq))
      · exact counted_lt hsmall (sampleAt_mem hk (rank_mem p hpos).2)
      · exact Nat.cast_le.mpr hkth
    · have hone := (hbracket 1).1
      rw [rank_one hpos, ← maxUs_eq hne] at hone
      refine le_antisymm ?_ hone
      rw [percentile_eq hne hsmall hrec]
      exact min_le_right ..

/-- Samples of one bucket each, up to ten seconds. -/
theorem brackets_iff_five_samples :
    ∃ h, Records [1500, 3, 10000000, 90000, 250] h ∧ Brackets [1500, 3, 10000000, 90000, 250] h :=
  (brackets_iff (by decide) (by decide)).mpr (by decide)

/-- The greatest sample is 50 seconds, and the last percentile is 10 seconds. -/
theorem percentile_one_understated : ¬ ∀ samples : List ℤ, samples ≠ [] →
    (∀ us ∈ samples, us < 10 ^ 12) → ∃ h, Records samples h ∧ Brackets samples h := by
  intro hall
  obtain ⟨h, hrec, hb⟩ := hall [50000000] (by decide) (by decide)
  obtain rfl := (records_iff.mp hrec).2
  have hone := hb.percentile_one
  rw [percentile_eq (by decide) (by decide) hrec, List.length_singleton, rank_one one_pos] at hone
  revert hone
  decide

/-! ## Shares -/

/-- At least `p` of all samples are up to the percentile. -/
def Covers (samples : List ℤ) (h : LatencyHistogram) (p : ℚ) : Prop :=
  p * samples.length ≤ (samples.countP fun us => us ≤ h.percentile p : ℕ)

/-- Adding one half and truncating gives no less than rounding up. -/
def RoundsUp (y : ℚ) : Prop := Int.fract y = 0 ∨ 1 / 2 ≤ Int.fract y ∨ y < 1

/-- The rank is the share of the count, rounded to the nearest, and at least one. -/
theorem rank_eq_max {p : ℚ} {count : ℕ} (hp0 : 0 < p) (hp1 : p ≤ 1) :
    rank p count = max 1 ⌊(count : ℚ) * p + 1 / 2⌋₊ := by
  have hle : (count : ℚ) * p ≤ count := mul_le_of_le_one_right count.cast_nonneg hp1
  have hpos : 0 ≤ (count : ℚ) * p := mul_nonneg count.cast_nonneg hp0.le
  have hfloor : ⌊(count : ℚ) * p + 1 / 2⌋₊ < count + 1 := by
    rw [Nat.floor_lt (by linarith)]
    push_cast
    linarith
  unfold rank
  rw [min_eq_left hp1, max_eq_right hp0.le]
  dsimp only
  split_ifs <;> omega

/-- A positive number is its floor and a fraction. -/
theorem exists_floor_fract {y : ℚ} (hy : 0 < y) :
    ∃ (m : ℕ) (f : ℚ), y = m + f ∧ 0 ≤ f ∧ f < 1 ∧ Int.fract y = f ∧ ⌊y⌋₊ = m := by
  have hfloor : (⌊y⌋₊ : ℚ) = ⌊y⌋ := natCast_floor_eq_intCast_floor hy.le
  refine ⟨⌊y⌋₊, Int.fract y, ?_, Int.fract_nonneg y, Int.fract_lt_one y, rfl, rfl⟩
  rw [hfloor, Int.floor_add_fract]

/-- The rank is the number of samples to cover, or one less. -/
theorem rank_eq {p : ℚ} {count : ℕ} (hp0 : 0 < p) (hp1 : p ≤ 1) (h : 0 < count) :
    (RoundsUp (count * p) → rank p count = ⌈count * p⌉₊) ∧
      (¬ RoundsUp (count * p) → rank p count = ⌊count * p⌋₊) := by
  rw [rank_eq_max hp0 hp1]
  have hpos : 0 < (count : ℚ) * p := mul_pos (by exact_mod_cast h) hp0
  generalize (count : ℚ) * p = y at hpos
  obtain ⟨m, f, rfl, hf0, hf1, hfract, hm⟩ := exists_floor_fract hpos
  unfold RoundsUp
  rw [hfract, hm]
  have hceil : f ≠ 0 → ⌈(m : ℚ) + f⌉₊ = m + 1 := by
    intro hf
    rw [Nat.ceil_eq_iff (by omega)]
    push_cast
    have : 0 < f := lt_of_le_of_ne hf0 (Ne.symm hf)
    constructor <;> linarith
  have hlow : f < 1 / 2 → ⌊(m : ℚ) + f + 1 / 2⌋₊ = m := by
    intro hf
    rw [Nat.floor_eq_iff (by linarith)]
    constructor <;> linarith
  constructor
  · intro hup
    rcases lt_or_ge f (1 / 2) with hf | hf
    · rw [hlow hf]
      rcases hup with rfl | hhalf | hone
      · -- a whole number of samples, and not none
        rw [add_zero] at hpos ⊢
        rw [Nat.ceil_natCast]
        exact max_eq_right (Nat.cast_pos.mp hpos)
      · linarith
      · obtain rfl : m = 0 := by
          rw [← Nat.lt_one_iff, ← Nat.cast_lt (α := ℚ)]
          push_cast
          linarith
        rw [hceil (by rintro rfl; simp at hpos)]
        rfl
    · have hfloor : ⌊(m : ℚ) + f + 1 / 2⌋₊ = m + 1 := by
        rw [Nat.floor_eq_iff (by linarith)]
        push_cast
        constructor <;> linarith
      rw [hfloor, hceil (by linarith)]
      exact max_eq_right (by omega)
  · intro hup
    simp only [not_or, not_le, not_lt] at hup
    obtain ⟨-, hf, hone⟩ := hup
    rw [hlow hf]
    have hm1 : 1 ≤ m := by
      by_contra hzero
      obtain rfl : m = 0 := by omega
      push_cast at hone
      linarith
    exact max_eq_right hm1

/-- The counted samples below a bound are the samples below it. -/
theorem countP_counted (hnonneg : ∀ us ∈ samples, 0 ≤ us) (y : ℤ) :
    (samples.countP fun us => us ≤ y) = (counted samples).countP fun us : ℕ => (us : ℤ) ≤ y := by
  rw [counted, List.countP_map]
  refine List.countP_congr fun us hus => ?_
  simp [Int.toNat_of_nonneg (hnonneg us hus)]

/-- For any samples below ten seconds : a percentile covers its share of them exactly if adding
one half rounded the rank up, or the next sample is no greater than the end of the bucket of the
sample before it. -/
theorem covers_iff {samples : List ℤ} {p : ℚ} (hne : samples ≠ [])
    (hrange : ∀ us ∈ samples, 0 ≤ us ∧ us < 10000000) (hp0 : 0 < p) (hp1 : p ≤ 1) :
    (∃ h, Records samples h ∧ Covers samples h p) ↔
      RoundsUp (samples.length * p) ∨
        (sampleAt samples ⌈samples.length * p⌉₊ : ℤ) ≤
          bucketUpper (bucketOf (sampleAt samples ⌊samples.length * p⌋₊)) := by
  have hsmall : ∀ us ∈ samples, us < 10 ^ 12 := fun us hus => by
    have := (hrange us hus).2
    omega
  have hpos : 0 < samples.length := List.length_pos_iff.mpr hne
  have hrec : Records samples (tally samples) :=
    records_iff.mpr ⟨fun us hus => indexed_of_lt (hsmall us hus), rfl⟩
  have hceil0 : 0 < ⌈(samples.length : ℚ) * p⌉₊ := by
    rw [Nat.ceil_pos]
    exact mul_pos (by exact_mod_cast hpos) hp0
  have hceille : ⌈(samples.length : ℚ) * p⌉₊ ≤ samples.length := by
    rw [Nat.ceil_le]
    exact mul_le_of_le_one_right samples.length.cast_nonneg hp1
  have hmem := sampleAt_mem hceil0 hceille
  -- covering the share is being no less than the sample of the rank rounded up
  have hcovers : (∃ h, Records samples h ∧ Covers samples h p) ↔
      (sampleAt samples ⌈samples.length * p⌉₊ : ℤ) ≤
        bucketUpper (bucketOf (sampleAt samples (rank p samples.length))) := by
    have hunique : (∃ h, Records samples h ∧ Covers samples h p) ↔
        Covers samples (tally samples) p :=
      ⟨fun ⟨h, hrec', hc⟩ => (records_iff.mp hrec').2 ▸ hc, fun hc => ⟨_, hrec, hc⟩⟩
    rw [hunique, Covers, mul_comm, ← Nat.ceil_le,
      countP_counted fun us hus => (hrange us hus).1, List.le_countP_iff _ hceil0
        (hceille.trans_eq (length_counted samples).symm), decide_eq_true_eq,
      percentile_eq hne hsmall hrec, le_min_iff]
    · exact and_iff_left (Nat.cast_le.mpr (le_maxUs hmem))
    · intro a _ b _ hab hb
      rw [decide_eq_true_eq] at hb ⊢
      exact (Nat.cast_le.mpr hab).trans hb
  rw [hcovers]
  obtain ⟨hup, hdown⟩ := rank_eq hp0 hp1 hpos
  by_cases hround : RoundsUp (samples.length * p)
  · rw [hup hround]
    refine iff_of_true ?_ (Or.inl hround)
    obtain ⟨us, hus, heq⟩ := List.mem_map.mp hmem
    have hbound := (hrange us hus).2
    exact (bucketUpper_bounds (Nat.cast_nonneg _) (by omega)).1.le
  · rw [hdown hround, or_iff_right hround]

/-- The median of three samples. -/
theorem covers_iff_three_samples : (∃ h, Records [1, 2, 3] h ∧ Covers [1, 2, 3] h (1 / 2)) ↔
    RoundsUp (([1, 2, 3] : List ℤ).length * (1 / 2)) ∨
      (sampleAt [1, 2, 3] ⌈(([1, 2, 3] : List ℤ).length : ℚ) * (1 / 2)⌉₊ : ℤ) ≤
        bucketUpper
          (bucketOf (sampleAt [1, 2, 3] ⌊(([1, 2, 3] : List ℤ).length : ℚ) * (1 / 2)⌋₊)) :=
  covers_iff (by decide) (by decide) (by norm_num) (by norm_num)

/-- A quarter of five samples is rounded to one of them. -/
theorem percentile_one_short : ¬ ∀ (samples : List ℤ) (p : ℚ), samples ≠ [] →
    (∀ us ∈ samples, 0 ≤ us ∧ us < 10000000) → 0 < p → p ≤ 1 →
      ∃ h, Records samples h ∧ Covers samples h p := by
  intro hall
  obtain ⟨h, hrec, hc⟩ := hall [1, 1000, 1000, 1000, 1000] (1 / 4) (by decide) (by decide)
    (by norm_num) (by norm_num)
  obtain rfl := (records_iff.mp hrec).2
  have hrank : rank (1 / 4) 5 = 1 := by
    have hfloor : ⌊((5 : ℕ) : ℚ) * (1 / 4) + 1 / 2⌋₊ = 1 := by
      rw [Nat.floor_eq_iff (by norm_num)]
      norm_num
    rw [rank_eq_max (by norm_num) (by norm_num), hfloor, max_self]
  have hlength : ([1, 1000, 1000, 1000, 1000] : List ℤ).length = 5 := rfl
  rw [Covers, percentile_eq (by decide) (by decide) hrec, hlength, hrank] at hc
  have hcount : (List.countP (fun us : ℤ => us ≤
      min (bucketUpper (bucketOf (sampleAt [1, 1000, 1000, 1000, 1000] 1)))
        (tally [1, 1000, 1000, 1000, 1000]).maxUs) [1, 1000, 1000, 1000, 1000]) = 1 := by
    decide
  rw [hcount] at hc
  norm_num at hc

end LatencyHistogram

end EchoServer
