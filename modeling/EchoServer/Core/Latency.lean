import Mathlib.Data.List.OfFn
import Mathlib.Data.Rat.Floor
import Mathlib.Tactic

/-!
# Latency histograms

`core/latency.h` : samples in microseconds are counted in buckets, narrow ones for short times and
wider ones above, with the number of samples, their sum and the greatest beside. A percentile is
read off the counts.

The buckets are six ranges of equal steps and one bucket above them. `bucketOf` narrows the place
in a range to a 32-bit integer, so a sample of some millions of seconds may have no bucket at all,
and `add` then writes outside its array : it gives `none`.

What the samples of a list come to does not depend on their order (`tally`, `addAll_eq`), so the
histograms of lanes can be merged in any order (`merge_exact`).
-/

namespace EchoServer

/-- A stretch of buckets of one width. -/
structure BucketRange where
  /-- `from`, the first value. -/
  start : ℤ
  step : ℤ
  first : ℤ
  slots : ℤ

/-- The ranges of the buckets, each with a width of its own. -/
def kRanges : List BucketRange :=
  [⟨0, 1, 0, 100⟩, ⟨100, 10, 100, 90⟩, ⟨1000, 100, 190, 90⟩, ⟨10000, 1000, 280, 90⟩,
    ⟨100000, 10000, 370, 90⟩, ⟨1000000, 100000, 460, 90⟩]

/-- The bucket of everything above the ranges. -/
def kOverflow : ℤ := 550

/-- The buckets of the ranges, and the one behind them. -/
def kBucketCount : ℕ := 551

/-- `static_cast<int>`. -/
def castInt (x : ℤ) : ℤ := (x + 2 ^ 31) % 2 ^ 32 - 2 ^ 31

/-- The bucket of a sample, by its range. -/
def bucketOf (us : ℤ) : ℤ :=
  if us ≤ 0 then 0
  else
    match kRanges.reverse.find? fun r => r.start ≤ us with
    | none => 0
    | some r =>
      let offset := castInt ((us - r.start) / r.step)
      if r.slots ≤ offset then kOverflow else r.first + offset

/-- The end of a bucket. -/
def bucketUpper (index : ℤ) : ℤ :=
  if kOverflow ≤ index then
    match kRanges.getLast? with
    | none => 0
    | some r => r.start + r.step * r.slots
  else
    match kRanges.reverse.find? fun r => r.first ≤ index with
    | none => 0
    | some r => r.start + (index - r.first + 1) * r.step

/-- Samples, counted by buckets, with their number, their sum and the greatest one. -/
structure LatencyHistogram where
  buckets : Fin kBucketCount → ℕ
  count : ℕ
  sumUs : UInt64
  /-- It is never negative. -/
  maxUs : ℕ

namespace LatencyHistogram

/-- The histogram without samples. -/
def empty : LatencyHistogram := ⟨fun _ => 0, 0, 0, 0⟩

/-- The sample has a bucket. -/
def Indexed (us : ℤ) : Prop := 0 ≤ bucketOf us ∧ bucketOf us < kBucketCount

instance (us : ℤ) : Decidable (Indexed us) := inferInstanceAs (Decidable (_ ∧ _))

/-- One sample more; `none` where the index of its bucket leaves the array. -/
def add (us : ℤ) (h : LatencyHistogram) : Option LatencyHistogram :=
  let us := if us < 0 then 0 else us
  if hi : Indexed us then
    let i : Fin kBucketCount := ⟨(bucketOf us).toNat, by have := hi.1; have := hi.2; omega⟩
    some {
      buckets := Function.update h.buckets i (h.buckets i + 1)
      count := h.count + 1
      sumUs := h.sumUs + UInt64.ofNat us.toNat
      maxUs := max h.maxUs us.toNat }
  else none

/-- `add` for one sample after the other. -/
def addAll : List ℤ → LatencyHistogram → Option LatencyHistogram
  | [], h => some h
  | us :: samples, h => (h.add us).bind (addAll samples)

/-- The samples of two histograms. -/
def merge (h other : LatencyHistogram) : LatencyHistogram where
  buckets i := h.buckets i + other.buckets i
  count := h.count + other.count
  sumUs := h.sumUs + other.sumUs
  maxUs := if h.maxUs < other.maxUs then other.maxUs else h.maxUs

/-- One distribution of `Service::stats`, merged over the lanes. -/
def stats (lanes : List LatencyHistogram) : LatencyHistogram :=
  lanes.foldl (fun total lane => total.merge lane) empty

/-- The loop of `percentile` : the number of the bucket, the samples seen, and the counts. -/
def scan (target : ℕ) (maxUs : ℤ) : ℤ → ℕ → List ℕ → ℤ
  | _, _, [] => maxUs
  | i, seen, n :: counts =>
    if target ≤ seen + n then min (bucketUpper i) maxUs
    else scan target maxUs (i + 1) (seen + n) counts

/-- The rank that `percentile` looks for among `count` samples. -/
def rank (p : ℚ) (count : ℕ) : ℕ :=
  let target := ⌊(count : ℚ) * max 0 (min p 1) + 1 / 2⌋₊
  if target = 0 then 1 else if count < target then count else target

/-- The upper end of the bucket of the sample at the rank, and no more than the greatest sample. -/
def percentile (h : LatencyHistogram) (p : ℚ) : ℤ :=
  if h.count = 0 then 0
  else scan (rank p h.count) h.maxUs 0 0 (List.ofFn h.buckets)

/-! ## Merging -/

/-- The samples as they are counted. -/
def counted (samples : List ℤ) : List ℕ := samples.map Int.toNat

/-- What the samples come to. -/
def tally (samples : List ℤ) : LatencyHistogram where
  buckets i := (counted samples).countP fun us : ℕ => bucketOf us = i
  count := samples.length
  sumUs := UInt64.ofNat (counted samples).sum
  maxUs := (counted samples).foldr max 0

@[ext] theorem ext {h h' : LatencyHistogram} (hb : ∀ i, h.buckets i = h'.buckets i)
    (hc : h.count = h'.count) (hs : h.sumUs = h'.sumUs) (hm : h.maxUs = h'.maxUs) : h = h' := by
  obtain ⟨buckets, count, sumUs, maxUs⟩ := h
  obtain rfl := funext hb
  obtain rfl := hc
  obtain rfl := hs
  obtain rfl := hm
  rfl

theorem maxUs_merge (h other : LatencyHistogram) :
    (h.merge other).maxUs = max h.maxUs other.maxUs := by
  rw [merge, max_def_lt]

/-- The order of two histograms does not matter. -/
theorem merge_comm (h h' : LatencyHistogram) : h.merge h' = h'.merge h := by
  ext1
  · exact Nat.add_comm ..
  · exact Nat.add_comm ..
  · exact UInt64.add_comm ..
  · rw [maxUs_merge, maxUs_merge, max_comm]

/-- Nor does their grouping. -/
theorem merge_assoc (h h' h'' : LatencyHistogram) :
    (h.merge h').merge h'' = h.merge (h'.merge h'') := by
  ext1
  · exact Nat.add_assoc ..
  · exact Nat.add_assoc ..
  · exact UInt64.add_assoc ..
  · simp only [maxUs_merge, max_assoc]

theorem merge_empty (h : LatencyHistogram) : h.merge empty = h := by
  ext1
  · rfl
  · rfl
  · exact UInt64.add_zero _
  · rw [maxUs_merge]
    exact max_eq_left (Nat.zero_le _)

theorem empty_merge (h : LatencyHistogram) : empty.merge h = h := by
  rw [merge_comm, merge_empty]

/-- Two stretches of samples are tallied apart and merged. -/
theorem tally_append (a b : List ℤ) : tally (a ++ b) = (tally a).merge (tally b) := by
  have hmax : ∀ xs ys : List ℕ, (xs ++ ys).foldr max 0 = max (xs.foldr max 0) (ys.foldr max 0) := by
    intro xs ys
    induction xs with
    | nil => simp
    | cons x xs ih => rw [List.cons_append, List.foldr_cons, ih, List.foldr_cons, max_assoc]
  ext1
  · simp [tally, merge, counted]
  · simp [tally, merge]
  · simp [tally, merge, counted]
  · rw [maxUs_merge]
    simpa [tally, counted] using hmax (counted a) (counted b)

/-- The order of the samples does not matter. -/
theorem tally_perm {a b : List ℤ} (h : a.Perm b) : tally a = tally b := by
  have hcounted : (counted a).Perm (counted b) := h.map _
  ext1
  · exact hcounted.countP_eq _
  · exact h.length_eq
  · exact congrArg UInt64.ofNat hcounted.sum_eq
  · exact hcounted.foldr_eq 0

/-- The tally of one sample. -/
theorem tally_singleton (us : ℤ) : tally [us] =
    ⟨fun i => if bucketOf us.toNat = i then 1 else 0, 1, UInt64.ofNat us.toNat, us.toNat⟩ := by
  ext1
  · simp [tally, counted]
  · rfl
  · rfl
  · exact Nat.max_zero _

/-- Recording a sample merges its tally, if it has a bucket. -/
theorem add_natCast (n : ℕ) (h : LatencyHistogram) :
    h.add n = if Indexed n then some (h.merge (tally [(n : ℤ)])) else none := by
  have hn : (if (n : ℤ) < 0 then 0 else (n : ℤ)) = n := if_neg (by omega)
  rw [tally_singleton, Int.toNat_natCast]
  simp only [add, hn, Int.toNat_natCast]
  by_cases hi : Indexed n
  · rw [if_pos hi, dif_pos hi, Option.some.injEq]
    have hnat : ((bucketOf n).toNat : ℤ) = bucketOf n := Int.toNat_of_nonneg hi.1
    ext1
    · rename_i i
      by_cases heq : bucketOf n = i
      · simp [merge, heq]
      · have hne : i ≠ (⟨(bucketOf n).toNat, by have := hi.2; omega⟩ : Fin kBucketCount) := by
          rintro rfl
          exact heq hnat.symm
        simp [Function.update_of_ne hne, merge, heq]
    · rfl
    · rfl
    · rw [maxUs_merge]
  · rw [if_neg hi, dif_neg hi]

/-- A negative sample is counted in the first bucket. -/
theorem bucketOf_toNat (us : ℤ) : bucketOf us.toNat = bucketOf us := by
  rcases le_total us 0 with h | h
  · rw [Int.toNat_of_nonpos h, bucketOf, bucketOf, if_pos h]
    rfl
  · rw [Int.toNat_of_nonneg h]

/-- A sample is added by merging its own histogram. -/
theorem add_eq (us : ℤ) (h : LatencyHistogram) :
    h.add us = if Indexed us then some (h.merge (tally [us])) else none := by
  have hus : (if us < 0 then 0 else us) = (us.toNat : ℤ) := by
    split_ifs <;> omega
  have hadd : h.add us = h.add us.toNat := by
    have hnat : (if (us.toNat : ℤ) < 0 then 0 else (us.toNat : ℤ)) = us.toNat := if_neg (by omega)
    simp only [add, hus, hnat]
  have hindexed : Indexed us.toNat ↔ Indexed us := by rw [Indexed, bucketOf_toNat, Indexed]
  rw [hadd, add_natCast, tally_singleton, tally_singleton, Int.toNat_natCast]
  simp only [hindexed]

/-- Recording samples merges their tally, if each has a bucket. -/
theorem addAll_eq (samples : List ℤ) : ∀ h : LatencyHistogram, h.addAll samples =
    if ∀ us ∈ samples, Indexed us then some (h.merge (tally samples)) else none := by
  induction samples with
  | nil =>
    intro h
    rw [if_pos (by simp)]
    exact congrArg some (merge_empty h).symm
  | cons us samples ih =>
    intro h
    rw [addAll, add_eq]
    simp only [List.forall_mem_cons]
    by_cases hi : Indexed us
    · rw [if_pos hi, Option.bind_some, ih]
      simp only [hi, true_and, merge_assoc, ← tally_append, List.singleton_append]
    · simp [hi]

/-- The samples have been added, one after the other, to an empty histogram. -/
def Records (samples : List ℤ) (h : LatencyHistogram) : Prop := empty.addAll samples = some h

/-- A histogram records the samples exactly if it is their tally and each has a bucket. -/
theorem records_iff {samples : List ℤ} {h : LatencyHistogram} :
    Records samples h ↔ (∀ us ∈ samples, Indexed us) ∧ tally samples = h := by
  rw [Records, addAll_eq, empty_merge]
  split_ifs with hall
  · exact ⟨fun h => ⟨hall, Option.some.inj h⟩, fun h => congrArg some h.2⟩
  · exact ⟨fun h => absurd h (by simp), fun h => absurd h.1 hall⟩

/-- Merging the lanes yields the tally of all samples. -/
theorem stats_eq {lanes : List (List ℤ)} {hs : List LatencyHistogram}
    (h : List.Forall₂ Records lanes hs) : ∀ total : LatencyHistogram,
      hs.foldl (fun total lane => total.merge lane) total = total.merge (tally lanes.flatten) := by
  induction h with
  | nil => exact fun total => (merge_empty total).symm
  | cons hlane _ ih =>
    intro total
    rw [List.foldl_cons, ih, List.flatten_cons, tally_append, ← (records_iff.mp hlane).2,
      merge_assoc]

/-- For all samples that have buckets : the histogram of some samples merged with the histogram
of others is the histogram of them all. Merging is commutative and associative, with the empty
histogram as its unit. Whatever lanes the samples are recorded in, in any order, and in whatever
order the lanes are merged, the distribution and every percentile are those of one lane. -/
theorem merge_exact :
    (∀ (a b : List ℤ) (ha hb : LatencyHistogram), Records a ha → Records b hb →
      Records (a ++ b) (ha.merge hb)) ∧
    (∀ h h' : LatencyHistogram, h.merge h' = h'.merge h) ∧
    (∀ h h' h'' : LatencyHistogram, (h.merge h').merge h'' = h.merge (h'.merge h'')) ∧
    (∀ h : LatencyHistogram, h.merge empty = h ∧ empty.merge h = h) ∧
    ∀ (lanes : List (List ℤ)) (hs merged : List LatencyHistogram) (samples : List ℤ)
      (single : LatencyHistogram), List.Forall₂ Records lanes hs → merged.Perm hs →
      samples.Perm lanes.flatten → Records samples single →
        stats merged = single ∧ ∀ p : ℚ, (stats merged).percentile p = single.percentile p := by
  refine ⟨fun a b ha hb hra hrb => ?_, merge_comm, merge_assoc,
    fun h => ⟨merge_empty h, empty_merge h⟩, ?_⟩
  · obtain ⟨hia, rfl⟩ := records_iff.mp hra
    obtain ⟨hib, rfl⟩ := records_iff.mp hrb
    exact records_iff.mpr ⟨List.forall_mem_append.mpr ⟨hia, hib⟩, tally_append a b⟩
  · intro lanes hs merged samples single hlanes hmerged hperm hsingle
    have hstats : stats merged = single := by
      have hcomm : RightCommutative fun total lane : LatencyHistogram => total.merge lane :=
        ⟨fun a b c => by rw [merge_assoc, merge_comm b c, ← merge_assoc]⟩
      rw [stats, hmerged.foldl_eq, stats_eq hlanes, empty_merge, ← tally_perm hperm,
        (records_iff.mp hsingle).2]
    exact ⟨hstats, fun p => by rw [hstats]⟩

/-- Two lanes, and one histogram with the samples of both. -/
theorem merge_exact_two_lanes : ∃ a b single : LatencyHistogram, Records [5, 20] a ∧
    Records [7] b ∧ Records [20, 7, 5] single ∧
      stats [b, a] = single ∧ ∀ p : ℚ, (stats [b, a]).percentile p = single.percentile p := by
  have ha : Records [5, 20] (tally [5, 20]) := records_iff.mpr ⟨by decide, rfl⟩
  have hb : Records [7] (tally [7]) := records_iff.mpr ⟨by decide, rfl⟩
  have hsingle : Records [20, 7, 5] (tally [20, 7, 5]) := records_iff.mpr ⟨by decide, rfl⟩
  exact ⟨_, _, _, ha, hb, hsingle, merge_exact.2.2.2.2 [[5, 20], [7]] _ _ [20, 7, 5] _
    (.cons ha (.cons hb .nil)) (.swap _ _ []) (by decide) hsingle⟩

end LatencyHistogram

end EchoServer
