import EchoServer.Core.Latency

/-!
# Buckets

Which bucket of `core/latency.h` a sample is in. Below 10^12 the buckets follow the samples : the
index is in the array, does not fall, and is that of the last bucket from ten seconds on
(`bucketOf_mem`, `bucketOf_mono`, `bucketOf_eq_kOverflow_iff`).

Above one second the place in the range is narrowed to 32 bits before it is compared with the
number of slots. So from 2^31 steps of 100 ms on it depends on the steps modulo 2^32 whether a
sample is in the last bucket, in one of any other range or outside of the array (`bucketed_iff`,
`indexed_iff`). The histograms of nanoseconds come to that after 60 hours.
-/

namespace EchoServer

/-- The cast keeps what fits a 32-bit integer. -/
theorem castInt_eq {x : ℤ} (h0 : 0 ≤ x) (h : x < 2 ^ 31) : castInt x = x := by
  unfold castInt
  omega

theorem find?_cons_decide {α : Type*} (P : α → Prop) [DecidablePred P] (a : α) (l : List α) :
    ((a :: l).find? fun x => P x) = if P a then some a else l.find? fun x => P x := by
  rw [List.find?_cons]
  split_ifs with h <;> simp [h]

/-- The range of a positive sample. -/
theorem find_start {us : ℤ} (h : 0 < us) : (kRanges.reverse.find? fun r => r.start ≤ us) =
    if 1000000 ≤ us then some ⟨1000000, 100000, 460, 90⟩
    else if 100000 ≤ us then some ⟨100000, 10000, 370, 90⟩
    else if 10000 ≤ us then some ⟨10000, 1000, 280, 90⟩
    else if 1000 ≤ us then some ⟨1000, 100, 190, 90⟩
    else if 100 ≤ us then some ⟨100, 10, 100, 90⟩
    else some ⟨0, 1, 0, 100⟩ := by
  simp only [kRanges, List.reverse_cons, List.reverse_nil, List.nil_append, List.cons_append,
    find?_cons_decide, if_pos h.le]

/-- The range of a bucket. -/
theorem find_first {i : ℤ} (h : 0 ≤ i) : (kRanges.reverse.find? fun r => r.first ≤ i) =
    if 460 ≤ i then some ⟨1000000, 100000, 460, 90⟩
    else if 370 ≤ i then some ⟨100000, 10000, 370, 90⟩
    else if 280 ≤ i then some ⟨10000, 1000, 280, 90⟩
    else if 190 ≤ i then some ⟨1000, 100, 190, 90⟩
    else if 100 ≤ i then some ⟨100, 10, 100, 90⟩
    else some ⟨0, 1, 0, 100⟩ := by
  simp only [kRanges, List.reverse_cons, List.reverse_nil, List.nil_append, List.cons_append,
    find?_cons_decide, if_pos h]

/-- The end of a bucket, range by range. -/
theorem bucketUpper_cases {i : ℤ} (h : 0 ≤ i) :
    550 ≤ i ∧ bucketUpper i = 10000000 ∨
    460 ≤ i ∧ i < 550 ∧ bucketUpper i = 1000000 + (i - 460 + 1) * 100000 ∨
    370 ≤ i ∧ i < 460 ∧ bucketUpper i = 100000 + (i - 370 + 1) * 10000 ∨
    280 ≤ i ∧ i < 370 ∧ bucketUpper i = 10000 + (i - 280 + 1) * 1000 ∨
    190 ≤ i ∧ i < 280 ∧ bucketUpper i = 1000 + (i - 190 + 1) * 100 ∨
    100 ≤ i ∧ i < 190 ∧ bucketUpper i = 100 + (i - 100 + 1) * 10 ∨
    i < 100 ∧ bucketUpper i = 0 + (i - 0 + 1) * 1 := by
  have hover : kOverflow = 550 := rfl
  unfold bucketUpper
  rw [find_first h, hover]
  by_cases hi : 550 ≤ i
  · rw [if_pos hi]
    exact Or.inl ⟨hi, rfl⟩
  · rw [if_neg hi]
    split_ifs <;> dsimp only <;> omega

/-- The bucket of a sample below 10^12, range by range. -/
theorem bucketOf_cases {us : ℤ} (hus : us < 10 ^ 12) :
    10000000 ≤ us ∧ bucketOf us = 550 ∨
    1000000 ≤ us ∧ us < 10000000 ∧ bucketOf us = 460 + (us - 1000000) / 100000 ∨
    100000 ≤ us ∧ us < 1000000 ∧ bucketOf us = 370 + (us - 100000) / 10000 ∨
    10000 ≤ us ∧ us < 100000 ∧ bucketOf us = 280 + (us - 10000) / 1000 ∨
    1000 ≤ us ∧ us < 10000 ∧ bucketOf us = 190 + (us - 1000) / 100 ∨
    100 ≤ us ∧ us < 1000 ∧ bucketOf us = 100 + (us - 100) / 10 ∨
    0 < us ∧ us < 100 ∧ bucketOf us = us ∨
    us ≤ 0 ∧ bucketOf us = 0 := by
  have hover : kOverflow = 550 := rfl
  unfold bucketOf
  by_cases hpos : us ≤ 0
  · rw [if_pos hpos]
    omega
  · rw [if_neg hpos, find_start (by omega), hover]
    split_ifs <;> dsimp only <;> rw [castInt_eq (by omega) (by omega)] <;> split_ifs <;> omega

/-- A sample below 10^12 lies in a bucket up to `i` exactly if it is below the end of `i`. -/
theorem bucketOf_le_iff {us i : ℤ} (hus : us < 10 ^ 12) (h0 : 0 ≤ i) (hi : i < kOverflow) :
    bucketOf us ≤ i ↔ us < bucketUpper i := by
  have hover : kOverflow = 550 := rfl
  have hbucket := bucketOf_cases hus
  have hupper := bucketUpper_cases h0
  omega

/-- The width of a bucket below the last. -/
def bucketWidth (index : ℤ) : ℤ :=
  match kRanges.reverse.find? fun r => r.first ≤ index with
  | none => 0
  | some r => r.step

/-- The widths of the buckets, by the range that the index is in. -/
theorem bucketWidth_cases {i : ℤ} (h : 0 ≤ i) :
    460 ≤ i ∧ bucketWidth i = 100000 ∨
    370 ≤ i ∧ i < 460 ∧ bucketWidth i = 10000 ∨
    280 ≤ i ∧ i < 370 ∧ bucketWidth i = 1000 ∨
    190 ≤ i ∧ i < 280 ∧ bucketWidth i = 100 ∨
    100 ≤ i ∧ i < 190 ∧ bucketWidth i = 10 ∨
    i < 100 ∧ bucketWidth i = 1 := by
  unfold bucketWidth
  rw [find_first h]
  split_ifs <;> dsimp only <;> omega

/-- A sample below `10 ^ 12` has a bucket. -/
theorem bucketOf_mem {us : ℤ} (hus : us < 10 ^ 12) : 0 ≤ bucketOf us ∧ bucketOf us ≤ kOverflow := by
  have hover : kOverflow = 550 := rfl
  have hbucket := bucketOf_cases hus
  omega

/-- A longer sample is not in an earlier bucket. -/
theorem bucketOf_mono {us us' : ℤ} (h : us ≤ us') (hus : us' < 10 ^ 12) :
    bucketOf us ≤ bucketOf us' := by
  obtain ⟨h0, hle⟩ := bucketOf_mem hus
  rcases hle.lt_or_eq with hlt | heq
  · rw [bucketOf_le_iff (by omega) h0 hlt]
    exact h.trans_lt ((bucketOf_le_iff hus h0 hlt).mp le_rfl)
  · rw [heq]
    exact (bucketOf_mem (by omega)).2

/-- The samples above the ranges share a bucket. -/
theorem bucketOf_eq_kOverflow_iff {us : ℤ} (hus : us < 10 ^ 12) :
    bucketOf us = kOverflow ↔ 10000000 ≤ us := by
  have hle := (bucketOf_mem hus).2
  have hiff := bucketOf_le_iff hus (i := 549) (by decide) (by decide)
  have hupper : bucketUpper 549 = 10000000 := by decide
  rw [hupper] at hiff
  simp only [kOverflow] at hle ⊢
  omega

/-- A bucket begins where the one before it ends. -/
theorem bucketUpper_succ {i : ℤ} (h0 : 0 ≤ i) (hi : i + 1 < kOverflow) :
    bucketUpper (i + 1) = bucketUpper i + bucketWidth (i + 1) := by
  have hover : kOverflow = 550 := rfl
  have hnext : 0 ≤ i + 1 := by omega
  have hupper := bucketUpper_cases h0
  have hupper' := bucketUpper_cases hnext
  have hwidth := bucketWidth_cases hnext
  omega

/-- The upper ends are in the order of the buckets. -/
theorem bucketUpper_mono {i j : ℤ} (h0 : 0 ≤ i) (hij : i ≤ j) : bucketUpper i ≤ bucketUpper j := by
  have hupper := bucketUpper_cases h0
  have hupper' := bucketUpper_cases (h0.trans hij)
  omega

/-- The end of its bucket is above a sample, and no more than a width above it. -/
theorem bucketUpper_bounds {us : ℤ} (h0 : 0 ≤ us) (hus : us < 10000000) :
    us < bucketUpper (bucketOf us) ∧
      bucketUpper (bucketOf us) ≤ us + bucketWidth (bucketOf us) := by
  have hmem : 0 ≤ bucketOf us ∧ bucketOf us ≤ kOverflow := bucketOf_mem (by omega)
  have hne : bucketOf us ≠ kOverflow := by
    rw [Ne, bucketOf_eq_kOverflow_iff (by omega)]
    omega
  have hlt := lt_of_le_of_ne hmem.2 hne
  refine ⟨(bucketOf_le_iff (by omega) hmem.1 hlt).mp le_rfl, ?_⟩
  rcases hmem.1.eq_or_lt with hzero | hpos
  · have hupper : bucketUpper 0 = 1 := by decide
    have hwidth : bucketWidth 0 = 1 := by decide
    rw [← hzero, hupper, hwidth]
    omega
  · have hprev : bucketOf us ≤ bucketOf us - 1 ↔ us < bucketUpper (bucketOf us - 1) :=
      bucketOf_le_iff (by omega) (by omega) (by omega)
    have hsucc := bucketUpper_succ (i := bucketOf us - 1) (by omega) (by omega)
    rw [sub_add_cancel] at hsucc
    omega

/-! ## Any sample -/

/-- The bucket of a sample from one second on. -/
theorem bucketOf_long {us : ℤ} (h : 1000000 ≤ us) : bucketOf us =
    if 90 ≤ castInt ((us - 1000000) / 100000) then kOverflow
    else 460 + castInt ((us - 1000000) / 100000) := by
  unfold bucketOf
  rw [if_neg (by omega), find_start (by omega), if_pos h]

/-- The steps of 100 ms above one second, as they are kept in 32 bits, are past the slots. -/
def PastSlots (us : ℤ) : Prop :=
  90 ≤ (us - 1000000) / 100000 % 2 ^ 32 ∧ (us - 1000000) / 100000 % 2 ^ 32 < 2 ^ 31

instance (us : ℤ) : Decidable (PastSlots us) := inferInstanceAs (Decidable (_ ∧ _))

/-- When the low 32 bits, read as a signed integer, reach `n`. -/
theorem le_castInt_iff {x n : ℤ} (h0 : 0 ≤ n) (h : n < 2 ^ 31) :
    n ≤ castInt x ↔ n ≤ x % 2 ^ 32 ∧ x % 2 ^ 32 < 2 ^ 31 := by
  unfold castInt
  omega

/-- From ten seconds on, a sample is in the last bucket, or in one below it. -/
theorem bucketOf_overflow {us : ℤ} (h : 10000000 ≤ us) :
    PastSlots us ∧ bucketOf us = kOverflow ∨ ¬ PastSlots us ∧ bucketOf us < kOverflow := by
  have hover : kOverflow = 550 := rfl
  have hpast : 90 ≤ castInt ((us - 1000000) / 100000) ↔ PastSlots us :=
    le_castInt_iff (by omega) (by omega)
  rw [bucketOf_long (by omega)]
  by_cases hp : PastSlots us
  · exact Or.inl ⟨hp, if_pos (hpast.mpr hp)⟩
  · rw [if_neg (hpast.not.mpr hp)]
    rw [← hpast] at hp ⊢
    omega

theorem bucketOf_le (us : ℤ) : bucketOf us ≤ kOverflow := by
  rcases lt_or_ge us 10000000 with h | h
  · exact (bucketOf_mem (by omega)).2
  · obtain ⟨-, heq⟩ | ⟨-, hlt⟩ := bucketOf_overflow h
    · exact heq.le
    · exact hlt.le

/-- A sample has a bucket unless the steps of 100 ms above one second come, in 32 bits, to less
than -460. -/
theorem indexed_iff (us : ℤ) : LatencyHistogram.Indexed us ↔
    us < 10000000 ∨ (us - 1000000) / 100000 % 2 ^ 32 < 2 ^ 31 ∨
      2 ^ 32 - 460 ≤ (us - 1000000) / 100000 % 2 ^ 32 := by
  have hover : kOverflow = 550 := rfl
  have hcount : (kBucketCount : ℤ) = 551 := rfl
  have hle := bucketOf_le us
  rw [LatencyHistogram.Indexed, hcount]
  rcases lt_or_ge us 10000000 with h | h
  · have hmem : 0 ≤ bucketOf us ∧ bucketOf us ≤ kOverflow := bucketOf_mem (by omega)
    exact iff_of_true ⟨hmem.1, by omega⟩ (Or.inl h)
  · rw [bucketOf_long (by omega)] at hle ⊢
    unfold castInt at hle ⊢
    split_ifs at hle ⊢ <;> omega

/-- What is to hold of a sample : it has a bucket, no lesser sample has a higher one, from ten
seconds on it is the last, and the sample is counted inside of the array. -/
structure Bucketed (us : Int64) : Prop where
  mem : 0 ≤ bucketOf us.toInt ∧ bucketOf us.toInt ≤ kBucketCount - 1
  mono : ∀ us' : Int64, us' ≤ us → bucketOf us'.toInt ≤ bucketOf us.toInt
  overflow : 10000000 ≤ us.toInt → bucketOf us.toInt = kOverflow
  added : ∀ h : LatencyHistogram, (h.add us.toInt).isSome

/-- A sample is recorded exactly if its index is inside the array. -/
theorem isSome_add_iff (us : ℤ) (h : LatencyHistogram) :
    (h.add us).isSome ↔ LatencyHistogram.Indexed us := by
  rw [LatencyHistogram.add_eq]
  split_ifs with hi <;> simp [hi]

/-- It holds of exactly the samples below ten seconds and those whose steps of 100 ms above one
second are past the slots in 32 bits as well. -/
theorem bucketed_iff (us : Int64) :
    Bucketed us ↔ us.toInt < 10000000 ∨ PastSlots us.toInt := by
  have hcount : (kBucketCount : ℤ) = 551 := rfl
  have hover : kOverflow = 550 := rfl
  constructor
  · intro h
    rcases lt_or_ge us.toInt 10000000 with hlt | hge
    · exact Or.inl hlt
    · obtain ⟨hp, -⟩ | ⟨-, hlt⟩ := bucketOf_overflow hge
      · exact Or.inr hp
      · exact absurd (h.overflow hge) hlt.ne
  · intro h
    have hlast : 10000000 ≤ us.toInt → bucketOf us.toInt = kOverflow := by
      intro hge
      obtain ⟨-, heq⟩ | ⟨hp, -⟩ := bucketOf_overflow hge
      · exact heq
      · exact absurd (h.resolve_left (by omega)) hp
    have hmem : 0 ≤ bucketOf us.toInt := by
      rcases lt_or_ge us.toInt 10000000 with hlt | hge
      · exact (bucketOf_mem (by omega)).1
      · rw [hlast hge]
        decide
    have hle := bucketOf_le us.toInt
    refine ⟨⟨hmem, by omega⟩, fun us' hus => ?_, hlast, fun hist => ?_⟩
    · rcases lt_or_ge us.toInt 10000000 with hlt | hge
      · exact bucketOf_mono (Int64.le_iff_toInt_le.mp hus) (by omega)
      · rw [hlast hge]
        exact bucketOf_le _
    · rw [isSome_add_iff]
      exact ⟨hmem, by omega⟩

/-- One step past 2^31 of them there is no bucket : `add` writes outside of its array. -/
theorem not_bucketed_overflow : ¬ ∀ us : Int64, Bucketed us := by
  intro h
  have hmem := (h 214748365800000).mem.1
  revert hmem
  decide

end EchoServer
