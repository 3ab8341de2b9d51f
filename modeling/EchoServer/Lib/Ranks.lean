import Mathlib.Data.List.GetD
import Mathlib.Data.List.Sort
import Mathlib.Tactic

/-!
# Ranks in a list

`kth xs k` is the `k`-th smallest element of a list, counted from one. A property that passes to
smaller elements holds of at least `k` elements exactly if it holds of the `k`-th smallest
(`le_countP_iff`), so how many elements lie below a bound and which rank the bound reaches are
the same question.
-/

namespace List

variable {α : Type*} [LinearOrder α]

/-- In a sorted list, a property that passes to smaller elements holds of a front part. -/
theorem lt_countP_iff_of_sorted {p : α → Bool} :
    ∀ {s : List α}, (∀ a ∈ s, ∀ b ∈ s, a ≤ b → p b = true → p a = true) → s.Pairwise (· ≤ ·) →
      ∀ {i : ℕ} (hi : i < s.length), i < s.countP p ↔ p s[i] = true
  | [], _, _, i, hi => absurd hi (Nat.not_lt_zero i)
  | a :: s, hp, hs, i, hi => by
    obtain ⟨ha, hs⟩ := pairwise_cons.mp hs
    have hrest : ∀ b ∈ s, ∀ c ∈ s, b ≤ c → p c = true → p b = true := fun b hb c hc =>
      hp b (mem_cons_of_mem _ hb) c (mem_cons_of_mem _ hc)
    by_cases hpa : p a = true
    · rw [countP_cons_of_pos hpa]
      cases i with
      | zero => simp [hpa]
      | succ i =>
        rw [Nat.succ_lt_succ_iff, lt_countP_iff_of_sorted hrest hs (Nat.lt_of_succ_lt_succ hi)]
        rfl
    · have hnone : ∀ b ∈ a :: s, ¬ p b = true := by
        rintro b hb hpb
        rcases mem_cons.mp hb with rfl | hb
        · exact hpa hpb
        · exact hpa (hp a mem_cons_self b (mem_cons_of_mem _ hb) (ha b hb) hpb)
      rw [countP_eq_zero.mpr hnone]
      simpa using hnone _ (getElem_mem hi)

variable [Inhabited α]

/-- The `k`-th smallest element. -/
def kth (xs : List α) (k : ℕ) : α := (xs.insertionSort (· ≤ ·)).getD (k - 1) default

/-- The `k`-th of a list is one of its items. -/
theorem kth_mem {xs : List α} {k : ℕ} (hk : 0 < k) (hle : k ≤ xs.length) : xs.kth k ∈ xs := by
  have hlt : k - 1 < (xs.insertionSort (· ≤ ·)).length := by
    rw [length_insertionSort]
    omega
  rw [kth, getD_eq_getElem _ _ hlt]
  exact (perm_insertionSort _ xs).subset (getElem_mem hlt)

/-- A property that passes to smaller elements holds of `k` elements exactly if it holds of the
`k`-th smallest. -/
theorem le_countP_iff {p : α → Bool} {xs : List α}
    (hp : ∀ a ∈ xs, ∀ b ∈ xs, a ≤ b → p b = true → p a = true) {k : ℕ} (hk : 0 < k)
    (hle : k ≤ xs.length) : k ≤ xs.countP p ↔ p (xs.kth k) = true := by
  have hlt : k - 1 < (xs.insertionSort (· ≤ ·)).length := by
    rw [length_insertionSort]
    omega
  have hperm := perm_insertionSort (· ≤ ·) xs
  have hsorted : (xs.insertionSort (· ≤ ·)).Pairwise (· ≤ ·) := pairwise_insertionSort _ xs
  rw [kth, getD_eq_getElem _ _ hlt, ← lt_countP_iff_of_sorted (fun a ha b hb =>
    hp a (hperm.subset ha) b (hperm.subset hb)) hsorted hlt, hperm.countP_eq]
  omega

/-- At least `k` items are at most `y` exactly if the `k`-th is. -/
theorem le_countP_le_iff {xs : List α} {k : ℕ} (hk : 0 < k) (hle : k ≤ xs.length) (y : α) :
    k ≤ xs.countP (· ≤ y) ↔ xs.kth k ≤ y := by
  rw [le_countP_iff (fun a _ b _ hab hb => ?_) hk hle, decide_eq_true_eq]
  rw [decide_eq_true_eq] at hb ⊢
  exact hab.trans hb

/-- The items are ranked in their order. -/
theorem kth_mono {xs : List α} {j k : ℕ} (hj : 0 < j) (hjk : j ≤ k) (hle : k ≤ xs.length) :
    xs.kth j ≤ xs.kth k := by
  rw [← le_countP_le_iff hj (hjk.trans hle)]
  exact hjk.trans ((le_countP_le_iff (hj.trans_le hjk) hle _).mpr le_rfl)

/-- The last one is the greatest. -/
theorem le_kth_length {xs : List α} {x : α} (hx : x ∈ xs) : x ≤ xs.kth xs.length := by
  have hpos := length_pos_of_mem hx
  have hall := (le_countP_le_iff hpos le_rfl (xs.kth xs.length)).mpr le_rfl
  have := countP_eq_length.mp (le_antisymm countP_le_length hall) x hx
  simpa using this

end List
