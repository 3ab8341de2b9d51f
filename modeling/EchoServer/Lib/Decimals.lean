import Mathlib.Data.List.Lex
import Mathlib.Tactic

/-!
# Decimals of a fixed width

Numbers written with zeros in front, in a width they fit, compare as their texts do
(`padded_lt_padded`), and texts of equal length decide how their continuations compare
(`append_lt_append`). A text made of such fields, the greatest unit first, therefore sorts as the
number it shows.
-/

namespace Decimals

/-- The last `w` decimal digits of a number. -/
def padded : ℕ → ℕ → List Char
  | 0, _ => []
  | w + 1, n => padded w (n / 10) ++ [Nat.digitChar (n % 10)]

@[simp] theorem length_padded : ∀ w n : ℕ, (padded w n).length = w
  | 0, _ => rfl
  | w + 1, n => by rw [padded, List.length_append, length_padded w, List.length_singleton]

/-- Two fields side by side are one field of both widths. -/
theorem padded_append (a x : ℕ) : ∀ (b : ℕ) {y : ℕ}, y < 10 ^ b →
    padded a x ++ padded b y = padded (a + b) (x * 10 ^ b + y)
  | 0, y, hy => by
    obtain rfl : y = 0 := by simpa using hy
    simp [padded]
  | b + 1, y, hy => by
    have hten : x * 10 ^ (b + 1) = 10 * (x * 10 ^ b) := by ring
    have hdiv : (x * 10 ^ (b + 1) + y) / 10 = x * 10 ^ b + y / 10 := by omega
    have hmod : (x * 10 ^ (b + 1) + y) % 10 = y % 10 := by omega
    rw [← Nat.add_assoc, padded, padded, hdiv, hmod, ← padded_append a x b (by omega),
      List.append_assoc]

/-- Texts of equal length decide. -/
theorem append_lt_append {α : Type*} [LT α] {a a' : List α} (b b' : List α) (h : a < a')
    (hlength : a.length = a'.length) : a ++ b < a' ++ b' := by
  induction h with
  | nil => cases hlength
  | cons _ ih => exact .cons (ih (Nat.succ.inj hlength))
  | rel h => exact .rel h

/-- The characters of the digits are in the order of the digits. -/
theorem digitChar_lt {m n : ℕ} (hmn : m < n) (hn : n < 10) : Nat.digitChar m < Nat.digitChar n := by
  have hall : ∀ j < 10, ∀ i < j, Nat.digitChar i < Nat.digitChar j := by decide
  exact hall n hn m hmn

/-- Padded numbers are in the order of the numbers. -/
theorem padded_lt_padded : ∀ (w : ℕ) {m n : ℕ}, m < n → n < 10 ^ w → padded w m < padded w n
  | 0, m, n, hmn, hn => absurd hn (by omega)
  | w + 1, m, n, hmn, hn => by
    rcases (Nat.div_le_div_right hmn.le : m / 10 ≤ n / 10).lt_or_eq with hlt | heq
    · refine append_lt_append _ _ (padded_lt_padded w hlt ?_) (by simp)
      omega
    · rw [padded, padded, heq]
      exact List.append_left_lt (.rel (digitChar_lt (by omega) (by omega)))

end Decimals
