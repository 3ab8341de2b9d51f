import Mathlib.Tactic

/-!
# Codecs and rows of them

A `Codec` writes a value as a word (`enc`) and reads one off the front of a word (`dec`). The
two are inverse : what is written is read back and what follows it is left (`dec_enc`), and
what is read was written there (`enc_of_dec`), so a word stands for one value only.

For a family of codecs a row of values is written one after the other, and read back in the
order of its kinds. Both laws pass from the codecs to the rows (`decAll_encAll`,
`encAll_of_decAll`).
-/

/-- A format of values as words that show where they end. -/
structure Codec (σ α : Type*) where
  /-- The word a value is written as. -/
  enc : α → List σ
  /-- The value at the front of a word, and what follows it. -/
  dec : List σ → Option (α × List σ)
  dec_enc : ∀ a r, dec (enc a ++ r) = some (a, r)
  enc_of_dec : ∀ s a r, dec s = some (a, r) → s = enc a ++ r

namespace Codec

variable {σ κ : Type*} {V : κ → Type*} (C : ∀ k, Codec σ (V k))

/-- Write a row of values. -/
def encAll : List (Σ k, V k) → List σ
  | [] => []
  | ⟨k, a⟩ :: as => (C k).enc a ++ encAll as

/-- Read a row of values of the given kinds. -/
def decAll : List κ → List σ → Option (List (Σ k, V k) × List σ)
  | [], s => some ([], s)
  | k :: ks, s =>
    match (C k).dec s with
    | none => none
    | some (a, r) => (decAll ks r).map fun q => (⟨k, a⟩ :: q.1, q.2)

/-- Values that are encoded one after the other are decoded as they were. -/
theorem decAll_encAll (as : List (Σ k, V k)) (r : List σ) :
    decAll C (as.map Sigma.fst) (encAll C as ++ r) = some (as, r) := by
  induction as with
  | nil => rfl
  | cons a as ih =>
    obtain ⟨k, a⟩ := a
    rw [encAll, List.append_assoc, List.map_cons, decAll, (C k).dec_enc]
    simp [ih]

/-- And what is decoded is the encoding of the values found. -/
theorem encAll_of_decAll {ks : List κ} {s : List σ} {as : List (Σ k, V k)} {r : List σ}
    (h : decAll C ks s = some (as, r)) : s = encAll C as ++ r := by
  induction ks generalizing s as with
  | nil =>
    obtain ⟨rfl, rfl⟩ := Prod.mk.inj (Option.some.inj h)
    rfl
  | cons k ks ih =>
    rw [decAll] at h
    split at h
    · cases h
    · rename_i a q hdec
      obtain ⟨⟨bs, r'⟩, hall, heq⟩ := Option.map_eq_some_iff.mp h
      obtain ⟨rfl, rfl⟩ := Prod.mk.inj heq
      rw [encAll, List.append_assoc, ← ih hall]
      exact (C k).enc_of_dec _ _ _ hdec

end Codec
