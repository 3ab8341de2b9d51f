import Mathlib

/-!
# Lines of text

A text of lines that have no newline in them, each with a newline behind it, can be cut at the
newlines again, whatever comes after it (`splitOn_text_append`), and every text is such lines and a
rest (`exists_text_append`).
-/

namespace Lines

section

variable {α : Type*} [DecidableEq α] {c : α} {lines : List (List α)}

/-- The lines, each with the sign `c` behind it. -/
def text (c : α) (lines : List (List α)) : List α := lines.flatMap (· ++ [c])

omit [DecidableEq α] in
@[simp] theorem text_nil : text c [] = [] := rfl

omit [DecidableEq α] in
@[simp] theorem text_cons (line : List α) (lines : List (List α)) :
    text c (line :: lines) = line ++ c :: text c lines := by
  simp [text]

/-- Lines without the sign are cut apart, whatever comes after them. -/
theorem splitOn_text_append (h : ∀ line ∈ lines, c ∉ line) (rest : List α) :
    (text c lines ++ rest).splitOn c = lines ++ rest.splitOn c := by
  induction lines with
  | nil => rfl
  | cons line lines ih =>
    obtain ⟨hline, hlines⟩ := List.forall_mem_cons.mp h
    rw [text_cons, List.append_assoc, List.cons_append,
      List.splitOn_append_cons_self_of_not_mem hline, ih hlines, List.cons_append]

/-- Behind the last sign there is nothing. -/
theorem splitOn_text (h : ∀ line ∈ lines, c ∉ line) :
    (text c lines).splitOn c = lines ++ [[]] := by
  have := splitOn_text_append h []
  rwa [List.append_nil] at this

/-- Every text is lines with the sign behind them, and a rest without it. -/
theorem exists_text_append (l : List α) : ∃ lines rest, l = text c lines ++ rest ∧
    (∀ line ∈ lines, c ∉ line) ∧ c ∉ rest := by
  induction l with
  | nil => exact ⟨[], [], rfl, by simp, by simp⟩
  | cons b l ih =>
    obtain ⟨lines, rest, rfl, hlines, hrest⟩ := ih
    by_cases hb : b = c
    · subst hb
      exact ⟨[] :: lines, rest, by simp, List.forall_mem_cons.mpr ⟨by simp, hlines⟩, hrest⟩
    cases lines with
    | nil => exact ⟨[], b :: rest, rfl, by simp, by simp [Ne.symm hb, hrest]⟩
    | cons line lines =>
      obtain ⟨hline, hlines⟩ := List.forall_mem_cons.mp hlines
      refine ⟨(b :: line) :: lines, rest, by simp, ?_, hrest⟩
      exact List.forall_mem_cons.mpr ⟨by simp [Ne.symm hb, hline], hlines⟩

end

/-! ## The parts of a line -/

/-- What comes before a sign. -/
def before (c : Char) (l : List Char) : List Char := l.takeWhile (· ≠ c)

/-- What comes behind it. -/
def behind (c : Char) (l : List Char) : List Char := (l.dropWhile (· ≠ c)).tail

variable {c : Char} {word : List Char}

theorem decide_ne (h : c ∉ word) : ∀ d ∈ word, decide (d ≠ c) = true := by
  intro d hd
  rw [decide_eq_true_eq]
  rintro rfl
  exact h hd

/-- What stands before a sign is the word in front of it. -/
theorem before_append (h : c ∉ word) (rest : List Char) : before c (word ++ c :: rest) = word := by
  rw [before, List.takeWhile_append_of_pos (decide_ne h)]
  simp

/-- All of the word, if the sign does not occur. -/
theorem before_of_notMem (h : c ∉ word) : before c word = word :=
  List.takeWhile_eq_self_iff.mpr (decide_ne h)

/-- And what stands behind it is the rest. -/
theorem behind_append (h : c ∉ word) (rest : List Char) : behind c (word ++ c :: rest) = rest := by
  rw [behind, List.dropWhile_append_of_pos (decide_ne h)]
  simp

/-- None of the signs is in the text. -/
def free (signs : List Char) (s : String) : Bool := s.toList.all (· ∉ signs)

/-- A text that is free of the signs has none of them. -/
theorem notMem_of_free {signs : List Char} {s : String} (h : free signs s = true) {c : Char}
    (hc : c ∈ signs) : c ∉ s.toList := by
  intro hmem
  exact of_decide_eq_true (List.all_eq_true.mp h c hmem) hc

theorem free_ofList {signs l : List Char} (h : l.all (· ∉ signs) = true) :
    free signs (String.ofList l) = true := by
  rwa [free, String.toList_ofList]

/-- Joining two texts adds no sign. -/
theorem free_append {signs : List Char} {s t : String} (hs : free signs s = true)
    (ht : free signs t = true) : free signs (s ++ t) = true := by
  rw [free, String.toList_append, List.all_append, Bool.and_eq_true]
  exact ⟨hs, ht⟩

/-- What is free of more signs is free of fewer. -/
theorem free_of_subset {signs more : List Char} {s : String} (hsub : signs ⊆ more)
    (h : free more s = true) : free signs s = true := by
  refine List.all_eq_true.mpr fun c hc => decide_eq_true fun hmem => ?_
  exact notMem_of_free h (hsub hmem) hc

end Lines
