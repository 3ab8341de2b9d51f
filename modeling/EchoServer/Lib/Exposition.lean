import EchoServer.Lib.Lines

/-!
# The text format of metrics

A text of metrics has a line for each sample, with the name of the metric, its labels and its value,
and lines that say of a name what it means and of what kind it is. What is written in the format is
read back (`read_text`), if the names, the labels and the texts have none of the signs between them.

`WellFormed` is what the format asks of the lines : a name is explained once and before its samples,
and no sample is there twice. The values do not matter to it (`wellFormed_of_blank`).
-/

namespace Exposition

open Lines

/-- A label and what it is. -/
abbrev Label := String × String

/-- A line of the format : an explanation, a kind, or a sample. -/
inductive Line where
  | help (name text : String)
  | kind (name as : String)
  | sample (name : String) (labels : List Label) (value : ℤ)
  deriving DecidableEq

/-! ## Writing -/

/-- A label, as a line has it. -/
def labelText (l : Label) : String := l.1 ++ "=\"" ++ l.2 ++ "\""

/-- The labels of a sample, in braces, if there are any. -/
def labelsText (labels : List Label) : String :=
  if labels = [] then "" else "\x7b" ++ ",".intercalate (labels.map labelText) ++ "\x7d"

/-- A line, as it is written. -/
def Line.text : Line → String
  | help name text => "# HELP " ++ name ++ " " ++ text
  | kind name as => "# TYPE " ++ name ++ " " ++ as
  | sample name labels value => name ++ labelsText labels ++ " " ++ toString value

/-- The lines of a text, each with its newline. -/
def text : List Line → String
  | [] => ""
  | line :: lines => line.text ++ "\n" ++ text lines

/-- Two stretches of lines are written one after the other. -/
theorem text_append (lines more : List Line) : text (lines ++ more) = text lines ++ text more := by
  induction lines with
  | nil => simp [text]
  | cons line lines ih => simp [text, ih, String.append_assoc]

/-- The characters of the text, line by line. -/
theorem toList_text (lines : List Line) :
    (text lines).toList = Lines.text '\n' (lines.map fun line => line.text.toList) := by
  induction lines with
  | nil => simp [text]
  | cons line lines ih => simp [text, ih]

/-! ## Reading -/

/-- A label is read back. -/
def readLabel (l : List Char) : Label :=
  (.ofList (before '=' l), .ofList (behind '=' l).tail.dropLast)

/-- The labels behind a name are read back. -/
def readLabels (key : List Char) : List Label :=
  if '\x7b' ∈ key then ((behind '\x7b' key).dropLast.splitOn ',').map readLabel else []

/-- A line is read back, if it has one of the three forms. -/
def readLine (l : List Char) : Option Line :=
  match l.dropPrefix? "# HELP ".toList with
  | some l => some (.help (.ofList (before ' ' l)) (.ofList (behind ' ' l)))
  | none =>
    match l.dropPrefix? "# TYPE ".toList with
    | some l => some (.kind (.ofList (before ' ' l)) (.ofList (behind ' ' l)))
    | none =>
      let key := before ' ' l
      (String.ofList (behind ' ' l)).toInt?.map fun value =>
        .sample (.ofList (before '\x7b' key)) (readLabels key) value

/-- Every line has its newline, the last one too. -/
def read (text : String) : Option (List Line) :=
  let lines := text.toList.splitOn '\n'
  if lines.getLast? = some [] then lines.dropLast.mapM readLine else none

/-! ## Reading back -/

/-- A label without the characters that divide it from the rest. -/
def plainLabel (l : Label) : Bool := free [' ', '\n', ',', '='] l.1 && free [' ', '\n', ','] l.2

/-- A line without the characters that divide its parts. -/
def Line.plain : Line → Bool
  | help name text => free [' ', '\n'] name && free ['\n'] text
  | kind name as => free [' ', '\n'] name && free ['\n'] as
  | sample name labels _ => free [' ', '\n', '#', '\x7b'] name && labels.all plainLabel

section

variable {labels : List Label}

/-- A label is read back. -/
theorem readLabel_text {l : Label} (h : plainLabel l = true) :
    readLabel (labelText l).toList = l := by
  obtain ⟨hkey, -⟩ := Bool.and_eq_true_iff.mp h
  have heq : '=' ∉ l.1.toList := notMem_of_free hkey (by decide)
  have htext : (labelText l).toList = l.1.toList ++ '=' :: '"' :: (l.2.toList ++ ['"']) := by
    simp [labelText]
  rw [readLabel, htext, before_append heq, behind_append heq]
  simp

/-- A label has none of the signs that end it. -/
theorem notMem_labelText {l : Label} (h : plainLabel l = true) :
    ∀ c ∈ [' ', '\n', ','], c ∉ (labelText l).toList := by
  obtain ⟨hkey, hvalue⟩ := Bool.and_eq_true_iff.mp h
  intro c hc
  have hkey : c ∉ l.1.toList := notMem_of_free hkey (by simp at hc ⊢; tauto)
  have hvalue : c ∉ l.2.toList := notMem_of_free hvalue hc
  simp only [List.mem_cons, List.not_mem_nil, or_false] at hc
  obtain rfl | rfl | rfl := hc <;> simp [labelText, hkey, hvalue]

/-- A character of joined words is of a word, or the one between them. -/
theorem mem_intercalate {c d : Char} : ∀ {words : List (List Char)},
    c ∈ [d].intercalate words → c = d ∨ ∃ word ∈ words, c ∈ word
  | [], h => by simp at h
  | [word], h => by simpa using Or.inr h
  | word :: next :: words, h => by
    rw [List.intercalate_cons_cons, List.mem_append, List.mem_append, List.mem_singleton] at h
    obtain (h | h) | h := h
    · exact Or.inr ⟨word, List.mem_cons_self .., h⟩
    · exact Or.inl h
    · exact (mem_intercalate h).imp_right fun ⟨w, hw, hc⟩ => ⟨w, List.mem_cons_of_mem _ hw, hc⟩

/-- Labels stand between braces, if there are any. -/
theorem toList_labelsText (h : labels ≠ []) : (labelsText labels).toList = '\x7b' ::
    ([','].intercalate (labels.map fun l => (labelText l).toList) ++ ['\x7d']) := by
  simp [labelsText, h, String.toList_intercalate, Function.comp_def]

/-- The labels have none of the signs that end them. -/
theorem notMem_labelsText (h : ∀ l ∈ labels, plainLabel l = true) :
    ∀ c ∈ [' ', '\n'], c ∉ (labelsText labels).toList := by
  intro c hc hmem
  by_cases hnil : labels = []
  · simp [hnil, labelsText] at hmem
  have hsigns : c ∈ [' ', '\n', ','] := by
    simp at hc ⊢
    tauto
  rw [toList_labelsText hnil, List.mem_cons, List.mem_append, List.mem_singleton] at hmem
  obtain rfl | hmem | rfl := hmem
  · revert hc
    decide
  · obtain rfl | ⟨word, hword, hmem⟩ := mem_intercalate hmem
    · revert hc
      decide
    · obtain ⟨l, hl, rfl⟩ := List.mem_map.mp hword
      exact notMem_labelText (h l hl) c hsigns hmem
  · revert hc
    decide

/-- The key of a sample is read apart. -/
theorem readLabels_key {name : List Char} (hname : '\x7b' ∉ name)
    (h : ∀ l ∈ labels, plainLabel l = true) :
    before '\x7b' (name ++ (labelsText labels).toList) = name ∧
      readLabels (name ++ (labelsText labels).toList) = labels := by
  by_cases hnil : labels = []
  · subst hnil
    simp [labelsText, readLabels, hname, before_of_notMem hname]
  have hcomma : ∀ word ∈ labels.map (fun l => (labelText l).toList), ',' ∉ word := by
    simp only [List.forall_mem_map]
    exact fun l hl => notMem_labelText (h l hl) ',' (by decide)
  rw [toList_labelsText hnil]
  refine ⟨before_append hname _, ?_⟩
  rw [readLabels, if_pos (by simp), behind_append hname, List.dropLast_concat,
    List.splitOn_intercalate _ hcomma (by simpa using hnil), List.map_map]
  exact (List.map_congr_left fun l hl => readLabel_text (h l hl)).trans (List.map_id _)

end

/-- A line that begins with another sign is no comment. -/
theorem dropPrefix?_of_head {l p : List Char} (h : l.head? ≠ some '#') :
    l.dropPrefix? ('#' :: p) = none := by
  cases l with
  | nil => rfl
  | cons c l =>
    have hc : c ≠ '#' := by simpa using h
    simp [List.dropPrefix?, hc]

section

variable {line : Line}

/-- Every plain line is read back. -/
theorem readLine_text (h : line.plain = true) : readLine line.text.toList = some line := by
  cases line with
  | help name text =>
    have hname : ' ' ∉ name.toList := notMem_of_free (Bool.and_eq_true_iff.mp h).1 (by decide)
    have htext : (Line.help name text).text.toList =
        "# HELP ".toList ++ (name.toList ++ ' ' :: text.toList) := by
      simp [Line.text]
    rw [readLine, htext, List.dropPrefix?_append_of_beq _ (by simp)]
    simp [before_append hname, behind_append hname]
  | kind name as =>
    have hname : ' ' ∉ name.toList := notMem_of_free (Bool.and_eq_true_iff.mp h).1 (by decide)
    have htext : (Line.kind name as).text.toList =
        "# TYPE ".toList ++ (name.toList ++ ' ' :: as.toList) := by
      simp [Line.text]
    have hhelp : ("# TYPE ".toList ++ (name.toList ++ ' ' :: as.toList)).dropPrefix?
        "# HELP ".toList = none := by
      simp [List.dropPrefix?]
    rw [readLine, htext, hhelp, List.dropPrefix?_append_of_beq _ (by simp)]
    simp [before_append hname, behind_append hname]
  | sample name labels value =>
    obtain ⟨hname, hlabels⟩ := Bool.and_eq_true_iff.mp h
    have hlabels := List.all_eq_true.mp hlabels
    have htext : (Line.sample name labels value).text.toList =
        (name.toList ++ (labelsText labels).toList) ++ ' ' :: (toString value).toList := by
      simp [Line.text]
    have hkey : ' ' ∉ name.toList ++ (labelsText labels).toList := by
      simp [notMem_of_free hname (c := ' ') (by decide),
        notMem_labelsText hlabels ' ' (by decide)]
    have hhead : (Line.sample name labels value).text.toList.head? ≠ some '#' := by
      rw [htext]
      cases hlist : name.toList with
      | nil =>
        by_cases hnil : labels = []
        · simp [hnil, labelsText]
        · simp [toList_labelsText hnil]
      | cons c cs =>
        have hsharp : '#' ∉ name.toList := notMem_of_free hname (by decide)
        rw [hlist] at hsharp
        simp only [List.cons_append, List.head?_cons, ne_eq, Option.some.injEq]
        rintro rfl
        exact hsharp (List.mem_cons_self ..)
    have hbrace : '\x7b' ∉ name.toList := notMem_of_free hname (by decide)
    obtain ⟨hread, hlabels⟩ := readLabels_key hbrace hlabels
    have hhelp : (Line.sample name labels value).text.toList.dropPrefix? "# HELP ".toList = none :=
      dropPrefix?_of_head hhead
    have hkind : (Line.sample name labels value).text.toList.dropPrefix? "# TYPE ".toList = none :=
      dropPrefix?_of_head hhead
    rw [readLine, hhelp, hkind, htext]
    simp only [before_append hkey, behind_append hkey, hread, hlabels, String.ofList_toList,
      Int.toString_eq_repr, Int.toInt?_repr, Option.map_some]

theorem newline_notMem_repr (value : ℤ) : '\n' ∉ value.repr.toList := by
  have hdigits : ∀ n : ℕ, '\n' ∉ Nat.toDigits 10 n := by
    intro n h
    exact absurd (Nat.isDigit_of_mem_toDigits (by decide) le_rfl h) (by decide)
  rw [Int.repr_eq_if]
  split_ifs <;> simp [hdigits]

theorem newline_notMem_text (h : line.plain = true) : '\n' ∉ line.text.toList := by
  cases line with
  | help name text | kind name text =>
    obtain ⟨hname, htext⟩ := Bool.and_eq_true_iff.mp h
    have hname : '\n' ∉ name.toList := notMem_of_free hname (by decide)
    have htext : '\n' ∉ text.toList := notMem_of_free htext (by decide)
    simp [Line.text, hname, htext]
  | sample name labels value =>
    obtain ⟨hname, hlabels⟩ := Bool.and_eq_true_iff.mp h
    have hname : '\n' ∉ name.toList := notMem_of_free hname (by decide)
    have hlabels := notMem_labelsText (List.all_eq_true.mp hlabels) '\n' (by decide)
    simp [Line.text, hname, hlabels, newline_notMem_repr]

end

variable {lines : List Line}

/-- So is every list of plain lines. -/
theorem mapM_readLine (h : ∀ line ∈ lines, line.plain = true) :
    (lines.map fun line => line.text.toList).mapM readLine = some lines := by
  induction lines with
  | nil => rfl
  | cons line lines ih =>
    obtain ⟨hline, hlines⟩ := List.forall_mem_cons.mp h
    rw [List.map_cons, List.mapM_cons, readLine_text hline, ih hlines]
    rfl

/-- What is written is read. -/
theorem read_text (h : ∀ line ∈ lines, line.plain = true) :
    read (text lines) = some lines := by
  have hsplit : (text lines).toList.splitOn '\n' =
      (lines.map fun line => line.text.toList) ++ [[]] := by
    rw [toList_text, Lines.splitOn_text]
    simp only [List.forall_mem_map]
    exact fun line hline => newline_notMem_text (h line hline)
  rw [read, hsplit]
  simp only [List.getLast?_concat, if_true, List.dropLast_concat]
  exact mapM_readLine h

/-! ## What the format asks -/

/-- The name that a line explains. -/
def Line.helps : Line → Option String
  | help name _ => some name
  | _ => none

/-- The name whose kind a line gives. -/
def Line.kinds : Line → Option String
  | kind name _ => some name
  | _ => none

/-- What a sample is about. -/
def Line.key : Line → Option (String × List Label)
  | sample name labels _ => some (name, labels)
  | _ => none

/-- Each name is explained once and has one kind, and no sample comes twice. -/
structure WellFormed (lines : List Line) : Prop where
  helps : (lines.filterMap Line.helps).Nodup
  kinds : (lines.filterMap Line.kinds).Nodup
  keys : (lines.filterMap Line.key).Nodup
  explained : ∀ n < lines.length, ∀ key ∈ lines[n]?.bind Line.key,
    key.1 ∈ (lines.take n).filterMap Line.helps ∧ key.1 ∈ (lines.take n).filterMap Line.kinds

instance (lines : List Line) : Decidable (WellFormed lines) :=
  decidable_of_iff ((lines.filterMap Line.helps).Nodup ∧ (lines.filterMap Line.kinds).Nodup ∧
    (lines.filterMap Line.key).Nodup ∧ ∀ n < lines.length, ∀ key ∈ lines[n]?.bind Line.key,
      key.1 ∈ (lines.take n).filterMap Line.helps ∧ key.1 ∈ (lines.take n).filterMap Line.kinds)
    ⟨fun ⟨hhelps, hkinds, hkeys, hexplained⟩ => ⟨hhelps, hkinds, hkeys, hexplained⟩,
      fun h => ⟨h.helps, h.kinds, h.keys, h.explained⟩⟩

/-- The line without its value. -/
def Line.blank : Line → Line
  | sample name labels _ => sample name labels 0
  | line => line

/-- Whether a page is well formed does not depend on its values. -/
theorem wellFormed_of_blank (h : WellFormed (lines.map Line.blank)) : WellFormed lines := by
  have hhelps : Line.helps ∘ Line.blank = Line.helps := by
    funext line
    cases line <;> rfl
  have hkinds : Line.kinds ∘ Line.blank = Line.kinds := by
    funext line
    cases line <;> rfl
  have hkey : Line.key ∘ Line.blank = Line.key := by
    funext line
    cases line <;> rfl
  obtain ⟨h₁, h₂, h₃, h₄⟩ := h
  simp only [List.filterMap_map, hhelps, hkinds, hkey, List.length_map, ← List.map_take,
    List.getElem?_map, Option.bind_map] at h₁ h₂ h₃ h₄
  exact ⟨h₁, h₂, h₃, h₄⟩

end Exposition
