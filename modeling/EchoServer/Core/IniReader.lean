import EchoServer.Lib.Lines
import EchoServer.Proto.ByteOrder

/-!
# Configuration files

`core/ini_reader.h` : `load` reads the lines of a text one by one, with the section of the last
header in hand, into a table, and `get` looks a key up in it.

What a file says is stated for itself, without the functions that read it : what its lines are
(`FileLines`), which of them are headers and entries (`IsHeader`, `IsEntry`), in which section a
line stands (`InSection`), and which entry is the last of a kind (`Last`). The reader finds exactly
these (`readLine_eq_entry`, `find?_entries`), but its table holds one string for section and key,
with a dot between, so a dot in a name lets one pair answer for another (`get_iff`).

A text is the bytes that the stream gives.
-/

namespace EchoServer

/-- What `load` makes of a line. -/
inductive IniLine where
  | skipped
  | header (name : Bytes)
  | entry (key value : Bytes)

/-- The section that a line begins. -/
def IniLine.name : IniLine → Option Bytes
  | .header name => some name
  | _ => none

/-- The settings that have been read. -/
structure IniReader where
  /-- `values_`, by section and key joined. -/
  values : Bytes → Option Bytes
  error : String

namespace IniReader

/-- A character of the ASCII range. -/
def byte (c : Char) : UInt8 := c.toUInt8

/-- What `trim` takes off at both ends. -/
def isBlank (b : UInt8) : Bool := b = byte ' ' || b = byte '\t' || b = byte '\r' || b = byte '\n'

/-- The text without blanks at its ends. -/
def trim (s : Bytes) : Bytes := ((s.dropWhile isBlank).reverse.dropWhile isBlank).reverse

/-- The lines that `getline` gives. -/
def getlines (text : Bytes) : List Bytes :=
  let lines := text.splitOn (byte '\n')
  if lines.getLast? = some [] then lines.dropLast else lines

/-- The lines with the byte order mark taken off the first. -/
def withoutBom : List Bytes → List Bytes
  | (0xEF :: 0xBB :: 0xBF :: line) :: lines => line :: lines
  | lines => lines

/-- What a line of the file says. -/
def readLine (line : Bytes) : IniLine :=
  let line := trim line
  if line = [] ∨ line.head? = some (byte '#') ∨ line.head? = some (byte ';') then .skipped
  else if line.head? = some (byte '[') ∧ line.getLast? = some (byte ']') then
    .header (trim line.tail.dropLast)
  else if byte '=' ∈ line then
    let eq := line.idxOf (byte '=')
    let key := trim (line.take eq)
    let value := trim (line.drop (eq + 1))
    if key = [] then .skipped else .entry key value
  else .skipped

/-- `section + "." + key`. -/
def joined (s k : Bytes) : Bytes := s ++ byte '.' :: k

/-- The loop of `load` for one line : the section and the table. -/
def loadLine (r : Bytes × (Bytes → Option Bytes)) (line : Bytes) :
    Bytes × (Bytes → Option Bytes) :=
  match readLine line with
  | .skipped => r
  | .header name => (name, r.2)
  | .entry key value => (r.1, Function.update r.2 (joined r.1 key) (some value))

/-- A file is read into the settings, or cannot be opened. -/
def load (r : IniReader) (path : String) : Option Bytes → IniReader × Bool
  | none => ({ r with error := "설정 파일을 열 수 없다: " ++ path }, false)
  | some text =>
    ({ r with values := ((withoutBom (getlines text)).foldl loadLine ([], r.values)).2 }, true)

/-- Whether there is a value for the key. -/
def has (r : IniReader) (s k : Bytes) : Bool := (r.values (joined s k)).isSome

/-- The value of a key, or what is used where there is none. -/
def get (r : IniReader) (s k fallback : Bytes) : Bytes := (r.values (joined s k)).getD fallback

/-- The settings before a file is read. -/
def empty : IniReader := ⟨fun _ => none, ""⟩

/-! ## What a file says -/

/-- Space, tabulator and the two signs that end lines. -/
def blanks : List UInt8 := [32, 9, 13, 10]

/-- `s` is what stands between the blanks of `raw`. -/
structure Trims (raw s : Bytes) : Prop where
  split : ∃ front back, raw = front ++ s ++ back ∧ (∀ b ∈ front, b ∈ blanks) ∧ ∀ b ∈ back, b ∈ blanks
  head : ∀ b ∈ s.head?, b ∉ blanks
  last : ∀ b ∈ s.getLast?, b ∉ blanks

/-- The lines of a text : each has a newline behind it, which the last may lack. -/
def IsLines (text : Bytes) (lines : List Bytes) : Prop :=
  (∀ line ∈ lines, byte '\n' ∉ line) ∧
    (text = Lines.text (byte '\n') lines ∨ ∃ front last, lines = front ++ [last] ∧ last ≠ [] ∧
      text = Lines.text (byte '\n') front ++ last)

/-- The byte order mark. -/
def mark : Bytes := [0xEF, 0xBB, 0xBF]

/-- The lines of a text, without the mark that the first may begin with. -/
def FileLines (text : Bytes) (lines : List Bytes) : Prop :=
  (∃ line rest, IsLines text ((mark ++ line) :: rest) ∧ lines = line :: rest) ∨
    (IsLines text lines ∧ ∀ line rest, lines ≠ (mark ++ line) :: rest)

/-- The line is `[name]`. -/
def IsHeader (line name : Bytes) : Prop :=
  ∃ inner, Trims line (byte '[' :: (inner ++ [byte ']'])) ∧ Trims inner name

/-- The line is `key = value`, with the first `=` between them, and neither a comment nor a header
nor without a key. -/
def IsEntry (line key value : Bytes) : Prop :=
  ∃ left right, Trims line (left ++ byte '=' :: right) ∧ byte '=' ∉ left ∧
    Trims left key ∧ Trims right value ∧ key ≠ [] ∧
      left.head? ≠ some (byte '#') ∧ left.head? ≠ some (byte ';') ∧ ∀ name, ¬ IsHeader line name

/-- A line `key = value` in a section. -/
structure Entry where
  sectionName : Bytes
  key : Bytes
  value : Bytes

/-- A header stands at a place. -/
def HeaderAt (lines : List Bytes) (i : ℕ) (name : Bytes) : Prop :=
  ∃ line, lines[i]? = some line ∧ IsHeader line name

/-- The section at a place is that of the last header before it, or the empty one. -/
def InSection (lines : List Bytes) (i : ℕ) (name : Bytes) : Prop :=
  (∃ j < i, HeaderAt lines j name ∧ ∀ k, j < k → k < i → ∀ other, ¬ HeaderAt lines k other) ∨
    (name = [] ∧ ∀ k < i, ∀ other, ¬ HeaderAt lines k other)

/-- An entry stands at a place. -/
def Stands (lines : List Bytes) (i : ℕ) (e : Entry) : Prop :=
  ∃ line, lines[i]? = some line ∧ IsEntry line e.key e.value ∧ InSection lines i e.sectionName

/-- The last entry of a kind. -/
def Last (text : Bytes) (kind : Entry → Prop) (e : Entry) : Prop :=
  ∃ lines i, FileLines text lines ∧ Stands lines i e ∧ kind e ∧
    ∀ j > i, ∀ e', Stands lines j e' → ¬ kind e'

/-- The entry has the section and the key. -/
def Entry.For (s k : Bytes) (e : Entry) : Prop := e.sectionName = s ∧ e.key = k

/-- A file gives a section and a key a value. -/
def Gives (text s k value : Bytes) : Prop := Last text (Entry.For s k) ⟨s, k, value⟩

/-- Of the entries whose section and key make the same text, with a dot between, the last is one of
the section and the key, or has the value of their last. -/
def Undisturbed (text s k : Bytes) : Prop :=
  ∀ e, Last text (fun e => joined e.sectionName e.key = joined s k) e →
    e.For s k ∨ Gives text s k e.value

/-! ## Trimming -/

/-- The blanks of `trim` are the four that it names. -/
theorem isBlank_iff {b : UInt8} : isBlank b = true ↔ b ∈ blanks := by
  simp only [isBlank, blanks, Bool.or_eq_true, decide_eq_true_eq, List.mem_cons,
    List.not_mem_nil, or_false, or_assoc]
  rfl

/-- Blanks in front of what does not begin with one. -/
theorem dropWhile_blanks {front s : Bytes} (hfront : ∀ b ∈ front, b ∈ blanks)
    (hs : ∀ b ∈ s.head?, b ∉ blanks) : (front ++ s).dropWhile isBlank = s := by
  rw [List.dropWhile_append_of_pos fun b hb => isBlank_iff.mpr (hfront b hb)]
  cases s with
  | nil => rfl
  | cons b s => exact List.dropWhile_cons_of_neg fun h => hs b rfl (isBlank_iff.mp h)

/-- What `dropWhile` leaves does not begin with a blank. -/
theorem head_dropWhile (s : Bytes) : ∀ b ∈ (s.dropWhile isBlank).head?, b ∉ blanks := by
  intro b hb hblank
  have := List.head?_dropWhile_not isBlank s
  rw [hb] at this
  simp [isBlank_iff.mpr hblank] at this

/-- What `trim` returns is its argument without the blanks at the ends. -/
theorem trims_trim (raw : Bytes) : Trims raw (trim raw) := by
  have hblank : ∀ s : Bytes, ∀ b ∈ s.takeWhile isBlank, b ∈ blanks := fun s b hb =>
    isBlank_iff.mp (List.mem_takeWhile_imp hb)
  set middle := raw.dropWhile isBlank with hmiddle
  have hraw : raw =
      raw.takeWhile isBlank ++ trim raw ++ (middle.reverse.takeWhile isBlank).reverse := by
    rw [List.append_assoc, trim, ← hmiddle, ← List.reverse_append,
      List.takeWhile_append_dropWhile, List.reverse_reverse, hmiddle,
      List.takeWhile_append_dropWhile]
  refine ⟨⟨_, _, hraw, hblank raw, fun b hb => hblank _ b (List.mem_reverse.mp hb)⟩, ?_, ?_⟩
  · intro b hb
    refine head_dropWhile raw b ?_
    have hprefix : trim raw <+: middle := by
      have := (List.dropWhile_suffix (l := middle.reverse) isBlank).reverse
      rwa [List.reverse_reverse] at this
    obtain ⟨rest, hrest⟩ := hprefix
    rw [← hmiddle, ← hrest, List.head?_append, hb]
    rfl
  · intro b hb
    rw [trim, List.getLast?_reverse] at hb
    exact head_dropWhile _ b hb

/-- And there is only one such text. -/
theorem trims_iff {raw s : Bytes} : Trims raw s ↔ trim raw = s := by
  refine ⟨fun h => ?_, fun h => h ▸ trims_trim raw⟩
  obtain ⟨front, back, rfl, hfront, hback⟩ := h.split
  rw [trim, List.append_assoc]
  cases hs : s with
  | nil =>
    have hall : ∀ b ∈ front ++ back, b ∈ blanks := fun b hb =>
      (List.mem_append.mp hb).elim (hfront b) (hback b)
    have hnil := dropWhile_blanks (s := []) hall (by simp)
    rw [List.append_nil] at hnil
    rw [List.nil_append, hnil]
    rfl
  | cons b s' =>
    rw [← hs, dropWhile_blanks hfront]
    · rw [List.reverse_append, dropWhile_blanks (fun b hb => hback b (List.mem_reverse.mp hb)),
        List.reverse_reverse]
      rw [List.head?_reverse]
      exact h.last
    · intro c hc
      refine h.head c ?_
      rw [hs] at hc ⊢
      exact hc

/-! ## Lines -/

variable {lines : List Bytes} {line s k name : Bytes} {e : Entry}

/-- Lines that end with a newline each are read back. -/
theorem getlines_text (h : ∀ line ∈ lines, byte '\n' ∉ line) :
    getlines (Lines.text (byte '\n') lines) = lines := by
  rw [getlines, Lines.splitOn_text h]
  simp

/-- So is a last line without a newline, unless it is empty. -/
theorem getlines_text_append {last : Bytes} (h : ∀ line ∈ lines, byte '\n' ∉ line)
    (hlast : byte '\n' ∉ last) (hne : last ≠ []) :
    getlines (Lines.text (byte '\n') lines ++ last) = lines ++ [last] := by
  rw [getlines, Lines.splitOn_text_append h, List.splitOn_eq_singleton hlast]
  simp [hne]

/-- The lines of a text are those that `getline` yields. -/
theorem isLines_iff {text : Bytes} : IsLines text lines ↔ getlines text = lines := by
  constructor
  · rintro ⟨hlines, rfl | ⟨front, last, rfl, hne, rfl⟩⟩
    · exact getlines_text hlines
    · simp only [List.mem_append, List.mem_singleton, or_imp, forall_and, forall_eq] at hlines
      exact getlines_text_append hlines.1 hlines.2 hne
  · rintro rfl
    obtain ⟨front, last, rfl, hfront, hlast⟩ := Lines.exists_text_append (c := byte '\n') text
    by_cases hne : last = []
    · subst hne
      rw [List.append_nil, getlines_text hfront]
      exact ⟨hfront, Or.inl rfl⟩
    · rw [getlines_text_append hfront hlast hne]
      refine ⟨fun line hline => ?_, Or.inr ⟨front, last, rfl, hne, rfl⟩⟩
      obtain hline | hline := List.mem_append.mp hline
      · exact hfront line hline
      · rw [List.mem_singleton.mp hline]
        exact hlast

theorem withoutBom_of_unmarked (h : ∀ line rest, lines ≠ (mark ++ line) :: rest) :
    withoutBom lines = lines := by
  unfold withoutBom
  split
  · exact absurd rfl (h _ _)
  · rfl

/-- The lines of a file are those that are read after the mark is dropped. -/
theorem fileLines_iff {text : Bytes} : FileLines text lines ↔ withoutBom (getlines text) = lines := by
  constructor
  · rintro (⟨line, rest, hlines, rfl⟩ | ⟨hlines, hunmarked⟩)
    · rw [isLines_iff.mp hlines]
      rfl
    · rw [isLines_iff.mp hlines]
      exact withoutBom_of_unmarked hunmarked
  · rintro rfl
    by_cases hmarked : ∃ line rest, getlines text = (mark ++ line) :: rest
    · obtain ⟨line, rest, hlines⟩ := hmarked
      refine Or.inl ⟨line, rest, isLines_iff.mpr hlines, ?_⟩
      rw [hlines]
      rfl
    · have hunmarked : ∀ line rest, getlines text ≠ (mark ++ line) :: rest :=
        fun line rest h => hmarked ⟨line, rest, h⟩
      rw [withoutBom_of_unmarked hunmarked]
      exact Or.inr ⟨isLines_iff.mpr rfl, hunmarked⟩

/-! ## Headers and entries -/

/-- What begins and ends as a header does stands between brackets. -/
theorem exists_inner {body : Bytes} (hhead : body.head? = some (byte '['))
    (hlast : body.getLast? = some (byte ']')) : ∃ inner, body = byte '[' :: (inner ++ [byte ']']) := by
  cases body with
  | nil => cases hhead
  | cons b rest =>
    obtain rfl : b = byte '[' := by simpa using hhead
    obtain rfl | ⟨inner, last, rfl⟩ := List.eq_nil_or_concat rest
    · exact absurd hlast (by decide)
    · rw [List.concat_eq_append, ← List.cons_append, List.getLast?_concat] at hlast
      obtain rfl := Option.some.inj hlast
      exact ⟨inner, by rw [List.concat_eq_append]⟩

theorem readLine_of_brackets {inner : Bytes} (h : trim line = byte '[' :: (inner ++ [byte ']'])) :
    readLine line = .header (trim inner) := by
  have hcomment : ¬ (some (byte '[') = some (byte '#') ∨ some (byte '[') = some (byte ';')) := by
    decide
  have hlast : (byte '[' :: (inner ++ [byte ']'])).getLast? = some (byte ']') := by
    rw [← List.cons_append, List.getLast?_concat]
  unfold readLine
  simp only [h, List.head?_cons, hlast, hcomment, List.cons_ne_nil, false_or, if_false,
    and_self, if_true, List.tail_cons, List.dropLast_concat]

/-- A line is read as a header exactly if it is one. -/
theorem readLine_eq_header : readLine line = .header name ↔ IsHeader line name := by
  constructor
  · intro h
    unfold readLine at h
    simp only at h
    split_ifs at h with hskip hheader
    cases h
    obtain ⟨inner, hinner⟩ := exists_inner hheader.1 hheader.2
    refine ⟨inner, trims_iff.mpr hinner, trims_iff.mpr ?_⟩
    rw [hinner, List.tail_cons, List.dropLast_concat]
  · rintro ⟨inner, hline, hname⟩
    rw [readLine_of_brackets (trims_iff.mp hline), trims_iff.mp hname]

/-- The text is cut at the first `=`. -/
theorem idxOf_cut {left : Bytes} (h : byte '=' ∉ left) (right : Bytes) :
    (left ++ byte '=' :: right).take ((left ++ byte '=' :: right).idxOf (byte '=')) = left ∧
      (left ++ byte '=' :: right).drop ((left ++ byte '=' :: right).idxOf (byte '=') + 1) =
        right := by
  have hidx : (left ++ byte '=' :: right).idxOf (byte '=') = left.length := by
    rw [List.idxOf_append_of_notMem h, List.idxOf_cons_self, Nat.add_zero]
  rw [hidx]
  simp

/-- A line is read as an entry exactly if it is one. -/
theorem readLine_eq_entry {key value : Bytes} :
    readLine line = .entry key value ↔ IsEntry line key value := by
  constructor
  · intro h
    have hheader : ∀ name, ¬ IsHeader line name := by
      intro name hname
      rw [readLine_eq_header.mpr hname] at h
      cases h
    unfold readLine at h
    simp only at h
    split_ifs at h with hskip hbrackets heq hkey
    cases h
    obtain ⟨left, right, hcut, hleft⟩ := List.eq_append_cons_of_mem heq
    obtain ⟨htake, hdrop⟩ := idxOf_cut hleft right
    rw [hcut] at hskip hkey ⊢
    rw [htake] at hkey ⊢
    rw [hdrop]
    refine ⟨left, right, trims_iff.mpr hcut, hleft, trims_trim left, trims_trim right, hkey, ?_, ?_,
      hheader⟩
    · intro hhead
      refine hskip (Or.inr (Or.inl ?_))
      rw [List.head?_append, hhead]
      rfl
    · intro hhead
      refine hskip (Or.inr (Or.inr ?_))
      rw [List.head?_append, hhead]
      rfl
  · rintro ⟨left, right, hline, hleft, hkey, hvalue, hne, hsharp, hsemicolon, hheader⟩
    have hbody := trims_iff.mp hline
    have hhead : ∀ c : Char, left.head? ≠ some (byte c) → byte '=' ≠ byte c →
        (left ++ byte '=' :: right).head? ≠ some (byte c) := by
      intro c hc hbyte
      cases left with
      | nil => simpa using hbyte
      | cons b left => exact hc
    have hbrackets : ¬ ((left ++ byte '=' :: right).head? = some (byte '[') ∧
        (left ++ byte '=' :: right).getLast? = some (byte ']')) := by
      rintro ⟨hfirst, hlast⟩
      obtain ⟨inner, hinner⟩ := exists_inner hfirst hlast
      exact hheader _ (readLine_eq_header.mp (readLine_of_brackets (hbody.trans hinner)))
    obtain ⟨htake, hdrop⟩ := idxOf_cut hleft right
    unfold readLine
    simp only [hbody, htake, hdrop, trims_iff.mp hkey, trims_iff.mp hvalue, hbrackets, hne,
      hhead '#' hsharp (by decide), hhead ';' hsemicolon (by decide), if_false, or_false]
    simp

/-! ## Sections -/

/-- The section that the reader has at a line. -/
def sectionAt (lines : List Bytes) (i : ℕ) : Bytes :=
  ((lines.take i).reverse.findSome? fun line => (readLine line).name).getD []

/-- Later lines do not move an earlier line to another section. -/
theorem sectionAt_append {i : ℕ} (h : i ≤ lines.length) (line : Bytes) :
    sectionAt (lines ++ [line]) i = sectionAt lines i := by
  rw [sectionAt, List.take_append_of_le_length h, sectionAt]

/-- A header moves the lines after it to its section. -/
theorem sectionAt_succ {i : ℕ} (h : lines[i]? = some line) :
    sectionAt lines (i + 1) = (readLine line).name.getD (sectionAt lines i) := by
  rw [sectionAt, List.take_add_one, h, Option.toList_some, List.reverse_append,
    List.reverse_singleton, List.singleton_append, List.findSome?_cons, sectionAt]
  cases (readLine line).name <;> rfl

theorem sectionAt_concat (lines : List Bytes) (line : Bytes) :
    sectionAt (lines ++ [line]) (lines.length + 1) =
      (readLine line).name.getD (sectionAt lines lines.length) := by
  rw [sectionAt_succ List.getElem?_concat_length, sectionAt_append le_rfl]

theorem name_readLine {name : Bytes} : (readLine line).name = some name ↔ IsHeader line name := by
  rw [← readLine_eq_header]
  cases readLine line <;> simp [IniLine.name]

/-- The header that stands at a line is what the line says. -/
theorem headerAt_iff {i : ℕ} (h : lines[i]? = some line) {name : Bytes} :
    HeaderAt lines i name ↔ IsHeader line name := by
  rw [HeaderAt, h]
  simp

/-- A header begins its section, and any other line leaves the section as it is. -/
theorem inSection_succ {i : ℕ} (h : lines[i]? = some line) {name : Bytes} :
    InSection lines (i + 1) name ↔
      IsHeader line name ∨ ((∀ other, ¬ IsHeader line other) ∧ InSection lines i name) := by
  constructor
  · rintro (⟨j, hj, hheader, hlast⟩ | ⟨rfl, hnone⟩)
    · obtain rfl | hlt := Nat.eq_or_lt_of_le (Nat.lt_succ_iff.mp hj)
      · exact Or.inl ((headerAt_iff h).mp hheader)
      · refine Or.inr ⟨fun other hother => ?_, Or.inl ⟨j, hlt, hheader, fun k hjk hk => ?_⟩⟩
        · exact hlast i hlt (Nat.lt_succ_self i) other ((headerAt_iff h).mpr hother)
        · exact hlast k hjk (hk.trans (Nat.lt_succ_self i))
    · refine Or.inr ⟨fun other hother => ?_, Or.inr ⟨rfl, fun k hk => ?_⟩⟩
      · exact hnone i (Nat.lt_succ_self i) other ((headerAt_iff h).mpr hother)
      · exact hnone k (hk.trans (Nat.lt_succ_self i))
  · rintro (hheader | ⟨hnone, ⟨j, hj, hheader, hlast⟩ | ⟨rfl, hempty⟩⟩)
    · exact Or.inl ⟨i, Nat.lt_succ_self i, (headerAt_iff h).mpr hheader,
        fun k hk hk' => absurd hk' (Nat.not_lt.mpr hk)⟩
    · refine Or.inl ⟨j, hj.trans (Nat.lt_succ_self i), hheader, fun k hjk hk other hother => ?_⟩
      obtain rfl | hlt := Nat.eq_or_lt_of_le (Nat.lt_succ_iff.mp hk)
      · exact hnone other ((headerAt_iff h).mp hother)
      · exact hlast k hjk hlt other hother
    · refine Or.inr ⟨rfl, fun k hk other hother => ?_⟩
      obtain rfl | hlt := Nat.eq_or_lt_of_le (Nat.lt_succ_iff.mp hk)
      · exact hnone other ((headerAt_iff h).mp hother)
      · exact hempty k hlt other hother

/-- The reader has the section that a line stands in. -/
theorem inSection_iff {name : Bytes} : ∀ {i : ℕ}, i ≤ lines.length →
    (InSection lines i name ↔ sectionAt lines i = name)
  | 0, _ => by simp [InSection, sectionAt, eq_comm]
  | i + 1, hi => by
    have hline : lines[i]? = some lines[i] := List.getElem?_eq_getElem hi
    rw [inSection_succ hline, sectionAt_succ hline, inSection_iff (Nat.le_of_succ_le hi)]
    cases hname : (readLine lines[i]).name with
    | none =>
      have hnone : ∀ other, ¬ IsHeader lines[i] other := by
        intro other hother
        rw [name_readLine.mpr hother] at hname
        cases hname
      simp [hnone]
    | some other =>
      have hother := name_readLine.mp hname
      constructor
      · rintro (hheader | ⟨hnone, -⟩)
        · rw [name_readLine.mpr hheader] at hname
          exact (Option.some.inj hname).symm
        · exact absurd hother (hnone other)
      · rintro rfl
        exact Or.inl hother

/-! ## The entries that the reader finds -/

/-- The entry that a line makes, in the section that it stands in. -/
def entryAt (lines : List Bytes) (line : Bytes) (i : ℕ) : Option Entry :=
  match readLine line with
  | .entry key value => some ⟨sectionAt lines i, key, value⟩
  | _ => none

/-- The entries of a file, in their order. -/
def entries (lines : List Bytes) : List Entry :=
  lines.zipIdx.filterMap fun p => entryAt lines p.1 p.2

/-- Later lines do not change the entry of an earlier line. -/
theorem entryAt_append {i : ℕ} (h : i ≤ lines.length) (last line : Bytes) :
    entryAt (lines ++ [last]) line i = entryAt lines line i := by
  rw [entryAt, sectionAt_append h, entryAt]

/-- Another line adds its entry, if it has one. -/
theorem entries_concat (lines : List Bytes) (line : Bytes) :
    entries (lines ++ [line]) = entries lines ++ (entryAt lines line lines.length).toList := by
  have hold : ∀ p ∈ lines.zipIdx, entryAt (lines ++ [line]) p.1 p.2 = entryAt lines p.1 p.2 :=
    fun p hp => entryAt_append (List.mem_zipIdx' hp).1.le line p.1
  rw [entries, List.zipIdx_append, List.filterMap_append, List.filterMap_congr hold]
  simp only [List.zipIdx_singleton, Nat.zero_add, List.filterMap_cons, entryAt_append le_rfl,
    List.filterMap_nil, entries]
  cases entryAt lines line lines.length <;> rfl

/-- The reader finds an entry at a place if one stands there. -/
theorem stands_iff {i : ℕ} (h : lines[i]? = some line) :
    Stands lines i e ↔ entryAt lines line i = some e := by
  have hi : i ≤ lines.length := (List.getElem?_eq_some_iff.mp h).1.le
  have hstands : Stands lines i e ↔ IsEntry line e.key e.value ∧ InSection lines i e.sectionName := by
    rw [Stands, h]
    simp
  rw [hstands, ← readLine_eq_entry, inSection_iff hi, entryAt]
  obtain ⟨sectionName, key, value⟩ := e
  cases readLine line <;> simp [and_comm]

/-- The entries of one line more. -/
theorem stands_concat {i : ℕ} : Stands (lines ++ [line]) i e ↔
    Stands lines i e ∨ (i = lines.length ∧ entryAt lines line i = some e) := by
  obtain hlt | rfl | hgt := lt_trichotomy i lines.length
  · have hold : lines[i]? = some lines[i] := List.getElem?_eq_getElem hlt
    have hnew : (lines ++ [line])[i]? = some lines[i] := by
      rw [List.getElem?_append_left hlt, hold]
    rw [stands_iff hnew, stands_iff hold, entryAt_append hlt.le]
    simp [hlt.ne]
  · have hnone : ¬ Stands lines lines.length e := by
      rintro ⟨line, hline, -⟩
      simp at hline
    rw [stands_iff List.getElem?_concat_length, entryAt_append le_rfl]
    simp [hnone]
  · have hnone : ∀ l : List Bytes, l.length ≤ i → ¬ Stands l i e := by
      rintro l hl ⟨line, hline, -⟩
      rw [List.getElem?_eq_none hl] at hline
      cases hline
    simp [hnone _ hgt.le, hnone (lines ++ [line]) (by simpa using hgt), hgt.ne']

theorem lt_of_stands {i : ℕ} (h : Stands lines i e) : i < lines.length := by
  obtain ⟨line, hline, -⟩ := h
  exact (List.getElem?_eq_some_iff.mp hline).1

/-- The last entry of a kind is the first that is found from the end. -/
theorem find?_entries {kind : Entry → Prop} [DecidablePred kind] :
    (entries lines).reverse.find? kind = some e ↔
      ∃ i, Stands lines i e ∧ kind e ∧ ∀ j > i, ∀ e', Stands lines j e' → ¬ kind e' := by
  induction lines using List.reverseRecOn with
  | nil => simp [entries, Stands]
  | append_singleton lines line ih =>
    rw [entries_concat, List.reverse_append]
    simp only [stands_concat]
    cases hentry : entryAt lines line lines.length with
    | none =>
      have hnone : ∀ i e', ¬ (i = lines.length ∧ entryAt lines line i = some e') := by
        rintro i e' ⟨rfl, h⟩
        rw [hentry] at h
        cases h
      simp only [Option.toList_none, List.reverse_nil, List.nil_append, ih, hnone, or_false]
    | some last =>
      have hsome : ∀ i e', (i = lines.length ∧ entryAt lines line i = some e') ↔
          i = lines.length ∧ last = e' := by
        intro i e'
        refine and_congr_right ?_
        rintro rfl
        rw [hentry, Option.some.injEq]
      simp only [hsome, Option.toList_some, List.reverse_singleton, List.singleton_append,
        List.find?_cons]
      by_cases hkind : kind last
      · simp only [hkind, decide_true, Option.some.injEq]
        constructor
        · rintro rfl
          refine ⟨lines.length, Or.inr ⟨rfl, rfl⟩, hkind, fun j hj e' h => ?_⟩
          obtain h | ⟨rfl, -⟩ := h
          · exact absurd (lt_of_stands h) (Nat.not_lt.mpr (Nat.le_of_lt hj))
          · exact absurd hj (lt_irrefl _)
        · rintro ⟨i, hstands | ⟨-, rfl⟩, -, hlast⟩
          · exact absurd hkind (hlast lines.length (lt_of_stands hstands) last (Or.inr ⟨rfl, rfl⟩))
          · rfl
      · simp only [hkind, decide_false, ih]
        refine exists_congr fun i => ?_
        constructor
        · rintro ⟨hstands, he, hlast⟩
          refine ⟨Or.inl hstands, he, fun j hj e' h => ?_⟩
          obtain h | ⟨-, rfl⟩ := h
          · exact hlast j hj e' h
          · exact hkind
        · rintro ⟨hstands | ⟨-, rfl⟩, he, hlast⟩
          · exact ⟨hstands, he, fun j hj e' h => hlast j hj e' (Or.inl h)⟩
          · exact absurd he hkind

/-- The last entry of a kind is the first one from the end. -/
theorem last_iff {text : Bytes} {kind : Entry → Prop} [DecidablePred kind] :
    Last text kind e ↔
      (entries (withoutBom (getlines text))).reverse.find? kind = some e := by
  rw [find?_entries, Last]
  constructor
  · rintro ⟨lines, i, hlines, h⟩
    rw [fileLines_iff.mp hlines]
    exact ⟨i, h⟩
  · rintro ⟨i, h⟩
    exact ⟨_, i, fileLines_iff.mpr rfl, h⟩

/-- The last entry that is kept under a string. -/
def lastJoined (entries : List Entry) (name : Bytes) : Option Entry :=
  entries.reverse.find? fun e => joined e.sectionName e.key = name

/-! ## The table -/

/-- An entry that comes last is found first. -/
theorem lastJoined_concat (es : List Entry) (e : Entry) (name : Bytes) :
    lastJoined (es ++ [e]) name =
      if joined e.sectionName e.key = name then some e else lastJoined es name := by
  rw [lastJoined, List.reverse_append, List.reverse_singleton, List.singleton_append,
    List.find?_cons]
  split_ifs with h
  · simp [h]
  · simp [h, lastJoined]

/-- The loop of `load` : it has the section of the last header, and under a string the value of the
last entry that is kept there. -/
theorem foldl_loadLine (lines : List Bytes) :
    lines.foldl loadLine ([], empty.values) = (sectionAt lines lines.length, fun name =>
      (lastJoined (entries lines) name).map Entry.value) := by
  induction lines using List.reverseRecOn with
  | nil => rfl
  | append_singleton lines line ih =>
    rw [List.foldl_append, ih, List.foldl_cons, List.foldl_nil, List.length_append,
      List.length_singleton, sectionAt_concat, entries_concat, loadLine, entryAt]
    cases readLine line with
    | skipped => simp [IniLine.name]
    | header name => simp [IniLine.name]
    | entry key value =>
      simp only [IniLine.name, Option.getD_none, Option.toList_some, Prod.mk.injEq, true_and]
      funext name
      rw [lastJoined_concat, Function.update_apply]
      by_cases hname : name = joined (sectionAt lines lines.length) key
      · rw [if_pos hname, if_pos hname.symm, Option.map_some]
      · rw [if_neg hname, if_neg (Ne.symm hname)]

/-- The map that `load` fills holds the last entry under each joined name. -/
theorem values_load (path : String) (text : Bytes) (name : Bytes) :
    (empty.load path (some text)).1.values name =
      (lastJoined (entries (withoutBom (getlines text))) name).map Entry.value := by
  simp [load, foldl_loadLine]

/-! ## Lookups -/

instance (s k : Bytes) : DecidablePred (Entry.For s k) := fun e =>
  inferInstanceAs (Decidable (e.sectionName = s ∧ e.key = k))

/-- What the file gives a key is the last entry for its section and its key. -/
theorem gives_iff {text value : Bytes} : Gives text s k value ↔
    (entries (withoutBom (getlines text))).reverse.find? (Entry.For s k) = some ⟨s, k, value⟩ :=
  last_iff

/-- What the file says is the value of the last entry, if there is one. -/
theorem says_iff {text fallback value : Bytes} :
    ((Gives text s k value) ∨ ((∀ v, ¬ Gives text s k v) ∧ value = fallback)) ↔
      value = (((entries (withoutBom (getlines text))).reverse.find? (Entry.For s k)).map
        Entry.value).getD fallback := by
  simp only [gives_iff]
  cases hfind : (entries (withoutBom (getlines text))).reverse.find? (Entry.For s k) with
  | none => simp
  | some e =>
    have hfor := List.find?_some hfind
    obtain ⟨hs, hk⟩ : e.For s k := of_decide_eq_true hfor
    obtain ⟨sectionName, key, v⟩ := e
    obtain rfl : sectionName = s := hs
    obtain rfl : key = k := hk
    have hsome : ¬ ∀ w, ¬ v = w := fun h => h v rfl
    simp only [Option.some.injEq, Entry.mk.injEq, true_and, hsome, false_and, or_false,
      Option.map_some, Option.getD_some]
    exact eq_comm

/-- `get` looks the joined name up in the map that `load` has filled. -/
theorem get_load (path : String) (text s k fallback : Bytes) :
    (empty.load path (some text)).1.get s k fallback =
      ((lastJoined (entries (withoutBom (getlines text))) (joined s k)).map Entry.value).getD
        fallback := by
  rw [get, values_load]

/-- The last entry kept where `s` and `k` are, if it is one of theirs, is the last of theirs. -/
theorem find?_of_joined {es : List Entry}
    (h : es.find? (fun e => joined e.sectionName e.key = joined s k) = some e)
    (hfor : e.For s k) : es.find? (Entry.For s k) = some e := by
  rw [List.find?_eq_some_iff_append] at h ⊢
  obtain ⟨-, before, after, heq, hbefore⟩ := h
  refine ⟨by simp [hfor], before, after, heq, fun e' he' => ?_⟩
  have hne := hbefore e' he'
  simp only [Bool.not_eq_true', decide_eq_false_iff_not] at hne ⊢
  rintro ⟨rfl, rfl⟩
  exact hne rfl

/-- For any text, section and key : whatever the fallback, `get` gives the value of the last line
`key = value` of the section, and the fallback if there is none, exactly if no other entry disturbs
them. -/
theorem get_iff (path : String) (text s k : Bytes) :
    (∀ fallback, Gives text s k ((empty.load path (some text)).1.get s k fallback) ∨
      ((∀ value, ¬ Gives text s k value) ∧
        (empty.load path (some text)).1.get s k fallback = fallback)) ↔ Undisturbed text s k := by
  simp only [says_iff]
  simp only [get_load, lastJoined, Undisturbed, last_iff, gives_iff]
  generalize (entries (withoutBom (getlines text))).reverse = es
  constructor
  · intro hget e he
    rw [he] at hget
    cases hentry : es.find? (Entry.For s k) with
    | none =>
      -- a longer fallback than the value tells the two apart
      have heq := congrArg List.length (hget (0 :: e.value))
      rw [hentry] at heq
      simp at heq
    | some e' =>
      have heq := hget []
      have hfor := List.find?_some hentry
      obtain ⟨hs, hk⟩ : e'.For s k := of_decide_eq_true hfor
      rw [hentry, Option.map_some, Option.map_some, Option.getD_some, Option.getD_some] at heq
      rw [heq, ← hs, ← hk]
      exact Or.inr rfl
  · intro hundisturbed fallback
    cases hjoined : es.find? fun e => joined e.sectionName e.key = joined s k with
    | none =>
      have hnone : es.find? (Entry.For s k) = none := by
        rw [List.find?_eq_none] at hjoined ⊢
        intro e he hfor
        obtain ⟨rfl, rfl⟩ : e.For s k := of_decide_eq_true hfor
        exact hjoined e he (decide_eq_true rfl)
      rw [hnone]
    | some e =>
      obtain hfor | hgives := hundisturbed e hjoined
      · rw [find?_of_joined hjoined hfor]
      · rw [hgives]
        rfl

/-- Without dots in the one pair, the string tells both. -/
theorem joined_inj {s' k' : Bytes} (hs : byte '.' ∉ s) (hk : byte '.' ∉ k)
    (h : joined s k = joined s' k') : s = s' ∧ k = k' := by
  rcases List.append_eq_append_iff.mp h with ⟨t, hleft, hright⟩ | ⟨t, hleft, hright⟩
  · cases t with
    | nil => exact ⟨by simpa using hleft.symm, by simpa using hright⟩
    | cons b t =>
      obtain ⟨-, rfl⟩ := List.cons.inj hright
      exact absurd (by simp) hk
  · cases t with
    | nil => exact ⟨by simpa using hleft, by simpa using hright.symm⟩
    | cons b t =>
      obtain ⟨rfl, -⟩ := List.cons.inj hright
      exact absurd (by simp [hleft]) hs

/-- In a file that has no dots in its section names and keys, nothing is disturbed. -/
theorem undisturbed_of_no_dots {text : Bytes}
    (h : ∀ lines i e, FileLines text lines → Stands lines i e →
      byte '.' ∉ e.sectionName ∧ byte '.' ∉ e.key) (s k : Bytes) : Undisturbed text s k := by
  rintro e ⟨lines, i, hlines, hstands, hjoined, -⟩
  obtain ⟨hs, hk⟩ := h lines i e hlines hstands
  exact Or.inl (joined_inj hs hk hjoined)

/-- A key with a dot answers for a section with a dot. -/
theorem other_section_answers : ¬ ∀ (path : String) (text s k fallback : Bytes), k ≠ [] →
    Gives text s k ((empty.load path (some text)).1.get s k fallback) ∨
      ((∀ value, ¬ Gives text s k value) ∧
        (empty.load path (some text)).1.get s k fallback = fallback) := by
  intro hall
  -- the lines "[a]" and "b.c = 1", and the key "c" of the section "a.b"
  have heq := hall "" [91, 97, 93, 10, 98, 46, 99, 32, 61, 32, 49, 10] [97, 46, 98] [99] []
    (by decide)
  rw [says_iff] at heq
  revert heq
  decide

end IniReader

end EchoServer
