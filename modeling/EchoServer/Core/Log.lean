import EchoServer.Lib.Decimals
import Mathlib.Data.Char
import Mathlib.Data.List.Sort

/-!
# Log rotation

`core/log.cpp` : the active log is renamed to a name with the time in it, and `purge_old` deletes
the files that sort first by name until `keep_files` are left.

Names are lists of characters and a directory is the files beside the active one. `extension` and
`stem` are those of `std::filesystem::path`. A file carries the number of the rotation that made
it, which no function reads, so that what is deleted can be told apart.

The names of two seconds sort as the seconds do (`candidate_lt_of_lt`). In one second they do not :
a hyphen sorts before the dot of the extension, so the first file of a second sorts after the
others (`candidate_lt_first`).
-/

namespace EchoServer

open Decimals

/-- The name of a file, without its directory. -/
abbrev FileName := List Char

/-! ## Paths -/

/-- What is before and after the last dot. -/
def lastDot : FileName → Option (FileName × FileName)
  | [] => none
  | c :: name =>
    match lastDot name with
    | some (before, after) => some (c :: before, after)
    | none => if c = '.' then some ([], name) else none

/-- `path::extension`, with its dot. A dot that comes first does not count. -/
def extension (name : FileName) : FileName :=
  if name = ['.', '.'] then []
  else
    match lastDot name with
    | some (_ :: _, after) => '.' :: after
    | _ => []

/-- `path::stem`. -/
def stem (name : FileName) : FileName :=
  if name = ['.', '.'] then name
  else
    match lastDot name with
    | some (c :: before, _) => c :: before
    | _ => name

/-- There is no last dot exactly if there is no dot. -/
theorem lastDot_eq_none : ∀ {name : FileName}, lastDot name = none ↔ '.' ∉ name
  | [] => by simp [lastDot]
  | c :: name => by
    rw [lastDot, List.mem_cons, not_or, ← lastDot_eq_none]
    cases lastDot name with
    | none => simp [eq_comm]
    | some p => simp

/-- The last dot is the one that none follows. -/
theorem lastDot_append (before : FileName) {after : FileName} (h : '.' ∉ after) :
    lastDot (before ++ '.' :: after) = some (before, after) := by
  induction before with
  | nil => simp [lastDot, lastDot_eq_none.mpr h]
  | cons c before ih => rw [List.cons_append, lastDot, ih]

/-- What stands before and after the last dot. -/
theorem lastDot_eq_some : ∀ {name before after : FileName},
    lastDot name = some (before, after) → name = before ++ '.' :: after ∧ '.' ∉ after
  | [], before, after, h => by simp [lastDot] at h
  | c :: name, before, after, h => by
    rw [lastDot] at h
    cases hname : lastDot name with
    | none =>
      simp only [hname] at h
      split_ifs at h with hc
      obtain ⟨rfl, rfl⟩ : [] = before ∧ name = after := by simpa using h
      exact ⟨by rw [hc]; rfl, lastDot_eq_none.mp hname⟩
    | some p =>
      obtain ⟨before', after'⟩ := p
      simp only [hname] at h
      obtain ⟨rfl, rfl⟩ : c :: before' = before ∧ after' = after := by simpa using h
      obtain ⟨rfl, hafter⟩ := lastDot_eq_some hname
      exact ⟨rfl, hafter⟩

/-- A part before the last dot counts, so there is an extension. -/
theorem extension_append {before after : FileName} (hne : before ≠ []) (h : '.' ∉ after)
    (hdots : before ++ '.' :: after ≠ ['.', '.']) :
    extension (before ++ '.' :: after) = '.' :: after := by
  rw [extension, if_neg hdots, lastDot_append before h]
  cases before with
  | nil => exact absurd rfl hne
  | cons c before => rfl

/-- Whatever follows. -/
theorem extension_ne_nil {before rest : FileName} (hne : before ≠ [])
    (hdots : before ++ '.' :: rest ≠ ['.', '.']) : extension (before ++ '.' :: rest) ≠ [] := by
  cases hrest : lastDot rest with
  | none =>
    rw [extension_append hne (lastDot_eq_none.mp hrest) hdots]
    simp
  | some p =>
    obtain ⟨rfl, hafter⟩ := lastDot_eq_some hrest
    have hname : before ++ '.' :: (p.1 ++ '.' :: p.2) = (before ++ '.' :: p.1) ++ '.' :: p.2 := by
      simp
    rw [hname] at hdots ⊢
    rw [extension_append (by simp) hafter hdots]
    simp

/-- The extension is empty, or a dot and what follows it. -/
theorem extension_cases (name : FileName) : extension name = [] ∨
    ∃ after, extension name = '.' :: after ∧ '.' ∉ after := by
  rw [extension]
  split_ifs
  · exact Or.inl rfl
  · split
    · rename_i c before after h
      exact Or.inr ⟨after, rfl, (lastDot_eq_some h).2⟩
    · exact Or.inl rfl

/-- A name has a stem, even if it begins with a dot. -/
theorem stem_ne_nil {name : FileName} (h : name ≠ []) : stem name ≠ [] := by
  rw [stem]
  split_ifs
  · exact h
  · split
    · simp
    · exact h

/-- Stem and extension make up the name. -/
theorem stem_append_extension (name : FileName) : stem name ++ extension name = name := by
  rw [stem, extension]
  split_ifs
  · exact List.append_nil _
  · split
    · rename_i c before after h
      exact (lastDot_eq_some h).1.symm
    · exact List.append_nil _

/-! ## Time stamps -/

/-- A local time. Every field fits the width it is written in. -/
structure Stamp where
  year : ℕ
  month : ℕ
  day : ℕ
  hour : ℕ
  minute : ℕ
  second : ℕ
  year_lt : year < 10000
  month_lt : month < 100
  day_lt : day < 100
  hour_lt : hour < 100
  minute_lt : minute < 100
  second_lt : second < 100

namespace Stamp

/-- The date as the name of a file has it. -/
def date (t : Stamp) : ℕ := t.year * 10000 + t.month * 100 + t.day

/-- The time as the name of a file has it. -/
def time (t : Stamp) : ℕ := t.hour * 10000 + t.minute * 100 + t.second

/-- The digits of a stamp as one number, which is greater for a later time. -/
def number (t : Stamp) : ℕ := t.date * 1000000 + t.time

/-- The format `%04d%02d%02d-%02d%02d%02d`. -/
def text (t : Stamp) : FileName :=
  padded 4 t.year ++ padded 2 t.month ++ padded 2 t.day ++ '-' ::
    (padded 2 t.hour ++ padded 2 t.minute ++ padded 2 t.second)

theorem time_lt (t : Stamp) : t.time < 1000000 := by
  have := t.hour_lt
  have := t.minute_lt
  have := t.second_lt
  unfold time
  omega

theorem date_lt (t : Stamp) : t.date < 100000000 := by
  have := t.year_lt
  have := t.month_lt
  have := t.day_lt
  unfold date
  omega

/-- The text of a stamp is its date and its time, each padded. -/
theorem text_eq (t : Stamp) : t.text = padded 8 t.date ++ '-' :: padded 6 t.time := by
  have hdate : t.year * 10000 + t.month * 100 + t.day =
      (t.year * 10 ^ 2 + t.month) * 10 ^ 2 + t.day := by
    ring
  have htime : t.hour * 10000 + t.minute * 100 + t.second =
      (t.hour * 10 ^ 2 + t.minute) * 10 ^ 2 + t.second := by
    ring
  rw [text, padded_append 4 t.year 2 t.month_lt, padded_append _ _ 2 t.day_lt,
    padded_append 2 t.hour 2 t.minute_lt, padded_append _ _ 2 t.second_lt, date, time, hdate, htime]

theorem length_text (t : Stamp) : t.text.length = 15 := by
  simp [text_eq]

/-- The texts of two times compare as the times. -/
theorem text_lt {t t' : Stamp} (h : t.number < t'.number) : t.text < t'.text := by
  have := t.time_lt
  have := t'.time_lt
  rw [text_eq, text_eq]
  unfold number at h
  rcases lt_trichotomy t.date t'.date with hlt | heq | hgt
  · exact append_lt_append _ _ (padded_lt_padded 8 hlt t'.date_lt) (by simp)
  · rw [heq]
    exact List.append_left_lt (.cons (padded_lt_padded 6 (by omega) t'.time_lt))
  · omega

/-- Stamps with one number have one text. -/
theorem text_congr {t t' : Stamp} (h : t.number = t'.number) : t.text = t'.text := by
  have := t.time_lt
  have := t'.time_lt
  unfold number at h
  have hdate : t.date = t'.date := by omega
  have htime : t.time = t'.time := by omega
  rw [text_eq, text_eq, hdate, htime]

/-- And stamps with one text have one number. -/
theorem number_congr {t t' : Stamp} (h : t.text = t'.text) : t.number = t'.number := by
  rcases lt_trichotomy t.number t'.number with hlt | heq | hgt
  · exact absurd (text_lt hlt) (h ▸ List.lt_irrefl _)
  · exact heq
  · exact absurd (text_lt hgt) (h ▸ List.lt_irrefl _)

end Stamp

/-! ## Rotation -/

/-- A file, and the rotation that made it of the active log, if one did. -/
structure LogFile where
  name : FileName
  rotation : Option ℕ

/-- The number that tells names of one second apart; the first has none. -/
def sequenceText (seq : ℕ) : FileName := if 0 < seq then '-' :: Nat.toDigits 10 seq else []

/-- The name for `seq` in `rotated_target`. -/
def candidate (active : FileName) (t : Stamp) (seq : ℕ) : FileName :=
  stem active ++ '.' :: (t.text ++ (sequenceText seq ++ extension active))

/-- `rotated_target`. -/
def rotatedTarget (active : FileName) (t : Stamp) (dir : List LogFile) : Option FileName :=
  ((List.range 100).find? fun seq => candidate active t seq ∉ dir.map LogFile.name).map
    (candidate active t)

/-- What `purge_old` takes for a rotated log. -/
def isRotated (active name : FileName) : Bool :=
  name ≠ active && extension name = extension active && (stem active ++ ['.']).isPrefixOf name

/-- `purge_old`. -/
def purgeOld (active : FileName) (keep : ℕ) (dir : List LogFile) : List LogFile :=
  let rotated := (dir.map LogFile.name).filter (isRotated active)
  if keep = 0 ∨ rotated.length ≤ keep then dir
  else
    let excess := (rotated.insertionSort (· ≤ ·)).take (rotated.length - keep)
    dir.filter fun file => file.name ∉ excess

/-- `rotate_if_needed`, where a rotation is due : the `n`-th. -/
def rotate (active : FileName) (keep : ℕ) (t : Stamp) (n : ℕ) (dir : List LogFile) :
    List LogFile :=
  match rotatedTarget active t dir with
  | none => dir
  | some target => purgeOld active keep (dir ++ [⟨target, some n⟩])

/-- The directory after `n` rotations. -/
def rotations (active : FileName) (keep : ℕ) (others : List LogFile) (stamps : ℕ → Stamp) :
    ℕ → List LogFile
  | 0 => others
  | n + 1 => rotate active keep (stamps n) n (rotations active keep others stamps n)

/-- The rotated files left are those of the last `keep` of `n` rotations. -/
def KeepsNewest (keep n : ℕ) (dir : List LogFile) : Prop :=
  ∀ i, (∃ file ∈ dir, file.rotation = some i) ↔ i < n ∧ n ≤ i + keep

/-- No rotated log, nor a file that has the name of one. -/
def Unrotated (active : FileName) (others : List LogFile) : Prop :=
  ∀ file ∈ others, file.rotation = none ∧ isRotated active file.name = false ∧
    ∀ t, ∀ seq < 100, file.name ≠ candidate active t seq

/-! ## Names -/

section Names

variable {active : FileName} {t t' : Stamp} {seq seq' : ℕ}

/-- Below one hundred, the texts of the sequence differ. -/
theorem sequenceText_inj (h : seq < 100) (h' : seq' < 100)
    (heq : sequenceText seq = sequenceText seq') : seq = seq' := by
  have hall : ∀ i < 100, ∀ j < i, sequenceText i ≠ sequenceText j := by decide +kernel
  rcases lt_trichotomy seq seq' with hlt | rfl | hgt
  · exact absurd heq.symm (hall seq' h' seq hlt)
  · rfl
  · exact absurd heq (hall seq h seq' hgt)

/-- A name tells the time and the number in its second. -/
theorem candidate_inj (h : seq < 100) (h' : seq' < 100)
    (heq : candidate active t seq = candidate active t' seq') :
    t.number = t'.number ∧ seq = seq' := by
  unfold candidate at heq
  have hrest := (List.cons.inj (List.append_cancel_left heq)).2
  obtain ⟨htext, hsuffix⟩ := List.append_inj hrest (by simp [Stamp.length_text])
  exact ⟨Stamp.number_congr htext, sequenceText_inj h h' (List.append_cancel_right hsuffix)⟩

/-- The names of two seconds sort as the seconds do. -/
theorem candidate_lt_of_lt (h : t.number < t'.number) :
    candidate active t seq < candidate active t' seq' := by
  refine List.append_left_lt (.cons (append_lt_append _ _ (Stamp.text_lt h) ?_))
  rw [Stamp.length_text, Stamp.length_text]

/-- In one second the first name sorts last. -/
theorem candidate_lt_first (hext : extension active ≠ []) (h : t.number = t'.number)
    (hseq : 0 < seq) : candidate active t seq < candidate active t' 0 := by
  obtain ⟨after, hafter, -⟩ := (extension_cases active).resolve_left hext
  have hdot : ('-' : Char) < '.' := by decide
  rw [candidate, candidate, Stamp.text_congr h, hafter, sequenceText, sequenceText, if_pos hseq,
    if_neg (lt_irrefl 0)]
  exact List.append_left_lt (.cons (List.append_left_lt (.rel hdot)))

/-- A rotated name is at least 16 characters longer than the active one. -/
theorem length_candidate (active : FileName) (t : Stamp) (seq : ℕ) :
    active.length + 16 ≤ (candidate active t seq).length := by
  have hlength := congrArg List.length (stem_append_extension active)
  rw [List.length_append] at hlength
  simp only [candidate, List.length_append, List.length_cons, Stamp.length_text]
  omega

/-- A rotated name is not the directory above. -/
theorem candidate_ne_dots (active : FileName) (t : Stamp) (seq : ℕ) :
    candidate active t seq ≠ ['.', '.'] := by
  intro heq
  have hlength := length_candidate active t seq
  rw [heq, List.length_cons, List.length_singleton] at hlength
  omega

/-- `purge_old` finds the files that `rotated_target` names, if the log has an extension. -/
theorem isRotated_candidate (hext : extension active ≠ []) :
    isRotated active (candidate active t seq) = true := by
  obtain ⟨after, hafter, hdot⟩ := (extension_cases active).resolve_left hext
  have hname : candidate active t seq =
      (stem active ++ '.' :: (t.text ++ sequenceText seq)) ++ '.' :: after := by
    simp [candidate, hafter]
  have hextension : extension (candidate active t seq) = extension active := by
    have hdots := candidate_ne_dots active t seq
    rw [hname] at hdots ⊢
    rw [extension_append (by simp) hdot hdots, hafter]
  have hne : candidate active t seq ≠ active := by
    intro heq
    have hlength := length_candidate active t seq
    rw [heq] at hlength
    omega
  have hprefix : (stem active ++ ['.']).isPrefixOf (candidate active t seq) = true := by
    rw [List.isPrefixOf_iff_prefix]
    exact ⟨t.text ++ (sequenceText seq ++ extension active), by simp [candidate]⟩
  simp [isRotated, hne, hextension, hprefix]

/-- It finds none of them if the log has no extension. -/
theorem isRotated_candidate_of_nil (hactive : active ≠ []) (hext : extension active = []) :
    isRotated active (candidate active t seq) = false := by
  have hne : extension (candidate active t seq) ≠ [] :=
    extension_ne_nil (stem_ne_nil hactive) (candidate_ne_dots active t seq)
  simp [isRotated, hext, hne]

end Names

/-! ## Deletion -/

/-- What sorts first. -/
theorem exists_take_one {names : List FileName} (h : names ≠ []) :
    ∃ name ∈ names, (∀ other ∈ names, name ≤ other) ∧
      (names.insertionSort (· ≤ ·)).take 1 = [name] := by
  have hperm := List.perm_insertionSort (· ≤ ·) names
  have hsorted : (names.insertionSort (· ≤ ·)).Pairwise (· ≤ ·) := List.pairwise_insertionSort _ _
  cases hsort : names.insertionSort (· ≤ ·) with
  | nil => exact absurd (List.length_eq_zero_iff.mp (by rw [← hperm.length_eq, hsort]; rfl)) h
  | cons name rest =>
    rw [hsort] at hperm hsorted
    refine ⟨name, hperm.subset List.mem_cons_self, fun other hother => ?_, rfl⟩
    rcases List.mem_cons.mp (hperm.symm.subset hother) with heq | hrest
    · exact heq.ge
    · exact List.rel_of_pairwise_cons hsorted hrest

/-! ## Runs -/

section Runs

variable (active : FileName) (keep : ℕ) (others : List LogFile) (stamps : ℕ → Stamp)

/-- The name that rotation `n` gives. -/
def targetAt (n : ℕ) : Option FileName :=
  rotatedTarget active (stamps n) (rotations active keep others stamps n)

/-- What rotation `n` makes of the active log. -/
def fileAt (n : ℕ) : LogFile := ⟨(targetAt active keep others stamps n).getD [], some n⟩

/-- The files of the last `keep` rotations are left. -/
def Newest (n : ℕ) : Prop :=
  rotations active keep others stamps n =
    others ++ (List.range' (n - keep) (min n keep)).map (fileAt active keep others stamps)

/-- Rotation `n` found a name. -/
def Named (n : ℕ) : Prop :=
  ∃ seq < 100, targetAt active keep others stamps n = some (candidate active (stamps n) seq)

variable {active keep others stamps} {n N : ℕ}

/-- The file of a rotation has the name that was free. -/
theorem name_fileAt {seq : ℕ}
    (h : targetAt active keep others stamps n = some (candidate active (stamps n) seq)) :
    (fileAt active keep others stamps n).name = candidate active (stamps n) seq := by
  rw [fileAt, h, Option.getD_some]

/-- A name that is taken belongs to a rotation that is left. -/
theorem exists_of_mem (hothers : Unrotated active others)
    (hnewest : Newest active keep others stamps n) {t : Stamp} {seq : ℕ} (hseq : seq < 100)
    (hmem : candidate active t seq ∈
      (rotations active keep others stamps n).map LogFile.name) :
    ∃ j, n - keep ≤ j ∧ j < n ∧
      (fileAt active keep others stamps j).name = candidate active t seq := by
  rw [hnewest, List.map_append, List.mem_append, List.map_map] at hmem
  rcases hmem with hold | hnew
  · obtain ⟨file, hfile, hname⟩ := List.mem_map.mp hold
    exact absurd hname ((hothers file hfile).2.2 t seq hseq)
  · obtain ⟨j, hj, hname⟩ := List.mem_map.mp hnew
    rw [List.mem_range'_1] at hj
    exact ⟨j, hj.1, by omega, hname⟩

/-- The first free name is found, since fewer than a hundred rotations of the second have been. -/
theorem exists_target (hothers : Unrotated active others)
    (hhundred : ∀ m, ((Finset.range N).filter fun i => (stamps i).number = m).card ≤ 100)
    (hn : n < N) (hnewest : Newest active keep others stamps n)
    (hnamed : ∀ j < n, Named active keep others stamps j) :
    ∃ seq < 100, targetAt active keep others stamps n = some (candidate active (stamps n) seq) ∧
      candidate active (stamps n) seq ∉ (rotations active keep others stamps n).map LogFile.name ∧
      ∀ s < seq, candidate active (stamps n) s ∈
        (rotations active keep others stamps n).map LogFile.name := by
  cases hfind : (List.range 100).find? fun seq =>
      candidate active (stamps n) seq ∉
        (rotations active keep others stamps n).map LogFile.name with
  | some seq =>
    obtain ⟨hfree, hseq, hbefore⟩ := List.find?_range_eq_some.mp hfind
    refine ⟨seq, List.mem_range.mp hseq, ?_, by simpa using hfree, fun s hs => ?_⟩
    · rw [targetAt, rotatedTarget, hfind, Option.map_some]
    · simpa using hbefore s hs
  | none =>
    exfalso
    have htaken : ∀ s : ℕ, ∃ j, s < 100 → j < n ∧ (stamps j).number = (stamps n).number ∧
        targetAt active keep others stamps j = some (candidate active (stamps j) s) := by
      intro s
      by_cases hs : s < 100
      · have hmem : candidate active (stamps n) s ∈
            (rotations active keep others stamps n).map LogFile.name := by
          simpa using List.find?_range_eq_none.mp hfind s hs
        obtain ⟨j, -, hj, hname⟩ := exists_of_mem hothers hnewest hs hmem
        obtain ⟨seq, hseq, htarget⟩ := hnamed j hj
        rw [name_fileAt htarget] at hname
        obtain ⟨hnumber, rfl⟩ := candidate_inj hseq hs hname
        exact ⟨j, fun _ => ⟨hj, hnumber, htarget⟩⟩
      · exact ⟨0, fun h => absurd h hs⟩
    choose owner howner using htaken
    let same := (Finset.range N).filter fun i => (stamps i).number = (stamps n).number
    have hmaps : ∀ s ∈ Finset.range 100, owner s ∈ same.erase n := by
      intro s hs
      obtain ⟨hlt, hnumber, -⟩ := howner s (Finset.mem_range.mp hs)
      exact Finset.mem_erase.mpr ⟨hlt.ne, Finset.mem_filter.mpr
        ⟨Finset.mem_range.mpr (hlt.trans hn), hnumber⟩⟩
    have hinj : Set.InjOn owner (Finset.range 100) := by
      intro s hs s' hs' heq
      have hs := Finset.mem_range.mp hs
      have hs' := Finset.mem_range.mp hs'
      obtain ⟨-, -, htarget⟩ := howner s hs
      obtain ⟨-, -, htarget'⟩ := howner s' hs'
      rw [heq, htarget', Option.some.injEq] at htarget
      exact (candidate_inj hs' hs htarget).2.symm
    have hcard := Finset.card_le_card_of_injOn owner hmaps hinj
    have hself : n ∈ same := Finset.mem_filter.mpr ⟨Finset.mem_range.mpr hn, rfl⟩
    have hbound : same.card ≤ 100 := hhundred (stamps n).number
    have hpos := Finset.card_pos.mpr ⟨n, hself⟩
    rw [Finset.card_range, Finset.card_erase_of_mem hself] at hcard
    omega

/-- No file beside the rotated logs counts for `purge_old`. -/
theorem filter_names (hothers : Unrotated active others) (files : List LogFile) :
    ((others ++ files).map LogFile.name).filter (isRotated active) =
      (files.map LogFile.name).filter (isRotated active) := by
  rw [List.map_append, List.filter_append, List.filter_eq_nil_iff.mpr, List.nil_append]
  intro name hname
  obtain ⟨file, hfile, rfl⟩ := List.mem_map.mp hname
  rw [(hothers file hfile).2.1]
  exact Bool.false_ne_true

/-- The directory in which rotation `n` has put its file, before anything is deleted. -/
theorem rotations_succ {target : FileName} (h : targetAt active keep others stamps n = some target)
    (hnewest : Newest active keep others stamps n) :
    rotations active keep others stamps (n + 1) =
      purgeOld active keep (others ++ (List.range' (n - keep) (min n keep + 1)).map
        (fileAt active keep others stamps)) := by
  have hfile : fileAt active keep others stamps n = ⟨target, some n⟩ := by
    rw [fileAt, h, Option.getD_some]
  have hlast : n - keep + min n keep = n := by omega
  rw [targetAt] at h
  rw [rotations, rotate, h, List.range'_concat, List.map_append, one_mul, hlast,
    ← List.append_assoc, ← hnewest, List.map_singleton, hfile]

/-- Nothing is removed while no more than `keep` are there. -/
theorem purgeOld_of_le {dir : List LogFile}
    (h : ((dir.map LogFile.name).filter (isRotated active)).length ≤ keep) :
    purgeOld active keep dir = dir := by
  unfold purgeOld
  exact if_pos (Or.inr h)

/-- One file too many : the one that sorts first is deleted. -/
theorem purgeOld_of_succ (active : FileName) (dir : List LogFile) (hkeep : 0 < keep)
    (h : ((dir.map LogFile.name).filter (isRotated active)).length = keep + 1) :
    ∃ name ∈ (dir.map LogFile.name).filter (isRotated active),
      (∀ other ∈ (dir.map LogFile.name).filter (isRotated active), name ≤ other) ∧
        purgeOld active keep dir = dir.filter fun file => file.name ≠ name := by
  have hne : (dir.map LogFile.name).filter (isRotated active) ≠ [] := by
    intro hnil
    rw [hnil] at h
    exact absurd h (by simp)
  obtain ⟨name, hmem, hle, htake⟩ := exists_take_one hne
  refine ⟨name, hmem, hle, ?_⟩
  unfold purgeOld
  rw [if_neg (by omega), h, Nat.add_sub_cancel_left, htake]
  simp

/-- `purge_old` takes all files that rotations have made for rotated logs. -/
theorem filter_fileAt (hothers : Unrotated active others) (hext : extension active ≠ [])
    {js : List ℕ} (hnamed : ∀ j ∈ js, Named active keep others stamps j) :
    ((others ++ js.map (fileAt active keep others stamps)).map LogFile.name).filter
      (isRotated active) = js.map fun j => (fileAt active keep others stamps j).name := by
  rw [filter_names hothers, List.map_map]
  refine List.filter_eq_self.mpr fun name hname => ?_
  obtain ⟨j, hj, rfl⟩ := List.mem_map.mp hname
  obtain ⟨seq, -, htarget⟩ := hnamed j hj
  rw [Function.comp_apply, name_fileAt htarget]
  exact isRotated_candidate hext

/-- It takes none of them if the log has no extension. -/
theorem filter_fileAt_of_nil (hothers : Unrotated active others) (hactive : active ≠ [])
    (hext : extension active = []) {js : List ℕ}
    (hnamed : ∀ j ∈ js, Named active keep others stamps j) :
    ((others ++ js.map (fileAt active keep others stamps)).map LogFile.name).filter
      (isRotated active) = [] := by
  rw [filter_names hothers, List.map_map, List.filter_eq_nil_iff]
  intro name hname
  obtain ⟨j, hj, rfl⟩ := List.mem_map.mp hname
  obtain ⟨seq, -, htarget⟩ := hnamed j hj
  rw [Function.comp_apply, name_fileAt htarget, isRotated_candidate_of_nil hactive hext]
  exact Bool.false_ne_true

/-- Up to `keep` files are all kept. -/
theorem newest_succ_of_lt (hothers : Unrotated active others) (hn : n < keep)
    (hnewest : Newest active keep others stamps n) {target : FileName}
    (htarget : targetAt active keep others stamps n = some target) :
    Newest active keep others stamps (n + 1) := by
  have hlength : (((others ++ (List.range' (n - keep) (min n keep + 1)).map
      (fileAt active keep others stamps)).map LogFile.name).filter
        (isRotated active)).length ≤ keep := by
    rw [filter_names hothers]
    refine (List.length_filter_le _ _).trans ?_
    rw [List.length_map, List.length_map, List.length_range']
    omega
  have hfirst : n - keep = n + 1 - keep := by omega
  have hcount : min n keep + 1 = min (n + 1) keep := by omega
  rw [Newest, rotations_succ htarget hnewest, purgeOld_of_le hlength, hfirst, hcount]

/-- Where the oldest file sorts first, it is the one deleted. -/
theorem newest_succ_of_le (hothers : Unrotated active others) (hext : extension active ≠ [])
    (hkeep : 0 < keep) (hn : keep ≤ n) (hnewest : Newest active keep others stamps n)
    (hnamed : ∀ j ≤ n, Named active keep others stamps j)
    (hlt : ∀ j, n - keep < j → j ≤ n → (stamps (n - keep)).number < (stamps j).number) :
    Newest active keep others stamps (n + 1) := by
  obtain ⟨seq, hseq, htarget⟩ := hnamed n le_rfl
  obtain ⟨oldest, holdest, holdtarget⟩ := hnamed (n - keep) (Nat.sub_le ..)
  have hnames : ∀ j ∈ List.range' (n - keep) (keep + 1), Named active keep others stamps j := by
    intro j hj
    rw [List.mem_range'_1] at hj
    exact hnamed j (by omega)
  have hfilter := filter_fileAt hothers hext hnames
  have hmin : min n keep = keep := min_eq_right hn
  -- the names of the later seconds sort after that of the oldest file
  have hafter : ∀ j ∈ List.range' (n - keep + 1) keep,
      (fileAt active keep others stamps (n - keep)).name <
        (fileAt active keep others stamps j).name := by
    intro j hj
    rw [List.mem_range'_1] at hj
    obtain ⟨seq', -, htarget'⟩ := hnamed j (by omega)
    rw [name_fileAt holdtarget, name_fileAt htarget']
    exact candidate_lt_of_lt (hlt j (by omega) (by omega))
  obtain ⟨name, hmem, hle, hpurge⟩ := purgeOld_of_succ active
    (others ++ (List.range' (n - keep) (keep + 1)).map (fileAt active keep others stamps)) hkeep
    (by rw [hfilter, List.length_map, List.length_range'])
  rw [hfilter, List.range'_succ, List.map_cons] at hmem hle
  have hname : name = (fileAt active keep others stamps (n - keep)).name := by
    rcases List.mem_cons.mp hmem with heq | hlater
    · exact heq
    · obtain ⟨j, hj, rfl⟩ := List.mem_map.mp hlater
      exact absurd (hle _ List.mem_cons_self) (not_le_of_gt (hafter j hj))
  have hstart : n - keep + 1 = n + 1 - keep := by omega
  have hcount : min (n + 1) keep = keep := by omega
  rw [Newest, rotations_succ htarget hnewest, hmin, hpurge, List.filter_append, List.range'_succ,
    List.map_cons, List.filter_cons_of_neg, hname, List.filter_eq_self.mpr, List.filter_eq_self.mpr,
    hstart, hcount]
  · intro file hfile
    obtain ⟨j, hj, rfl⟩ := List.mem_map.mp hfile
    simpa using (hafter j hj).ne'
  · intro file hfile
    rw [name_fileAt holdtarget]
    simpa using (hothers file hfile).2.2 _ _ holdest
  · simp [hname]

/-- Time does not go back. -/
theorem number_le (hmono : ∀ i, i + 1 < N → (stamps i).number ≤ (stamps (i + 1)).number) {i j : ℕ}
    (hij : i ≤ j) (hj : j < N) : (stamps i).number ≤ (stamps j).number := by
  induction j, hij using Nat.le_induction with
  | base => exact le_rfl
  | succ j _ ih => exact (ih (by omega)).trans (hmono j hj)

/-- The condition on the files that have to go : each was made in an earlier second than the
next. -/
def Apart (active : FileName) (keep : ℕ) (stamps : ℕ → Stamp) (N : ℕ) : Prop :=
  ∀ i, i + keep < N → extension active ≠ [] ∧ (stamps i).number < (stamps (i + 1)).number

/-- A run in which the files that have to go are apart keeps the newest. -/
theorem newest_of_apart (hothers : Unrotated active others) (hkeep : 0 < keep)
    (hmono : ∀ i, i + 1 < N → (stamps i).number ≤ (stamps (i + 1)).number)
    (hhundred : ∀ m, ((Finset.range N).filter fun i => (stamps i).number = m).card ≤ 100)
    {M : ℕ} (hM : M ≤ N) (hapart : Apart active keep stamps M) :
    ∀ n ≤ M, Newest active keep others stamps n ∧ ∀ j < n, Named active keep others stamps j
  | 0, _ => ⟨by simp [Newest, rotations], fun j hj => absurd hj (Nat.not_lt_zero j)⟩
  | n + 1, hn => by
    obtain ⟨hnewest, hnamed⟩ :=
      newest_of_apart hothers hkeep hmono hhundred hM hapart n (Nat.le_of_succ_le hn)
    obtain ⟨seq, hseq, htarget, -⟩ := exists_target hothers hhundred (by omega) hnewest hnamed
    have hnamed' : ∀ j < n + 1, Named active keep others stamps j := by
      intro j hj
      rcases Nat.lt_succ_iff_lt_or_eq.mp hj with hlt | rfl
      · exact hnamed j hlt
      · exact ⟨seq, hseq, htarget⟩
    refine ⟨?_, hnamed'⟩
    rcases lt_or_ge n keep with hlt | hge
    · exact newest_succ_of_lt hothers hlt hnewest htarget
    · obtain ⟨hext, hnext⟩ := hapart (n - keep) (by omega)
      refine newest_succ_of_le hothers hext hkeep hge hnewest
        (fun j hj => hnamed' j (Nat.lt_succ_of_le hj)) fun j hj hjn => ?_
      exact hnext.trans_le (number_le hmono hj (by omega))

/-- With the last files beside the others, the newest files are kept. -/
theorem kept_of_newest (hothers : Unrotated active others)
    (hnewest : Newest active keep others stamps n) :
    KeepsNewest keep n (rotations active keep others stamps n) := by
  intro i
  rw [hnewest]
  constructor
  · rintro ⟨file, hfile, hrotation⟩
    rcases List.mem_append.mp hfile with hold | hnew
    · rw [(hothers file hold).1] at hrotation
      cases hrotation
    · obtain ⟨j, hj, rfl⟩ := List.mem_map.mp hnew
      obtain rfl : j = i := Option.some.inj hrotation
      rw [List.mem_range'_1] at hj
      omega
  · rintro ⟨hlt, hle⟩
    refine ⟨fileAt active keep others stamps i, List.mem_append_right _ ?_, rfl⟩
    exact List.mem_map_of_mem (List.mem_range'_1.mpr (by omega))

/-- The first file of a second has the name without a number. -/
theorem target_first (hothers : Unrotated active others)
    (hhundred : ∀ m, ((Finset.range N).filter fun i => (stamps i).number = m).card ≤ 100)
    (hn : n < N) (hnewest : Newest active keep others stamps n)
    (hnamed : ∀ j < n, Named active keep others stamps j)
    (hfirst : ∀ j < n, (stamps j).number < (stamps n).number) :
    targetAt active keep others stamps n = some (candidate active (stamps n) 0) := by
  obtain ⟨seq, hseq, htarget, -, hbefore⟩ := exists_target hothers hhundred hn hnewest hnamed
  rcases seq.eq_zero_or_pos with rfl | hpos
  · exact htarget
  · obtain ⟨j, -, hj, hname⟩ := exists_of_mem hothers hnewest (by omega) (hbefore 0 hpos)
    obtain ⟨s, hs, hother⟩ := hnamed j hj
    rw [name_fileAt hother] at hname
    exact absurd (candidate_inj hs (by omega) hname).1 (hfirst j hj).ne

/-- Of two files of one second, the first of which has no number, the second has the lesser name. -/
theorem name_succ_lt (hothers : Unrotated active others) (hkeep : 0 < keep)
    (hhundred : ∀ m, ((Finset.range N).filter fun i => (stamps i).number = m).card ≤ 100)
    (hext : extension active ≠ []) {i : ℕ} (hi : i + 1 < N)
    (hfirst : targetAt active keep others stamps i = some (candidate active (stamps i) 0))
    (hnewest : Newest active keep others stamps (i + 1))
    (hnamed : ∀ j < i + 1, Named active keep others stamps j)
    (heq : (stamps i).number = (stamps (i + 1)).number) :
    (fileAt active keep others stamps (i + 1)).name <
      (fileAt active keep others stamps i).name := by
  obtain ⟨seq, -, hnext, hfree, -⟩ := exists_target hothers hhundred hi hnewest hnamed
  have hpos : 0 < seq := by
    rcases seq.eq_zero_or_pos with rfl | hpos
    · refine absurd ?_ hfree
      have hname : candidate active (stamps (i + 1)) 0 =
          (fileAt active keep others stamps i).name := by
        rw [name_fileAt hfirst, candidate, candidate, Stamp.text_congr heq]
      rw [hname, hnewest]
      refine List.mem_map_of_mem (List.mem_append_right _ (List.mem_map_of_mem ?_))
      exact List.mem_range'_1.mpr (by omega)
    · exact hpos
  rw [name_fileAt hfirst, name_fileAt hnext]
  exact candidate_lt_first hext heq.symm hpos

/-- Where the files up to `i` were apart and `i` was deleted in its turn, it was apart too. -/
theorem apart_of_kept (hactive : active ≠ []) (hothers : Unrotated active others)
    (hkeep : 0 < keep) (hmono : ∀ i, i + 1 < N → (stamps i).number ≤ (stamps (i + 1)).number)
    (hhundred : ∀ m, ((Finset.range N).filter fun i => (stamps i).number = m).card ≤ 100)
    {i : ℕ} (hi : i + keep < N) (hapart : Apart active keep stamps (i + keep))
    (hkept : KeepsNewest keep (i + keep + 1) (rotations active keep others stamps (i + keep + 1))) :
    extension active ≠ [] ∧ (stamps i).number < (stamps (i + 1)).number := by
  have hrun := newest_of_apart hothers hkeep hmono hhundred hi.le hapart
  obtain ⟨hnewest, hnamed⟩ := hrun (i + keep) le_rfl
  obtain ⟨last, hlast, htarget, -⟩ := exists_target hothers hhundred hi hnewest hnamed
  have hnames : ∀ j ∈ List.range' i (keep + 1), Named active keep others stamps j := by
    intro j hj
    rw [List.mem_range'_1] at hj
    rcases (show j ≤ i + keep by omega).lt_or_eq with hlt | rfl
    · exact hnamed j hlt
    · exact ⟨last, hlast, htarget⟩
  have hrotated := rotations_succ htarget hnewest
  rw [Nat.add_sub_cancel, min_eq_right (Nat.le_add_left keep i)] at hrotated
  have hfile : fileAt active keep others stamps i ∈
      others ++ (List.range' i (keep + 1)).map (fileAt active keep others stamps) :=
    List.mem_append_right _ (List.mem_map_of_mem (List.mem_range'_1.mpr (by omega)))
  have hgone : fileAt active keep others stamps i ∉
      rotations active keep others stamps (i + keep + 1) := by
    intro hmem
    have := (hkept i).mp ⟨_, hmem, rfl⟩
    omega
  have hext : extension active ≠ [] := by
    intro hnil
    refine hgone ?_
    rw [hrotated, purgeOld_of_le]
    · exact hfile
    · rw [filter_fileAt_of_nil hothers hactive hnil hnames]
      exact Nat.zero_le _
  refine ⟨hext, lt_of_le_of_ne (hmono i (by omega)) fun heq => hgone ?_⟩
  -- of the two files of one second the first has the name without a number
  obtain ⟨hnewest_i, hnamed_i⟩ := hrun i (Nat.le_add_right ..)
  have hfirst := target_first hothers hhundred (by omega) hnewest_i hnamed_i fun j hj => by
    have hbefore := (hapart (i - 1) (by omega)).2
    rw [Nat.sub_add_cancel (by omega)] at hbefore
    exact (number_le hmono (by omega) (by omega)).trans_lt hbefore
  obtain ⟨hnewest_next, hnamed_next⟩ := hrun (i + 1) (by omega)
  have hlt := name_succ_lt hothers hkeep hhundred hext (by omega) hfirst hnewest_next hnamed_next heq
  have hfilter := filter_fileAt hothers hext hnames
  obtain ⟨name, -, hle, hpurge⟩ := purgeOld_of_succ active
    (others ++ (List.range' i (keep + 1)).map (fileAt active keep others stamps)) hkeep
    (by rw [hfilter, List.length_map, List.length_range'])
  rw [hfilter] at hle
  have hle' := hle _ (List.mem_map_of_mem (List.mem_range'_1.mpr (by omega : i ≤ i + 1 ∧ _)))
  rw [hrotated, hpurge, List.mem_filter, decide_eq_true_eq]
  refine ⟨hfile, ?_⟩
  rintro rfl
  exact absurd hlt (not_lt_of_ge hle')

/-- For any log path, any files beside it and any rotations in which time does not go back, with
up to a hundred in a second : the newest `keep` files are what is left after every rotation exactly
if the path has an extension wherever a file has to go, and the file was made in an earlier second
than the next one. -/
theorem retention_iff (hactive : active ≠ []) (hkeep : 0 < keep)
    (hothers : Unrotated active others)
    (hmono : ∀ i, i + 1 < N → (stamps i).number ≤ (stamps (i + 1)).number)
    (hhundred : ∀ m, ((Finset.range N).filter fun i => (stamps i).number = m).card ≤ 100) :
    (∀ n ≤ N, KeepsNewest keep n (rotations active keep others stamps n)) ↔
      Apart active keep stamps N := by
  constructor
  · intro hkept i
    induction i using Nat.strong_induction_on with
    | h i ih =>
      intro hi
      have hbefore : Apart active keep stamps (i + keep) := fun j hj =>
        ih j (by omega) (by omega)
      exact apart_of_kept hactive hothers hkeep hmono hhundred hi hbefore (hkept _ hi)
  · intro hapart n hn
    exact kept_of_newest hothers
      (newest_of_apart hothers hkeep hmono hhundred le_rfl hapart n hn).1

end Runs

/-- Two rotations in different seconds, of which one file is kept. -/
theorem retention_iff_two_seconds : ∃ stamps : ℕ → Stamp,
    (stamps 0).number < (stamps 1).number ∧
      ((∀ n ≤ 2, KeepsNewest 1 n (rotations ['a', '.', 'l', 'o', 'g'] 1 [] stamps n)) ↔
        Apart ['a', '.', 'l', 'o', 'g'] 1 stamps 2) := by
  let stamps : ℕ → Stamp := fun i =>
    ⟨2024, 1, 2, 3, 4, min i 59, by decide, by decide, by decide, by decide, by decide, by omega⟩
  refine ⟨stamps, by decide, retention_iff (by decide) one_pos ?_ ?_ fun m => ?_⟩
  · exact fun file hfile => absurd hfile List.not_mem_nil
  · intro i hi
    obtain rfl : i = 0 := by omega
    decide
  · exact (Finset.card_filter_le ..).trans (by decide)

/-- Two rotations in one second, and one file to keep : the older one is kept. -/
theorem older_log_kept : ¬ ∀ (active : FileName) (keep N : ℕ) (others : List LogFile)
    (stamps : ℕ → Stamp), active ≠ [] → 0 < keep → Unrotated active others →
      (∀ i, i + 1 < N → (stamps i).number ≤ (stamps (i + 1)).number) →
        (∀ m, ((Finset.range N).filter fun i => (stamps i).number = m).card ≤ 100) →
          ∀ n ≤ N, KeepsNewest keep n (rotations active keep others stamps n) := by
  intro hall
  let t : Stamp :=
    ⟨2024, 1, 2, 3, 4, 5, by decide, by decide, by decide, by decide, by decide, by decide⟩
  have hkept := hall ['a', '.', 'l', 'o', 'g'] 1 2 [] (fun _ => t) (by decide) one_pos
    (fun file hfile => absurd hfile List.not_mem_nil) (fun _ _ => le_rfl)
    (fun m => (Finset.card_filter_le ..).trans (by decide)) 2 le_rfl
  obtain ⟨file, hfile, hrotation⟩ := (hkept 1).mpr ⟨by decide, by decide⟩
  have hleft : (rotations ['a', '.', 'l', 'o', 'g'] 1 [] (fun _ => t) 2).map LogFile.rotation =
      [some 0] := by decide +kernel
  have hmem := List.mem_map_of_mem (f := LogFile.rotation) hfile
  rw [hleft, hrotation] at hmem
  simp at hmem

end EchoServer
