import Mathlib.Tactic

/-!
# Self-delimiting frames in a stream

A `Framing` writes a frame as a word (`enc`) and cuts the first frame off a stream
(`split`). The two agree : cutting an encoded frame gives the frame back and leaves what
follows (`split_enc`), and a frame that is cut off was encoded there (`enc_of_split`).
Nothing says how a frame shows its length.

`frames` cuts a stream until no whole frame is left, and `rest` is what remains. The
stream is the encodings of its frames followed by the rest (`flatMap_frames`), and it is
the only such division (`frames_flatMap_append`).
-/

/-- A frame format in which each frame shows where it ends. -/
structure Framing (α β : Type*) where
  /-- The word a frame is written as. -/
  enc : β → List α
  /-- The frames the format can carry. -/
  Valid : β → Prop
  /-- The first frame of a stream and what follows it. -/
  split : List α → Option (β × List α)
  enc_ne_nil : ∀ u, enc u ≠ []
  split_enc : ∀ u r, Valid u → split (enc u ++ r) = some (u, r)
  enc_of_split : ∀ s u r, split s = some (u, r) → s = enc u ++ r ∧ Valid u

namespace Framing

variable {α β : Type*} (S : Framing α β)

/-- Splitting takes something off. -/
theorem length_lt_of_split {s : List α} {u : β} {r : List α} (h : S.split s = some (u, r)) :
    r.length < s.length := by
  obtain ⟨rfl, -⟩ := S.enc_of_split s u r h
  have := List.length_pos_iff.mpr (S.enc_ne_nil u)
  simp only [List.length_append]
  omega

/-- The whole frames of a stream, in order. -/
def frames (s : List α) : List β :=
  match h : S.split s with
  | none => []
  | some (u, r) =>
    have := S.length_lt_of_split h
    u :: frames r
termination_by s.length

/-- What follows the last whole frame of a stream. -/
def rest (s : List α) : List α :=
  match h : S.split s with
  | none => s
  | some (_, r) =>
    have := S.length_lt_of_split h
    rest r
termination_by s.length

variable {S}

/-- Without a unit at the front there is none at all. -/
theorem frames_of_split_none {s : List α} (h : S.split s = none) : S.frames s = [] := by
  unfold frames
  split
  · rfl
  · simp_all

/-- The first unit is followed by those of the rest. -/
theorem frames_of_split {s : List α} {u : β} {r : List α} (h : S.split s = some (u, r)) :
    S.frames s = u :: S.frames r := by
  conv_lhs => unfold frames
  split
  · simp_all
  · rename_i h'
    obtain ⟨rfl, rfl⟩ : u = _ ∧ r = _ := by simpa [h] using h'
    rfl

/-- What cannot be split is left over. -/
theorem rest_of_split_none {s : List α} (h : S.split s = none) : S.rest s = s := by
  unfold rest
  split
  · rfl
  · simp_all

/-- What is left over is left over of the rest. -/
theorem rest_of_split {s : List α} {u : β} {r : List α} (h : S.split s = some (u, r)) :
    S.rest s = S.rest r := by
  conv_lhs => unfold rest
  split
  · simp_all
  · rename_i h'
    obtain ⟨rfl, rfl⟩ : u = _ ∧ r = _ := by simpa [h] using h'
    rfl

/-- Encoded frames are cut off one by one, and cutting goes on behind them. -/
theorem frames_flatMap_append {us : List β} (hus : ∀ u ∈ us, S.Valid u) (s : List α) :
    S.frames (us.flatMap S.enc ++ s) = us ++ S.frames s := by
  induction us with
  | nil => rfl
  | cons u us ih =>
    have hu : S.Valid u := hus u (by simp)
    rw [List.flatMap_cons, List.append_assoc, frames_of_split (S.split_enc u _ hu),
      ih fun v hv => hus v (by simp [hv]), List.cons_append]

/-- A stream is the encodings of its frames followed by the rest, and the rest starts
with no whole frame. -/
theorem flatMap_frames (s : List α) :
    s = (S.frames s).flatMap S.enc ++ S.rest s ∧ S.split (S.rest s) = none ∧
      ∀ u ∈ S.frames s, S.Valid u := by
  cases h : S.split s with
  | none =>
    rw [frames_of_split_none h, rest_of_split_none h]
    exact ⟨rfl, h, by simp⟩
  | some ur =>
    obtain ⟨u, r⟩ := ur
    obtain ⟨hs, hu⟩ := S.enc_of_split s u r h
    have hlt := S.length_lt_of_split h
    obtain ⟨h1, h2, h3⟩ := flatMap_frames r
    rw [frames_of_split h, rest_of_split h, List.flatMap_cons, List.append_assoc, ← h1]
    exact ⟨hs, h2, by simpa using ⟨hu, h3⟩⟩
termination_by s.length

end Framing
