import Mathlib.Tactic

/-!
# Feeds

A feed records who has joined it and what has been published, in one order. What is due to a
subscriber is everything published since it joined (`due`). Subscribers that have each got a first
part of what is due to them have got the same from the later join on (`prefix_or_prefix`), however
much or little each of them got.
-/

/-- A member joins, or something is published. -/
inductive FeedEvent (κ φ : Type*) where
  | joins (k : κ)
  | publishes (x : φ)
  deriving DecidableEq

/-- A feed, the oldest event first. -/
abbrev Feed (κ φ : Type*) := List (FeedEvent κ φ)

namespace Feed

variable {κ φ : Type*}

/-- Everything published. -/
def published : Feed κ φ → List φ
  | [] => []
  | .joins _ :: feed => published feed
  | .publishes x :: feed => x :: published feed

/-- Two stretches of a feed publish one after the other. -/
theorem published_append (feed feed' : Feed κ φ) :
    published (feed ++ feed') = published feed ++ published feed' := by
  induction feed with
  | nil => rfl
  | cons ev feed ih => cases ev <;> simp [published, ih]

variable [DecidableEq κ] {feed : Feed κ φ} {k m : κ}

/-- How much was published before a subscriber joined. -/
def joinedAt (k : κ) : Feed κ φ → ℕ
  | [] => 0
  | .joins m :: feed => if m = k then 0 else joinedAt k feed
  | .publishes _ :: feed => joinedAt k feed + 1

/-- What is due to a subscriber : everything published since it joined. -/
def due (k : κ) (feed : Feed κ φ) : List φ := (published feed).drop (joinedAt k feed)

/-- A subscriber joins before what is published later. -/
theorem joinedAt_le (k : κ) (feed : Feed κ φ) : joinedAt k feed ≤ (published feed).length := by
  induction feed with
  | nil => exact le_rfl
  | cons ev feed ih =>
    cases ev with
    | joins m =>
      simp only [joinedAt, published]
      split_ifs <;> omega
    | publishes x => simpa [joinedAt, published] using ih

/-- What comes later does not change when a subscriber joined. -/
theorem joinedAt_append_of_mem (h : .joins k ∈ feed) (feed' : Feed κ φ) :
    joinedAt k (feed ++ feed') = joinedAt k feed := by
  induction feed with
  | nil => simp at h
  | cons ev feed ih =>
    cases ev with
    | joins m =>
      by_cases hm : m = k
      · simp [joinedAt, hm]
      · have hmem : .joins k ∈ feed := by simpa [Ne.symm hm] using h
        simp [joinedAt, hm, ih hmem]
    | publishes x =>
      have hmem : .joins k ∈ feed := by simpa using h
      simp [joinedAt, ih hmem]

/-- Who has not joined yet can only join later. -/
theorem joinedAt_append_of_notMem (h : .joins k ∉ feed) (feed' : Feed κ φ) :
    joinedAt k (feed ++ feed') = (published feed).length + joinedAt k feed' := by
  induction feed with
  | nil => simp [published]
  | cons ev feed ih =>
    simp only [List.mem_cons, not_or] at h
    cases ev with
    | joins m =>
      have hm : m ≠ k := by
        rintro rfl
        exact h.1 rfl
      simp [joinedAt, hm, ih h.2, published]
    | publishes x =>
      simp only [List.cons_append, joinedAt, ih h.2, published, List.length_cons]
      omega

/-- Nothing is due to one that has not joined. -/
theorem due_of_notMem (h : .joins k ∉ feed) : due k feed = [] := by
  have hat := joinedAt_append_of_notMem h []
  simp only [List.append_nil, joinedAt, Nat.add_zero] at hat
  rw [due, hat, List.drop_length]

/-- A join makes nothing due. -/
theorem due_append_joins (k m : κ) (feed : Feed κ φ) :
    due k (feed ++ [.joins m]) = due k feed := by
  have hpub : published (feed ++ [.joins m]) = published feed := by
    simp [published_append, published]
  by_cases h : .joins k ∈ feed
  · rw [due, hpub, joinedAt_append_of_mem h, due]
  · rw [due_of_notMem h, due, hpub, joinedAt_append_of_notMem h]
    exact List.drop_eq_nil_of_le (Nat.le_add_right ..)

/-- What is published is due to everyone who has joined. -/
theorem due_append_publishes (h : .joins k ∈ feed) (x : φ) :
    due k (feed ++ [.publishes x]) = due k feed ++ [x] := by
  rw [due, joinedAt_append_of_mem h, published_append,
    List.drop_append_of_le_length (joinedAt_le k feed)]
  rfl

/-- Of two subscribers that have got a first part of what is due to them, the one that has got more
since the later join has got the same first. -/
theorem prefix_or_prefix {xs ys : List φ} (hx : xs <+: due k feed) (hy : ys <+: due m feed)
    (hle : joinedAt k feed ≤ joinedAt m feed) :
    xs.drop (joinedAt m feed - joinedAt k feed) <+: ys ∨
      ys <+: xs.drop (joinedAt m feed - joinedAt k feed) := by
  have hdue : (due k feed).drop (joinedAt m feed - joinedAt k feed) = due m feed := by
    rw [due, List.drop_drop, Nat.add_sub_cancel' hle, due]
  have hx' : xs.drop (joinedAt m feed - joinedAt k feed) <+: due m feed := hdue ▸ hx.drop _
  exact List.prefix_or_prefix_of_prefix hx' hy

end Feed
