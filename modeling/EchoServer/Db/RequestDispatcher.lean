import EchoServer.Db.Types

/-!
# The request dispatcher

`db/request_dispatcher.cpp` : requests wait in one line for each session key, and `ready`
lists the keys from which `take` may hand one out. A key that `take` has handed out is
marked as working until `finish`, and is passed over meanwhile.

What the worker pool needs of it is in the lines alone : `push` puts a request at the end
of its line, `take` hands out the front of a line whose key is not working and marks the
key, and `finish` clears the mark. No operation touches another key.
-/

namespace EchoServer

variable {τ : Type*}

/-- What waits of one session, and whether one of its requests is being worked on. -/
structure KeyQueue (τ : Type*) where
  waiting : List (Job τ)
  working : Bool

/-- The queues of the sessions, and the sessions whose turn is to come. -/
structure RequestDispatcher (τ : Type*) where
  queues : Bytes → Option (KeyQueue τ)
  /-- Keys with waiting requests that are not working. -/
  ready : List Bytes
  /-- The requests taken in and not finished. -/
  depth : ℕ

namespace RequestDispatcher

/-- Nothing waits. -/
def empty : RequestDispatcher τ := ⟨fun _ => none, [], 0⟩

/-- The requests that wait under a key. -/
def waiting (d : RequestDispatcher τ) (key : Bytes) : List (Job τ) :=
  ((d.queues key).map KeyQueue.waiting).getD []

/-- Whether a request of the key has been handed out and not finished. -/
def working (d : RequestDispatcher τ) (key : Bytes) : Bool :=
  ((d.queues key).map KeyQueue.working).getD false

/-- Take a request in, unless `cap` requests are in already. -/
def push (cap : ℕ) (j : Job τ) (d : RequestDispatcher τ) : Option (RequestDispatcher τ) :=
  if cap ≤ d.depth then none
  else
    let kq := (d.queues j.key).getD ⟨[], false⟩
    let kq := { kq with waiting := kq.waiting ++ [j] }
    some
      { queues := Function.update d.queues j.key (some kq)
        depth := d.depth + 1
        ready := if !kq.working && kq.waiting.length = 1 then d.ready ++ [j.key] else d.ready }

/-- The loop of `take` over the ready keys. -/
def takeFrom (d : RequestDispatcher τ) : List Bytes → Option (Job τ) × RequestDispatcher τ
  | [] => (none, { d with ready := [] })
  | key :: ready =>
    match d.queues key with
    | some ⟨j :: waiting, false⟩ =>
      (some j, { d with queues := Function.update d.queues key (some ⟨waiting, true⟩), ready })
    | _ => takeFrom d ready

/-- Hand out a request whose key is not working, and mark the key. -/
def take (d : RequestDispatcher τ) : Option (Job τ) × RequestDispatcher τ :=
  d.takeFrom d.ready

/-- The request handed out under `key` is done. -/
def finish (key : Bytes) (d : RequestDispatcher τ) : RequestDispatcher τ :=
  match d.queues key with
  | none => d
  | some kq =>
    let d := { d with depth := d.depth - 1 }
    if kq.waiting.isEmpty then { d with queues := Function.update d.queues key none }
    else
      { d with
        queues := Function.update d.queues key (some { kq with working := false })
        ready := d.ready ++ [key] }

/-! ## What each operation does to the lines -/

/-- What a push that is accepted changes : the queue of its key. -/
theorem push_eq_some {cap : ℕ} {j : Job τ} {d d' : RequestDispatcher τ}
    (h : d.push cap j = some d') (key : Bytes) :
    d'.waiting key = (if key = j.key then d.waiting key ++ [j] else d.waiting key) ∧
      d'.working key = d.working key := by
  unfold push at h
  by_cases hcap : cap ≤ d.depth
  · simp [hcap] at h
  rw [if_neg hcap] at h
  obtain rfl := Option.some.inj h
  by_cases hk : key = j.key
  · subst hk
    cases hq : d.queues j.key <;> simp [waiting, working, hq]
  · simp [waiting, working, hk]

/-- A request that is taken is the first under a key that nobody works on. -/
theorem takeFrom_some {ready : List Bytes} {j : Job τ} {d d' : RequestDispatcher τ}
    (hkeys : ∀ key, ∀ x ∈ d.waiting key, x.key = key) (h : d.takeFrom ready = (some j, d')) :
    d.working j.key = false ∧ d'.working j.key = true ∧
      d.waiting j.key = j :: d'.waiting j.key ∧
      ∀ key ≠ j.key, d'.waiting key = d.waiting key ∧ d'.working key = d.working key := by
  induction ready with
  | nil => simp [takeFrom] at h
  | cons key ready ih =>
    rw [takeFrom] at h
    split at h
    · rename_i front rest hq
      obtain ⟨rfl, rfl⟩ : front = j ∧ _ = d' := by simpa using h
      obtain rfl : front.key = key := hkeys key front (by simp [waiting, hq])
      refine ⟨by simp [working, hq], by simp [working], by simp [waiting, hq], fun k hk => ?_⟩
      simp [waiting, working, hk]
    · exact ih h

/-- If none is found, nothing has changed. -/
theorem takeFrom_none {ready : List Bytes} {d d' : RequestDispatcher τ}
    (h : d.takeFrom ready = (none, d')) (key : Bytes) :
    d'.waiting key = d.waiting key ∧ d'.working key = d.working key := by
  induction ready with
  | nil =>
    obtain rfl : _ = d' := by simpa [takeFrom] using h
    exact ⟨rfl, rfl⟩
  | cons k ready ih =>
    rw [takeFrom] at h
    split at h
    · simp at h
    · exact ih h

theorem waiting_finish (key k : Bytes) (d : RequestDispatcher τ) :
    (d.finish key).waiting k = d.waiting k := by
  unfold finish
  cases hq : d.queues key with
  | none => rfl
  | some kq =>
    by_cases hk : k = key
    · subst hk
      by_cases he : kq.waiting = [] <;> simp [waiting, hq, he]
    · by_cases he : kq.waiting = [] <;> simp [waiting, he, hk]

theorem working_finish (key k : Bytes) (d : RequestDispatcher τ) :
    (d.finish key).working k = if k = key then false else d.working k := by
  unfold finish
  cases hq : d.queues key with
  | none =>
    split_ifs with hk
    · simp [working, hk, hq]
    · rfl
  | some kq =>
    by_cases hk : k = key
    · subst hk
      by_cases he : kq.waiting = [] <;> simp [working, he]
    · by_cases he : kq.waiting = [] <;> simp [working, he, hk]

end RequestDispatcher

end EchoServer
