import EchoServer.Db.DispatcherRuns

/-!
# Turns

`db/request_dispatcher.cpp` hands out one request of a session at a time, from a line of the
sessions that have some. `turns_in_order` : both lines, of the sessions and of the requests of each,
are served from the front and joined at the end, whatever is pushed, taken and finished meanwhile. A
session that is in line is served after those before it, so no other session has two turns while it
waits. `take_all` ends all that, when the pool is stopped.
-/

namespace EchoServer

variable {τ : Type*}

/-- The call takes all requests at once, in no order of turns. -/
def DispatcherStep.isTakeAll : DispatcherStep τ → Bool
  | takeAll _ => true
  | _ => false

namespace DispatcherRun

variable {r r' : DispatcherRun τ}

/-- What is handed out is the first request of the first session. -/
theorem Tracks.take_cons (h : r.Tracks) {key : Bytes} {ready : List Bytes}
    (hready : r.dispatcher.ready = key :: ready) : ∃ j d, r.dispatcher.take = (some j, d) ∧
      j.key = key ∧ d.ready = ready ∧ r.dispatcher.waiting key = j :: d.waiting key ∧
        ∀ k ≠ key, d.waiting k = r.dispatcher.waiting k := by
  obtain ⟨hwait, hfree⟩ := (h.mem_ready key).mp (by simp [hready])
  obtain ⟨j, d, htake, hrest, hj⟩ := RequestDispatcher.takeFrom_cons ready hfree hwait
  obtain rfl : j.key = key := h.waiting_key key j hj
  obtain ⟨-, -, hfront, hothers⟩ := RequestDispatcher.takeFrom_some h.waiting_key htake
  exact ⟨j, d, by rw [RequestDispatcher.take, hready, htake], rfl, hrest, hfront,
    fun k hk => (hothers k hk).1⟩

/-- `new` has left since `r`, from the front of every line. -/
structure Turns (r r' : DispatcherRun τ) (new : List (Job τ)) : Prop where
  left : r'.left = r.left ++ new
  keys : r.dispatcher.ready <+: new.map Job.key ++ r'.dispatcher.ready
  waiting : ∀ key, r.dispatcher.waiting key <+: onKey key new ++ r'.dispatcher.waiting key

/-- The lines are joined at the end. -/
theorem Turns.join {new : List (Job τ)} {s : DispatcherRun τ} (h : Turns r r' new)
    (hleft : s.left = r'.left) (hkeys : r'.dispatcher.ready <+: s.dispatcher.ready)
    (hwaiting : ∀ key, r'.dispatcher.waiting key <+: s.dispatcher.waiting key) :
    Turns r s new :=
  ⟨hleft.trans h.left, h.keys.trans (List.prefix_append_right_inj _ |>.mpr hkeys),
    fun key => (h.waiting key).trans (List.prefix_append_right_inj _ |>.mpr (hwaiting key))⟩

/-- A step that is not `take_all` keeps the turns of the keys. -/
theorem Turns.step {new : List (Job τ)} {s : DispatcherRun τ} (h : Turns r r' new)
    (ht : r'.Tracks) {a : DispatcherStep τ} (ha : a.isTakeAll = false)
    (hstep : (dispatcherRuns τ).step r' a = some s) : ∃ new', Turns r s new' := by
  cases a with
  | push cap j =>
    refine ⟨new, ?_⟩
    simp only [dispatcherRuns] at hstep
    split at hstep
    · rename_i d hpush
      cases hstep
      refine h.join rfl ?_ fun key => ?_
      · rw [(RequestDispatcher.push_spec hpush).2.2.1]
        split_ifs
        · exact List.prefix_append ..
        · exact List.prefix_refl _
      · rw [(RequestDispatcher.push_eq_some hpush key).1]
        split_ifs
        · exact List.prefix_append ..
        · exact List.prefix_refl _
    · cases hstep
      exact h
  | take =>
    simp only [dispatcherRuns] at hstep
    cases hready : r'.dispatcher.ready with
    | nil =>
      have htake : r'.dispatcher.take = (none, r'.dispatcher) := by
        rw [RequestDispatcher.take, hready, RequestDispatcher.takeFrom, ← hready]
      rw [htake] at hstep
      cases hstep
      exact ⟨new, h⟩
    | cons key ready =>
      obtain ⟨j, d, htake, rfl, hrest, hfront, hothers⟩ := ht.take_cons hready
      rw [htake] at hstep
      cases hstep
      refine ⟨new ++ [j], ?_, ?_, fun k => ?_⟩
      · simp [h.left]
      · simpa [hready, hrest] using h.keys
      · have hwait := h.waiting k
        by_cases hk : k = j.key
        · subst hk
          simpa [hfront, onKey] using hwait
        · rw [hothers k hk]
          simpa [onKey, Ne.symm hk] using hwait
  | finish key =>
    refine ⟨new, ?_⟩
    simp only [dispatcherRuns] at hstep
    split_ifs at hstep with hmem
    cases hstep
    have hwork := (ht.mem_taken key).mp hmem
    refine h.join rfl ?_ fun k => ?_
    · rw [(RequestDispatcher.finish_spec hwork).2.1]
      split_ifs
      · exact List.prefix_refl _
      · exact List.prefix_append ..
    · rw [RequestDispatcher.waiting_finish]
  | takeAll keys => cases ha

end DispatcherRun

/-- From any state of a run, as long as nobody calls `take_all` : the sessions in line and the
requests that wait in each of them are handed out in order, before whatever joins them; and while a
session of the line is not served, every other session is served at most once, and only those before
it are. -/
theorem turns_in_order {r r' : DispatcherRun τ} (h : (dispatcherRuns τ).ReachesWhen GoesThrough r)
    (h' : ((dispatcherRuns τ).onFrom r).ReachesWhen (fun _ a => a.isTakeAll = false) r') :
    ∃ new, r'.left = r.left ++ new ∧
      r.dispatcher.ready <+: new.map Job.key ++ r'.dispatcher.ready ∧
      (∀ key, r.dispatcher.waiting key <+: onKey key new ++ r'.dispatcher.waiting key) ∧
      ∀ key ∈ r.dispatcher.ready, key ∉ new.map Job.key →
        (new.map Job.key).Nodup ∧ new.length ≤ r.dispatcher.ready.idxOf key := by
  have hturns : (dispatcherRuns τ).ReachesWhen GoesThrough r' ∧
      ∃ new, DispatcherRun.Turns r r' new := by
    refine Machine.ReachesWhen.invariant (M := (dispatcherRuns τ).onFrom r)
      (I := fun s => (dispatcherRuns τ).ReachesWhen GoesThrough s ∧
        ∃ new, DispatcherRun.Turns r s new) ?_ (fun s a s' hs ha hstep => ?_) h'
    · rintro _ rfl
      exact ⟨h, [], by simp, by simp, by simp [onKey]⟩
    · obtain ⟨hreach, new, hturns⟩ := hs
      refine ⟨hreach.step ?_ hstep, ?_⟩
      · cases a <;> trivial
      · exact hturns.step (DispatcherRun.tracks_of_reachesWhen hreach) ha hstep
  obtain ⟨-, new, hleft, hkeys, hwaiting⟩ := hturns
  refine ⟨new, hleft, hkeys, hwaiting, fun key hkey hnot => ?_⟩
  have hnodup := (DispatcherRun.tracks_of_reachesWhen h).ready_nodup
  obtain hpre | ⟨rest, hrest⟩ := List.prefix_or_prefix_of_prefix hkeys (List.prefix_append ..)
  · exact absurd (hpre.subset hkey) hnot
  · rw [← hrest] at hnodup ⊢
    rw [List.idxOf_append_of_notMem hnot, List.length_map]
    exact ⟨(List.nodup_append.mp hnodup).1, Nat.le_add_right _ _⟩

/-- Two sessions are in line, the first one with two requests; the second one has its turn before
the first has another. -/
theorem turns_in_order_second : ∃ r r' : DispatcherRun Unit, r.dispatcher.ready = [[1], [2]] ∧
    r'.left.map Job.key = [[1], [2], [1]] ∧
      ∃ new, r'.left = r.left ++ new ∧
        r.dispatcher.ready <+: new.map Job.key ++ r'.dispatcher.ready := by
  have h0 : (dispatcherRuns Unit).ReachesWhen GoesThrough .fresh := .init rfl
  have h1 := h0.step (a := .push 4 ⟨sampleRequest .save [1], 0, ()⟩) (by trivial) rfl
  have h2 := h1.step (a := .push 4 ⟨sampleRequest .save [2], 1, ()⟩) (by trivial) rfl
  obtain ⟨new, hnew, hkeys, -⟩ := turns_in_order h2
    (.step (a := .take) (.step (a := .take) (.step (a := .finish [1]) (.step (a := .take)
      (.step (a := .push 4 ⟨sampleRequest .history [1], 2, ()⟩) (.init rfl) rfl rfl)
        rfl rfl) rfl rfl) rfl rfl) rfl rfl)
  exact ⟨_, _, rfl, rfl, new, hnew, hkeys⟩

end EchoServer
