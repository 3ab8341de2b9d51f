import EchoServer.Db.SessionOrder

/-!
# The dispatcher over whole runs

`take_all`, and the dispatcher under any sequence of its operations. A run keeps the accepted
requests, the requests that have left and the keys that are handed out and not finished;
`finish` is called for one of these.

The hash table lists its keys in no particular order, so the order in which `take_all` goes
through them is a choice of the environment (`Lists`).

What the four pieces of the state have to do with each other is `DispatcherRun.Tracks`, and
`dispatcher_invariant` reads it off : the ready list is exactly the waiting keys that are not
handed out, the depth counts what waits and what is handed out, and a key's requests leave in
the order they came in.
-/

namespace EchoServer

variable {τ : Type*}

namespace RequestDispatcher

/-- `take_all`, going through the keys in the order `keys`. -/
def takeAll (keys : List Bytes) (d : RequestDispatcher τ) : List (Job τ) × RequestDispatcher τ :=
  let all := keys.flatMap d.waiting
  (all,
    { queues := fun key => (d.queues key).map fun kq => { kq with waiting := [] }
      ready := []
      depth := d.depth - all.length })

/-- `keys` are the keys of the table, each once. -/
def Lists (d : RequestDispatcher τ) (keys : List Bytes) : Prop :=
  keys.Nodup ∧ ∀ key, key ∈ keys ↔ (d.queues key).isSome = true

/-! ## What each operation does to the table -/

variable {d d' : RequestDispatcher τ} {j : Job τ} {key : Bytes}

/-- A key without a queue has nothing waiting. -/
theorem waiting_eq_nil_of_none (h : d.queues key = none) : d.waiting key = [] := by
  simp [waiting, h]

/-- A push that is accepted adds one to the depth, and lists a key that was idle. -/
theorem push_spec {cap : ℕ} (h : d.push cap j = some d') :
    d.depth < cap ∧ d'.depth = d.depth + 1 ∧
      d'.ready = (if !d.working j.key && d.waiting j.key = [] then d.ready ++ [j.key]
        else d.ready) ∧
      ∀ key, (d'.queues key).isSome = (decide (key = j.key) || (d.queues key).isSome) := by
  unfold push at h
  by_cases hcap : cap ≤ d.depth
  · simp [hcap] at h
  rw [if_neg hcap] at h
  obtain rfl := Option.some.inj h
  refine ⟨by omega, rfl, ?_, fun key => ?_⟩
  · cases hq : d.queues j.key <;> simp [waiting, working, hq]
  · by_cases hk : key = j.key <;> simp [hk]

/-- Taking a request leaves the depth and the keys of the table. -/
theorem takeFrom_some_spec {ready : List Bytes} (h : d.takeFrom ready = (some j, d')) :
    d'.depth = d.depth ∧ ∀ key, (d'.queues key).isSome = (d.queues key).isSome := by
  induction ready with
  | nil => simp [takeFrom] at h
  | cons k ready ih =>
    rw [takeFrom] at h
    split at h
    · rename_i front rest hq
      obtain ⟨rfl, rfl⟩ : front = j ∧ _ = d' := by simpa using h
      refine ⟨rfl, fun key => ?_⟩
      by_cases hk : key = k
      · subst hk
        simp [hq]
      · simp [hk]
    · exact ih h

/-- A waiting key that is free is handed out. -/
theorem takeFrom_cons (ready : List Bytes) (hfree : d.working key = false)
    (hwait : d.waiting key ≠ []) :
    ∃ j d', d.takeFrom (key :: ready) = (some j, d') ∧ d'.ready = ready ∧ j ∈ d.waiting key := by
  cases hq : d.queues key with
  | none => simp [waiting, hq] at hwait
  | some kq =>
    obtain ⟨waiting, working⟩ := kq
    cases waiting with
    | nil => simp [RequestDispatcher.waiting, hq] at hwait
    | cons j rest =>
      obtain rfl : working = false := by simpa [RequestDispatcher.working, hq] using hfree
      refine ⟨j, _, by rw [takeFrom, hq], rfl, ?_⟩
      simp [RequestDispatcher.waiting, hq]

/-- `finish` gives the depth back, and lists the key again if something waits under it. -/
theorem finish_spec (h : d.working key = true) :
    (d.finish key).depth = d.depth - 1 ∧
      (d.finish key).ready = (if d.waiting key = [] then d.ready else d.ready ++ [key]) ∧
      (d.waiting key = [] → (d.finish key).queues key = none) ∧
      ∀ k ≠ key, (d.finish key).queues k = d.queues k := by
  unfold finish
  cases hq : d.queues key with
  | none => simp [working, hq] at h
  | some kq =>
    by_cases he : kq.waiting = []
    · simp +contextual [waiting, hq, he]
    · simp +contextual [waiting, hq, he]

end RequestDispatcher

/-! ## The requests of all keys -/

/-- What is gathered over the keys has, under one key, what that key gave. -/
theorem onKey_flatMap {f : Bytes → List (Job τ)} (hf : ∀ key, ∀ x ∈ f key, x.key = key)
    {keys : List Bytes} (hkeys : keys.Nodup) (key : Bytes) :
    onKey key (keys.flatMap f) = if key ∈ keys then f key else [] := by
  induction keys with
  | nil => rfl
  | cons k keys ih =>
    obtain ⟨hk, hkeys⟩ := List.nodup_cons.mp hkeys
    rw [List.flatMap_cons, onKey_append, ih hkeys]
    by_cases h : key = k
    · subst h
      have hown : onKey key (f key) = f key :=
        List.filter_eq_self.mpr fun x hx => decide_eq_true (hf key x hx)
      simp [hown, hk]
    · have hnone : onKey key (f k) = [] :=
        onKey_eq_nil fun x hx hxk => h (hxk.symm.trans (hf k x hx))
      simp [hnone, h]

namespace RequestDispatcher

variable {d : RequestDispatcher τ}

/-- After `take_all` nothing waits. -/
theorem waiting_takeAll (keys : List Bytes) (key : Bytes) : (d.takeAll keys).2.waiting key = [] := by
  cases hq : d.queues key <;> simp [takeAll, waiting, hq]

/-- `take_all` hands out what waits under each key, in order. -/
theorem onKey_takeAll {keys : List Bytes} (hwait : ∀ key, ∀ x ∈ d.waiting key, x.key = key)
    (hkeys : d.Lists keys) (key : Bytes) : onKey key (d.takeAll keys).1 = d.waiting key := by
  rw [takeAll, onKey_flatMap hwait hkeys.1]
  split_ifs with hk
  · rfl
  · rw [waiting_eq_nil_of_none (by simpa [hkeys.2] using hk)]

end RequestDispatcher

/-- A list has as many requests as there are under its keys. -/
theorem length_eq_sum_onKey {keys : Finset Bytes} {l : List (Job τ)}
    (h : ∀ x ∈ l, x.key ∈ keys) : l.length = ∑ key ∈ keys, (onKey key l).length := by
  induction l with
  | nil => simp [onKey]
  | cons x l ih =>
    have hx := h x List.mem_cons_self
    have hcons : ∀ key, (onKey key (x :: l)).length =
        (if x.key = key then 1 else 0) + (onKey key l).length := by
      intro key
      by_cases hk : x.key = key
      · simp [onKey, hk]
        omega
      · simp [onKey, hk]
    simp only [hcons, Finset.sum_add_distrib, Finset.sum_ite_eq, hx, ↓reduceIte,
      ← ih fun y hy => h y (List.mem_cons_of_mem _ hy)]
    simp
    omega

/-! ## Runs -/

/-- The dispatcher, with what it has been given and has handed out. -/
structure DispatcherRun (τ : Type*) where
  dispatcher : RequestDispatcher τ
  /-- The requests accepted, and the requests handed out or swept out. -/
  pushed : List (Job τ)
  left : List (Job τ)
  /-- The keys taken and not finished. -/
  taken : List Bytes
  /-- `take_all` has been called. -/
  swept : Bool

namespace DispatcherRun

/-- The dispatcher before anybody has called it. -/
def fresh : DispatcherRun τ := ⟨.empty, [], [], [], false⟩

end DispatcherRun

/-- A call of the dispatcher, under its mutex. -/
inductive DispatcherStep (τ : Type*) where
  | push (cap : ℕ) (j : Job τ)
  | take
  | finish (key : Bytes)
  | takeAll (keys : List Bytes)

/-- The dispatcher under its callers. -/
def dispatcherRuns (τ : Type*) : Machine (DispatcherRun τ) (DispatcherStep τ) where
  init r := r = .fresh
  step r
    | .push cap j =>
      match r.dispatcher.push cap j with
      | some dispatcher => some { r with dispatcher, pushed := r.pushed ++ [j] }
      | none => some r
    | .take =>
      match r.dispatcher.take with
      | (some j, dispatcher) =>
        some { r with dispatcher, left := r.left ++ [j], taken := r.taken ++ [j.key] }
      | (none, dispatcher) => some { r with dispatcher }
    | .finish key =>
      if key ∈ r.taken then
        some { r with dispatcher := r.dispatcher.finish key, taken := r.taken.erase key }
      else none
    | .takeAll keys =>
      let (all, dispatcher) := r.dispatcher.takeAll keys
      some { r with dispatcher, left := r.left ++ all, swept := true }

/-- `take_all` goes through the keys of the table. -/
def GoesThrough (r : DispatcherRun τ) : DispatcherStep τ → Prop
  | .takeAll keys => r.dispatcher.Lists keys
  | _ => True

namespace DispatcherRun

/-- What the pieces of the dispatcher's state have to do with each other. -/
structure Tracks (r : DispatcherRun τ) : Prop where
  waiting_key : ∀ key, ∀ x ∈ r.dispatcher.waiting key, x.key = key
  ready_nodup : r.dispatcher.ready.Nodup
  mem_ready : ∀ key, key ∈ r.dispatcher.ready ↔
    r.dispatcher.waiting key ≠ [] ∧ r.dispatcher.working key = false
  taken_nodup : r.taken.Nodup
  mem_taken : ∀ key, key ∈ r.taken ↔ r.dispatcher.working key = true
  keys : ∃ keys : Finset Bytes, ∀ key, key ∈ keys ↔ (r.dispatcher.queues key).isSome = true
  /-- In order and each once. -/
  order : ∀ key, onKey key r.pushed = onKey key r.left ++ r.dispatcher.waiting key
  depth : r.dispatcher.depth + r.left.length = r.pushed.length + r.taken.length
  kept : r.swept = false → ∀ key, r.dispatcher.waiting key = [] →
    r.dispatcher.working key = false → r.dispatcher.queues key = none

variable {r : DispatcherRun τ}

/-- What waits under the keys of the table is what has not left. -/
theorem Tracks.sum_waiting (h : r.Tracks) (keys : Finset Bytes)
    (hkeys : ∀ key, key ∈ keys ↔ (r.dispatcher.queues key).isSome = true) :
    ∑ key ∈ keys, (r.dispatcher.waiting key).length + r.left.length = r.pushed.length := by
  classical
  let all := keys ∪ (r.pushed.map Job.key).toFinset ∪ (r.left.map Job.key).toFinset
  have hpushed : r.pushed.length = ∑ key ∈ all, (onKey key r.pushed).length :=
    length_eq_sum_onKey fun x hx => by
      simp only [all, Finset.mem_union, List.mem_toFinset]
      exact Or.inl (Or.inr (List.mem_map_of_mem hx))
  have hleft : r.left.length = ∑ key ∈ all, (onKey key r.left).length :=
    length_eq_sum_onKey fun x hx => by
      simp only [all, Finset.mem_union, List.mem_toFinset]
      exact Or.inr (List.mem_map_of_mem hx)
  have hsub : keys ⊆ all := fun key hk => by
    simp only [all, Finset.mem_union]
    exact Or.inl (Or.inl hk)
  have hwait : ∑ key ∈ keys, (r.dispatcher.waiting key).length =
      ∑ key ∈ all, (r.dispatcher.waiting key).length := by
    refine Finset.sum_subset hsub fun key _ hk => ?_
    rw [RequestDispatcher.waiting_eq_nil_of_none (by simpa [hkeys] using hk), List.length_nil]
  rw [hwait, hpushed, hleft, ← Finset.sum_add_distrib]
  refine Finset.sum_congr rfl fun key _ => ?_
  rw [h.order key, List.length_append]
  omega

/-- Nothing has been pushed before the first call. -/
theorem tracks_fresh : (fresh : DispatcherRun τ).Tracks := by
  have hwait : ∀ key, (RequestDispatcher.empty : RequestDispatcher τ).waiting key = [] :=
    fun _ => rfl
  have hwork : ∀ key, (RequestDispatcher.empty : RequestDispatcher τ).working key = false :=
    fun _ => rfl
  refine ⟨by simp [fresh, hwait], List.nodup_nil, ?_, List.nodup_nil, ?_, ⟨∅, ?_⟩, ?_, rfl,
    fun _ _ _ _ => rfl⟩
  · intro key
    have hready : (RequestDispatcher.empty : RequestDispatcher τ).ready = [] := rfl
    simp [fresh, hwait, hready]
  · simp [fresh, hwork]
  · simp [fresh, RequestDispatcher.empty]
  · simp [fresh, hwait, onKey]

/-- A push keeps the account. -/
theorem Tracks.push (h : r.Tracks) {cap : ℕ} {j : Job τ} {d : RequestDispatcher τ}
    (hpush : r.dispatcher.push cap j = some d) :
    Tracks { r with dispatcher := d, pushed := r.pushed ++ [j] } := by
  obtain ⟨-, hdepth, hready, hkeys⟩ := RequestDispatcher.push_spec hpush
  have hsame := RequestDispatcher.push_eq_some hpush
  have hnew : j.key ∈ r.dispatcher.ready ↔
      r.dispatcher.waiting j.key ≠ [] ∧ r.dispatcher.working j.key = false := h.mem_ready j.key
  refine ⟨fun key x hx => ?_, ?_, fun key => ?_, h.taken_nodup, fun key => ?_, ?_, fun key => ?_,
    ?_, fun hswept key hwait hwork => ?_⟩
  · simp only [(hsame key).1] at hx
    split_ifs at hx with hk
    · rcases List.mem_append.mp hx with hx | hx
      · exact h.waiting_key key x hx
      · rw [List.mem_singleton.mp hx, hk]
    · exact h.waiting_key key x hx
  · simp only [hready]
    split_ifs with hfirst
    · refine List.nodup_append.mpr ⟨h.ready_nodup, List.nodup_singleton _, ?_⟩
      rintro a ha b hb rfl
      simp only [Bool.and_eq_true, decide_eq_true_eq] at hfirst
      exact (hnew.mp (List.mem_singleton.mp hb ▸ ha)).1 hfirst.2
    · exact h.ready_nodup
  · simp only [hready, (hsame key).1, (hsame key).2]
    by_cases hk : key = j.key
    · subst hk
      by_cases hw : r.dispatcher.waiting j.key = [] <;>
        cases hwork : r.dispatcher.working j.key <;> simp [hw, hwork, hnew]
    · rw [if_neg hk]
      refine Iff.trans ?_ (h.mem_ready key)
      split_ifs <;> simp [hk]
  · simp only [(hsame key).2]
    exact h.mem_taken key
  · obtain ⟨keys, hmem⟩ := h.keys
    refine ⟨insert j.key keys, fun key => ?_⟩
    simp only [Finset.mem_insert, hmem, hkeys, Bool.or_eq_true, decide_eq_true_eq]
  · simp only [onKey_append, (hsame key).1]
    rw [h.order key]
    by_cases hk : key = j.key
    · subst hk
      simp [onKey]
    · simp [hk, onKey, Ne.symm hk]
  · have := h.depth
    simp only [hdepth, List.length_append, List.length_singleton]
    omega
  · simp only [(hsame key).1] at hwait
    split_ifs at hwait with hk
    · simp at hwait
    · simp only [(hsame key).2] at hwork
      have hnone := h.kept hswept key hwait hwork
      have := hkeys key
      simpa [hnone, hk] using this

/-- `take` hands out the first of the ready keys, if there is one. -/
theorem Tracks.take (h : r.Tracks) : (∃ j d, r.dispatcher.take = (some j, d) ∧
      j.key ∉ r.taken ∧ Tracks { r with
        dispatcher := d, left := r.left ++ [j], taken := r.taken ++ [j.key] }) ∨
    r.dispatcher.ready = [] ∧ r.dispatcher.take = (none, r.dispatcher) := by
  unfold RequestDispatcher.take
  cases hready : r.dispatcher.ready with
  | nil =>
    refine Or.inr ⟨rfl, ?_⟩
    simp [RequestDispatcher.takeFrom, ← hready]
  | cons key ready =>
    obtain ⟨hwait, hfree⟩ := (h.mem_ready key).mp (by simp [hready])
    obtain ⟨j, d, htake, hrest, hj⟩ :=
      RequestDispatcher.takeFrom_cons ready hfree hwait
    obtain rfl : j.key = key := h.waiting_key key j hj
    obtain ⟨-, hmark, hfront, hothers⟩ := RequestDispatcher.takeFrom_some h.waiting_key htake
    obtain ⟨hdepth, hkeys⟩ := RequestDispatcher.takeFrom_some_spec htake
    have hnot : j.key ∉ r.taken := by simp [h.mem_taken, hfree]
    have hnodup := h.ready_nodup
    rw [hready, List.nodup_cons] at hnodup
    refine Or.inl ⟨j, d, htake, hnot, fun key x hx => ?_, ?_, fun key => ?_, ?_, fun key => ?_,
      ?_, fun key => ?_, ?_, fun hswept key hwait hwork => ?_⟩
    · by_cases hk : key = j.key
      · subst hk
        exact h.waiting_key _ x (by rw [hfront]; exact List.mem_cons_of_mem _ hx)
      · exact h.waiting_key key x (by rwa [(hothers key hk).1] at hx)
    · simpa [hrest] using hnodup.2
    · simp only [hrest]
      by_cases hk : key = j.key
      · subst hk
        simp [hmark, hnodup.1]
      · have := h.mem_ready key
        simpa [(hothers key hk).1, (hothers key hk).2, hready, hk] using this
    · exact List.nodup_append.mpr ⟨h.taken_nodup, List.nodup_singleton _, by
        rintro a ha b hb rfl
        exact hnot (List.mem_singleton.mp hb ▸ ha)⟩
    · by_cases hk : key = j.key
      · subst hk
        simp [hmark]
      · simpa [hk, (hothers key hk).2] using h.mem_taken key
    · obtain ⟨keys, hmem⟩ := h.keys
      exact ⟨keys, fun key => by rw [hmem, hkeys]⟩
    · simp only [onKey_append]
      rw [h.order key]
      by_cases hk : key = j.key
      · subst hk
        simp [hfront, onKey]
      · simp [(hothers key hk).1, onKey, Ne.symm hk]
    · have := h.depth
      simp only [hdepth, List.length_append, List.length_singleton]
      omega
    · by_cases hk : key = j.key
      · subst hk
        simp [hmark] at hwork
      · simp only [(hothers key hk).1, (hothers key hk).2] at hwait hwork
        have hnone := h.kept hswept key hwait hwork
        simpa [hnone] using hkeys key

/-- No more requests have left than came. -/
theorem Tracks.left_le (h : r.Tracks) : r.left.length ≤ r.pushed.length := by
  obtain ⟨keys, hmem⟩ := h.keys
  have := h.sum_waiting keys hmem
  omega

/-- `finish` keeps the account. -/
theorem Tracks.finish (h : r.Tracks) {key : Bytes} (hkey : key ∈ r.taken) :
    Tracks { r with dispatcher := r.dispatcher.finish key, taken := r.taken.erase key } := by
  have hwork := (h.mem_taken key).mp hkey
  obtain ⟨hdepth, hready, hgone, hothers⟩ := RequestDispatcher.finish_spec hwork
  have hwait := fun k => r.dispatcher.waiting_finish key k
  have hmark := fun k => r.dispatcher.working_finish key k
  have hnot : key ∉ r.dispatcher.ready := by simp [h.mem_ready, hwork]
  refine ⟨by simpa [hwait] using h.waiting_key, ?_, fun k => ?_, h.taken_nodup.erase _,
    fun k => ?_, ?_, by simpa [hwait] using h.order, ?_, fun hswept k hk hfree => ?_⟩
  · simp only [hready]
    split_ifs
    · exact h.ready_nodup
    · exact List.nodup_append.mpr ⟨h.ready_nodup, List.nodup_singleton _, by
        rintro a ha b hb rfl
        exact hnot (List.mem_singleton.mp hb ▸ ha)⟩
  · simp only [hready, hwait, hmark]
    by_cases hk : k = key
    · subst hk
      by_cases hw : r.dispatcher.waiting k = [] <;> simp [hw, hnot]
    · have hsame := h.mem_ready k
      split_ifs <;> simp [hsame, hk]
  · simp only [hmark, h.taken_nodup.mem_erase_iff]
    by_cases hk : k = key
    · simp [hk]
    · simp [hk, h.mem_taken]
  · obtain ⟨keys, hmem⟩ := h.keys
    by_cases hw : r.dispatcher.waiting key = []
    · refine ⟨keys.erase key, fun k => ?_⟩
      by_cases hk : k = key
      · simp [hk, hgone hw]
      · simp [hk, hmem, hothers k hk]
    · refine ⟨insert key keys, fun k => ?_⟩
      by_cases hk : k = key
      · subst hk
        have hwait' : (r.dispatcher.finish k).waiting k ≠ [] := by rwa [hwait]
        have hsome : ((r.dispatcher.finish k).queues k).isSome = true := by
          by_contra hnone
          exact hwait' (RequestDispatcher.waiting_eq_nil_of_none (by simpa using hnone))
        simp [hsome]
      · simp [hk, hmem, hothers k hk]
  · have hle := h.left_le
    have hpos := List.length_pos_of_mem hkey
    have hlen := List.length_erase_of_mem hkey
    have hsum := h.depth
    simp only [hdepth]
    omega
  · simp only [hwait, hmark] at hk hfree
    by_cases he : k = key
    · subst he
      exact hgone hk
    · rw [hothers k he]
      exact h.kept hswept k hk (by simpa [he] using hfree)

/-- `take_all` keeps it : what waited has left. -/
theorem Tracks.takeAll (h : r.Tracks) {keys : List Bytes} (hkeys : r.dispatcher.Lists keys) :
    Tracks { r with
      dispatcher := (r.dispatcher.takeAll keys).2
      left := r.left ++ (r.dispatcher.takeAll keys).1
      swept := true } := by
  have hwait : ∀ key, (r.dispatcher.takeAll keys).2.waiting key = [] :=
    RequestDispatcher.waiting_takeAll keys
  have hwork : ∀ key, (r.dispatcher.takeAll keys).2.working key = r.dispatcher.working key := by
    intro key
    cases hq : r.dispatcher.queues key <;>
      simp [RequestDispatcher.takeAll, RequestDispatcher.working, hq]
  have hsome : ∀ key, ((r.dispatcher.takeAll keys).2.queues key).isSome =
      (r.dispatcher.queues key).isSome := by
    intro key
    simp [RequestDispatcher.takeAll]
  have hlen : (r.dispatcher.takeAll keys).1.length + r.left.length = r.pushed.length := by
    rw [← h.sum_waiting keys.toFinset (fun key => by rw [List.mem_toFinset, hkeys.2])]
    simp [RequestDispatcher.takeAll, List.length_flatMap, List.sum_toFinset _ hkeys.1]
  refine ⟨by simp [hwait], List.nodup_nil, fun key => ?_, h.taken_nodup, fun key => ?_, ?_,
    fun key => ?_, ?_, by simp⟩
  · have hready : (r.dispatcher.takeAll keys).2.ready = [] := rfl
    simp [hwait, hready]
  · simpa [hwork] using h.mem_taken key
  · obtain ⟨all, hall⟩ := h.keys
    exact ⟨all, fun key => by rw [hall, hsome]⟩
  · have hout := RequestDispatcher.onKey_takeAll h.waiting_key hkeys key
    simp only [onKey_append, hout, hwait, List.append_nil]
    exact h.order key
  · have hsum := h.depth
    have hdepth : (r.dispatcher.takeAll keys).2.depth =
      r.dispatcher.depth - (r.dispatcher.takeAll keys).1.length := rfl
    simp only [hdepth, List.length_append]
    omega

/-- The account holds in every run. -/
theorem tracks_of_reachesWhen (h : (dispatcherRuns τ).ReachesWhen GoesThrough r) : r.Tracks := by
  refine Machine.ReachesWhen.invariant ?_ ?_ h
  · rintro r rfl
    exact tracks_fresh
  · intro r a r' hr hok hstep
    cases a with
    | push cap j =>
      simp only [dispatcherRuns] at hstep
      split at hstep <;> cases hstep
      · rename_i hpush
        exact hr.push hpush
      · exact hr
    | take =>
      simp only [dispatcherRuns] at hstep
      obtain ⟨j, d, htake, -, hnext⟩ | ⟨-, htake⟩ := hr.take
      · rw [htake] at hstep
        cases hstep
        exact hnext
      · rw [htake] at hstep
        cases hstep
        exact hr
    | finish key =>
      simp only [dispatcherRuns] at hstep
      split at hstep <;> cases hstep
      rename_i hkey
      exact hr.finish hkey
    | takeAll keys =>
      simp only [dispatcherRuns] at hstep
      cases hstep
      exact hr.takeAll hok

end DispatcherRun

/-- After every sequence of operations : the ready list has each key once, and has exactly the
keys with waiting requests that are not being worked on; the depth is the number of waiting
requests and of keys being worked on, and a push that succeeds leaves it within the cap; no
key that is being worked on is handed out; the requests of a key leave in the order they were
pushed, each once; and without `take_all` a key has an entry only while a request of it waits
or is being worked on. -/
theorem dispatcher_invariant {r : DispatcherRun τ}
    (h : (dispatcherRuns τ).ReachesWhen GoesThrough r) :
    (r.dispatcher.ready.Nodup ∧ ∀ key, key ∈ r.dispatcher.ready ↔
        r.dispatcher.waiting key ≠ [] ∧ key ∉ r.taken) ∧
      (r.taken.Nodup ∧ ∃ keys : Finset Bytes,
        (∀ key, key ∈ keys ↔ (r.dispatcher.queues key).isSome = true) ∧
        r.dispatcher.depth =
          ∑ key ∈ keys, (r.dispatcher.waiting key).length + r.taken.length) ∧
      (∀ cap j d, r.dispatcher.push cap j = some d → d.depth ≤ cap) ∧
      (∀ j d, r.dispatcher.take = (some j, d) → j.key ∉ r.taken) ∧
      (∀ key, onKey key r.pushed = onKey key r.left ++ r.dispatcher.waiting key) ∧
      (r.swept = false → ∀ key, r.dispatcher.waiting key = [] → key ∉ r.taken →
        r.dispatcher.queues key = none) := by
  have hr := DispatcherRun.tracks_of_reachesWhen h
  refine ⟨⟨hr.ready_nodup, fun key => ?_⟩, ⟨hr.taken_nodup, ?_⟩, fun cap j d hpush => ?_,
    fun j d htake => ?_, hr.order, fun hswept key hwait hnot => ?_⟩
  · rw [hr.mem_ready, hr.mem_taken, Bool.not_eq_true]
  · obtain ⟨keys, hkeys⟩ := hr.keys
    have hsum := hr.sum_waiting keys hkeys
    have hdepth := hr.depth
    exact ⟨keys, hkeys, by omega⟩
  · obtain ⟨hlt, hdepth, -, -⟩ := RequestDispatcher.push_spec hpush
    omega
  · obtain ⟨j', d', htake', hnot, -⟩ | ⟨-, htake'⟩ := hr.take
    · rw [htake'] at htake
      cases htake
      exact hnot
    · rw [htake'] at htake
      cases htake
  · exact hr.kept hswept key hwait (by simpa [hr.mem_taken] using hnot)

/-- The first of two requests of one session is handed out, and the other one waits. -/
theorem dispatcher_invariant_taken : ∃ r : DispatcherRun Unit,
    r.taken = [[1]] ∧ (r.dispatcher.waiting [1]).length = 1 ∧ r.dispatcher.ready.Nodup := by
  have h0 : (dispatcherRuns Unit).ReachesWhen GoesThrough .fresh := .init rfl
  have h1 := h0.step (a := .push 4 ⟨sampleRequest .save [1], 0, ()⟩) (by trivial) rfl
  have h2 := h1.step (a := .push 4 ⟨sampleRequest .history [1], 1, ()⟩) (by trivial) rfl
  have h3 := h2.step (a := .take) (by trivial) rfl
  exact ⟨_, rfl, rfl, (dispatcher_invariant h3).1.1⟩

end EchoServer
