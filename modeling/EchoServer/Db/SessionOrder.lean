import EchoServer.Db.WorkerPool

/-!
# The order of one session's requests

A request the pool has accepted is answered, or in the hands of a worker, or queued. For
one session key at most one worker has any of its requests, and read in that order (answered,
in the hands of that worker, queued) they are the requests accepted under the key
(`Pool.Line`). Static dispatch keeps the worker fixed; dynamic dispatch moves the key to
another worker when nobody holds it, which the dispatcher's mark says (`Pool.Inv.marked`).

Every task of a worker gives on what it is pending for : it answers the first of these
requests, or none (`Task.pending_exec`), and starts a database call for the first of those
it may still start one for, or for none (`Task.unstarted_exec`). So answers and calls follow
the line (`per_session_order`).
-/

namespace EchoServer

variable {τ : Type*}

/-! ## What one task gives on -/

namespace Task

/-- The requests a task has still to answer. -/
def pending : Task τ → List (Job τ)
  | flushSaves saves | beginBatch saves | insert saves _ | inserted saves _
  | commitBatch saves _ | rollbackBatch saves | failBatch saves => saves
  | process j | checkUsable j | query j _ | queried j _ | reconnect j | fail j
  | respond j _ => [j]
  | release _ => []
  | respondBatch _ todo => todo.map Prod.fst

/-- The requests a task has still to answer or to release. -/
def held : Task τ → List (Job τ)
  | release j => [j]
  | respondBatch done todo => done ++ todo.map Prod.fst
  | t => t.pending

/-- The requests on behalf of which a task may still start a database call. -/
def unstarted : Task τ → List (Job τ)
  | flushSaves saves | beginBatch saves => saves
  | insert saves logIds => saves.drop logIds.length
  | inserted saves logIds => saves.drop (logIds.length + 1)
  | process j | checkUsable j | query j _ | reconnect j => [j]
  | queried j retry => if retry then [] else [j]
  | _ => []

/-- The requests with a database call running. -/
def executing : Task τ → List (Job τ)
  | queried j _ => [j]
  | inserted saves _ => saves
  | _ => []

end Task

namespace Effect

/-- The request an effect answers. -/
def answered : Effect τ → List (Job τ)
  | respond j _ => [j]
  | _ => []

/-- The response an effect gives to the sink. -/
def responses : Effect τ → List (Job τ × Response)
  | respond j res => [(j, res)]
  | _ => []

/-- The request an effect releases. -/
def released : Effect τ → List (Job τ)
  | release j => [j]
  | _ => []

/-- The request an effect starts a database call for. -/
def started : Effect τ → List (Job τ)
  | execute j => [j]
  | _ => []

end Effect

namespace Task

/-- What a task has not started is among what it has not answered. -/
theorem unstarted_sublist_pending (t : Task τ) : t.unstarted.Sublist t.pending := by
  cases t with
  | queried j retry => cases retry <;> simp [unstarted, pending]
  | _ => simp [unstarted, pending, List.drop_sublist]

/-- What it has not answered is among what it has not released. -/
theorem pending_sublist_held (t : Task τ) : t.pending.Sublist t.held := by
  cases t <;> simp [held, pending]

/-- What it executes is, too. -/
theorem executing_sublist_held (t : Task τ) : t.executing.Sublist t.held := by
  cases t <;> simp [held, pending, executing]

variable {now : ℕ} {usable usable' : Bool} {o : Outcome} {t : Task τ} {new : List (Task τ)}
  {eff : Effect τ}

/-- A task answers the first request it is pending for, or none. -/
theorem pending_exec (h : t.exec now usable o = (usable', new, eff)) :
    t.pending = eff.answered ++ new.flatMap pending := by
  cases t
  all_goals
    simp only [exec] at h
    repeat' split at h
  all_goals cases h
  all_goals simp [pending, Effect.answered]

/-- A task releases the first request it holds, or none. -/
theorem held_exec (h : t.exec now usable o = (usable', new, eff)) :
    t.held = eff.released ++ new.flatMap held := by
  cases t
  all_goals
    simp only [exec] at h
    repeat' split at h
  all_goals cases h
  all_goals simp [held, pending, Effect.released, List.flatMap_map]

/-- A task starts a call for the first request it may still start one for, or for none. -/
theorem unstarted_exec (h : t.exec now usable o = (usable', new, eff)) :
    eff.started <+: t.unstarted ∧ (new.flatMap unstarted).Sublist t.unstarted := by
  cases t with
  | insert saves logIds =>
    simp only [exec] at h
    split at h <;> cases h
    · rename_i j hj
      obtain ⟨hlt, rfl⟩ := List.getElem?_eq_some_iff.mp hj
      rw [show (insert saves logIds).unstarted = saves.drop logIds.length from rfl,
        List.drop_eq_getElem_cons hlt]
      refine ⟨⟨_, rfl⟩, ?_⟩
      rw [List.flatMap_singleton]
      exact List.sublist_cons_self _ _
    · simp [unstarted, Effect.started]
  | queried j retry =>
    simp only [exec] at h
    repeat' split at h
    all_goals cases h
    all_goals simp_all [unstarted, Effect.started]
  | _ =>
    simp only [exec] at h
    repeat' split at h
    all_goals cases h
    all_goals simp [unstarted, Effect.started, List.flatMap_map]

end Task

/-! ## What one worker has -/

/-- The requests the loop itself has. -/
def Loop.jobs : Loop τ → List (Job τ)
  | maintain | swap => []
  | scan saves batch => saves ++ batch
  | take saves => saves

namespace Worker

/-- The requests a worker has to answer, in the order it will. -/
def pending (w : Worker τ) : List (Job τ) := w.tasks.flatMap Task.pending ++ w.loop.jobs ++ w.queue

/-- The requests a worker has to answer or to release. -/
def held (w : Worker τ) : List (Job τ) := w.tasks.flatMap Task.held ++ w.loop.jobs

/-- The requests a worker may start a database call for, in the order it will. -/
def unstarted (w : Worker τ) : List (Job τ) :=
  w.tasks.flatMap Task.unstarted ++ w.loop.jobs ++ w.queue

/-- The requests with a database call running on the worker. -/
def executing (w : Worker τ) : List (Job τ) := (w.tasks.head?.map Task.executing).getD []

theorem flatMap_sublist {α β : Type*} {f g : α → List β} (h : ∀ a, (f a).Sublist (g a)) :
    ∀ l : List α, (l.flatMap f).Sublist (l.flatMap g)
  | [] => .slnil
  | a :: l => by
    rw [List.flatMap_cons, List.flatMap_cons]
    exact (h a).append (flatMap_sublist h l)

/-- The same of a worker, over all its tasks. -/
theorem unstarted_sublist_pending (w : Worker τ) : w.unstarted.Sublist w.pending :=
  ((flatMap_sublist Task.unstarted_sublist_pending w.tasks).append_right _).append_right _

/-- What a worker has not answered is held by a task or still queued. -/
theorem pending_sublist (w : Worker τ) : w.pending.Sublist (w.held ++ w.queue) :=
  ((flatMap_sublist Task.pending_sublist_held w.tasks).append_right _).append_right _

theorem mem_held_of_mem_executing {w : Worker τ} {x : Job τ} (h : x ∈ w.executing) :
    x ∈ w.held := by
  unfold executing at h
  cases ht : w.tasks with
  | nil => simp [ht] at h
  | cons t rest =>
    rw [ht] at h
    have hx : x ∈ t.held := t.executing_sublist_held.subset (by simpa using h)
    simp [held, ht, hx]

/-- Looking at the next request keeps what the worker has, in order. -/
theorem handOver_pending (cfg : PoolConfig) (now : ℕ) (j : Job τ) (saves : List (Job τ))
    (next : List (Job τ) → Loop τ) (later : List (Job τ))
    (hnext : ∀ saves, (next saves).jobs = saves ++ later) {w : Worker τ} (hw : w.tasks = []) :
    (w.handOver cfg now j saves next).pending = saves ++ j :: later ++ w.queue ∧
      (w.handOver cfg now j saves next).held = saves ++ j :: later ∧
      (w.handOver cfg now j saves next).unstarted = saves ++ j :: later ++ w.queue ∧
      (w.handOver cfg now j saves next).queue = w.queue := by
  simp only [handOver]
  split_ifs with hb hfull
  · simp [pending, held, unstarted, Task.pending, Task.held, Task.unstarted, hnext]
  · simp [pending, held, unstarted, hnext, hw]
  · simp [pending, held, unstarted, Task.pending, Task.held, Task.unstarted, hnext]

end Worker

/-! ## The line of one key -/

/-- The requests of a list under one session key. -/
def onKey (key : Bytes) (l : List (Job τ)) : List (Job τ) := l.filter fun j => j.key = key

@[simp] theorem onKey_append (key : Bytes) (l l' : List (Job τ)) :
    onKey key (l ++ l') = onKey key l ++ onKey key l' :=
  List.filter_append ..

theorem onKey_eq_nil {key : Bytes} {l : List (Job τ)} (h : ∀ x ∈ l, x.key ≠ key) :
    onKey key l = [] :=
  List.filter_eq_nil_iff.mpr fun x hx => by simpa using h x hx

theorem mem_onKey {key : Bytes} {l : List (Job τ)} {x : Job τ} :
    x ∈ onKey key l ↔ x ∈ l ∧ x.key = key := by
  simp [onKey]

namespace Pool

/-- What worker `i` has to answer. -/
def pendingOf (p : Pool τ) (i : ℕ) : List (Job τ) := ((p.workers[i]?).map Worker.pending).getD []

/-- What worker `i` may start a call for. -/
def unstartedOf (p : Pool τ) (i : ℕ) : List (Job τ) :=
  ((p.workers[i]?).map Worker.unstarted).getD []

/-- Worker `i` is the only one with requests of the key, and it has them in order. -/
structure Line (p : Pool τ) (key : Bytes) (i : ℕ) : Prop where
  others : ∀ i' w, p.workers[i']? = some w → i' ≠ i → ∀ x ∈ w.held ++ w.queue, x.key ≠ key
  accepted_eq : onKey key p.accepted = onKey key (p.responded.map Prod.fst) ++
    onKey key (p.pendingOf i) ++ p.shared.waiting key
  started : ∀ e ∈ onKey key p.executed,
    ∀ x ∈ onKey key (p.unstartedOf i) ++ p.shared.waiting key, e.seq ≤ x.seq
  sorted : ((onKey key p.executed).map Job.seq).Pairwise (· ≤ ·)

theorem unstartedOf_sublist (p : Pool τ) (i : ℕ) : (p.unstartedOf i).Sublist (p.pendingOf i) := by
  unfold unstartedOf pendingOf
  cases p.workers[i]? with
  | none => exact .slnil
  | some w => exact w.unstarted_sublist_pending

/-- What a worker may still start comes in the order of acceptance. -/
theorem Line.unstarted_pairwise {p : Pool τ} {key : Bytes} {i : ℕ} (h : Line p key i)
    (hseq : (p.accepted.map Job.seq).Pairwise (· < ·)) :
    ((onKey key (p.unstartedOf i) ++ p.shared.waiting key).map Job.seq).Pairwise (· < ·) := by
  have hsub : (onKey key (p.unstartedOf i) ++ p.shared.waiting key).Sublist
      (onKey key p.accepted) := by
    rw [h.accepted_eq, List.append_assoc]
    exact (((p.unstartedOf_sublist i).filter _).append_right _).trans
      (List.sublist_append_right _ _)
  exact hseq.sublist ((hsub.trans List.filter_sublist).map _)

/-- The first request a call may be started for comes before the others. -/
theorem first_le {key : Bytes} {es us ws : List (Job τ)} {e x : Job τ}
    (hsorted : ((onKey key us ++ ws).map Job.seq).Pairwise (· < ·)) (hstart : es <+: us)
    (hone : es.length ≤ 1) (he : e ∈ onKey key es) (hx : x ∈ onKey key us ++ ws) :
    e.seq ≤ x.seq := by
  obtain ⟨he, hkey⟩ := mem_onKey.mp he
  obtain rfl : es = [e] := by
    match es, hone, he with
    | [_], _, he => rw [List.mem_singleton.mp he]
  obtain ⟨later, rfl⟩ := hstart
  have hcons : onKey key ([e] ++ later) = e :: onKey key later := by simp [onKey, hkey]
  rw [hcons, List.cons_append] at hsorted hx
  rw [List.map_cons, List.pairwise_cons] at hsorted
  rcases List.mem_cons.mp hx with rfl | hx
  · exact le_rfl
  · exact (hsorted.1 _ (List.mem_map_of_mem hx)).le

/-- A step of worker `i₀` that answers `rs` and starts a call for `es` keeps every line. -/
theorem Line.update {p p' : Pool τ} {key : Bytes} {i i₀ : ℕ} {w w' : Worker τ}
    {rs es : List (Job τ)} (h : Line p key i) (hseq : (p.accepted.map Job.seq).Pairwise (· < ·))
    (hw : p.workers[i₀]? = some w) (hworkers : p'.workers = p.workers.set i₀ w')
    (hacc : p'.accepted = p.accepted) (hwait : p'.shared.waiting key = p.shared.waiting key)
    (hresp : p'.responded.map Prod.fst = p.responded.map Prod.fst ++ rs)
    (hexec : p'.executed = p.executed ++ es) (hpend : w.pending = rs ++ w'.pending)
    (hheld : ∀ x ∈ w'.held ++ w'.queue, x ∈ w.held ++ w.queue)
    (hunst : w'.unstarted.Sublist w.unstarted) (hstart : es <+: w.unstarted)
    (hone : es.length ≤ 1) : Line p' key i := by
  have hlt : i₀ < p.workers.length := (List.getElem?_eq_some_iff.mp hw).1
  have hothers : ∀ i' v, p'.workers[i']? = some v → i' ≠ i →
      ∀ x ∈ v.held ++ v.queue, x.key ≠ key := by
    intro i' v hv hne x hx
    rw [hworkers] at hv
    by_cases hi' : i' = i₀
    · subst hi'
      obtain rfl : w' = v := by simpa [hlt] using hv
      exact h.others i' w hw hne x (hheld x hx)
    · rw [List.getElem?_set_ne (Ne.symm hi')] at hv
      exact h.others i' v hv hne x hx
  by_cases hi : i₀ = i
  · subst hi
    have hp : p.pendingOf i₀ = w.pending := by simp [pendingOf, hw]
    have hp' : p'.pendingOf i₀ = w'.pending := by simp [pendingOf, hworkers, hlt]
    have hu : p.unstartedOf i₀ = w.unstarted := by simp [unstartedOf, hw]
    have hu' : p'.unstartedOf i₀ = w'.unstarted := by simp [unstartedOf, hworkers, hlt]
    have hsorted := h.unstarted_pairwise hseq
    have hstarted := h.started
    rw [hu] at hsorted hstarted
    have hmem : ∀ x ∈ onKey key w'.unstarted ++ p.shared.waiting key,
        x ∈ onKey key w.unstarted ++ p.shared.waiting key :=
      fun x hx => ((hunst.filter _).append_right _).subset hx
    refine ⟨hothers, ?_, ?_, ?_⟩
    · rw [hacc, h.accepted_eq, hp, hpend, hp', hresp, hwait]
      simp [List.append_assoc]
    · rw [hexec, hu', hwait]
      intro e he x hx
      rw [onKey_append, List.mem_append] at he
      rcases he with he | he
      · exact hstarted e he x (hmem x hx)
      · exact first_le hsorted hstart hone he (hmem x hx)
    · rw [hexec, onKey_append, List.map_append, List.pairwise_append]
      have hle : ((onKey key es).map Job.seq).length ≤ 1 := by
        rw [List.length_map]
        exact (List.length_filter_le _ _).trans hone
      refine ⟨h.sorted, List.pairwise_iff_getElem.mpr fun a b ha hb hab => by omega, ?_⟩
      intro a ha b hb
      obtain ⟨x, hx, rfl⟩ := List.mem_map.mp ha
      obtain ⟨y, hy, rfl⟩ := List.mem_map.mp hb
      obtain ⟨hy, hkey⟩ := mem_onKey.mp hy
      exact hstarted x hx y
        (List.mem_append_left _ (mem_onKey.mpr ⟨hstart.subset hy, hkey⟩))
  · have hne : ∀ x ∈ w.held ++ w.queue, x.key ≠ key := h.others i₀ w hw hi
    have hpendne : ∀ x ∈ w.pending, x.key ≠ key := fun x hx => hne x (w.pending_sublist.subset hx)
    have hrs : onKey key rs = [] := onKey_eq_nil fun x hx => hpendne x (by simp [hpend, hx])
    have hes : onKey key es = [] := onKey_eq_nil fun x hx =>
      hpendne x (w.unstarted_sublist_pending.subset (hstart.subset hx))
    have hp : p'.pendingOf i = p.pendingOf i := by
      simp [pendingOf, hworkers, List.getElem?_set_ne hi]
    have hu : p'.unstartedOf i = p.unstartedOf i := by
      simp [unstartedOf, hworkers, List.getElem?_set_ne hi]
    refine ⟨hothers, ?_, ?_, ?_⟩
    · rw [hacc, hresp, hp, hwait, onKey_append, hrs, List.append_nil]
      exact h.accepted_eq
    · rw [hexec, onKey_append, hes, List.append_nil, hu, hwait]
      exact h.started
    · rw [hexec, onKey_append, hes, List.append_nil]
      exact h.sorted

/-! ## The invariant of the pool -/

/-- What holds of the pool in every run, for each session. -/
structure Inv (cfg : PoolConfig) (p : Pool τ) : Prop where
  seqs : p.accepted.map Job.seq = List.range p.accepted.length
  executed_accepted : ∀ x ∈ p.executed, x ∈ p.accepted
  workers_length : p.workers.length = cfg.workers
  lines : ∀ key, ∃ i, (cfg.dispatch = .static → i = cfg.shardOf key) ∧ p.Line key i
  waiting_key : ∀ key, ∀ x ∈ p.shared.waiting key, x.key = key
  /-- Under static dispatch the dispatcher is not used. -/
  waiting_static : cfg.dispatch = .static → ∀ key, p.shared.waiting key = []
  /-- Under dynamic dispatch the workers have no queues of their own. -/
  queue_dynamic : cfg.dispatch = .dynamic → ∀ w ∈ p.workers, w.queue = []
  /-- Under dynamic dispatch the mark of a key counts the requests of the key that workers
  hold. -/
  marked : cfg.dispatch = .dynamic → ∀ key,
    (p.workers.map fun w => (onKey key w.held).length).sum = (p.shared.working key).toNat

variable {cfg : PoolConfig} {p : Pool τ}

/-- Requests are numbered as they are accepted. -/
theorem Inv.seq_pairwise (h : Inv cfg p) : (p.accepted.map Job.seq).Pairwise (· < ·) := by
  rw [h.seqs]
  exact List.pairwise_lt_range

/-- A request that has been answered has been accepted. -/
theorem Inv.mem_of_responded (h : Inv cfg p) {j : Job τ} {res : Response}
    (hmem : (j, res) ∈ p.responded) : j ∈ p.accepted := by
  obtain ⟨o, -, hline⟩ := h.lines j.key
  have hon : j ∈ onKey j.key p.accepted := by
    rw [hline.accepted_eq]
    refine List.mem_append_left _ (List.mem_append_left _ (mem_onKey.mpr ⟨?_, rfl⟩))
    exact List.mem_map_of_mem hmem
  exact (mem_onKey.mp hon).1

/-- A request that a worker has to answer has been accepted. -/
theorem Inv.mem_accepted (h : Inv cfg p) {i : ℕ} {w : Worker τ} (hw : p.workers[i]? = some w)
    {x : Job τ} (hx : x ∈ w.pending) : x ∈ p.accepted := by
  obtain ⟨o, -, hline⟩ := h.lines x.key
  by_cases ho : i = o
  · subst ho
    have : x ∈ onKey x.key p.accepted := by
      rw [hline.accepted_eq]
      simp [pendingOf, hw, mem_onKey, hx]
    exact (mem_onKey.mp this).1
  · exact absurd rfl (hline.others i w hw ho x (w.pending_sublist.subset hx))

theorem sum_map_set {α : Type*} (f : α → ℕ) {l : List α} {i : ℕ} {a : α} (h : l[i]? = some a)
    (b : α) : ((l.set i b).map f).sum + f a = (l.map f).sum + f b := by
  induction l generalizing i with
  | nil => simp at h
  | cons c l ih =>
    cases i with
    | zero =>
      obtain rfl : c = a := by simpa using h
      simp only [List.set_cons_zero, List.map_cons, List.sum_cons]
      omega
    | succ i =>
      have := ih (i := i) (by simpa using h)
      simp only [List.set_cons_succ, List.map_cons, List.sum_cons]
      omega

/-- A step of worker `i` that answers `rs`, starts a call for `es` and releases `fs` keeps
the invariant. -/
theorem Inv.update {p' : Pool τ} {i : ℕ} {w w' : Worker τ} (rs es fs : List (Job τ))
    (h : Inv cfg p) (hw : p.workers[i]? = some w) (hworkers : p'.workers = p.workers.set i w')
    (hacc : p'.accepted = p.accepted)
    (hwait : ∀ key, p'.shared.waiting key = p.shared.waiting key)
    (hwork : cfg.dispatch = .dynamic → ∀ key,
      p'.shared.working key = (p.shared.working key && onKey key fs = []))
    (hresp : p'.responded.map Prod.fst = p.responded.map Prod.fst ++ rs)
    (hexec : p'.executed = p.executed ++ es) (hpend : w.pending = rs ++ w'.pending)
    (hheld : w.held ++ w.queue = fs ++ (w'.held ++ w'.queue))
    (hqueue : cfg.dispatch = .dynamic → w'.queue = [])
    (hunst : w'.unstarted.Sublist w.unstarted) (hstart : es <+: w.unstarted)
    (hone : es.length ≤ 1) : Inv cfg p' := by
  refine ⟨by rw [hacc]; exact h.seqs, ?_, by simp [hworkers, h.workers_length], fun key => ?_,
    fun key => by rw [hwait]; exact h.waiting_key key,
    fun hs key => by rw [hwait]; exact h.waiting_static hs key, fun hd v hv => ?_, fun hd key => ?_⟩
  · rw [hacc, hexec]
    intro x hx
    rcases List.mem_append.mp hx with hx | hx
    · exact h.executed_accepted x hx
    · exact h.mem_accepted hw (w.unstarted_sublist_pending.subset (hstart.subset hx))
  · obtain ⟨o, ho, hline⟩ := h.lines key
    exact ⟨o, ho, hline.update h.seq_pairwise hw hworkers hacc (hwait key) hresp hexec hpend
      (fun x hx => by rw [hheld]; exact List.mem_append_right _ hx) hunst hstart hone⟩
  · rw [hworkers] at hv
    rcases List.mem_or_eq_of_mem_set hv with hv | rfl
    · exact h.queue_dynamic hd v hv
    · exact hqueue hd
  · have hq := h.queue_dynamic hd w (List.mem_of_getElem? hw)
    rw [hq, hqueue hd, List.append_nil, List.append_nil] at hheld
    have hset := sum_map_set (fun w : Worker τ => (onKey key w.held).length) hw w'
    have hsum := h.marked hd key
    simp only [hheld, onKey_append, List.length_append] at hset
    rw [hworkers, hwork hd key]
    by_cases hfs : onKey key fs = []
    · simp only [hfs, List.length_nil, decide_true, Bool.and_true] at hset ⊢
      omega
    · have hpos := List.length_pos_iff.mpr hfs
      have hle : (p.shared.working key).toNat ≤ 1 := Bool.toNat_le _
      simp only [hfs, decide_false, Bool.and_false, Bool.toNat_false]
      omega

/-- A step of worker `i` goes on in its loop, or executes the first of its tasks. -/
theorem work_cases {cfg : PoolConfig} {i : ℕ} {o : Outcome} {p p' : Pool τ}
    (h : p.work cfg i o = some p') : ∃ w, p.workers[i]? = some w ∧
      (w.tasks = [] ∧ p' = p.loopStep cfg i w o ∨
        ∃ t rest usable new eff, w.tasks = t :: rest ∧
          t.exec p.now w.usable o = (usable, new, eff) ∧
          p' = p.apply cfg i { w with usable, tasks := new ++ rest } eff) := by
  unfold work at h
  split at h
  · cases h
  · rename_i w hw
    refine ⟨w, hw, ?_⟩
    split at h
    · rename_i htasks
      exact .inl ⟨htasks, (Option.some.inj h).symm⟩
    · rename_i t rest htasks
      exact .inr ⟨t, rest, _, _, _, htasks, rfl, (Option.some.inj h).symm⟩

/-- What an effect changes; the depth that a static release lowers is none of it. -/
theorem apply_spec (cfg : PoolConfig) (i : ℕ) (w : Worker τ) (p : Pool τ) (eff : Effect τ) :
    (∃ w', (p.apply cfg i w eff).workers = p.workers.set i w' ∧ w'.tasks = w.tasks ∧
        w'.loop = w.loop ∧ w'.queue = w.queue) ∧
      (p.apply cfg i w eff).accepted = p.accepted ∧
      (∀ key, (p.apply cfg i w eff).shared.waiting key = p.shared.waiting key) ∧
      (cfg.dispatch = .dynamic → ∀ key, (p.apply cfg i w eff).shared.working key =
        (p.shared.working key && onKey key eff.released = [])) ∧
      (p.apply cfg i w eff).responded.map Prod.fst =
        p.responded.map Prod.fst ++ eff.answered ∧
      (p.apply cfg i w eff).executed = p.executed ++ eff.started := by
  cases eff with
  | release j =>
    cases hd : cfg.dispatch with
    | static =>
      simp only [apply, hd]
      exact ⟨⟨_, rfl, rfl, rfl, rfl⟩, rfl, fun _ => rfl, by simp,
        by simp [setWorker, Effect.answered], by simp [setWorker, Effect.started]⟩
    | dynamic =>
      simp only [apply, hd]
      refine ⟨⟨_, rfl, rfl, rfl, rfl⟩, rfl, fun key => p.shared.waiting_finish j.key key,
        fun _ key => ?_, by simp [setWorker, Effect.answered], by simp [setWorker, Effect.started]⟩
      rw [RequestDispatcher.working_finish]
      by_cases hk : key = j.key
      · simp [hk, onKey, Effect.released]
      · simp [hk, onKey, Effect.released, Ne.symm hk]
  | _ =>
    exact ⟨⟨_, rfl, rfl, rfl, rfl⟩, rfl, fun _ => rfl,
      by simp [apply, setWorker, onKey, Effect.released],
      by simp [apply, setWorker, Effect.answered], by simp [apply, setWorker, Effect.started]⟩

/-- A task that is executed keeps the order of each session. -/
theorem Inv.task (h : Inv cfg p) {i : ℕ} {w : Worker τ} (hw : p.workers[i]? = some w)
    {t : Task τ} {rest new : List (Task τ)} (htasks : w.tasks = t :: rest) {o : Outcome}
    {usable : Bool} {eff : Effect τ} (hex : t.exec p.now w.usable o = (usable, new, eff)) :
    Inv cfg (p.apply cfg i { w with usable, tasks := new ++ rest } eff) := by
  have hpend := Task.pending_exec hex
  have hheld := Task.held_exec hex
  obtain ⟨hstart, hunst⟩ := Task.unstarted_exec hex
  obtain ⟨⟨w', hworkers, htasks', hloop, hqueue⟩, hacc, hwait, hwork, hresp, hexec⟩ :=
    apply_spec cfg i { w with usable, tasks := new ++ rest } p eff
  refine h.update _ _ _ hw hworkers hacc hwait hwork hresp hexec ?_ ?_ ?_ ?_ ?_ ?_
  · simp [Worker.pending, htasks, htasks', hloop, hqueue, hpend]
  · simp [Worker.held, htasks, htasks', hloop, hqueue, hheld]
  · intro hd
    rw [hqueue]
    exact h.queue_dynamic hd w (List.mem_of_getElem? hw)
  · simp only [Worker.unstarted, htasks, htasks', hloop, hqueue, List.flatMap_append,
      List.flatMap_cons, List.append_assoc]
    exact hunst.append_right _
  · simp only [Worker.unstarted, htasks, List.flatMap_cons, List.append_assoc]
    exact hstart.trans (List.prefix_append _ _)
  · cases eff <;> simp [Effect.started]

/-- A step of the loop that moves requests inside one worker. -/
theorem Inv.regroup (h : Inv cfg p) {p' : Pool τ} {i : ℕ} {w w' : Worker τ}
    (hw : p.workers[i]? = some w) (hp' : p' = p.setWorker i w')
    (hpend : w'.pending = w.pending) (hheld : w'.held ++ w'.queue = w.held ++ w.queue)
    (hunst : w'.unstarted = w.unstarted)
    (hqueue : cfg.dispatch = .dynamic → w'.queue = []) : Inv cfg p' := by
  subst hp'
  exact h.update [] [] [] hw rfl rfl (fun _ => rfl)
    (fun _ key => by simp [setWorker, onKey]) (by simp [setWorker]) (by simp [setWorker])
    hpend.symm hheld.symm hqueue (by rw [hunst]) (List.nil_prefix) (by simp)

/-- Nobody has a request of a key that is not marked. -/
theorem Inv.key_ne (h : Inv cfg p) (hd : cfg.dispatch = .dynamic) {key : Bytes}
    (hwork : p.shared.working key = false) {i : ℕ} {w : Worker τ} (hw : p.workers[i]? = some w) :
    ∀ x ∈ w.held ++ w.queue, x.key ≠ key := by
  intro x hx hkey
  have hmem := List.mem_of_getElem? hw
  have hsum := h.marked hd key
  rw [hwork, Bool.toNat_false, List.sum_eq_zero_iff] at hsum
  have hnil := List.length_eq_zero_iff.mp (hsum _ (List.mem_map_of_mem hmem))
  rw [h.queue_dynamic hd w hmem, List.append_nil] at hx
  have : x ∈ onKey key w.held := mem_onKey.mpr ⟨hx, hkey⟩
  simp [hnil] at this

section

variable {i o : ℕ} {w w' : Worker τ} {j : Job τ} {shared : RequestDispatcher τ} {key : Bytes}

/-- The key of the request was free, so worker `i` is the only one that has requests of it. -/
theorem Inv.line_taken (h : Inv cfg p) (hd : cfg.dispatch = .dynamic)
    (hw : p.workers[i]? = some w) (hfree : p.shared.working j.key = false)
    (hfront : p.shared.waiting j.key = j :: shared.waiting j.key)
    (hpend : w'.pending = w.pending ++ [j]) (hunst : w'.unstarted = w.unstarted ++ [j])
    (hline : Line p j.key o) : Line { p.setWorker i w' with shared } j.key i := by
  obtain ⟨hlt, -⟩ := List.getElem?_eq_some_iff.mp hw
  have hnone : onKey j.key (p.pendingOf o) = [] := by
    unfold pendingOf
    cases ho : p.workers[o]? with
    | none => rfl
    | some v =>
      exact onKey_eq_nil fun x hx => h.key_ne hd hfree ho x (v.pending_sublist.subset hx)
  have hw0 : onKey j.key w.pending = [] :=
    onKey_eq_nil fun x hx => h.key_ne hd hfree hw x (w.pending_sublist.subset hx)
  have hu0 : onKey j.key w.unstarted = [] :=
    List.sublist_nil.mp (hw0 ▸ w.unstarted_sublist_pending.filter _)
  have hj : onKey j.key [j] = [j] := by simp [onKey]
  refine ⟨?_, ?_, ?_, hline.sorted⟩
  · intro i' v hv hne
    have hv : p.workers[i']? = some v := by
      simpa [setWorker, List.getElem?_set_ne (Ne.symm hne)] using hv
    exact h.key_ne hd hfree hv
  · have hacc := hline.accepted_eq
    rw [hnone, List.append_nil, hfront] at hacc
    simp [pendingOf, setWorker, hlt, hpend, hw0, hj, hacc]
  · intro e he x hx
    refine hline.started e he x (List.mem_append_right _ ?_)
    simpa [unstartedOf, setWorker, hlt, hunst, hu0, hj, hfront] using hx

/-- The line of another key stays as it is. -/
theorem Line.of_taken (hline : Line p key o) (hw : p.workers[i]? = some w) (hk : key ≠ j.key)
    (hsame : shared.waiting key = p.shared.waiting key)
    (hpend : w'.pending = w.pending ++ [j]) (hheld : w'.held = w.held ++ [j])
    (hunst : w'.unstarted = w.unstarted ++ [j]) (hqueue : w'.queue = []) :
    Line { p.setWorker i w' with shared } key o := by
  obtain ⟨hlt, hwi⟩ := List.getElem?_eq_some_iff.mp hw
  have hj : onKey key [j] = [] := onKey_eq_nil (by simpa using Ne.symm hk)
  have hp : onKey key (pendingOf { p.setWorker i w' with shared } o) =
      onKey key (p.pendingOf o) := by
    by_cases ho : i = o
    · subst ho
      simp [pendingOf, setWorker, hlt, hwi, hpend, hj]
    · simp [pendingOf, setWorker, List.getElem?_set_ne ho]
  have hu : onKey key (unstartedOf { p.setWorker i w' with shared } o) =
      onKey key (p.unstartedOf o) := by
    by_cases ho : i = o
    · subst ho
      simp [unstartedOf, setWorker, hlt, hwi, hunst, hj]
    · simp [unstartedOf, setWorker, List.getElem?_set_ne ho]
  refine ⟨?_, ?_, ?_, hline.sorted⟩
  · intro i' v hv hne x hx
    by_cases hi' : i' = i
    · subst hi'
      obtain rfl : w' = v := by simpa [setWorker, hlt] using hv
      rw [hqueue, List.append_nil, hheld, List.mem_append] at hx
      rcases hx with hx | hx
      · exact hline.others i' w hw hne x (List.mem_append_left _ hx)
      · rw [List.mem_singleton.mp hx]
        exact Ne.symm hk
    · refine hline.others i' v ?_ hne x hx
      simpa [setWorker, List.getElem?_set_ne (Ne.symm hi')] using hv
  · rw [hp, hsame]
    exact hline.accepted_eq
  · rw [hu, hsame]
    exact hline.started

/-- The dispatcher hands a request out to worker `i`, which takes the key over. -/
theorem Inv.taken (h : Inv cfg p) (hd : cfg.dispatch = .dynamic)
    (hw : p.workers[i]? = some w)
    (htake : p.shared.take = (some j, shared)) (hpend : w'.pending = w.pending ++ [j])
    (hheld : w'.held = w.held ++ [j]) (hunst : w'.unstarted = w.unstarted ++ [j])
    (hqueue : w'.queue = []) : Inv cfg { p.setWorker i w' with shared } := by
  obtain ⟨hfree, hmark, hfront, hrest⟩ := RequestDispatcher.takeFrom_some h.waiting_key htake
  refine ⟨h.seqs, h.executed_accepted, by simp [setWorker, h.workers_length], fun key => ?_,
    fun key x hx => ?_, by simp [hd], fun _ v hv => ?_, fun _ key => ?_⟩
  · obtain ⟨o, -, hline⟩ := h.lines key
    by_cases hk : key = j.key
    · subst hk
      exact ⟨i, by simp [hd], h.line_taken hd hw hfree hfront hpend hunst hline⟩
    · exact ⟨o, by simp [hd],
        hline.of_taken hw hk (hrest key hk).1 hpend hheld hunst hqueue⟩
  · by_cases hk : key = j.key
    · subst hk
      exact h.waiting_key j.key x (by rw [hfront]; exact List.mem_cons_of_mem _ hx)
    · exact h.waiting_key key x (by rwa [← (hrest key hk).1])
  · rcases List.mem_or_eq_of_mem_set hv with hv | rfl
    · exact h.queue_dynamic hd v hv
    · exact hqueue
  · have hset := sum_map_set (fun w : Worker τ => (onKey key w.held).length) hw w'
    have hsum := h.marked hd key
    simp only [hheld, onKey_append, List.length_append] at hset
    simp only [setWorker]
    by_cases hk : key = j.key
    · subst hk
      have hj : (onKey j.key [j]).length = 1 := by simp [onKey]
      rw [hfree, Bool.toNat_false] at hsum
      rw [hmark, Bool.toNat_true]
      omega
    · have hj : onKey key [j] = [] := onKey_eq_nil (by simpa using Ne.symm hk)
      rw [(hrest key hk).2]
      simp only [hj, List.length_nil] at hset
      omega

end

/-- A round of the loop keeps it. -/
theorem Inv.loopStep (h : Inv cfg p) {i : ℕ} {w : Worker τ} (hw : p.workers[i]? = some w)
    (htasks : w.tasks = []) (o : Outcome) : Inv cfg (p.loopStep cfg i w o) := by
  have hqueue : cfg.dispatch = .dynamic → w.queue = [] := fun hd =>
    h.queue_dynamic hd w (List.mem_of_getElem? hw)
  unfold Pool.loopStep
  cases hloop : w.loop with
  | maintain =>
    refine h.regroup hw rfl ?_ ?_ ?_ hqueue
    all_goals
      cases cfg.dispatch <;> simp [Worker.pending, Worker.held, Worker.unstarted, hloop, Loop.jobs]
  | swap =>
    refine h.regroup hw rfl ?_ ?_ ?_ (fun _ => rfl)
    all_goals
      simp [Worker.pending, Worker.held, Worker.unstarted, htasks, hloop, Loop.jobs]
  | scan saves batch =>
    cases batch with
    | nil =>
      refine h.regroup hw rfl ?_ ?_ ?_ hqueue
      all_goals
        simp [Worker.pending, Worker.held, Worker.unstarted, htasks, hloop, Loop.jobs,
          Task.pending, Task.held, Task.unstarted]
    | cons j batch =>
      obtain ⟨hp, hh, hu, hq⟩ := Worker.handOver_pending cfg p.now j saves
        (.scan · batch) batch (fun _ => rfl) htasks
      refine h.regroup hw rfl ?_ ?_ ?_ (fun hd => hq.trans (hqueue hd))
      · rw [hp]
        simp [Worker.pending, htasks, hloop, Loop.jobs]
      · rw [hh, hq]
        simp [Worker.held, htasks, hloop, Loop.jobs]
      · rw [hu]
        simp [Worker.unstarted, htasks, hloop, Loop.jobs]
  | take saves =>
    cases htake : p.shared.take with
    | mk found shared =>
      cases found with
      | none =>
        have hsame := RequestDispatcher.takeFrom_none htake
        refine h.update [] [] [] hw rfl rfl (fun key => (hsame key).1)
          (fun _ key => by simp [onKey, (hsame key).2]) (by simp [setWorker]) (by simp [setWorker])
          ?_ ?_ hqueue ?_ List.nil_prefix (by simp)
        all_goals
          simp [Worker.pending, Worker.held, Worker.unstarted, htasks, hloop, Loop.jobs,
            Task.pending, Task.held, Task.unstarted]
      | some j =>
        have hd : cfg.dispatch = .dynamic := by
          cases hd : cfg.dispatch with
          | dynamic => rfl
          | static =>
            have hfront := (RequestDispatcher.takeFrom_some h.waiting_key htake).2.2.1
            simp [h.waiting_static hd] at hfront
        obtain ⟨hp, hh, hu, hq⟩ := Worker.handOver_pending cfg p.now j saves
          Loop.take [] (fun _ => by simp [Loop.jobs]) htasks
        refine h.taken hd hw htake ?_ ?_ ?_ (hq.trans (hqueue hd))
        · rw [hp, hqueue hd]
          simp [Worker.pending, htasks, hloop, Loop.jobs, hqueue hd]
        · rw [hh]
          simp [Worker.held, htasks, hloop, Loop.jobs]
        · rw [hu, hqueue hd]
          simp [Worker.unstarted, htasks, hloop, Loop.jobs, hqueue hd]

/-- A call started earlier was for a request accepted earlier. -/
theorem Inv.executed_seq_lt (h : Inv cfg p) {e : Job τ} (he : e ∈ p.executed) :
    e.seq < p.accepted.length := by
  have := List.mem_map_of_mem (f := Job.seq) (h.executed_accepted e he)
  rw [h.seqs] at this
  exact List.mem_range.mp this

/-- A request is accepted at the end of its line. -/
theorem Inv.accept (h : Inv cfg p) {p' : Pool τ} {j : Job τ} (hj : j.seq = p.accepted.length)
    (hacc : p'.accepted = p.accepted ++ [j]) (hexec : p'.executed = p.executed)
    (hresp : p'.responded = p.responded) (hlen : p'.workers.length = p.workers.length)
    (hlines : ∀ key o, p.Line key o → (cfg.dispatch = .static → o = cfg.shardOf key) →
      (∀ i' w, p'.workers[i']? = some w → i' ≠ o → ∀ x ∈ w.held ++ w.queue, x.key ≠ key) ∧
        onKey key (p'.pendingOf o) ++ p'.shared.waiting key =
          onKey key (p.pendingOf o) ++ p.shared.waiting key ++ onKey key [j] ∧
        onKey key (p'.unstartedOf o) ++ p'.shared.waiting key =
          onKey key (p.unstartedOf o) ++ p.shared.waiting key ++ onKey key [j])
    (hkey : ∀ key, ∀ x ∈ p'.shared.waiting key, x.key = key)
    (hstatic : cfg.dispatch = .static → ∀ key, p'.shared.waiting key = [])
    (hdynamic : cfg.dispatch = .dynamic → p'.workers = p.workers ∧
      ∀ key, p'.shared.working key = p.shared.working key) : Inv cfg p' := by
  refine ⟨?_, ?_, hlen.trans h.workers_length, fun key => ?_, hkey, hstatic, fun hd => ?_,
    fun hd key => ?_⟩
  · simp [hacc, h.seqs, hj, List.range_succ]
  · rw [hacc, hexec]
    exact fun x hx => List.mem_append_left _ (h.executed_accepted x hx)
  · obtain ⟨o, ho, hline⟩ := h.lines key
    obtain ⟨hothers, hpend, hunst⟩ := hlines key o hline ho
    refine ⟨o, ho, hothers, ?_, ?_, by rw [hexec]; exact hline.sorted⟩
    · rw [List.append_assoc, hpend, hacc, hresp, onKey_append, hline.accepted_eq]
      simp [List.append_assoc]
    · rw [hexec, hunst]
      intro e he x hx
      rcases List.mem_append.mp hx with hx | hx
      · exact hline.started e he x hx
      · rw [List.mem_singleton.mp (mem_onKey.mp hx).1, hj]
        exact (h.executed_seq_lt (mem_onKey.mp he).1).le
  · rw [(hdynamic hd).1]
    exact h.queue_dynamic hd
  · rw [(hdynamic hd).1, (hdynamic hd).2]
    exact h.marked hd key

/-- Static dispatch : the request goes to the end of the queue of the worker of its key. -/
theorem Inv.enqueue (h : Inv cfg p) (hd : cfg.dispatch = .static) {j : Job τ} {w : Worker τ}
    (hj : j.seq = p.accepted.length) (hw : p.workers[cfg.shardOf j.key]? = some w) :
    Inv cfg { p.setWorker (cfg.shardOf j.key)
      { w with queue := w.queue ++ [j], depth := w.depth + 1 } with
        accepted := p.accepted ++ [j] } := by
  obtain ⟨hlt, hwi⟩ := List.getElem?_eq_some_iff.mp hw
  refine h.accept hj rfl rfl rfl (by simp [setWorker]) (fun key o hline ho => ⟨?_, ?_, ?_⟩)
    h.waiting_key h.waiting_static (by simp [hd])
  · intro i' v hv hne x hx
    by_cases hi' : i' = cfg.shardOf j.key
    · subst hi'
      obtain rfl : _ = v := by simpa [setWorker, hlt] using hv
      have hx : x ∈ w.held ++ w.queue ∨ x = j := by
        simpa [Worker.held, or_assoc] using hx
      rcases hx with hx | rfl
      · exact hline.others _ w hw hne x hx
      · rintro rfl
        exact hne (ho hd).symm
    · exact hline.others i' v
        (by simpa [setWorker, List.getElem?_set_ne (Ne.symm hi')] using hv) hne x hx
  · by_cases ho' : cfg.shardOf j.key = o
    · subst ho'
      simp [pendingOf, setWorker, hlt, hwi, Worker.pending, h.waiting_static hd]
    · have hkey : onKey key [j] = [] := onKey_eq_nil fun x hx hxk => by
        rw [List.mem_singleton.mp hx] at hxk
        exact ho' (by rw [hxk]; exact (ho hd).symm)
      simp [pendingOf, setWorker, List.getElem?_set_ne ho', hkey]
  · by_cases ho' : cfg.shardOf j.key = o
    · subst ho'
      simp [unstartedOf, setWorker, hlt, hwi, Worker.unstarted, h.waiting_static hd]
    · have hkey : onKey key [j] = [] := onKey_eq_nil fun x hx hxk => by
        rw [List.mem_singleton.mp hx] at hxk
        exact ho' (by rw [hxk]; exact (ho hd).symm)
      simp [unstartedOf, setWorker, List.getElem?_set_ne ho', hkey]

/-- A request goes behind the earlier ones of its session. -/
theorem Inv.submit (h : Inv cfg p) (req : Request) (tag : τ) :
    Inv cfg (p.submit cfg req tag).2 := by
  unfold Pool.submit
  split
  · exact h
  dsimp only
  split
  · rename_i hd
    split
    · exact h
    · rename_i shared hpush
      have hsame := RequestDispatcher.push_eq_some hpush
      have hwait : ∀ key, shared.waiting key =
          p.shared.waiting key ++ onKey key [⟨req, p.accepted.length, tag⟩] := by
        intro key
        rw [(hsame key).1]
        by_cases hk : key = req.sessionKey
        · simp [onKey, Job.key, hk]
        · simp [onKey, Job.key, hk, Ne.symm hk]
      refine h.accept rfl rfl rfl rfl rfl (fun key o hline _ => ⟨hline.others, ?_, ?_⟩)
        (fun key x hx => ?_) (by simp [hd]) (fun _ => ⟨rfl, fun key => (hsame key).2⟩)
      · rw [hwait key, List.append_assoc]
        rfl
      · rw [hwait key, List.append_assoc]
        rfl
      · rw [hwait key] at hx
        rcases List.mem_append.mp hx with hx | hx
        · exact h.waiting_key key x hx
        · exact (mem_onKey.mp hx).2
  · rename_i hd
    split
    · exact h
    · rename_i w hw
      split
      · exact h
      · exact h.enqueue (j := ⟨req, p.accepted.length, tag⟩) hd rfl hw

theorem inv_fresh (cfg : PoolConfig) : Inv cfg (fresh cfg : Pool τ) := by
  have hfresh : ∀ (i : ℕ) (w : Worker τ), (fresh cfg : Pool τ).workers[i]? = some w →
      w = .fresh := fun i w hw => List.eq_of_mem_replicate (List.mem_of_getElem? hw)
  have hwait : ∀ key, (fresh cfg : Pool τ).shared.waiting key = [] := fun _ => rfl
  refine ⟨rfl, by simp [fresh], by simp [fresh], fun key => ⟨cfg.shardOf key, fun _ => rfl, ?_⟩,
    by simp [hwait], fun _ => hwait, fun _ w hw => ?_, fun _ key => ?_⟩
  · have hpend : (fresh cfg : Pool τ).pendingOf (cfg.shardOf key) = [] := by
      unfold pendingOf
      cases hw : (fresh cfg : Pool τ).workers[cfg.shardOf key]? with
      | none => rfl
      | some w => rw [hfresh _ w hw]; rfl
    refine ⟨fun i w hw _ => ?_, ?_, by simp [fresh, onKey], by simp [fresh, onKey]⟩
    · rw [hfresh i w hw]
      simp [Worker.held, Worker.fresh, Loop.jobs]
    · rw [hpend]
      rfl
  · rw [List.eq_of_mem_replicate hw]
    rfl
  · simp [fresh, Worker.held, Worker.fresh, Loop.jobs, onKey, RequestDispatcher.working,
      RequestDispatcher.empty]

/-- Every step keeps the order. -/
theorem Inv.step (hp : Inv cfg p) {a : PoolStep τ} {p' : Pool τ}
    (hstep : (workerPool τ cfg).step p a = some p') : Inv cfg p' := by
  cases a with
  | submit req tag =>
    obtain rfl := Option.some.inj hstep
    exact hp.submit req tag
  | work i o =>
    obtain ⟨w, hw, ⟨htasks, rfl⟩ | ⟨t, rest, usable, new, eff, htasks, hex, rfl⟩⟩ :=
      work_cases hstep
    · exact hp.loopStep hw htasks o
    · exact hp.task hw htasks hex
  | tick us =>
    obtain rfl := Option.some.inj hstep
    exact ⟨hp.seqs, hp.executed_accepted, hp.workers_length,
      fun key => (hp.lines key).imp fun o ho =>
        ⟨ho.1, ho.2.others, ho.2.accepted_eq, ho.2.started, ho.2.sorted⟩,
      hp.waiting_key, hp.waiting_static, hp.queue_dynamic, hp.marked⟩
  | drain =>
    obtain rfl := Option.some.inj hstep
    exact ⟨hp.seqs, hp.executed_accepted, hp.workers_length,
      fun key => (hp.lines key).imp fun o ho =>
        ⟨ho.1, ho.2.others, ho.2.accepted_eq, ho.2.started, ho.2.sorted⟩,
      hp.waiting_key, hp.waiting_static, hp.queue_dynamic, hp.marked⟩

/-- The order holds in every state that is reached. -/
theorem inv_of_reaches (h : (workerPool τ cfg).Reaches p) : Inv cfg p := by
  refine Machine.Reaches.invariant ?_ (fun p a p' hp hstep => hp.step hstep) h
  rintro p rfl
  exact inv_fresh cfg

end Pool

/-- In every run of the pool, whatever the dispatch, the batch size and the outcomes : the
requests of a session key are answered in the order they were accepted; the calls made for
them are started in that order, a retry after its first attempt; and no two workers run a
call for the same key. -/
theorem per_session_order {cfg : PoolConfig} {p : Pool τ} (h : (workerPool τ cfg).Reaches p) :
    p.accepted.map Job.seq = List.range p.accepted.length ∧
      (∀ key, onKey key (p.responded.map Prod.fst) <+: onKey key p.accepted) ∧
      (∀ x ∈ p.executed, x ∈ p.accepted) ∧
      (∀ key, ((onKey key p.executed).map Job.seq).Pairwise (· ≤ ·)) ∧
      ∀ (i i' : ℕ) (w w' : Worker τ), p.workers[i]? = some w → p.workers[i']? = some w' →
        i ≠ i' → ∀ x ∈ w.executing, ∀ y ∈ w'.executing, x.key ≠ y.key := by
  have hp := Pool.inv_of_reaches h
  refine ⟨hp.seqs, fun key => ?_, hp.executed_accepted, fun key => ?_, ?_⟩
  · obtain ⟨o, -, hline⟩ := hp.lines key
    rw [hline.accepted_eq, List.append_assoc]
    exact List.prefix_append _ _
  · obtain ⟨o, -, hline⟩ := hp.lines key
    exact hline.sorted
  · intro i i' w w' hw hw' hne x hx y hy hkey
    obtain ⟨o, -, hline⟩ := hp.lines y.key
    by_cases ho : i = o
    · exact hline.others i' w' hw' (fun h => hne (ho.trans h.symm)) y
        (List.mem_append_left _ (Worker.mem_held_of_mem_executing hy)) rfl
    · exact hline.others i w hw ho x
        (List.mem_append_left _ (Worker.mem_held_of_mem_executing hx)) hkey

/-- A request of a session with key `key`. -/
def sampleRequest (kind : RequestKind) (key : Bytes) : Request := ⟨kind, 7, key, [], [], 1, 0⟩

/-- A database call that succeeds. -/
def callOk : Outcome := ⟨true, false, 1, [], 1, false⟩

/-- The next `n` steps of worker `i`, with calls that succeed. -/
def workSteps (i n : ℕ) : List (PoolStep Unit) := List.replicate n (.work i callOk)

/-- Two workers under dynamic dispatch and two sessions : the second request of the first
session waits until the first is finished, and the other worker takes the other session. -/
theorem per_session_order_dynamic :
    ∃ p : Pool Unit, (onKey [1] (p.responded.map Prod.fst)).map Job.seq = [0, 1] ∧
      onKey [1] (p.responded.map Prod.fst) <+: onKey [1] p.accepted := by
  obtain ⟨p, hp, hq⟩ := (workerPool Unit ⟨2, .dynamic, 1, fun _ => 0⟩).exists_reachesWhen
    (fun _ _ => True) (.fresh _)
    (.submit (sampleRequest .save [1]) () :: .submit (sampleRequest .history [1]) () ::
      .submit (sampleRequest .counter [2]) () ::
        (workSteps 0 5 ++ workSteps 1 9 ++ workSteps 0 20))
    (fun p => (onKey [1] (p.responded.map Prod.fst)).map Job.seq = [0, 1]) rfl
    (by decide +kernel)
  exact ⟨p, of_decide_eq_true hq, (per_session_order hp).2.1 [1]⟩

end EchoServer
