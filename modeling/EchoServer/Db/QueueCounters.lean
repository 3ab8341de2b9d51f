import EchoServer.Db.PoolStop

/-!
# The depth counters of the pool

`queued` adds up the depth counters, which `submit` raises and `release` lowers, a static
worker's own or the one of the dispatcher. A request is counted from the moment it is accepted
until it is released, after its response has gone to the sink : a static worker counts what it
has and what is in its queue (`Pool.Counted.static`), the dispatcher all that is accepted and
not released (`Pool.Counted.dynamic`).

`Pool.Counted.conserved` says where an accepted request is, so what a worker is about to release
has not been released, and the counter is not zero. `queue_accounting` puts it together.
-/

namespace EchoServer

variable {τ : Type*}

namespace Task

/-- The requests a task has answered and not released. -/
def done : Task τ → List (Job τ)
  | release j => [j]
  | respondBatch done _ => done
  | _ => []

variable {now : ℕ} {usable usable' : Bool} {o : Outcome} {t : Task τ} {new : List (Task τ)}
  {eff : Effect τ}

/-- A task releases what it has answered, and has answered what it did before or does now. -/
theorem done_exec (h : t.exec now usable o = (usable', new, eff)) :
    eff.released ⊆ t.done ∧ new.flatMap done ⊆ t.done ++ eff.answered := by
  cases t
  all_goals
    simp only [exec] at h
    repeat' split at h
  all_goals cases h
  all_goals simp [done, Effect.released, Effect.answered, List.flatMap_map]

end Task

namespace Worker

/-- The requests a worker has answered and not released. -/
def done (w : Worker τ) : List (Job τ) := w.tasks.flatMap Task.done

/-- The requests a worker has been given and has not released. -/
def unreleased (w : Worker τ) : List (Job τ) := w.held ++ w.queue

/-- What the loop hands over has not been answered, and is still counted. -/
theorem handOver_done (cfg : PoolConfig) (now : ℕ) (j : Job τ) (saves : List (Job τ))
    (next : List (Job τ) → Loop τ) {w : Worker τ} (hw : w.tasks = []) :
    (w.handOver cfg now j saves next).done = [] ∧
      (w.handOver cfg now j saves next).depth = w.depth := by
  unfold handOver
  dsimp only
  split_ifs <;> simp [done, Task.done, hw]

end Worker

/-- Handing a request out does not finish it. -/
theorem RequestDispatcher.depth_takeFrom {d d' : RequestDispatcher τ} {ready : List Bytes}
    {found : Option (Job τ)} (h : d.takeFrom ready = (found, d')) : d'.depth = d.depth := by
  cases found with
  | some j => exact (takeFrom_some_spec h).1
  | none =>
    induction ready with
    | nil =>
      obtain rfl : _ = d' := by simpa [takeFrom] using h
      rfl
    | cons key ready ih =>
      rw [takeFrom] at h
      split at h
      · simp at h
      · exact ih h

namespace Pool

variable {cfg : PoolConfig} {p p' : Pool τ} {i : ℕ} {w w' : Worker τ}

/-- What the depth counters count. -/
structure Counted (cfg : PoolConfig) (p : Pool τ) : Prop where
  /-- An accepted request has been released, or a worker has it, or it waits. -/
  conserved : ∀ key q, tally key q p.accepted = tally key q p.released +
    (p.workers.map fun w => tally key q w.unreleased).sum + tally key q (p.shared.waiting key)
  done_answered : ∀ w ∈ p.workers, w.done ⊆ p.responded.map Prod.fst
  released_answered : p.released ⊆ p.responded.map Prod.fst
  static : cfg.dispatch = .static → ∀ w ∈ p.workers,
    w.depth = w.unreleased.length ∧ w.depth ≤ kMaxQueuePerWorker
  dynamic : cfg.dispatch = .dynamic → p.shared.depth + p.released.length = p.accepted.length ∧
    p.shared.depth ≤ kMaxQueuePerWorker * p.workers.length

/-! ## What a release does to the counters -/

/-- What a task releases is appended. -/
theorem released_apply (cfg : PoolConfig) (i : ℕ) (w : Worker τ) (p : Pool τ) (eff : Effect τ) :
    (p.apply cfg i w eff).released = p.released ++ eff.released := by
  cases eff with
  | release j => cases hd : cfg.dispatch <;> simp [apply, hd, setWorker, Effect.released]
  | _ => simp [apply, setWorker, Effect.released]

/-- A static worker gives the depth of its own queue back. -/
theorem apply_static (hd : cfg.dispatch = .static) (i : ℕ) (w : Worker τ) (p : Pool τ)
    (eff : Effect τ) : (p.apply cfg i w eff).workers =
      p.workers.set i { w with depth := w.depth - eff.released.length } := by
  cases eff <;> simp [apply, hd, setWorker, Effect.released]

/-- A dynamic worker gives the shared depth back, under the keys it works on. -/
theorem apply_dynamic (hd : cfg.dispatch = .dynamic) (i : ℕ) (w : Worker τ) (p : Pool τ)
    {eff : Effect τ} (hwork : ∀ j ∈ eff.released, p.shared.working j.key = true) :
    (p.apply cfg i w eff).workers = p.workers.set i w ∧
      (p.apply cfg i w eff).shared.depth = p.shared.depth - eff.released.length := by
  cases eff with
  | release j =>
    have hkey : p.shared.working j.key = true := hwork j (by simp [Effect.released])
    simp only [apply, hd]
    exact ⟨rfl, (RequestDispatcher.finish_spec hkey).1⟩
  | _ => exact ⟨rfl, rfl⟩

/-! ## Nothing is released twice -/

/-- Counting a request counts it under its key. -/
theorem count_eq_tally [DecidableEq (Job τ)] (j : Job τ) (l : List (Job τ)) :
    l.count j = tally j.key (· == j) l := by
  have hcount : (onKey j.key l).count j = l.count j := List.count_filter (decide_eq_true rfl)
  exact hcount.symm

/-- What a worker has is accepted and not among the released. -/
theorem Counted.subperm (h : Counted cfg p) (hw : p.workers[i]? = some w) :
    (w.unreleased ++ p.released).Subperm p.accepted := by
  classical
  refine List.subperm_ext_iff.mpr fun j _ => ?_
  have hle : tally j.key (· == j) w.unreleased ≤
      (p.workers.map fun w => tally j.key (· == j) w.unreleased).sum :=
    List.le_sum_of_mem (List.mem_map_of_mem
      (f := fun w : Worker τ => tally j.key (· == j) w.unreleased) (List.mem_of_getElem? hw))
  have hsum := h.conserved j.key (· == j)
  rw [List.count_append, count_eq_tally, count_eq_tally, count_eq_tally]
  omega

/-- No request is released twice. -/
theorem Counted.released_subperm (h : Counted cfg p) : p.released.Subperm p.accepted := by
  classical
  refine List.subperm_ext_iff.mpr fun j _ => ?_
  have hsum := h.conserved j.key (· == j)
  rw [count_eq_tally, count_eq_tally]
  omega

/-- The counter a release lowers is not zero. -/
theorem Counted.released_le (h : Counted cfg p) (hw : p.workers[i]? = some w) {fs : List (Job τ)}
    (hfs : fs <+: w.held) :
    (cfg.dispatch = .static → fs.length ≤ w.depth) ∧
      (cfg.dispatch = .dynamic → fs.length ≤ p.shared.depth) := by
  have hlen : fs.length ≤ w.unreleased.length :=
    (hfs.trans (List.prefix_append _ _)).length_le
  refine ⟨fun hd => ?_, fun hd => ?_⟩
  · rw [(h.static hd w (List.mem_of_getElem? hw)).1]
    exact hlen
  · have hle := (h.subperm hw).length_le
    have heq := (h.dynamic hd).1
    rw [List.length_append] at hle
    omega

/-! ## Steps -/

/-- A step of worker `i` that answers `rs` and releases `fs`. -/
theorem Counted.update (h : Counted cfg p) (rs fs : List (Job τ)) (hw : p.workers[i]? = some w)
    (hworkers : p'.workers = p.workers.set i w') (hacc : p'.accepted = p.accepted)
    (hresp : p'.responded.map Prod.fst = p.responded.map Prod.fst ++ rs)
    (hrel : p'.released = p.released ++ fs)
    (hkept : ∀ key q, tally key q w.unreleased + tally key q (p.shared.waiting key) =
      tally key q fs + tally key q w'.unreleased + tally key q (p'.shared.waiting key))
    (hfs : fs ⊆ w.done) (hdone : w'.done ⊆ w.done ++ rs)
    (hstatic : cfg.dispatch = .static →
      w.unreleased.length = fs.length + w'.unreleased.length ∧ w'.depth + fs.length = w.depth)
    (hdynamic : cfg.dispatch = .dynamic → p'.shared.depth + fs.length = p.shared.depth) :
    Counted cfg p' := by
  have hmem := List.mem_of_getElem? hw
  have hmono : p.responded.map Prod.fst ⊆ p'.responded.map Prod.fst := by
    rw [hresp]
    exact List.subset_append_left _ _
  refine ⟨fun key q => ?_, fun v hv => ?_, ?_, fun hd v hv => ?_, fun hd => ?_⟩
  · have hsum := h.conserved key q
    have hset := sum_map_set (fun w : Worker τ => tally key q w.unreleased) hw w'
    have hkept := hkept key q
    rw [hacc, hrel, hworkers, tally_append]
    omega
  · rw [hworkers] at hv
    rcases List.mem_or_eq_of_mem_set hv with hv | rfl
    · exact List.Subset.trans (h.done_answered v hv) hmono
    · intro j hj
      rw [hresp]
      rcases List.mem_append.mp (hdone hj) with hj | hj
      · exact List.mem_append_left _ (h.done_answered w hmem hj)
      · exact List.mem_append_right _ hj
  · rw [hrel]
    intro j hj
    rcases List.mem_append.mp hj with hj | hj
    · exact hmono (h.released_answered hj)
    · exact hmono (h.done_answered w hmem (hfs hj))
  · rw [hworkers] at hv
    rcases List.mem_or_eq_of_mem_set hv with hv | rfl
    · exact h.static hd v hv
    · obtain ⟨hdepth, hle⟩ := h.static hd w hmem
      obtain ⟨hlen, hlower⟩ := hstatic hd
      exact ⟨by omega, by omega⟩
  · obtain ⟨htotal, hle⟩ := h.dynamic hd
    have hlower := hdynamic hd
    rw [hacc, hrel, hworkers, List.length_append, List.length_set]
    exact ⟨by omega, by omega⟩

/-- A task that is executed keeps the counters. -/
theorem Counted.task (h : Counted cfg p) (hp : Inv cfg p) (hw : p.workers[i]? = some w)
    {t : Task τ} {rest new : List (Task τ)} (htasks : w.tasks = t :: rest) {o : Outcome}
    {usable : Bool} {eff : Effect τ} (hex : t.exec p.now w.usable o = (usable, new, eff)) :
    Counted cfg (p.apply cfg i { w with usable, tasks := new ++ rest } eff) := by
  have hheld := Task.held_exec hex
  obtain ⟨hfs, hdone⟩ := Task.done_exec hex
  have hfront : eff.released <+: w.held := by
    simp only [Worker.held, htasks, List.flatMap_cons, hheld, List.append_assoc]
    exact List.prefix_append _ _
  obtain ⟨hstatic, hdynamic⟩ := h.released_le hw hfront
  obtain ⟨-, hacc, hwait, -, hresp, -⟩ :=
    apply_spec cfg i { w with usable, tasks := new ++ rest } p eff
  -- the worker with the tasks still to do, whatever its depth counter says
  have hunreleased : ∀ depth, w.unreleased =
      eff.released ++ Worker.unreleased { w with usable, tasks := new ++ rest, depth } := by
    intro depth
    simp [Worker.unreleased, Worker.held, htasks, hheld]
  have hsub : w.done = t.done ++ rest.flatMap Task.done := by simp [Worker.done, htasks]
  have hdone' : ∀ depth, Worker.done { w with usable, tasks := new ++ rest, depth } ⊆
      w.done ++ eff.answered := by
    intro depth j hj
    have hj : j ∈ new.flatMap Task.done ∨ j ∈ rest.flatMap Task.done := by
      simpa only [Worker.done, List.flatMap_append, List.mem_append] using hj
    rw [hsub]
    rcases hj with hj | hj
    · rcases List.mem_append.mp (hdone hj) with hj | hj
      · exact List.mem_append_left _ (List.mem_append_left _ hj)
      · exact List.mem_append_right _ hj
    · exact List.mem_append_left _ (List.mem_append_right _ hj)
  have hfs' : eff.released ⊆ w.done := by
    rw [hsub]
    exact List.Subset.trans hfs (List.subset_append_left _ _)
  have hkept : ∀ depth key q, tally key q w.unreleased + tally key q (p.shared.waiting key) =
      tally key q eff.released +
        tally key q (Worker.unreleased { w with usable, tasks := new ++ rest, depth }) +
        tally key q ((p.apply cfg i { w with usable, tasks := new ++ rest } eff).shared.waiting
          key) := by
    intro depth key q
    rw [hwait, hunreleased depth, tally_append]
  cases hd : cfg.dispatch with
  | static =>
    refine h.update eff.answered eff.released hw (apply_static hd _ _ _ _) hacc hresp
      (released_apply ..) (hkept _) hfs' (hdone' _) (fun _ => ⟨?_, ?_⟩) (by simp [hd])
    · rw [← List.length_append, ← hunreleased]
    · exact Nat.sub_add_cancel (hstatic hd)
  | dynamic =>
    have hwork : ∀ j ∈ eff.released, p.shared.working j.key = true := by
      intro j hj
      by_contra hfree
      exact hp.key_ne hd (by simpa using hfree) hw j
        (List.mem_append_left _ (hfront.subset hj)) rfl
    obtain ⟨hworkers, hdepth⟩ := apply_dynamic hd i { w with usable, tasks := new ++ rest } p hwork
    refine h.update eff.answered eff.released hw hworkers hacc hresp
      (released_apply ..) (hkept w.depth) hfs' (hdone' w.depth) (by simp [hd]) fun _ => ?_
    rw [hdepth]
    exact Nat.sub_add_cancel (hdynamic hd)

/-- A step of the loop that moves requests inside one worker. -/
theorem Counted.regroup (h : Counted cfg p) (hw : p.workers[i]? = some w)
    (hunreleased : w'.unreleased = w.unreleased) (hdone : w'.done = [])
    (hdepth : w'.depth = w.depth) : Counted cfg (p.setWorker i w') :=
  h.update [] [] hw rfl rfl (by simp [setWorker]) (by simp [setWorker])
    (fun key q => by simp [setWorker, hunreleased]) (List.nil_subset _) (by simp [hdone])
    (fun _ => by simp [hunreleased, hdepth]) (fun _ => rfl)

/-- A round of the loop keeps them. -/
theorem Counted.loopStep (h : Counted cfg p) (hp : Inv cfg p) (hw : p.workers[i]? = some w)
    (htasks : w.tasks = []) (o : Outcome) : Counted cfg (p.loopStep cfg i w o) := by
  unfold Pool.loopStep
  cases hloop : w.loop with
  | maintain =>
    refine h.regroup hw ?_ (by simp [Worker.done, htasks]) rfl
    cases cfg.dispatch <;> simp [Worker.unreleased, Worker.held, hloop, Loop.jobs]
  | swap =>
    refine h.regroup hw ?_ (by simp [Worker.done, htasks]) rfl
    simp [Worker.unreleased, Worker.held, hloop, Loop.jobs]
  | scan saves batch =>
    cases batch with
    | nil =>
      refine h.regroup hw ?_ (by simp [Worker.done, Task.done]) rfl
      simp [Worker.unreleased, Worker.held, htasks, hloop, Loop.jobs, Task.held, Task.pending]
    | cons j batch =>
      obtain ⟨-, hh, -, hq⟩ := Worker.handOver_pending cfg p.now j saves
        (.scan · batch) batch (fun _ => rfl) htasks
      obtain ⟨hdone, hdepth⟩ := Worker.handOver_done cfg p.now j saves (.scan · batch) htasks
      refine h.regroup hw ?_ hdone hdepth
      rw [Worker.unreleased, hh, hq]
      simp [Worker.unreleased, Worker.held, htasks, hloop, Loop.jobs]
  | take saves =>
    obtain ⟨found, shared, htake⟩ : ∃ found shared, p.shared.take = (found, shared) := ⟨_, _, rfl⟩
    rw [htake]
    have hdepth := RequestDispatcher.depth_takeFrom htake
    cases found with
    | none =>
      have hsame := RequestDispatcher.takeFrom_none htake
      have hunreleased :
          Worker.unreleased { w with tasks := [.flushSaves saves], loop := .maintain } =
            w.unreleased := by
        simp [Worker.unreleased, Worker.held, htasks, hloop, Loop.jobs, Task.held, Task.pending]
      refine h.update [] [] hw rfl rfl (by simp [setWorker]) (by simp [setWorker])
        (fun key q => ?_) (List.nil_subset _) (by simp [Worker.done, Task.done]) (fun _ => ?_)
        (fun _ => hdepth)
      · rw [hunreleased, (hsame key).1, tally_nil, Nat.zero_add]
      · simp [hunreleased]
    | some j =>
      obtain ⟨-, -, hfront, hrest⟩ := RequestDispatcher.takeFrom_some hp.waiting_key htake
      obtain ⟨-, hh, -, hq⟩ := Worker.handOver_pending cfg p.now j saves
        Loop.take [] (fun _ => by simp [Loop.jobs]) htasks
      obtain ⟨hdone, -⟩ := Worker.handOver_done cfg p.now j saves .take htasks
      refine h.update [] [] hw rfl rfl (by simp [setWorker]) (by simp [setWorker])
        (fun key q => ?_) (List.nil_subset _) (by simp [hdone]) (fun hd => ?_) (fun _ => hdepth)
      · have hold : w.unreleased = saves ++ w.queue := by
          simp [Worker.unreleased, Worker.held, htasks, hloop, Loop.jobs]
        have hnew : tally key q (w.handOver cfg p.now j saves .take).unreleased =
            tally key q w.unreleased + tally key q [j] := by
          rw [Worker.unreleased, hh, hq, hold, List.append_assoc, List.cons_append,
            List.nil_append, tally_append, tally_cons, tally_append]
          omega
        by_cases hk : key = j.key
        · subst hk
          rw [hnew, hfront, tally_cons, tally_nil]
          dsimp only
          omega
        · rw [hnew, tally_of_key_ne q (Ne.symm hk), tally_nil]
          simp only [(hrest key hk).1]
          omega
      · simp [hp.waiting_static hd] at hfront

/-- The dispatcher takes a request in and counts it. -/
theorem Counted.push (h : Counted cfg p) (hd : cfg.dispatch = .dynamic) {j : Job τ}
    {shared : RequestDispatcher τ}
    (hpush : p.shared.push (kMaxQueuePerWorker * p.workers.length) j = some shared) :
    Counted cfg { p with shared, accepted := p.accepted ++ [j] } := by
  have hsame := RequestDispatcher.push_eq_some hpush
  obtain ⟨hroom, hdepth, -, -⟩ := RequestDispatcher.push_spec hpush
  refine ⟨fun key q => ?_, h.done_answered, h.released_answered, by simp [hd], fun _ => ?_⟩
  · have hsum := h.conserved key q
    simp only [tally_append, (hsame key).1]
    by_cases hk : key = j.key
    · rw [if_pos hk, tally_append]
      omega
    · rw [if_neg hk, tally_of_key_ne q (Ne.symm hk)]
      omega
  · have htotal := (h.dynamic hd).1
    simp only [List.length_append, List.length_singleton, hdepth]
    exact ⟨by omega, hroom⟩

/-- A static worker's queue takes a request in, and its counter counts it. -/
theorem Counted.enqueue (h : Counted cfg p) (hd : cfg.dispatch = .static) (j : Job τ)
    (hw : p.workers[i]? = some w) (hroom : w.depth < kMaxQueuePerWorker) :
    Counted cfg { p.setWorker i { w with queue := w.queue ++ [j], depth := w.depth + 1 } with
      accepted := p.accepted ++ [j] } := by
  have hmem := List.mem_of_getElem? hw
  have hlonger : Worker.unreleased { w with queue := w.queue ++ [j], depth := w.depth + 1 } =
      w.unreleased ++ [j] := by
    simp [Worker.unreleased, Worker.held]
  refine ⟨fun key q => ?_, fun v hv => ?_, h.released_answered, fun _ v hv => ?_, by simp [hd]⟩
  · have hsum := h.conserved key q
    have hset := sum_map_set (fun w : Worker τ => tally key q w.unreleased) hw
      { w with queue := w.queue ++ [j], depth := w.depth + 1 }
    rw [hlonger, tally_append] at hset
    simp only [setWorker, tally_append]
    omega
  · rcases List.mem_or_eq_of_mem_set hv with hv | rfl
    · exact h.done_answered v hv
    · exact h.done_answered w hmem
  · rcases List.mem_or_eq_of_mem_set hv with hv | rfl
    · exact h.static hd v hv
    · rw [hlonger, List.length_append, List.length_singleton, ← (h.static hd w hmem).1]
      exact ⟨rfl, hroom⟩

/-- A request that is accepted is counted, one that is refused is not. -/
theorem Counted.submit (h : Counted cfg p) (req : Request) (tag : τ) :
    Counted cfg (p.submit cfg req tag).2 := by
  unfold Pool.submit
  split
  · exact h
  dsimp only
  split
  · rename_i hd
    split
    · exact h
    · rename_i shared hpush
      exact h.push hd hpush
  · rename_i hd
    split
    · exact h
    · rename_i w hw
      split
      · exact h
      · rename_i hroom
        exact h.enqueue hd _ hw (by omega)

/-- The counters are zero before the first request. -/
theorem counted_fresh (cfg : PoolConfig) : Counted cfg (fresh cfg : Pool τ) := by
  have hfresh : ∀ w ∈ (fresh cfg : Pool τ).workers, w = .fresh := fun _ hw =>
    List.eq_of_mem_replicate hw
  have hnone : (Worker.fresh : Worker τ).unreleased = [] := rfl
  refine ⟨fun key q => ?_, fun w hw => ?_, List.nil_subset _, fun _ w hw => ?_,
    fun _ => ⟨rfl, Nat.zero_le _⟩⟩
  · simp [fresh, hnone, RequestDispatcher.waiting, RequestDispatcher.empty]
  · rw [hfresh w hw]
    exact List.nil_subset _
  · rw [hfresh w hw]
    exact ⟨rfl, Nat.zero_le _⟩

/-- The counters are right in every state that is reached. -/
theorem counted_of_reaches (h : (workerPool τ cfg).Reaches p) : Counted cfg p := by
  have hboth : Inv cfg p ∧ Counted cfg p := by
    refine Machine.Reaches.invariant (I := fun p => Inv cfg p ∧ Counted cfg p) ?_ ?_ h
    · rintro p rfl
      exact ⟨inv_fresh cfg, counted_fresh cfg⟩
    · rintro p a p' ⟨hp, hc⟩ hstep
      refine ⟨hp.step hstep, ?_⟩
      cases a with
      | submit req tag =>
        obtain rfl := Option.some.inj hstep
        exact hc.submit req tag
      | work i o =>
        obtain ⟨w, hw, ⟨htasks, rfl⟩ | ⟨t, rest, usable, new, eff, htasks, hex, rfl⟩⟩ :=
          work_cases hstep
        · exact hc.loopStep hp hw htasks o
        · exact hc.task hp hw htasks hex
      | tick us =>
        obtain rfl := Option.some.inj hstep
        exact { hc with }
      | drain =>
        obtain rfl := Option.some.inj hstep
        exact { hc with }
  exact hboth.2

/-- Under static dispatch every accepted request has been released or a worker has it. -/
theorem Counted.perm_static (h : Counted cfg p) (hp : Inv cfg p) (hd : cfg.dispatch = .static) :
    (p.released ++ p.workers.flatMap Worker.unreleased).Perm p.accepted := by
  classical
  refine List.perm_iff_count.mpr fun j => ?_
  have hsum := h.conserved j.key (· == j)
  rw [hp.waiting_static hd, tally_nil, Nat.add_zero] at hsum
  simp only [← count_eq_tally] at hsum
  rw [List.count_append, List.count_flatMap, hsum]
  rfl

/-- The counters that `queued` adds up count the accepted requests that are not released. -/
theorem Counted.sum_counters (h : Counted cfg p) (hp : Inv cfg p) :
    (p.counters cfg).sum + p.released.length = p.accepted.length := by
  unfold counters
  cases hd : cfg.dispatch with
  | dynamic =>
    have htotal := (h.dynamic hd).1
    simpa using htotal
  | static =>
    have hdepth : p.workers.map Worker.depth =
        p.workers.map fun w => w.unreleased.length :=
      List.map_congr_left fun w hw => (h.static hd w hw).1
    have hlen := (h.perm_static hp hd).length_eq
    rw [List.length_append, List.length_flatMap] at hlen
    dsimp only
    rw [hdepth]
    omega

/-- No request is accepted twice. -/
theorem Inv.accepted_nodup (hp : Inv cfg p) : p.accepted.Nodup :=
  List.Nodup.of_map Job.seq (by rw [hp.seqs]; exact List.nodup_range)

/-- A request is answered once. -/
theorem Inv.answered_nodup (hp : Inv cfg p) : (p.responded.map Prod.fst).Nodup := by
  classical
  refine List.nodup_iff_count_le_one.mpr fun j => ?_
  obtain ⟨i, -, hline⟩ := hp.lines j.key
  have hon : ∀ l : List (Job τ), (onKey j.key l).count j = l.count j := fun l =>
    List.count_filter (by simp)
  calc (p.responded.map Prod.fst).count j
      = (onKey j.key (p.responded.map Prod.fst)).count j := (hon _).symm
    _ ≤ (onKey j.key p.accepted).count j := by
        rw [hline.accepted_eq, List.append_assoc]
        exact List.Sublist.count_le j (List.sublist_append_left ..)
    _ = p.accepted.count j := hon _
    _ ≤ 1 := List.nodup_iff_count_le_one.mp hp.accepted_nodup j

/-- When `queued` is zero, what has been answered is what has been accepted. -/
theorem Counted.perm_answered (h : Counted cfg p) (hp : Inv cfg p)
    (hzero : (p.counters cfg).sum = 0) : (p.responded.map Prod.fst).Perm p.accepted := by
  have hsum := h.sum_counters hp
  have hreleased := h.released_subperm.perm_of_length_le (by omega)
  have haccepted : p.accepted ⊆ p.responded.map Prod.fst := fun j hj =>
    h.released_answered (hreleased.mem_iff.mpr hj)
  have hanswered : p.responded.map Prod.fst ⊆ p.accepted := fun j hj => by
    obtain ⟨r, hr, rfl⟩ := List.mem_map.mp hj
    exact hp.mem_of_responded hr
  exact (hp.answered_nodup.subperm hanswered).antisymm (hp.accepted_nodup.subperm haccepted)

/-! ## While the pool drains -/

/-- `finish` does not raise the depth. -/
theorem depth_finish_le (key : Bytes) (d : RequestDispatcher τ) :
    (d.finish key).depth ≤ d.depth := by
  unfold RequestDispatcher.finish
  split
  · exact le_rfl
  · dsimp only
    split <;> exact Nat.sub_le ..

/-- A counter that is zero stays so. -/
def KeepsZeros (cfg : PoolConfig) (p p' : Pool τ) : Prop :=
  (p'.counters cfg).length = (p.counters cfg).length ∧
    ∀ k : ℕ, (p.counters cfg)[k]? = some 0 → (p'.counters cfg)[k]? = some 0

/-- A worker that does not count more keeps the zeros. -/
theorem keepsZeros_of_set (hw : p.workers[i]? = some w) (hworkers : p'.workers = p.workers.set i w')
    (hdepth : w'.depth ≤ w.depth) (hshared : p'.shared.depth ≤ p.shared.depth) :
    KeepsZeros cfg p p' := by
  unfold KeepsZeros counters
  cases cfg.dispatch with
  | static =>
    refine ⟨by simp [hworkers], fun k hk => ?_⟩
    dsimp only at hk ⊢
    rw [hworkers, List.map_set]
    by_cases hik : i = k
    · subst hik
      rw [List.getElem?_map, hw] at hk
      obtain hzero : w.depth = 0 := by simpa using hk
      have hlt := (List.getElem?_eq_some_iff.mp hw).1
      simp [hlt]
      omega
    · rwa [List.getElem?_set_ne hik]
  | dynamic =>
    refine ⟨rfl, fun k hk => ?_⟩
    cases k with
    | zero =>
      simp only [List.getElem?_cons_zero, Option.some.injEq] at hk ⊢
      omega
    | succ k => simp at hk

/-- Work neither accepts a request nor raises a depth from zero. -/
theorem keepsZeros_work {o : Outcome} (h : p.work cfg i o = some p') :
    KeepsZeros cfg p p' ∧ p'.accepted = p.accepted ∧ p'.draining = p.draining := by
  obtain ⟨w, hw, ⟨htasks, rfl⟩ | ⟨t, rest, usable, new, eff, -, -, rfl⟩⟩ := work_cases h
  · unfold Pool.loopStep
    split
    · exact ⟨keepsZeros_of_set hw rfl le_rfl le_rfl, rfl, rfl⟩
    · exact ⟨keepsZeros_of_set hw rfl le_rfl le_rfl, rfl, rfl⟩
    · exact ⟨keepsZeros_of_set hw rfl le_rfl le_rfl, rfl, rfl⟩
    · exact ⟨keepsZeros_of_set hw rfl (Worker.handOver_done _ _ _ _ _ htasks).2.le le_rfl, rfl, rfl⟩
    · split
      · rename_i htake
        exact ⟨keepsZeros_of_set hw rfl le_rfl (RequestDispatcher.depth_takeFrom htake).le, rfl, rfl⟩
      · rename_i htake
        exact ⟨keepsZeros_of_set hw rfl (Worker.handOver_done _ _ _ _ _ htasks).2.le
          (RequestDispatcher.depth_takeFrom htake).le, rfl, rfl⟩
  · cases eff with
    | release j =>
      simp only [apply]
      split
      · exact ⟨keepsZeros_of_set hw rfl (Nat.sub_le ..) le_rfl, rfl, rfl⟩
      · exact ⟨keepsZeros_of_set hw rfl le_rfl (depth_finish_le ..), rfl, rfl⟩
    | _ => exact ⟨keepsZeros_of_set hw rfl le_rfl le_rfl, rfl, rfl⟩

/-- A pool that drains takes nothing in, and what it has worked off stays so. -/
theorem keepsZeros_step {a : PoolStep τ} (h : (workerPool τ cfg).step p a = some p')
    (hdrain : p.draining = true) :
    KeepsZeros cfg p p' ∧ p'.accepted = p.accepted ∧ p'.draining = true := by
  cases a with
  | submit req tag =>
    obtain rfl := Option.some.inj h
    have hsame : (p.submit cfg req tag).2 = p := by simp [submit, hdrain]
    rw [hsame]
    exact ⟨⟨rfl, fun _ hk => hk⟩, rfl, hdrain⟩
  | work i o =>
    obtain ⟨hzeros, hacc, hsame⟩ := keepsZeros_work h
    exact ⟨hzeros, hacc, hsame.trans hdrain⟩
  | tick us =>
    obtain rfl := Option.some.inj h
    exact ⟨⟨rfl, fun _ hk => hk⟩, rfl, hdrain⟩
  | drain =>
    obtain rfl := Option.some.inj h
    exact ⟨⟨rfl, fun _ hk => hk⟩, rfl, rfl⟩

end Pool

/-- In every run of the pool before `stop` : `queued` is the number of accepted requests that
are not released; a request is released once, after its response; a release never lowers a
counter that is zero; the counters are bounded; and when `queued` is zero every accepted request
has been answered. -/
theorem queue_accounting {cfg : PoolConfig} {p : Pool τ} (h : (workerPool τ cfg).Reaches p) :
    (p.counters cfg).sum + p.released.length = p.accepted.length ∧
      (p.accepted.map Job.seq).Nodup ∧ p.released.Subperm p.accepted ∧
      (∀ j ∈ p.released, j ∈ p.responded.map Prod.fst) ∧
      (∀ (i : ℕ) (w : Worker τ) (j : Job τ) (rest : List (Task τ)), p.workers[i]? = some w →
        w.tasks = .release j :: rest →
          j ∈ p.responded.map Prod.fst ∧ (cfg.dispatch = .static → 0 < w.depth) ∧
            (cfg.dispatch = .dynamic → 0 < p.shared.depth)) ∧
      (cfg.dispatch = .static → ∀ w ∈ p.workers, w.depth ≤ kMaxQueuePerWorker) ∧
      (cfg.dispatch = .dynamic → p.shared.depth ≤ kMaxQueuePerWorker * p.workers.length) ∧
      ((p.counters cfg).sum = 0 → ∀ j ∈ p.accepted, j ∈ p.responded.map Prod.fst) := by
  have hp := Pool.inv_of_reaches h
  have hc := Pool.counted_of_reaches h
  refine ⟨hc.sum_counters hp, ?_, hc.released_subperm, fun j hj => hc.released_answered hj, ?_,
    fun hd w hw => (hc.static hd w hw).2, fun hd => (hc.dynamic hd).2, ?_⟩
  · rw [hp.seqs]
    exact List.nodup_range
  · intro i w j rest hw htasks
    have hheld : [j] <+: w.held := by
      simp only [Worker.held, htasks, List.flatMap_cons, Task.held, List.append_assoc]
      exact List.prefix_append _ _
    obtain ⟨hstatic, hdynamic⟩ := hc.released_le hw hheld
    refine ⟨hc.done_answered w (List.mem_of_getElem? hw) ?_, hstatic, hdynamic⟩
    simp [Worker.done, htasks, Task.done]
  · intro hzero j hj
    have hsum := hc.sum_counters hp
    have hperm := hc.released_subperm.perm_of_length_le (by omega)
    exact hc.released_answered (hperm.mem_iff.mpr hj)

/-- Two Saves of one batch and a History behind them under static dispatch : the batch is
answered and one of it is released. -/
theorem queue_accounting_batch : ∃ p : Pool Unit, p.accepted.length = 3 ∧ p.responded.length = 2 ∧
    p.released.length = 1 ∧ (p.counters ⟨1, .static, 2, fun _ => 0⟩).sum + 1 = 3 := by
  obtain ⟨p, hp, htest⟩ := (workerPool Unit ⟨1, .static, 2, fun _ => 0⟩).exists_reachesWhen
    (fun _ _ => True) (.fresh _)
    (.submit (sampleRequest .save [1]) () :: .submit (sampleRequest .save [2]) () ::
      .submit (sampleRequest .history [1]) () :: workSteps 0 16)
    (fun p => p.accepted.length = 3 ∧ p.responded.length = 2 ∧ p.released.length = 1) rfl
    (by decide +kernel)
  obtain ⟨hacc, hresp, hrel⟩ := of_decide_eq_true htest
  have hsum := (queue_accounting hp).1
  rw [hacc, hrel] at hsum
  exact ⟨p, hacc, hresp, hrel, hsum⟩

end EchoServer
