import EchoServer.Db.QueueCounters

/-!
# Deadlines

A request with a deadline is looked at when a worker takes it up (`batchable`) and when it
processes it (`handle`). `DeadlineRun` records for each worker when its last database call
returned, and the requests that a query was started for although that call had returned after
their deadline.

A single query follows the look in `handle` with no call in between, and is never overdue. An
insert of a batch follows `begin_batch` or the insert before it, and a retry follows the
reconnect, and nobody looks again : `Timely` says that such a call returns in time for the query
behind it. Then no query is overdue (`no_query_after_deadline`); and where it does not, the
worker's next step starts one.
-/

namespace EchoServer

variable {τ : Type*}

/-- The deadline of a request stays passed. -/
theorem Request.late_mono {req : Request} {now later : ℕ} (hle : now ≤ later)
    (h : req.late later = false) : req.late now = false := by
  simp only [Request.late, Bool.and_eq_false_iff, decide_eq_false_iff_not] at h ⊢
  omega

namespace Task

/-- The task is the return of a database call. -/
def returns : Task τ → Bool
  | queried _ _ | reconnect _ | beginBatch _ | inserted _ _ | commitBatch _ _ | rollbackBatch _ =>
    true
  | _ => false

/-- A call that is followed by a query returns before the deadline of that query's request. -/
def Timely (now : ℕ) (o : Outcome) : Task τ → Prop
  | beginBatch saves => o.ok = true → ∀ j ∈ saves.head?, j.req.late now = false
  | inserted saves logIds =>
    o.ok = true → ∀ j ∈ saves[logIds.length + 1]?, j.req.late now = false
  | reconnect j => o.ok = true → j.req.late now = false
  | _ => True

instance (now : ℕ) (o : Outcome) (t : Task τ) : Decidable (t.Timely now o) := by
  cases t <;> unfold Timely <;> infer_instance

end Task

namespace Worker

/-- The worker's next step is the return of a database call. -/
def returns (w : Worker τ) : Bool :=
  match w.tasks, w.loop with
  | t :: _, _ => t.returns
  | [], .maintain => true
  | [], _ => false

end Worker

/-- The pool, with the times at which its database calls returned. -/
structure DeadlineRun (τ : Type*) where
  pool : Pool τ
  /-- When the last database call of each worker returned. -/
  returned : ℕ → ℕ
  /-- The requests with a query that was started after such a return past their deadline. -/
  overdue : List (Job τ)

/-- The pool, with a record of when database calls return and what is started after that. -/
def deadlineRuns (τ : Type*) (cfg : PoolConfig) : Machine (DeadlineRun τ) (PoolStep τ) where
  init r := r = ⟨.fresh cfg, fun _ => 0, []⟩
  step r a := ((workerPool τ cfg).step r.pool a).map fun pool =>
    match a with
    | .work i _ =>
      { pool
        returned :=
          if ((r.pool.workers[i]?).map Worker.returns).getD false then
            Function.update r.returned i r.pool.now
          else r.returned
        overdue := r.overdue ++ (pool.executed.drop r.pool.executed.length).filter
          fun j => j.req.late (r.returned i) }
    | _ => { r with pool }

/-- A step that ends a call ends it in time for the query behind it. -/
def Timely (r : DeadlineRun τ) : PoolStep τ → Prop
  | .work i o => ∀ w ∈ r.pool.workers[i]?, ∀ t ∈ w.tasks.head?, t.Timely r.pool.now o
  | _ => True

instance (r : DeadlineRun τ) (a : PoolStep τ) : Decidable (Timely r a) := by
  cases a <;> unfold Timely <;> infer_instance

namespace Task

/-- A task that stands behind another one. -/
def parked : Task τ → Bool
  | flushSaves _ | process _ | release _ => true
  | _ => false

/-- The query that the task may go on to is not overdue if the last call returned at `last`. -/
def Ready (last : ℕ) : Task τ → Prop
  | checkUsable j | query j _ => j.req.late last = false
  | insert saves logIds => ∀ j ∈ saves[logIds.length]?, j.req.late last = false
  | _ => True

/-- A request that is to be answered with success is among those a query was started for. -/
def Backed (started : List (Job τ)) : Task τ → Prop
  | respond j res => res.status = .ok → j ∈ started
  | queried j _ => j ∈ started
  | insert saves logIds => ∀ j ∈ saves.take logIds.length, j ∈ started
  | inserted saves logIds => ∀ j ∈ saves.take (logIds.length + 1), j ∈ started
  | commitBatch saves _ => ∀ j ∈ saves, j ∈ started
  | respondBatch _ todo => ∀ x ∈ todo, x.2.status = .ok → x.1 ∈ started
  | _ => True

variable {now last : ℕ} {usable usable' : Bool} {o : Outcome} {t : Task τ} {new : List (Task τ)}
  {eff : Effect τ} {started : List (Job τ)}

/-- What stands behind another task goes on to no query by itself. -/
theorem ready_of_parked (h : t.parked = true) (last : ℕ) : t.Ready last := by
  cases t <;> trivial

/-- And answers nothing with success by itself. -/
theorem backed_of_parked (h : t.parked = true) (started : List (Job τ)) : t.Backed started := by
  cases t <;> trivial

/-- A query that was started stays started. -/
theorem Backed.mono {later : List (Job τ)} (h : t.Backed started) (hsub : started ⊆ later) :
    t.Backed later := by
  cases t <;> first | trivial | skip
  · exact hsub h
  · exact fun hok => hsub (h hok)
  · exact fun j hj => hsub (h j hj)
  · exact fun j hj => hsub (h j hj)
  · exact fun j hj => hsub (h j hj)
  · exact fun x hx hok => hsub (h x hx hok)

/-- A call that is timely leaves its worker with nothing that may come too late. -/
theorem ready_exec (h : t.exec now usable o = (usable', new, eff)) (hlast : last ≤ now)
    (hready : t.Ready last) (htimely : t.Timely now o) :
    ∀ t' ∈ new, t'.Ready (if t.returns then now else last) := by
  cases t with
  | process j =>
    simp only [exec] at h
    split at h <;> cases h
    · simp [Ready]
    · rename_i hlate
      simpa [Ready, returns] using Request.late_mono hlast (by simpa using hlate)
  | checkUsable j =>
    simp only [exec] at h
    split at h <;> cases h
    · simpa [Ready, returns] using hready
    · simp [Ready]
  | reconnect j =>
    cases h
    intro t' ht'
    obtain rfl := List.mem_singleton.mp ht'
    by_cases hok : o.ok = true
    · simpa [hok, Ready, returns] using htimely hok
    · simp [hok, Ready]
  | beginBatch saves =>
    simp only [exec] at h
    split at h <;> cases h
    · rename_i hok
      simpa [Ready, returns, List.head?_eq_getElem?] using htimely hok
    · simp [Ready]
  | inserted saves logIds =>
    simp only [exec] at h
    split at h <;> cases h
    · rename_i hok
      simpa [Ready, returns] using htimely hok
    · simp [Ready]
  | _ =>
    simp only [exec] at h
    repeat' split at h
    all_goals cases h
    all_goals simp [Ready]

/-- A query that a task starts is not overdue. -/
theorem started_exec (h : t.exec now usable o = (usable', new, eff)) (hready : t.Ready last) :
    ∀ j ∈ eff.started, j.req.late last = false := by
  cases t with
  | query j retry =>
    cases h
    simpa [Effect.started, Ready] using hready
  | insert saves logIds =>
    simp only [exec] at h
    split at h <;> cases h
    · rename_i j hj
      simpa [Effect.started] using hready j hj
    · simp [Effect.started]
  | _ =>
    simp only [exec] at h
    repeat' split at h
    all_goals cases h
    all_goals simp [Effect.started]

/-- Only a request that a query was started for is answered with success. -/
theorem backed_exec (h : t.exec now usable o = (usable', new, eff)) (hbacked : t.Backed started) :
    (∀ t' ∈ new, t'.Backed (started ++ eff.started)) ∧
      ∀ x ∈ eff.responses, x.2.status = .ok → x.1 ∈ started := by
  have hfail : ∀ usable, failedStatus usable ≠ .ok := by
    intro usable
    cases usable <;> simp [failedStatus]
  have hsilent : ∀ x ∈ (Effect.none : Effect τ).responses, x.2.status = .ok → x.1 ∈ started :=
    List.forall_mem_nil _
  cases t with
  | query j retry =>
    cases h
    exact ⟨List.forall_mem_singleton.mpr (List.mem_append_right _ (List.mem_singleton_self j)),
      List.forall_mem_nil _⟩
  | queried j retry =>
    simp only [exec] at h
    repeat' split at h
    all_goals cases h
    · exact ⟨List.forall_mem_singleton.mpr fun _ => List.mem_append_left _ hbacked, hsilent⟩
    · exact ⟨List.forall_mem_singleton.mpr trivial, hsilent⟩
    · exact ⟨List.forall_mem_singleton.mpr trivial, hsilent⟩
  | insert saves logIds =>
    simp only [exec] at h
    split at h <;> cases h
    · rename_i j hj
      refine ⟨List.forall_mem_singleton.mpr fun j' hj' => ?_, List.forall_mem_nil _⟩
      rw [List.take_add_one, hj, Option.toList_some] at hj'
      exact List.mem_append.mpr ((List.mem_append.mp hj').imp_left (hbacked j'))
    · rename_i hnone
      refine ⟨List.forall_mem_singleton.mpr fun j hj => List.mem_append_left _ ?_, hsilent⟩
      rw [← List.take_of_length_le (List.getElem?_eq_none_iff.mp hnone)] at hj
      exact hbacked j hj
  | inserted saves logIds =>
    simp only [exec] at h
    split at h <;> cases h
    · refine ⟨List.forall_mem_singleton.mpr fun j hj => List.mem_append_left _ ?_, hsilent⟩
      rw [List.length_append, List.length_singleton] at hj
      exact hbacked j hj
    · exact ⟨List.forall_mem_singleton.mpr trivial, hsilent⟩
  | commitBatch saves logIds =>
    simp only [exec] at h
    split at h <;> cases h
    · refine ⟨List.forall_mem_singleton.mpr fun x hx _ => List.mem_append_left _ ?_, hsilent⟩
      have hmem : x.1 ∈ (Job.savedAll saves logIds).map Prod.fst := List.mem_map_of_mem hx
      rw [Job.map_fst_savedAll] at hmem
      exact hbacked x.1 hmem
    · exact ⟨List.forall_mem_singleton.mpr trivial, hsilent⟩
  | failBatch saves =>
    cases h
    refine ⟨List.forall_mem_singleton.mpr fun x hx hok => ?_, hsilent⟩
    obtain ⟨j, -, rfl⟩ := List.mem_map.mp hx
    exact absurd hok (hfail usable)
  | respond j res =>
    cases h
    exact ⟨List.forall_mem_singleton.mpr trivial, List.forall_mem_singleton.mpr hbacked⟩
  | respondBatch done todo =>
    simp only [exec] at h
    split at h <;> cases h
    · exact ⟨List.forall_mem_map.mpr fun _ _ => trivial, hsilent⟩
    · rename_i j res todo
      refine ⟨List.forall_mem_singleton.mpr fun x hx hok => List.mem_append_left _ ?_,
        List.forall_mem_singleton.mpr (hbacked (j, res) (List.mem_cons_self ..))⟩
      exact hbacked x (List.mem_cons_of_mem _ hx) hok
  | _ =>
    simp only [exec] at h
    repeat' split at h
    all_goals cases h
    all_goals simp only [Backed, Effect.responses, Job.failure, hfail, List.mem_singleton,
      List.not_mem_nil, List.length_nil, List.take_zero, forall_eq, reduceCtorEq, false_imp_iff,
      implies_true, and_self]

/-- What stands behind the first of the tasks that a task expands to. -/
theorem parked_exec (h : t.exec now usable o = (usable', new, eff)) :
    ∀ t' ∈ new.tail, t'.parked = true := by
  cases t with
  | respondBatch done todo =>
    simp only [exec] at h
    split at h <;> cases h
    · intro t' ht'
      obtain ⟨j, -, rfl⟩ := List.mem_map.mp (List.mem_of_mem_tail ht')
      rfl
    · simp
  | _ =>
    simp only [exec] at h
    repeat' split at h
    all_goals cases h
    all_goals simp

/-- Whatever happens meanwhile, the next step of the task starts a query for `j`. -/
def Starts (t : Task τ) (j : Job τ) : Prop :=
  ∀ now usable o, ∃ t', t.exec now usable o = (usable, [t'], .execute j)

/-- A call that is not timely is followed by the query that comes too late. -/
theorem late_exec (h : t.exec now usable o = (usable', new, eff)) (hnot : ¬t.Timely now o) :
    t.returns = true ∧ ∃ t' j, new = [t'] ∧ j.req.late now = true ∧ t'.Starts j := by
  cases t with
  | reconnect j =>
    simp only [Timely, Classical.not_imp, Bool.not_eq_false] at hnot
    cases h
    exact ⟨rfl, .query j true, j, by simp [hnot.1], hnot.2, fun _ _ _ => ⟨_, rfl⟩⟩
  | beginBatch saves =>
    simp only [Timely, Classical.not_imp, not_forall, Bool.not_eq_false] at hnot
    obtain ⟨hok, j, hj, hlate⟩ := hnot
    simp only [exec, hok, if_true] at h
    cases h
    refine ⟨rfl, .insert saves [], j, rfl, hlate, fun _ _ _ => ⟨.inserted saves [], ?_⟩⟩
    have hfirst : saves[0]? = some j := by rwa [← List.head?_eq_getElem?]
    simp [exec, hfirst]
  | inserted saves logIds =>
    simp only [Timely, Classical.not_imp, not_forall, Bool.not_eq_false] at hnot
    obtain ⟨hok, j, hj, hlate⟩ := hnot
    simp only [exec, hok, if_true] at h
    cases h
    refine ⟨rfl, .insert saves (logIds ++ [o.logId]), j, rfl, hlate,
      fun _ _ _ => ⟨.inserted saves (logIds ++ [o.logId]), ?_⟩⟩
    have hnext : saves[(logIds ++ [o.logId]).length]? = some j := by simpa using hj
    simp only [exec, hnext]
  | _ => exact absurd trivial hnot

end Task

namespace Worker

/-- What stands behind the first task cannot go on to a query by itself, and the first one goes
on only to queries that are not overdue. -/
structure OnTime (last : ℕ) (started : List (Job τ)) (w : Worker τ) : Prop where
  ready : ∀ t ∈ w.tasks, t.Ready last
  backed : ∀ t ∈ w.tasks, t.Backed started
  parked : ∀ t ∈ w.tasks.tail, t.parked = true

variable {last now : ℕ} {started later : List (Job τ)} {w w' : Worker τ}

/-- A worker whose tasks all stand behind others is in time. -/
theorem OnTime.of_parked (h : ∀ t ∈ w.tasks, t.parked = true) : w.OnTime last started :=
  ⟨fun t ht => Task.ready_of_parked (h t ht) last,
    fun t ht => Task.backed_of_parked (h t ht) started,
    fun t ht => h t (List.mem_of_mem_tail ht)⟩

theorem OnTime.mono (h : w.OnTime last started) (hsub : started ⊆ later)
    (htasks : w'.tasks = w.tasks) : w'.OnTime last later :=
  ⟨htasks ▸ h.ready, htasks ▸ fun t ht => (h.backed t ht).mono hsub, htasks ▸ h.parked⟩

/-- Executing the first task keeps the worker in time. -/
theorem OnTime.exec (h : w.OnTime last started) {t : Task τ} {rest new : List (Task τ)}
    (htasks : w.tasks = t :: rest) {usable usable' : Bool} {o : Outcome} {eff : Effect τ}
    (hex : t.exec now usable o = (usable', new, eff)) (hlast : last ≤ now)
    (htimely : t.Timely now o) (htasks' : w'.tasks = new ++ rest) :
    w'.OnTime (if t.returns then now else last) (started ++ eff.started) := by
  have hmem : t ∈ w.tasks := by simp [htasks]
  have hrest : ∀ t' ∈ rest, t'.parked = true := by simpa [htasks] using h.parked
  refine ⟨fun t' ht' => ?_, fun t' ht' => ?_, fun t' ht' => ?_⟩
  · rcases List.mem_append.mp (htasks' ▸ ht') with ht' | ht'
    · exact Task.ready_exec hex hlast (h.ready t hmem) htimely t' ht'
    · exact Task.ready_of_parked (hrest t' ht') _
  · rcases List.mem_append.mp (htasks' ▸ ht') with ht' | ht'
    · exact (Task.backed_exec hex (h.backed t hmem)).1 t' ht'
    · exact Task.backed_of_parked (hrest t' ht') _
  · rw [htasks'] at ht'
    rcases new with _ | ⟨first, new⟩
    · exact hrest t' (List.mem_of_mem_tail ht')
    · rcases List.mem_append.mp ht' with ht' | ht'
      · exact Task.parked_exec hex t' ht'
      · exact hrest t' ht'

/-- The tasks that the loop hands over go on to no query by themselves. -/
theorem handOver_parked (cfg : PoolConfig) (j : Job τ) (saves : List (Job τ))
    (next : List (Job τ) → Loop τ) (hw : w.tasks = []) :
    ∀ t ∈ (w.handOver cfg now j saves next).tasks, t.parked = true := by
  unfold handOver
  dsimp only
  split_ifs <;> simp [Task.parked, hw]

end Worker

namespace Pool

variable {w : Worker τ}

/-- The loop leaves its worker with nothing that can go on to a query by itself. -/
theorem loopStep_parked (cfg : PoolConfig) (i : ℕ) (p : Pool τ) (o : Outcome)
    (htasks : w.tasks = []) :
    ∃ w', (p.loopStep cfg i w o).workers = p.workers.set i w' ∧
      (∀ t ∈ w'.tasks, t.parked = true) ∧ (p.loopStep cfg i w o).executed = p.executed ∧
      (p.loopStep cfg i w o).responded = p.responded ∧ (p.loopStep cfg i w o).now = p.now := by
  unfold loopStep
  cases w.loop with
  | maintain => exact ⟨_, rfl, by simp [htasks], rfl, rfl, rfl⟩
  | swap => exact ⟨_, rfl, by simp [htasks], rfl, rfl, rfl⟩
  | scan saves batch =>
    rcases batch with _ | ⟨j, batch⟩
    · exact ⟨_, rfl, by simp [Task.parked], rfl, rfl, rfl⟩
    · exact ⟨_, rfl, w.handOver_parked cfg j saves _ htasks, rfl, rfl, rfl⟩
  | take saves =>
    obtain ⟨found, shared, htake⟩ : ∃ found shared, p.shared.take = (found, shared) := ⟨_, _, rfl⟩
    rw [htake]
    rcases found with _ | j
    · exact ⟨_, rfl, by simp [Task.parked], rfl, rfl, rfl⟩
    · exact ⟨_, rfl, w.handOver_parked cfg j saves _ htasks, rfl, rfl, rfl⟩

/-- The responses of a task are appended, and no time passes. -/
theorem apply_responded (cfg : PoolConfig) (i : ℕ) (w : Worker τ) (p : Pool τ) (eff : Effect τ) :
    (p.apply cfg i w eff).responded = p.responded ++ eff.responses ∧
      (p.apply cfg i w eff).now = p.now := by
  cases eff with
  | release j => cases hd : cfg.dispatch <;> simp [apply, hd, setWorker, Effect.responses]
  | _ => simp [apply, setWorker, Effect.responses]

/-- A submission gives no worker a task. -/
theorem submit_tasks (cfg : PoolConfig) (req : Request) (tag : τ) (p : Pool τ) :
    (p.submit cfg req tag).2.workers.map Worker.tasks = p.workers.map Worker.tasks ∧
      (p.submit cfg req tag).2.executed = p.executed ∧
      (p.submit cfg req tag).2.responded = p.responded ∧
      (p.submit cfg req tag).2.now = p.now := by
  unfold submit
  dsimp only
  split
  · exact ⟨rfl, rfl, rfl, rfl⟩
  · split
    · split <;> exact ⟨rfl, rfl, rfl, rfl⟩
    · split
      · exact ⟨rfl, rfl, rfl, rfl⟩
      · rename_i w hw
        split
        · exact ⟨rfl, rfl, rfl, rfl⟩
        · refine ⟨?_, rfl, rfl, rfl⟩
          obtain ⟨hlt, rfl⟩ := List.getElem?_eq_some_iff.mp hw
          have hlt' : cfg.shardOf req.sessionKey < (p.workers.map Worker.tasks).length := by
            simpa using hlt
          have hget : (p.workers.map Worker.tasks)[cfg.shardOf req.sessionKey] =
              p.workers[cfg.shardOf req.sessionKey].tasks := List.getElem_map ..
          rw [setWorker, List.map_set, ← hget, List.set_getElem_self]

end Pool

/-- The workers of two pools that have the same tasks. -/
theorem tasks_of_map_eq {ws ws' : List (Worker τ)} {i : ℕ} {w' : Worker τ}
    (hmap : ws'.map Worker.tasks = ws.map Worker.tasks) (hw' : ws'[i]? = some w') :
    ∃ w, ws[i]? = some w ∧ w.tasks = w'.tasks := by
  have hi : (ws.map Worker.tasks)[i]? = some w'.tasks := by
    rw [← hmap, List.getElem?_map, hw', Option.map_some]
  rw [List.getElem?_map] at hi
  exact Option.map_eq_some_iff.mp hi

namespace DeadlineRun

variable {cfg : PoolConfig} {r r' : DeadlineRun τ}

/-- No query is overdue, and no worker is about to start one that is. -/
structure OnTime (r : DeadlineRun τ) : Prop where
  none_overdue : r.overdue = []
  returned_le : ∀ i, r.returned i ≤ r.pool.now
  worker : ∀ (i : ℕ) (w : Worker τ), r.pool.workers[i]? = some w →
    w.OnTime (r.returned i) r.pool.executed
  answered : ∀ x ∈ r.pool.responded, x.2.status = .ok → x.1 ∈ r.pool.executed

/-- Before the first request no query is overdue. -/
theorem onTime_fresh (cfg : PoolConfig) :
    OnTime (⟨.fresh cfg, fun _ => 0, []⟩ : DeadlineRun τ) := by
  refine ⟨rfl, fun _ => Nat.zero_le _, fun i w hw => .of_parked ?_, by simp [Pool.fresh]⟩
  obtain rfl := List.eq_of_mem_replicate (List.mem_of_getElem? hw)
  simp [Worker.fresh]

/-- A step of worker `i`, which is then `w'`, and which starts queries for `es`. -/
theorem OnTime.update (h : r.OnTime) {i last : ℕ} {w w' : Worker τ} {es : List (Job τ)}
    (hw : r.pool.workers[i]? = some w) (hworkers : r'.pool.workers = r.pool.workers.set i w')
    (hnow : r'.pool.now = r.pool.now) (hexec : r'.pool.executed = r.pool.executed ++ es)
    (hreturned : r'.returned = Function.update r.returned i last) (hlast : last ≤ r.pool.now)
    (hoverdue : r'.overdue = []) (hw' : w'.OnTime last (r.pool.executed ++ es))
    (hanswered : ∀ x ∈ r'.pool.responded, x.2.status = .ok → x.1 ∈ r.pool.executed) :
    r'.OnTime := by
  have hlt : i < r.pool.workers.length := (List.getElem?_eq_some_iff.mp hw).1
  refine ⟨hoverdue, fun k => ?_, fun k v hv => ?_, fun x hx hok => ?_⟩
  · rw [hnow, hreturned, Function.update_apply]
    split_ifs
    · exact hlast
    · exact h.returned_le k
  · rw [hworkers] at hv
    rw [hexec, hreturned, Function.update_apply]
    split_ifs with hk
    · subst hk
      obtain rfl : w' = v := by simpa [hlt] using hv
      exact hw'
    · rw [List.getElem?_set_ne (Ne.symm hk)] at hv
      exact (h.worker k v hv).mono (List.subset_append_left _ _) rfl
  · rw [hexec]
    exact List.mem_append_left _ (hanswered x hx hok)

/-- The record follows the pool. -/
theorem pool_step {a : PoolStep τ} (hstep : (deadlineRuns τ cfg).step r a = some r') :
    (workerPool τ cfg).step r.pool a = some r'.pool := by
  obtain ⟨pool, hpool, rfl⟩ := Option.map_eq_some_iff.mp hstep
  cases a <;> exact hpool

/-- When the last call of a worker has returned, after its next step. -/
theorem returned_eq (r : DeadlineRun τ) {i : ℕ} {w : Worker τ} (hw : r.pool.workers[i]? = some w) :
    (if ((r.pool.workers[i]?).map Worker.returns).getD false then
        Function.update r.returned i r.pool.now else r.returned) =
      Function.update r.returned i (if w.returns then r.pool.now else r.returned i) := by
  rw [hw, Option.map_some, Option.getD_some]
  split_ifs <;> simp

/-- A timely step leaves no query overdue. -/
theorem OnTime.step (h : r.OnTime) {a : PoolStep τ} (ha : Timely r a)
    (hstep : (deadlineRuns τ cfg).step r a = some r') : r'.OnTime := by
  obtain ⟨pool, hpool, rfl⟩ := Option.map_eq_some_iff.mp hstep
  cases a with
  | submit req tag =>
    obtain rfl := Option.some.inj hpool
    obtain ⟨hworkers, hexec, hresp, hnow⟩ := r.pool.submit_tasks cfg req tag
    refine ⟨h.none_overdue, fun i => ?_, fun i w' hw' => ?_, ?_⟩
    · exact (h.returned_le i).trans_eq hnow.symm
    · obtain ⟨w, hw, htasks⟩ := tasks_of_map_eq hworkers hw'
      exact (h.worker i w hw).mono (fun j hj => hexec ▸ hj) htasks.symm
    · simpa only [hexec, hresp] using h.answered
  | tick us =>
    obtain rfl := Option.some.inj hpool
    exact { h with returned_le := fun i => (h.returned_le i).trans (Nat.le_add_right _ _) }
  | drain =>
    obtain rfl := Option.some.inj hpool
    exact { h with }
  | work i o =>
    obtain ⟨w, hw, ⟨htasks, rfl⟩ | ⟨t, rest, usable, new, eff, htasks, hex, rfl⟩⟩ :=
      Pool.work_cases hpool
    · obtain ⟨w', hworkers, hparked, hexec, hresp, hnow⟩ :=
        Pool.loopStep_parked cfg i r.pool o htasks
      have hnone : (r.pool.loopStep cfg i w o).executed = r.pool.executed ++ [] := by simp [hexec]
      refine h.update hw hworkers hnow hnone (r.returned_eq hw) ?_ ?_
        (.of_parked hparked) (by simpa only [hresp] using h.answered)
      · split_ifs
        · exact le_rfl
        · exact h.returned_le i
      · simp [hexec, h.none_overdue]
    · have hreturns : w.returns = t.returns := by simp [Worker.returns, htasks]
      have hmem : t ∈ w.tasks := by simp [htasks]
      have hon := h.worker i w hw
      obtain ⟨⟨w', hworkers, htasks', -⟩, -, -, -, -, hexec⟩ :=
        Pool.apply_spec cfg i { w with usable, tasks := new ++ rest } r.pool eff
      obtain ⟨hresp, hnow⟩ :=
        Pool.apply_responded cfg i { w with usable, tasks := new ++ rest } r.pool eff
      refine h.update hw hworkers hnow hexec (r.returned_eq hw) ?_ ?_ ?_ fun x hx => ?_
      · split_ifs
        · exact le_rfl
        · exact h.returned_le i
      · dsimp only
        rw [hexec, List.drop_left, h.none_overdue, List.nil_append, List.filter_eq_nil_iff]
        intro j hj
        simp [Task.started_exec hex (hon.ready t hmem) j hj]
      · rw [hreturns]
        exact hon.exec htasks hex (h.returned_le i)
          (ha w (by simp [hw]) t (by simp [htasks])) htasks'
      · rw [hresp] at hx
        rcases List.mem_append.mp hx with hx | hx
        · exact h.answered x hx
        · exact (Task.backed_exec hex (hon.backed t hmem)).2 x hx

/-! ## A call that is not timely -/

/-- Worker `i` is about to start a query that is overdue. -/
def Doomed (i : ℕ) (r : DeadlineRun τ) : Prop :=
  ∃ w t rest j, r.pool.workers[i]? = some w ∧ w.tasks = t :: rest ∧
    j.req.late (r.returned i) = true ∧ t.Starts j

/-- After a step that is not timely, the worker is about to start an overdue query. -/
theorem doomed_of_not_timely {i : ℕ} {o : Outcome} (hnot : ¬Timely r (.work i o))
    (hstep : (deadlineRuns τ cfg).step r (.work i o) = some r') : Doomed i r' := by
  obtain ⟨pool, hpool, rfl⟩ := Option.map_eq_some_iff.mp hstep
  obtain ⟨w, hw, ⟨htasks, rfl⟩ | ⟨t, rest, usable, new, eff, htasks, hex, rfl⟩⟩ :=
    Pool.work_cases hpool
  · exact absurd (by simp [Timely, hw, htasks]) hnot
  · have hlt : i < r.pool.workers.length := (List.getElem?_eq_some_iff.mp hw).1
    have hlate : ¬t.Timely r.pool.now o := fun ht => hnot (by simpa [Timely, hw, htasks] using ht)
    obtain ⟨hreturns, t', j, rfl, hj, hstarts⟩ := Task.late_exec hex hlate
    obtain ⟨⟨w', hworkers, htasks', -⟩, -⟩ :=
      Pool.apply_spec cfg i { w with usable, tasks := [t'] ++ rest } r.pool eff
    have hw' : (r.pool.workers.set i w')[i]? = some w' := by simp [hlt]
    refine ⟨w', t', rest, j, hworkers ▸ hw', htasks', ?_, hstarts⟩
    simpa [hw, Worker.returns, htasks, hreturns] using hj

/-- The other workers and the clock do not change that. -/
theorem Doomed.other {i : ℕ} (h : Doomed i r) {a : PoolStep τ} (ha : ∀ o, a ≠ .work i o)
    (hstep : (deadlineRuns τ cfg).step r a = some r') : Doomed i r' := by
  obtain ⟨w, t, rest, j, hw, htasks, hlate, hstarts⟩ := h
  obtain ⟨pool, hpool, rfl⟩ := Option.map_eq_some_iff.mp hstep
  cases a with
  | submit req tag =>
    obtain rfl := Option.some.inj hpool
    obtain ⟨w', hw', htasks'⟩ := tasks_of_map_eq (r.pool.submit_tasks cfg req tag).1.symm hw
    exact ⟨w', t, rest, j, hw', htasks'.trans htasks, hlate, hstarts⟩
  | tick us =>
    obtain rfl := Option.some.inj hpool
    exact ⟨w, t, rest, j, hw, htasks, hlate, hstarts⟩
  | drain =>
    obtain rfl := Option.some.inj hpool
    exact ⟨w, t, rest, j, hw, htasks, hlate, hstarts⟩
  | work k o =>
    have hk : k ≠ i := by
      rintro rfl
      exact ha o rfl
    have hset : ∃ v, pool.workers = r.pool.workers.set k v := by
      obtain ⟨v, -, ⟨htasks, rfl⟩ | ⟨t, rest, usable, new, eff, -, -, rfl⟩⟩ :=
        Pool.work_cases hpool
      · obtain ⟨w', hworkers, -⟩ := Pool.loopStep_parked cfg k r.pool o htasks
        exact ⟨w', hworkers⟩
      · obtain ⟨⟨w', hworkers, -⟩, -⟩ :=
          Pool.apply_spec cfg k { v with usable, tasks := new ++ rest } r.pool eff
        exact ⟨w', hworkers⟩
    obtain ⟨v, hworkers⟩ := hset
    refine ⟨w, t, rest, j, by rwa [hworkers, List.getElem?_set_ne hk], htasks, ?_, hstarts⟩
    dsimp only
    split_ifs
    · rwa [Function.update_of_ne (Ne.symm hk)]
    · exact hlate

/-- The worker's next step starts it. -/
theorem Doomed.overdue {i : ℕ} (h : Doomed i r) {o : Outcome}
    (hstep : (deadlineRuns τ cfg).step r (.work i o) = some r') : r'.overdue ≠ [] := by
  obtain ⟨w, t, rest, j, hw, htasks, hlate, hstarts⟩ := h
  obtain ⟨pool, hpool, rfl⟩ := Option.map_eq_some_iff.mp hstep
  obtain ⟨t', hex⟩ := hstarts r.pool.now w.usable o
  have hpool' : pool.executed = r.pool.executed ++ [j] := by
    simp only [workerPool, Pool.work, hw, htasks, hex] at hpool
    obtain rfl := Option.some.inj hpool
    rfl
  simp [hpool', hlate]

end DeadlineRun

/-- If every `begin_batch` and insert that succeeds returns before the deadline of the Save whose
insert follows, and every reconnect that succeeds before the deadline of the request that is tried
again, then in every run no query is started for a request after the worker's last call has
returned past its deadline; only a request with a query is answered with success, and once
nothing is queued every other one has an answer that says otherwise. A step that breaks the
condition is followed by a query that is overdue, whatever else happens before it. -/
theorem no_query_after_deadline {cfg : PoolConfig} {r : DeadlineRun τ}
    (h : (deadlineRuns τ cfg).ReachesWhen Timely r) :
    r.overdue = [] ∧ (∀ x ∈ r.pool.responded, x.2.status = .ok → x.1 ∈ r.pool.executed) ∧
      ((r.pool.counters cfg).sum = 0 → ∀ j ∈ r.pool.accepted, j ∉ r.pool.executed →
        ∃ res, (j, res) ∈ r.pool.responded ∧ res.status ≠ .ok) ∧
      ∀ (i : ℕ) (o o' : Outcome) (r₁ r₂ r₃ : DeadlineRun τ), ¬Timely r (.work i o) →
        (deadlineRuns τ cfg).step r (.work i o) = some r₁ →
        ((deadlineRuns τ cfg).onFrom r₁).ReachesWhen (fun _ a => ∀ o, a ≠ .work i o) r₂ →
        (deadlineRuns τ cfg).step r₂ (.work i o') = some r₃ → r₃.overdue ≠ [] := by
  have hon : r.OnTime := h.invariant (fun _ h0 => h0 ▸ DeadlineRun.onTime_fresh cfg)
    fun _ _ _ hr ha hstep => hr.step ha hstep
  have hpool : (workerPool τ cfg).Reaches r.pool := by
    refine h.invariant (I := fun r => (workerPool τ cfg).Reaches r.pool) ?_ ?_
    · rintro _ rfl
      exact .init rfl
    · intro s a s' hs _ hstep
      exact hs.step trivial (DeadlineRun.pool_step hstep)
  refine ⟨hon.none_overdue, hon.answered, fun hzero j hj hnone => ?_, ?_⟩
  · have hc := Pool.counted_of_reaches hpool
    have hsum := hc.sum_counters (Pool.inv_of_reaches hpool)
    have hperm := hc.released_subperm.perm_of_length_le (by omega)
    obtain ⟨⟨j', res⟩, hmem, rfl⟩ :=
      List.mem_map.mp (hc.released_answered (hperm.mem_iff.mpr hj))
    exact ⟨res, hmem, fun hok => hnone (hon.answered _ hmem hok)⟩
  · intro i o o' r₁ r₂ r₃ hnot hstep₁ hreach hstep₂
    have hdoomed : DeadlineRun.Doomed i r₂ := by
      refine Machine.ReachesWhen.invariant (M := (deadlineRuns τ cfg).onFrom r₁)
        (I := DeadlineRun.Doomed i) ?_ (fun s a s' hs ha hstep => ?_) hreach
      · rintro _ rfl
        exact DeadlineRun.doomed_of_not_timely hnot hstep₁
      · exact hs.other ha hstep
    exact hdoomed.overdue hstep₂

/-- A single static worker. -/
def soloConfig (batchSize : ℕ) : PoolConfig := ⟨1, .static, batchSize, fun _ => 0⟩

/-- A request with a deadline. -/
def urgentRequest (kind : RequestKind) (deadlineUs : ℕ) : Request :=
  { sampleRequest kind [1] with deadlineUs }

/-- A batch that is begun in time, and a History behind it that is not started. -/
theorem no_query_after_deadline_batch : ∃ r : DeadlineRun Unit, r.overdue = [] ∧
    r.pool.executed.length = 2 ∧ r.pool.responded.map (·.2.status) = [.ok, .ok, .expired] := by
  obtain ⟨r, hr, htest⟩ := (deadlineRuns Unit (soloConfig 2)).exists_reachesWhen
    Timely ⟨.fresh (soloConfig 2), fun _ => 0, []⟩
    (.submit (urgentRequest .save 10) () :: .submit (urgentRequest .save 10) () ::
      .submit (urgentRequest .history 3) () :: (workSteps 0 5 ++ .tick 5 :: workSteps 0 16))
    (fun r => r.pool.executed.length = 2 ∧
      r.pool.responded.map (·.2.status) = [.ok, .ok, .expired]) rfl (by decide +kernel)
  exact ⟨r, (no_query_after_deadline hr).1, of_decide_eq_true htest⟩

/-- A batch of two Saves, and a Counter that fails with the connection and is tried again, each
past its deadline. -/
theorem query_after_deadline :
    (∃ r : DeadlineRun Unit,
        (deadlineRuns Unit (soloConfig 2)).Reaches r ∧ r.overdue.length = 1) ∧
      ∃ r : DeadlineRun Unit,
        (deadlineRuns Unit (soloConfig 1)).Reaches r ∧ r.overdue.length = 1 := by
  constructor
  · obtain ⟨r, hr, htest⟩ := (deadlineRuns Unit (soloConfig 2)).exists_reachesWhen
      (fun _ _ => True) ⟨.fresh (soloConfig 2), fun _ => 0, []⟩
      (.submit (urgentRequest .save 10) () :: .submit (urgentRequest .save 10) () ::
        (workSteps 0 5 ++ .tick 20 :: workSteps 0 2))
      (fun r => r.overdue.length = 1) rfl (by decide +kernel)
    exact ⟨r, hr, of_decide_eq_true htest⟩
  · obtain ⟨r, hr, htest⟩ := (deadlineRuns Unit (soloConfig 1)).exists_reachesWhen
      (fun _ _ => True) ⟨.fresh (soloConfig 1), fun _ => 0, []⟩
      (.submit (urgentRequest .counter 10) () :: (workSteps 0 7 ++
        .work 0 ⟨false, true, 0, [], 0, false⟩ :: .tick 20 :: workSteps 0 2))
      (fun r => r.overdue.length = 1) rfl (by decide +kernel)
    exact ⟨r, hr, of_decide_eq_true htest⟩

end EchoServer
