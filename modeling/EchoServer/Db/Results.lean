import EchoServer.Db.Deadlines

/-!
# Where a response comes from

A response of the pool is what the database gave back to a call made for that very request, or the
report that the request failed. `Pool.returned` are the calls of a step that have succeeded, each
with its request; `Response.StemsFrom` ties a response to them.

In a batch the rows are known by their places : the id at place `i` came with the row inserted for
the Save at place `i` (`Rows`). The places stay aligned from one insert to the next, so each Save of
the batch is answered with the id of its own row (`Task.sound_exec`).
-/

namespace EchoServer

variable {τ : Type*} {results later : List (Job τ × Outcome)} {j : Job τ} {res : Response}

/-- The response reports what a call for the request gave back, or that the request failed. -/
inductive Response.StemsFrom (results : List (Job τ × Outcome)) (j : Job τ) : Response → Prop
  | success (o : Outcome) (mem : (j, o) ∈ results) : StemsFrom results j (j.success o)
  | failure (status : Status) (ne : status ≠ .ok) : StemsFrom results j (j.failure status)

/-- A response keeps its query as more results come in. -/
theorem Response.StemsFrom.mono (h : StemsFrom results j res) (hsub : results ⊆ later) :
    StemsFrom later j res := by
  cases h with
  | success o hmem => exact .success o (hsub hmem)
  | failure status hne => exact .failure status hne

/-- A response goes to the connection that its request came from. -/
theorem Response.StemsFrom.connId_eq (h : StemsFrom results j res) :
    res.connId = j.req.connId := by
  cases h with
  | success o hmem =>
    unfold Job.success
    dsimp only
    split <;> rfl
  | failure status hne => rfl

/-- A response names the kind of its request. -/
theorem Response.StemsFrom.kind_eq (h : StemsFrom results j res) : res.kind = j.req.kind := by
  cases h with
  | success o hmem =>
    unfold Job.success
    dsimp only
    split <;> rfl
  | failure status hne => rfl

/-- The ids at hand are those of the rows inserted for the first Saves of a batch. -/
def Rows (results : List (Job τ × Outcome)) (saves : List (Job τ)) (logIds : List ℕ) : Prop :=
  ∀ (i : ℕ) (j : Job τ) (logId : ℕ), saves[i]? = some j → logIds[i]? = some logId →
    ∃ o, (j, o) ∈ results ∧ o.logId = logId

/-- So do the rows of a batch. -/
theorem Rows.mono {saves : List (Job τ)} {logIds : List ℕ} (h : Rows results saves logIds)
    (hsub : results ⊆ later) : Rows later saves logIds := by
  intro i j logId hj hid
  obtain ⟨o, hmem, ho⟩ := h i j logId hj hid
  exact ⟨o, hsub hmem, ho⟩

/-- One more row, for the Save that is next. -/
theorem Rows.snoc {saves : List (Job τ)} {logIds : List ℕ} {o : Outcome}
    (h : Rows results saves logIds)
    (hnext : ∀ j, saves[logIds.length]? = some j → (j, o) ∈ results) :
    Rows results saves (logIds ++ [o.logId]) := by
  intro i j logId hj hid
  rw [List.getElem?_append] at hid
  split_ifs at hid with hlt
  · exact h i j logId hj hid
  · obtain ⟨hi, rfl⟩ := List.getElem?_eq_some_iff.mp hid
    rw [List.length_singleton] at hi
    obtain rfl : i = logIds.length := by omega
    exact ⟨o, hnext j hj, (List.getElem_singleton _).symm⟩

/-- When every Save has its row, each response carries the id of its own. -/
theorem Rows.stemsFrom {saves : List (Job τ)} {logIds : List ℕ} (h : Rows results saves logIds)
    (hkind : ∀ j ∈ saves, j.req.kind = .save) (hlen : saves.length ≤ logIds.length) :
    ∀ p ∈ Job.savedAll saves logIds, Response.StemsFrom results p.1 p.2 := by
  intro p hp
  obtain ⟨⟨j, i⟩, hji, rfl⟩ := List.mem_map.mp hp
  have hj : saves[i]? = some j := List.mem_zipIdx_iff_getElem?.mp hji
  have hi : i < saves.length := (List.getElem?_eq_some_iff.mp hj).1
  obtain ⟨o, hmem, ho⟩ := h i j (logIds[i]) hj (List.getElem?_eq_getElem (by omega))
  have hid : logIds.getD i 0 = o.logId := by
    rw [ho, List.getD_eq_getElem?_getD, List.getElem?_eq_getElem (by omega), Option.getD_some]
  have hres : j.success o = { j.failure .ok with logId := logIds.getD i 0 } := by
    simp only [Job.success, hkind j (List.mem_of_getElem? hj), hid]
    rfl
  show Response.StemsFrom results j { j.failure .ok with logId := logIds.getD i 0 }
  rw [← hres]
  exact .success o hmem

namespace Task

/-- The batch of a task of `flush_saves`. -/
def saves : Task τ → List (Job τ)
  | .flushSaves saves | .beginBatch saves | .insert saves _ | .inserted saves _
  | .commitBatch saves _ | .rollbackBatch saves | .failBatch saves => saves
  | _ => []

/-- What a database call gave back that has succeeded, with the request that it was made for. -/
def result (o : Outcome) : Task τ → List (Job τ × Outcome)
  | .queried j _ => if o.ok then [(j, o)] else []
  | .inserted saves logIds =>
    if o.ok then (saves[logIds.length]?).toList.map fun j => (j, o) else []
  | _ => []

/-- What a task has at hand stems from the calls. -/
def Stems (results : List (Job τ × Outcome)) : Task τ → Prop
  | .insert saves logIds | .inserted saves logIds => Rows results saves logIds
  | .commitBatch saves logIds => Rows results saves logIds ∧ saves.length ≤ logIds.length
  | .respond j res => Response.StemsFrom results j res
  | .respondBatch _ todo => ∀ p ∈ todo, Response.StemsFrom results p.1 p.2
  | _ => True

/-- What a task has at hand is as the calls have answered. -/
structure Sound (results : List (Job τ × Outcome)) (t : Task τ) : Prop where
  /-- A batch is of Saves. -/
  kind : ∀ j ∈ t.saves, j.req.kind = .save
  stems : t.Stems results

variable {t : Task τ} {now : ℕ} {usable usable' : Bool} {o : Outcome} {new : List (Task τ)}
  {eff : Effect τ}

/-- And what a task holds. -/
theorem Sound.mono (h : t.Sound results) (hsub : results ⊆ later) : t.Sound later := by
  refine ⟨h.kind, ?_⟩
  have hstems := h.stems
  cases t with
  | insert saves logIds => exact Rows.mono hstems hsub
  | inserted saves logIds => exact Rows.mono hstems hsub
  | commitBatch saves logIds => exact ⟨Rows.mono hstems.1 hsub, hstems.2⟩
  | respond j res => exact Response.StemsFrom.mono hstems hsub
  | respondBatch done todo => exact fun p hp => (hstems p hp).mono hsub
  | _ => trivial

/-- A failure stems from no query. -/
theorem failedAll_stemsFrom (saves : List (Job τ)) {status : Status} (hne : status ≠ .ok) :
    ∀ p ∈ Job.failedAll saves status, Response.StemsFrom results p.1 p.2 := by
  intro p hp
  obtain ⟨j, -, rfl⟩ := List.mem_map.mp hp
  exact .failure status hne

/-- A task that needs nothing. -/
theorem Sound.of_quiet (hsaves : t.saves = []) (hstems : t.Stems results) : t.Sound results :=
  ⟨by simp [hsaves], hstems⟩

/-- A task that expands to one task, and gives no response. -/
theorem sound_single (heff : eff.responses = []) (ht : t.Sound later) :
    (∀ t' ∈ [t], t'.Sound later) ∧ ∀ p ∈ eff.responses, Response.StemsFrom later p.1 p.2 := by
  simp [heff, ht]

/-- The task is one of `flush_saves`. -/
def batched : Task τ → Bool
  | flushSaves _ | beginBatch _ | insert _ _ | inserted _ _ | commitBatch _ _ | rollbackBatch _
  | failBatch _ | respondBatch _ _ => true
  | _ => false

/-- `process`, for one request. -/
theorem sound_process (h : t.exec now usable o = (usable', new, eff)) (ht : t.Sound later)
    (hres : t.result o ⊆ later) (hone : t.batched = false) :
    (∀ t' ∈ new, t'.Sound later) ∧ ∀ p ∈ eff.responses, Response.StemsFrom later p.1 p.2 := by
  obtain ⟨-, hstems⟩ := ht
  cases t with
  | process j =>
    simp only [exec] at h
    split_ifs at h <;> cases h
    · exact sound_single rfl (.of_quiet rfl (.failure .expired (by decide)))
    · exact sound_single rfl (.of_quiet rfl trivial)
  | checkUsable j =>
    simp only [exec] at h
    split_ifs at h <;> cases h
    · exact sound_single rfl (.of_quiet rfl trivial)
    · exact sound_single rfl (.of_quiet rfl (.failure .unavailable (by decide)))
  | query j retry =>
    cases h
    exact sound_single rfl (.of_quiet rfl trivial)
  | queried j retry =>
    simp only [exec] at h
    split_ifs at h with hok <;> cases h
    · have hmem : (j, o) ∈ later := hres (by simp [result, hok])
      exact sound_single rfl (.of_quiet rfl (.success o hmem))
    · exact sound_single rfl (.of_quiet rfl trivial)
    · exact sound_single rfl (.of_quiet rfl trivial)
  | reconnect j =>
    cases h
    split_ifs
    · exact sound_single rfl (.of_quiet rfl trivial)
    · exact sound_single rfl (.of_quiet rfl trivial)
  | fail j =>
    cases h
    exact sound_single rfl (.of_quiet rfl (.failure _ (failedStatus_ne_ok usable)))
  | respond j res =>
    cases h
    refine ⟨?_, fun p hp => ?_⟩
    · rintro t' ht'
      obtain rfl := List.mem_singleton.mp ht'
      exact .of_quiet rfl trivial
    · obtain rfl := List.mem_singleton.mp hp
      exact hstems
  | release j =>
    cases h
    simp [Effect.responses]
  | _ => cases hone

/-- `flush_saves`, for a batch. -/
theorem sound_flushSaves (h : t.exec now usable o = (usable', new, eff)) (ht : t.Sound later)
    (hres : t.result o ⊆ later) (hbatch : t.batched = true) :
    (∀ t' ∈ new, t'.Sound later) ∧ ∀ p ∈ eff.responses, Response.StemsFrom later p.1 p.2 := by
  obtain ⟨hkind, hstems⟩ := ht
  cases t with
  | flushSaves saves =>
    simp only [exec] at h
    split at h <;> cases h
    · simp [Effect.responses]
    · exact sound_single rfl (.of_quiet rfl trivial)
    · exact sound_single rfl ⟨hkind, trivial⟩
  | beginBatch saves =>
    simp only [exec] at h
    split_ifs at h <;> cases h
    · refine sound_single rfl ⟨hkind, fun i j logId _ hid => ?_⟩
      simp at hid
    · exact sound_single rfl ⟨hkind, trivial⟩
  | insert saves logIds =>
    simp only [exec] at h
    split at h <;> cases h
    · exact sound_single rfl ⟨hkind, hstems⟩
    · rename_i hnone
      exact sound_single rfl ⟨hkind, hstems, List.getElem?_eq_none_iff.mp hnone⟩
  | inserted saves logIds =>
    simp only [exec] at h
    split_ifs at h with hok <;> cases h
    · refine sound_single rfl ⟨hkind, Rows.snoc hstems fun j hj => ?_⟩
      exact hres (by simp [result, hok, hj])
    · exact sound_single rfl ⟨hkind, trivial⟩
  | commitBatch saves logIds =>
    simp only [exec] at h
    split_ifs at h <;> cases h
    · exact sound_single rfl (.of_quiet rfl (hstems.1.stemsFrom hkind hstems.2))
    · exact sound_single rfl ⟨hkind, trivial⟩
  | rollbackBatch saves =>
    cases h
    exact sound_single rfl ⟨hkind, trivial⟩
  | failBatch saves =>
    cases h
    exact sound_single rfl (.of_quiet rfl (failedAll_stemsFrom saves (failedStatus_ne_ok usable)))
  | respondBatch done todo =>
    cases todo with
    | nil =>
      cases h
      refine ⟨fun t' ht' => ?_, by simp [Effect.responses]⟩
      obtain ⟨j, -, rfl⟩ := List.mem_map.mp ht'
      exact .of_quiet rfl trivial
    | cons p todo =>
      cases h
      obtain ⟨hp, htodo⟩ := List.forall_mem_cons.mp hstems
      refine ⟨fun t' ht' => ?_, fun q hq => ?_⟩
      · obtain rfl := List.mem_singleton.mp ht'
        exact .of_quiet rfl htodo
      · obtain rfl := List.mem_singleton.mp hq
        exact hp
  | _ => cases hbatch

/-- What a task expands to stems from the calls, and so do the responses it gives. -/
theorem sound_exec (h : t.exec now usable o = (usable', new, eff)) (ht : t.Sound results) :
    (∀ t' ∈ new, t'.Sound (results ++ t.result o)) ∧
      ∀ p ∈ eff.responses, Response.StemsFrom (results ++ t.result o) p.1 p.2 := by
  have ht := ht.mono (List.subset_append_left results (t.result o))
  cases hbatch : t.batched with
  | false => exact sound_process h ht (List.subset_append_right ..) hbatch
  | true => exact sound_flushSaves h ht (List.subset_append_right ..) hbatch

end Task

/-- The Saves that the loop of a worker has collected. -/
def Loop.saves : Loop τ → List (Job τ)
  | .scan saves _ | .take saves => saves
  | _ => []

/-- What a worker has at hand is as the calls have answered. -/
structure Worker.Sound (results : List (Job τ × Outcome)) (w : Worker τ) : Prop where
  tasks : ∀ t ∈ w.tasks, t.Sound results
  loop : ∀ j ∈ w.loop.saves, j.req.kind = .save

namespace Worker

variable {w : Worker τ}

/-- And what a worker holds. -/
theorem Sound.mono (h : w.Sound results) (hsub : results ⊆ later) : w.Sound later :=
  ⟨fun t ht => (h.tasks t ht).mono hsub, h.loop⟩

/-- Only Saves are collected. -/
theorem handOver_sound (cfg : PoolConfig) (now : ℕ) (j : Job τ) {saves : List (Job τ)}
    {next : List (Job τ) → Loop τ} (hw : w.tasks = []) (hkind : ∀ j ∈ saves, j.req.kind = .save)
    (hnext : ∀ saves, (next saves).saves = saves) :
    (w.handOver cfg now j saves next).Sound results := by
  unfold handOver
  dsimp only
  split_ifs with hbatch hfull
  · have hmore : ∀ k ∈ saves ++ [j], k.req.kind = .save := by
      simp only [batchable, Bool.and_eq_true, decide_eq_true_eq] at hbatch
      simpa [or_imp, forall_and, hbatch.1.2] using hkind
    refine ⟨fun t ht => ?_, by simp [hnext]⟩
    obtain rfl := List.mem_singleton.mp ht
    exact ⟨hmore, trivial⟩
  · have hmore : ∀ k ∈ saves ++ [j], k.req.kind = .save := by
      simp only [batchable, Bool.and_eq_true, decide_eq_true_eq] at hbatch
      simpa [or_imp, forall_and, hbatch.1.2] using hkind
    exact ⟨by simp [hw], by simpa [hnext] using hmore⟩
  · refine ⟨fun t ht => ?_, by simp [hnext]⟩
    simp only [List.mem_cons, List.not_mem_nil, or_false] at ht
    obtain rfl | rfl := ht
    · exact ⟨hkind, trivial⟩
    · exact .of_quiet rfl trivial

end Worker

namespace Pool

variable {cfg : PoolConfig} {p p' : Pool τ} {i : ℕ} {o : Outcome}

/-- The calls that succeed in the next step of worker `i`, each with the request that it was made
for. -/
def returned (i : ℕ) (o : Outcome) (p : Pool τ) : List (Job τ × Outcome) :=
  match p.workers[i]?.map Worker.tasks with
  | some (t :: _) => t.result o
  | _ => []

/-- What the workers have at hand and what the pool has answered is as the calls have answered. -/
structure Sound (results : List (Job τ × Outcome)) (p : Pool τ) : Prop where
  worker : ∀ w ∈ p.workers, w.Sound results
  responded : ∀ x ∈ p.responded, Response.StemsFrom results x.1 x.2

theorem sound_fresh (cfg : PoolConfig) : (fresh cfg : Pool τ).Sound [] := by
  refine ⟨fun w hw => ?_, by simp [fresh]⟩
  obtain rfl := List.eq_of_mem_replicate hw
  exact ⟨by simp [Worker.fresh], by simp [Worker.fresh, Loop.saves]⟩

/-- A worker that is sound, and responses that stem from the calls. -/
theorem Sound.update (h : p.Sound results) (hsub : results ⊆ later) {w' : Worker τ}
    {rs : List (Job τ × Response)} (hworkers : p'.workers = p.workers.set i w')
    (hresponded : p'.responded = p.responded ++ rs) (hw : w'.Sound later)
    (hrs : ∀ x ∈ rs, Response.StemsFrom later x.1 x.2) : p'.Sound later := by
  refine ⟨fun v hv => ?_, fun x hx => ?_⟩
  · rw [hworkers] at hv
    obtain hv | rfl := List.mem_or_eq_of_mem_set hv
    · exact (h.worker v hv).mono hsub
    · exact hw
  · rw [hresponded] at hx
    obtain hx | hx := List.mem_append.mp hx
    · exact (h.responded x hx).mono hsub
    · exact hrs x hx

/-- A round of the loop keeps it, and answers nothing. -/
theorem Sound.loopStep (h : p.Sound results) {w : Worker τ} (hw : p.workers[i]? = some w)
    (htasks : w.tasks = []) (o : Outcome) : (p.loopStep cfg i w o).Sound results := by
  have hloop := (h.worker w (List.mem_of_getElem? hw)).loop
  have hregroup : ∀ {p' : Pool τ} {w' : Worker τ}, p'.workers = p.workers.set i w' →
      p'.responded = p.responded → w'.Sound results → p'.Sound results :=
    fun hworkers hresponded hw' =>
      h.update (List.Subset.refl _) hworkers (hresponded.trans (List.append_nil _).symm) hw'
        (by simp)
  have hflush : ∀ saves : List (Job τ), (∀ j ∈ saves, j.req.kind = .save) →
      ∀ t ∈ [Task.flushSaves saves], t.Sound results := by
    intro saves hsaves t ht
    obtain rfl := List.mem_singleton.mp ht
    exact ⟨hsaves, trivial⟩
  unfold Pool.loopStep
  cases heq : w.loop with
  | maintain =>
    refine hregroup rfl rfl ⟨by simp [htasks], ?_⟩
    cases cfg.dispatch <;> simp [Loop.saves]
  | swap => exact hregroup rfl rfl ⟨by simp [htasks], by simp [Loop.saves]⟩
  | scan saves batch =>
    rw [heq] at hloop
    cases batch with
    | nil => exact hregroup rfl rfl ⟨hflush saves hloop, by simp [Loop.saves]⟩
    | cons j batch =>
      exact hregroup rfl rfl (Worker.handOver_sound cfg p.now j htasks hloop fun _ => rfl)
  | take saves =>
    rw [heq] at hloop
    obtain ⟨found, shared, htake⟩ : ∃ found shared, p.shared.take = (found, shared) := ⟨_, _, rfl⟩
    rw [htake]
    cases found with
    | none => exact hregroup rfl rfl ⟨hflush saves hloop, by simp [Loop.saves]⟩
    | some j =>
      exact hregroup rfl rfl (Worker.handOver_sound cfg p.now j htasks hloop fun _ => rfl)

/-- Whatever a worker does next, every response stems from the calls made for its request. -/
theorem Sound.work (h : p.Sound results) (hstep : p.work cfg i o = some p') :
    p'.Sound (results ++ p.returned i o) := by
  obtain ⟨w, hw, ⟨htasks, rfl⟩ | ⟨t, rest, usable, new, eff, htasks, hex, rfl⟩⟩ :=
    work_cases hstep
  · have hnone : p.returned i o = [] := by simp [Pool.returned, hw, htasks]
    rw [hnone, List.append_nil]
    exact h.loopStep hw htasks o
  · have hsome : p.returned i o = t.result o := by simp [Pool.returned, hw, htasks]
    have hsub : results ⊆ results ++ t.result o := List.subset_append_left ..
    obtain ⟨hall, hloop⟩ := h.worker w (List.mem_of_getElem? hw)
    rw [htasks] at hall
    obtain ⟨ht, hrest⟩ := List.forall_mem_cons.mp hall
    obtain ⟨hnew, hresponses⟩ := Task.sound_exec hex ht
    obtain ⟨⟨w', hworkers, htasks', hloop', -⟩, -⟩ :=
      apply_spec cfg i { w with usable, tasks := new ++ rest } p eff
    rw [hsome]
    refine h.update hsub hworkers (apply_responded cfg i _ p eff).1 ⟨fun t' ht' => ?_, ?_⟩
      hresponses
    · rw [htasks'] at ht'
      obtain ht' | ht' := List.mem_append.mp ht'
      · exact hnew t' ht'
      · exact (hrest t' ht').mono hsub
    · rwa [hloop']

/-- A response that was given stays given. -/
theorem responded_work (hstep : p.work cfg i o = some p') : p.responded <+: p'.responded := by
  obtain ⟨w, hw, ⟨htasks, rfl⟩ | ⟨t, rest, usable, new, eff, htasks, hex, rfl⟩⟩ :=
    work_cases hstep
  · obtain ⟨-, -, -, -, hresponded, -⟩ := loopStep_parked cfg i p o htasks
    rw [hresponded]
  · rw [(apply_responded cfg i _ p eff).1]
    exact List.prefix_append ..

/-- A submission changes neither the tasks nor the loops. -/
theorem submit_workers (cfg : PoolConfig) (req : Request) (tag : τ) (p : Pool τ) {w : Worker τ}
    (hw : w ∈ (p.submit cfg req tag).2.workers) :
    ∃ v ∈ p.workers, w.tasks = v.tasks ∧ w.loop = v.loop := by
  unfold submit at hw
  dsimp only at hw
  repeat' split at hw
  all_goals try exact ⟨w, hw, rfl, rfl⟩
  rename_i v hv hfull
  obtain hw | rfl := List.mem_or_eq_of_mem_set hw
  · exact ⟨w, hw, rfl, rfl⟩
  · exact ⟨v, List.mem_of_getElem? hv, rfl, rfl⟩

/-- A request that is accepted has no result yet. -/
theorem Sound.submit (h : p.Sound results) (req : Request) (tag : τ) :
    (p.submit cfg req tag).2.Sound results := by
  refine ⟨fun w hw => ?_, ?_⟩
  · obtain ⟨v, hv, htasks, hloop⟩ := submit_workers cfg req tag p hw
    obtain ⟨ht, hl⟩ := h.worker v hv
    exact ⟨by rwa [htasks], by rwa [hloop]⟩
  · rw [(submit_tasks cfg req tag p).2.2.1]
    exact h.responded

end Pool

end EchoServer
