import EchoServer.Db.DispatcherRuns

/-!
# Stopping the worker pool

`submit`, `drain`, `stop` and the exit of `run` in `db/db_worker_pool.cpp`, with every read of
a flag and every use of `workers_` a step of its own. A call of `submit` is the place it has
reached (`SubmitStage`), a worker thread adds to its rounds the way out of them (`Place`), and
`stop` is one thread (`StopStage`).

`workers_` keeps its workers in the model when `stop` clears it, and `listed` says that it has
not; `broken` records that `submit` has indexed the empty list or divided by its size. A
request counts as accepted from the step that puts it in a queue, after which `submit` returns
true.

Nothing holds `stop` back while a call of `submit` is between its checks and its queue. What
such a call does in time is kept (`InTime`, `accepted_survive_stop`); what it does later is
lost (`accepted_lost`).
-/

namespace EchoServer

variable {τ : Type*}

/-- Where a worker thread is in `run`. -/
inductive Place (τ : Type*) where
  /-- In a round, or about to test `running_` before the next one. -/
  | round
  /-- Dynamic dispatch : about to test `running_` after a request. -/
  | looked
  /-- Out of the loop. -/
  | left
  /-- Static dispatch : the queue is swapped out for the last time. -/
  | tail (rest : List (Job τ))
  | done
  deriving DecidableEq

/-- Where a call of `submit` is. -/
inductive SubmitStage where
  | running
  | empty
  | draining
  -- dynamic dispatch
  | size
  | push (cap : ℕ)
  -- static dispatch, the worker's number once it is known
  | shard
  | index (i : ℕ)
  | full (i : ℕ)
  | count (i : ℕ)
  | enqueue (i : ℕ)
  deriving DecidableEq

/-- A call of `submit`, and how far it has come. -/
structure Submit (τ : Type*) where
  req : Request
  tag : τ
  stage : SubmitStage

/-- Where `stop` is. -/
inductive StopStage (τ : Type*) where
  | notCalled
  | joining
  | rejecting (rest : List (Job τ))
  | clearing
  | returned
  deriving DecidableEq

/-- The pool with the calls of `submit`, the threads of the workers and the one that stops them. -/
structure StopRun (τ : Type*) where
  pool : Pool τ
  running : Bool
  places : List (Place τ)
  /-- `workers_` has not been cleared. -/
  listed : Bool
  submits : List (Submit τ)
  stop : StopStage τ
  /-- The empty list has been indexed, or its size was a divisor. -/
  broken : Bool

/-- What a thread does next. -/
inductive StopStep (τ : Type*) where
  /-- A service thread calls `submit`. -/
  | call (req : Request) (tag : τ)
  /-- The next step of the `k`-th call. -/
  | submit (k : ℕ)
  | tick (us : ℕ)
  | drain
  /-- The next step of worker `i` in a round. -/
  | work (i : ℕ) (o : Outcome)
  /-- Worker `i` finds `running_` cleared, or finds it set after a request. -/
  | check (i : ℕ)
  /-- The next step of worker `i` out of its loop. -/
  | exit (i : ℕ)
  /-- The next step of `stop`; `take_all` goes through the keys in the order `keys`. -/
  | stop (keys : List Bytes)

namespace Place

/-- The requests the last sweep has still to reject. -/
def swept : Place τ → List (Job τ)
  | tail rest => rest
  | _ => []

/-- The worker's own queue will still be swapped out. -/
def serves : Place τ → Bool
  | round | looked | left => true
  | tail _ | done => false

/-- The thread has ended. -/
def isDone : Place τ → Bool
  | done => true
  | _ => false

end Place

namespace StopStage

/-- The requests of `take_all` that have still to be rejected. -/
def swept : StopStage τ → List (Job τ)
  | rejecting rest => rest
  | _ => []

/-- `take_all` has not been called. -/
def early : StopStage τ → Bool
  | notCalled | joining => true
  | _ => false

end StopStage

namespace StopRun

/-- The pool after `start`. -/
def fresh (cfg : PoolConfig) : StopRun τ where
  pool := .fresh cfg
  running := 0 < cfg.workers
  places := List.replicate cfg.workers .round
  listed := true
  submits := []
  stop := .notCalled
  broken := false

/-- `workers_.size()`. -/
def size (r : StopRun τ) : ℕ := if r.listed then r.pool.workers.length else 0

/-- The call `k`, which is `s`, goes on. -/
def goOn (k : ℕ) (s : Submit τ) (stage : SubmitStage) (r : StopRun τ) : StopRun τ :=
  { r with submits := r.submits.set k { s with stage } }

/-- The call `k` returns. -/
def giveBack (k : ℕ) (r : StopRun τ) : StopRun τ := { r with submits := r.submits.eraseIdx k }

/-- Worker `i` goes on to another place. -/
def setPlace (i : ℕ) (place : Place τ) (r : StopRun τ) : StopRun τ :=
  { r with places := r.places.set i place }

/-- `reject` : the request is answered without being executed. -/
def reject (j : Job τ) (p : Pool τ) : Pool τ :=
  { p with responded := p.responded ++ [(j, j.failure .unavailable)] }

/-- A step of the call `k` of `submit`. -/
def submit (cfg : PoolConfig) (k : ℕ) (r : StopRun τ) : Option (StopRun τ) :=
  match r.submits[k]? with
  | none => none
  | some s =>
    let j : Job τ := ⟨s.req, r.pool.accepted.length, s.tag⟩
    match s.stage with
    | .running => some (if r.running then r.goOn k s .empty else r.giveBack k)
    | .empty => some (if r.size = 0 then r.giveBack k else r.goOn k s .draining)
    | .draining =>
      if r.pool.draining then some (r.giveBack k)
      else
        match cfg.dispatch with
        | .dynamic => some (r.goOn k s .size)
        | .static => some (r.goOn k s .shard)
    | .size => some (r.goOn k s (.push (kMaxQueuePerWorker * r.size)))
    | .push cap =>
      match r.pool.shared.push cap j with
      | none => some (r.giveBack k)
      | some shared =>
        let pool := { r.pool with shared, accepted := r.pool.accepted ++ [j] }
        some { r.giveBack k with pool }
    | .shard =>
      if r.size = 0 then some { r.giveBack k with broken := true }
      else some (r.goOn k s (.index (cfg.hash s.req.sessionKey % r.size)))
    | .index i =>
      if r.size ≤ i then some { r.giveBack k with broken := true } else some (r.goOn k s (.full i))
    | .full i =>
      match r.pool.workers[i]? with
      | none => none
      | some w =>
        some (if kMaxQueuePerWorker ≤ w.depth then r.giveBack k else r.goOn k s (.count i))
    | .count i =>
      match r.pool.workers[i]? with
      | none => none
      | some w =>
        let pool := r.pool.setWorker i { w with depth := w.depth + 1 }
        some { r.goOn k s (.enqueue i) with pool }
    | .enqueue i =>
      match r.pool.workers[i]? with
      | none => none
      | some w =>
        let pool := { r.pool.setWorker i { w with queue := w.queue ++ [j] } with
          accepted := r.pool.accepted ++ [j] }
        some { r.giveBack k with pool }

/-- A step of worker `i` in a round. The head of the loop tests `running_` right before the
worker looks after its connection, which nobody else sees. -/
def work (cfg : PoolConfig) (i : ℕ) (o : Outcome) (r : StopRun τ) : Option (StopRun τ) :=
  match r.pool.workers[i]?, r.places[i]? with
  | some w, some place =>
    match w.tasks, place, w.loop with
    | _ :: _, .round, _ | _ :: _, .looked, _ =>
      (r.pool.work cfg i o).map fun pool => { r with pool }
    | [], .round, .maintain =>
      if r.running then (r.pool.work cfg i o).map fun pool => { r with pool } else none
    | [], .round, .take _ =>
      let place := if r.pool.shared.take.1.isSome then .looked else .round
      (r.pool.work cfg i o).map fun pool => { r.setPlace i place with pool }
    | [], .round, _ => (r.pool.work cfg i o).map fun pool => { r with pool }
    | _, _, _ => none
  | _, _ => none

/-- Worker `i` tests `running_` : at the head of the loop, or after a request. -/
def check (i : ℕ) (r : StopRun τ) : Option (StopRun τ) :=
  match r.pool.workers[i]?, r.places[i]? with
  | some w, some place =>
    match w.tasks, place, w.loop with
    | [], .round, .maintain => if r.running then none else some (r.setPlace i .left)
    | [], .looked, .take saves =>
      if r.running then some (r.setPlace i .round)
      else
        let w := { w with tasks := [.flushSaves saves], loop := .maintain }
        some { r.setPlace i .round with pool := r.pool.setWorker i w }
    | _, _, _ => none
  | _, _ => none

/-- A step of worker `i` between its loop and its end. -/
def exit (cfg : PoolConfig) (i : ℕ) (r : StopRun τ) : Option (StopRun τ) :=
  match r.pool.workers[i]?, r.places[i]? with
  | some w, some place =>
    match place with
    | .left =>
      match cfg.dispatch with
      | .dynamic => some (r.setPlace i .done)
      | .static =>
        some { r.setPlace i (.tail w.queue) with pool := r.pool.setWorker i { w with queue := [] } }
    | .tail (j :: rest) =>
      let pool := reject j (r.pool.setWorker i { w with depth := w.depth - 1 })
      some { r.setPlace i (.tail rest) with pool }
    | .tail [] => some (r.setPlace i .done)
    | _ => none
  | _, _ => none

/-- A step of `stop`. -/
def stopStep (cfg : PoolConfig) (keys : List Bytes) (r : StopRun τ) : Option (StopRun τ) :=
  match r.stop with
  | .notCalled => some (if r.running then { r with running := false, stop := .joining }
      else { r with stop := .returned })
  | .joining =>
    if r.places.all Place.isDone then
      match cfg.dispatch with
      | .static => some { r with stop := .clearing }
      | .dynamic =>
        let (all, shared) := r.pool.shared.takeAll keys
        some { r with stop := .rejecting all, pool := { r.pool with shared } }
    else none
  | .rejecting (j :: rest) => some { r with stop := .rejecting rest, pool := reject j r.pool }
  | .rejecting [] => some { r with stop := .clearing }
  | .clearing => some { r with listed := false, stop := .returned }
  | .returned => none

end StopRun

/-- The pool with the calls of `submit` and the thread that stops it. -/
def poolStop (τ : Type*) (cfg : PoolConfig) : Machine (StopRun τ) (StopStep τ) where
  init r := r = .fresh cfg
  step r
    | .call req tag => some { r with submits := r.submits ++ [⟨req, tag, .running⟩] }
    | .submit k => r.submit cfg k
    | .tick us => some { r with pool := { r.pool with now := r.pool.now + us } }
    | .drain => some (if r.running then { r with pool := { r.pool with draining := true } } else r)
    | .work i o => r.work cfg i o
    | .check i => r.check i
    | .exit i => r.exit cfg i
    | .stop keys => r.stopStep cfg keys

namespace StopRun

/-- `take_all` goes through the keys of the table. -/
def GoesThrough (cfg : PoolConfig) (r : StopRun τ) : StopStep τ → Prop
  | .stop keys => cfg.dispatch = .dynamic → r.pool.shared.Lists keys
  | _ => True

/-- A call of `submit` uses `workers_` before it is cleared, a worker's queue before its last
sweep, and the dispatcher before `take_all`. -/
def inTime (r : StopRun τ) : StopStep τ → Bool
  | .submit k =>
    match (r.submits[k]?).map Submit.stage with
    | some .shard | some (.index _) | some (.full _) | some (.count _) => r.listed
    | some (.enqueue i) => (r.places[i]?).all Place.serves
    | some (.push _) => r.stop.early
    | _ => true
  | _ => true

end StopRun

/-! ## Where an accepted request is -/

/-- The requests of a list under a key that pass the test `q`. -/
def tally (key : Bytes) (q : Job τ → Bool) (l : List (Job τ)) : ℕ := (onKey key l).countP q

@[simp] theorem tally_nil (key : Bytes) (q : Job τ → Bool) : tally key q [] = 0 := rfl

@[simp] theorem tally_append (key : Bytes) (q : Job τ → Bool) (l l' : List (Job τ)) :
    tally key q (l ++ l') = tally key q l + tally key q l' := by
  simp [tally]

theorem tally_cons (key : Bytes) (q : Job τ → Bool) (j : Job τ) (l : List (Job τ)) :
    tally key q (j :: l) = tally key q [j] + tally key q l :=
  tally_append key q [j] l

theorem tally_of_key_ne {key : Bytes} {j : Job τ} (q : Job τ → Bool) (h : j.key ≠ key) :
    tally key q [j] = 0 := by
  simp [tally, onKey, h]

/-- Past the first test there are workers, and a call keeps to the dispatch. -/
def SubmitStage.Reached (cfg : PoolConfig) : SubmitStage → Prop
  | running => True
  | empty | draining => 0 < cfg.workers
  | size | push _ => 0 < cfg.workers ∧ cfg.dispatch = .dynamic
  | shard => 0 < cfg.workers ∧ cfg.dispatch = .static
  | index i | full i | count i | enqueue i => i < cfg.workers ∧ cfg.dispatch = .static

/-- Out of the loop a worker has no tasks, and after its last sweep no queue. -/
def Place.Fits : Place τ → Worker τ → Prop
  | round, _ | looked, _ => True
  | left, w => w.tasks = [] ∧ w.loop = .maintain
  | tail _, w | done, w => w.tasks = [] ∧ w.loop = .maintain ∧ w.queue = []

/-- A thread that has ended has nothing pending. -/
theorem Place.Fits.pending_eq_nil {place : Place τ} {w : Worker τ} (h : place.Fits w)
    (hdone : place.isDone = true) : w.pending = [] := by
  cases place with
  | done =>
    obtain ⟨htasks, hloop, hqueue⟩ := h
    simp [Worker.pending, htasks, hloop, hqueue, Loop.jobs]
  | _ => cases hdone

namespace Pool

/-- A step that takes worker `i` from `w` at `place` to `w'` at `place'` has answered `rs`. -/
structure Moves (p p' : Pool τ) (i : ℕ) (w w' : Worker τ) (place place' : Place τ)
    (rs : List (Job τ)) : Prop where
  workers : p'.workers = p.workers.set i w'
  accepted : p'.accepted = p.accepted
  responded : p'.responded.map Prod.fst = p.responded.map Prod.fst ++ rs
  kept : ∀ key q,
    tally key q w.pending + tally key q place.swept + tally key q (p.shared.waiting key) =
      tally key q rs + tally key q w'.pending + tally key q place'.swept +
        tally key q (p'.shared.waiting key)
  waiting : ∀ key, p'.shared.waiting key ⊆ p.shared.waiting key
  queue : w.queue = [] → w'.queue = []

variable {cfg : PoolConfig} {p p' : Pool τ} {i : ℕ} {w : Worker τ} {place place' : Place τ}

/-- A step of the loop that moves requests inside one worker. -/
theorem moves_setWorker {w' : Worker τ} (hswept : place'.swept = place.swept)
    (hpend : w'.pending = w.pending) (hqueue : w.queue = [] → w'.queue = []) :
    Moves p (p.setWorker i w') i w w' place place' [] where
  workers := rfl
  accepted := rfl
  responded := by simp [setWorker]
  kept := fun key q => by simp [setWorker, hpend, hswept]
  waiting := fun _ => List.Subset.refl _
  queue := hqueue

/-- A round of the loop moves requests from the queue to the worker, and answers none. -/
theorem moves_loopStep (hkeys : ∀ key, ∀ x ∈ p.shared.waiting key, x.key = key)
    (htasks : w.tasks = []) (hswept : place'.swept = place.swept) (o : Outcome) :
    ∃ w', Moves p (p.loopStep cfg i w o) i w w' place place' [] := by
  unfold loopStep
  cases hloop : w.loop with
  | maintain =>
    refine ⟨_, moves_setWorker hswept ?_ id⟩
    cases cfg.dispatch <;> simp [Worker.pending, hloop, Loop.jobs]
  | swap =>
    refine ⟨_, moves_setWorker hswept ?_ fun _ => rfl⟩
    simp [Worker.pending, hloop, Loop.jobs]
  | scan saves batch =>
    cases batch with
    | nil =>
      refine ⟨_, moves_setWorker hswept ?_ id⟩
      simp [Worker.pending, htasks, hloop, Loop.jobs, Task.pending]
    | cons j batch =>
      obtain ⟨hp, -, -, hq⟩ := Worker.handOver_pending cfg p.now j saves
        (.scan · batch) batch (fun _ => rfl) htasks
      refine ⟨_, moves_setWorker hswept ?_ hq.trans⟩
      rw [hp]
      simp [Worker.pending, htasks, hloop, Loop.jobs]
  | take saves =>
    obtain ⟨found, shared, htake⟩ : ∃ found shared, p.shared.take = (found, shared) := ⟨_, _, rfl⟩
    rw [htake]
    rcases found with _ | j
    · have hsame := RequestDispatcher.takeFrom_none htake
      refine ⟨{ w with tasks := [.flushSaves saves], loop := .maintain }, rfl, rfl, ?_, ?_, ?_, id⟩
      · simp [setWorker]
      · intro key q
        simp [(hsame key).1, Worker.pending, htasks, hloop, Loop.jobs, Task.pending, hswept]
      · exact fun key => by simp [(hsame key).1]
    · obtain ⟨-, -, hfront, hrest⟩ := RequestDispatcher.takeFrom_some hkeys htake
      obtain ⟨hp, -, -, hq⟩ := Worker.handOver_pending cfg p.now j saves
        Loop.take [] (fun _ => by simp [Loop.jobs]) htasks
      refine ⟨w.handOver cfg p.now j saves .take, rfl, rfl, ?_, ?_, ?_, hq.trans⟩
      · simp [setWorker]
      · intro key q
        have hold : w.pending = saves ++ w.queue := by
          simp [Worker.pending, htasks, hloop, Loop.jobs]
        have hnew : tally key q (w.handOver cfg p.now j saves .take).pending =
            tally key q w.pending + tally key q [j] := by
          rw [hp, hold, List.append_assoc, List.cons_append, List.nil_append, tally_append,
            tally_cons, tally_append]
          omega
        by_cases hk : key = j.key
        · subst hk
          rw [hnew, hfront, hswept, tally_cons, tally_nil]
          dsimp only
          omega
        · rw [hnew, hswept, tally_of_key_ne q (Ne.symm hk), tally_nil]
          simp only [(hrest key hk).1]
          omega
      · intro key x hx
        by_cases hk : key = j.key
        · subst hk
          rw [hfront]
          exact List.mem_cons_of_mem _ hx
        · rwa [← (hrest key hk).1]

/-- A step of a worker moves requests on or answers them. -/
theorem moves_work (hkeys : ∀ key, ∀ x ∈ p.shared.waiting key, x.key = key)
    (hw : p.workers[i]? = some w) (hswept : place'.swept = place.swept) {o : Outcome}
    (h : p.work cfg i o = some p') : ∃ w' rs, Moves p p' i w w' place place' rs := by
  rw [work, hw] at h
  dsimp only at h
  split at h
  · rename_i htasks
    obtain rfl := Option.some.inj h
    obtain ⟨w', hmoves⟩ := moves_loopStep hkeys htasks hswept o
    exact ⟨w', [], hmoves⟩
  · rename_i t rest htasks
    obtain rfl := Option.some.inj h
    obtain ⟨usable, new, eff, hex⟩ : ∃ usable new eff, t.exec p.now w.usable o = (usable, new, eff) :=
      ⟨_, _, _, rfl⟩
    rw [hex]
    obtain ⟨⟨w', hworkers, htasks', hloop, hqueue⟩, hacc, hwait, -, hresp, -⟩ :=
      apply_spec cfg i { w with usable, tasks := new ++ rest } p eff
    refine ⟨w', eff.answered, hworkers, hacc, hresp, fun key q => ?_, fun key => ?_, hqueue.trans⟩
    · have hpend := Task.pending_exec hex
      simp only [Worker.pending, htasks, htasks', hloop, hqueue, List.flatMap_cons,
        List.flatMap_append, hpend, tally_append, hwait, hswept]
      omega
    · rw [hwait]
      exact List.Subset.refl _

end Pool

namespace StopRun

/-- An accepted request has been answered, or a worker has it, or a sweep does, or it waits in
the dispatcher. -/
structure Kept (cfg : PoolConfig) (r : StopRun τ) : Prop where
  workers_length : r.pool.workers.length = cfg.workers
  places_length : r.places.length = cfg.workers
  seqs : r.pool.accepted.map Job.seq = List.range r.pool.accepted.length
  waiting_key : ∀ key, ∀ x ∈ r.pool.shared.waiting key, x.key = key
  waiting_static : cfg.dispatch = .static → ∀ key, r.pool.shared.waiting key = []
  queue_dynamic : cfg.dispatch = .dynamic → ∀ w ∈ r.pool.workers, w.queue = []
  conserved : ∀ key q, tally key q r.pool.accepted =
    tally key q (r.pool.responded.map Prod.fst) +
      (r.pool.workers.map fun w => tally key q w.pending).sum +
      (r.places.map fun place => tally key q place.swept).sum +
      tally key q (r.pool.shared.waiting key) + tally key q r.stop.swept
  fits : ∀ (i : ℕ) (w : Worker τ) (place : Place τ), r.pool.workers[i]? = some w →
    r.places[i]? = some place → place.Fits w
  joined : r.stop.early = false → ∀ place ∈ r.places, place.isDone = true
  emptied : r.stop.early = false ∨ cfg.workers = 0 → ∀ key, r.pool.shared.waiting key = []
  up : r.running = true → 0 < cfg.workers
  down : r.stop = .notCalled → r.running = false → cfg.workers = 0
  called : ∀ s ∈ r.submits, s.stage.Reached cfg
  unbroken : r.broken = false

variable {cfg : PoolConfig} {r r' : StopRun τ}

/-- Before the first request there is nothing to answer. -/
theorem kept_fresh (cfg : PoolConfig) : Kept cfg (fresh cfg : StopRun τ) := by
  have hpend : ∀ key (q : Job τ → Bool), tally key q (Worker.fresh : Worker τ).pending = 0 :=
    fun _ _ => rfl
  refine ⟨by simp [fresh, Pool.fresh], by simp [fresh], rfl, by simp [fresh, Pool.fresh,
    RequestDispatcher.waiting, RequestDispatcher.empty], fun _ _ => rfl, fun _ w hw => ?_,
    fun key q => ?_, fun i w place _ hplace => ?_,
    by simp [fresh, StopStage.early], fun _ _ => rfl, of_decide_eq_true,
    fun _ hdown => ?_, by simp [fresh], rfl⟩
  · rw [List.eq_of_mem_replicate hw]
    rfl
  · simp [fresh, Pool.fresh, hpend, Place.swept, StopStage.swept, RequestDispatcher.waiting,
      RequestDispatcher.empty]
  · rw [List.eq_of_mem_replicate (List.mem_of_getElem? hplace)]
    trivial
  · simpa [fresh] using hdown

/-- A step of worker `i` that answers `rs` and takes it from `place` to `place'`. -/
theorem Kept.moves (h : Kept cfg r) {p : Pool τ} {i : ℕ} {w w' : Worker τ} {place place' : Place τ}
    (rs : List (Job τ)) (hw : r.pool.workers[i]? = some w) (hplace : r.places[i]? = some place)
    (hmoves : r.pool.Moves p i w w' place place' rs) (hfits : place'.Fits w')
    (hdone : place.isDone = true → place'.isDone = true) :
    Kept cfg { r.setPlace i place' with pool := p } := by
  obtain ⟨hlt, -⟩ := List.getElem?_eq_some_iff.mp hw
  obtain ⟨hlt', -⟩ := List.getElem?_eq_some_iff.mp hplace
  refine ⟨?_, ?_, ?_, fun key x hx => h.waiting_key key x (hmoves.waiting key hx),
    fun hd key => ?_, fun hd v hv => ?_, fun key q => ?_, fun i' v pl hv hpl => ?_,
    fun hearly pl hpl => ?_, fun hearly key => ?_, h.up, h.down, h.called, h.unbroken⟩
  · simp [hmoves.workers, h.workers_length]
  · simp [setPlace, h.places_length]
  · simp only [hmoves.accepted]
    exact h.seqs
  · exact List.subset_nil.mp (h.waiting_static hd key ▸ hmoves.waiting key)
  · simp only [hmoves.workers] at hv
    rcases List.mem_or_eq_of_mem_set hv with hv | rfl
    · exact h.queue_dynamic hd v hv
    · exact hmoves.queue (h.queue_dynamic hd w (List.mem_of_getElem? hw))
  · have hsum := h.conserved key q
    have hset := Pool.sum_map_set (fun w => tally key q w.pending) hw w'
    have hset' := Pool.sum_map_set (fun place : Place τ => tally key q place.swept) hplace place'
    have hkept := hmoves.kept key q
    simp only [hmoves.accepted, hmoves.responded, hmoves.workers, setPlace, tally_append]
    omega
  · by_cases hi : i' = i
    · subst hi
      obtain rfl : w' = v := by simpa [hmoves.workers, hlt] using hv
      obtain rfl : place' = pl := by simpa [setPlace, hlt'] using hpl
      exact hfits
    · refine h.fits i' v pl ?_ ?_
      · simpa [hmoves.workers, List.getElem?_set_ne (Ne.symm hi)] using hv
      · simpa [setPlace, List.getElem?_set_ne (Ne.symm hi)] using hpl
  · rcases List.mem_or_eq_of_mem_set hpl with hpl | rfl
    · exact h.joined hearly pl hpl
    · exact hdone (h.joined hearly place (List.mem_of_getElem? hplace))
  · exact List.subset_nil.mp (h.emptied hearly key ▸ hmoves.waiting key)

/-- A worker goes on to another place. -/
theorem Kept.goes (h : Kept cfg r) {i : ℕ} {w : Worker τ} {place place' : Place τ}
    (hw : r.pool.workers[i]? = some w) (hplace : r.places[i]? = some place)
    (hswept : place'.swept = place.swept) (hfits : place'.Fits w) (hround : place.isDone = false) :
    Kept cfg (r.setPlace i place') := by
  obtain ⟨hlt, hwi⟩ := List.getElem?_eq_some_iff.mp hw
  have hstill : r.pool.setWorker i w = r.pool := by simp [Pool.setWorker, ← hwi]
  have hmoves : r.pool.Moves (r.pool.setWorker i w) i w w place place' [] :=
    Pool.moves_setWorker hswept rfl id
  rw [hstill] at hmoves
  exact h.moves _ hw hplace hmoves hfits (by simp [hround])

theorem setPlace_self {i : ℕ} {place : Place τ} (h : r.places[i]? = some place) :
    r.setPlace i place = r := by
  obtain ⟨hlt, rfl⟩ := List.getElem?_eq_some_iff.mp h
  simp [setPlace]

/-- A step of a round is a step of the worker, which stays in its rounds. -/
theorem work_cases {i : ℕ} {o : Outcome} (h : r.work cfg i o = some r') :
    ∃ w place place' p, r.pool.workers[i]? = some w ∧ r.places[i]? = some place ∧
      r.pool.work cfg i o = some p ∧ r' = { r.setPlace i place' with pool := p } ∧
      place.isDone = false ∧ place'.swept = place.swept ∧ ∀ v, place'.Fits v := by
  unfold work at h
  split at h
  · rename_i w place hw hplace
    have hsame := setPlace_self hplace
    split at h
    · obtain ⟨p, hp, rfl⟩ := Option.map_eq_some_iff.mp h
      exact ⟨w, .round, .round, p, hw, hplace, hp, by rw [hsame], rfl, rfl, fun _ => trivial⟩
    · obtain ⟨p, hp, rfl⟩ := Option.map_eq_some_iff.mp h
      exact ⟨w, .looked, .looked, p, hw, hplace, hp, by rw [hsame], rfl, rfl, fun _ => trivial⟩
    · split_ifs at h
      obtain ⟨p, hp, rfl⟩ := Option.map_eq_some_iff.mp h
      exact ⟨w, .round, .round, p, hw, hplace, hp, by rw [hsame], rfl, rfl, fun _ => trivial⟩
    · obtain ⟨p, hp, rfl⟩ := Option.map_eq_some_iff.mp h
      refine ⟨w, .round, _, p, hw, hplace, hp, rfl, rfl, ?_, fun _ => ?_⟩
      · split_ifs <;> rfl
      · split_ifs <;> trivial
    · obtain ⟨p, hp, rfl⟩ := Option.map_eq_some_iff.mp h
      exact ⟨w, .round, .round, p, hw, hplace, hp, by rw [hsame], rfl, rfl, fun _ => trivial⟩
    · cases h
  · cases h

/-- A step of a worker keeps the account. -/
theorem Kept.work (h : Kept cfg r) {i : ℕ} {o : Outcome} (hstep : r.work cfg i o = some r') :
    Kept cfg r' := by
  obtain ⟨w, place, place', p, hw, hplace, hp, rfl, hround, hswept, hfits⟩ := work_cases hstep
  obtain ⟨w', rs, hmoves⟩ := Pool.moves_work h.waiting_key hw hswept hp
  exact h.moves _ hw hplace hmoves (hfits w') (by simp [hround])

/-- So does its look at the flag. -/
theorem Kept.check (h : Kept cfg r) {i : ℕ} (hstep : r.check i = some r') : Kept cfg r' := by
  unfold StopRun.check at hstep
  split at hstep
  · rename_i w place hw hplace
    split at hstep
    · rename_i htasks hloop
      split_ifs at hstep
      obtain rfl := Option.some.inj hstep
      exact h.goes hw hplace rfl ⟨htasks, hloop⟩ rfl
    · rename_i saves htasks hloop
      split_ifs at hstep
      · obtain rfl := Option.some.inj hstep
        exact h.goes hw hplace rfl trivial rfl
      · obtain rfl := Option.some.inj hstep
        refine h.moves _ hw hplace (Pool.moves_setWorker rfl ?_ id) trivial
          (by simp [Place.isDone])
        simp [Worker.pending, htasks, hloop, Loop.jobs, Task.pending]
    · cases hstep
  · cases hstep

/-- And a step on its way out. -/
theorem Kept.exit (h : Kept cfg r) {i : ℕ} (hstep : r.exit cfg i = some r') : Kept cfg r' := by
  unfold StopRun.exit at hstep
  split at hstep
  · rename_i w place hw hplace
    have hfits := h.fits i w place hw hplace
    split at hstep
    · obtain ⟨htasks, hloop⟩ := hfits
      split at hstep
      · rename_i hd
        obtain rfl := Option.some.inj hstep
        have hqueue := h.queue_dynamic hd w (List.mem_of_getElem? hw)
        exact h.goes hw hplace rfl ⟨htasks, hloop, hqueue⟩ rfl
      · obtain rfl := Option.some.inj hstep
        refine h.moves [] hw hplace ⟨rfl, rfl, by simp [Pool.setWorker], fun key q => ?_,
          fun _ => List.Subset.refl _, fun _ => rfl⟩ ⟨htasks, hloop, rfl⟩
          (by simp [Place.isDone])
        simp [Worker.pending, htasks, hloop, Loop.jobs, Place.swept, Pool.setWorker]
    · rename_i j rest
      obtain ⟨htasks, hloop, hqueue⟩ := hfits
      obtain rfl := Option.some.inj hstep
      refine h.moves [j] hw hplace ⟨rfl, rfl, by simp [reject, Pool.setWorker],
        fun key q => ?_, fun _ => List.Subset.refl _, fun _ => hqueue⟩
        ⟨htasks, hloop, hqueue⟩ (by simp [Place.isDone])
      have hcons := tally_cons key q j rest
      simp only [Worker.pending, Place.swept, reject, Pool.setWorker, hcons]
      omega
    · obtain rfl := Option.some.inj hstep
      exact h.goes hw hplace rfl hfits rfl
    · cases hstep
  · cases hstep

/-- The other calls of `submit` stay as they are. -/
theorem mem_of_goOn {k : ℕ} {s t : Submit τ} {stage : SubmitStage}
    (h : t ∈ (r.goOn k s stage).submits) : t ∈ r.submits ∨ t.stage = stage := by
  rcases List.mem_or_eq_of_mem_set h with h | rfl
  · exact Or.inl h
  · exact Or.inr rfl

/-- A call goes on to a stage it may reach. -/
theorem Kept.goOn (h : Kept cfg r) (k : ℕ) (s : Submit τ) {stage : SubmitStage}
    (hstage : stage.Reached cfg) : Kept cfg (r.goOn k s stage) :=
  { h with
    called := fun t ht => by
      rcases mem_of_goOn ht with ht | rfl
      · exact h.called t ht
      · exact hstage }

/-- A call returns. -/
theorem Kept.giveBack (h : Kept cfg r) (k : ℕ) : Kept cfg (r.giveBack k) :=
  { h with called := fun s hs => h.called s (List.mem_of_mem_eraseIdx hs) }

/-- A request is accepted : it is in a worker's queue, or waits in the dispatcher. -/
theorem Kept.accept (h : Kept cfg r) {p : Pool τ} {j : Job τ} (hj : j.seq = r.pool.accepted.length)
    (hacc : p.accepted = r.pool.accepted ++ [j]) (hresp : p.responded = r.pool.responded)
    (hlength : p.workers.length = r.pool.workers.length)
    (hfits : ∀ (i : ℕ) (w : Worker τ) (place : Place τ), p.workers[i]? = some w →
      r.places[i]? = some place → place.Fits w)
    (hdynamic : cfg.dispatch = .dynamic → ∀ w ∈ p.workers, w.queue = [])
    (hkey : ∀ key, ∀ x ∈ p.shared.waiting key, x.key = key)
    (hstatic : cfg.dispatch = .static → ∀ key, p.shared.waiting key = [])
    (hemptied : r.stop.early = false ∨ cfg.workers = 0 → ∀ key, p.shared.waiting key = [])
    (hkept : ∀ key q, (p.workers.map fun w => tally key q w.pending).sum +
        tally key q (p.shared.waiting key) = tally key q [j] +
          (r.pool.workers.map fun w => tally key q w.pending).sum +
          tally key q (r.pool.shared.waiting key)) :
    Kept cfg { r with pool := p } where
  workers_length := hlength.trans h.workers_length
  places_length := h.places_length
  seqs := by simp [hacc, h.seqs, hj, List.range_succ]
  waiting_key := hkey
  waiting_static := hstatic
  queue_dynamic := hdynamic
  conserved := fun key q => by
    have hsum := h.conserved key q
    have hnew := hkept key q
    simp only [hacc, hresp, tally_append]
    omega
  fits := hfits
  joined := h.joined
  emptied := hemptied
  up := h.up
  down := h.down
  called := h.called
  unbroken := h.unbroken

/-- Dynamic dispatch : the request waits in the dispatcher, which `take_all` has not emptied. -/
theorem Kept.push (h : Kept cfg r) (hd : cfg.dispatch = .dynamic) {cap : ℕ} {j : Job τ}
    {shared : RequestDispatcher τ} (hj : j.seq = r.pool.accepted.length)
    (hpush : r.pool.shared.push cap j = some shared) (hearly : r.stop.early = true)
    (hworkers : 0 < cfg.workers) :
    Kept cfg { r with pool := { r.pool with shared, accepted := r.pool.accepted ++ [j] } } := by
  have hsame := RequestDispatcher.push_eq_some hpush
  refine h.accept hj rfl rfl rfl h.fits h.queue_dynamic (fun key x hx => ?_) (by simp [hd])
    (fun hlate => ?_) fun key q => ?_
  · dsimp only at hx
    rw [(hsame key).1] at hx
    split_ifs at hx with hk
    · rcases List.mem_append.mp hx with hx | hx
      · exact h.waiting_key key x hx
      · rw [List.mem_singleton.mp hx, hk]
    · exact h.waiting_key key x hx
  · rcases hlate with hlate | hnone
    · rw [hearly] at hlate
      cases hlate
    · omega
  · dsimp only
    rw [(hsame key).1]
    split_ifs with hk
    · rw [tally_append]
      omega
    · rw [tally_of_key_ne q (Ne.symm hk)]
      omega

/-- Static dispatch : the request is in the queue of a worker that will swap it out. -/
theorem Kept.enqueue (h : Kept cfg r) (hd : cfg.dispatch = .static) {i : ℕ} {w : Worker τ}
    {j : Job τ} (hj : j.seq = r.pool.accepted.length) (hw : r.pool.workers[i]? = some w)
    (hserves : ∀ place, r.places[i]? = some place → place.serves = true) :
    Kept cfg { r with pool := { r.pool.setWorker i { w with queue := w.queue ++ [j] } with
      accepted := r.pool.accepted ++ [j] } } := by
  obtain ⟨hlt, -⟩ := List.getElem?_eq_some_iff.mp hw
  refine h.accept hj rfl rfl (by simp [Pool.setWorker]) (fun i' v place hv hplace => ?_)
    (by simp [hd]) h.waiting_key h.waiting_static h.emptied fun key q => ?_
  · by_cases hi : i' = i
    · subst hi
      obtain rfl : _ = v := by simpa [Pool.setWorker, hlt] using hv
      have hfits := h.fits i' w place hw hplace
      have := hserves place hplace
      cases place with
      | tail _ | done => cases this
      | _ => exact hfits
    · refine h.fits i' v place ?_ hplace
      simpa [Pool.setWorker, List.getElem?_set_ne (Ne.symm hi)] using hv
  · have hset := Pool.sum_map_set (fun w => tally key q w.pending) hw
      { w with queue := w.queue ++ [j] }
    have hnew : tally key q (Worker.pending { w with queue := w.queue ++ [j] }) =
        tally key q w.pending + tally key q [j] := by
      simp [Worker.pending, add_assoc]
    simp only [Pool.setWorker]
    omega

/-- Counting a request does not move any. -/
theorem Kept.deepen (h : Kept cfg r) {i : ℕ} {w : Worker τ} (hw : r.pool.workers[i]? = some w) :
    Kept cfg { r with pool := r.pool.setWorker i { w with depth := w.depth + 1 } } := by
  obtain ⟨hlt, -⟩ := List.getElem?_eq_some_iff.mp hw
  obtain ⟨place, hplace⟩ : ∃ place, r.places[i]? = some place :=
    ⟨_, List.getElem?_eq_getElem (by rw [h.places_length, ← h.workers_length]; exact hlt)⟩
  have hmoves : r.pool.Moves (r.pool.setWorker i { w with depth := w.depth + 1 }) i w
    { w with depth := w.depth + 1 } place place [] := Pool.moves_setWorker rfl rfl id
  have hfits : place.Fits { w with depth := w.depth + 1 } := by
    have := h.fits i w place hw hplace
    cases place <;> exact this
  have := h.moves _ hw hplace hmoves hfits id
  rwa [setPlace_self hplace] at this

/-- While the workers are listed, there are as many as configured. -/
theorem size_eq (h : Kept cfg r) (hlisted : r.listed = true) : r.size = cfg.workers := by
  simp [size, hlisted, h.workers_length]

/-- A step of `submit` that is in time keeps the account. -/
theorem Kept.submit (h : Kept cfg r) {k : ℕ} (htime : r.inTime (.submit k) = true)
    (hstep : r.submit cfg k = some r') : Kept cfg r' := by
  unfold StopRun.submit at hstep
  split at hstep
  · cases hstep
  rename_i s hs
  have hcalled := h.called s (List.mem_of_getElem? hs)
  simp only [inTime, hs, Option.map_some] at htime
  dsimp only at hstep
  split at hstep
  all_goals
    rename_i hstage
    simp only [hstage] at htime
    rw [hstage] at hcalled
  -- `running`
  · obtain rfl := Option.some.inj hstep
    split_ifs with hrun
    · exact h.goOn k s (h.up hrun)
    · exact h.giveBack k
  -- `empty`
  · obtain rfl := Option.some.inj hstep
    split_ifs
    · exact h.giveBack k
    · exact h.goOn k s hcalled
  -- `draining`
  · split_ifs at hstep
    · obtain rfl := Option.some.inj hstep
      exact h.giveBack k
    · split at hstep
      all_goals
        rename_i hd
        obtain rfl := Option.some.inj hstep
        exact h.goOn k s ⟨hcalled, hd⟩
  -- `size`
  · obtain rfl := Option.some.inj hstep
    exact h.goOn k s hcalled
  -- `push`
  · split at hstep
    · obtain rfl := Option.some.inj hstep
      exact h.giveBack k
    · rename_i shared hpush
      obtain rfl := Option.some.inj hstep
      exact (h.push hcalled.2 rfl hpush htime hcalled.1).giveBack k
  -- `shard`
  · rw [size_eq h htime, if_neg hcalled.1.ne'] at hstep
    obtain rfl := Option.some.inj hstep
    exact h.goOn k s ⟨Nat.mod_lt _ hcalled.1, hcalled.2⟩
  -- `index`
  · have hlt := hcalled.1
    rw [size_eq h htime, if_neg (by omega)] at hstep
    obtain rfl := Option.some.inj hstep
    exact h.goOn k s hcalled
  all_goals
    split at hstep
    · cases hstep
    rename_i w hw
    obtain rfl := Option.some.inj hstep
  -- `full`
  · split_ifs
    · exact h.giveBack k
    · exact h.goOn k s hcalled
  -- `count`
  · exact (h.deepen hw).goOn k s hcalled
  -- `enqueue`
  · refine (h.enqueue hcalled.2 rfl hw fun place hplace => ?_).giveBack k
    simpa [hplace] using htime

/-- `stop` has answered `rs` and goes on to `stage`. -/
theorem Kept.stops (h : Kept cfg r) {stage : StopStage τ} {p : Pool τ} (rs : List (Job τ))
    (hworkers : p.workers = r.pool.workers) (hacc : p.accepted = r.pool.accepted)
    (hresp : p.responded.map Prod.fst = r.pool.responded.map Prod.fst ++ rs)
    (hkept : ∀ key q, tally key q (r.pool.shared.waiting key) + tally key q r.stop.swept =
      tally key q rs + tally key q (p.shared.waiting key) + tally key q stage.swept)
    (hnil : ∀ key, p.shared.waiting key = []) (hdone : ∀ place ∈ r.places, place.isDone = true)
    (hcalled : stage ≠ .notCalled) :
    Kept cfg { r with pool := p, stop := stage } where
  workers_length := by simp [hworkers, h.workers_length]
  places_length := h.places_length
  seqs := by simp only [hacc, h.seqs]
  waiting_key := by simp [hnil]
  waiting_static := fun _ => hnil
  queue_dynamic := by simpa only [hworkers] using h.queue_dynamic
  conserved := fun key q => by
    have hsum := h.conserved key q
    have hnew := hkept key q
    simp only [hacc, hresp, hworkers, tally_append]
    omega
  fits := by simpa only [hworkers] using h.fits
  joined := fun _ => hdone
  emptied := fun _ => hnil
  up := h.up
  down := fun hnot => absurd hnot hcalled
  called := h.called
  unbroken := h.unbroken

/-- Once the threads have ended, `take_all` sweeps out what nobody will take any more. -/
theorem Kept.sweep (h : Kept cfg r) (hstop : r.stop = .joining) {keys : List Bytes}
    (hkeys : r.pool.shared.Lists keys) (hdone : ∀ place ∈ r.places, place.isDone = true)
    {all : List (Job τ)} {shared : RequestDispatcher τ}
    (htake : r.pool.shared.takeAll keys = (all, shared)) :
    Kept cfg { r with pool := { r.pool with shared }, stop := .rejecting all } := by
  have hnil := RequestDispatcher.waiting_takeAll (d := r.pool.shared) keys
  have hall := RequestDispatcher.onKey_takeAll h.waiting_key hkeys
  rw [htake] at hnil hall
  refine h.stops [] rfl rfl (by simp) (fun key q => ?_) hnil hdone (by simp)
  have hown : onKey key (r.pool.shared.waiting key) = r.pool.shared.waiting key :=
    List.filter_eq_self.mpr fun x hx => decide_eq_true (h.waiting_key key x hx)
  have hsame : tally key q (r.pool.shared.waiting key) = tally key q all := by
    rw [tally, tally, hown, hall]
  simp [hstop, hnil, StopStage.swept, hsame]

/-- A step of the stop keeps it. -/
theorem Kept.stopStep (h : Kept cfg r) {keys : List Bytes}
    (hkeys : cfg.dispatch = .dynamic → r.pool.shared.Lists keys)
    (hstep : r.stopStep cfg keys = some r') : Kept cfg r' := by
  unfold StopRun.stopStep at hstep
  split at hstep
  -- `notCalled`
  · rename_i hstop
    obtain rfl := Option.some.inj hstep
    split_ifs with hrun
    · exact { h with
        conserved := fun key q => by simpa [hstop, StopStage.swept] using h.conserved key q
        joined := by simp [StopStage.early]
        emptied := fun hnone => h.emptied (hnone.imp_left (by simp [StopStage.early]))
        up := by simp
        down := by simp }
    · have hnone := h.down hstop (by simpa using hrun)
      have hplaces : r.places = [] := List.length_eq_zero_iff.mp (by rw [h.places_length, hnone])
      exact h.stops [] rfl rfl (by simp) (by simp [hstop, StopStage.swept])
        (h.emptied (Or.inr hnone)) (by simp [hplaces]) (by simp)
  -- `joining`
  · rename_i hstop
    split_ifs at hstep with hall
    have hdone : ∀ place ∈ r.places, place.isDone = true := List.all_eq_true.mp hall
    split at hstep
    · rename_i hd
      obtain rfl := Option.some.inj hstep
      exact h.stops [] rfl rfl (by simp) (by simp [hstop, StopStage.swept])
        (h.waiting_static hd) hdone (by simp)
    · rename_i hd
      obtain ⟨all, shared, htake⟩ : ∃ all shared, r.pool.shared.takeAll keys = (all, shared) :=
        ⟨_, _, rfl⟩
      rw [htake] at hstep
      obtain rfl := Option.some.inj hstep
      exact h.sweep hstop (hkeys hd) hdone htake
  -- `rejecting`
  · rename_i j rest hstop
    obtain rfl := Option.some.inj hstep
    have hearly : r.stop.early = false := by rw [hstop]; rfl
    have hnil := h.emptied (Or.inl hearly)
    refine h.stops [j] rfl rfl (by simp [reject]) (fun key q => ?_) hnil (h.joined hearly) (by simp)
    have hcons := tally_cons key q j rest
    simp [hstop, StopStage.swept, reject, hcons, hnil]
  · rename_i hstop
    obtain rfl := Option.some.inj hstep
    have hearly : r.stop.early = false := by rw [hstop]; rfl
    exact h.stops [] rfl rfl (by simp) (by simp [hstop, StopStage.swept])
      (h.emptied (Or.inl hearly)) (h.joined hearly) (by simp)
  -- `clearing`
  · rename_i hstop
    obtain rfl := Option.some.inj hstep
    have hearly : r.stop.early = false := by rw [hstop]; rfl
    have hnext : Kept cfg { r with stop := .returned } :=
      h.stops [] rfl rfl (by simp) (by simp [hstop, StopStage.swept])
        (h.emptied (Or.inl hearly)) (h.joined hearly) (by simp)
    exact { hnext with }
  · cases hstep

/-- The account holds in every run with its calls in time. -/
theorem kept_of_reachesWhen
    (h : (poolStop τ cfg).ReachesWhen (fun r a => r.GoesThrough cfg a ∧ r.inTime a = true) r) :
    Kept cfg r := by
  refine Machine.ReachesWhen.invariant ?_ ?_ h
  · rintro r rfl
    exact kept_fresh cfg
  · rintro r a r' hr ⟨hkeys, htime⟩ hstep
    cases a with
    | call req tag =>
      obtain rfl := Option.some.inj hstep
      refine { hr with called := fun s hs => ?_ }
      rcases List.mem_append.mp hs with hs | hs
      · exact hr.called s hs
      · rw [List.mem_singleton.mp hs]
        trivial
    | submit k => exact hr.submit htime hstep
    | tick us =>
      obtain rfl := Option.some.inj hstep
      exact { hr with }
    | drain =>
      obtain rfl := Option.some.inj hstep
      split_ifs
      · exact { hr with }
      · exact hr
    | work i o => exact hr.work hstep
    | check i => exact hr.check hstep
    | exit i => exact hr.exit hstep
    | stop keys => exact hr.stopStep hkeys hstep

/-- Once the pool has stopped, the requests answered are those accepted. -/
theorem Kept.responded_perm (h : Kept cfg r) (hstop : r.stop = .returned) :
    (r.pool.responded.map Prod.fst).Perm r.pool.accepted := by
  classical
  have hearly : r.stop.early = false := by rw [hstop]; rfl
  refine List.perm_iff_count.mpr fun j => ?_
  have hcount : ∀ l : List (Job τ), tally j.key (· == j) l = l.count j := fun l =>
    List.count_filter (decide_eq_true rfl)
  have hworkers : (r.pool.workers.map fun w => tally j.key (· == j) w.pending).sum = 0 := by
    refine List.sum_eq_zero_iff.mpr fun n hn => ?_
    obtain ⟨w, hw, rfl⟩ := List.mem_map.mp hn
    obtain ⟨i, hi⟩ := List.mem_iff_getElem?.mp hw
    obtain ⟨hlt, -⟩ := List.getElem?_eq_some_iff.mp hi
    have hplace := List.getElem?_eq_getElem
      (show i < r.places.length by rw [h.places_length, ← h.workers_length]; exact hlt)
    have hdone := h.joined hearly _ (List.mem_of_getElem? hplace)
    rw [(h.fits i w _ hi hplace).pending_eq_nil hdone, tally_nil]
  have hplaces : (r.places.map fun place => tally j.key (· == j) place.swept).sum = 0 := by
    refine List.sum_eq_zero_iff.mpr fun n hn => ?_
    obtain ⟨place, hplace, rfl⟩ := List.mem_map.mp hn
    have hdone := h.joined hearly place hplace
    cases place with
    | done => rfl
    | _ => cases hdone
  have hsum := h.conserved j.key (· == j)
  rw [hworkers, hplaces, h.emptied (Or.inl hearly), hstop] at hsum
  simpa [StopStage.swept, hcount] using hsum.symm

end StopRun

/-- In every run in which `submit` uses `workers_`, the queues and the dispatcher in time :
each accepted request has exactly one response once `stop` has returned, and the empty list is
not indexed and its size is not a divisor. -/
theorem accepted_survive_stop {cfg : PoolConfig} {r : StopRun τ}
    (h : (poolStop τ cfg).ReachesWhen (fun r a => r.GoesThrough cfg a ∧ r.inTime a = true) r) :
    r.broken = false ∧ (r.pool.accepted.map Job.seq).Nodup ∧
      (r.stop = .returned → (r.pool.responded.map Prod.fst).Perm r.pool.accepted) := by
  have hr := StopRun.kept_of_reachesWhen h
  refine ⟨hr.unbroken, ?_, hr.responded_perm⟩
  rw [hr.seqs]
  exact List.nodup_range

/-- One worker and static dispatch. -/
def oneStatic : PoolConfig := ⟨1, .static, 1, fun _ => 0⟩

/-- A call of `submit` up to its `n`-th step. -/
def submitting (n : ℕ) : List (StopStep Unit) :=
  .call (sampleRequest .save [1]) () :: List.replicate n (.submit 0)

/-- `drain`, the end of the only worker and `stop`, while nothing is queued. -/
def stopping : List (StopStep Unit) := [.drain, .stop [], .check 0, .exit 0, .exit 0]

/-- The request is queued before the worker's last sweep, which rejects it. -/
theorem accepted_survive_stop_swept : ∃ r : StopRun Unit, r.stop = .returned ∧
    r.pool.accepted.length = 1 ∧ (r.pool.responded.map Prod.fst).Perm r.pool.accepted := by
  obtain ⟨r, hr, htest⟩ := (poolStop Unit oneStatic).exists_reachesWhen
    (fun r a => r.inTime a = true) (.fresh _)
    (submitting 8 ++ [.stop [], .check 0, .exit 0, .exit 0, .exit 0, .stop [], .stop []])
    (fun r => r.stop = .returned ∧ r.pool.accepted.length = 1) rfl (by decide +kernel)
  have hkeys : ∀ (r : StopRun Unit) (a : StopStep Unit), r.GoesThrough oneStatic a := by
    intro r a
    cases a with
    | stop keys =>
      intro hd
      cases hd
    | _ => trivial
  obtain ⟨hstop, hacc⟩ := of_decide_eq_true htest
  exact ⟨r, hstop, hacc, (accepted_survive_stop (hr.mono fun r a h => ⟨hkeys r a, h⟩)).2.2 hstop⟩

/-- A call that has passed its checks when `stop` runs : its request goes into a queue that
nobody will look at, or it divides by the size of the cleared list. -/
theorem accepted_lost :
    (∃ r : StopRun Unit, (poolStop Unit oneStatic).Reaches r ∧ r.stop = .returned ∧
      r.pool.accepted.length = 1 ∧ r.pool.responded.length = 0) ∧
      ∃ r : StopRun Unit, (poolStop Unit oneStatic).Reaches r ∧ r.broken = true := by
  obtain ⟨r, hr, htest⟩ := (poolStop Unit oneStatic).exists_reachesWhen (fun _ _ => True) (.fresh _)
    (submitting 7 ++ stopping ++ [.submit 0, .stop [], .stop []])
    (fun r => r.stop = .returned ∧ r.pool.accepted.length = 1 ∧ r.pool.responded.length = 0) rfl
    (by decide +kernel)
  obtain ⟨r', hr', htest'⟩ := (poolStop Unit oneStatic).exists_reachesWhen (fun _ _ => True)
    (.fresh _) (submitting 3 ++ stopping ++ [.stop [], .stop [], .submit 0]) StopRun.broken rfl
    (by decide +kernel)
  exact ⟨⟨r, hr, of_decide_eq_true htest⟩, ⟨r', hr', htest'⟩⟩

end EchoServer
