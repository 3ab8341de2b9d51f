import EchoServer.Db.RequestDispatcher
import EchoServer.Lib.Machine

/-!
# The database worker pool

`db/db_worker_pool.cpp`, from `start` to the moment `stop` is called. A worker is the state
of its main loop in `run` and the tasks that the loop has started and not finished, next one
first : `flush_saves`, `process`, `handle` and `release` expand to tasks, and a database call
is two tasks, so that time passes and other workers go on while it runs.

The environment answers each database call (`Outcome`), moves the clock, and decides at the
top of a round whether the worker's connection is usable. `accepted`, `executed`,
`responded` and `released` record the requests taken in, the calls started on behalf of one,
the responses given to the sink and the requests that the depth counters no longer count; no
function reads them.
-/

namespace EchoServer

/-- How requests are divided among the workers. -/
inductive Dispatch where
  /-- A session key belongs to the worker its hash names. -/
  | static
  /-- Any worker takes the next key that is not being worked on. -/
  | dynamic
  deriving DecidableEq, Repr

/-- The options of the pool. -/
structure PoolConfig where
  workerCount : ℕ
  dispatch : Dispatch
  batchSize : ℕ
  /-- `std::hash` of a session key. -/
  hash : Bytes → ℕ

namespace PoolConfig

/-- The workers that `start` creates; without any the database is not used. -/
def workers (cfg : PoolConfig) : ℕ := min cfg.workerCount 64

/-- The Saves of one transaction at most. -/
def batch (cfg : PoolConfig) : ℕ := max 1 (min cfg.batchSize 256)

/-- The worker that a key belongs to under static dispatch. -/
def shardOf (cfg : PoolConfig) (key : Bytes) : ℕ := cfg.hash key % cfg.workers

end PoolConfig

/-- A queue with so many requests takes no more. -/
def kMaxQueuePerWorker : ℕ := 4096

/-- What a database call gives back, or whether the connection is up. -/
structure Outcome where
  ok : Bool
  /-- The call failed because the connection is lost. -/
  lost : Bool
  logId : ℕ
  rows : List LogRow
  hitCount : ℕ
  alreadyApplied : Bool
  deriving DecidableEq, Repr

/-- Whether a request may be tried again after a lost connection. -/
def isRetrySafe : RequestKind → Bool
  | .history | .counter => true
  | .save => false

variable {τ : Type*}

/-- Past the deadline of a request. -/
def Request.late (req : Request) (now : ℕ) : Bool := 0 < req.deadlineUs && req.deadlineUs < now

namespace Job

/-- The response to a request that was not executed, or whose query failed. -/
def failure (j : Job τ) (status : Status) : Response where
  kind := j.req.kind
  connId := j.req.connId
  status := status
  logId := 0
  rows := []
  hitCount := 0
  alreadyApplied := false

/-- The response to a request whose query succeeded. -/
def success (j : Job τ) (o : Outcome) : Response :=
  let res := { j.failure .ok with status := .ok }
  match j.req.kind with
  | .save => { res with logId := o.logId }
  | .history => { res with rows := o.rows }
  | .counter => { res with hitCount := o.hitCount, alreadyApplied := o.alreadyApplied }

/-- The responses to the Saves of a committed batch, each with the id of its own row. -/
def savedAll (saves : List (Job τ)) (logIds : List ℕ) : List (Job τ × Response) :=
  saves.zipIdx.map fun (j, i) => (j, { j.failure .ok with logId := logIds.getD i 0 })

/-- The responses to the Saves of a batch that was rolled back. -/
def failedAll (saves : List (Job τ)) (status : Status) : List (Job τ × Response) :=
  saves.map fun j => (j, j.failure status)

@[simp] theorem map_fst_savedAll (saves : List (Job τ)) (logIds : List ℕ) :
    (savedAll saves logIds).map Prod.fst = saves := by
  simp only [savedAll, List.map_map]
  exact List.zipIdx_map_fst 0 saves

@[simp] theorem map_fst_failedAll (saves : List (Job τ)) (status : Status) :
    (failedAll saves status).map Prod.fst = saves := by
  simp [failedAll, Function.comp_def]

end Job

/-- `Failed` on a usable connection, `Unavailable` on a lost one. -/
def failedStatus (usable : Bool) : Status := if usable then .failed else .unavailable

theorem failedStatus_ne_ok (usable : Bool) : failedStatus usable ≠ .ok := by
  cases usable <;> simp [failedStatus]

/-- What a worker has still to do for requests it has taken. -/
inductive Task (τ : Type*) where
  | flushSaves (saves : List (Job τ))
  -- `process` and `handle`
  | process (j : Job τ)
  | checkUsable (j : Job τ)
  | query (j : Job τ) (retry : Bool)
  | queried (j : Job τ) (retry : Bool)
  | reconnect (j : Job τ)
  | fail (j : Job τ)
  | respond (j : Job τ) (res : Response)
  | release (j : Job τ)
  -- the transaction of `flush_saves`; as many log ids as rows inserted
  | beginBatch (saves : List (Job τ))
  | insert (saves : List (Job τ)) (logIds : List ℕ)
  | inserted (saves : List (Job τ)) (logIds : List ℕ)
  | commitBatch (saves : List (Job τ)) (logIds : List ℕ)
  | rollbackBatch (saves : List (Job τ))
  | failBatch (saves : List (Job τ))
  | respondBatch (done : List (Job τ)) (todo : List (Job τ × Response))

/-- What a task does outside its worker. -/
inductive Effect (τ : Type*) where
  | none
  /-- A database call starts on behalf of a request. -/
  | execute (j : Job τ)
  | respond (j : Job τ) (res : Response)
  | release (j : Job τ)

/-- Execute a task : whether the connection is usable after it, the tasks it expands to,
and its effect. -/
def Task.exec (now : ℕ) (usable : Bool) (o : Outcome) : Task τ → Bool × List (Task τ) × Effect τ
  | .flushSaves saves =>
    match saves with
    | [] => (usable, [], .none)
    | [j] => (usable, [.process j], .none)
    | _ => (usable, [.beginBatch saves], .none)
  | .process j =>
    if j.req.late now then (usable, [.respond j (j.failure .expired)], .none)
    else (usable, [.checkUsable j], .none)
  | .checkUsable j =>
    if usable then (usable, [.query j false], .none)
    else (usable, [.respond j (j.failure .unavailable)], .none)
  | .query j retry => (usable, [.queried j retry], .execute j)
  | .queried j retry =>
    if o.ok then (usable, [.respond j (j.success o)], .none)
    else
      let usable := usable && !o.lost
      if !retry && !usable && isRetrySafe j.req.kind then (usable, [.reconnect j], .none)
      else (usable, [.fail j], .none)
  | .reconnect j => (o.ok, [if o.ok then .query j true else .fail j], .none)
  | .fail j => (usable, [.respond j (j.failure (failedStatus usable))], .none)
  | .respond j res => (usable, [.release j], .respond j res)
  | .release j => (usable, [], .release j)
  | .beginBatch saves =>
    if o.ok then (usable, [.insert saves []], .none)
    else (usable && !o.lost, [.rollbackBatch saves], .none)
  | .insert saves logIds =>
    match saves[logIds.length]? with
    | some j => (usable, [.inserted saves logIds], .execute j)
    | none => (usable, [.commitBatch saves logIds], .none)
  | .inserted saves logIds =>
    if o.ok then (usable, [.insert saves (logIds ++ [o.logId])], .none)
    else (usable && !o.lost, [.rollbackBatch saves], .none)
  | .commitBatch saves logIds =>
    if o.ok then (usable, [.respondBatch [] (Job.savedAll saves logIds)], .none)
    else (usable && !o.lost, [.rollbackBatch saves], .none)
  | .rollbackBatch saves => (usable && !o.lost, [.failBatch saves], .none)
  | .failBatch saves =>
    (usable, [.respondBatch [] (Job.failedAll saves (failedStatus usable))], .none)
  | .respondBatch done todo =>
    match todo with
    | [] => (usable, done.map .release, .none)
    | (j, res) :: todo => (usable, [.respondBatch (done ++ [j]) todo], .respond j res)

/-- Where a worker is in the loop of `run`. -/
inductive Loop (τ : Type*) where
  /-- The top of a round : reconnect, or ping. -/
  | maintain
  /-- Static dispatch : swap out the queue, then look at the requests in it. -/
  | swap
  | scan (saves batch : List (Job τ))
  /-- Dynamic dispatch : take the next request from the dispatcher. -/
  | take (saves : List (Job τ))

/-- A worker, with what it has taken in. -/
structure Worker (τ : Type*) where
  usable : Bool
  /-- The requests submitted to this worker and not swapped out; static dispatch only. -/
  queue : List (Job τ)
  depth : ℕ
  loop : Loop τ
  tasks : List (Task τ)

namespace Worker

/-- A worker before its first round. -/
def fresh : Worker τ := ⟨false, [], 0, .maintain, []⟩

/-- `batchable` : whether a request is collected instead of processed by itself. -/
def batchable (cfg : PoolConfig) (now : ℕ) (j : Job τ) : Bool :=
  1 < cfg.batch && j.req.kind = .save && !j.req.late now

/-- What the loop does with the request it looks at; `next` is the loop with the Saves
collected so far. -/
def handOver (cfg : PoolConfig) (now : ℕ) (j : Job τ) (saves : List (Job τ))
    (next : List (Job τ) → Loop τ) (w : Worker τ) : Worker τ :=
  if batchable cfg now j then
    let saves := saves ++ [j]
    if cfg.batch ≤ saves.length then { w with tasks := [.flushSaves saves], loop := next [] }
    else { w with loop := next saves }
  else { w with tasks := [.flushSaves saves, .process j], loop := next [] }

end Worker

/-- The pool : its workers, the queue they share, and what has become of the requests. -/
structure Pool (τ : Type*) where
  now : ℕ
  draining : Bool
  workers : List (Worker τ)
  shared : RequestDispatcher τ
  accepted : List (Job τ)
  executed : List (Job τ)
  responded : List (Job τ × Response)
  released : List (Job τ)

namespace Pool

/-- The pool before the first request. -/
def fresh (cfg : PoolConfig) : Pool τ :=
  ⟨0, false, List.replicate cfg.workers .fresh, .empty, [], [], [], []⟩

/-- The counters that `WorkerPool::queued` adds up. -/
def counters (cfg : PoolConfig) (p : Pool τ) : List ℕ :=
  match cfg.dispatch with
  | .static => p.workers.map Worker.depth
  | .dynamic => [p.shared.depth]

/-- Replace worker `i`. -/
def setWorker (i : ℕ) (w : Worker τ) (p : Pool τ) : Pool τ :=
  { p with workers := p.workers.set i w }

/-- Take a request in, unless the pool is off or draining or the queue is full. -/
def submit (cfg : PoolConfig) (req : Request) (tag : τ) (p : Pool τ) : Bool × Pool τ :=
  if p.workers.isEmpty || p.draining then (false, p)
  else
    let j : Job τ := ⟨req, p.accepted.length, tag⟩
    match cfg.dispatch with
    | .dynamic =>
      match p.shared.push (kMaxQueuePerWorker * p.workers.length) j with
      | none => (false, p)
      | some shared => (true, { p with shared, accepted := p.accepted ++ [j] })
    | .static =>
      match p.workers[cfg.shardOf req.sessionKey]? with
      | none => (false, p)
      | some w =>
        if kMaxQueuePerWorker ≤ w.depth then (false, p)
        else
          (true, { p.setWorker (cfg.shardOf req.sessionKey)
              { w with queue := w.queue ++ [j], depth := w.depth + 1 } with
            accepted := p.accepted ++ [j] })

/-- The effect of a task of worker `i`, which is now `w`. -/
def apply (cfg : PoolConfig) (i : ℕ) (w : Worker τ) (p : Pool τ) : Effect τ → Pool τ
  | .none => p.setWorker i w
  | .execute j => { p.setWorker i w with executed := p.executed ++ [j] }
  | .respond j res => { p.setWorker i w with responded := p.responded ++ [(j, res)] }
  | .release j =>
    let p := { p with released := p.released ++ [j] }
    match cfg.dispatch with
    | .static => p.setWorker i { w with depth := w.depth - 1 }
    | .dynamic => { p.setWorker i w with shared := p.shared.finish j.key }

/-- Worker `i`, which is `w` and has no task left, goes on in its loop. -/
def loopStep (cfg : PoolConfig) (i : ℕ) (w : Worker τ) (o : Outcome) (p : Pool τ) : Pool τ :=
  match w.loop with
  | .maintain =>
    p.setWorker i { w with
      usable := o.ok
      loop := match cfg.dispatch with | .static => .swap | .dynamic => .take [] }
  | .swap => p.setWorker i { w with queue := [], loop := .scan [] w.queue }
  | .scan saves [] => p.setWorker i { w with tasks := [.flushSaves saves], loop := .maintain }
  | .scan saves (j :: batch) => p.setWorker i (w.handOver cfg p.now j saves (.scan · batch))
  | .take saves =>
    match p.shared.take with
    | (none, shared) =>
      { p.setWorker i { w with tasks := [.flushSaves saves], loop := .maintain } with shared }
    | (some j, shared) =>
      { p.setWorker i (w.handOver cfg p.now j saves .take) with shared }

/-- The next step of worker `i`. -/
def work (cfg : PoolConfig) (i : ℕ) (o : Outcome) (p : Pool τ) : Option (Pool τ) :=
  match p.workers[i]? with
  | none => none
  | some w =>
    match w.tasks with
    | [] => some (p.loopStep cfg i w o)
    | t :: rest =>
      let (usable, new, effect) := t.exec p.now w.usable o
      some (p.apply cfg i { w with usable, tasks := new ++ rest } effect)

end Pool

/-- What happens to the pool next. -/
inductive PoolStep (τ : Type*) where
  | submit (req : Request) (tag : τ)
  | work (i : ℕ) (o : Outcome)
  /-- Time passes. -/
  | tick (us : ℕ)
  /-- `drain` closes the pool to new requests. -/
  | drain

/-- The pool among the threads that submit to it. -/
def workerPool (τ : Type*) (cfg : PoolConfig) : Machine (Pool τ) (PoolStep τ) where
  init p := p = .fresh cfg
  step p
    | .submit req tag => some (p.submit cfg req tag).2
    | .work i o => p.work cfg i o
    | .tick us => some { p with now := p.now + us }
    | .drain => some { p with draining := true }

end EchoServer
