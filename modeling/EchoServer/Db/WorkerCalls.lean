import EchoServer.Db.MysqlConnection
import EchoServer.Db.WorkerPool

/-!
# What a worker does with a request

`run_once`, `handle`, `process` and `flush_saves` of `db/db_worker_pool.cpp`, each as one step
on the worker's connection, and the look of a static worker at the queue it has swapped out.
`Db.WorkerPool` cuts the same functions into tasks, for what other threads do meanwhile; here
the database is in view instead.

Whether a request is past its deadline is said once, beside the request.
-/

namespace EchoServer

/-- The statements and tables that a worker's connection is set up for. -/
structure DbLinkConfig where
  /-- `use_procedures`. -/
  procs : Bool
  /-- When the row of `echo_log` with an id was created. -/
  createdAt : ℕ → ℕ

/-- A request, and whether it is past its deadline. -/
structure Asked where
  req : Request
  late : Bool

/-- How the calls for a request or for a batch end. -/
structure CallFaults where
  /-- Of the query, of opening the connection again, and of the second try. -/
  first : Faults
  connected : Bool
  second : Faults
  /-- Of the transaction around a batch, and of each of its Saves. -/
  batch : Faults
  insert : ℕ → Faults

/-- No call fails. -/
def CallFaults.none : CallFaults := ⟨.none, true, .none, .none, fun _ => .none⟩

/-- The response that holds what a query gave back. -/
def Request.response (req : Request) (status : Status) (ret : Returned) : Response where
  kind := req.kind
  connId := req.connId
  status := status
  logId := ret.logId
  rows := ret.rows
  hitCount := ret.hitCount
  alreadyApplied := ret.alreadyApplied

namespace DbLink

variable (cfg : DbLinkConfig)

/-- One attempt at a request. -/
def runOnce (F : Faults) (req : Request) (c : DbLink) : Returned × DbLink :=
  match req.kind with
  | .save => c.save cfg.procs F req.sessionKey req.payload
  | .history => c.history cfg.createdAt cfg.procs F req.sessionKey req.limit
  | .counter => c.counter cfg.procs F req.sessionKey req.requestKey

/-- The last try has failed. -/
def giveUp (req : Request) (ret : Returned) (c : DbLink) : Response × DbLink :=
  (req.response (failedStatus c.usable) ret, c)

/-- A request, with one attempt more where it may be repeated. -/
def handle (H : CallFaults) (x : Asked) (c : DbLink) : Response × DbLink :=
  if x.late then (x.req.response .expired .failed, c)
  else if !c.usable then (x.req.response .unavailable .failed, c)
  else
    let (ret, c) := runOnce cfg H.first x.req c
    if ret.ok then (x.req.response .ok ret, c)
    else if !c.usable && isRetrySafe x.req.kind then
      match c.ensureUsable H.connected with
      | (false, c) => giveUp x.req ret c
      | (true, c) =>
        let (ret, c) := runOnce cfg H.second x.req c
        if ret.ok then (x.req.response .ok ret, c) else giveUp x.req ret c
    else giveUp x.req ret c

/-- The inserts of a batch, and the log ids of those that were done. -/
def saveAll (H : CallFaults) : ℕ → List Asked → DbLink → (Bool × List ℕ) × DbLink
  | _, [], c => ((true, []), c)
  | i, x :: saves, c =>
    let (ret, c) := c.save cfg.procs (H.insert i) x.req.sessionKey x.req.payload
    if ret.ok then
      let ((ok, logIds), c) := saveAll H (i + 1) saves c
      ((ok, ret.logId :: logIds), c)
    else ((false, []), c)

/-- The transaction of a batch. -/
def batchTxn (H : CallFaults) (saves : List Asked) (c : DbLink) : (Bool × List ℕ) × DbLink :=
  match c.beginBatch H.batch with
  | (false, c) => ((false, []), c)
  | (true, c) =>
    match saveAll cfg H 0 saves c with
    | ((false, logIds), c) => ((false, logIds), c)
    | ((true, logIds), c) =>
      let (ok, c) := c.commitBatch H.batch
      ((ok, logIds), c)

/-- A batch of Saves, in one transaction. -/
def flushSaves (H : CallFaults) (saves : List Asked) (c : DbLink) : List Response × DbLink :=
  match saves with
  | [] => ([], c)
  | [x] =>
    let (res, c) := c.handle cfg H x
    ([res], c)
  | saves =>
    match batchTxn cfg H saves c with
    | ((true, logIds), c) =>
      ((saves.zip logIds).map fun (x, logId) =>
        x.req.response .ok { Returned.failed with logId }, c)
    | ((false, _), c) =>
      let c := c.rollbackBatch H.batch
      (saves.map fun x => x.req.response (failedStatus c.usable) .failed, c)

/-- `batchable`, for batches of at most `size`. -/
def batchable (size : ℕ) (x : Asked) : Bool := 1 < size && x.req.kind = .save && !x.late

/-- The look at a queue, with the Saves collected so far. How calls end depends on the number
of responses given so far. -/
def scan (size : ℕ) (H : ℕ → CallFaults) :
    ℕ → List Asked → List Asked → DbLink → List Response × DbLink
  | n, saves, [], c => c.flushSaves cfg (H n) saves
  | n, saves, x :: queue, c =>
    if batchable size x then
      let saves := saves ++ [x]
      if size ≤ saves.length then
        let (done, c) := c.flushSaves cfg (H n) saves
        let (rest, c) := scan size H (n + done.length) [] queue c
        (done ++ rest, c)
      else scan size H n saves queue c
    else
      let (done, c) := c.flushSaves cfg (H n) saves
      let (res, c) := c.handle cfg (H (n + done.length)) x
      let (rest, c) := scan size H (n + done.length + 1) [] queue c
      (done ++ res :: rest, c)

/-- A round of a static worker that has swapped out `queue`. -/
def round (size : ℕ) (H : ℕ → CallFaults) (queue : List Asked) (c : DbLink) :
    List Response × DbLink :=
  scan cfg size H 0 [] queue c

end DbLink

end EchoServer
