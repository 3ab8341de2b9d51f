import EchoServer.Db.WorkerCalls

/-!
# The database when no call fails

A `Store` is the content of the database, and `Store.serve` what a request asks of it. On a
connection that has just been opened, each path of `save`, `history` and `counter` serves the
request and leaves the connection as it was (`perform_opened`). So the two paths give the same
results over any sequence of calls (`direct_procedures_agree`).

A batch of Saves serves them one after the other (`flushSaves_opened`), and the worker's loop
serves the requests of its queue in order, whatever it collects on the way
(`scan_opened`). So batching is not seen (`batching_transparent`).

Two runs do not create their rows at the same times, so results are compared without them.
-/

namespace EchoServer

/-- A call of the public functions of a connection. -/
inductive DbCall where
  | save (sessionKey payload : Bytes)
  | history (sessionKey : Bytes) (limit : ℕ)
  | counter (sessionKey requestKey : Bytes)

/-- What a connection leaves behind : the tables, and the next id of a row. -/
structure Store where
  tables : Tables
  nextLogId : ℕ

/-- Less the times of the rows. -/
def LogRow.untimed (row : LogRow) : LogRow := { row with createdAtMs := 0 }

/-- What a call gave back, but for the times of its rows. -/
def Returned.untimed (ret : Returned) : Returned := { ret with rows := ret.rows.map .untimed }

/-- A response, but for the times of its rows. -/
def Response.untimed (res : Response) : Response := { res with rows := res.rows.map .untimed }

namespace Store

/-- What a call asks of the database. -/
def serve (createdAt : ℕ → ℕ) (s : Store) : DbCall → Returned × Store
  | .save sessionKey payload =>
    ({ Returned.failed with ok := true, logId := s.nextLogId },
      ⟨s.tables.insertLog s.nextLogId sessionKey payload, s.nextLogId + 1⟩)
  | .history sessionKey limit =>
    ({ Returned.failed with ok := true, rows := s.tables.recent createdAt sessionKey limit }, s)
  | .counter sessionKey requestKey =>
    if s.tables.claimed requestKey then
      ({ Returned.failed with
        ok := true, hitCount := (s.tables.hitCount sessionKey).getD 0, alreadyApplied := true }, s)
    else
      ({ Returned.failed with
        ok := true, hitCount := (s.tables.hitCount sessionKey).getD 0 + 1 },
        { s with tables := s.tables.apply sessionKey requestKey })

/-- A sequence of calls. -/
def serveAll (createdAt : ℕ → ℕ) : List DbCall → Store → List Returned × Store
  | [], s => ([], s)
  | call :: calls, s =>
    let (ret, s) := s.serve createdAt call
    let (rets, s) := serveAll createdAt calls s
    (ret :: rets, s)

/-- The response to a request, and what it does to the database. -/
def respond (createdAt : ℕ → ℕ) (x : Asked) (s : Store) : Response × Store :=
  if x.late then (x.req.response .expired .failed, s)
  else
    let call := match x.req.kind with
      | .save => DbCall.save x.req.sessionKey x.req.payload
      | .history => .history x.req.sessionKey x.req.limit
      | .counter => .counter x.req.sessionKey x.req.requestKey
    let (ret, s) := s.serve createdAt call
    (x.req.response .ok ret, s)

/-- One request after the other. -/
def respondAll (createdAt : ℕ → ℕ) : List Asked → Store → List Response × Store
  | [], s => ([], s)
  | x :: queue, s =>
    let (res, s) := s.respond createdAt x
    let (rest, s) := respondAll createdAt queue s
    (res :: rest, s)

/-- The connection that has just been opened. -/
def link (s : Store) : DbLink := .opened s.tables s.nextLogId

/-- The connection in a transaction that was opened on the tables `base`. -/
def inTxn (base : Tables) (s : Store) : DbLink :=
  ⟨base, s.nextLogId, some s.tables, true, false, false⟩

/-! ## The times of the rows -/

variable (createdAt createdAt' : ℕ → ℕ) (s : Store)

/-- The newest rows are the same whenever they were written, but for the time. -/
theorem recent_untimed (t : Tables) (sessionKey : Bytes) (limit : ℕ) :
    (t.recent createdAt sessionKey limit).map LogRow.untimed =
      (t.recent createdAt' sessionKey limit).map LogRow.untimed := by
  simp [Tables.recent, LogRow.untimed, Function.comp_def]

/-- So is what a call gives back and leaves behind. -/
theorem serve_untimed (call : DbCall) :
    (s.serve createdAt call).1.untimed = (s.serve createdAt' call).1.untimed ∧
      (s.serve createdAt call).2 = (s.serve createdAt' call).2 := by
  cases call with
  | save sessionKey payload => exact ⟨rfl, rfl⟩
  | history sessionKey limit =>
    refine ⟨?_, rfl⟩
    simp only [serve, Returned.untimed, recent_untimed createdAt createdAt']
  | counter sessionKey requestKey => exact ⟨rfl, rfl⟩

/-- And what a list of calls does, by induction on it. -/
theorem serveAll_untimed (calls : List DbCall) :
    (serveAll createdAt calls s).1.map Returned.untimed =
        (serveAll createdAt' calls s).1.map Returned.untimed ∧
      (serveAll createdAt calls s).2 = (serveAll createdAt' calls s).2 := by
  induction calls generalizing s with
  | nil => exact ⟨rfl, rfl⟩
  | cons call calls ih =>
    obtain ⟨hret, hs⟩ := serve_untimed createdAt createdAt' s call
    obtain ⟨hrets, hend⟩ := ih (s.serve createdAt call).2
    simp only [serveAll, List.map_cons, hret, ← hs, hrets, hend, and_self]

/-- The response to a request does not depend on the times of the rows but in these times. -/
theorem respond_untimed (x : Asked) :
    (s.respond createdAt x).1.untimed = (s.respond createdAt' x).1.untimed ∧
      (s.respond createdAt x).2 = (s.respond createdAt' x).2 := by
  unfold respond
  split_ifs
  · exact ⟨rfl, rfl⟩
  · obtain ⟨hret, hs⟩ := serve_untimed createdAt createdAt' s
      (match x.req.kind with
      | .save => DbCall.save x.req.sessionKey x.req.payload
      | .history => .history x.req.sessionKey x.req.limit
      | .counter => .counter x.req.sessionKey x.req.requestKey)
    refine ⟨?_, hs⟩
    simp only [Returned.untimed, Returned.mk.injEq] at hret
    simp only [Request.response, Response.untimed, hret]

/-- Nor do the responses to a list of requests. -/
theorem respondAll_untimed (queue : List Asked) :
    (respondAll createdAt queue s).1.map Response.untimed =
        (respondAll createdAt' queue s).1.map Response.untimed ∧
      (respondAll createdAt queue s).2 = (respondAll createdAt' queue s).2 := by
  induction queue generalizing s with
  | nil => exact ⟨rfl, rfl⟩
  | cons x queue ih =>
    obtain ⟨hres, hs⟩ := respond_untimed createdAt createdAt' s x
    obtain ⟨hrest, hend⟩ := ih (s.respond createdAt x).2
    simp only [respondAll, List.map_cons, hres, ← hs, hrest, hend, and_self]

/-- Two stretches of requests are answered one after the other. -/
theorem respondAll_append (queue queue' : List Asked) :
    respondAll createdAt (queue ++ queue') s =
      ((respondAll createdAt queue s).1 ++
          (respondAll createdAt queue' (respondAll createdAt queue s).2).1,
        (respondAll createdAt queue' (respondAll createdAt queue s).2).2) := by
  induction queue generalizing s with
  | nil => rfl
  | cons x queue ih => simp [respondAll, ih]

end Store

namespace DbLink

/-- A call of the public functions. -/
def perform (cfg : DbLinkConfig) (F : Faults) (c : DbLink) : DbCall → Returned × DbLink
  | .save sessionKey payload => c.save cfg.procs F sessionKey payload
  | .history sessionKey limit => c.history cfg.createdAt cfg.procs F sessionKey limit
  | .counter sessionKey requestKey => c.counter cfg.procs F sessionKey requestKey

/-- A sequence of calls, none of which fails. -/
def performAll (cfg : DbLinkConfig) : List DbCall → DbLink → List Returned × DbLink
  | [], c => ([], c)
  | call :: calls, c =>
    let (ret, c) := perform cfg .none c call
    let (rets, c) := performAll cfg calls c
    (ret :: rets, c)

/-! ## One call -/

variable {α : Type} {c : DbLink}

@[simp] theorem faults_none (site : Site) : Faults.none site = .ok := rfl

@[simp] theorem client_ok (c : DbLink) : client .ok c = (.ok (), c) := rfl

@[simp] theorem inProc_ok (act : Call α) : inProc .ok act = act := rfl

/-- A statement without a fault does what the server does. -/
theorem command_ok (halive : c.alive = true) (hdrained : c.undrained = false) (act : Call α) :
    command .ok act c = act c := by
  simp [command, halive, hdrained]

/-- So does one that is given no fault and succeeds on the server. -/
theorem exec_none_ok (halive : c.alive = true) (hdrained : c.undrained = false) (st : Statement)
    {act : Call α} {a : α} {c' : DbLink} (h : act c = (.ok a, c')) :
    exec .none st act c = (.ok a, c') := by
  simp [exec, command_ok halive hdrained, h]

@[simp] theorem storeResult_none (st : Statement) (c : DbLink) :
    storeResult .none st c = (.ok (), c) := by
  simp [storeResult]

@[simp] theorem drain_none (st : Statement) (c : DbLink) :
    c.drain .none st = { c with undrained := false } := rfl

@[simp] theorem fetchOut_none (st : Statement) (c : DbLink) :
    fetchOut .none st c = (.ok (), { c with undrained := false }) := by
  simp [fetchOut]

@[simp] theorem fetchRows_none (st : Statement) (i : ℕ) (rows : List LogRow) (c : DbLink) :
    fetchRows .none st i rows c = ((true, rows), c) := by
  induction rows generalizing i with
  | nil => simp [fetchRows]
  | cons row rows ih => simp [fetchRows, ih]

variable (cfg : DbLinkConfig)

/-- Without faults, a Save on a clean connection does what the store does. -/
theorem save_opened (s : Store) (sessionKey payload : Bytes) :
    save cfg.procs .none sessionKey payload s.link =
      ((s.serve cfg.createdAt (.save sessionKey payload)).1,
        (s.serve cfg.createdAt (.save sessionKey payload)).2.link) := by
  cases hp : cfg.procs
  · simp [save, saveDirect, exec, command, Store.link, opened, usable, insertLog, write, view,
      Store.serve]
  · simp [save, saveProc, exec, command, called, pending, Store.link, opened, usable, insertLog, write,
      view, Store.serve]

/-- So does a History. -/
theorem history_opened (s : Store) (sessionKey : Bytes) (limit : ℕ) :
    history cfg.createdAt cfg.procs .none sessionKey limit s.link =
      ((s.serve cfg.createdAt (.history sessionKey limit)).1, s.link) := by
  cases hp : cfg.procs
  · simp [history, historyDirect, exec, command, Store.link, opened, usable, selectRecent,
      fetchHistoryRows, view, Store.serve]
  · simp [history, historyProc, exec, command, called, pending, Store.link, opened, usable, selectRecent,
      fetchHistoryRows, view, Store.serve]

/-- And a Counter, by whichever path. -/
theorem counter_opened (s : Store) (sessionKey requestKey : Bytes) :
    counter cfg.procs .none sessionKey requestKey s.link =
      ((s.serve cfg.createdAt (.counter sessionKey requestKey)).1,
        (s.serve cfg.createdAt (.counter sessionKey requestKey)).2.link) := by
  cases hp : cfg.procs <;> cases hdup : s.tables.claimed requestKey
  · simp [counter, counterDirect, exec, command, Store.link, opened, usable, runPlain,
      startTransaction, insertClaim, counterIncrement, bumpCounter, selectHitCount, write, view,
      commitTransaction, Store.serve, hdup, Tables.hitCount_bump_self, Tables.apply]
  · simp [counter, counterDirect, exec, command, Store.link, opened, usable, runPlain, note,
      startTransaction, insertClaim, counterDuplicate, rollback, rollbackTransaction,
      selectHitCount, view, Store.serve, hdup]
  · simp [counter, counterProc, exec, command, called, pending, Store.link, opened, usable,
      spApplyCounter, startTransaction, insertClaim, spIncrement, bumpCounter, selectHitCount,
      write, view, commitTransaction, Store.serve, hdup, Tables.hitCount_bump_self, Tables.apply,
      Returned.failed]
  · simp [counter, counterProc, exec, command, called, pending, Store.link, opened, usable,
      spApplyCounter, startTransaction, insertClaim, spDuplicate, rollbackTransaction,
      selectHitCount, view, Store.serve, hdup]

/-- Each path serves the call, and leaves the connection as it was. -/
theorem perform_opened (s : Store) (call : DbCall) :
    perform cfg .none s.link call =
      ((s.serve cfg.createdAt call).1, (s.serve cfg.createdAt call).2.link) := by
  cases call with
  | save sessionKey payload => exact save_opened cfg s sessionKey payload
  | history sessionKey limit => exact history_opened cfg s sessionKey limit
  | counter sessionKey requestKey => exact counter_opened cfg s sessionKey requestKey

/-- A list of calls does what the store does, by induction on it. -/
theorem performAll_opened (calls : List DbCall) (s : Store) :
    performAll cfg calls s.link =
      ((s.serveAll cfg.createdAt calls).1, (s.serveAll cfg.createdAt calls).2.link) := by
  induction calls generalizing s with
  | nil => rfl
  | cons call calls ih => simp only [performAll, perform_opened, ih, Store.serveAll]

/-! ## The requests of a queue -/

/-- A request that is handled one by one is answered as the store answers it. -/
theorem handle_opened (x : Asked) (s : Store) :
    handle cfg .none x s.link =
      ((s.respond cfg.createdAt x).1, (s.respond cfg.createdAt x).2.link) := by
  obtain ⟨⟨kind, connId, sessionKey, payload, requestKey, limit, deadlineUs⟩, late⟩ := x
  cases late
  · have husable : s.link.usable = true := rfl
    cases kind
    · have h := save_opened cfg s sessionKey payload
      simp only [Store.serve] at h
      simp [handle, husable, runOnce, CallFaults.none, h, Store.respond, Store.serve]
    · have h := history_opened cfg s sessionKey limit
      simp only [Store.serve] at h
      simp [handle, husable, runOnce, CallFaults.none, h, Store.respond, Store.serve]
    · have h := counter_opened cfg s sessionKey requestKey
      have hok : (s.serve cfg.createdAt (.counter sessionKey requestKey)).1.ok = true := by
        simp only [Store.serve]
        split_ifs <;> rfl
      simp [handle, husable, runOnce, CallFaults.none, h, hok, Store.respond]
  · rfl

/-- Inside a transaction, the row of a Save is not committed yet. -/
theorem save_inTxn (base : Tables) (s : Store) (sessionKey payload : Bytes) :
    save cfg.procs .none sessionKey payload (s.inTxn base) =
      ((s.serve cfg.createdAt (.save sessionKey payload)).1,
        (s.serve cfg.createdAt (.save sessionKey payload)).2.inTxn base) := by
  cases hp : cfg.procs
  · simp [save, saveDirect, exec, command, Store.inTxn, usable, insertLog, write, view,
      Store.serve]
  · simp [save, saveProc, exec, command, called, pending, Store.inTxn, usable, insertLog, write, view,
      Store.serve]

/-- Saves that a batch may hold. -/
def Batchable (saves : List Asked) : Prop := ∀ x ∈ saves, x.req.kind = .save ∧ x.late = false

/-- The store answers a Save that is in time with the id of its row. -/
theorem respond_save {x : Asked} (hx : x.req.kind = .save ∧ x.late = false) (s : Store) :
    s.respond cfg.createdAt x =
      (x.req.response .ok { Returned.failed with ok := true, logId := s.nextLogId },
        ⟨s.tables.insertLog s.nextLogId x.req.sessionKey x.req.payload, s.nextLogId + 1⟩) := by
  simp [Store.respond, hx.1, hx.2, Store.serve]

/-- In a transaction the Saves of a batch are done one after the other. -/
theorem saveAll_inTxn (base : Tables) {saves : List Asked} (hsaves : Batchable saves) (i : ℕ)
    (s : Store) :
    saveAll cfg .none i saves (s.inTxn base) =
      ((true, (s.respondAll cfg.createdAt saves).1.map Response.logId),
        (s.respondAll cfg.createdAt saves).2.inTxn base) := by
  induction saves generalizing i s with
  | nil => rfl
  | cons x saves ih =>
    have hx := hsaves x List.mem_cons_self
    have hsave := save_inTxn cfg base s x.req.sessionKey x.req.payload
    simp only [Store.serve] at hsave
    have hrest := ih (fun y hy => hsaves y (List.mem_cons_of_mem _ hy)) (i + 1)
      ⟨s.tables.insertLog s.nextLogId x.req.sessionKey x.req.payload, s.nextLogId + 1⟩
    simp only [saveAll, CallFaults.none, hsave, ↓reduceIte, Store.respondAll,
      respond_save cfg hx, List.map_cons] at hrest ⊢
    rw [hrest]
    rfl

/-- Each response of a batch holds the log id of its own row. -/
theorem zip_logIds {saves : List Asked} (hsaves : Batchable saves) (s : Store) :
    (saves.zip ((s.respondAll cfg.createdAt saves).1.map Response.logId)).map
        (fun (x, logId) => x.req.response .ok { Returned.failed with logId }) =
      (s.respondAll cfg.createdAt saves).1 := by
  induction saves generalizing s with
  | nil => rfl
  | cons x saves ih =>
    have hx := hsaves x List.mem_cons_self
    have hrest := ih fun y hy => hsaves y (List.mem_cons_of_mem _ hy)
    simp only [Store.respondAll, respond_save cfg hx, List.map_cons, List.zip_cons_cons, hrest]
    rfl

/-- The transaction of a batch gives the ids that the store gives one by one. -/
theorem batchTxn_opened {saves : List Asked} (hsaves : Batchable saves) (s : Store) :
    batchTxn cfg .none saves s.link =
      ((true, (s.respondAll cfg.createdAt saves).1.map Response.logId),
        (s.respondAll cfg.createdAt saves).2.link) := by
  have hbegin : beginBatch .none s.link = (true, s.inTxn s.tables) := rfl
  have hcommit : ∀ s' : Store, commitBatch .none (s'.inTxn s.tables) = (true, s'.link) :=
    fun _ => rfl
  have hall := saveAll_inTxn cfg s.tables hsaves 0 s
  simp only [CallFaults.none] at hall
  simp only [batchTxn, CallFaults.none, hbegin, hall, hcommit]

/-- A batch is answered as its Saves are one by one. -/
theorem flushSaves_opened {saves : List Asked} (hsaves : Batchable saves) (s : Store) :
    flushSaves cfg .none saves s.link =
      ((s.respondAll cfg.createdAt saves).1, (s.respondAll cfg.createdAt saves).2.link) := by
  match saves with
  | [] => rfl
  | [x] => simp only [flushSaves, handle_opened, Store.respondAll]
  | x :: y :: saves =>
    simp only [flushSaves, batchTxn_opened cfg hsaves, zip_logIds cfg hsaves]

/-- The worker's look at its queue serves the requests in order, the Saves it has collected
first. -/
theorem scan_opened (size n : ℕ) {saves : List Asked} (hsaves : Batchable saves)
    (queue : List Asked) (s : Store) :
    scan cfg size (fun _ => .none) n saves queue s.link =
      ((s.respondAll cfg.createdAt (saves ++ queue)).1,
        (s.respondAll cfg.createdAt (saves ++ queue)).2.link) := by
  induction queue generalizing n saves s with
  | nil => rw [scan, flushSaves_opened cfg hsaves, List.append_nil]
  | cons x queue ih =>
    have hnil : Batchable [] := fun _ h => absurd h List.not_mem_nil
    have hsplit : saves ++ x :: queue = (saves ++ [x]) ++ queue := by simp
    rw [scan]
    by_cases hbatch : batchable size x = true
    · have hx : Batchable (saves ++ [x]) := by
        simp only [batchable, Bool.and_eq_true, decide_eq_true_eq, Bool.not_eq_eq_eq_not,
          Bool.not_true] at hbatch
        simp only [Batchable, List.mem_append, List.mem_singleton]
        rintro y (hy | rfl)
        · exact hsaves y hy
        · exact ⟨hbatch.1.2, hbatch.2⟩
      rw [if_pos hbatch, hsplit]
      dsimp only
      split_ifs
      · simp only [flushSaves_opened cfg hx, ih _ hnil, List.nil_append,
          Store.respondAll_append _ _ (saves ++ [x]) queue]
      · exact ih _ hx s
    · rw [if_neg hbatch]
      simp only [flushSaves_opened cfg hsaves, handle_opened, ih _ hnil, List.nil_append,
        Store.respondAll_append _ _ saves (x :: queue), Store.respondAll]

end DbLink

/-- The direct path and the path through the procedures give the same results, call by call,
and leave the same tables, over any sequence of calls none of which fails. -/
theorem direct_procedures_agree (createdAt createdAt' : ℕ → ℕ) (calls : List DbCall) (s : Store) :
    (DbLink.performAll ⟨false, createdAt⟩ calls s.link).1.map Returned.untimed =
        (DbLink.performAll ⟨true, createdAt'⟩ calls s.link).1.map Returned.untimed ∧
      (DbLink.performAll ⟨false, createdAt⟩ calls s.link).2.tables =
        (DbLink.performAll ⟨true, createdAt'⟩ calls s.link).2.tables := by
  obtain ⟨hrets, hs⟩ := s.serveAll_untimed createdAt createdAt' calls
  simp only [DbLink.performAll_opened, hrets, hs, and_self]

/-- A static worker gives the same responses in the same order, and leaves the same tables,
whatever the size of its batches, when no call of its connection fails. -/
theorem batching_transparent (procs : Bool) (createdAt createdAt' : ℕ → ℕ) (pool : PoolConfig)
    (queue : List Asked) (s : Store) :
    (DbLink.round ⟨procs, createdAt⟩ pool.batch (fun _ => .none) queue s.link).1.map
          Response.untimed =
        (DbLink.round ⟨procs, createdAt'⟩ 1 (fun _ => .none) queue s.link).1.map
          Response.untimed ∧
      (DbLink.round ⟨procs, createdAt⟩ pool.batch (fun _ => .none) queue s.link).2.tables =
        (DbLink.round ⟨procs, createdAt'⟩ 1 (fun _ => .none) queue s.link).2.tables := by
  obtain ⟨hres, hs⟩ := s.respondAll_untimed createdAt createdAt' queue
  have hnil : DbLink.Batchable [] := fun _ h => absurd h List.not_mem_nil
  simp only [DbLink.round, DbLink.scan_opened _ _ _ hnil, List.nil_append, hres, hs, and_self]

end EchoServer
