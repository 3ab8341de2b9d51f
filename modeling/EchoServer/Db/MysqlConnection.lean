import EchoServer.Db.Tables

/-!
# A connection to the database

`db/mysql_connection.cpp` and the procedures of `sql/002_procedures.sql` that it calls. A
`DbLink` is the connection together with the database behind it : what is committed, and what
the open transaction sees.

Each call of the client library, and each statement inside `sp_apply_counter`, has a name
(`Site`), and the environment says how it ends (`Fault`). A call that fails with an error has
no effect, but the server may have ended the transaction with it, as it does on a deadlock.
When the connection is lost the server has done the call or has not, and rolls back what is
open. `note_failure` is the only way that a loss becomes known (`broken`) : where the code
ignores a result, `alive` and `broken` part.
-/

namespace EchoServer

/-- How a call ends. -/
inductive Fault where
  | ok
  /-- With an error other than a lost connection. -/
  | error (ended : Bool)
  /-- With the connection lost. -/
  | lost (served : Bool)
  deriving DecidableEq, Repr

/-- What `last_errno_` is asked for. -/
inductive Errno where
  /-- `ER_DUP_ENTRY`. -/
  | duplicate
  /-- The errors of `is_connection_lost`. -/
  | lost
  | other
  deriving DecidableEq, Repr

/-- The prepared statements. -/
inductive Statement where
  | save | history | counterClaim | counterBump | counterRead
  | procSave | procHistory | procCounter
  deriving DecidableEq, Repr

/-- The calls on a prepared statement. -/
inductive Phase where
  | bind | execute | bindResult | storeResult
  | fetch (i : ℕ)
  | drain
  deriving DecidableEq, Repr

/-- The statements of `sp_apply_counter`. -/
inductive ProcStatement where
  | startTransaction | claim | rollback | readDuplicate | bump | read | commit
  /-- In the handler of all other errors. -/
  | handlerRollback
  deriving DecidableEq, Repr

/-- Where a call of the client library, or a statement of a procedure, may fail. -/
inductive Site where
  | startTransaction | commit | rollback
  | stmt (st : Statement) (phase : Phase)
  | proc (st : ProcStatement)
  deriving DecidableEq, Repr

/-- How each call of an operation ends. -/
abbrev Faults := Site → Fault

/-- No call fails. -/
def Faults.none : Faults := fun _ => .ok

/-- A connection, from the client and from the server. -/
structure DbLink where
  /-- What is committed. -/
  tables : Tables
  /-- `AUTO_INCREMENT` of `echo_log`; no rollback takes it back. -/
  nextLogId : ℕ
  /-- What the open transaction sees. -/
  txn : Option Tables
  /-- The server has the connection. -/
  alive : Bool
  /-- `broken_`. -/
  broken : Bool
  /-- A `CALL` has left result sets. -/
  undrained : Bool

/-- A call, and what it gives back. -/
abbrev Call (α : Type) := DbLink → Except Errno α × DbLink

/-- What `save`, `history` and `counter` give back. -/
structure Returned where
  ok : Bool
  logId : ℕ
  rows : List LogRow
  hitCount : ℕ
  alreadyApplied : Bool
  deriving DecidableEq, Repr

namespace Returned

/-- What a call gives back that has failed. -/
def failed : Returned := ⟨false, 0, [], 0, false⟩

end Returned

namespace DbLink

/-- A connection that has just been opened. -/
def opened (t : Tables) (nextLogId : ℕ) : DbLink := ⟨t, nextLogId, none, true, false, false⟩

/-- `usable` : the connection is open, as far as the client knows. -/
def usable (c : DbLink) : Bool := !c.broken

/-- What a statement sees. -/
def view (c : DbLink) : Tables := c.txn.getD c.tables

/-- Write in the open transaction, or commit at once. -/
def write (t : Tables) (c : DbLink) : DbLink :=
  match c.txn with
  | some _ => { c with txn := some t }
  | none => { c with tables := t }

/-- The server ends the transaction with an error. -/
def endTxn (ended : Bool) (c : DbLink) : DbLink := if ended then { c with txn := none } else c

/-- The server has lost the client, and rolls back. -/
def lose (c : DbLink) : DbLink := { c with txn := none, alive := false }

/-- Result sets of a `CALL` wait. -/
def pending (c : DbLink) : DbLink := { c with undrained := true }

/-- `note_failure`. -/
def note (e : Errno) (c : DbLink) : DbLink := if e = .lost then { c with broken := true } else c

/-! ## Statements -/

/-- Commits what is open. -/
def startTransaction : Call Unit := fun c =>
  (.ok (), { c with tables := c.view, txn := some c.view })

/-- The server commits what the transaction has written. -/
def commitTransaction : Call Unit := fun c => (.ok (), { c with tables := c.view, txn := none })

/-- The server forgets what the transaction has written. -/
def rollbackTransaction : Call Unit := fun c => (.ok (), { c with txn := none })

/-- Gives back `LAST_INSERT_ID()`. -/
def insertLog (sessionKey payload : Bytes) : Call ℕ := fun c =>
  let c' := { c with nextLogId := c.nextLogId + 1 }
  (.ok c.nextLogId, c'.write (c.view.insertLog c.nextLogId sessionKey payload))

/-- The newest rows of a session. -/
def selectRecent (createdAt : ℕ → ℕ) (sessionKey : Bytes) (limit : ℕ) : Call (List LogRow) :=
  fun c => (.ok (c.view.recent createdAt sessionKey limit), c)

/-- The key of a Counter is stored, unless it is there already. -/
def insertClaim (requestKey sessionKey : Bytes) : Call Unit := fun c =>
  if c.view.claimed requestKey then (.error .duplicate, c)
  else (.ok (), c.write (c.view.claim requestKey sessionKey))

/-- The counter of the session grows by one. -/
def bumpCounter (sessionKey requestKey : Bytes) : Call Unit := fun c =>
  (.ok (), c.write (c.view.bump sessionKey requestKey))

/-- The counter of the session. -/
def selectHitCount (sessionKey : Bytes) : Call (Option ℕ) := fun c =>
  (.ok (c.view.hitCount sessionKey), c)

/-! ## Calls -/

variable {α : Type}

/-- A call that sends a command to the server. -/
def command (f : Fault) (act : Call α) : Call α := fun c =>
  if !c.alive then (.error .lost, c)
  -- commands out of sync
  else if c.undrained then (.error .other, c)
  else
    match f with
    | .ok => act c
    | .error ended => (.error .other, c.endTxn ended)
    | .lost served => (.error .lost, (if served then (act c).2 else c).lose)

/-- A call that the client answers, or that reads the result of the last command. -/
def client (f : Fault) : Call Unit := fun c =>
  match f with
  | .ok => (.ok (), c)
  | .error ended => (.error .other, c.endTxn ended)
  | .lost _ => (.error .lost, c.lose)

/-- `mysql_rollback`, whose result is ignored. -/
def rollback (F : Faults) (c : DbLink) : DbLink := (command (F .rollback) rollbackTransaction c).2

/-- A command without a prepared statement. -/
def runPlain (f : Fault) (act : Call Unit) : Call Unit := fun c =>
  match command f act c with
  | (.error e, c) => (.error e, c.note e)
  | r => r

/-- Bind the parameters, and execute. -/
def exec (F : Faults) (st : Statement) (act : Call α) : Call α := fun c =>
  match client (F (.stmt st .bind)) c with
  | (.error e, c) => (.error e, c.note e)
  | (.ok _, c) =>
    match command (F (.stmt st .execute)) act c with
    | (.error e, c) => (.error e, c.note e)
    | r => r

/-- `mysql_stmt_bind_result` and `mysql_stmt_store_result`. -/
def storeResult (F : Faults) (st : Statement) : Call Unit := fun c =>
  match client (F (.stmt st .bindResult)) c with
  | (.error e, c) => (.error e, c.note e)
  | (.ok _, c) =>
    match client (F (.stmt st .storeResult)) c with
    | (.error e, c) => (.error e, c.note e)
    | r => r

/-- `drain_extra_results`, which takes an error for the end. -/
def drain (F : Faults) (st : Statement) (c : DbLink) : DbLink :=
  match F (.stmt st .drain) with
  | .lost _ => { c.lose with undrained := false }
  | _ => { c with undrained := false }

/-- Take over the row that holds the `OUT` parameters, and drain what follows it. -/
def fetchOut (F : Faults) (st : Statement) : Call Unit := fun c =>
  match storeResult F st c with
  | (.error e, c) => (.error e, c)
  | (.ok _, c) =>
    let (fetched, c) := client (F (.stmt st (.fetch 0))) c
    (fetched, c.drain F st)

/-- What a `CALL` does to the connection besides. -/
def called (act : Call α) : Call α := fun c =>
  match act c with
  | (.ok a, c) => (.ok a, c.pending)
  | r => r

/-! ## Batches -/

/-- START TRANSACTION for a batch. -/
def beginBatch (F : Faults) (c : DbLink) : Bool × DbLink :=
  if !c.usable then (false, c)
  else
    match runPlain (F .startTransaction) startTransaction c with
    | (.error _, c) => (false, c)
    | (.ok _, c) => (true, c)

/-- COMMIT of a batch. -/
def commitBatch (F : Faults) (c : DbLink) : Bool × DbLink :=
  if !c.usable then (false, c)
  else
    match runPlain (F .commit) commitTransaction c with
    | (.error _, c) => (false, c)
    | (.ok _, c) => (true, c)

/-- ROLLBACK of a batch; nobody asks whether it succeeds. -/
def rollbackBatch (F : Faults) (c : DbLink) : DbLink := c.rollback F

/-! ## Save -/

/-- `save_direct` : one INSERT, and the id of its row. -/
def saveDirect (F : Faults) (sessionKey payload : Bytes) (c : DbLink) : Returned × DbLink :=
  if !c.usable then (.failed, c)
  else
    match exec F .save (insertLog sessionKey payload) c with
    | (.error _, c) => (.failed, c)
    | (.ok logId, c) => ({ Returned.failed with ok := true, logId }, c)

/-- Through `sp_save_log`. -/
def saveProc (F : Faults) (sessionKey payload : Bytes) (c : DbLink) : Returned × DbLink :=
  match exec F .procSave (called (insertLog sessionKey payload)) c with
  | (.error _, c) => (.failed, c)
  | (.ok logId, c) =>
    match fetchOut F .procSave c with
    | (.error _, c) => (.failed, c)
    | (.ok _, c) => ({ Returned.failed with ok := true, logId }, c)

/-! ## History -/

/-- The loop of `fetch_history_rows`, which has fetched `i` rows. -/
def fetchRows (F : Faults) (st : Statement) : ℕ → List LogRow → DbLink → (Bool × List LogRow) × DbLink
  | i, rows, c =>
    match client (F (.stmt st (.fetch i))) c with
    | (.error e, c) => ((false, []), c.note e)
    | (.ok _, c) =>
      match rows with
      | [] => ((true, []), c)
      | row :: rows =>
        let ((ok, out), c) := fetchRows F st (i + 1) rows c
        ((ok, row :: out), c)

/-- The rows of a result, up to the first fetch that fails. -/
def fetchHistoryRows (F : Faults) (st : Statement) (rows : List LogRow) (c : DbLink) :
    (Bool × List LogRow) × DbLink :=
  match storeResult F st c with
  | (.error _, c) => ((false, []), c)
  | (.ok _, c) => fetchRows F st 0 rows c

variable (createdAt : ℕ → ℕ)

/-- `history_direct` : one SELECT. -/
def historyDirect (F : Faults) (sessionKey : Bytes) (limit : ℕ) (c : DbLink) : Returned × DbLink :=
  if !c.usable then (.failed, c)
  else
    match exec F .history (selectRecent createdAt sessionKey limit) c with
    | (.error _, c) => (.failed, c)
    | (.ok rows, c) =>
      let ((ok, rows), c) := fetchHistoryRows F .history rows c
      ({ Returned.failed with ok, rows }, c)

/-- Through `sp_get_history`. -/
def historyProc (F : Faults) (sessionKey : Bytes) (limit : ℕ) (c : DbLink) : Returned × DbLink :=
  match exec F .procHistory (called (selectRecent createdAt sessionKey limit)) c with
  | (.error _, c) => (.failed, c)
  | (.ok rows, c) =>
    let ((ok, rows), c) := fetchHistoryRows F .procHistory rows c
    if ok then ({ Returned.failed with ok, rows }, c.drain F .procHistory)
    else ({ Returned.failed with rows }, c)

/-! ## Counter -/

/-- The request key is claimed : roll back, and give back the value as it is. -/
def counterDuplicate (F : Faults) (sessionKey : Bytes) (c : DbLink) : Returned × DbLink :=
  let res := { Returned.failed with alreadyApplied := true }
  match exec F .counterRead (selectHitCount sessionKey) (c.rollback F) with
  | (.error _, c) => (res, c)
  | (.ok value, c) =>
    match storeResult F .counterRead c with
    | (.error _, c) => (res, c)
    | (.ok _, c) =>
      match client (F (.stmt .counterRead (.fetch 0))) c with
      | (.error _, c) => ({ res with ok := true }, c)
      | (.ok _, c) => ({ res with ok := true, hitCount := value.getD 0 }, c)

/-- The request key has just been claimed : increment, read the value, and commit. -/
def counterIncrement (F : Faults) (sessionKey requestKey : Bytes) (c : DbLink) : Returned × DbLink :=
  match exec F .counterBump (bumpCounter sessionKey requestKey) c with
  | (.error _, c) => (.failed, c.rollback F)
  | (.ok _, c) =>
    match exec F .counterRead (selectHitCount sessionKey) c with
    | (.error _, c) => (.failed, c.rollback F)
    | (.ok value, c) =>
      match storeResult F .counterRead c with
      | (.error _, c) => (.failed, c.rollback F)
      | (.ok _, c) =>
        match client (F (.stmt .counterRead (.fetch 0))) c, value with
        | (.ok _, c), some value =>
          match runPlain (F .commit) commitTransaction c with
          | (.error _, c) => (.failed, c)
          | (.ok _, c) => ({ Returned.failed with ok := true, hitCount := value }, c)
        | (_, c), _ => (.failed, c.rollback F)

/-- `counter_direct` : the key is claimed, the counter raised and read in one transaction. -/
def counterDirect (F : Faults) (sessionKey requestKey : Bytes) (c : DbLink) : Returned × DbLink :=
  if !c.usable then (.failed, c)
  else
    match runPlain (F .startTransaction) startTransaction c with
    | (.error _, c) => (.failed, c)
    | (.ok _, c) =>
      match exec F .counterClaim (insertClaim requestKey sessionKey) c with
      | (.error .duplicate, c) => counterDuplicate F sessionKey c
      | (.error _, c) => (.failed, c.rollback F)
      | (.ok _, c) => counterIncrement F sessionKey requestKey c

/-- A statement of a procedure. -/
def inProc (f : Fault) (act : Call α) : Call α := fun c =>
  match f with
  | .ok => act c
  | .error ended => (.error .other, c.endTxn ended)
  | .lost served => (.error .lost, (if served then (act c).2 else c).lose)

/-- The handler of `sp_apply_counter` for the errors that it does not expect. -/
def exitHandler (F : Faults) (e : Errno) : Call α := fun c =>
  match e with
  | .lost => (.error .lost, c)
  | e =>
    match inProc (F (.proc .handlerRollback)) rollbackTransaction c with
    | (.error .lost, c) => (.error .lost, c)
    | (_, c) => (.error e, c)

/-- The branch of `sp_apply_counter` for a request key that is claimed. -/
def spDuplicate (F : Faults) (sessionKey : Bytes) : Call (ℕ × Bool) := fun c =>
  match inProc (F (.proc .rollback)) rollbackTransaction c with
  | (.error e, c) => exitHandler F e c
  | (.ok _, c) =>
    match inProc (F (.proc .readDuplicate)) (selectHitCount sessionKey) c with
    | (.error e, c) => exitHandler F e c
    | (.ok value, c) => (.ok (value.getD 0, true), c)

/-- The branch of `sp_apply_counter` for a request key that has just been claimed. -/
def spIncrement (F : Faults) (sessionKey requestKey : Bytes) : Call (ℕ × Bool) := fun c =>
  match inProc (F (.proc .bump)) (bumpCounter sessionKey requestKey) c with
  | (.error e, c) => exitHandler F e c
  | (.ok _, c) =>
    match inProc (F (.proc .read)) (selectHitCount sessionKey) c with
    | (.error e, c) => exitHandler F e c
    | (.ok value, c) =>
      match inProc (F (.proc .commit)) commitTransaction c with
      | (.error e, c) => exitHandler F e c
      | (.ok _, c) => (.ok (value.getD 0, false), c)

/-- The procedure of a Counter, as the server executes it. -/
def spApplyCounter (F : Faults) (sessionKey requestKey : Bytes) : Call (ℕ × Bool) := fun c =>
  match inProc (F (.proc .startTransaction)) startTransaction c with
  | (.error e, c) => exitHandler F e c
  | (.ok _, c) =>
    match inProc (F (.proc .claim)) (insertClaim requestKey sessionKey) c with
    | (.error .duplicate, c) => spDuplicate F sessionKey c
    | (.error e, c) => exitHandler F e c
    | (.ok _, c) => spIncrement F sessionKey requestKey c

/-- Through `sp_apply_counter`. -/
def counterProc (F : Faults) (sessionKey requestKey : Bytes) (c : DbLink) : Returned × DbLink :=
  match exec F .procCounter (called (spApplyCounter F sessionKey requestKey)) c with
  | (.error _, c) => (.failed, c)
  | (.ok (hitCount, alreadyApplied), c) =>
    match fetchOut F .procCounter c with
    | (.error _, c) => (.failed, c)
    | (.ok _, c) => ({ Returned.failed with ok := true, hitCount, alreadyApplied }, c)

/-! ## The two paths -/

/-- `use_procedures`. -/
def save (procs : Bool) (F : Faults) (sessionKey payload : Bytes) (c : DbLink) : Returned × DbLink :=
  if !c.usable then (.failed, c)
  else if procs then saveProc F sessionKey payload c
  else saveDirect F sessionKey payload c

/-- A History, by its procedure or directly. -/
def history (procs : Bool) (F : Faults) (sessionKey : Bytes) (limit : ℕ) (c : DbLink) :
    Returned × DbLink :=
  if !c.usable then (.failed, c)
  else if procs then historyProc createdAt F sessionKey limit c
  else historyDirect createdAt F sessionKey limit c

/-- A Counter, by its procedure or directly. -/
def counter (procs : Bool) (F : Faults) (sessionKey requestKey : Bytes) (c : DbLink) :
    Returned × DbLink :=
  if !c.usable then (.failed, c)
  else if procs then counterProc F sessionKey requestKey c
  else counterDirect F sessionKey requestKey c

/-! ## Opening -/

/-- `open`, after `close` : connect, and prepare the statements. -/
def reopen (connected : Bool) (c : DbLink) : Bool × DbLink :=
  if connected then (true, .opened c.tables c.nextLogId)
  else (false, { c.lose with broken := true, undrained := false })

/-- A connection that is lost is opened again. -/
def ensureUsable (connected : Bool) (c : DbLink) : Bool × DbLink :=
  if c.usable then (true, c) else c.reopen connected

/-- `ping`, which finds out whether the connection is lost. -/
def ping (f : Fault) (c : DbLink) : Bool × DbLink :=
  if c.broken then (false, c)
  else
    match command f (fun c => (.ok (), c)) c with
    | (.error _, c) => (false, { c with broken := true })
    | (.ok _, c) => (true, c)

end DbLink

end EchoServer
