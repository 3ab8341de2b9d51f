import EchoServer.Proto.ByteOrder

/-!
# Requests and responses of the database

`db/db_types.h`, less the times that only the statistics read. A `Job` is a request the
pool has accepted, with two marks no function of the pool reads : its place among the
accepted requests, and whatever its owner knows it by.
-/

namespace EchoServer

/-- What a client may ask of the database. -/
inductive RequestKind where
  | save
  | history
  | counter
  deriving DecidableEq, Repr

/-- How a request has ended. -/
inductive Status where
  | ok
  /-- The connection to the database is down. -/
  | unavailable
  | failed
  /-- Past its deadline; no query was started. -/
  | expired
  deriving DecidableEq, Repr

/-- A request of a session. -/
structure Request where
  kind : RequestKind
  connId : ℕ
  sessionKey : Bytes
  /-- What a Save stores. -/
  payload : Bytes
  /-- The idempotency key of a Counter. -/
  requestKey : Bytes
  /-- The number of rows a History asks for. -/
  limit : ℕ
  /-- The request is not executed after this time; 0 is no deadline. -/
  deadlineUs : ℕ
  deriving DecidableEq, Repr

/-- A row of `echo_log`, as a History answers it. -/
structure LogRow where
  logId : ℕ
  payload : Bytes
  createdAtMs : ℕ
  deriving DecidableEq, Repr

/-- The answer to a request. -/
structure Response where
  kind : RequestKind
  connId : ℕ
  status : Status
  logId : ℕ
  rows : List LogRow
  hitCount : ℕ
  alreadyApplied : Bool
  deriving DecidableEq, Repr

/-- An accepted request. -/
structure Job (τ : Type*) where
  req : Request
  /-- Its place among the accepted requests. -/
  seq : ℕ
  /-- What its owner knows it by. -/
  tag : τ
  deriving DecidableEq, Repr

/-- The session key that the pool orders a request by. -/
def Job.key {τ : Type*} (j : Job τ) : Bytes := j.req.sessionKey

end EchoServer
