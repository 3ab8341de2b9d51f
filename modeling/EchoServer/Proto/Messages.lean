import EchoServer.Proto.ByteOrder

/-!
# Message ids, error codes and field limits

`proto/messages.h`. The answer to request `id` is `id + kAckOffset`, and every error is an
`kErrorAck` that names the request it is about. A code below 10 is a frame error : the
connection is closed after it. A code from 10 on keeps the connection.
-/

namespace EchoServer

/-- The answer to a request has the id of the request and this. -/
def kAckOffset : ℕ := 100

/-- A text is to be sent back. -/
def kEchoReq : ℕ := 1

/-- A text is to be stored. -/
def kSaveReq : ℕ := 2

/-- The newest texts of the session are asked for. -/
def kHistoryReq : ℕ := 3

/-- The counter of the session is to be raised. -/
def kCounterReq : ℕ := 4

/-- The time is to be sent back. -/
def kPingReq : ℕ := 5

/-- A text is to be sent to everybody. -/
def kChatReq : ℕ := 6

/-- Pushed by the server when the session opens; no request asks for it. -/
def kSessionAck : ℕ := 100

/-- The answer to an Echo. -/
def kEchoAck : ℕ := kEchoReq + kAckOffset

/-- The answer to a Save. -/
def kSaveAck : ℕ := kSaveReq + kAckOffset

/-- The answer to a History. -/
def kHistoryAck : ℕ := kHistoryReq + kAckOffset

/-- The answer to a Counter. -/
def kCounterAck : ℕ := kCounterReq + kAckOffset

/-- The answer to a Ping. -/
def kPongAck : ℕ := kPingReq + kAckOffset

/-- A text that somebody has sent to everybody. -/
def kChatPush : ℕ := kChatReq + kAckOffset

/-- The answer to a request that has failed. -/
def kErrorAck : ℕ := 199

/-- The id that a request is answered with, as a u16. -/
def ackOf (req : ℕ) : ℕ := (req + kAckOffset) % 256 ^ 2

/-- Why a request has failed. -/
inductive ErrorCode where
  | malformedFrame
  | unknownMessage
  | invalidField
  | payloadTooLong
  | limitOutOfRange
  | dbUnavailable
  | dbTimeout
  | serverBusy
  deriving DecidableEq, Repr

namespace ErrorCode

/-- The code on the wire. -/
def value : ErrorCode → ℕ
  | malformedFrame => 1
  | unknownMessage => 2
  | invalidField => 3
  | payloadTooLong => 10
  | limitOutOfRange => 11
  | dbUnavailable => 20
  | dbTimeout => 21
  | serverBusy => 30

/-- Whether the connection is closed after this error. -/
def isFatal (c : ErrorCode) : Bool := c.value < 10

end ErrorCode

/-- A longer payload is refused. -/
def kMaxPayloadBytes : ℕ := 512

/-- The rows that a History may ask for at least. -/
def kMinHistoryLimit : ℕ := 1

/-- The rows that a History may ask for at most. -/
def kMaxHistoryLimit : ℕ := 100

end EchoServer
