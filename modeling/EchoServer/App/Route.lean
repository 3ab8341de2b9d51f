import EchoServer.Proto.Messages

/-!
# Services and the routing table

`app/service.h` and `app/service_router.cpp` : two services, and a table from message ids
to the service that handles them. An id without an entry, or above the table, belongs to
no service and is answered by the router itself. What happens to a message when the inbound
queue of its lane is full is the server's overflow policy.
-/

namespace EchoServer

/-- The services that a message may be routed to. -/
inductive ServiceId where
  | game
  | chat
  deriving DecidableEq, Repr

/-- What is done with a message whose queue is full. -/
inductive OverflowPolicy where
  /-- Answer with an error and consume the message. -/
  | reject
  /-- Leave the message in the receive buffer and pause the connection. -/
  | backpressure
  deriving DecidableEq, Repr

/-- Ids from here on have no route. -/
def kRouteTableSize : ℕ := 100

/-- The service that handles a message id. -/
def route (msgId : ℕ) : Option ServiceId :=
  if kRouteTableSize ≤ msgId then none
  else if msgId = kEchoReq ∨ msgId = kSaveReq ∨ msgId = kHistoryReq ∨ msgId = kCounterReq ∨
    msgId = kPingReq then some .game
  else if msgId = kChatReq then some .chat
  else none

end EchoServer
