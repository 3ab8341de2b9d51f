import EchoServer.App.Route
import EchoServer.Proto.Frame

/-!
# What the services receive

`app/inbound_event.h` and the `ServiceMessage` of `app/service.h`. A service takes the
events of a connection from one queue : the notice that it is connected, its messages, and
the notice that it is disconnected. A message also carries the place of its frame among the
frames of the connection, which no service reads.

Read on its own, the queue fixes what a service will know once it has emptied it :
`settled id known q` is whether the service then has an entry for `id`, and `served id known q`
says that no message of `id` in the queue finds its entry missing. A service that handles the
first event changes neither (`settled_cons`, `served_cons`); only a new event at the end does.
-/

namespace EchoServer

/-- Bytes that an event can carry. -/
def kMaxEventBody : ℕ := 640

/-- A message of a client, without its place among the frames of the connection. -/
structure Message where
  connId : ℕ
  msgId : ℕ
  body : Bytes
  /-- The body did not fit and was left out. -/
  oversized : Bool
  /-- The place of the frame among the frames of the connection. -/
  index : ℕ
  deriving DecidableEq, Repr

/-- The event that `post_message` fills in for a frame. -/
def Message.ofFrame (connId index : ℕ) (view : Frame) : Message :=
  if kMaxEventBody < view.body.length then ⟨connId, view.msgId, [], true, index⟩
  else ⟨connId, view.msgId, view.body, false, index⟩

@[simp] theorem Message.connId_ofFrame (connId index : ℕ) (view : Frame) :
    (Message.ofFrame connId index view).connId = connId := by
  unfold Message.ofFrame
  split_ifs <;> rfl

@[simp] theorem Message.msgId_ofFrame (connId index : ℕ) (view : Frame) :
    (Message.ofFrame connId index view).msgId = view.msgId := by
  unfold Message.ofFrame
  split_ifs <;> rfl

@[simp] theorem Message.index_ofFrame (connId index : ℕ) (view : Frame) :
    (Message.ofFrame connId index view).index = index := by
  unfold Message.ofFrame
  split_ifs <;> rfl

/-- What a service finds in its inbound queue. -/
inductive Event where
  | connected (connId : ℕ)
  | disconnected (connId : ℕ)
  | message (m : Message)
  deriving DecidableEq, Repr

/-- The connection an event is about. -/
def Event.connId : Event → ℕ
  | connected id | disconnected id => id
  | message m => m.connId

/-- The notice from the game service that a connection's session has opened; the text is
the session key. -/
structure ServiceMessage where
  connId : ℕ
  text : Bytes
  deriving DecidableEq, Repr

/-! ## What a queue leaves behind -/

/-- Whether a service knows `id` after an event. -/
def Event.settle (id : ℕ) (known : Bool) : Event → Bool
  | connected k => known || k = id
  | disconnected k => known && k ≠ id
  | message _ => known

/-- Whether a service knows `id` after all events of a queue. -/
def settled (id : ℕ) (known : Bool) (q : List Event) : Bool := q.foldl (Event.settle id) known

/-- Every message of `id` in the queue finds its entry. -/
def served (id : ℕ) : Bool → List Event → Prop
  | _, [] => True
  | known, ev :: q =>
    (∀ m, ev = .message m → m.connId = id → known = true) ∧ served id (ev.settle id known) q

@[simp] theorem settled_nil (id : ℕ) (known : Bool) : settled id known [] = known :=
  rfl

theorem settled_cons (id : ℕ) (known : Bool) (ev : Event) (q : List Event) :
    settled id known (ev :: q) = settled id (ev.settle id known) q :=
  rfl

/-- Two stretches of the queue settle what is known of the connection one after the other. -/
theorem settled_append (id : ℕ) (known : Bool) (q q' : List Event) :
    settled id known (q ++ q') = settled id (settled id known q) q' :=
  List.foldl_append ..

@[simp] theorem served_nil (id : ℕ) (known : Bool) : served id known [] :=
  trivial

theorem served_cons (id : ℕ) (known : Bool) (ev : Event) (q : List Event) :
    served id known (ev :: q) ↔
      (∀ m, ev = .message m → m.connId = id → known = true) ∧
        served id (ev.settle id known) q :=
  Iff.rfl

/-- The messages of two stretches are served when those of each are, the second with what the first
has settled. -/
theorem served_append (id : ℕ) (q q' : List Event) : ∀ known : Bool,
    served id known (q ++ q') ↔ served id known q ∧ served id (settled id known q) q' := by
  induction q with
  | nil => simp
  | cons ev q ih =>
    intro known
    rw [List.cons_append, served_cons, served_cons, settled_cons, ih]
    exact and_assoc.symm

end EchoServer
