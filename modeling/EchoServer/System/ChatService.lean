import EchoServer.System.Operations
import Mathlib.Data.List.AList

/-!
# The lane of the chat service

`run_step` of `app/service.cpp` with the overrides of `app/broadcast_service.cpp` : a round
swaps out the relays of the game service and handles each, swaps out the inbound events and
handles each, and drops the names that are still pending. A name is pending when its relay
came before the member.

`handled` and `relayed` record what the lane has taken from its two queues. No operation reads
them.
-/

namespace EchoServer

/-- Where the chat lane is in `run_step`. -/
inductive ChatLoop where
  | swapRelays
  | relays (batch : List ServiceMessage)
  | swapInbound
  | events (batch : List Event)
  | afterBatch

namespace ChatLoop

/-- The relays swapped out and not handled. -/
def heldRelays : ChatLoop → List ServiceMessage
  | relays batch => batch
  | _ => []

/-- The events swapped out and not handled. -/
def heldEvents : ChatLoop → List Event
  | events batch => batch
  | _ => []

end ChatLoop

/-- The thread of the chat service : its queues, its members and where it is in its round. -/
structure ChatLane where
  inbound : List Event
  serviceInbox : List ServiceMessage
  loop : ChatLoop
  /-- Members and their names. -/
  members : AList fun _ : ℕ => Bytes
  pendingNames : AList fun _ : ℕ => Bytes
  handled : List Event
  relayed : List ServiceMessage

/-- The chat service before its first round. -/
def ChatLane.fresh : ChatLane := ⟨[], [], .swapRelays, ∅, ∅, [], []⟩

namespace ChatLane

/-- `on_event` of the broadcast service. -/
def onEvent (lane : ChatLane) : Event → ChatLane × List Op
  | .connected id =>
    ({ lane with
        members := lane.members.insert id
          ((lane.pendingNames.lookup id).getD ((lane.members.lookup id).getD []))
        pendingNames := lane.pendingNames.erase id },
      [])
  | .disconnected id =>
    ({ lane with
        members := lane.members.erase id
        pendingNames := lane.pendingNames.erase id },
      [])
  | .message m =>
    match lane.members.lookup m.connId with
    | none => (lane, [])
    | some name =>
      (lane, (onChatMessage m).ops m.connId m.index m.msgId fun text =>
        [.broadcast m.connId m.index (chatPush name text) lane.members.keys])

/-- `on_service` of the broadcast service. -/
def onService (msg : ServiceMessage) (lane : ChatLane) : ChatLane :=
  match lane.members.lookup msg.connId with
  | none => { lane with pendingNames := lane.pendingNames.insert msg.connId msg.text }
  | some _ => { lane with members := lane.members.insert msg.connId msg.text }

/-- One turn of `run_step`, with `on_after_batch` at its end. -/
def step (lane : ChatLane) : ChatLane × List Op :=
  match lane.loop with
  | .swapRelays => ({ lane with loop := .relays lane.serviceInbox, serviceInbox := [] }, [])
  | .relays [] => ({ lane with loop := .swapInbound }, [])
  | .relays (msg :: batch) =>
    ({ lane with loop := .relays batch, relayed := lane.relayed ++ [msg] }.onService msg, [])
  | .swapInbound => ({ lane with loop := .events lane.inbound, inbound := [] }, [])
  | .events [] => ({ lane with loop := .afterBatch }, [])
  | .events (ev :: batch) =>
    { lane with loop := .events batch, handled := lane.handled ++ [ev] }.onEvent ev
  | .afterBatch => ({ lane with loop := .swapRelays, pendingNames := ∅ }, [])

/-! ## One turn -/

/-- The events that the lane has still to handle. -/
def events (lane : ChatLane) : List Event := lane.loop.heldEvents ++ lane.inbound

/-- The relays that the lane has still to handle. -/
def relays (lane : ChatLane) : List ServiceMessage := lane.loop.heldRelays ++ lane.serviceInbox

/-- Whether a connection is a member. -/
def knows (lane : ChatLane) (id : ℕ) : Bool := (lane.members.lookup id).isSome

/-- What one turn can do : nothing but move a batch or drop pending names, or handle the first
relay, or handle the first event. -/
inductive Turn (lane lane' : ChatLane) : List Op → Prop
  | move (events_eq : lane'.events = lane.events) (relays_eq : lane'.relays = lane.relays)
      (members_eq : lane'.members = lane.members) : Turn lane lane' []
  | relay (msg : ServiceMessage) (events_eq : lane'.events = lane.events)
      (relays_eq : lane.relays = msg :: lane'.relays)
      (members_eq : lane'.members = (lane.onService msg).members) : Turn lane lane' []
  | event (ev : Event) (events_eq : lane.events = ev :: lane'.events)
      (relays_eq : lane'.relays = lane.relays)
      (members_eq : lane'.members = (lane.onEvent ev).1.members) :
      Turn lane lane' (lane.onEvent ev).2

variable {lane lane' : ChatLane} {ops : List Op}

/-- Handling an event does not touch the queues, nor does it look at them. -/
theorem onEvent_with (lane : ChatLane) (loop : ChatLoop) (handled : List Event) (ev : Event) :
    ({ lane with loop, handled }.onEvent ev) =
      ({ (lane.onEvent ev).1 with loop, handled }, (lane.onEvent ev).2) ∧
      (lane.onEvent ev).1.inbound = lane.inbound ∧
      (lane.onEvent ev).1.serviceInbox = lane.serviceInbox := by
  cases ev <;> simp only [onEvent]
  all_goals repeat' split
  all_goals simp_all

/-- A step of the chat service is a turn of it. -/
theorem turn (h : lane.step = (lane', ops)) : Turn lane lane' ops := by
  unfold step at h
  cases hloop : lane.loop with
  | relays batch =>
    cases batch with
    | nil =>
      rw [hloop] at h
      cases h
      refine .move ?_ ?_ rfl <;>
        simp [events, relays, hloop, ChatLoop.heldEvents, ChatLoop.heldRelays]
    | cons msg batch =>
      rw [hloop] at h
      cases h
      refine .relay msg ?_ ?_ ?_ <;> simp only [onService] <;> split <;>
        simp [events, relays, hloop, ChatLoop.heldEvents, ChatLoop.heldRelays]
  | events batch =>
    cases batch with
    | nil =>
      rw [hloop] at h
      cases h
      refine .move ?_ ?_ rfl <;>
        simp [events, relays, hloop, ChatLoop.heldEvents, ChatLoop.heldRelays]
    | cons ev batch =>
      rw [hloop] at h
      obtain ⟨hev, hin, hinbox⟩ := onEvent_with lane (.events batch) (lane.handled ++ [ev]) ev
      simp only [hev] at h
      cases h
      refine .event ev ?_ ?_ rfl <;>
        simp [events, relays, hloop, hin, hinbox, ChatLoop.heldEvents, ChatLoop.heldRelays]
  | _ =>
    rw [hloop] at h
    cases h
    refine .move ?_ ?_ rfl <;>
      simp [events, relays, hloop, ChatLoop.heldEvents, ChatLoop.heldRelays]

/-- A turn leaves only these operations to its thread. -/
theorem Turn.mem_ops (h : Turn lane lane' ops) {op : Op} (hop : op ∈ ops) :
    (∃ id answers f, op = .send id answers f) ∨ (∃ id, op = .close id) ∨
      ∃ id index f todo, op = .broadcast id index f todo := by
  cases h with
  | move => simp at hop
  | relay => simp at hop
  | event ev =>
    cases ev with
    | connected id => simp [onEvent] at hop
    | disconnected id => simp [onEvent] at hop
    | message m =>
      simp only [onEvent] at hop
      split at hop
      · simp at hop
      · obtain ⟨f, rfl⟩ | rfl | ⟨text, -, hpass⟩ := Verdict.mem_ops hop
        · exact Or.inl ⟨_, _, _, rfl⟩
        · exact Or.inr (Or.inl ⟨_, rfl⟩)
        · exact Or.inr (Or.inr ⟨_, _, _, _, List.mem_singleton.mp hpass⟩)

/-- Handling an event settles it. -/
theorem knows_onEvent (lane : ChatLane) (ev : Event) (id : ℕ) :
    (lane.onEvent ev).1.knows id = ev.settle id (lane.knows id) := by
  cases ev with
  | connected k =>
    by_cases hk : k = id
    · subst hk
      simp [onEvent, Event.settle, knows]
    · simp [onEvent, Event.settle, knows, hk, AList.lookup_insert_ne (Ne.symm hk)]
  | disconnected k =>
    by_cases hk : k = id
    · subst hk
      simp [onEvent, Event.settle, knows]
    · simp [onEvent, Event.settle, knows, hk, AList.lookup_erase_ne (Ne.symm hk)]
  | message m =>
    simp only [onEvent, Event.settle, knows]
    split <;> rfl

/-- A relay makes no member. -/
theorem knows_onService (lane : ChatLane) (msg : ServiceMessage) (id : ℕ) :
    (lane.onService msg).knows id = lane.knows id := by
  unfold onService
  split
  · rfl
  · rename_i name hname
    by_cases hk : id = msg.connId
    · subst hk
      simp [knows, hname]
    · simp [knows, AList.lookup_insert_ne hk]

end ChatLane

end EchoServer
