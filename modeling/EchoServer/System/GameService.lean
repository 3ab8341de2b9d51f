import EchoServer.System.Operations
import Mathlib.Data.List.AList

/-!
# A lane of the game service

`run_step` of `app/service.cpp` with the overrides of `app/game_service.cpp` : a round swaps
out the database responses and handles each, then swaps out the inbound events and handles
each. What a lane does to its own state, the session table and the batch it has swapped out,
is one turn (`GameLane.step`); what it does to others is the operations that the turn leaves
to its thread. Nothing is ever put into the service inbox of the game service, and the model
has none.

`issued` records the session keys made. No operation reads it.
-/

namespace EchoServer

/-- Where a game lane is in `run_step`. -/
inductive GameLoop where
  | swapReplies
  | replies (batch : List (ℕ × Response))
  | swapInbound
  | events (batch : List Event)

namespace GameLoop

/-- The replies swapped out and not handled. -/
def heldReplies : GameLoop → List (ℕ × Response)
  | replies batch => batch
  | _ => []

/-- The events swapped out and not handled. -/
def heldEvents : GameLoop → List Event
  | events batch => batch
  | _ => []

end GameLoop

/-- A thread of the game service : its queues, its sessions and where it is in its round. -/
structure GameLane where
  inbound : List Event
  /-- Database responses, each with the place of the frame it answers. -/
  dbInbox : List (ℕ × Response)
  loop : GameLoop
  /-- The session table : connection ids and session keys. -/
  sessions : AList fun _ : ℕ => Bytes
  issued : List (ℕ × Bytes)

/-- The lane before its first round. -/
def GameLane.fresh : GameLane := ⟨[], [], .swapReplies, ∅, []⟩

namespace GameLane

/-- `process_event`. -/
def onEvent (e : Env) (lane : GameLane) : Event → GameLane × List Op
  | .connected id =>
    match lane.sessions.lookup id with
    | some key =>
      (lane, [.send id none ⟨kSessionAck, (ByteWriter.scratch.str key).data⟩, .relay ⟨id, key⟩])
    | none =>
      ({ lane with
          sessions := lane.sessions.insert id e.key
          issued := lane.issued ++ [(id, e.key)] },
        [.send id none ⟨kSessionAck, (ByteWriter.scratch.str e.key).data⟩, .relay ⟨id, e.key⟩])
  | .disconnected id => ({ lane with sessions := lane.sessions.erase id }, [])
  | .message m =>
    match lane.sessions.lookup m.connId with
    | none => (lane, [])
    | some key =>
      (lane, (onMessage e.unixMs m).ops m.connId m.index m.msgId fun req =>
        [.submitDb m.index { req with connId := m.connId, sessionKey := key }])

/-- `process_db_response`. -/
def onReply (lane : GameLane) (index : ℕ) (res : Response) : List Op :=
  match lane.sessions.lookup res.connId with
  | none => []
  | some _ => [.send res.connId (some index) (processDbResponse res)]

/-- One turn of `run_step`. -/
def step (e : Env) (lane : GameLane) : GameLane × List Op :=
  match lane.loop with
  | .swapReplies => ({ lane with loop := .replies lane.dbInbox, dbInbox := [] }, [])
  | .replies [] => ({ lane with loop := .swapInbound }, [])
  | .replies ((index, res) :: batch) =>
    ({ lane with loop := .replies batch }, lane.onReply index res)
  | .swapInbound => ({ lane with loop := .events lane.inbound, inbound := [] }, [])
  | .events [] => ({ lane with loop := .swapReplies }, [])
  | .events (ev :: batch) => { lane with loop := .events batch }.onEvent e ev

/-! ## One turn -/

/-- The events that a lane has still to handle. -/
def events (lane : GameLane) : List Event := lane.loop.heldEvents ++ lane.inbound

/-- The database responses that a lane has still to handle. -/
def replies (lane : GameLane) : List (ℕ × Response) := lane.loop.heldReplies ++ lane.dbInbox

/-- Whether a connection has a session. -/
def knows (lane : GameLane) (id : ℕ) : Bool := (lane.sessions.lookup id).isSome

/-- What one turn can do : nothing but move a batch, or handle the first response, or handle
the first event. -/
inductive Turn (e : Env) (lane lane' : GameLane) : List Op → Prop
  | move (events_eq : lane'.events = lane.events) (replies_eq : lane'.replies = lane.replies)
      (sessions_eq : lane'.sessions = lane.sessions) (issued_eq : lane'.issued = lane.issued) :
      Turn e lane lane' []
  | reply (index : ℕ) (res : Response) (events_eq : lane'.events = lane.events)
      (replies_eq : lane.replies = (index, res) :: lane'.replies)
      (sessions_eq : lane'.sessions = lane.sessions) (issued_eq : lane'.issued = lane.issued) :
      Turn e lane lane' (lane.onReply index res)
  | event (ev : Event) (events_eq : lane.events = ev :: lane'.events)
      (replies_eq : lane'.replies = lane.replies)
      (sessions_eq : lane'.sessions = (lane.onEvent e ev).1.sessions)
      (issued_eq : lane'.issued = (lane.onEvent e ev).1.issued) :
      Turn e lane lane' (lane.onEvent e ev).2

variable {e : Env} {lane lane' : GameLane} {ops : List Op}

/-- Handling an event does not touch the queues, nor does it look at them. -/
theorem onEvent_with (e : Env) (lane : GameLane) (loop : GameLoop) (ev : Event) :
    ({ lane with loop }.onEvent e ev) =
      ({ (lane.onEvent e ev).1 with loop }, (lane.onEvent e ev).2) ∧
      (lane.onEvent e ev).1.inbound = lane.inbound ∧
      (lane.onEvent e ev).1.dbInbox = lane.dbInbox := by
  cases ev <;> simp only [onEvent]
  all_goals repeat' split
  all_goals simp_all

/-- A step of the lane is a turn of it. -/
theorem turn (h : lane.step e = (lane', ops)) : Turn e lane lane' ops := by
  unfold step at h
  cases hloop : lane.loop with
  | swapReplies =>
    rw [hloop] at h
    cases h
    refine .move ?_ ?_ rfl rfl <;>
      simp [events, replies, hloop, GameLoop.heldEvents, GameLoop.heldReplies]
  | replies batch =>
    cases batch with
    | nil =>
      rw [hloop] at h
      cases h
      refine .move ?_ ?_ rfl rfl <;>
        simp [events, replies, hloop, GameLoop.heldEvents, GameLoop.heldReplies]
    | cons r batch =>
      rw [hloop] at h
      cases h
      refine .reply _ _ ?_ ?_ rfl rfl <;>
        simp [events, replies, hloop, GameLoop.heldEvents, GameLoop.heldReplies]
  | swapInbound =>
    rw [hloop] at h
    cases h
    refine .move ?_ ?_ rfl rfl <;>
      simp [events, replies, hloop, GameLoop.heldEvents, GameLoop.heldReplies]
  | events batch =>
    cases batch with
    | nil =>
      rw [hloop] at h
      cases h
      refine .move ?_ ?_ rfl rfl <;>
        simp [events, replies, hloop, GameLoop.heldEvents, GameLoop.heldReplies]
    | cons ev batch =>
      rw [hloop] at h
      obtain ⟨hev, hin, hdb⟩ := onEvent_with e lane (.events batch) ev
      simp only [hev] at h
      cases h
      refine .event ev ?_ ?_ rfl rfl <;>
        simp [events, replies, hloop, hin, hdb, GameLoop.heldEvents, GameLoop.heldReplies]

/-- A turn leaves only these operations to its thread. -/
theorem Turn.mem_ops (h : Turn e lane lane' ops) {op : Op} (hop : op ∈ ops) :
    (∃ id answers f, op = .send id answers f) ∨ (∃ id, op = .close id) ∨
      (∃ index req, op = .submitDb index req) ∨ ∃ msg, op = .relay msg := by
  cases h with
  | move => simp at hop
  | reply index res =>
    unfold onReply at hop
    split at hop
    · simp at hop
    · exact Or.inl ⟨_, _, _, List.mem_singleton.mp hop⟩
  | event ev =>
    cases ev with
    | connected id =>
      simp only [onEvent] at hop
      split at hop <;> simp only [List.mem_cons, List.not_mem_nil, or_false] at hop
      all_goals
        obtain rfl | rfl := hop
        · exact Or.inl ⟨_, _, _, rfl⟩
        · exact Or.inr (Or.inr (Or.inr ⟨_, rfl⟩))
    | disconnected id => simp [onEvent] at hop
    | message m =>
      simp only [onEvent] at hop
      split at hop
      · simp at hop
      · obtain ⟨f, rfl⟩ | rfl | ⟨req, -, hpass⟩ := Verdict.mem_ops hop
        · exact Or.inl ⟨_, _, _, rfl⟩
        · exact Or.inr (Or.inl ⟨_, rfl⟩)
        · exact Or.inr (Or.inr (Or.inl ⟨_, _, List.mem_singleton.mp hpass⟩))

/-- Handling an event settles it. -/
theorem knows_onEvent (e : Env) (lane : GameLane) (ev : Event) (id : ℕ) :
    (lane.onEvent e ev).1.knows id = ev.settle id (lane.knows id) := by
  cases ev with
  | connected k =>
    simp only [onEvent, Event.settle, knows]
    by_cases hk : k = id
    · subst hk
      cases hl : lane.sessions.lookup k <;> simp [hl]
    · split <;> simp [hk, AList.lookup_insert_ne (Ne.symm hk)]
  | disconnected k =>
    by_cases hk : k = id
    · subst hk
      simp [onEvent, Event.settle, knows]
    · simp [onEvent, Event.settle, knows, hk, AList.lookup_erase_ne (Ne.symm hk)]
  | message m =>
    simp only [onEvent, Event.settle, knows]
    split <;> rfl

/-- A key is issued to the connection that the event is about. -/
theorem mem_issued_onEvent {ev : Event} {p : ℕ × Bytes} (h : p ∈ (lane.onEvent e ev).1.issued) :
    p ∈ lane.issued ∨ p.1 = ev.connId := by
  cases ev with
  | connected id =>
    simp only [onEvent] at h
    split at h
    · exact Or.inl h
    · rcases List.mem_append.mp h with h | h
      · exact Or.inl h
      · exact Or.inr (by rw [List.mem_singleton.mp h]; rfl)
  | disconnected id => exact Or.inl h
  | message m =>
    simp only [onEvent] at h
    split at h <;> exact Or.inl h

end GameLane

end EchoServer
