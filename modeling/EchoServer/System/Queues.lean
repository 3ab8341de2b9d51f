import EchoServer.System.Effects

/-!
# The queue of one connection in a service

Seen from one connection, a service is a queue of the events about it and an entry that is
there or not. Whatever operation is executed, it puts its own event at the end of the queue
(`Server.posts`) or the service handles the first event, and nothing else changes either
(`Server.exec_queue`).
-/

namespace EchoServer

/-- The events of a list that are about a connection. -/
def eventsOf (id : ℕ) (q : List Event) : List Event := q.filter fun ev => ev.connId = id

@[simp] theorem eventsOf_nil (id : ℕ) : eventsOf id [] = [] :=
  rfl

@[simp] theorem eventsOf_append (id : ℕ) (q q' : List Event) :
    eventsOf id (q ++ q') = eventsOf id q ++ eventsOf id q' :=
  List.filter_append ..

theorem eventsOf_cons (id : ℕ) (ev : Event) (q : List Event) :
    eventsOf id (ev :: q) = if ev.connId = id then ev :: eventsOf id q else eventsOf id q := by
  simp [eventsOf, List.filter_cons]

/-- The events of a connection are in its lane. -/
theorem eventsOf_filter (id : ℕ) {p : Event → Bool} (hp : ∀ ev, ev.connId = id → p ev = true)
    (q : List Event) : eventsOf id (q.filter p) = eventsOf id q := by
  rw [eventsOf, List.filter_filter, eventsOf]
  refine List.filter_congr fun ev _ => ?_
  by_cases h : ev.connId = id <;> simp [h, hp]

/-- An event of another connection settles nothing here. -/
theorem Event.settle_of_ne {id : ℕ} {ev : Event} (h : ev.connId ≠ id) (known : Bool) :
    ev.settle id known = known := by
  cases ev <;> simp_all [Event.settle, Event.connId]

namespace Server

variable {cfg : ServerConfig} {e : Env} {s s' : Server} {op : Op} {new : List Op}

/-- The events of a connection that a service has still to handle. -/
def queue (cfg : ServerConfig) (id : ℕ) (s : Server) : ServiceId → List Event
  | .game => eventsOf id (s.game (cfg.laneOf id)).events
  | .chat => eventsOf id s.chat.events

/-- Whether a service has an entry for a connection. -/
def knows (cfg : ServerConfig) (id : ℕ) (s : Server) : ServiceId → Bool
  | .game => (s.game (cfg.laneOf id)).knows id
  | .chat => s.chat.knows id

/-- The events of a connection that an operation puts into the queue of a service. -/
def posts (cfg : ServerConfig) (id : ℕ) (s : Server) (service : ServiceId) (op : Op) : List Event :=
  eventsOf id (s.posted cfg service op)

/-- A service handles the first event of a connection. -/
def Handles (cfg : ServerConfig) (id : ℕ) (svc : ServiceId) (s s' : Server) : Prop :=
  ∃ ev, ev.connId = id ∧ s.queue cfg id svc = ev :: s'.queue cfg id svc ∧
    s'.knows cfg id svc = ev.settle id (s.knows cfg id svc)

/-- Taking an event from the front of a list of events takes it from the queue of its
connection. -/
theorem handle_front {id : ℕ} {ev : Event} {q q' : List Event} {known known' : Bool}
    (hq : q = ev :: q') (hk : known' = ev.settle id known) :
    (eventsOf id q' = eventsOf id q ∧ known' = known) ∨
      ∃ ev, ev.connId = id ∧ eventsOf id q = ev :: eventsOf id q' ∧ known' = ev.settle id known := by
  rw [hq, eventsOf_cons]
  split_ifs with hid
  · exact Or.inr ⟨ev, hid, rfl, hk⟩
  · exact Or.inl ⟨rfl, by rw [hk, Event.settle_of_ne hid]⟩

/-- An operation adds what it posts to the queue of a connection, or a service handles the
first event of it. -/
theorem exec_queue (id : ℕ) (svc : ServiceId) (h : s.exec cfg e op = some (s', new)) :
    (s'.queue cfg id svc = s.queue cfg id svc ++ s.posts cfg id svc op ∧
        s'.knows cfg id svc = s.knows cfg id svc) ∨
      s.posts cfg id svc op = [] ∧ Handles cfg id svc s s' := by
  cases svc with
  | game =>
    obtain ⟨rfl, ops, -, hstep⟩ | ⟨-, hlane⟩ := exec_game h (cfg.laneOf id)
    · simp only [Handles, queue, knows, posts, posted, eventsOf_nil, List.append_nil, true_and]
      cases GameLane.turn hstep with
      | move hev _ hsess _ => exact Or.inl (by simp [hev, GameLane.knows, hsess])
      | reply _ _ hev _ hsess _ => exact Or.inl (by simp [hev, GameLane.knows, hsess])
      | event ev hev _ hsess _ =>
        refine handle_front hev ?_
        rw [← GameLane.knows_onEvent e]
        simp [GameLane.knows, hsess]
    · refine Or.inl ⟨?_, ?_⟩
      · have hfilter := eventsOf_filter id (p := fun ev => cfg.laneOf ev.connId = cfg.laneOf id)
          (by rintro ev rfl; simp) (s.posted cfg .game op)
        simp [queue, posts, hlane, GameLane.events, hfilter]
      · simp [knows, hlane, GameLane.knows]
  | chat =>
    obtain ⟨rfl, ops, -, hstep⟩ | ⟨-, hchat⟩ := exec_chat h
    · simp only [Handles, queue, knows, posts, posted, eventsOf_nil, List.append_nil, true_and]
      cases ChatLane.turn hstep with
      | move hev _ hmem => exact Or.inl (by simp [hev, ChatLane.knows, hmem])
      | relay msg hev _ hmem =>
        refine Or.inl ⟨by rw [hev], ?_⟩
        rw [← s.chat.knows_onService msg]
        simp [ChatLane.knows, hmem]
      | event ev hev _ hmem =>
        refine handle_front hev ?_
        rw [← ChatLane.knows_onEvent]
        simp [ChatLane.knows, hmem]
    · refine Or.inl ⟨?_, ?_⟩
      · simp [queue, posts, hchat, ChatLane.events]
      · simp [knows, hchat, ChatLane.knows]

/-! ## What a service will know -/

/-- Whether a service knows a connection once it has handled what is queued. -/
def settles (cfg : ServerConfig) (id : ℕ) (s : Server) (svc : ServiceId) : Bool :=
  settled id (s.knows cfg id svc) (s.queue cfg id svc)

/-- Only the two notices change what a service will know. -/
theorem exec_settles (id : ℕ) (svc : ServiceId) (h : s.exec cfg e op = some (s', new)) :
    s'.settles cfg id svc = match op with
      | .postConnected svc' k => s.settles cfg id svc || (svc' = svc && k = id)
      | .postDisconnected svc' k => s.settles cfg id svc && !(svc' = svc && k = id)
      | _ => s.settles cfg id svc := by
  have hposts : s'.settles cfg id svc =
      settled id (s.settles cfg id svc) (s.posts cfg id svc op) := by
    obtain ⟨hq, hk⟩ | ⟨hnil, ev, -, hq, hk⟩ := exec_queue id svc h
    · rw [settles, hq, hk, settled_append]
      rfl
    · rw [settles, hk, hnil, settled_nil, settles, hq, settled_cons]
  rw [hposts]
  cases op with
  | postConnected svc' k =>
    by_cases hsvc : svc' = svc <;> by_cases hk : k = id <;>
      simp [posts, posted, eventsOf_cons, settled, Event.settle, Event.connId, hsvc, hk]
  | postDisconnected svc' k =>
    by_cases hsvc : svc' = svc <;> by_cases hk : k = id <;>
      simp [posts, posted, eventsOf_cons, settled, Event.settle, Event.connId, hsvc, hk]
  | tryEmplace svc' k index view =>
    simp only [posts, posted]
    split_ifs
    · simp only [eventsOf_cons, eventsOf_nil]
      split_ifs <;> rfl
    · rfl
  | _ => rfl

/-! ## Each lane has its own connections -/

/-- Everything in a game lane is about connections of the lane. -/
structure Owned (cfg : ServerConfig) (s : Server) (l : ℕ) : Prop where
  events : ∀ ev ∈ (s.game l).events, cfg.laneOf ev.connId = l
  replies : ∀ r ∈ (s.game l).replies, cfg.laneOf r.2.connId = l
  sessions : ∀ id, (s.game l).knows id = true → cfg.laneOf id = l
  issued : ∀ p ∈ (s.game l).issued, cfg.laneOf p.1 = l

/-- The queues of a lane hold its own connections only. -/
theorem Owned.exec {l : ℕ} (hs : s.Owned cfg l) (h : s.exec cfg e op = some (s', new)) :
    s'.Owned cfg l := by
  obtain ⟨rfl, ops, -, hstep⟩ | ⟨-, hlane⟩ := exec_game h l
  · cases GameLane.turn hstep with
    | move hev hrep hsess hiss =>
      exact ⟨by rw [hev]; exact hs.events, by rw [hrep]; exact hs.replies,
        by simpa [GameLane.knows, hsess] using hs.sessions, by rw [hiss]; exact hs.issued⟩
    | reply index res hev hrep hsess hiss =>
      refine ⟨by rw [hev]; exact hs.events, fun r hr => ?_,
        by simpa [GameLane.knows, hsess] using hs.sessions, by rw [hiss]; exact hs.issued⟩
      exact hs.replies r (by rw [hrep]; exact List.mem_cons_of_mem _ hr)
    | event ev hev hrep hsess hiss =>
      have hown : cfg.laneOf ev.connId = l := hs.events ev (by simp [hev])
      refine ⟨fun ev' hev' => hs.events ev' (by rw [hev]; exact List.mem_cons_of_mem _ hev'),
        by rw [hrep]; exact hs.replies, fun id hid => ?_, fun p hp => ?_⟩
      · have hknows : (s'.game l).knows id = ev.settle id ((s.game l).knows id) := by
          rw [← GameLane.knows_onEvent e]
          simp [GameLane.knows, hsess]
        rw [hknows] at hid
        by_cases hev : ev.connId = id
        · exact hev ▸ hown
        · exact hs.sessions id (by rwa [Event.settle_of_ne hev] at hid)
      · rw [hiss] at hp
        obtain hp | hp := GameLane.mem_issued_onEvent hp
        · exact hs.issued p hp
        · rwa [hp]
  · refine ⟨?_, ?_, by simpa [GameLane.knows, hlane] using hs.sessions,
      by rw [hlane]; exact hs.issued⟩
    · have hev : (s'.game l).events = (s.game l).events ++
          (s.posted cfg .game op).filter fun ev => cfg.laneOf ev.connId = l := by
        simp [GameLane.events, hlane]
      intro ev hmem
      rw [hev, List.mem_append, List.mem_filter] at hmem
      rcases hmem with hmem | ⟨-, hl⟩
      · exact hs.events ev hmem
      · exact of_decide_eq_true hl
    · have hrep : (s'.game l).replies = (s.game l).replies ++ repliesFor cfg l (answers s s') := by
        simp [GameLane.replies, hlane]
      intro r hmem
      rw [hrep, List.mem_append, mem_repliesFor] at hmem
      exact hmem.elim (hs.replies r) (·.1)

theorem owned_fresh (cfg : ServerConfig) (l : ℕ) : (Server.fresh cfg).Owned cfg l := by
  constructor <;> simp [Server.fresh, GameLane.fresh, GameLane.events, GameLane.replies,
    GameLane.knows, GameLoop.heldEvents, GameLoop.heldReplies]

/-- In every run, everything in a game lane is about connections of the lane. -/
theorem owned_of_reachesWhen {ok : ServerState → ServerStep → Prop} {s : ServerState}
    (h : (serverThreads cfg).ReachesWhen ok s) (l : ℕ) : s.server.Owned cfg l := by
  refine Machine.ReachesWhen.invariant (I := fun s => s.server.Owned cfg l) ?_ ?_ h
  · rintro s rfl
    exact owned_fresh cfg l
  · intro s a s' hs _ hstep
    obtain ⟨i, e, op, new, -, -, hex, -⟩ | ⟨op, -, -, hsv, -⟩ := ServerState.step_cases hstep
    · exact hs.exec hex
    · rwa [hsv]

end Server

end EchoServer
