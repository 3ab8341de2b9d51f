import EchoServer.Db.QueueCounters
import EchoServer.System.Passing

/-!
# One answer to each frame

A session that is not known would drop a message. `Served` says that the services know an open
connection when they come to its messages, so a frame that is consumed is passed on until its answer
is in the send buffer. At any time it is in exactly one place (`Balanced`), and when nothing is on
its way it has been answered once (`answered_once`).
-/

namespace EchoServer

open Threads

variable {cfg : ServerConfig} {e : Env} {s s' : ServerState} {t : Server} {op : Op}
  {new : List Op} {i id index : ℕ} {results : List (Job ℕ × Outcome)}

/-! ## What the services know -/

/-- Without messages there is nothing to know. -/
theorem served_of_not_message {q : List Event} (h : ∀ m, .message m ∈ q → m.connId ≠ id)
    (known : Bool) : served id known q := by
  induction q generalizing known with
  | nil => exact served_nil ..
  | cons ev q ih =>
    refine (served_cons ..).mpr ⟨?_, ih (fun m hm => h m (List.mem_cons_of_mem _ hm)) _⟩
    rintro m rfl hid
    exact absurd hid (h m (List.mem_cons_self ..))

/-- The services know an open connection when they come to its messages. -/
def Served (cfg : ServerConfig) (s : ServerState) (id : ℕ) : Prop :=
  (s.server.conns id).closed = false →
    ∀ svc, served id (s.server.knows cfg id svc) (s.server.queue cfg id svc)

/-- A message is queued by the receive handler that offers it. -/
theorem Server.posts_message {s : Server} {svc : ServiceId} {m : Message}
    (hm : .message m ∈ s.posts cfg id svc op) :
    (∃ n, op.frame? = some (id, n)) ∧ s.posts cfg id svc op = [.message m] := by
  cases op with
  | postConnected svc' k =>
    simp only [posts, posted, eventsOf] at hm
    split_ifs at hm <;> simp at hm
  | postDisconnected svc' k =>
    simp only [posts, posted, eventsOf] at hm
    split_ifs at hm <;> simp at hm
  | tryEmplace svc' k n view =>
    simp only [posts, posted, eventsOf] at hm ⊢
    split_ifs at hm ⊢
    · simp only [List.mem_filter, List.mem_singleton, decide_eq_true_eq] at hm
      obtain ⟨heq, hid⟩ := hm
      rw [heq] at hid ⊢
      obtain rfl : k = id := by simpa [Event.connId] using hid
      exact ⟨⟨n, rfl⟩, by simp [hid]⟩
    · simp at hm
  | _ => simp [posts, posted] at hm

/-- The messages in a queue are frames of their connections. -/
theorem Traced.framed_queue (hs : Traced cfg s results) {svc : ServiceId} {ev : Event}
    (hev : ev ∈ s.server.queue cfg id svc) : s.server.Framed svc ev := by
  cases svc with
  | game => exact hs.game _ ev (List.mem_filter.mp hev).1
  | chat => exact hs.chat ev (List.mem_filter.mp hev).1

namespace Served

theorem fresh (cfg : ServerConfig) (id : ℕ) : Served cfg (.fresh cfg) id := by
  intro _ svc
  cases svc <;> exact served_nil ..

theorem exec (hs : Served cfg s id) (ht : Traced cfg s results) (ha : Adoption s id)
    (hn : Entry cfg s id) (hv : Arrived s id) (hr : Receiving s id)
    (hi : s.threads.head i = some op)
    (h : s.server.exec cfg e op = some (t, new)) : Served cfg ⟨t, s.threads.exec i new⟩ id := by
  intro hopen svc
  by_cases hadopt : op = .adopt ∧ s.server.nextId = id
  · obtain ⟨rfl, rfl⟩ := hadopt
    have hunborn := ht.unborn _ le_rfl
    refine served_of_not_message (fun m hm hid => ?_) _
    have hmem : .message m ∈ s.server.queue cfg s.server.nextId svc := by
      cases h
      exact hm
    have hframed := ht.framed_queue hmem
    obtain ⟨view, hview, -⟩ := hframed
    rw [hid, hunborn] at hview
    simp at hview
  · have hwas : (s.server.conns id).closed = false := by
      by_contra hclosed
      have := Server.closed_exec_of_ne h (fun hop hid => hadopt ⟨hop, hid⟩) (by simpa using hclosed)
      simp [this] at hopen
    have hold := hs hwas svc
    dsimp only
    obtain ⟨hq, hk⟩ | ⟨-, ev, hid, hq, hk⟩ := Server.exec_queue id svc h
    · rw [hq, hk, served_append]
      refine ⟨hold, ?_⟩
      by_cases hmsg : ∃ m, .message m ∈ s.server.posts cfg id svc op
      · obtain ⟨m, hm⟩ := hmsg
        obtain ⟨⟨n, hframe⟩, hposts⟩ := Server.posts_message hm
        have hreceived : (s.server.conns id).received ≠ [] := by
          have hle := le_weight (Op.offers id n) hi
          have hlt := (hr.next n (by simp [Op.offers, hframe] at hle; omega)).2
          exact List.ne_nil_of_length_pos (by omega)
        have hsettles := settles_of_received ha hn hv hreceived hwas svc
        rw [hposts, served_cons]
        exact ⟨fun _ _ _ => hsettles, served_nil ..⟩
      · exact served_of_not_message (fun m hm => absurd ⟨m, hm⟩ hmsg) _
    · rw [hq, served_cons] at hold
      rw [hk]
      exact hold.2

end Served

/-! ## Frames that answer nothing -/

/-- A session key or a push. -/
def Frame.Unasked (f : Frame) : Prop := f.msgId = kSessionAck ∨ f.msgId = kChatPush

/-- What is sent answers a frame, or is a session key or a push. -/
def Op.Marked : Op → Prop
  | send _ answers f | lockSend _ answers f => answers = none → f.Unasked
  | broadcast _ _ f _ => f.msgId = kChatPush
  | _ => True

/-- What a turn of the lane sends without a request is a session key. -/
theorem GameLane.marked_turn {lane lane' : GameLane} {ops : List Op} (h : Turn e lane lane' ops)
    (hop : op ∈ ops) : op.Marked := by
  cases h with
  | move => simp at hop
  | reply n res =>
    unfold onReply at hop
    split at hop
    · simp at hop
    · obtain rfl := List.mem_singleton.mp hop
      rintro ⟨⟩
  | event ev =>
    cases ev with
    | connected k =>
      simp only [onEvent] at hop
      split at hop
      all_goals
        simp only [List.mem_cons, List.not_mem_nil, or_false] at hop
        obtain rfl | rfl := hop
        · exact fun _ => Or.inl rfl
        · trivial
    | disconnected k => simp [onEvent] at hop
    | message m =>
      simp only [onEvent] at hop
      split at hop
      · simp at hop
      · obtain ⟨f, rfl⟩ | rfl | ⟨req, -, hop⟩ := Verdict.mem_ops hop
        · rintro ⟨⟩
        · trivial
        · obtain rfl := List.mem_singleton.mp hop
          trivial

/-- What the chat service sends without a request is a push. -/
theorem ChatLane.marked_turn {lane lane' : ChatLane} {ops : List Op} (h : Turn lane lane' ops)
    (hop : op ∈ ops) : op.Marked := by
  cases h with
  | move => simp at hop
  | relay => simp at hop
  | event ev =>
    cases ev with
    | connected k => simp [onEvent] at hop
    | disconnected k => simp [onEvent] at hop
    | message m =>
      simp only [onEvent] at hop
      split at hop
      · simp at hop
      · obtain ⟨f, rfl⟩ | rfl | ⟨text, -, hop⟩ := Verdict.mem_ops hop
        · rintro ⟨⟩
        · trivial
        · obtain rfl := List.mem_singleton.mp hop
          rfl

/-- What an operation leads to is marked as it is. -/
theorem Server.marked_exec {s : Server} (h : s.exec cfg e op = some (t, new)) (hop : op.Marked) :
    ∀ o ∈ new, o.Marked := by
  intro o ho
  cases Server.expandsTo_exec h ho with
  | game l mem => exact GameLane.marked_turn (GameLane.turn rfl) mem
  | chat mem => exact ChatLane.marked_turn (ChatLane.turn rfl) mem
  | again => exact hop
  | bare hbare => cases o <;> simp_all [Op.bare, Op.Marked]
  | handler id _ hgoes => obtain rfl | rfl | rfl := hgoes <;> trivial
  | offer | pass | route => trivial
  | refuse | refuseDb => rintro ⟨⟩
  | lock => exact hop
  | member => exact fun _ => Or.inr hop
  | members => exact hop

/-- What is sent without a request stands for no frame. -/
structure Marked (s : ServerState) : Prop where
  ops : ∀ stack ∈ s.threads, ∀ o ∈ stack, o.Marked
  sent : ∀ id, ∀ p ∈ (s.server.conns id).sent, p.1 = none → p.2.Unasked

namespace Marked

theorem fresh (cfg : ServerConfig) : Marked (.fresh cfg) where
  ops stack hstack o ho := by
    simp only [ServerState.fresh, List.mem_append, List.mem_map, List.mem_cons,
      List.not_mem_nil, or_false] at hstack
    obtain ⟨l, -, rfl⟩ | rfl | rfl := hstack
    all_goals
      obtain rfl := List.mem_singleton.mp ho
      trivial
  sent id p hp := by simp [ServerState.fresh, Server.fresh, Conn.fresh] at hp

theorem exec (hs : Marked s) (hi : s.threads.head i = some op)
    (h : s.server.exec cfg e op = some (t, new)) : Marked ⟨t, s.threads.exec i new⟩ := by
  obtain ⟨stack, hstack, hmem⟩ := mem_of_head hi
  have hop := hs.ops stack hstack op hmem
  refine ⟨forall_exec hi hs.ops fun rest hrest o ho => ?_, fun id p hp => ?_⟩
  · obtain ho | ho := List.mem_append.mp ho
    · exact Server.marked_exec h hop o ho
    · exact hrest o (List.mem_cons_of_mem _ ho)
  · obtain hp | rfl := Server.mem_sent_exec h hp
    · exact hs.sent id p hp
    · exact hop

theorem step {a : ServerStep} (hs : Marked s) (h : (serverThreads cfg).step s a = some s') :
    Marked s' := by
  obtain ⟨i, e, op, new, -, hi, hex, hth⟩ | ⟨op, -, hext, hsv, hth⟩ := ServerState.step_cases h
  · have := hs.exec hi hex
    rwa [← hth] at this
  · refine ⟨fun stack hstack o ho => ?_, by rw [hsv]; exact hs.sent⟩
    rw [hth, spawn, List.mem_append, List.mem_singleton] at hstack
    obtain hstack | rfl := hstack
    · exact hs.ops stack hstack o ho
    · obtain rfl := List.mem_singleton.mp ho
      cases o <;> simp_all [Server.external, Op.Marked]

end Marked

/-! ## Every frame of a connection -/

/-- A frame that has been consumed is in one place; a request that the pool has answered is no
longer in the pool. -/
def Balanced (cfg : ServerConfig) (s : ServerState) (id index : ℕ) : Prop :=
  s.threads.weight (Op.owes id index) + s.server.inboxes cfg id index +
      s.server.sentFor id index + s.server.taken id index =
    (if index < (s.server.conns id).consumed + s.threads.weight (Op.consumes id) then 1 else 0) +
      s.server.given id index

/-- What is passed on stays in balance. -/
theorem Balanced.exec (hs : Balanced cfg s id index) (hr : Receiving s id)
    (hi : s.threads.head i = some op) (h : s.server.exec cfg e op = some (t, new))
    (hadopt : op = .adopt → s.server.nextId ≠ id)
    (hkept : Server.Kept cfg id index s.server t op new) (hopen : ¬ Server.Closes id t new) :
    Balanced cfg ⟨t, s.threads.exec i new⟩ id index := by
  have hpassed := hkept.resolve_left hopen
  have howes := weight_exec (Op.owes id index) hi new
  have hcon := weight_exec (Op.consumes id) hi new
  have hconsumed := Server.consumed_exec h id hadopt
  unfold Balanced at hs ⊢
  dsimp only
  obtain ⟨hle, hframe⟩ := Server.consumes_exec h id
  by_cases hnew : 0 < stackWeight (Op.consumes id) new
  · -- the frame that is next is consumed
    obtain ⟨n, hn⟩ := hframe hnew
    have hoffers : op.offers id index = (n = index : Bool).toNat := by
      simp [Op.offers, hn]
    have hpos : 0 < s.threads.weight (Op.offers id n) := by
      have := le_weight (Op.offers id n) hi
      simp [Op.offers, hn] at this
      omega
    have hnext := (hr.next n hpos).1
    have hzero := hr.consumes_eq_zero hpos
    have hone : stackWeight (Op.consumes id) new = 1 := by omega
    rw [hoffers, hone, Nat.mul_one] at hpassed
    by_cases hindex : n = index
    · simp only [hindex, decide_true, Bool.toNat_true] at hpassed
      rw [if_neg (by omega)] at hs
      rw [if_pos (by omega)]
      omega
    · simp only [hindex, decide_false, Bool.toNat_false] at hpassed
      have hiff : index < (t.conns id).consumed + weight (Op.consumes id) (s.threads.exec i new) ↔
          index < (s.server.conns id).consumed + weight (Op.consumes id) s.threads := by
        omega
      rw [if_congr hiff rfl rfl]
      omega
  · have hnone : stackWeight (Op.consumes id) new = 0 := by omega
    have hsame : (t.conns id).consumed + weight (Op.consumes id) (s.threads.exec i new) =
        (s.server.conns id).consumed + weight (Op.consumes id) s.threads := by
      omega
    rw [hnone, Nat.mul_zero] at hpassed
    rw [hsame]
    omega

/-- A connection that has received no frame has asked for nothing. -/
theorem Server.Asked.connId_ne {s : Server} {n : ℕ} {req : Request} (hreq : s.Asked cfg n req)
    (hnil : (s.conns id).received = []) : req.connId ≠ id := by
  rintro rfl
  obtain ⟨view, -, -, hview, -⟩ := hreq.frame
  simp [hnil] at hview

/-- No thread has an answer in hand for it. -/
theorem Traced.owes_of_unreceived (hs : Traced cfg s results)
    (hnil : (s.server.conns id).received = []) (index : ℕ) :
    s.threads.weight (Op.owes id index) = 0 := by
  by_contra hne
  obtain ⟨stack, hstack, o, ho, hpos⟩ := exists_of_weight_pos _ (Nat.pos_of_ne_zero hne)
  have hop := hs.ops stack hstack o ho
  cases o with
  | send k answers f | lockSend k answers f =>
    simp only [Op.owes, Nat.pos_iff_ne_zero, ne_eq, Bool.toNat_eq_zero, Bool.not_eq_false,
      Bool.and_eq_true, decide_eq_true_eq] at hpos
    obtain ⟨rfl, hanswers⟩ := hpos
    obtain ⟨view, hview, -⟩ := hop.frame index hanswers
    simp [hnil] at hview
  | submitDb n req =>
    simp only [Op.owes, Nat.pos_iff_ne_zero, ne_eq, Bool.toNat_eq_zero, Bool.not_eq_false,
      Bool.and_eq_true, decide_eq_true_eq] at hpos
    exact Server.Asked.connId_ne hop hnil hpos.1
  | broadcast k n f todo =>
    simp only [Op.owes] at hpos
    split_ifs at hpos with hframe
    · obtain ⟨-, view, hview, -⟩ := hop
      rw [hframe.1] at hview
      simp [hnil] at hview
    · omega
  | _ => simp [Op.owes] at hpos

/-- Nothing is on its way for a connection that has received no frame. -/
theorem Traced.balanced_of_unreceived (hs : Traced cfg s results) (hr : Receiving s id)
    (hnil : (s.server.conns id).received = []) (index : ℕ) : Balanced cfg s id index := by
  have hno : ∀ {n : ℕ} {view : Frame}, (s.server.conns id).received[n]? ≠ some view := by
    simp [hnil]
  have hasked : ∀ {n : ℕ} {req : Request}, s.server.Asked cfg n req → req.connId ≠ id :=
    fun hreq => hreq.connId_ne hnil
  have howes := hs.owes_of_unreceived hnil index
  have hcarries : ∀ svc ev, s.server.Framed svc ev → ¬ ev.carries id index = true := by
    intro svc ev hframed hcarry
    cases ev with
    | message m =>
      obtain ⟨view, hview, -⟩ := hframed
      rw [show m.connId = id from Event.connId_of_carries hcarry] at hview
      exact hno hview
    | _ => cases hcarry
  have hgiven : ∀ p ∈ s.server.pool.responded, p.2.connId ≠ id := by
    intro p hp hid
    have hj := hs.jobs p.1 (hs.pool.mem_of_responded hp)
    exact hasked hj (((hs.sound.responded p hp).connId_eq).symm.trans hid)
  have hinboxes : s.server.inboxes cfg id index = 0 := by
    have hgame := List.countP_eq_zero.mpr fun ev hev =>
      hcarries .game ev (hs.game (cfg.laneOf id) ev hev)
    have hchat := List.countP_eq_zero.mpr fun ev hev => hcarries .chat ev (hs.chat ev hev)
    have hreplies : (s.server.game (cfg.laneOf id)).replies.countP
        (fun r => r.2.connId = id && r.1 = index) = 0 := by
      refine List.countP_eq_zero.mpr fun p hp hof => ?_
      obtain ⟨j, hj, -⟩ := hs.replies _ p hp
      simp only [Bool.and_eq_true, decide_eq_true_eq] at hof
      exact hgiven _ hj hof.1
    rw [Server.inboxes, hgame, hchat, hreplies]
  have hsent : s.server.sentFor id index = 0 := by
    refine List.countP_eq_zero.mpr fun p hp hof => ?_
    obtain ⟨view, hview, -⟩ := (hs.sent id p hp).frame index (of_decide_eq_true hof)
    exact hno hview
  have htaken : s.server.taken id index = 0 := by
    refine List.countP_eq_zero.mpr fun j hj hof => ?_
    simp only [Bool.and_eq_true, decide_eq_true_eq] at hof
    exact hasked (hs.jobs j hj) hof.1
  have hgiven' : s.server.given id index = 0 := by
    refine List.countP_eq_zero.mpr fun p hp hof => ?_
    simp only [Bool.and_eq_true, decide_eq_true_eq] at hof
    exact hgiven p hp hof.1
  have hconsumed := hr.consumed_le
  rw [hnil] at hconsumed
  simp only [List.length_nil, Nat.le_zero, Nat.add_eq_zero_iff] at hconsumed
  simp [Balanced, howes, hinboxes, hsent, htaken, hgiven', hconsumed]

/-- The frames of a connection, on their way from its receive handlers to its send buffer. -/
structure OneReply (cfg : ServerConfig) (s : ServerState) (id : ℕ) : Prop where
  traced : ∃ results, Traced cfg s results
  pool : (workerPool ℕ cfg.pool).Reaches s.server.pool
  adoption : Adoption s id
  entry : Entry cfg s id
  issue : Issue cfg s id
  arrived : Arrived s id
  receiving : Receiving s id
  served : Served cfg s id
  marked : Marked s
  balance : Ending s id ∨ ∀ index, Balanced cfg s id index

namespace OneReply

theorem fresh (cfg : ServerConfig) (id : ℕ) : OneReply cfg (.fresh cfg) id where
  traced := ⟨[], .fresh cfg⟩
  pool := .init rfl
  adoption := .fresh cfg id
  entry := .fresh cfg id
  issue := .fresh cfg id
  arrived := .fresh cfg id
  receiving := .fresh cfg id
  served := .fresh cfg id
  marked := .fresh cfg
  balance := Or.inr ((Traced.fresh cfg).balanced_of_unreceived (.fresh cfg id) rfl)

/-- Each frame stays in one place, or its connection is about to close. -/
theorem balance_exec (hs : OneReply cfg s id) (hi : s.threads.head i = some op)
    (h : s.server.exec cfg e op = some (t, new)) (hadopt : op = .adopt → s.server.nextId ≠ id) :
    Ending ⟨t, s.threads.exec i new⟩ id ∨
      ∀ index, Balanced cfg ⟨t, s.threads.exec i new⟩ id index := by
  obtain ⟨results, ht⟩ := hs.traced
  by_cases hcloses : Server.Closes id t new
  · exact Or.inl (.of_closes hcloses hi h)
  obtain hend | hbalance := hs.balance
  · exact Or.inl (hend.exec hi h hadopt)
  cases hclosed : (s.server.conns id).closed with
  | true => exact Or.inl (Ending.exec (Or.inl hclosed) hi h hadopt)
  | false =>
    refine Or.inr fun index => (hbalance index).exec hs.receiving hi h hadopt ?_ hcloses
    refine Server.kept_exec h hadopt ht.pool ht.owned (hs.served hclosed) fun r hr hid => ?_
    obtain ⟨j, hj, -⟩ := ht.replies _ r hr
    have hconn : r.2.connId = j.req.connId := (ht.sound.responded _ hj).connId_eq
    exact hs.issue.knows_of_asked hs.adoption hs.entry hs.arrived hclosed
      (ht.jobs j (ht.pool.mem_of_responded hj)) (hconn.symm.trans hid)

/-- Every operation keeps each frame in its place. -/
theorem exec (hs : OneReply cfg s id) (hi : s.threads.head i = some op)
    (h : s.server.exec cfg e op = some (t, new)) : OneReply cfg ⟨t, s.threads.exec i new⟩ id := by
  obtain ⟨results, ht⟩ := hs.traced
  have ht' := ht.exec hi h
  have hr' := hs.receiving.exec hi h (ht.unborn _ le_rfl)
  refine
    { traced := ⟨_, ht'⟩
      pool := ?_
      adoption := hs.adoption.exec hi h
      entry := hs.entry.exec hs.adoption hi h
      issue := hs.issue.exec hi h
      arrived := hs.arrived.exec h
      receiving := hr'
      served := hs.served.exec ht hs.adoption hs.entry hs.arrived hs.receiving hi h
      marked := hs.marked.exec hi h
      balance := ?_ }
  · obtain hsame | ⟨a, hstep⟩ := Server.exec_pool h
    · exact hsame ▸ hs.pool
    · exact hs.pool.step trivial hstep
  · by_cases hadopt : op = .adopt ∧ s.server.nextId = id
    · obtain ⟨rfl, rfl⟩ := hadopt
      refine Or.inr (ht'.balanced_of_unreceived hr' ?_)
      cases h
      simp [Server.updConn, Conn.fresh]
    · exact hs.balance_exec hi h fun hop hid => hadopt ⟨hop, hid⟩

/-- So does every step, with one receiver at a time. -/
theorem step {a : ServerStep} (hs : OneReply cfg s id) (hok : OneReceiver s a = true)
    (h : (serverThreads cfg).step s a = some s') : OneReply cfg s' id := by
  obtain ⟨results, ht⟩ := hs.traced
  obtain ⟨i, e, op, new, -, hi, hex, hth⟩ | ⟨op, rfl, hext, hsv, hth⟩ := ServerState.step_cases h
  · have := hs.exec hi hex
    rwa [← hth] at this
  · refine
      { traced := ⟨_, ht.step h⟩
        pool := hsv ▸ hs.pool
        adoption := hs.adoption.step h
        entry := hs.entry.step hs.adoption h
        issue := hs.issue.step h
        arrived := hs.arrived.step h
        receiving := hs.receiving.step hok (ht.unborn _ le_rfl) h
        served := ?_
        marked := hs.marked.step h
        balance := ?_ }
    · have hserved := hs.served
      simpa only [Served, hsv] using hserved
    · have howes : ∀ index, op.owes id index = 0 := by
        cases op <;> simp_all [Server.external, Op.owes]
      have hconsumes : op.consumes id = 0 := by
        cases op <;> simp_all [Server.external, Op.consumes]
      refine hs.balance.imp (fun hend => ?_) fun hbalance index => ?_
      · rw [Ending, hsv, hth, weight_spawn]
        exact hend.imp_right fun hpos => by omega
      · have hold := hbalance index
        simpa [Balanced, hsv, hth, howes, hconsumes] using hold

end OneReply

/-! ## When nothing is on its way -/

/-- The queues and the pool are empty, and no thread has an answer in hand. -/
structure Idle (cfg : ServerConfig) (s : ServerState) : Prop where
  game : ∀ l < cfg.lanes, (s.server.game l).events = [] ∧ (s.server.game l).replies = []
  chat : s.server.chat.events = []
  pool : (s.server.pool.counters cfg.pool).sum = 0
  threads : ∀ stack ∈ s.threads, ∀ o ∈ stack, o.answering = false

namespace Idle

/-- When the server is idle, no thread has an answer in hand. -/
theorem owes_eq_zero (h : Idle cfg s) (id index : ℕ) : s.threads.weight (Op.owes id index) = 0 := by
  by_contra hne
  obtain ⟨stack, hstack, o, ho, hpos⟩ := exists_of_weight_pos _ (Nat.pos_of_ne_zero hne)
  have hidle := h.threads stack hstack o ho
  cases o <;> simp_all [Op.owes, Op.answering]

/-- And no frame is in a queue. -/
theorem inboxes_eq_zero (h : Idle cfg s) (id index : ℕ) : s.server.inboxes cfg id index = 0 := by
  obtain ⟨hevents, hreplies⟩ := h.game (cfg.laneOf id) (Nat.mod_lt _ cfg.lanes_pos)
  simp [Server.inboxes, hevents, hreplies, h.chat]

/-- The pool has answered what it has taken in. -/
theorem taken_eq_given (h : Idle cfg s) (hs : OneReply cfg s id) (index : ℕ) :
    s.server.taken id index = s.server.given id index := by
  obtain ⟨results, ht⟩ := hs.traced
  have hperm := (Pool.counted_of_reaches hs.pool).perm_answered ht.pool h.pool
  rw [Server.taken, Server.given, ← hperm.countP_eq, List.countP_map]
  refine List.countP_congr fun r hr => ?_
  have hconn : r.2.connId = r.1.req.connId := (ht.sound.responded r hr).connId_eq
  simp [hconn]

end Idle

/-- When nothing is on its way, a frame that an open connection has consumed has been answered
once. -/
theorem OneReply.answered (hs : OneReply cfg s id) (hidle : Idle cfg s) (hopen : ¬ Ending s id)
    (hindex : index < (s.server.conns id).consumed) :
    ∃ view f, (s.server.conns id).received[index]? = some view ∧ f.Answers view.msgId ∧
      ((s.server.conns id).sent.filter fun p => p.1 = some index) = [(some index, f)] := by
  have hbalance := hs.balance.resolve_left hopen index
  have howes := hidle.owes_eq_zero id index
  have hinboxes := hidle.inboxes_eq_zero id index
  have htaken := hidle.taken_eq_given hs index
  unfold Balanced at hbalance
  rw [if_pos (by omega)] at hbalance
  have hone : s.server.sentFor id index = 1 := by omega
  rw [Server.sentFor, List.countP_eq_length_filter] at hone
  obtain ⟨⟨answers, f⟩, hf⟩ := List.length_eq_one_iff.mp hone
  have hmem : (answers, f) ∈ (s.server.conns id).sent.filter fun p => p.1 = some index := by
    rw [hf]
    exact List.mem_singleton_self _
  obtain ⟨hsent, hanswers⟩ := List.mem_filter.mp hmem
  obtain rfl : answers = some index := of_decide_eq_true hanswers
  obtain ⟨results, ht⟩ := hs.traced
  obtain ⟨view, hview, hof⟩ := (ht.sent id _ hsent).frame index rfl
  exact ⟨view, f, hview, hof, hf⟩

/-- In every run in which the receive handlers of a connection run one at a time, when nothing is
on its way and the connection is open, each frame that it has consumed has been answered to it
once; what is sent to it and answers no frame is its session key or a push. -/
theorem answered_once
    (h : (serverThreads cfg).ReachesWhen (fun s a => OneReceiver s a = true) s) (hidle : Idle cfg s)
    (hopen : ¬ Ending s id) :
    (∀ index < (s.server.conns id).consumed,
      ∃ view f, (s.server.conns id).received[index]? = some view ∧ f.Answers view.msgId ∧
        ((s.server.conns id).sent.filter fun p => p.1 = some index) = [(some index, f)]) ∧
      ∀ p ∈ (s.server.conns id).sent, p.1 = none → p.2.Unasked := by
  have hs : OneReply cfg s id := by
    refine Machine.ReachesWhen.invariant (I := fun s => OneReply cfg s id) ?_
      (fun s a s' hs hok hstep => hs.step hok hstep) h
    rintro s rfl
    exact .fresh cfg id
  exact ⟨fun index hindex => hs.answered hidle hopen hindex, hs.marked.sent id⟩

/-- The Saves of two sessions go into one batch; then one of the sessions says "a". -/
def saveAndChatRun : List ServerStep :=
  batchRun ++ worksRun 23 3 ++ chats 26 (ByteWriter.scratch.str [97]).data ++
    .spawn (.receive 1) :: runs 27 8 ++ runs 1 13

/-- The Save and the chat message are answered once each. -/
theorem answered_once_save_and_chat :
    ∃ s : ServerState, (s.server.conns 1).consumed = 2 ∧
      ∀ index < 2, ∃ view f, (s.server.conns 1).received[index]? = some view ∧
        f.Answers view.msgId ∧
          ((s.server.conns 1).sent.filter fun p => p.1 = some index) = [(some index, f)] := by
  obtain ⟨s, hs, htest⟩ := (serverThreads oneWorker).exists_reachesWhen
    (fun s a => OneReceiver s a = true) (.fresh oneWorker) saveAndChatRun
    (fun s => decide ((s.server.conns 1).consumed = 2 ∧
      (∀ l < oneWorker.lanes, (s.server.game l).events.length = 0 ∧
        (s.server.game l).replies.length = 0) ∧ s.server.chat.events.length = 0 ∧
      (s.server.pool.counters oneWorker.pool).sum = 0 ∧
      (∀ stack ∈ s.threads, ∀ o ∈ stack, o.answering = false) ∧
      ¬ ((s.server.conns 1).closed = true ∨ 0 < s.threads.weight (Op.closing 1))))
    rfl (by decide +kernel)
  obtain ⟨hconsumed, hgame, hchat, hpool, hthreads, hopen⟩ := of_decide_eq_true htest
  have hidle : Idle oneWorker s := by
    refine ⟨fun l hl => ?_, List.length_eq_zero_iff.mp hchat, hpool, hthreads⟩
    exact (hgame l hl).imp List.length_eq_zero_iff.mp List.length_eq_zero_iff.mp
  refine ⟨s, hconsumed, fun index hindex => ?_⟩
  exact (answered_once hs hidle hopen).1 index (by omega)

end EchoServer
