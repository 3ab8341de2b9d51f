import EchoServer.System.Receivers
import EchoServer.System.Replies

/-!
# Frames on their way

A frame that a receive handler has consumed is on its way : a message in the inbox of a service, an
operation of a service thread that sends, submits or broadcasts, a request in the pool, a response
in the inbox of a lane, or an answer in the send buffer. One operation passes it on to the next
place, and to no second one, while the connection is open (`Server.kept_exec`).
-/

namespace EchoServer

open Threads

variable {cfg : ServerConfig} {e : Env} {s : ServerState} {t : Server} {op : Op}
  {new : List Op} {i id index : ℕ}

/-! ## What the services know -/

/-- What is known at the end, and has not been announced, is known. -/
theorem known_of_settled {known : Bool} {q : List Event} (hq : .connected id ∉ q)
    (h : settled id known q = true) : known = true := by
  induction q generalizing known with
  | nil => exact h
  | cons ev q ih =>
    simp only [List.mem_cons, not_or] at hq
    have hknown := ih hq.2 h
    cases ev <;> simp_all [Event.settle]
    exact hknown.resolve_right fun hk => hq.1 hk.symm

/-- A connection that has received a frame has been announced to the services. -/
theorem settles_of_received (ha : Adoption s id) (hn : Entry cfg s id) (hr : Arrived s id)
    (hreceived : (s.server.conns id).received ≠ []) (hopen : (s.server.conns id).closed = false)
    (svc : ServiceId) : s.server.settles cfg id svc = true := by
  have hstarted := hr hreceived
  have hzero := ha.started hstarted
  have hmono := weight_mono (Op.connecting_le_adopting svc id) s.threads
  refine (hn.known hopen svc).mpr ⟨?_, by omega⟩
  by_contra hhand
  have := (ha.uninstalled (by simpa using hhand)).1
  simp [hstarted] at this

/-- The game service knows an open connection that has asked the database. -/
theorem Issue.knows_of_asked (hs : Issue cfg s id) (ha : Adoption s id) (hn : Entry cfg s id)
    (hr : Arrived s id) (hopen : (s.server.conns id).closed = false) {n : ℕ} {req : Request}
    (hreq : s.server.Asked cfg n req) (hid : req.connId = id) :
    s.server.knows cfg id .game = true := by
  subst hid
  obtain ⟨view, -, -, hview, -⟩ := hreq.frame
  have hreceived : (s.server.conns req.connId).received ≠ [] := by
    intro hnil
    simp [hnil] at hview
  have hsettles := settles_of_received ha hn hr hreceived hopen .game
  refine known_of_settled (fun hmem => ?_) hsettles
  have hcount : 0 < (s.server.game (cfg.laneOf req.connId)).events.count
      (.connected req.connId) := List.count_pos_iff.mpr (List.mem_filter.mp hmem).1
  have hissued : 0 < ((s.server.game (cfg.laneOf req.connId)).issued.filter
      fun p => p.1 = req.connId).length :=
    List.length_pos_of_mem (List.mem_filter.mpr ⟨hreq.key, by simp⟩)
  have honce := hs.once
  rw [GameLane.announced] at honce
  omega

/-! ## Where a frame is -/

/-- A request that is accepted stands behind the earlier ones. -/
theorem Pool.accepted_submit {τ : Type*} {cfg : PoolConfig} {p : Pool τ} {req : Request} {tag : τ}
    (h : (p.submit cfg req tag).1 = true) :
    ∃ j, (p.submit cfg req tag).2.accepted = p.accepted ++ [j] ∧ j.req = req ∧ j.tag = tag := by
  have hspec : ∀ r, p.submit cfg req tag = r → r.1 = true →
      ∃ j, r.2.accepted = p.accepted ++ [j] ∧ j.req = req ∧ j.tag = tag := by
    intro r hr hok
    simp only [submit] at hr
    repeat' split at hr
    all_goals subst hr
    all_goals first | exact ⟨_, rfl, rfl, rfl⟩ | cases hok
  exact hspec _ rfl h

/-- The answers to a frame that an operation is to send, or to ask the database for. -/
def Op.owes (id index : ℕ) : Op → ℕ
  | send k answers _ | lockSend k answers _ => (k = id && answers = some index : Bool).toNat
  | submitDb n req => (req.connId = id && n = index : Bool).toNat
  | broadcast k n _ todo => if k = id ∧ n = index then todo.count id else 0
  | _ => 0

/-- The operations that have an answer in hand. -/
def Op.answering : Op → Bool
  | send _ _ _ | lockSend _ _ _ | submitDb _ _ | broadcast _ _ _ _ => true
  | _ => false

/-- The operations that pass an answer on, or the messages of a service. -/
def Op.passes : Op → Bool
  | gameLoop _ | chatLoop => true
  | op => op.answering

/-- The connection is about to be closed. -/
def Op.closing (id : ℕ) : Op → ℕ
  | close k | closeOverflow k => (k = id : Bool).toNat
  | _ => 0

/-- The event is this frame. -/
def Event.carries (id index : ℕ) : Event → Bool
  | .message m => m.connId = id && m.index = index
  | _ => false

namespace Server

/-- The requests that the pool has taken in for a frame. -/
def taken (id index : ℕ) (s : Server) : ℕ :=
  s.pool.accepted.countP fun j => j.req.connId = id && j.tag = index

/-- The responses that the pool has given for a frame. -/
def given (id index : ℕ) (s : Server) : ℕ :=
  s.pool.responded.countP fun r => r.2.connId = id && r.1.tag = index

/-- The messages and the responses of a frame that are in an inbox. -/
def inboxes (cfg : ServerConfig) (id index : ℕ) (s : Server) : ℕ :=
  (s.game (cfg.laneOf id)).events.countP (Event.carries id index) +
    s.chat.events.countP (Event.carries id index) +
    (s.game (cfg.laneOf id)).replies.countP fun r => r.2.connId = id && r.1 = index

/-- The answers to a frame in the send buffer. -/
def sentFor (id index : ℕ) (s : Server) : ℕ :=
  (s.conns id).sent.countP fun p => p.1 = some index

/-- The messages of a frame that an operation puts into an inbox. -/
def queued (cfg : ServerConfig) (id index : ℕ) (s : Server) (op : Op) : ℕ :=
  (s.posted cfg .game op).countP (Event.carries id index) +
    (s.posted cfg .chat op).countP (Event.carries id index)

end Server

theorem Event.connId_of_carries {ev : Event} (h : ev.carries id index = true) : ev.connId = id := by
  cases ev with
  | message m =>
    simp only [carries, Bool.and_eq_true, decide_eq_true_eq] at h
    exact h.1
  | _ => cases h

/-- An error is an answer to its frame. -/
theorem owes_sendError (id index k n origin : ℕ) (code : ErrorCode) (detail : String) :
    stackWeight (Op.owes id index) (sendError k n origin code detail) =
      (k = id && n = index : Bool).toNat := by
  unfold sendError
  split_ifs <;> simp [Op.owes]

/-- A verdict sends one answer, or passes on what owes one. -/
theorem owes_verdict {α : Type} (id index k n origin : ℕ) {next : α → List Op} (v : Verdict α)
    (hnext : ∀ a, v = .pass a → stackWeight (Op.owes id index) (next a) =
      (k = id && n = index : Bool).toNat) :
    stackWeight (Op.owes id index) (v.ops k n origin next) =
      (k = id && n = index : Bool).toNat := by
  cases v with
  | reply f => simp [Verdict.ops, Op.owes]
  | refuse code detail => exact owes_sendError ..
  | pass a => exact hnext a rfl

/-- A turn of a game lane passes a frame on to its thread. -/
theorem GameLane.Turn.kept {lane lane' : GameLane} {ops : List Op} (h : Turn e lane lane' ops)
    (hmsg : ∀ m q, lane.events = .message m :: q → m.connId = id → lane.knows id = true)
    (hrep : ∀ r ∈ lane.replies, r.2.connId = id → lane.knows id = true) :
    stackWeight (Op.owes id index) ops + lane'.events.countP (Event.carries id index) +
        lane'.replies.countP (fun r => r.2.connId = id && r.1 = index) =
      lane.events.countP (Event.carries id index) +
        lane.replies.countP fun r => r.2.connId = id && r.1 = index := by
  cases h with
  | move hev hr => simp [hev, hr]
  | reply n res hev hr =>
    have hops : stackWeight (Op.owes id index) (lane.onReply n res) =
        (res.connId = id && n = index : Bool).toNat := by
      unfold onReply
      split
      · rename_i hnone
        by_cases hid : res.connId = id
        · have hknows := hrep (n, res) (by simp [hr]) hid
          rw [knows, ← hid, hnone] at hknows
          cases hknows
        · simp [hid]
      · simp [Op.owes]
    rw [hops, hev, hr, List.countP_cons, Bool.toNat, Bool.cond_eq_ite]
    dsimp only
    omega
  | event ev hev hr =>
    have hops : stackWeight (Op.owes id index) (lane.onEvent e ev).2 =
        (ev.carries id index).toNat := by
      cases ev with
      | connected k =>
        simp only [onEvent, Event.carries]
        split <;> simp [Op.owes]
      | disconnected k => simp [onEvent, Event.carries]
      | message m =>
        simp only [onEvent, Event.carries]
        split
        · rename_i hnone
          by_cases hid : m.connId = id
          · have hknows := hmsg m _ hev hid
            rw [knows, ← hid, hnone] at hknows
            cases hknows
          · simp [hid]
        · refine owes_verdict _ _ _ _ _ _ fun req _ => ?_
          simp [Op.owes]
    rw [hops, hev, hr, List.countP_cons, Bool.toNat, Bool.cond_eq_ite]
    omega

/-- A turn of the chat service passes a frame on to its thread. -/
theorem ChatLane.Turn.kept {lane lane' : ChatLane} {ops : List Op} (h : Turn lane lane' ops)
    (hmsg : ∀ m q, lane.events = .message m :: q → m.connId = id → lane.knows id = true) :
    stackWeight (Op.owes id index) ops + lane'.events.countP (Event.carries id index) =
      lane.events.countP (Event.carries id index) := by
  cases h with
  | move hev => simp [hev]
  | relay _ hev => simp [hev]
  | event ev hev =>
    have hops : stackWeight (Op.owes id index) (lane.onEvent ev).2 =
        (ev.carries id index).toNat := by
      cases ev with
      | connected k => simp [onEvent, Event.carries]
      | disconnected k => simp [onEvent, Event.carries]
      | message m =>
        simp only [onEvent, Event.carries]
        split
        · rename_i hnone
          by_cases hid : m.connId = id
          · have hknows := hmsg m _ hev hid
            rw [knows, ← hid, hnone] at hknows
            cases hknows
          · simp [hid]
        · rename_i name hname
          refine owes_verdict _ _ _ _ _ _ fun text _ => ?_
          by_cases hid : m.connId = id
          · have hmem : id ∈ lane.members.keys := by
              rw [← AList.mem_keys, ← AList.lookup_isSome, ← hid, hname]
              rfl
            have hone : lane.members.keys.count id = 1 :=
              List.count_eq_one_of_mem lane.members.nodupKeys hmem
            by_cases hn : m.index = index <;> simp [Op.owes, hid, hn, hone]
          · simp [Op.owes, hid]
    rw [hops, hev, List.countP_cons, Bool.toNat, Bool.cond_eq_ite]
    omega

namespace Server

variable {s : Server}

/-- Only `send` under the lock appends to the send buffer. -/
theorem sent_exec (h : s.exec cfg e op = some (t, new)) (hadopt : op = .adopt → s.nextId ≠ id)
    (hlock : ∀ answers f, op ≠ .lockSend id answers f) :
    (t.conns id).sent = (s.conns id).sent := by
  cases hc : op.conn? with
  | none =>
    cases op
    case adopt =>
      cases h
      simp [updConn, Ne.symm (hadopt rfl)]
    all_goals
      simp only [Op.conn?, reduceCtorEq] at hc
    all_goals rw [conns_of_not_conn rfl (by simp) h]
  | some k =>
    by_cases hk : id = k
    · subst hk
      cases op
      all_goals
        simp only [Op.conn?, Option.some.injEq, reduceCtorEq] at hc
      all_goals subst hc
      case lockSend answers f => exact absurd rfl (hlock answers f)
      all_goals
        simp only [exec, setSender] at h
        repeat' split at h
      all_goals cases h
      all_goals simp [updConn]
    · rw [exec_of_conn hc h]
      simp [updConn, hk]

/-- What the inboxes of a connection get : what is queued, and the responses that the pool gives. -/
theorem inboxes_exec (h : s.exec cfg e op = some (t, new))
    (hgame : op ≠ .gameLoop (cfg.laneOf id)) (hchat : op ≠ .chatLoop) :
    t.inboxes cfg id index + s.given id index =
      s.inboxes cfg id index + t.given id index + s.queued cfg id index op := by
  obtain ⟨heq, -⟩ | ⟨-, hlane⟩ := exec_game h (cfg.laneOf id)
  · exact absurd heq hgame
  obtain ⟨heq, -⟩ | ⟨-, hlane'⟩ := exec_chat h
  · exact absurd heq hchat
  have hevents : (t.game (cfg.laneOf id)).events = (s.game (cfg.laneOf id)).events ++
      (s.posted cfg .game op).filter fun ev => cfg.laneOf ev.connId = cfg.laneOf id := by
    simp [GameLane.events, hlane]
  have hreplies : (t.game (cfg.laneOf id)).replies = (s.game (cfg.laneOf id)).replies ++
      repliesFor cfg (cfg.laneOf id) (answers s t) := by
    simp [GameLane.replies, hlane]
  have hchat' : t.chat.events = s.chat.events ++ s.posted cfg .chat op := by
    simp [ChatLane.events, hlane']
  have hresponded : t.pool.responded = s.pool.responded ++ answers s t :=
    List.prefix_append_drop (responded_exec h)
  have hposted : ((s.posted cfg .game op).filter fun ev =>
      cfg.laneOf ev.connId = cfg.laneOf id).countP (Event.carries id index) =
        (s.posted cfg .game op).countP (Event.carries id index) := by
    rw [List.countP_filter]
    refine List.countP_congr fun ev _ => ?_
    simp only [Bool.and_eq_true, decide_eq_true_eq, and_iff_left_iff_imp]
    intro hcarries
    rw [Event.connId_of_carries hcarries]
  have hanswers : (repliesFor cfg (cfg.laneOf id) (answers s t)).countP
      (fun r => r.2.connId = id && r.1 = index) =
        (answers s t).countP fun r => r.2.connId = id && r.1.tag = index := by
    rw [repliesFor, List.countP_map, List.countP_filter]
    refine List.countP_congr fun r _ => ?_
    simp only [Function.comp_apply, Bool.and_eq_true, decide_eq_true_eq, and_iff_left_iff_imp]
    rintro ⟨hid, -⟩
    rw [hid]
  simp only [inboxes, queued, given, hevents, hreplies, hchat', hresponded, List.countP_append,
    hposted, hanswers]
  omega

/-- Only `submit_db` puts a request into the pool. -/
theorem taken_exec (h : s.exec cfg e op = some (t, new)) (hp : Pool.Inv cfg.pool s.pool)
    (hsubmit : ∀ n req, op ≠ .submitDb n req) : t.taken id index = s.taken id index := by
  obtain ⟨-, ⟨js, hjs, hsubmits⟩, -⟩ := exec_unstarted h hp
  have hnil : js = [] := by
    refine List.eq_nil_iff_forall_not_mem.mpr fun j hj => ?_
    obtain ⟨req, us, hop, -⟩ := hsubmits j hj
    exact hsubmit _ _ hop
  rw [taken, taken, hjs, hnil, List.append_nil]

/-- Closing answers nothing. -/
theorem owes_onClose (id index k : ℕ) (c : Conn) (sender : Sender) :
    stackWeight (Op.owes id index) (onClose k c sender) = 0 := by
  unfold onClose
  split_ifs <;> simp [Op.owes]

/-- The connection is closed, or the thread is about to close it. -/
def Closes (id : ℕ) (t : Server) (new : List Op) : Prop :=
  (t.conns id).closed = true ∨ 0 < stackWeight (Op.closing id) new

/-- `send` and the operations behind it pass an answer on, or close the connection. -/
theorem owes_send {k : ℕ} {answers : Option ℕ} {f : Frame}
    (h : s.exec cfg e (.send k answers f) = some (t, new)) :
    Closes id t new ∨ stackWeight (Op.owes id index) new + t.sentFor id index =
      (Op.send k answers f).owes id index + s.sentFor id index := by
  by_cases hk : k = id
  · subst hk
    simp only [exec] at h
    repeat' split at h
    all_goals cases h
    · exact Or.inl (Or.inl (by assumption))
    · exact Or.inl (Or.inr (by simp [Op.closing]))
    · exact Or.inr (by simp [Op.owes])
  · simp only [exec] at h
    repeat' split at h
    all_goals cases h
    all_goals exact Or.inr (by simp [Op.owes, hk])

/-- The section of `send` appends the answer, or the connection closes. -/
theorem owes_lockSend {k : ℕ} {answers : Option ℕ} {f : Frame}
    (h : s.exec cfg e (.lockSend k answers f) = some (t, new)) :
    Closes id t new ∨ stackWeight (Op.owes id index) new + t.sentFor id index =
      (Op.lockSend k answers f).owes id index + s.sentFor id index := by
  simp only [exec, lockSend] at h
  by_cases hk : k = id
  · subst hk
    split at h <;> cases h
    · refine Or.inr ?_
      simp [owes_onClose, sentFor, updConn, Op.owes, Bool.toNat, Bool.cond_eq_ite, add_comm]
    · exact Or.inl (Or.inr (by simp [Op.closing]))
  · split at h <;> cases h
    all_goals
      refine Or.inr ?_
      simp [owes_onClose, sentFor, updConn, Op.owes, hk, Ne.symm hk]

/-- The broadcast of a frame owes its sender a push until it comes to the sender. -/
theorem owes_broadcast {k n : ℕ} {f : Frame} {todo : List ℕ}
    (h : s.exec cfg e (.broadcast k n f todo) = some (t, new)) :
    stackWeight (Op.owes id index) new + t.sentFor id index =
      (Op.broadcast k n f todo).owes id index + s.sentFor id index := by
  simp only [exec] at h
  split at h
  · rename_i m hpick
    cases h
    obtain ⟨hlt, rfl⟩ := List.getElem?_eq_some_iff.mp hpick
    have hcount := (List.getElem_cons_eraseIdx_perm hlt).count_eq id
    rw [List.count_cons] at hcount
    by_cases hframe : k = id ∧ n = index
    · obtain ⟨rfl, rfl⟩ := hframe
      by_cases hm : todo[e.pick] = k <;> simp [Op.owes, hm] at hcount ⊢ <;> omega
    · have hsend : (Op.send todo[e.pick] (if todo[e.pick] = k then some n else none) f).owes
          id index = 0 := by
        simp only [Op.owes, Bool.toNat_eq_zero, Bool.and_eq_false_iff, decide_eq_false_iff_not]
        by_contra! hboth
        obtain ⟨hid, hn⟩ := hboth
        split_ifs at hn with hk
        exact hframe ⟨hk.symm.trans hid, Option.some.inj hn⟩
      rw [stackWeight_cons, hsend]
      simp [Op.owes, hframe]
  · split at h <;> cases h
    rename_i hnil
    simp [Op.owes, List.isEmpty_iff.mp hnil]

/-- A frame that is put into a queue is there, unless the queue is full. -/
theorem queued_tryEmplace (svc : ServiceId) (k n : ℕ) (view : Frame) :
    s.queued cfg id index (.tryEmplace svc k n view) =
      if s.inboundLength cfg k svc < cfg.inboundCap then (k = id && n = index : Bool).toNat
      else 0 := by
  have hcarries : (Event.message (.ofFrame k n view)).carries id index =
      (k = id && n = index : Bool) := by
    simp [Event.carries]
  cases svc <;> simp only [queued, posted, reduceCtorEq, false_and, true_and, ↓reduceIte] <;>
    split_ifs <;> simp [hcarries, List.countP_cons, Bool.toNat, Bool.cond_eq_ite]

/-- Nothing else is queued that is a message. -/
theorem queued_eq_zero (hop : ∀ svc k n view, op ≠ .tryEmplace svc k n view) :
    s.queued cfg id index op = 0 := by
  cases op with
  | tryEmplace svc k n view => exact absurd rfl (hop svc k n view)
  | postConnected svc k => cases svc <;> simp [queued, posted, Event.carries]
  | postDisconnected svc k => cases svc <;> simp [queued, posted, Event.carries]
  | _ => rfl

/-- A receive handler answers the frame that it consumes, or queues it. -/
theorem owes_receiving (h : s.exec cfg e op = some (t, new)) (hop : op.receiving = true) :
    stackWeight (Op.owes id index) new + s.queued cfg id index op =
      op.offers id index * stackWeight (Op.consumes id) new := by
  have hrefused : ∀ (k n origin : ℕ) (code : ErrorCode) (detail : String),
      stackWeight (Op.owes id index) (sendError k n origin code detail ++ [.consume k]) =
        (some (k, n) = some (id, index) : Bool).toNat *
          stackWeight (Op.consumes id) (sendError k n origin code detail ++ [.consume k]) := by
    intro k n origin code detail
    rw [stackWeight_append, stackWeight_append, owes_sendError,
      (weights_sendError id 0 _ _ _ _ _).2.2]
    by_cases hk : k = id <;> simp [Op.owes, Op.consumes, hk]
  cases op with
  | tryEmplace svc k n view =>
    rw [queued_tryEmplace]
    simp only [exec] at h
    split_ifs at h ⊢
    · cases h
      by_cases hk : k = id <;> simp [Op.offers, Op.frame?, Op.consumes, Op.owes, hk]
    · split at h <;> cases h
      · simp [Op.owes, Op.consumes]
      · exact hrefused ..
  | onMessage k n view =>
    rw [queued_eq_zero (by simp)]
    simp only [exec] at h
    split at h <;> cases h
    · simp [Op.owes, Op.consumes]
    · exact hrefused ..
  | postMessage k n view =>
    rw [queued_eq_zero (by simp)]
    simp only [exec] at h
    split at h <;> cases h
    · exact hrefused ..
    · simp [Op.owes, Op.consumes]
  | receive k | drainFrames k | consume k | endReceive k =>
    rw [queued_eq_zero (by simp)]
    simp only [exec] at h
    repeat' split at h
    all_goals cases h
    all_goals simp [Op.offers, Op.frame?, Op.owes]
  | _ => cases hop

/-- A request to the database is refused with an answer, or taken in. -/
theorem owes_submitDb {n : ℕ} {req : Request} (h : s.exec cfg e (.submitDb n req) = some (t, new)) :
    stackWeight (Op.owes id index) new + t.taken id index =
      (Op.submitDb n req).owes id index + s.taken id index := by
  simp only [exec] at h
  obtain ⟨_, _, -, hsub⟩ | ⟨us, hok, hsub⟩ := s.submitDb_cases cfg n req
  · rw [hsub] at h
    cases h
    rw [owes_sendError]
    rfl
  · rw [hsub] at h
    cases h
    obtain ⟨j, hacc, hreq, htag⟩ := Pool.accepted_submit hok
    simp [taken, hacc, hreq, htag, Op.owes, List.countP_cons, Bool.toNat, Bool.cond_eq_ite,
      add_comm]

/-- The other operations neither owe nor give an answer. -/
theorem owes_rest (h : s.exec cfg e op = some (t, new)) (hop : op.receiving = false)
    (hpass : op.passes = false) :
    op.owes id index = 0 ∧ stackWeight (Op.owes id index) new = 0 := by
  cases op with
  | mainLoop =>
    refine ⟨rfl, ?_⟩
    simp only [exec, mainStep] at h
    repeat' split at h
    all_goals cases h
    all_goals simp [Op.owes]
  | _ =>
    simp only [Op.receiving, Op.passes, Op.answering, Bool.true_eq_false] at hop hpass
    all_goals
      refine ⟨rfl, ?_⟩
      simp only [exec, setSender] at h
      repeat' split at h
    all_goals cases h
    all_goals simp [Op.owes, owes_onClose, stackWeight_append]

/-- What an operation does with a frame of a connection : the connection closes, or every answer
that was on its way still is, in one place, and a frame that is consumed now is put on its way. -/
def Kept (cfg : ServerConfig) (id index : ℕ) (s t : Server) (op : Op) (new : List Op) : Prop :=
  Closes id t new ∨
    stackWeight (Op.owes id index) new + t.inboxes cfg id index + t.sentFor id index +
        t.taken id index + s.given id index =
      op.owes id index + s.inboxes cfg id index + s.sentFor id index + s.taken id index +
        t.given id index + op.offers id index * stackWeight (Op.consumes id) new

/-- A service knows the connection of the message that is next. -/
theorem known_of_served {events q : List Event} {known : Bool} {m : Message}
    (hserved : served id known (eventsOf id events)) (hev : events = .message m :: q)
    (hid : m.connId = id) : known = true := by
  have hconn : (Event.message m).connId = id := hid
  rw [hev, eventsOf_cons, if_pos hconn, served_cons] at hserved
  exact hserved.1 m rfl hid

/-- A turn of the lane passes every frame on. -/
theorem kept_gameLoop {l : ℕ} (h : s.exec cfg e (.gameLoop l) = some (t, new))
    (howned : s.Owned cfg l)
    (hserved : served id (s.knows cfg id .game) (s.queue cfg id .game))
    (hrep : ∀ r ∈ (s.game (cfg.laneOf id)).replies, r.2.connId = id →
      s.knows cfg id .game = true) : Kept cfg id index s t (.gameLoop l) new := by
  refine Or.inr ?_
  rcases hstep : (s.game l).step e with ⟨lane', ops⟩
  simp only [exec, hstep] at h
  cases h
  have hturn := GameLane.turn hstep
  by_cases hl : cfg.laneOf id = l
  · subst hl
    have hkept : stackWeight (Op.owes id index) ops + _ + _ = _ :=
      hturn.kept (fun m q hev hid => known_of_served hserved hev hid) hrep
    simp only [stackWeight_append, stackWeight_cons, stackWeight_nil, inboxes, sentFor, taken,
      given, setGame, Function.update_self, Op.owes, Op.offers, Op.frame?]
    simp
    omega
  · have hnone : ∀ ev ∈ (s.game l).events, ev.connId ≠ id := by
      rintro ev hev rfl
      exact hl (howned.events ev hev)
    have hnone' : ∀ r ∈ (s.game l).replies, r.2.connId ≠ id := by
      rintro r hr rfl
      exact hl (howned.replies r hr)
    have hkept : stackWeight (Op.owes id index) ops + _ + _ = _ :=
      hturn.kept (fun m q hev hid => absurd hid (hnone (.message m) (by simp [hev])))
        fun r hr hid => absurd hid (hnone' r hr)
    have hzero : (s.game l).events.countP (Event.carries id index) = 0 :=
      List.countP_eq_zero.mpr fun ev hev hc => hnone ev hev (Event.connId_of_carries hc)
    have hzero' : (s.game l).replies.countP (fun r => r.2.connId = id && r.1 = index) = 0 :=
      List.countP_eq_zero.mpr fun r hr hc => hnone' r hr (by simp at hc; exact hc.1)
    simp only [stackWeight_append, stackWeight_cons, stackWeight_nil, inboxes, sentFor, taken,
      given, setGame, Function.update_of_ne hl, Op.owes, Op.offers, Op.frame?]
    simp
    omega

/-- So does a step of the chat service. -/
theorem kept_chatLoop (h : s.exec cfg e .chatLoop = some (t, new))
    (hserved : served id (s.knows cfg id .chat) (s.queue cfg id .chat)) :
    Kept cfg id index s t .chatLoop new := by
  refine Or.inr ?_
  rcases hstep : s.chat.step with ⟨lane', ops⟩
  simp only [exec, hstep] at h
  cases h
  have hkept : stackWeight (Op.owes id index) ops + _ = _ :=
    (ChatLane.turn hstep).kept fun m q hev hid => known_of_served hserved hev hid
  simp only [stackWeight_append, stackWeight_cons, stackWeight_nil, inboxes, sentFor, taken, given,
    Op.owes, Op.offers, Op.frame?]
  simp
  omega

/-- One operation of any thread. -/
theorem kept_exec (h : s.exec cfg e op = some (t, new)) (hadopt : op = .adopt → s.nextId ≠ id)
    (hp : Pool.Inv cfg.pool s.pool) (howned : ∀ l, s.Owned cfg l)
    (hserved : ∀ svc, served id (s.knows cfg id svc) (s.queue cfg id svc))
    (hrep : ∀ r ∈ (s.game (cfg.laneOf id)).replies, r.2.connId = id →
      s.knows cfg id .game = true) : Kept cfg id index s t op new := by
  by_cases hgame : ∃ l, op = .gameLoop l
  · obtain ⟨l, rfl⟩ := hgame
    exact kept_gameLoop h (howned l) (hserved .game) hrep
  by_cases hchat : op = .chatLoop
  · subst hchat
    exact kept_chatLoop h (hserved .chat)
  have hinboxes : t.inboxes cfg id index + s.given id index =
      s.inboxes cfg id index + t.given id index + s.queued cfg id index op :=
    inboxes_exec h (fun hop => hgame ⟨_, hop⟩) hchat
  by_cases hsubmit : ∃ n req, op = .submitDb n req
  · obtain ⟨n, req, rfl⟩ := hsubmit
    have howes : stackWeight (Op.owes id index) new + _ = _ := owes_submitDb h
    have hsent : t.sentFor id index = s.sentFor id index := by
      rw [sentFor, sentFor, sent_exec h hadopt (by simp)]
    rw [queued_eq_zero (by simp)] at hinboxes
    refine Or.inr ?_
    simp [Op.offers, Op.frame?]
    omega
  have htaken : t.taken id index = s.taken id index :=
    taken_exec h hp fun n req hop => hsubmit ⟨n, req, hop⟩
  have hlocal : Closes id t new ∨
      stackWeight (Op.owes id index) new + t.sentFor id index + s.queued cfg id index op =
        op.owes id index + s.sentFor id index +
          op.offers id index * stackWeight (Op.consumes id) new := by
    cases hop : op.receiving with
    | true =>
      have hsent : t.sentFor id index = s.sentFor id index := by
        rw [sentFor, sentFor, sent_exec h hadopt (by rintro _ _ rfl; cases hop)]
      have howes : op.owes id index = 0 := by
        cases op <;> first | rfl | cases hop
      have hnew : stackWeight (Op.owes id index) new + _ = _ := owes_receiving h hop
      right
      omega
    | false =>
      have hoffers := (Op.weights_of_not_receiving hop id index).2.1
      have hqueued : s.queued cfg id index op = 0 :=
        queued_eq_zero fun svc k n view heq => by simp [heq, Op.receiving] at hop
      rw [hoffers, hqueued, Nat.zero_mul, Nat.add_zero, Nat.add_zero]
      cases hpass : op.passes with
      | false =>
        have hrest : op.owes id index = 0 ∧ _ := owes_rest h hop hpass
        right
        rw [hrest.1, hrest.2, sentFor, sentFor,
          sent_exec h hadopt (by rintro _ _ rfl; cases hpass)]
      | true =>
        cases op with
        | send k answers f => exact owes_send h
        | lockSend k answers f => exact owes_lockSend h
        | broadcast k n f todo => exact Or.inr (owes_broadcast h)
        | submitDb n req => exact absurd ⟨n, req, rfl⟩ hsubmit
        | gameLoop l => exact absurd ⟨l, rfl⟩ hgame
        | chatLoop => exact absurd rfl hchat
        | _ => cases hpass
  obtain hcloses | hlocal := hlocal
  · exact Or.inl hcloses
  · right
    omega

end Server

/-! ## Connections that close -/

/-- The connection is closed, or about to be. -/
def Ending (s : ServerState) (id : ℕ) : Prop :=
  (s.server.conns id).closed = true ∨ 0 < s.threads.weight (Op.closing id)

namespace Ending

/-- A close that a thread has ahead, or that it has now, stays ahead or is carried out. -/
theorem of_ahead (hi : s.threads.head i = some op) (h : s.server.exec cfg e op = some (t, new))
    (hpos : 0 < s.threads.weight (Op.closing id) + stackWeight (Op.closing id) new) :
    Ending ⟨t, s.threads.exec i new⟩ id := by
  by_cases hop : op = .close id ∨ op = .closeOverflow id
  · exact Or.inl (Server.closed_of_close h hop)
  · have hzero : op.closing id = 0 := by
      cases op <;> simp_all [Op.closing]
    have hweight := weight_exec (Op.closing id) hi new
    right
    dsimp only
    omega

/-- A connection that an operation closes is about to be closed. -/
theorem of_closes (hcloses : Server.Closes id t new) (hi : s.threads.head i = some op)
    (h : s.server.exec cfg e op = some (t, new)) : Ending ⟨t, s.threads.exec i new⟩ id := by
  obtain hclosed | hpos := hcloses
  · exact Or.inl hclosed
  · exact of_ahead hi h (by omega)

/-- What is about to be closed stays so, or is closed. -/
theorem exec (hs : Ending s id) (hi : s.threads.head i = some op)
    (h : s.server.exec cfg e op = some (t, new)) (hadopt : op = .adopt → s.server.nextId ≠ id) :
    Ending ⟨t, s.threads.exec i new⟩ id := by
  obtain hclosed | hpos := hs
  · exact Or.inl (Server.closed_exec_of_ne h hadopt hclosed)
  · exact of_ahead hi h (by omega)

end Ending

end EchoServer
