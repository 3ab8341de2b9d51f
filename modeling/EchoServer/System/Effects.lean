import EchoServer.System.Server

/-!
# What an operation can change

`Server.exec` read the other way round : for a game lane, for the chat lane and for the pool,
which operations change it and how. The connections are `Server.exec_of_conn` and
`Server.conns_of_not_conn`. A lane takes a turn, or it gets what is posted to it and nothing
else; the pool takes a step of its own, or none.
-/

namespace EchoServer

/-- What an operation puts into the service inbox of the chat service. -/
def Op.relayed : Op → List ServiceMessage
  | .relay msg => [msg]
  | _ => []

/-- What `submit_db` refuses a request with. -/
inductive DbRefusal : ErrorCode → String → Prop
  | disabled : DbRefusal .dbUnavailable "db disabled"
  | queueFull : DbRefusal .serverBusy "db queue full"

namespace Server

variable {cfg : ServerConfig} {e : Env} {s s' : Server} {op : Op} {new : List Op}

/-- The events that an operation puts into the queues of a service. -/
def posted (cfg : ServerConfig) (s : Server) (service : ServiceId) : Op → List Event
  | .postConnected svc k => if svc = service then [.connected k] else []
  | .postDisconnected svc k => if svc = service then [.disconnected k] else []
  | .tryEmplace svc k index view =>
    if svc = service ∧ s.inboundLength cfg k svc < cfg.inboundCap then
      [.message (.ofFrame k index view)]
    else []
  | _ => []

/-- The replies that a game lane gets for the responses of the pool. -/
def repliesFor (cfg : ServerConfig) (l : ℕ) (rs : List (Job ℕ × Response)) : List (ℕ × Response) :=
  (rs.filter fun r => cfg.laneOf r.2.connId = l).map fun r => (r.1.tag, r.2)

/-- The responses of the pool that an operation brings. -/
def answers (s s' : Server) : List (Job ℕ × Response) :=
  s'.pool.responded.drop s.pool.responded.length

@[simp] theorem repliesFor_nil (l : ℕ) : repliesFor cfg l [] = [] :=
  rfl

/-- The replies for a lane are those to connections of that lane. -/
theorem mem_repliesFor {l : ℕ} {rs : List (Job ℕ × Response)} {r : ℕ × Response} :
    r ∈ repliesFor cfg l rs ↔ cfg.laneOf r.2.connId = l ∧ ∃ j, (j, r.2) ∈ rs ∧ j.tag = r.1 := by
  simp only [repliesFor, List.mem_map, List.mem_filter, decide_eq_true_eq]
  constructor
  · rintro ⟨⟨j, res⟩, ⟨hmem, hl⟩, rfl⟩
    exact ⟨hl, j, hmem, rfl⟩
  · rintro ⟨hl, j, hmem, htag⟩
    exact ⟨(j, r.2), ⟨hmem, hl⟩, Prod.ext htag rfl⟩

theorem answers_of_eq (h : s'.pool.responded = s.pool.responded) : answers s s' = [] := by
  simp [answers, h]

/-- The callback of the pool puts each reply into the inbox of its lane. -/
theorem game_foldl_postDbResponse (l : ℕ) (rs : List (Job ℕ × Response)) :
    ∀ s : Server, (rs.foldl (postDbResponse cfg) s).game l =
      { s.game l with dbInbox := (s.game l).dbInbox ++ repliesFor cfg l rs } := by
  induction rs with
  | nil => simp
  | cons r rs ih =>
    intro s
    rw [List.foldl_cons, ih]
    by_cases hl : cfg.laneOf r.2.connId = l
    · subst hl
      simp [postDbResponse, setGame, repliesFor]
    · simp [postDbResponse, setGame, repliesFor, hl, Function.update_of_ne (Ne.symm hl)]

/-- An event goes into the queue of the lane that it is posted to. -/
theorem game_post (ev : Event) (svc : ServiceId) (l : ℕ) :
    (s.post cfg ev svc).game l = { s.game l with
      inbound := (s.game l).inbound ++
        (if svc = .game then [ev] else []).filter fun ev => cfg.laneOf ev.connId = l } := by
  cases svc with
  | chat => simp [post]
  | game =>
    by_cases hl : cfg.laneOf ev.connId = l
    · subst hl
      simp [post, setGame]
    · simp [post, setGame, hl, Function.update_of_ne (Ne.symm hl)]

theorem chat_post (ev : Event) (svc : ServiceId) :
    (s.post cfg ev svc).chat = { s.chat with
      inbound := s.chat.inbound ++ if svc = .chat then [ev] else [] } := by
  cases svc <;> simp [post, setGame]

theorem pool_post (ev : Event) (svc : ServiceId) : (s.post cfg ev svc).pool = s.pool := by
  cases svc <;> rfl

/-- The main thread at most lets the pool drain. -/
theorem mainStep_pool (cfg : ServerConfig) (e : Env) (s : Server) :
    (s.mainStep cfg e).1.pool = s.pool ∨
      (s.mainStep cfg e).1.pool = { s.pool with draining := true } := by
  unfold mainStep
  repeat' split
  all_goals first | exact Or.inl rfl | exact Or.inr rfl

/-- Submitting answers nothing. -/
theorem submit_responded (req : Request) (tag : ℕ) (p : Pool ℕ) :
    (p.submit cfg.pool req tag).2.responded = p.responded := by
  simp only [Pool.submit]
  repeat' split
  all_goals rfl

/-- A request to the database is accepted, or refused with an error. -/
theorem submitDb_cases (cfg : ServerConfig) (s : Server) (index : ℕ) (req : Request) :
    (∃ code detail, DbRefusal code detail ∧ s.submitDb cfg index req =
        (s, sendError req.connId index (requestMsgId req.kind) code detail)) ∨
      ∃ us, (s.pool.submit cfg.pool { req with deadlineUs := us } index).1 = true ∧
        s.submitDb cfg index req =
          ({ s with pool := (s.pool.submit cfg.pool { req with deadlineUs := us } index).2 }, []) := by
  unfold submitDb
  dsimp only
  split_ifs with h1 h2 h3 h3
  · exact Or.inl ⟨_, _, .disabled, rfl⟩
  · exact Or.inr ⟨_, h3, rfl⟩
  · exact Or.inl ⟨_, _, .queueFull, rfl⟩
  · exact Or.inr ⟨_, h3, rfl⟩
  · exact Or.inl ⟨_, _, .queueFull, rfl⟩

/-- The pool changes by a step of its own machine. -/
theorem exec_pool (h : s.exec cfg e op = some (s', new)) :
    s'.pool = s.pool ∨ ∃ a, (workerPool ℕ cfg.pool).step s.pool a = some s'.pool := by
  cases hc : op.conn? with
  | some k =>
    rw [exec_of_conn hc h]
    exact Or.inl rfl
  | none =>
    cases op with
    | submitDb index req =>
      simp only [exec] at h
      obtain ⟨_, _, -, hsub⟩ | ⟨us, -, hsub⟩ := s.submitDb_cases cfg index req
      · rw [hsub] at h
        cases h
        exact Or.inl rfl
      · rw [hsub] at h
        cases h
        exact Or.inr ⟨.submit _ _, rfl⟩
    | dbWork i o =>
      simp only [exec] at h
      split at h <;> cases h
      rename_i hwork
      obtain ⟨pool, hpool, rfl⟩ := Option.map_eq_some_iff.mp hwork
      refine Or.inr ⟨.work i o, ?_⟩
      rw [(foldl_postDbResponse_same _ _ _).2.2.2]
      exact hpool
    | dbTick us =>
      cases h
      exact Or.inr ⟨.tick us, rfl⟩
    | mainLoop =>
      cases h
      exact (mainStep_pool cfg e s).imp id fun hdrain => ⟨.drain, congrArg some hdrain.symm⟩
    | _ =>
      simp only [Op.conn?, reduceCtorEq] at hc
      all_goals
        simp only [exec] at h
        repeat' split at h
      all_goals cases h
      all_goals first | exact Or.inl rfl | exact Or.inl (pool_post ..)

/-- The other operations change no request, no task and no response of the pool. -/
theorem pool_same (h : s.exec cfg e op = some (s', new)) (hsubmit : ∀ n req, op ≠ .submitDb n req)
    (hwork : ∀ i o, op ≠ .dbWork i o) :
    ∃ now draining, s'.pool = { s.pool with now, draining } := by
  cases hc : op.conn? with
  | some k =>
    rw [exec_of_conn hc h]
    exact ⟨_, _, rfl⟩
  | none =>
    cases op with
    | submitDb n req => exact absurd rfl (hsubmit n req)
    | dbWork i o => exact absurd rfl (hwork i o)
    | mainLoop =>
      cases h
      obtain hp | hp := mainStep_pool cfg e s
      all_goals exact ⟨_, _, hp⟩
    | _ =>
      simp only [Op.conn?, reduceCtorEq] at hc
      all_goals
        simp only [exec] at h
        repeat' split at h
      all_goals cases h
      all_goals first | exact ⟨_, _, rfl⟩ | exact ⟨_, _, pool_post ..⟩

/-- A game lane takes a turn, or gets what is posted to it. -/
theorem exec_game (h : s.exec cfg e op = some (s', new)) (l : ℕ) :
    (op = .gameLoop l ∧ ∃ ops, new = ops ++ [.gameLoop l] ∧
        (s.game l).step e = (s'.game l, ops)) ∨
      op ≠ .gameLoop l ∧ s'.game l = { s.game l with
        inbound := (s.game l).inbound ++
          (s.posted cfg .game op).filter fun ev => cfg.laneOf ev.connId = l
        dbInbox := (s.game l).dbInbox ++ repliesFor cfg l (answers s s') } := by
  cases hc : op.conn? with
  | some k =>
    refine Or.inr ⟨by rintro rfl; simp [Op.conn?] at hc, ?_⟩
    have hnil : s.posted cfg .game op = [] := by
      cases op <;> first | rfl | simp [Op.conn?] at hc
    rw [hnil, exec_of_conn hc h]
    simp [answers_of_eq, updConn]
  | none =>
    cases op with
    | gameLoop k =>
      simp only [exec] at h
      cases h
      by_cases hk : k = l
      · subst hk
        exact Or.inl ⟨rfl, _, rfl, by simp only [setGame, Function.update_self]⟩
      · refine Or.inr ⟨by simpa using hk, ?_⟩
        simp [posted, answers_of_eq, setGame, Function.update_of_ne (Ne.symm hk)]
    | dbWork i o =>
      simp only [exec] at h
      split at h <;> cases h
      rename_i hwork
      obtain ⟨pool, hpool, rfl⟩ := Option.map_eq_some_iff.mp hwork
      refine Or.inr ⟨by simp, ?_⟩
      rw [game_foldl_postDbResponse, answers, (foldl_postDbResponse_same _ _ _).2.2.2]
      simp [posted]
    | mainLoop =>
      simp only [exec] at h
      cases h
      refine Or.inr ⟨by simp, ?_⟩
      have hnil : answers s (s.mainStep cfg e).1 = [] :=
        answers_of_eq (by rcases mainStep_pool cfg e s with hp | hp <;> rw [hp])
      rw [mainStep_same.2.2.1, hnil]
      simp [posted]
    | submitDb index req =>
      simp only [exec] at h
      refine Or.inr ⟨by simp, ?_⟩
      obtain ⟨_, _, -, hsub⟩ | ⟨us, -, hsub⟩ := s.submitDb_cases cfg index req
      all_goals
        rw [hsub] at h
        cases h
        simp [posted, answers_of_eq, submit_responded]
    | _ =>
      simp only [Op.conn?, reduceCtorEq] at hc
      all_goals
        simp only [exec] at h
        repeat' split at h
      all_goals cases h
      all_goals
        refine Or.inr ⟨by simp, ?_⟩
        simp [posted, answers_of_eq, game_post, pool_post, updConn, *]

/-- The chat lane takes a turn, or gets what is posted and relayed to it. -/
theorem exec_chat (h : s.exec cfg e op = some (s', new)) :
    (op = .chatLoop ∧ ∃ ops, new = ops ++ [.chatLoop] ∧ s.chat.step = (s'.chat, ops)) ∨
      op ≠ .chatLoop ∧ s'.chat = { s.chat with
        inbound := s.chat.inbound ++ s.posted cfg .chat op
        serviceInbox := s.chat.serviceInbox ++ op.relayed } := by
  cases hc : op.conn? with
  | some k =>
    refine Or.inr ⟨by rintro rfl; simp [Op.conn?] at hc, ?_⟩
    have hnil : s.posted cfg .chat op = [] ∧ op.relayed = [] := by
      cases op <;> first | exact ⟨rfl, rfl⟩ | simp [Op.conn?] at hc
    rw [hnil.1, hnil.2, exec_of_conn hc h]
    simp [updConn]
  | none =>
    cases op with
    | chatLoop =>
      simp only [exec] at h
      cases h
      exact Or.inl ⟨rfl, _, rfl, rfl⟩
    | dbWork i o =>
      simp only [exec] at h
      split at h <;> cases h
      rename_i hwork
      refine Or.inr ⟨by simp, ?_⟩
      simp [(dbWork_same hwork).2.2, posted, Op.relayed]
    | mainLoop =>
      simp only [exec] at h
      cases h
      refine Or.inr ⟨by simp, ?_⟩
      rw [mainStep_same.2.2.2]
      simp [posted, Op.relayed]
    | submitDb index req =>
      simp only [exec] at h
      refine Or.inr ⟨by simp, ?_⟩
      obtain ⟨_, _, -, hsub⟩ | ⟨us, -, hsub⟩ := s.submitDb_cases cfg index req
      all_goals
        rw [hsub] at h
        cases h
        simp [posted, Op.relayed]
    | _ =>
      simp only [Op.conn?, reduceCtorEq] at hc
      all_goals
        simp only [exec] at h
        repeat' split at h
      all_goals cases h
      all_goals
        refine Or.inr ⟨by simp, ?_⟩
        simp [posted, Op.relayed, chat_post, updConn, setGame, *]

/-- A frame is in the send buffer before, or is appended now. -/
theorem mem_sent_exec {id : ℕ} (h : s.exec cfg e op = some (s', new)) {p : Option ℕ × Frame}
    (hp : p ∈ (s'.conns id).sent) : p ∈ (s.conns id).sent ∨ op = .lockSend id p.1 p.2 := by
  by_cases hadopt : op = .adopt
  · subst hadopt
    cases h
    by_cases hid : id = s.nextId
    · subst hid
      simp [updConn, Conn.fresh] at hp
    · exact Or.inl (by simpa [updConn, hid] using hp)
  · cases hc : op.conn? with
    | none => exact Or.inl (by rwa [conns_of_not_conn hc hadopt h] at hp)
    | some k =>
      by_cases hk : id = k
      · subst hk
        cases op
        all_goals
          simp only [Op.conn?, Option.some.injEq, reduceCtorEq] at hc
        all_goals subst hc
        case lockSend answers f =>
          simp only [exec, lockSend] at h
          split at h <;> cases h
          · simp only [updConn, Function.update_self, List.mem_append, List.mem_singleton] at hp
            exact hp.imp_right fun hp => by rw [hp]
          · exact Or.inl (by simpa [updConn] using hp)
        all_goals
          simp only [exec, setSender] at h
          repeat' split at h
        all_goals cases h
        all_goals exact Or.inl (by simpa [updConn] using hp)
      · rw [exec_of_conn hc h] at hp
        exact Or.inl (by simpa [updConn, hk] using hp)

/-- What an operation appends to the frames that a connection has received. -/
theorem received_exec (h : s.exec cfg e op = some (s', new)) (id : ℕ)
    (hadopt : op = .adopt → s.nextId ≠ id) :
    (s'.conns id).received = (s.conns id).received ∨
      ∃ view, op = .arrive id view ∧ (s'.conns id).received = (s.conns id).received ++ [view] := by
  cases hc : op.conn? with
  | none =>
    cases op
    case adopt =>
      cases h
      simp [updConn, Ne.symm (hadopt rfl)]
    all_goals
      simp only [Op.conn?, reduceCtorEq] at hc
    all_goals exact Or.inl (by rw [conns_of_not_conn rfl (by simp) h])
  | some k =>
    by_cases hk : id = k
    · subst hk
      cases op
      all_goals
        simp only [Op.conn?, Option.some.injEq, reduceCtorEq] at hc
      all_goals subst hc
      case arrive view =>
        simp only [exec] at h
        split at h <;> cases h
        exact Or.inr ⟨view, rfl, by simp [updConn]⟩
      all_goals
        simp only [exec, lockSend, setSender] at h
        repeat' split at h
      all_goals cases h
      all_goals exact Or.inl (by simp [updConn])
    · rw [exec_of_conn hc h]
      exact Or.inl (by simp [updConn, hk])

end Server

/-! ## What an operation expands to -/

namespace Op

/-- The operations of a receive handler. -/
def receiving : Op → Bool
  | receive _ | drainFrames _ | onMessage _ _ _ | postMessage _ _ _ | tryEmplace _ _ _ _
  | consume _ | endReceive _ => true
  | _ => false

/-- The loops, which push themselves again. -/
def loops : Op → Bool
  | gameLoop _ | chatLoop | mainLoop => true
  | _ => false

/-- The operations that send a frame. -/
def sending : Op → Bool
  | send _ _ _ | broadcast _ _ _ _ | lockSend _ _ _ => true
  | _ => false

/-- The operations that may close a connection and call its close handler. -/
def mayClose : Op → Bool
  | close _ | closeOverflow _ | start _ | net _ _ => true
  | _ => false

/-- The operations on the life of a connection. -/
def bare : Op → Bool
  | register _ | installHandlers _ | postConnected _ _ | start _ | erase _ | close _
  | closeOverflow _ | postDisconnected _ _ => true
  | _ => false

end Op

/-- What the router refuses a frame with. -/
inductive RouterRefusal : ErrorCode → String → Prop
  | rateLimit : RouterRefusal .serverBusy "rate limit"
  | unknownId : RouterRefusal .unknownMessage "unknown id"
  | queueFull : RouterRefusal .serverBusy "inbound queue full"

namespace Server

/-- `ExpandsTo cfg e s op o` : in `s`, `o` may be among the operations that `op` pushes. -/
inductive ExpandsTo (e : Env) (s : Server) : Op → Op → Prop
  | game (l : ℕ) {o : Op} (mem : o ∈ ((s.game l).step e).2) : ExpandsTo e s (.gameLoop l) o
  | chat {o : Op} (mem : o ∈ s.chat.step.2) : ExpandsTo e s .chatLoop o
  | again {op : Op} (loops : op.loops = true) : ExpandsTo e s op op
  | bare {op o : Op} (bare : o.bare = true) : ExpandsTo e s op o
  -- a receive handler goes on, and offers the next frame to the router
  | handler {op o : Op} (id : ℕ) (receiving : op.receiving = true)
      (goesOn : o = .drainFrames id ∨ o = .consume id ∨ o = .endReceive id) : ExpandsTo e s op o
  | offer (id : ℕ) {view : Frame}
      (next : (s.conns id).received[(s.conns id).consumed]? = some view) :
      ExpandsTo e s (.drainFrames id) (.onMessage id (s.conns id).consumed view)
  | pass (id index : ℕ) (view : Frame) :
      ExpandsTo e s (.onMessage id index view) (.postMessage id index view)
  | route {service : ServiceId} (id index : ℕ) {view : Frame}
      (route_eq : route view.msgId = some service) :
      ExpandsTo e s (.postMessage id index view) (.tryEmplace service id index view)
  | refuse {op : Op} (id index : ℕ) (view : Frame) {code : ErrorCode} {detail : String}
      (frame : op = .onMessage id index view ∨ op = .postMessage id index view ∨
        ∃ service, op = .tryEmplace service id index view) (refusal : RouterRefusal code detail) :
      ExpandsTo e s op (.send id (some index) (errorAck view.msgId code detail))
  | refuseDb (index : ℕ) (req : Request) {code : ErrorCode} {detail : String}
      (refusal : DbRefusal code detail) : ExpandsTo e s (.submitDb index req)
        (.send req.connId (some index) (errorAck (requestMsgId req.kind) code detail))
  | lock (id : ℕ) (answers : Option ℕ) (f : Frame) :
      ExpandsTo e s (.send id answers f) (.lockSend id answers f)
  | member (id index : ℕ) (f : Frame) {todo : List ℕ} {k : ℕ} (mem : k ∈ todo) :
      ExpandsTo e s (.broadcast id index f todo) (.send k (if k = id then some index else none) f)
  | members (id index : ℕ) (f : Frame) (todo : List ℕ) :
      ExpandsTo e s (.broadcast id index f todo) (.broadcast id index f (todo.eraseIdx e.pick))

variable {cfg : ServerConfig} {e : Env} {s s' : Server} {op o : Op} {new : List Op}

theorem mem_onClose {k : ℕ} {c : Conn} {sender : Sender} (h : o ∈ onClose k c sender) :
    o = .postDisconnected .game k := by
  unfold onClose at h
  split_ifs at h
  · exact List.mem_singleton.mp h
  · simp at h

/-- The main thread does nothing to a connection but close it. -/
theorem mem_mainStep (h : o ∈ (s.mainStep cfg e).2) : ∃ id, o = .close id := by
  unfold mainStep at h
  repeat' split at h
  all_goals simp at h
  exact ⟨_, h⟩

/-- What the router refuses a frame with, and the end of the handler's turn. -/
theorem expandsTo_refused {id index : ℕ} {view : Frame} {code : ErrorCode} {detail : String}
    (hframe : op = .onMessage id index view ∨ op = .postMessage id index view ∨
      ∃ service, op = .tryEmplace service id index view) (href : RouterRefusal code detail)
    (ho : o ∈ sendError id index view.msgId code detail ++ [.consume id]) : ExpandsTo e s op o := by
  obtain ho | ho := List.mem_append.mp ho
  · obtain rfl | rfl := mem_sendError ho
    · exact .refuse id index view hframe href
    · exact .bare rfl
  · have hreceiving : op.receiving = true := by
      obtain rfl | rfl | ⟨service, rfl⟩ := hframe <;> rfl
    exact .handler id hreceiving (Or.inr (Or.inl (List.mem_singleton.mp ho)))

/-- A loop pushes what its turn has to do, and itself. -/
theorem expandsTo_loop (hop : op.loops = true) (h : s.exec cfg e op = some (s', new))
    (ho : o ∈ new) : ExpandsTo e s op o := by
  cases op with
  | gameLoop l =>
    cases h
    obtain ho | ho := List.mem_append.mp ho
    · exact .game l ho
    · obtain rfl := List.mem_singleton.mp ho
      exact .again rfl
  | chatLoop =>
    cases h
    obtain ho | ho := List.mem_append.mp ho
    · exact .chat ho
    · obtain rfl := List.mem_singleton.mp ho
      exact .again rfl
  | mainLoop =>
    have hnew : new = (s.mainStep cfg e).2 ++ [.mainLoop] :=
      (Prod.mk.inj (Option.some.inj h)).2.symm
    rw [hnew] at ho
    obtain ho | ho := List.mem_append.mp ho
    · obtain ⟨id, rfl⟩ := mem_mainStep ho
      exact .bare rfl
    · obtain rfl := List.mem_singleton.mp ho
      exact .again rfl
  | _ => cases hop

/-- A request that the pool does not take is refused. -/
theorem expandsTo_submitDb {index : ℕ} {req : Request}
    (h : s.exec cfg e (.submitDb index req) = some (s', new)) (ho : o ∈ new) :
    ExpandsTo e s (.submitDb index req) o := by
  simp only [exec] at h
  obtain ⟨code, detail, href, hsub⟩ | ⟨us, -, hsub⟩ := s.submitDb_cases cfg index req
  all_goals
    rw [hsub] at h
    cases h
  · obtain rfl | rfl := mem_sendError ho
    · exact .refuseDb index req href
    · exact .bare rfl
  · simp at ho

/-- A receive handler goes on with the frame, refuses it, or is over. -/
theorem expandsTo_receiving (hop : op.receiving = true) (h : s.exec cfg e op = some (s', new))
    (ho : o ∈ new) : ExpandsTo e s op o := by
  cases op with
  | onMessage id index view =>
    simp only [exec] at h
    split at h <;> cases h
    · obtain rfl := List.mem_singleton.mp ho
      exact .pass id index view
    · exact expandsTo_refused (Or.inl rfl) .rateLimit ho
  | postMessage id index view =>
    simp only [exec] at h
    split at h <;> cases h
    · exact expandsTo_refused (Or.inr (Or.inl rfl)) .unknownId ho
    · rename_i hroute
      obtain rfl := List.mem_singleton.mp ho
      exact .route id index hroute
  | tryEmplace service id index view =>
    simp only [exec] at h
    repeat' split at h
    all_goals cases h
    · exact .handler id rfl (Or.inr (Or.inl (List.mem_singleton.mp ho)))
    · exact .handler id rfl (Or.inr (Or.inr (List.mem_singleton.mp ho)))
    · exact expandsTo_refused (Or.inr (Or.inr ⟨service, rfl⟩)) .queueFull ho
  | drainFrames id =>
    simp only [exec] at h
    split at h <;> cases h
    · exact .handler id rfl (Or.inr (Or.inr (List.mem_singleton.mp ho)))
    · rename_i hview
      obtain rfl := List.mem_singleton.mp ho
      exact .offer id hview
  | receive id =>
    simp only [exec] at h
    split at h <;> cases h
    exact .handler id rfl (Or.inl (List.mem_singleton.mp ho))
  | consume id =>
    cases h
    have hgoes := List.mem_singleton.mp ho
    split at hgoes
    · exact .handler id rfl (Or.inr (Or.inr hgoes))
    · exact .handler id rfl (Or.inl hgoes)
  | endReceive id =>
    cases h
    simp at ho
  | _ => cases hop

/-- Sending, to one connection or to all members. -/
theorem expandsTo_sending (hop : op.sending = true) (h : s.exec cfg e op = some (s', new))
    (ho : o ∈ new) : ExpandsTo e s op o := by
  cases op with
  | send id answers f =>
    simp only [exec] at h
    repeat' split at h
    all_goals cases h
    · simp at ho
    · obtain rfl := List.mem_singleton.mp ho
      exact .bare rfl
    · obtain rfl := List.mem_singleton.mp ho
      exact .lock id answers f
  | broadcast id index f todo =>
    simp only [exec] at h
    split at h
    · rename_i k hk
      cases h
      simp only [List.mem_cons, List.not_mem_nil, or_false] at ho
      obtain rfl | rfl := ho
      · exact .member id index f (List.mem_of_getElem? hk)
      · exact .members id index f todo
    · split at h <;> cases h
      simp at ho
  | lockSend id answers f =>
    simp only [exec, lockSend] at h
    split at h <;> cases h
    · rw [mem_onClose ho]
      exact .bare rfl
    · rw [List.mem_singleton.mp ho]
      exact .bare rfl
  | _ => cases hop

/-- What may close a connection goes on with its close handler. -/
theorem expandsTo_mayClose (hop : op.mayClose = true) (h : s.exec cfg e op = some (s', new))
    (ho : o ∈ new) : ExpandsTo e s op o := by
  cases op with
  | closeOverflow id | close id =>
    cases h
    rw [mem_onClose ho]
    exact .bare rfl
  | start id =>
    simp only [exec, setSender] at h
    repeat' split at h
    all_goals cases h
    · rw [List.mem_singleton.mp ho]
      exact .bare rfl
    · simp at ho
    · obtain ho | ho := List.mem_append.mp ho
      · rw [mem_onClose ho]
        exact .bare rfl
      · rw [List.mem_singleton.mp ho]
        exact .bare rfl
  | net id a =>
    simp only [exec, setSender] at h
    repeat' split at h
    all_goals cases h
    all_goals
      rw [mem_onClose ho]
      exact .bare rfl
  | _ => cases hop

/-- What an operation pushes is what it may expand to. -/
theorem expandsTo_exec (h : s.exec cfg e op = some (s', new)) (ho : o ∈ new) :
    ExpandsTo e s op o := by
  cases op with
  | gameLoop | chatLoop | mainLoop => exact expandsTo_loop rfl h ho
  | submitDb => exact expandsTo_submitDb h ho
  | receive | drainFrames | onMessage | postMessage | tryEmplace | consume | endReceive =>
    exact expandsTo_receiving rfl h ho
  | send | broadcast | lockSend => exact expandsTo_sending rfl h ho
  | close | closeOverflow | start | net => exact expandsTo_mayClose rfl h ho
  | _ =>
    simp only [exec] at h
    repeat' split at h
    all_goals cases h
    all_goals simp at ho
    all_goals
      subst ho
      exact .bare rfl

end Server

end EchoServer
