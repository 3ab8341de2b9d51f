import EchoServer.Lib.Threads
import EchoServer.System.ChatService
import EchoServer.System.GameService

/-!
# The whole server

The connections, the lanes of the game service, the chat service, the database pool and the
main thread of `main.cpp`, among the threads that move things between them. The loop of a
service lane and the main thread are operations that stay at the bottom of their stacks and
push what one turn does; workers of the completion port, the sweeper and the database workers
are threads that the environment starts.

Not modelled are statistics and logging, exceptions in a handler, and what decides when a
receive handler runs, the outstanding receives and the paused lists : a handler may start at
any time, also while another one of the same connection is running.

An operation on a connection changes that connection and nothing else
(`Server.exec_of_conn`), and no other operation but the making of a connection changes one
(`Server.conns_of_not_conn`).
-/

namespace EchoServer

/-- The options of the server. -/
structure ServerConfig where
  send : SendConfig
  pool : PoolConfig
  gameLaneCount : ℕ
  inboundQueueCap : ℕ
  policy : OverflowPolicy
  /-- Time given to a database request; 0 is no deadline. -/
  dbDeadlineUs : ℕ

namespace ServerConfig

/-- The lanes that `Service::start` creates for the game service. -/
def lanes (cfg : ServerConfig) : ℕ := max 1 (min cfg.gameLaneCount 64)

/-- There is at least one lane. -/
theorem lanes_pos (cfg : ServerConfig) : 0 < cfg.lanes :=
  lt_of_lt_of_le Nat.one_pos (le_max_left ..)

/-- `inbound_queue_cap`, and no less than 64. -/
def inboundCap (cfg : ServerConfig) : ℕ := max 64 cfg.inboundQueueCap

/-- The game lane of a connection. -/
def laneOf (cfg : ServerConfig) (id : ℕ) : ℕ := id % cfg.lanes

end ServerConfig

/-- A connection, as the threads of the server see it. -/
structure Conn where
  /-- In `connections_`. -/
  registered : Bool
  /-- The message and close handlers are set. -/
  handlers : Bool
  /-- The first receive has been posted. -/
  started : Bool
  /-- The receive handlers that are running. -/
  receiving : ℕ
  /-- The whole frames received, and how many of them are consumed. -/
  received : List Frame
  consumed : ℕ
  sender : Sender
  /-- The frames appended to the send buffer, with the frame each one answers; no operation
  reads it. -/
  sent : List (Option ℕ × Frame)

/-- A connection that has just been made. -/
def Conn.fresh : Conn := ⟨false, false, false, 0, [], 0, .fresh, []⟩

/-- The connection is closed. -/
def Conn.closed (c : Conn) : Bool := c.sender.closed

/-- `has_unsent`. -/
def Conn.hasUnsent (c : Conn) : Bool := c.sender.buf.sending || !c.sender.buf.pending.isEmpty

/-- A queue length that `ServiceRouter::drain` samples. -/
inductive Counter where
  | inbound (service : ServiceId) (l : ℕ)
  | dbInbox (l : ℕ)
  | serviceInbox
  deriving DecidableEq

/-- Where the main thread is in the shutdown sequence. -/
inductive Stage where
  | running
  /-- `WorkerPool::drain`, with the sum of the depths read so far. -/
  | dbDrain (i left : ℕ)
  /-- `ServiceRouter::drain`, with the samples still to take. -/
  | serviceDrain (todo : List Counter) (left : ℕ)
  /-- `IoService::flush_pending` : collect the open connections, then look at each. -/
  | flushScan (todo alive : List ℕ)
  | flushCheck (todo : List ℕ) (waiting : ℕ)
  /-- `IoService::stop`, with the connections still to close. -/
  | stop (todo : List ℕ)
  | stopped

/-- Whether the main thread holds the mutex of the connection table. -/
def Stage.locksTable : Stage → Bool
  | flushScan _ _ | stop _ => true
  | _ => false

/-- What the threads of the server share. -/
structure Server where
  conns : ℕ → Conn
  nextId : ℕ
  game : ℕ → GameLane
  chat : ChatLane
  pool : Pool ℕ
  stage : Stage
  /-- A drain gave up. -/
  timedOut : Bool
  /-- How many database requests had been accepted when the drain began. -/
  drainFrom : ℕ

/-- The samples of `Service::pending`, of the game service and then of the chat service. -/
def ServerConfig.counters (cfg : ServerConfig) : List Counter :=
  ((List.range cfg.lanes).flatMap fun l => [.inbound .game l, .dbInbox l]) ++
    [.inbound .chat 0, .serviceInbox]

namespace Server

/-- The server before the first connection. -/
def fresh (cfg : ServerConfig) : Server where
  conns := fun _ => .fresh
  nextId := 1
  game := fun _ => .fresh
  chat := .fresh
  pool := .fresh cfg.pool
  stage := .running
  timedOut := false
  drainFrom := 0

/-- Something happens to the connection `id`. -/
def updConn (id : ℕ) (g : Conn → Conn) (s : Server) : Server :=
  { s with conns := Function.update s.conns id (g (s.conns id)) }

/-- Something happens to the lane `l` of the game service. -/
def setGame (l : ℕ) (lane : GameLane) (s : Server) : Server :=
  { s with game := Function.update s.game l lane }

/-- Put an event into the inbound queue of a service. -/
def post (cfg : ServerConfig) (ev : Event) (s : Server) : ServiceId → Server
  | .game =>
    let lane := s.game (cfg.laneOf ev.connId)
    s.setGame (cfg.laneOf ev.connId) { lane with inbound := lane.inbound ++ [ev] }
  | .chat => { s with chat := { s.chat with inbound := s.chat.inbound ++ [ev] } }

/-- The length of the inbound queue of a service, in the lane of a connection. -/
def inboundLength (cfg : ServerConfig) (id : ℕ) (s : Server) : ServiceId → ℕ
  | .game => (s.game (cfg.laneOf id)).inbound.length
  | .chat => s.chat.inbound.length

/-- The call of the close handler, when a new send path closes a connection. -/
def onClose (id : ℕ) (c : Conn) (sender : Sender) : List Op :=
  if !c.closed && sender.closed && c.handlers then [.postDisconnected .game id] else []

/-- Give a connection a new send path. -/
def setSender (id : ℕ) (sender : Sender) (s : Server) : Server × List Op :=
  (s.updConn id fun c => { c with sender }, onClose id (s.conns id) sender)

/-- `send` under the lock. -/
def lockSend (cfg : ServerConfig) (e : Env) (id : ℕ) (answers : Option ℕ) (f : Frame)
    (s : Server) : Server × List Op :=
  let c := s.conns id
  let sender := c.sender.sendLocked cfg.send f e.flushOk e.wsaOk
  match c.sender.buf.append cfg.send.sendLimit f with
  | some _ =>
    (s.updConn id fun c => { c with sender, sent := c.sent ++ [(answers, f)] }, onClose id c sender)
  | none => (s.updConn id fun c => { c with sender }, [.closeOverflow id])

/-! ## The database -/

/-- `submit_db`, from the test that the pool is in use. The call of `submit` is one step here; its
steps and what falls between them are those of `poolStop`. -/
def submitDb (cfg : ServerConfig) (index : ℕ) (req : Request) (s : Server) : Server × List Op :=
  let origin := requestMsgId req.kind
  if s.pool.workers.isEmpty then (s, sendError req.connId index origin .dbUnavailable "db disabled")
  else
    let deadlineUs := if 0 < cfg.dbDeadlineUs then s.pool.now + cfg.dbDeadlineUs else 0
    let (queued, pool) := s.pool.submit cfg.pool { req with deadlineUs } index
    if queued then ({ s with pool }, [])
    else (s, sendError req.connId index origin .serverBusy "db queue full")

/-- `post_db_response` of the game service. -/
def postDbResponse (cfg : ServerConfig) (s : Server) (r : Job ℕ × Response) : Server :=
  let lane := s.game (cfg.laneOf r.2.connId)
  s.setGame (cfg.laneOf r.2.connId) { lane with dbInbox := lane.dbInbox ++ [(r.1.tag, r.2)] }

/-- A step of a database worker; the sink takes the responses it gives. -/
def dbWork (cfg : ServerConfig) (i : ℕ) (o : Outcome) (s : Server) : Option Server :=
  (s.pool.work cfg.pool i o).map fun pool =>
    (pool.responded.drop s.pool.responded.length).foldl (postDbResponse cfg) { s with pool }

/-! ## The main thread -/

/-- What the main thread reads of a queue when it waits for it to be empty. -/
def sample (s : Server) : Counter → ℕ
  | .inbound .game l => (s.game l).inbound.length
  | .inbound .chat _ => s.chat.inbound.length
  | .dbInbox l => (s.game l).dbInbox.length
  | .serviceInbox => s.chat.serviceInbox.length

/-- The connections in the table. -/
def registeredIds (s : Server) : List ℕ :=
  (List.range s.nextId).filter fun id => (s.conns id).registered

/-- One turn of the main thread. A drain that finds something left tries again or gives up. -/
def mainStep (cfg : ServerConfig) (e : Env) (s : Server) : Server × List Op :=
  match s.stage with
  | .running =>
    if e.ok then
      ({ s with
          pool := { s.pool with draining := true }
          stage := .dbDrain 0 0
          drainFrom := s.pool.accepted.length }, [])
    else (s, [])
  | .dbDrain i left =>
    match (s.pool.counters cfg.pool)[i]? with
    | some depth => ({ s with stage := .dbDrain (i + 1) (left + depth) }, [])
    | none =>
      if left = 0 then ({ s with stage := .serviceDrain cfg.counters 0 }, [])
      else if e.ok then ({ s with stage := .dbDrain 0 0 }, [])
      else ({ s with stage := .serviceDrain cfg.counters 0, timedOut := true }, [])
  | .serviceDrain (c :: todo) left =>
    ({ s with stage := .serviceDrain todo (left + s.sample c) }, [])
  | .serviceDrain [] left =>
    if left = 0 then ({ s with stage := .flushScan s.registeredIds [] }, [])
    else if e.ok then ({ s with stage := .serviceDrain cfg.counters 0 }, [])
    else ({ s with stage := .flushScan s.registeredIds [], timedOut := true }, [])
  | .flushScan (id :: todo) alive =>
    ({ s with stage :=
        .flushScan todo (if (s.conns id).closed then alive else alive ++ [id]) }, [])
  | .flushScan [] alive => ({ s with stage := .flushCheck alive 0 }, [])
  | .flushCheck (id :: todo) waiting =>
    ({ s with stage := .flushCheck todo (waiting + (s.conns id).hasUnsent.toNat) }, [])
  | .flushCheck [] waiting =>
    if waiting = 0 then ({ s with stage := .stop s.registeredIds }, [])
    else if e.ok then ({ s with stage := .flushScan s.registeredIds [] }, [])
    else ({ s with stage := .stop s.registeredIds, timedOut := true }, [])
  | .stop (id :: todo) => ({ s with stage := .stop todo }, [.close id])
  | .stop [] => ({ s with stage := .stopped }, [])
  | .stopped => (s, [])

/-! ## One operation -/

/-- Execute one operation : the new shared state and the operations it expands to. An
operation that waits for a mutex, or for an outstanding send, cannot be executed. -/
def exec (cfg : ServerConfig) (e : Env) (s : Server) : Op → Option (Server × List Op)
  | .adopt =>
    some ({ s.updConn s.nextId fun _ => .fresh with nextId := s.nextId + 1 }, [.register s.nextId])
  | .register id =>
    if s.stage.locksTable then none
    else if e.ok then
      some (s.updConn id fun c => { c with registered := true }, [.installHandlers id])
    else some (s, [])
  | .installHandlers id =>
    some (s.updConn id fun c => { c with handlers := true }, [.postConnected .game id])
  | .postConnected service id =>
    some (s.post cfg (.connected id) service,
      match service with
      | .game => [.postConnected .chat id]
      | .chat => [.start id])
  | .start id =>
    if (s.conns id).closed then some (s, [.erase id])
    else if e.ok then some (s.updConn id fun c => { c with started := true }, [])
    else
      let (s, ops) := s.setSender id (s.conns id).sender.close
      some (s, ops ++ [.erase id])
  | .erase id =>
    if s.stage.locksTable then none
    else some (s.updConn id fun c => { c with registered := false }, [])
  | .arrive id view =>
    if (s.conns id).started then
      some (s.updConn id fun c => { c with received := c.received ++ [view] }, [])
    else none
  | .receive id =>
    if (s.conns id).started then
      some (s.updConn id fun c => { c with receiving := c.receiving + 1 }, [.drainFrames id])
    else none
  | .drainFrames id =>
    match (s.conns id).received[(s.conns id).consumed]? with
    | none => some (s, [.endReceive id])
    | some view => some (s, [.onMessage id (s.conns id).consumed view])
  | .onMessage id index view =>
    if e.ok then some (s, [.postMessage id index view])
    else some (s, sendError id index view.msgId .serverBusy "rate limit" ++ [.consume id])
  | .postMessage id index view =>
    match route view.msgId with
    | none =>
      some (s, sendError id index view.msgId .unknownMessage "unknown id" ++ [.consume id])
    | some service => some (s, [.tryEmplace service id index view])
  | .tryEmplace service id index view =>
    if s.inboundLength cfg id service < cfg.inboundCap then
      some (s.post cfg (.message (.ofFrame id index view)) service, [.consume id])
    else
      match cfg.policy with
      | .backpressure => some (s, [.endReceive id])
      | .reject =>
        some (s, sendError id index view.msgId .serverBusy "inbound queue full" ++ [.consume id])
  | .consume id =>
    some (s.updConn id fun c => { c with consumed := c.consumed + 1 },
      [if (s.conns id).closed then .endReceive id else .drainFrames id])
  | .endReceive id => some (s.updConn id fun c => { c with receiving := c.receiving - 1 }, [])
  | .send id answers f =>
    if (s.conns id).closed then some (s, [])
    else some (s, if kMaxOutboundBody < f.body.length then [.close id] else [.lockSend id answers f])
  | .lockSend id answers f => some (s.lockSend cfg e id answers f)
  | .closeOverflow id =>
    let sender := (s.conns id).sender
    some (s.setSender id { sender with overflowing := sender.overflowing - 1 }.close)
  | .net id a =>
    match a with
    | .onFlush _ | .onSendDone _ _ _ | .transfer _ _ | .closeFailed =>
      match (sender cfg.send).step (s.conns id).sender a with
      | some sender => some (s.setSender id sender)
      | none => none
    | _ => none
  | .close id => some (s.setSender id (s.conns id).sender.close)
  | .postDisconnected service id =>
    some (s.post cfg (.disconnected id) service,
      match service with
      | .game => [.postDisconnected .chat id]
      | .chat => [])
  | .reclaim id =>
    if s.stage.locksTable || !(s.conns id).closed then none
    else some (s.updConn id fun c => { c with registered := false }, [])
  | .gameLoop l =>
    let (lane, ops) := (s.game l).step e
    some (s.setGame l lane, ops ++ [.gameLoop l])
  | .chatLoop =>
    let (chat, ops) := s.chat.step
    some ({ s with chat }, ops ++ [.chatLoop])
  | .submitDb index req => some (s.submitDb cfg index req)
  | .relay msg =>
    some ({ s with chat := { s.chat with serviceInbox := s.chat.serviceInbox ++ [msg] } }, [])
  | .broadcast id index f todo =>
    -- `send` does nothing for a member that is closed
    match todo[e.pick]? with
    | some k =>
      some (s, [.send k (if k = id then some index else none) f,
        .broadcast id index f (todo.eraseIdx e.pick)])
    | none => if todo.isEmpty then some (s, []) else none
  | .dbWork i o =>
    match s.dbWork cfg i o with
    | some s => some (s, [])
    | none => none
  | .dbTick us => some ({ s with pool := { s.pool with now := s.pool.now + us } }, [])
  | .mainLoop =>
    let (s, ops) := s.mainStep cfg e
    some (s, ops ++ [.mainLoop])

/-- What a thread outside the model's loops may start with. -/
def external (s : Server) : Op → Bool
  | .adopt | .dbWork _ _ | .dbTick _ => true
  | .close id => (s.conns id).registered
  | .arrive id _ | .receive id | .net id _ | .reclaim id => id < s.nextId
  | _ => false

end Server

/-- The connection that an operation changes, if it changes nothing else. -/
def Op.conn? : Op → Option ℕ
  | .register id | .installHandlers id | .start id | .erase id | .arrive id _ | .receive id
  | .drainFrames id | .onMessage id _ _ | .postMessage id _ _ | .consume id | .endReceive id
  | .send id _ _ | .lockSend id _ _ | .closeOverflow id | .net id _ | .close id | .reclaim id =>
    some id
  | _ => none

namespace Server

variable {cfg : ServerConfig} {e : Env} {s s' : Server} {op : Op} {new : List Op}

/-- An operation on a connection changes that connection. -/
theorem exec_of_conn {id : ℕ} (hop : op.conn? = some id) (h : s.exec cfg e op = some (s', new)) :
    s' = s.updConn id fun _ => s'.conns id := by
  cases op
  all_goals
    simp only [Op.conn?, Option.some.injEq, reduceCtorEq] at hop
  all_goals
    subst hop
    simp only [exec, lockSend, setSender] at h
    repeat' split at h
  all_goals cases h
  all_goals simp [updConn]

/-- The callback of the pool touches only the inboxes of the lanes. -/
theorem foldl_postDbResponse_same (cfg : ServerConfig) (rs : List (Job ℕ × Response)) :
    ∀ s : Server, (rs.foldl (postDbResponse cfg) s).conns = s.conns ∧
      (rs.foldl (postDbResponse cfg) s).nextId = s.nextId ∧
      (rs.foldl (postDbResponse cfg) s).chat = s.chat ∧
      (rs.foldl (postDbResponse cfg) s).pool = s.pool := by
  induction rs with
  | nil => exact fun _ => ⟨rfl, rfl, rfl, rfl⟩
  | cons r rs ih => exact fun s => ih (postDbResponse cfg s r)

/-- A step of the pool touches no connection. -/
theorem dbWork_same {i : ℕ} {o : Outcome} (h : s.dbWork cfg i o = some s') :
    s'.conns = s.conns ∧ s'.nextId = s.nextId ∧ s'.chat = s.chat := by
  obtain ⟨pool, -, rfl⟩ := Option.map_eq_some_iff.mp h
  obtain ⟨hc, hn, hch, -⟩ := foldl_postDbResponse_same cfg
    (pool.responded.drop s.pool.responded.length) { s with pool }
  exact ⟨hc, hn, hch⟩

/-- Nor does the main thread. -/
theorem mainStep_same : (s.mainStep cfg e).1.conns = s.conns ∧
    (s.mainStep cfg e).1.nextId = s.nextId ∧ (s.mainStep cfg e).1.game = s.game ∧
    (s.mainStep cfg e).1.chat = s.chat := by
  unfold mainStep
  repeat' split
  all_goals exact ⟨rfl, rfl, rfl, rfl⟩

/-- An operation that is on no connection, and makes none, changes none. -/
theorem conns_of_not_conn (hop : op.conn? = none) (hadopt : op ≠ .adopt)
    (h : s.exec cfg e op = some (s', new)) : s'.conns = s.conns := by
  cases op
  all_goals
    simp only [Op.conn?, reduceCtorEq, ne_eq, not_true_eq_false] at hop hadopt
  case mainLoop =>
    cases h
    exact mainStep_same.1
  case dbWork i o =>
    simp only [exec] at h
    split at h <;> cases h
    rename_i hwork
    exact (dbWork_same hwork).1
  all_goals
    simp only [exec, submitDb, post] at h
    repeat' split at h
  all_goals cases h
  all_goals rfl

end Server

/-- The server and its threads. -/
structure ServerState where
  server : Server
  threads : Threads Op

namespace ServerState

/-- The lanes and the main thread, before the first connection. -/
def fresh (cfg : ServerConfig) : ServerState where
  server := .fresh cfg
  threads := ((List.range cfg.lanes).map fun l => [.gameLoop l]) ++ [[.chatLoop], [.mainLoop]]

end ServerState

/-- A thread of the server goes on, or begins. -/
inductive ServerStep where
  /-- Thread `i` executes its next operation. -/
  | exec (i : ℕ) (e : Env)
  /-- The environment starts a thread. -/
  | spawn (op : Op)

/-- The server from the start of its services to the close of its connections. -/
def serverThreads (cfg : ServerConfig) : Machine ServerState ServerStep where
  init s := s = .fresh cfg
  step s
    | .exec i e => (s.threads.head i).bind fun op =>
      (s.server.exec cfg e op).map fun (server, new) => ⟨server, s.threads.exec i new⟩
    | .spawn op =>
      if s.server.external op then some { s with threads := s.threads.spawn [op] } else none

namespace ServerState

/-- A step executes an operation of a thread, or starts a thread with one operation. -/
theorem step_cases {cfg : ServerConfig} {s s' : ServerState} {a : ServerStep}
    (h : (serverThreads cfg).step s a = some s') :
    (∃ i e op new, a = .exec i e ∧ s.threads.head i = some op ∧
        s.server.exec cfg e op = some (s'.server, new) ∧ s'.threads = s.threads.exec i new) ∨
      ∃ op, a = .spawn op ∧ s.server.external op = true ∧ s'.server = s.server ∧
        s'.threads = s.threads.spawn [op] := by
  cases a with
  | exec i e =>
    obtain ⟨op, hop, h⟩ := Option.bind_eq_some_iff.mp h
    obtain ⟨⟨t, new⟩, hex, rfl⟩ := Option.map_eq_some_iff.mp h
    exact Or.inl ⟨i, e, op, new, rfl, hop, hex, rfl⟩
  | spawn op =>
    simp only [serverThreads] at h
    split_ifs at h with hext
    obtain rfl := Option.some.inj h
    exact Or.inr ⟨op, rfl, hext, rfl, rfl⟩

end ServerState

end EchoServer
