import EchoServer.System.GameThread
import EchoServer.System.OneReply

/-!
# The order of the replies

A frame of a connection goes from its receive handler into the queue of a game lane; a request goes
on into the pool, which gives it to a worker, and its response into the inbox of the lane. Each of
these places hands on what it has got in order, so the replies of the database are in the order of
the requests, whatever the workers, the batches and the other sessions do, and so are the answers
that need no database (`replies_in_order`). Between the two kinds there is no order : an Echo is
answered before the Save it came after.

`InLine` is the invariant. The frames that have been answered, those that the turn of the lane is
about to answer or to submit, and those in the queue are increasing, and below the frame that is
consumed next; the replies sent, those that the turn is about to send and those in the inbox are
among the responses of the pool, in their order.
-/

namespace EchoServer

open Threads

variable {cfg : ServerConfig} {e : Env} {s s' : ServerState} {t : Server} {op : Op}
  {new : List Op} {i id : ℕ} {results : List (Job ℕ × Outcome)}

/-! ## Frames on their way -/

/-- The frame that an operation answers at once, or asks the database for. -/
def Op.turnOf (id : ℕ) : Op → Option ℕ
  | send k answers f | lockSend k answers f => if k = id ∧ f.prompt = true then answers else none
  | submitDb n req => if req.connId = id then some n else none
  | _ => none

/-- The frame that an operation answers with a response of the database. -/
def Op.replyOf (id : ℕ) : Op → Option ℕ
  | send k answers f | lockSend k answers f =>
    if k = id ∧ f.ofResponse = true then answers else none
  | _ => none

/-- The frame that a message comes from. -/
def Event.indexOf (id : ℕ) : Event → Option ℕ
  | message m => if m.connId = id then some m.index else none
  | _ => none

/-- The frames answered with a frame of some kind. -/
def Conn.answered (p : Frame → Bool) (c : Conn) : List ℕ :=
  c.sent.filterMap fun q => if p q.2 then q.1 else none

/-- The frame that a response in an inbox answers. -/
def replyIndex (id : ℕ) (r : ℕ × Response) : Option ℕ := if r.2.connId = id then some r.1 else none

namespace Server

/-- The frames whose requests the pool has taken in. -/
def submitted (id : ℕ) (s : Server) : List ℕ :=
  (s.pool.accepted.filter fun j => j.req.connId = id).map Job.tag

/-- The frames whose requests the pool has answered. -/
def responded (id : ℕ) (s : Server) : List ℕ :=
  (s.pool.responded.filter fun p => p.1.req.connId = id).map fun p => p.1.tag

/-- The frames in the queue of the lane. -/
def asking (cfg : ServerConfig) (id : ℕ) (s : Server) : List ℕ :=
  (s.game (cfg.laneOf id)).events.filterMap (Event.indexOf id)

/-- The frames whose responses are in the inbox of the lane. -/
def replying (cfg : ServerConfig) (id : ℕ) (s : Server) : List ℕ :=
  (s.game (cfg.laneOf id)).replies.filterMap (replyIndex id)

end Server

/-! ## What a turn takes and leaves -/

theorem Op.turnOf_of_calm (h : op.calm cfg id = true) :
    op.turnOf id = none ∧ op.replyOf id = none := by
  cases op with
  | send k answers f | lockSend k answers f =>
    have hne : k = id → f.prompt = false ∧ f.ofResponse = false := by
      intro hk
      have hf : f.ofGame = false := by simpa [calm, hk] using h
      simp only [Frame.ofGame, Bool.or_eq_false_iff] at hf
      exact ⟨hf.1.2, hf.2⟩
    constructor
    · exact if_neg fun hand => by simp [(hne hand.1).1] at hand
    · exact if_neg fun hand => by simp [(hne hand.1).2] at hand
  | submitDb n req =>
    have hne : req.connId ≠ id := by simpa [calm] using h
    exact ⟨if_neg hne, rfl⟩
  | _ => exact ⟨rfl, rfl⟩

/-- What belongs to no turn answers nothing. -/
theorem filterMap_calm {ops : List Op} (h : ∀ o ∈ ops, o.calm cfg id = true) :
    ops.filterMap (Op.turnOf id) = [] ∧ ops.filterMap (Op.replyOf id) = [] :=
  ⟨List.filterMap_eq_nil_iff.mpr fun o ho => (Op.turnOf_of_calm (h o ho)).1,
    List.filterMap_eq_nil_iff.mpr fun o ho => (Op.turnOf_of_calm (h o ho)).2⟩

/-- An error that is no response of the database answers nothing here. -/
theorem filterMap_sendError (id k index origin : ℕ) {code : ErrorCode} {detail : String}
    (h : (errorAck origin code detail).ofGame = false) :
    (sendError k index origin code detail).filterMap (Op.turnOf id) = [] ∧
      (sendError k index origin code detail).filterMap (Op.replyOf id) = [] := by
  have hf := h
  simp only [Frame.ofGame, Bool.or_eq_false_iff] at hf
  constructor <;> refine List.filterMap_eq_nil_iff.mpr fun o ho => ?_
  all_goals
    obtain rfl | rfl := mem_sendError ho
    · simp [Op.turnOf, Op.replyOf, hf]
    · rfl

namespace GameLane

variable {lane lane' : GameLane} {ops : List Op}

/-- A turn takes the frame it answers, or asks the database for, from the front of a queue. -/
theorem Turn.inLine (h : Turn e lane lane' ops) (id : ℕ) :
    (ops.filterMap (Op.turnOf id) ++ lane'.events.filterMap (Event.indexOf id)).Sublist
        (lane.events.filterMap (Event.indexOf id)) ∧
      (ops.filterMap (Op.replyOf id) ++ lane'.replies.filterMap (replyIndex id)).Sublist
        (lane.replies.filterMap (replyIndex id)) := by
  cases h with
  | move hev hrep =>
    rw [hev, hrep]
    exact ⟨List.Sublist.refl _, List.Sublist.refl _⟩
  | reply index res hev hrep =>
    rw [hev, hrep, List.filterMap_cons]
    unfold onReply
    split
    · refine ⟨List.Sublist.refl _, ?_⟩
      split
      · exact List.Sublist.refl _
      · exact List.sublist_cons_self ..
    · have hkinds := (processDbResponse res).kinds
      have hof := ofResponse_processDbResponse res
      have hprompt : (processDbResponse res).prompt = false := by
        by_contra hp
        simp [(hkinds.1 (by simpa using hp)).1] at hof
      by_cases hid : res.connId = id
      · simp [Op.turnOf, Op.replyOf, replyIndex, hid, hof, hprompt]
      · simp [Op.turnOf, Op.replyOf, replyIndex, hid]
  | event ev hev hrep =>
    rw [hev, hrep, List.filterMap_cons]
    cases ev with
    | connected k =>
      have hkey : ∀ text : Bytes, (⟨kSessionAck, text⟩ : Frame).prompt = false ∧
          (⟨kSessionAck, text⟩ : Frame).ofResponse = false := fun text => ⟨rfl, rfl⟩
      simp only [onEvent]
      split <;> simp [Op.turnOf, Op.replyOf, Event.indexOf, hkey]
    | disconnected k => simp [onEvent, Event.indexOf]
    | message m =>
      simp only [onEvent]
      split
      · refine ⟨?_, List.Sublist.refl _⟩
        split
        · exact List.Sublist.refl _
        · exact List.sublist_cons_self ..
      · cases hv : onMessage e.unixMs m with
        | reply f =>
          have hp := prompt_onMessage hv
          have hr := (f.kinds.1 hp).1
          by_cases hid : m.connId = id <;>
            simp [Verdict.ops, Op.turnOf, Op.replyOf, Event.indexOf, hid, hp, hr]
        | refuse code detail =>
          obtain ⟨hturn, hreply⟩ :=
            filterMap_sendError id m.connId m.index m.msgId (ofGame_refuse hv m.msgId)
          simp only [Verdict.ops, hturn, hreply, List.nil_append, List.Sublist.refl, and_true]
          split
          · exact List.Sublist.refl _
          · exact List.sublist_cons_self ..
        | pass req =>
          by_cases hid : m.connId = id <;>
            simp [Verdict.ops, Op.turnOf, Op.replyOf, Event.indexOf, hid]

end GameLane

namespace Server

variable {s : Server}

/-- Under the lock, `send` appends the frame or does not. -/
theorem sent_lockSend {k : ℕ} {answers : Option ℕ} {f : Frame}
    (h : s.exec cfg e (.lockSend k answers f) = some (t, new)) :
    (t.conns k).sent = (s.conns k).sent ∨
      (t.conns k).sent = (s.conns k).sent ++ [(answers, f)] := by
  simp only [exec, lockSend] at h
  split at h <;> cases h
  · exact Or.inr (by simp [updConn])
  · exact Or.inl (by simp [updConn])

/-- Of the requests of a connection, the pool takes in the one that is submitted. -/
theorem submitted_exec (h : s.exec cfg e op = some (t, new)) (hp : Pool.Inv cfg.pool s.pool)
    (id : ℕ) : t.submitted id = s.submitted id ∨ ∃ n req, op = .submitDb n req ∧
      req.connId = id ∧ t.submitted id = s.submitted id ++ [n] ∧ new = [] := by
  by_cases hsub : ∃ n req, op = .submitDb n req
  · obtain ⟨n, req, rfl⟩ := hsub
    simp only [exec] at h
    obtain ⟨_, _, -, hcase⟩ | ⟨us, hok, hcase⟩ := s.submitDb_cases cfg n req
    · rw [hcase] at h
      cases h
      exact Or.inl rfl
    · rw [hcase] at h
      cases h
      obtain ⟨j, hacc, hreq, htag⟩ := Pool.accepted_submit hok
      by_cases hid : req.connId = id
      · refine Or.inr ⟨n, req, rfl, hid, ?_, rfl⟩
        rw [submitted, submitted, hacc]
        simp [hreq, htag, hid]
      · refine Or.inl ?_
        rw [submitted, submitted, hacc]
        simp [hreq, hid]
  · obtain ⟨-, ⟨js, hjs, hsubmits⟩, -⟩ := exec_unstarted h hp
    have hnil : js = [] := by
      refine List.eq_nil_iff_forall_not_mem.mpr fun j hj => hsub ?_
      obtain ⟨req, us, hop, -⟩ := hsubmits j hj
      exact ⟨_, _, hop⟩
    exact Or.inl (by rw [submitted, submitted, hjs, hnil, List.append_nil])

/-- What the operation was to answer is answered, or is still to be, or will never be. -/
structure HandsOn (id : ℕ) (s t : Server) (op : Op) (new : List Op) : Prop where
  prompt : ((t.conns id).answered Frame.prompt ++ new.filterMap (Op.turnOf id)).Sublist
    ((s.conns id).answered Frame.prompt ++ (op.turnOf id).toList)
  submits : (t.submitted id ++ new.filterMap (Op.turnOf id)).Sublist
    (s.submitted id ++ (op.turnOf id).toList)
  replies : ((t.conns id).answered Frame.ofResponse ++ new.filterMap (Op.replyOf id)).Sublist
    ((s.conns id).answered Frame.ofResponse ++ (op.replyOf id).toList)

/-- A request of another connection is not one of this. -/
theorem submitted_of_ne (h : s.exec cfg e op = some (t, new)) (hp : Pool.Inv cfg.pool s.pool)
    (hop : ∀ n req, op = .submitDb n req → req.connId ≠ id) : t.submitted id = s.submitted id := by
  obtain hsub | ⟨n, req, rfl, hid, -⟩ := submitted_exec h hp id
  · exact hsub
  · exact absurd hid (hop n req rfl)

/-- The frame is appended to the send buffer, or dropped. -/
theorem handsOn_lockSend {k : ℕ} {answers : Option ℕ} {f : Frame}
    (h : s.exec cfg e (.lockSend k answers f) = some (t, new)) (hp : Pool.Inv cfg.pool s.pool) :
    HandsOn id s t (.lockSend k answers f) new := by
  have hcalm : ∀ o ∈ new, o.calm cfg id = true := by
    intro o ho
    cases expandsTo_exec h ho with
    | bare hbare => exact Op.calm_of_bare hbare
    | handler _ hrec => cases hrec
    | again hloops => cases hloops
    | refuse _ _ _ hframe => simp at hframe
  obtain ⟨hturns, hreplies⟩ := filterMap_calm hcalm
  have hsub : t.submitted id = s.submitted id := submitted_of_ne h hp (by simp)
  by_cases hk : k = id
  · subst hk
    obtain hsent | hsent := sent_lockSend h
    · exact ⟨by simp [Conn.answered, hsent, hturns], by simp [hsub, hturns],
        by simp [Conn.answered, hsent, hreplies]⟩
    · refine ⟨?_, by simp [hsub, hturns], ?_⟩
      · rw [hturns]
        simp only [Conn.answered, hsent, List.filterMap_append, List.append_nil, Op.turnOf,
          true_and, List.filterMap_cons, List.filterMap_nil]
        cases answers <;> split_ifs <;> simp
      · rw [hreplies]
        simp only [Conn.answered, hsent, List.filterMap_append, List.append_nil, Op.replyOf,
          true_and, List.filterMap_cons, List.filterMap_nil]
        cases answers <;> split_ifs <;> simp
  · have hsent : (t.conns id).sent = (s.conns id).sent := by
      have hconn : (Op.lockSend k answers f).conn? = some k := rfl
      rw [exec_of_conn hconn h]
      simp [updConn, Ne.symm hk]
    exact ⟨by simp [Conn.answered, hsent, hturns], by simp [hsub, hturns],
      by simp [Conn.answered, hsent, hreplies]⟩

/-- An operation that has nothing to do with the answers of the connection. -/
theorem handsOn_calm (h : s.exec cfg e op = some (t, new)) (hp : Pool.Inv cfg.pool s.pool)
    (hown : ∀ l, s.Owned cfg l) (hcalm : op.calm cfg id = true)
    (hsent : (t.conns id).sent = (s.conns id).sent) : HandsOn id s t op new := by
  obtain ⟨hturns, hreplies⟩ := filterMap_calm (calm_exec hown h hcalm)
  have hsub : t.submitted id = s.submitted id := by
    refine submitted_of_ne h hp ?_
    rintro n req rfl hid
    simp [Op.calm, hid] at hcalm
  exact ⟨by simp [Conn.answered, hsent, hturns], by simp [hsub, hturns],
    by simp [Conn.answered, hsent, hreplies]⟩

/-- `send`, up to the lock. -/
theorem handsOn_send {k : ℕ} {answers : Option ℕ} {f : Frame}
    (h : s.exec cfg e (.send k answers f) = some (t, new))
    (hsent : (t.conns id).sent = (s.conns id).sent) : HandsOn id s t (.send k answers f) new := by
  simp only [exec] at h
  repeat' split at h
  all_goals cases h
  · exact ⟨by simp, by simp, by simp⟩
  · exact ⟨by simp [Op.turnOf], by simp [Op.turnOf], by simp [Op.replyOf]⟩
  · refine ⟨?_, ?_, ?_⟩
    all_goals simp only [Op.turnOf, Op.replyOf, List.filterMap_cons, List.filterMap_nil]
    all_goals split <;> rename_i hval <;> simp [hval]

/-- A request is submitted, or refused with an answer that is none of a response. -/
theorem handsOn_submitDb {n : ℕ} {req : Request}
    (h : s.exec cfg e (.submitDb n req) = some (t, new)) (hp : Pool.Inv cfg.pool s.pool)
    (hid : req.connId = id) (hsent : (t.conns id).sent = (s.conns id).sent) :
    HandsOn id s t (.submitDb n req) new := by
  obtain ⟨hturns, hreplies⟩ :
      new.filterMap (Op.turnOf id) = [] ∧ new.filterMap (Op.replyOf id) = [] := by
    simp only [exec] at h
    obtain ⟨_, _, href, hcase⟩ | ⟨us, -, hcase⟩ := s.submitDb_cases cfg n req
    · rw [hcase] at h
      cases h
      exact filterMap_sendError id _ _ _ (href.ofGame _)
    · rw [hcase] at h
      cases h
      exact ⟨rfl, rfl⟩
  refine ⟨by simp [Conn.answered, hsent, hturns], ?_, by simp [Conn.answered, hsent, hreplies]⟩
  obtain hsub | ⟨_, _, hop, -, hsub, -⟩ := submitted_exec h hp id
  · simp [hturns, hsub]
  · cases hop
    simp [hturns, hsub, Op.turnOf, hid]

/-- What an operation of no turn was to answer is answered, or is still to be. -/
theorem handsOn (h : s.exec cfg e op = some (t, new)) (hp : Pool.Inv cfg.pool s.pool)
    (hown : ∀ l, s.Owned cfg l) (hop : op.calm cfg id = true ∨ op.quiet = true)
    (hloop : op ≠ .gameLoop (cfg.laneOf id)) : HandsOn id s t op new := by
  by_cases hlock : ∃ k answers f, op = .lockSend k answers f
  · obtain ⟨k, answers, f, rfl⟩ := hlock
    exact handsOn_lockSend h hp
  by_cases hadopt : op = .adopt ∧ s.nextId = id
  · obtain ⟨rfl, rfl⟩ := hadopt
    cases h
    constructor <;>
      simp [Conn.answered, Conn.fresh, updConn, submitted, List.filterMap_cons, Op.turnOf,
        Op.replyOf]
  have hsent := sent_exec h (fun hop hid => hadopt ⟨hop, hid⟩) fun answers f hop =>
    hlock ⟨_, _, _, hop⟩
  cases hcalm : op.calm cfg id with
  | true => exact handsOn_calm h hp hown hcalm hsent
  | false =>
    cases op with
    | gameLoop l => simp_all [Op.calm]
    | broadcast => simp [Op.quiet, hcalm] at hop
    | lockSend k answers f => exact absurd ⟨k, answers, f, rfl⟩ hlock
    | send k answers f => exact handsOn_send h hsent
    | submitDb n req => exact handsOn_submitDb h hp (by simpa [Op.calm] using hcalm) hsent
    | _ => simp [Op.calm] at hcalm

/-- The queue of the lane gets the frame that is put into it. -/
theorem asking_exec (h : s.exec cfg e op = some (t, new))
    (hloop : op ≠ .gameLoop (cfg.laneOf id)) :
    t.asking cfg id = s.asking cfg id ∨ ∃ n view, op = .tryEmplace .game id n view ∧
      t.asking cfg id = s.asking cfg id ++ [n] ∧ new = [.consume id] := by
  obtain ⟨heq, -⟩ | ⟨-, hlane⟩ := exec_game h (cfg.laneOf id)
  · exact absurd heq hloop
  have hevents : t.asking cfg id = s.asking cfg id ++ ((s.posted cfg .game op).filter
      fun ev => cfg.laneOf ev.connId = cfg.laneOf id).filterMap (Event.indexOf id) := by
    simp [asking, GameLane.events, hlane]
  rw [hevents]
  cases op with
  | postConnected svc k =>
    refine Or.inl ?_
    simp only [posted]
    split_ifs <;> simp [List.filter_cons, Event.indexOf]
  | postDisconnected svc k =>
    refine Or.inl ?_
    simp only [posted]
    split_ifs <;> simp [List.filter_cons, Event.indexOf]
  | tryEmplace svc k n view =>
    simp only [posted]
    split_ifs with hpost
    · by_cases hid : k = id
      · subst hid
        obtain ⟨rfl, hroom⟩ := hpost
        simp only [exec, if_pos hroom] at h
        cases h
        exact Or.inr ⟨n, view, rfl, by simp [Event.connId, Event.indexOf], rfl⟩
      · refine Or.inl ?_
        simp only [List.filter_cons, List.filter_nil]
        split <;> simp [Event.indexOf, hid]
    · exact Or.inl (by simp)
  | _ => exact Or.inl (by simp [posted])

/-- The inbox of the lane gets the responses that the pool gives. -/
theorem replying_exec (h : s.exec cfg e op = some (t, new)) (hs : t.pool.Sound results)
    (hloop : op ≠ .gameLoop (cfg.laneOf id)) :
    ∃ js, t.replying cfg id = s.replying cfg id ++ js ∧
      t.responded id = s.responded id ++ js := by
  obtain ⟨heq, -⟩ | ⟨-, hlane⟩ := exec_game h (cfg.laneOf id)
  · exact absurd heq hloop
  have hreplies : t.replying cfg id = s.replying cfg id ++
      (repliesFor cfg (cfg.laneOf id) (answers s t)).filterMap (replyIndex id) := by
    simp [replying, GameLane.replies, hlane]
  have hresponded : t.pool.responded = s.pool.responded ++ answers s t :=
    List.prefix_append_drop (responded_exec h)
  refine ⟨_, hreplies, ?_⟩
  rw [responded, responded, hresponded, List.filter_append, List.map_append]
  congr 1
  have hconn : ∀ p ∈ answers s t, p.2.connId = p.1.req.connId := fun p hp =>
    (hs.responded p (hresponded ▸ List.mem_append_right _ hp)).connId_eq
  rw [repliesFor, List.filterMap_map, List.filterMap_filter, ← List.filterMap_eq_map,
    List.filterMap_filter]
  refine List.filterMap_congr fun p hp => ?_
  by_cases hid : p.1.req.connId = id <;> simp [hconn p hp, hid, replyIndex]

end Server

/-! ## Increasing and below -/

/-- The frames are increasing, and below a bound. -/
structure Increasing (m : ℕ) (l : List ℕ) : Prop where
  pairwise : l.Pairwise (· < ·)
  below : ∀ n ∈ l, n < m

namespace Increasing

variable {m m' : ℕ} {l l' : List ℕ}

/-- A part of increasing frames is increasing. -/
theorem sublist (h : Increasing m l) (hsub : l'.Sublist l) (hm : m ≤ m') : Increasing m' l' :=
  ⟨h.pairwise.sublist hsub, fun n hn => (h.below n (hsub.subset hn)).trans_le hm⟩

/-- The bound itself comes next. -/
theorem concat (h : Increasing m l) : Increasing (m + 1) (l ++ [m]) := by
  refine ⟨List.pairwise_append.mpr ⟨h.pairwise, List.pairwise_singleton .., ?_⟩, ?_⟩
  · intro n hn k hk
    obtain rfl := List.mem_singleton.mp hk
    exact h.below n hn
  · intro n hn
    obtain hn | hn := List.mem_append.mp hn
    · exact (h.below n hn).trans (Nat.lt_succ_self m)
    · obtain rfl := List.mem_singleton.mp hn
      exact Nat.lt_succ_self n

end Increasing

/-! ## Every run -/

/-- The frame of the connection that is consumed next. -/
def ServerState.frontier (id : ℕ) (s : ServerState) : ℕ :=
  (s.server.conns id).consumed + s.threads.weight (Op.consumes id)

/-- The frames that the turn of the lane is about to answer or to submit. -/
def ServerState.turning (cfg : ServerConfig) (id : ℕ) (s : ServerState) : List ℕ :=
  (s.ahead cfg id).filterMap (Op.turnOf id)

/-- What a connection has been answered, and what is on its way to it, is in order. -/
structure InLine (cfg : ServerConfig) (s : ServerState) (id : ℕ) : Prop where
  laned : Laned cfg s id
  prompt : Increasing (s.frontier id) ((s.server.conns id).answered Frame.prompt ++
    s.turning cfg id ++ s.server.asking cfg id)
  submitted : Increasing (s.frontier id) (s.server.submitted id ++ s.turning cfg id ++
    s.server.asking cfg id)
  replies : ((s.server.conns id).answered Frame.ofResponse ++
    (s.ahead cfg id).filterMap (Op.replyOf id) ++ s.server.replying cfg id).Sublist
      (s.server.responded id)

/-- What is consumed next only moves on; by one, when a frame is put into a queue. -/
theorem Receiving.frontier_exec (hr : Receiving s id) (hi : s.threads.head i = some op)
    (h : s.server.exec cfg e op = some (t, new))
    (hunborn : (s.server.conns s.server.nextId).received = []) :
    s.frontier id ≤ ServerState.frontier id ⟨t, s.threads.exec i new⟩ ∧
      ∀ n view, op = .tryEmplace .game id n view → new = [.consume id] →
        n = s.frontier id ∧ ServerState.frontier id ⟨t, s.threads.exec i new⟩ = n + 1 := by
  have hweight := weight_exec (Op.consumes id) hi new
  by_cases hadopt : op = .adopt ∧ s.server.nextId = id
  · obtain ⟨rfl, rfl⟩ := hadopt
    have hle := hr.consumed_le
    rw [hunborn] at hle
    refine ⟨?_, fun n view hop => by cases hop⟩
    simp only [ServerState.frontier, List.length_nil] at hle ⊢
    omega
  · have hconsumed := Server.consumed_exec h id fun hop hid => hadopt ⟨hop, hid⟩
    simp only [ServerState.frontier]
    refine ⟨by omega, ?_⟩
    rintro n view rfl rfl
    have hoff := le_weight (Op.offers id n) hi
    simp only [Op.offers, Op.frame?, decide_true, Bool.toNat_true] at hoff
    have hzero := hr.consumes_eq_zero hoff
    obtain ⟨hnext, -⟩ := hr.next n hoff
    have hone : stackWeight (Op.consumes id) [.consume id] = 1 := by simp [Op.consumes]
    have hnone : (Op.tryEmplace .game id n view).consumes id = 0 := rfl
    omega

/-- Away from a turn, what was to be answered is answered, or is still to be. -/
theorem Moves.handsOn {before after : List Op} (hm : Moves cfg id i op new before after)
    (hloop : op ≠ .gameLoop (cfg.laneOf id)) (h : s.server.exec cfg e op = some (t, new))
    (hp : Pool.Inv cfg.pool s.server.pool) (hown : ∀ l, s.server.Owned cfg l) :
    ((t.conns id).answered Frame.prompt ++ after.filterMap (Op.turnOf id)).Sublist
        ((s.server.conns id).answered Frame.prompt ++ before.filterMap (Op.turnOf id)) ∧
      (t.submitted id ++ after.filterMap (Op.turnOf id)).Sublist
        (s.server.submitted id ++ before.filterMap (Op.turnOf id)) ∧
      ((t.conns id).answered Frame.ofResponse ++ after.filterMap (Op.replyOf id)).Sublist
        ((s.server.conns id).answered Frame.ofResponse ++ before.filterMap (Op.replyOf id)) := by
  cases hm with
  | turn _ hop => exact absurd hop hloop
  | ahead rest hbefore hafter _ hquiet =>
    obtain ⟨h1, h2, h3⟩ := Server.handsOn h hp hown (Or.inr hquiet) hloop
    subst hbefore hafter
    have hcons : ∀ f : Op → Option ℕ,
        (op :: rest).filterMap f = (f op).toList ++ rest.filterMap f := by
      intro f
      cases hf : f op <;> simp [hf]
    simp only [hcons, List.filterMap_append, ← List.append_assoc]
    exact ⟨h1.append_right _, h2.append_right _, h3.append_right _⟩
  | other hcalm hafter =>
    obtain ⟨h1, h2, h3⟩ := Server.handsOn h hp hown (Or.inl hcalm) hloop
    obtain ⟨hturn, hreply⟩ := Op.turnOf_of_calm hcalm
    rw [hturn, Option.toList_none, List.append_nil] at h1 h2
    rw [hreply, Option.toList_none, List.append_nil] at h3
    subst hafter
    exact ⟨((List.sublist_append_left ..).trans h1).append_right _,
      ((List.sublist_append_left ..).trans h2).append_right _,
      ((List.sublist_append_left ..).trans h3).append_right _⟩

namespace InLine

theorem fresh (cfg : ServerConfig) (id : ℕ) : InLine cfg (.fresh cfg) id := by
  have hnone : ∀ m, Increasing m [] := fun m => ⟨.nil, by simp⟩
  have hasking : (Server.fresh cfg).asking cfg id = [] := rfl
  have hturning : (ServerState.fresh cfg).turning cfg id = [] := by
    rw [ServerState.turning, Laned.ahead_fresh]
    rfl
  refine ⟨.fresh cfg id, ?_, ?_, ?_⟩
  · rw [hturning]
    exact hnone _
  · rw [hturning]
    exact hnone _
  · rw [Laned.ahead_fresh]
    exact List.nil_sublist _

/-- The lane of the connection takes a turn. -/
theorem turn (hs : InLine cfg s id) (hr : Receiving s id) (ht : Traced cfg s results)
    (hi : s.threads.head i = some (.gameLoop (cfg.laneOf id)))
    (h : s.server.exec cfg e (.gameLoop (cfg.laneOf id)) = some (t, new))
    (hlaned : Laned cfg ⟨t, s.threads.exec i new⟩ id) (hidle : s.ahead cfg id = [])
    (hnew : new = ServerState.ahead cfg id ⟨t, s.threads.exec i new⟩ ++
      [.gameLoop (cfg.laneOf id)]) : InLine cfg ⟨t, s.threads.exec i new⟩ id := by
  have hfrontier := (hr.frontier_exec hi h (ht.unborn _ le_rfl)).1
  have hsent : (t.conns id).sent = (s.server.conns id).sent :=
    Server.sent_exec h (by simp) (by simp)
  have hsubmitted : t.submitted id = s.server.submitted id := by
    obtain hsub | ⟨_, _, hop, -⟩ := Server.submitted_exec h ht.pool id
    · exact hsub
    · cases hop
  have hresponded : t.responded id = s.server.responded id := by
    obtain ⟨now, draining, hpool⟩ := Server.pool_same h (by simp) (by simp)
    simp [Server.responded, hpool]
  obtain ⟨-, ops, hops, hstep⟩ | ⟨hne, -⟩ := Server.exec_game h (cfg.laneOf id)
  · obtain hahead := List.append_cancel_right (hops.symm.trans hnew)
    obtain ⟨hturn, hreply⟩ := (GameLane.turn hstep).inLine id
    have hprompt := hs.prompt
    have hsub := hs.submitted
    have hreplies := hs.replies
    simp only [ServerState.turning, hidle, List.filterMap_nil, List.append_nil] at hprompt hsub
    simp only [hidle, List.filterMap_nil, List.append_nil] at hreplies
    refine ⟨hlaned, hprompt.sublist ?_ hfrontier, hsub.sublist ?_ hfrontier, ?_⟩
    · simp only [ServerState.turning, ← hahead, Conn.answered, hsent, List.append_assoc]
      exact hturn.append_left _
    · simp only [ServerState.turning, ← hahead, hsubmitted, List.append_assoc]
      exact hturn.append_left _
    · simp only [← hahead, Conn.answered, hsent, hresponded, List.append_assoc]
      exact (hreply.append_left _).trans hreplies
  · exact absurd rfl hne

/-- Every operation keeps the answers in line. -/
theorem exec (hs : InLine cfg s id) (hr : Receiving s id) (ht : Traced cfg s results)
    (hi : s.threads.head i = some op) (h : s.server.exec cfg e op = some (t, new)) :
    InLine cfg ⟨t, s.threads.exec i new⟩ id := by
  obtain ⟨hlaned, hmoves⟩ := hs.laned.exec ht.owned hi h
  by_cases hloop : op = .gameLoop (cfg.laneOf id)
  · subst hloop
    cases hmoves with
    | turn _ _ hidle hnew => exact hs.turn hr ht hi h hlaned hidle hnew
    | ahead _ _ _ hne => exact absurd rfl hne
    | other hcalm => simp [Op.calm] at hcalm
  · obtain ⟨hle, hput⟩ := hr.frontier_exec hi h (ht.unborn _ le_rfl)
    obtain ⟨hprompt, hsub, hreply⟩ := hmoves.handsOn hloop h ht.pool ht.owned
    obtain ⟨js, hreplying, hresponded⟩ := Server.replying_exec h (ht.exec hi h).sound hloop
    have hreplies := ((hreply.append_right _).trans hs.replies).append_right js
    rw [List.append_assoc, ← hreplying, ← hresponded] at hreplies
    obtain hasking | ⟨n, view, rfl, hasking, hnew⟩ := Server.asking_exec h hloop
    · refine ⟨hlaned, hs.prompt.sublist ?_ hle, hs.submitted.sublist ?_ hle, hreplies⟩
      · rw [hasking]
        exact hprompt.append_right _
      · rw [hasking]
        exact hsub.append_right _
    · -- a frame is put into the queue : it is the next to be consumed
      obtain ⟨rfl, hnext⟩ := hput n view rfl hnew
      refine ⟨hlaned, ?_, ?_, hreplies⟩
      · rw [hnext, hasking, ← List.append_assoc]
        exact (hs.prompt.sublist (hprompt.append_right _) le_rfl).concat
      · rw [hnext, hasking, ← List.append_assoc]
        exact (hs.submitted.sublist (hsub.append_right _) le_rfl).concat

/-- So does every step. -/
theorem step {a : ServerStep} (hs : InLine cfg s id) (hr : Receiving s id)
    (ht : Traced cfg s results) (h : (serverThreads cfg).step s a = some s') :
    InLine cfg s' id := by
  obtain ⟨i, e, op, new, -, hi, hex, hth⟩ | ⟨op, -, hext, hsv, hth⟩ := ServerState.step_cases h
  · have := hs.exec hr ht hi hex
    rwa [← hth] at this
  · obtain ⟨server, threads⟩ := s'
    dsimp only at hsv hth
    subst hsv hth
    obtain ⟨hlaned, hahead⟩ := hs.laned.spawn hext
    have hzero : op.consumes id = 0 := by
      cases op <;> simp_all [Server.external, Op.consumes]
    have hfrontier : ServerState.frontier id { s with threads := s.threads.spawn [op] } =
        s.frontier id := by
      simp [ServerState.frontier, hzero]
    have hturning : ServerState.turning cfg id { s with threads := s.threads.spawn [op] } =
        s.turning cfg id := by
      rw [ServerState.turning, ServerState.turning, hahead]
    refine ⟨hlaned, ?_, ?_, ?_⟩
    · rw [hfrontier, hturning]
      exact hs.prompt
    · rw [hfrontier, hturning]
      exact hs.submitted
    · rw [hahead]
      exact hs.replies

end InLine

/-- The pool answers the requests of a connection in their order, because they have one session
key. -/
theorem responded_sublist (ht : Traced cfg s results) (hissue : Issue cfg s id) :
    (s.server.responded id).Sublist (s.server.submitted id) := by
  obtain hnone | ⟨j, hj⟩ :
      (s.server.pool.accepted.filter fun j => j.req.connId = id) = [] ∨
        ∃ j, j ∈ s.server.pool.accepted.filter fun j => j.req.connId = id := by
    cases s.server.pool.accepted.filter fun j => j.req.connId = id with
    | nil => exact Or.inl rfl
    | cons j js => exact Or.inr ⟨j, List.mem_cons_self ..⟩
  · -- nothing has been taken in
    have hnil : (s.server.pool.responded.filter fun p => p.1.req.connId = id) = [] := by
      refine List.filter_eq_nil_iff.mpr fun p hp => ?_
      exact List.filter_eq_nil_iff.mp hnone _ (ht.pool.mem_of_responded hp)
    rw [Server.responded, hnil]
    exact List.nil_sublist _
  · obtain ⟨hacc, hid⟩ := List.mem_filter.mp hj
    have hid := of_decide_eq_true hid
    have hkey : ∀ x ∈ s.server.pool.accepted, x.req.connId = id → x.key = j.key := by
      intro x hx hxid
      have hkx := (ht.jobs x hx).key
      have hkj := (ht.jobs j hacc).key
      rw [hxid] at hkx
      rw [hid] at hkj
      exact hissue.key_unique hkx hkj
    have hon : ∀ l : List (Job ℕ), (∀ x ∈ l, x ∈ s.server.pool.accepted) →
        (l.filter fun x => x.req.connId = id) =
          (onKey j.key l).filter fun x => x.req.connId = id := by
      intro l hl
      rw [onKey, List.filter_filter]
      refine List.filter_congr fun x hx => ?_
      by_cases hxid : x.req.connId = id
      · simp [hxid, hkey x (hl x hx) hxid]
      · simp [hxid]
    obtain ⟨o, -, hline⟩ := ht.pool.lines j.key
    have hresponded : s.server.responded id =
        ((s.server.pool.responded.map Prod.fst).filter fun x => x.req.connId = id).map Job.tag := by
      rw [Server.responded, List.filter_map, List.map_map]
      rfl
    rw [hresponded, Server.submitted, hon _ fun x hx => ?_, hon _ fun _ hx => hx]
    · rw [hline.accepted_eq, List.append_assoc, List.filter_append]
      exact (List.sublist_append_left ..).map _
    · obtain ⟨p, hp, rfl⟩ := List.mem_map.mp hx
      exact ht.pool.mem_of_responded hp

/-- In every run in which the receive handlers of a connection run one at a time : the Echo and Ping
answers on a connection are in the order of the frames they answer, and so are the responses of the
database, for every dispatch, batch size and outcome; none is sent twice. -/
theorem replies_in_order
    (h : (serverThreads cfg).ReachesWhen (fun s a => OneReceiver s a = true) s) :
    ((s.server.conns id).answered Frame.prompt).Pairwise (· < ·) ∧
      ((s.server.conns id).answered Frame.ofResponse).Pairwise (· < ·) := by
  have hs : OneReply cfg s id ∧ InLine cfg s id := by
    refine Machine.ReachesWhen.invariant (I := fun s => OneReply cfg s id ∧ InLine cfg s id) ?_
      (fun s a s' hs hok hstep => ?_) h
    · rintro s rfl
      exact ⟨.fresh cfg id, .fresh cfg id⟩
    · obtain ⟨results, ht⟩ := hs.1.traced
      exact ⟨hs.1.step hok hstep, hs.2.step hs.1.receiving ht hstep⟩
  obtain ⟨⟨results, ht⟩, hline⟩ := And.intro hs.1.traced hs.2
  have hprompt := hline.prompt.pairwise
  have hsubmitted := hline.submitted.pairwise
  rw [List.append_assoc] at hprompt hsubmitted
  have hreplies := hline.replies
  rw [List.append_assoc] at hreplies
  refine ⟨hprompt.sublist (List.sublist_append_left ..), ?_⟩
  exact hsubmitted.sublist ((((List.sublist_append_left ..).trans hreplies).trans
    (responded_sublist ht hs.1.issue)).trans (List.sublist_append_left ..))

/-- A connection sends two Saves and an Echo. -/
def twoSavesRun : List ServerStep :=
  adoptedRun ++ savesRun 4 1 ++ savesRun 6 1 ++
    .spawn (.arrive 1 ⟨kEchoReq, (ByteWriter.scratch.str [97]).data⟩) :: runs 8 1 ++
    .spawn (.receive 1) :: runs 9 8 ++ runs 0 12 ++ worksRun 10 14 ++ runs 0 12

/-- The Echo is answered first, and the Saves in their order. -/
theorem replies_in_order_two_saves : ∃ s : ServerState,
    (s.server.conns 1).sent.filterMap Prod.fst = [2, 0, 1] ∧
      (s.server.conns 1).answered Frame.ofResponse = [0, 1] ∧
      ((s.server.conns 1).answered Frame.ofResponse).Pairwise (· < ·) := by
  obtain ⟨s, hs, htest⟩ := (serverThreads oneWorker).exists_reachesWhen
    (fun s a => OneReceiver s a = true) (.fresh oneWorker) twoSavesRun
    (fun s => decide ((s.server.conns 1).sent.filterMap Prod.fst = [2, 0, 1] ∧
      (s.server.conns 1).answered Frame.ofResponse = [0, 1])) rfl (by decide +kernel)
  obtain ⟨hsent, hanswered⟩ := of_decide_eq_true htest
  exact ⟨s, hsent, hanswered, (replies_in_order hs).2⟩

end EchoServer
