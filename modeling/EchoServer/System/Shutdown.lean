import EchoServer.Db.QueueCounters
import EchoServer.System.DbReplies
import EchoServer.System.GameThread

/-!
# Graceful shutdown

`main.cpp` drains the database pool, the services and the send buffers before it closes the
connections, each time until the counters it samples are all zero. A lane that has swapped its
`db_inbox` out has responses that no counter shows, so a drain of the services may end before their
replies are sent (`drain_loses_reply`).

`SamplesIdle` says of a step that it takes no such sample. In the runs of these steps each stage of
the shutdown hands the replies on to the next (`Progress`), and the connections that are still open
when they are closed have got all of theirs (`drain_loses_no_reply`).
-/

namespace EchoServer

open Threads

variable {cfg : ServerConfig} {e : Env} {s s' : ServerState} {t : Server} {op : Op}
  {new : List Op} {i id : ℕ} {r : Job ℕ × Response} {st : Stage}

/-! ## Connections that go -/

/-- The connection is closed, or some thread has decided to close it. -/
def Parting (s : ServerState) (id : ℕ) : Prop :=
  Ending s id ∨ 0 < (s.server.conns id).sender.failing

/-- Who is parting stays so. -/
theorem Parting.exec (hs : Parting s id) (hi : s.threads.head i = some op)
    (h : s.server.exec cfg e op = some (t, new)) (hadopt : op = .adopt → s.server.nextId ≠ id) :
    Parting ⟨t, s.threads.exec i new⟩ id := by
  obtain hend | hfailing := hs
  · exact Or.inl (hend.exec hi h hadopt)
  · cases Server.sendPath_exec h hadopt with
    | kept hsender => exact Or.inr (by rwa [hsender])
    | locked answers f flushOk wsaOk _ hsender =>
      refine Or.inr ?_
      dsimp only
      rwa [hsender, (Sender.record_sendLocked ..).2.2]
    | stepped a _ hstep =>
      exact (Sender.failing_step hstep hfailing).imp_left fun hclosed => Or.inl hclosed
    | closed hclosed => exact Or.inl (Or.inl hclosed)

/-! ## What the samples do not show -/

/-- The operation is to send what a response of the database says to a connection of this lane. -/
def Op.repliesTo (cfg : ServerConfig) (l : ℕ) : Op → Bool
  | send k (some _) f | lockSend k (some _) f => cfg.laneOf k = l && f.ofResponse
  | _ => false

/-- The lane has taken responses out of its inbox and has not sent the replies. -/
def ServerState.holdsReplies (cfg : ServerConfig) (l : ℕ) (s : ServerState) : Bool :=
  !(s.server.game l).loop.heldReplies.isEmpty ||
    s.threads.any fun stack => stack.any (Op.repliesTo cfg l)

/-- The main thread does not sample an empty inbox of responses while the lane holds replies. -/
def SamplesIdle (cfg : ServerConfig) (s : ServerState) : ServerStep → Bool
  | .exec i _ =>
    match s.threads.head i, s.server.stage with
    | some .mainLoop, .serviceDrain (.dbInbox l :: _) _ =>
      !(s.server.game l).dbInbox.isEmpty || !s.holdsReplies cfg l
    | _, _ => true
  | .spawn _ => true

/-- A lane with an empty inbox that holds no replies has sent those of its responses. -/
theorem Located.sent_of_idle (hs : Located cfg s r)
    (hinbox : (s.server.game (cfg.laneOf r.2.connId)).dbInbox = [])
    (hidle : s.holdsReplies cfg (cfg.laneOf r.2.connId) = false) :
    replyOf r ∈ (s.server.conns r.2.connId).sent := by
  simp only [ServerState.holdsReplies, Bool.or_eq_false_iff, Bool.not_eq_false',
    List.isEmpty_iff] at hidle
  obtain hlane | ⟨stack, hstack, o, ho, hsends⟩ | hsent := hs
  · simp [GameLane.replies, hinbox, hidle.1] at hlane
  · have hrep : o.repliesTo cfg (cfg.laneOf r.2.connId) = true := by
      obtain rfl | rfl := hsends <;>
        simp [replyOf, Op.repliesTo, ofResponse_processDbResponse]
    have hany : (s.threads.any fun stack => stack.any (Op.repliesTo cfg (cfg.laneOf r.2.connId))) =
        true := List.any_eq_true.mpr ⟨stack, hstack, List.any_eq_true.mpr ⟨o, ho, hrep⟩⟩
    rw [hidle.2] at hany
    cases hany
  · exact hsent

/-! ## The stages -/

/-- The pool takes nothing in, and has worked everything off. -/
structure PoolDone (cfg : ServerConfig) (p : Pool ℕ) : Prop where
  draining : p.draining = true
  zeros : ∀ k : ℕ, k < (p.counters cfg.pool).length → (p.counters cfg.pool)[k]? = some 0

namespace PoolDone

variable {p p' : Pool ℕ}

/-- When the pool is done, its counters are zero. -/
theorem sum_eq_zero (h : PoolDone cfg p) : (p.counters cfg.pool).sum = 0 := by
  refine List.sum_eq_zero_iff.mpr fun n hn => ?_
  obtain ⟨k, hk⟩ := List.mem_iff_getElem?.mp hn
  have hzero := h.zeros k (List.getElem?_eq_some_iff.mp hk).1
  rw [hk] at hzero
  exact Option.some.inj hzero

/-- A pool that is done answers nothing more. -/
theorem step {a : PoolStep ℕ} (h : PoolDone cfg p) (hp : (workerPool ℕ cfg.pool).Reaches p)
    (hstep : (workerPool ℕ cfg.pool).step p a = some p') :
    PoolDone cfg p' ∧ p'.responded.length = p.responded.length := by
  obtain ⟨⟨hlen, hzeros⟩, hacc, hdrain⟩ := Pool.keepsZeros_step hstep h.draining
  have h' : PoolDone cfg p' := ⟨hdrain, fun k hk => hzeros k (h.zeros k (hlen ▸ hk))⟩
  have hp' := hp.step trivial hstep
  have hold := ((Pool.counted_of_reaches hp).perm_answered (Pool.inv_of_reaches hp)
    h.sum_eq_zero).length_eq
  have hnew := ((Pool.counted_of_reaches hp').perm_answered (Pool.inv_of_reaches hp')
    h'.sum_eq_zero).length_eq
  rw [List.length_map] at hold hnew
  exact ⟨h', by rw [hnew, hacc, hold]⟩

end PoolDone

/-- The connection goes, or it has been sent the reply. -/
def Answered (s : ServerState) (r : Job ℕ × Response) : Prop :=
  Parting s r.2.connId ∨ replyOf r ∈ (s.server.conns r.2.connId).sent

/-- The connection goes, or the reply is on the socket. -/
def OnSocket (s : ServerState) (r : Job ℕ × Response) : Prop :=
  Parting s r.2.connId ∨ (s.server.conns r.2.connId).Transferred (replyOf r)

/-- What the main thread may rely on when it has come to a stage without giving up. -/
def Progress (cfg : ServerConfig) (s : ServerState) : Stage → Prop
  | .running => True
  | .dbDrain i left => s.server.pool.draining = true ∧
      (left = 0 → ∀ k < i, (s.server.pool.counters cfg.pool)[k]? = some 0)
  | .serviceDrain todo left => PoolDone cfg s.server.pool ∧
      (left = 0 → ∀ r ∈ s.server.pool.responded,
        .dbInbox (cfg.laneOf r.2.connId) ∉ todo → Answered s r)
  | .flushScan todo alive => PoolDone cfg s.server.pool ∧
      ∀ r ∈ s.server.pool.responded, Answered s r ∧
        (Parting s r.2.connId ∨ r.2.connId ∈ alive ++ todo)
  | .flushCheck todo waiting => PoolDone cfg s.server.pool ∧
      ∀ r ∈ s.server.pool.responded, Answered s r ∧
        (waiting = 0 → r.2.connId ∈ todo ∨ OnSocket s r)
  | .stop _ | .stopped => PoolDone cfg s.server.pool ∧
      ∀ r ∈ s.server.pool.responded, OnSocket s r

namespace Progress

/-- A reply that was sent stays sent. -/
theorem answered_exec (hs : Replying cfg s) (hi : s.threads.head i = some op)
    (h : s.server.exec cfg e op = some (t, new)) (hr : r ∈ s.server.pool.responded)
    (hans : Answered s r) : Answered ⟨t, s.threads.exec i new⟩ r := by
  have hadopt : op = .adopt → s.server.nextId ≠ r.2.connId := fun _ => (hs.connId_lt hr).ne'
  exact hans.imp (fun hpart => hpart.exec hi h hadopt)
    fun hsent => (Server.sent_prefix_exec h hadopt).subset hsent

/-- And what is on the socket stays there. -/
theorem onSocket_exec (hs : Replying cfg s) (hi : s.threads.head i = some op)
    (h : s.server.exec cfg e op = some (t, new)) (hr : r ∈ s.server.pool.responded)
    (hsock : OnSocket s r) : OnSocket ⟨t, s.threads.exec i new⟩ r := by
  have hadopt : op = .adopt → s.server.nextId ≠ r.2.connId := fun _ => (hs.connId_lt hr).ne'
  exact hsock.imp (fun hpart => hpart.exec hi h hadopt) (Server.transferred_exec h hadopt)

/-- A pool that is done stays so, whatever the server does, and gives no more responses. -/
theorem poolDone_exec (hs : Replying cfg s) (h : s.server.exec cfg e op = some (t, new))
    (hdone : PoolDone cfg s.server.pool) :
    PoolDone cfg t.pool ∧ t.pool.responded = s.server.pool.responded := by
  obtain hsame | ⟨a, hstep⟩ := Server.exec_pool h
  · rw [hsame]
    exact ⟨hdone, rfl⟩
  · obtain ⟨hdone', hlen⟩ := hdone.step hs.pool hstep
    exact ⟨hdone', ((Server.responded_exec h).eq_of_length hlen.symm).symm⟩

/-- What the main thread relies on stays, whatever the threads do. -/
theorem exec (hp : Progress cfg s st) (hs : Replying cfg s) (hi : s.threads.head i = some op)
    (h : s.server.exec cfg e op = some (t, new)) : Progress cfg ⟨t, s.threads.exec i new⟩ st := by
  have hadopt : ∀ r ∈ s.server.pool.responded, op = .adopt → s.server.nextId ≠ r.2.connId :=
    fun r hr _ => (hs.connId_lt hr).ne'
  cases st with
  | running => trivial
  | dbDrain n left =>
    obtain ⟨hdrain, hzeros⟩ := hp
    obtain hsame | ⟨a, hstep⟩ := Server.exec_pool h
    · exact ⟨hsame ▸ hdrain, fun hleft k hk => hsame ▸ hzeros hleft k hk⟩
    · obtain ⟨⟨-, hkeep⟩, -, hdrain'⟩ := Pool.keepsZeros_step hstep hdrain
      exact ⟨hdrain', fun hleft k hk => hkeep k (hzeros hleft k hk)⟩
  | serviceDrain todo left =>
    obtain ⟨hdone, hall⟩ := hp
    obtain ⟨hdone', hsame⟩ := poolDone_exec hs h hdone
    refine ⟨hdone', fun hleft r hr hnot => ?_⟩
    rw [hsame] at hr
    exact answered_exec hs hi h hr (hall hleft r hr hnot)
  | flushScan todo alive =>
    obtain ⟨hdone, hall⟩ := hp
    obtain ⟨hdone', hsame⟩ := poolDone_exec hs h hdone
    refine ⟨hdone', fun r hr => ?_⟩
    rw [hsame] at hr
    obtain ⟨hans, hmem⟩ := hall r hr
    exact ⟨answered_exec hs hi h hr hans,
      hmem.imp_left fun hpart => hpart.exec hi h (hadopt r hr)⟩
  | flushCheck todo waiting =>
    obtain ⟨hdone, hall⟩ := hp
    obtain ⟨hdone', hsame⟩ := poolDone_exec hs h hdone
    refine ⟨hdone', fun r hr => ?_⟩
    rw [hsame] at hr
    obtain ⟨hans, hmem⟩ := hall r hr
    exact ⟨answered_exec hs hi h hr hans,
      fun hwait => (hmem hwait).imp_right (onSocket_exec hs hi h hr)⟩
  | stop todo =>
    obtain ⟨hdone, hall⟩ := hp
    obtain ⟨hdone', hsame⟩ := poolDone_exec hs h hdone
    refine ⟨hdone', fun r hr => ?_⟩
    rw [hsame] at hr
    exact onSocket_exec hs hi h hr (hall r hr)
  | stopped =>
    obtain ⟨hdone, hall⟩ := hp
    obtain ⟨hdone', hsame⟩ := poolDone_exec hs h hdone
    refine ⟨hdone', fun r hr => ?_⟩
    rw [hsame] at hr
    exact onSocket_exec hs hi h hr (hall r hr)

/-- A thread that starts changes nothing. -/
theorem spawn (hp : Progress cfg s st) (hsv : s'.server = s.server)
    (hth : s'.threads = s.threads.spawn [op]) : Progress cfg s' st := by
  have hpart : ∀ id, Parting s id → Parting s' id := by
    intro id
    rw [Parting, Parting, Ending, Ending, hsv, hth, weight_spawn]
    exact Or.imp_left (Or.imp_right fun hpos => by omega)
  have hans : ∀ r, Answered s r → Answered s' r := fun r =>
    Or.imp (hpart _) fun hsent => by rwa [hsv]
  have hsock : ∀ r, OnSocket s r → OnSocket s' r := fun r =>
    Or.imp (hpart _) fun hsent => by rwa [hsv]
  cases st with
  | running => trivial
  | dbDrain n left => simpa only [Progress, hsv] using hp
  | serviceDrain todo left =>
    simp only [Progress, hsv]
    exact ⟨hp.1, fun hleft r hr hnot => hans r (hp.2 hleft r hr hnot)⟩
  | flushScan todo alive =>
    simp only [Progress, hsv]
    exact ⟨hp.1, fun r hr => ⟨hans r (hp.2 r hr).1, (hp.2 r hr).2.imp_left (hpart _)⟩⟩
  | flushCheck todo waiting =>
    simp only [Progress, hsv]
    exact ⟨hp.1, fun r hr => ⟨hans r (hp.2 r hr).1,
      fun hwait => ((hp.2 r hr).2 hwait).imp_right (hsock r)⟩⟩
  | stop todo =>
    simp only [Progress, hsv]
    exact ⟨hp.1, fun r hr => hsock r (hp.2 r hr)⟩
  | stopped =>
    simp only [Progress, hsv]
    exact ⟨hp.1, fun r hr => hsock r (hp.2 r hr)⟩

/-- The scan of `flush_pending` starts with the connections in the table. -/
theorem flushScan_registeredIds (hs : Replying cfg s) (hdone : PoolDone cfg s.server.pool)
    (hall : ∀ r ∈ s.server.pool.responded, Answered s r) :
    Progress cfg s (.flushScan s.server.registeredIds []) := by
  refine ⟨hdone, fun r hr => ⟨hall r hr, ?_⟩⟩
  cases hclosed : (s.server.conns r.2.connId).closed with
  | true => exact Or.inl (Or.inl (Or.inl hclosed))
  | false =>
    right
    have hstarted := hs.arrived _ (hs.received_ne_nil hr)
    have hregistered : (s.server.conns r.2.connId).registered = true := by
      refine ((hs.adoption _).registered hclosed).mpr (Or.inl ?_)
      by_contra hhand
      have := ((hs.adoption _).uninstalled (by simpa using hhand)).1
      simp [hstarted] at this
    simp [Server.registeredIds, hs.connId_lt hr, hregistered]

/-- When the pool is done, the main thread may rely on it. -/
theorem serviceDrain_counters (hdone : PoolDone cfg s.server.pool) (left : ℕ) :
    Progress cfg s (.serviceDrain cfg.counters left) := by
  refine ⟨hdone, fun _ r _ hnot => absurd ?_ hnot⟩
  have hlt : cfg.laneOf r.2.connId < cfg.lanes := Nat.mod_lt _ cfg.lanes_pos
  simp [ServerConfig.counters, hlt]

/-- The queues of the database are sampled, one worker after the other. -/
theorem mainStep_dbDrain {n left : ℕ} (hst : s.server.stage = .dbDrain n left)
    (hp : Progress cfg s (.dbDrain n left))
    (htime : (s.server.mainStep cfg e).1.timedOut = false) :
    Progress cfg s (s.server.mainStep cfg e).1.stage := by
  unfold Server.mainStep at htime ⊢
  simp only [hst] at htime ⊢
  obtain ⟨hdrain, hzeros⟩ := hp
  split
  · rename_i depth hdepth
    refine ⟨hdrain, fun hleft k hk => ?_⟩
    obtain ⟨hleft, rfl⟩ := Nat.add_eq_zero_iff.mp hleft
    obtain hlt | rfl := Nat.lt_succ_iff_lt_or_eq.mp hk
    · exact hzeros hleft k hlt
    · exact hdepth
  · rename_i hnone
    rw [hnone] at htime
    dsimp only at htime
    split_ifs at htime ⊢ with hleft hmore
    · refine serviceDrain_counters ⟨hdrain, fun k hk => hzeros hleft k ?_⟩ 0
      exact hk.trans_le (List.getElem?_eq_none_iff.mp hnone)
    · exact ⟨hdrain, fun _ k hk => absurd hk (Nat.not_lt_zero k)⟩

/-- The counters of the services are sampled, one after the other. -/
theorem mainStep_serviceDrain {todo : List Counter} {left : ℕ}
    (hst : s.server.stage = .serviceDrain todo left) (hp : Progress cfg s (.serviceDrain todo left))
    (hs : Replying cfg s)
    (hok : ∀ l todo left, s.server.stage = .serviceDrain (.dbInbox l :: todo) left →
      (s.server.game l).dbInbox = [] → s.holdsReplies cfg l = false)
    (htime : (s.server.mainStep cfg e).1.timedOut = false) :
    Progress cfg s (s.server.mainStep cfg e).1.stage := by
  unfold Server.mainStep at htime ⊢
  obtain ⟨hdone, hall⟩ := hp
  cases todo with
  | cons c todo =>
    simp only [hst]
    refine ⟨hdone, fun hleft r hr hnot => ?_⟩
    obtain ⟨hleft, hsample⟩ := Nat.add_eq_zero_iff.mp hleft
    by_cases hc : c = .dbInbox (cfg.laneOf r.2.connId)
    · subst hc
      have hinbox := List.length_eq_zero_iff.mp hsample
      exact (hs.located r hr).imp Or.inl
        fun hlocated => hlocated.sent_of_idle hinbox (hok _ _ _ hst hinbox)
    · exact hall hleft r hr (by simp [Ne.symm hc, hnot])
  | nil =>
    simp only [hst] at htime ⊢
    split_ifs at htime ⊢ with hleft hmore
    · exact flushScan_registeredIds hs hdone fun r hr => hall hleft r hr (by simp)
    · exact serviceDrain_counters hdone 0

/-- The scan of `flush_pending` comes to the next connection, or is over. -/
theorem mainStep_flushScan {todo alive : List ℕ} (hst : s.server.stage = .flushScan todo alive)
    (hp : Progress cfg s (.flushScan todo alive)) :
    Progress cfg s (s.server.mainStep cfg e).1.stage := by
  unfold Server.mainStep
  simp only [hst]
  obtain ⟨hdone, hall⟩ := hp
  cases todo with
  | cons k todo =>
    refine ⟨hdone, fun r hr => ⟨(hall r hr).1, ?_⟩⟩
    obtain hpart | hmem := (hall r hr).2
    · exact Or.inl hpart
    · by_cases hk : k = r.2.connId
      · subst hk
        split_ifs with hclosed
        · exact Or.inl (Or.inl (Or.inl hclosed))
        · exact Or.inr (by simp)
      · refine Or.inr ?_
        have hmem' : r.2.connId ∈ alive ++ todo := by simpa [Ne.symm hk] using hmem
        split_ifs
        · exact hmem'
        · simp only [List.mem_append] at hmem' ⊢
          tauto
  | nil =>
    refine ⟨hdone, fun r hr => ⟨(hall r hr).1, fun _ => ?_⟩⟩
    rw [List.append_nil] at hall
    exact (hall r hr).2.symm.imp_right Or.inl

/-- What is alive is asked whether it has sent everything; if not, the scan begins anew. -/
theorem mainStep_flushCheck {todo : List ℕ} {waiting : ℕ}
    (hst : s.server.stage = .flushCheck todo waiting) (hp : Progress cfg s (.flushCheck todo waiting))
    (hs : Replying cfg s) (htime : (s.server.mainStep cfg e).1.timedOut = false) :
    Progress cfg s (s.server.mainStep cfg e).1.stage := by
  unfold Server.mainStep at htime ⊢
  obtain ⟨hdone, hall⟩ := hp
  cases todo with
  | cons k todo =>
    simp only [hst]
    refine ⟨hdone, fun r hr => ⟨(hall r hr).1, fun hwait => ?_⟩⟩
    obtain ⟨hwait, hunsent⟩ := Nat.add_eq_zero_iff.mp hwait
    obtain hmem | hsock := (hall r hr).2 hwait
    · obtain rfl | hmem := List.mem_cons.mp hmem
      · right
        by_cases hpart : Parting s r.2.connId
        · exact Or.inl hpart
        · have hsent := (hall r hr).1.resolve_left hpart
          have hopen : (s.server.conns r.2.connId).closed = false := by
            by_contra hclosed
            exact hpart (Or.inl (Or.inl (by simpa using hclosed)))
          refine Or.inr ((hs.streams _ hopen).transferred hopen ?_ (by simpa using hunsent) hsent)
          by_contra hfailing
          exact hpart (Or.inr (Nat.pos_of_ne_zero hfailing))
      · exact Or.inl hmem
    · exact Or.inr hsock
  | nil =>
    simp only [hst] at htime ⊢
    split_ifs at htime ⊢ with hwait hmore
    · exact ⟨hdone, fun r hr => ((hall r hr).2 hwait).resolve_left (by simp)⟩
    · exact flushScan_registeredIds hs hdone fun r hr => (hall r hr).1

/-- What the main thread finds out in one turn. -/
theorem mainStep (hp : Progress cfg s s.server.stage) (hs : Replying cfg s)
    (hok : ∀ l todo left, s.server.stage = .serviceDrain (.dbInbox l :: todo) left →
      (s.server.game l).dbInbox = [] → s.holdsReplies cfg l = false)
    (hrun : s.server.stage ≠ .running) (htime : (s.server.mainStep cfg e).1.timedOut = false) :
    Progress cfg s (s.server.mainStep cfg e).1.stage := by
  cases hst : s.server.stage with
  | running => exact absurd hst hrun
  | dbDrain n left => exact mainStep_dbDrain hst (hst ▸ hp) htime
  | serviceDrain todo left => exact mainStep_serviceDrain hst (hst ▸ hp) hs hok htime
  | flushScan todo alive => exact mainStep_flushScan hst (hst ▸ hp)
  | flushCheck todo waiting => exact mainStep_flushCheck hst (hst ▸ hp) hs htime
  | stop todo =>
    rw [hst] at hp
    unfold Server.mainStep
    simp only [hst]
    cases todo <;> exact hp
  | stopped =>
    unfold Server.mainStep
    simpa only [hst] using hp

end Progress

/-! ## Every run -/

namespace Server

variable {s : Server}

theorem foldl_postDbResponse_stage (rs : List (Job ℕ × Response)) :
    ∀ s : Server, (rs.foldl (postDbResponse cfg) s).stage = s.stage ∧
      (rs.foldl (postDbResponse cfg) s).timedOut = s.timedOut := by
  induction rs with
  | nil => exact fun _ => ⟨rfl, rfl⟩
  | cons r rs ih => exact fun s => ih (postDbResponse cfg s r)

/-- Only the main thread goes on with the shutdown. -/
theorem stage_exec (h : s.exec cfg e op = some (t, new)) (hop : op ≠ .mainLoop) :
    t.stage = s.stage ∧ t.timedOut = s.timedOut := by
  cases hc : op.conn? with
  | some k =>
    rw [exec_of_conn hc h]
    exact ⟨rfl, rfl⟩
  | none =>
    cases op
    all_goals
      simp only [Op.conn?, reduceCtorEq, ne_eq, not_true_eq_false] at hc hop
    case dbWork w o =>
      simp only [exec] at h
      split at h <;> cases h
      rename_i hwork
      obtain ⟨pool, -, rfl⟩ := Option.map_eq_some_iff.mp hwork
      exact foldl_postDbResponse_stage _ { s with pool }
    all_goals
      simp only [exec, submitDb, post] at h
      repeat' split at h
    all_goals cases h
    all_goals exact ⟨rfl, rfl⟩

theorem exec_mainLoop (h : s.exec cfg e .mainLoop = some (t, new)) : t = (s.mainStep cfg e).1 :=
  (Prod.mk.inj (Option.some.inj h)).1.symm

/-- A drain that has given up has done so for good. -/
theorem timedOut_mainStep (h : s.timedOut = true) : (s.mainStep cfg e).1.timedOut = true := by
  unfold mainStep
  repeat' split
  all_goals first | rfl | exact h

end Server

/-- The replies of the database, and how far the shutdown has come. -/
structure Drains (cfg : ServerConfig) (s : ServerState) : Prop where
  replying : Replying cfg s
  progress : s.server.timedOut = false → Progress cfg s s.server.stage

namespace Drains

theorem fresh (cfg : ServerConfig) : Drains cfg (.fresh cfg) :=
  ⟨.fresh cfg, fun _ => trivial⟩

/-- Every operation keeps the replies, with samples that see them. -/
theorem exec (hs : Drains cfg s) (hok : SamplesIdle cfg s (.exec i e) = true)
    (hi : s.threads.head i = some op) (h : s.server.exec cfg e op = some (t, new)) :
    Drains cfg ⟨t, s.threads.exec i new⟩ := by
  refine ⟨hs.replying.exec hi h, fun htime => ?_⟩
  by_cases hop : op = .mainLoop
  · subst hop
    have hexec := h
    by_cases hrun : s.server.stage = .running
    · -- the drain begins here
      simp only [Server.exec, Server.mainStep, hrun] at h
      split at h <;> cases h
      · exact ⟨rfl, fun _ k hk => absurd hk (Nat.not_lt_zero k)⟩
      · dsimp only
        rw [hrun]
        trivial
    · have ht := Server.exec_mainLoop h
      have hwas : s.server.timedOut = false := by
        by_contra htimed
        have hkept : t.timedOut = true := ht ▸ Server.timedOut_mainStep (by simpa using htimed)
        simp [hkept] at htime
      have hsample : ∀ l todo left, s.server.stage = .serviceDrain (.dbInbox l :: todo) left →
          (s.server.game l).dbInbox = [] → s.holdsReplies cfg l = false := by
        intro l todo left hstage hinbox
        simpa [SamplesIdle, hi, hstage, hinbox] using hok
      have hprogress : Progress cfg s t.stage := by
        rw [ht] at htime ⊢
        exact (hs.progress hwas).mainStep hs.replying hsample hrun htime
      exact hprogress.exec hs.replying hi hexec
  · obtain ⟨hstage, htimed⟩ := Server.stage_exec h hop
    dsimp only at htime ⊢
    rw [hstage]
    exact (hs.progress (htimed.symm.trans htime)).exec hs.replying hi h

/-- So does every step. -/
theorem step {a : ServerStep} (hs : Drains cfg s) (hok : SamplesIdle cfg s a = true)
    (h : (serverThreads cfg).step s a = some s') : Drains cfg s' := by
  obtain ⟨i, e, op, new, rfl, hi, hex, hth⟩ | ⟨op, rfl, hext, hsv, hth⟩ :=
    ServerState.step_cases h
  · have := hs.exec hok hi hex
    rwa [← hth] at this
  · refine ⟨hs.replying.spawn h, fun htime => ?_⟩
    rw [hsv] at htime ⊢
    exact (hs.progress htime).spawn hsv hth

end Drains

/-- The request has been answered, and the reply is on the socket of its connection. -/
def Server.HasReply (s : Server) (j : Job ℕ) : Prop :=
  ∃ res, (j, res) ∈ s.pool.responded ∧ (s.conns j.req.connId).Transferred (replyOf (j, res))

/-- When the drains have ended without giving up and the connections are being closed, the requests
that had been accepted before have got their replies, unless the connection goes already. -/
def LosesNoReply (s : ServerState) : Prop :=
  ∀ todo, s.server.stage = .stop todo → s.server.timedOut = false →
    ∀ j ∈ s.server.pool.accepted.take s.server.drainFrom, ¬ Parting s j.req.connId →
      s.server.HasReply j

/-- In every run in which no empty inbox of responses is sampled while its lane holds replies, the
shutdown loses none. -/
theorem drain_loses_no_reply
    (h : (serverThreads cfg).ReachesWhen (fun s a => SamplesIdle cfg s a = true) s) :
    LosesNoReply s := by
  have hs : Drains cfg s := by
    refine Machine.ReachesWhen.invariant (I := Drains cfg) ?_
      (fun s a s' hs hok hstep => hs.step hok hstep) h
    rintro s rfl
    exact .fresh cfg
  intro todo hstop htime j hj hopen
  have hprogress := hs.progress htime
  rw [hstop] at hprogress
  obtain ⟨hdone, hall⟩ := hprogress
  have hperm := (Pool.counted_of_reaches hs.replying.pool).perm_answered
    (Pool.inv_of_reaches hs.replying.pool) hdone.sum_eq_zero
  obtain ⟨r, hr, rfl⟩ := List.mem_map.mp (hperm.mem_iff.mpr (List.mem_of_mem_take hj))
  have hid := (hs.replying.asked hr).2
  have hsock := hall r hr
  rw [OnSocket, hid] at hsock
  exact ⟨r.2, hr, hsock.resolve_left hopen⟩

/-! ## A reply that is lost -/

deriving instance DecidableEq for Stage

/-- The kernel transfers `n` bytes of the send of connection 1, and completes it. -/
def transfersRun (thread n : ℕ) : List ServerStep :=
  [.spawn (.net 1 (.transfer 0 n)), .exec thread envOk,
    .spawn (.net 1 (.onSendDone 0 true true)), .exec (thread + 1) envOk]

/-- A Save is answered by the pool, and the session key is on the socket. -/
def savedRun : List ServerStep :=
  adoptedRun ++ savesRun 4 1 ++ runs 0 9 ++ worksRun 6 11 ++ transfersRun 17 9

/-- Connection 1 is about to be closed at the end of the shutdown, and stays open until then. -/
def aboutToStop (s : ServerState) : Bool :=
  s.server.stage = .stop [1] && !s.server.timedOut &&
    (s.server.pool.accepted.take s.server.drainFrom).map (fun j => j.req.connId) = [1] &&
    !(s.server.conns 1).closed && s.threads.weight (Op.closing 1) = 0 &&
    (s.server.conns 1).sender.failing = 0

theorem of_aboutToStop (h : aboutToStop s = true) :
    s.server.stage = .stop [1] ∧ s.server.timedOut = false ∧
      ∃ j ∈ s.server.pool.accepted.take s.server.drainFrom,
        j.req.connId = 1 ∧ ¬ Parting s j.req.connId := by
  simp only [aboutToStop, Bool.and_eq_true, decide_eq_true_eq, Bool.not_eq_true'] at h
  obtain ⟨⟨⟨⟨⟨hstop, htime⟩, hjobs⟩, hopen⟩, hclosing⟩, hfailing⟩ := h
  obtain ⟨j, hj, hid⟩ := List.mem_map.mp
    (by rw [hjobs]; exact List.mem_singleton_self 1 : 1 ∈ List.map (fun j => j.req.connId)
      (s.server.pool.accepted.take s.server.drainFrom))
  refine ⟨hstop, htime, j, hj, hid, ?_⟩
  rw [hid]
  rintro ((hclosed | hpos) | hpos)
  · simp [hopen] at hclosed
  · omega
  · omega

/-- The lane sends the reply, and the kernel transfers it, before the main thread drains. -/
theorem drain_loses_no_reply_save :
    ∃ s : ServerState, s.server.stage = .stop [1] ∧ s.server.timedOut = false ∧
      ∃ j ∈ s.server.pool.accepted.take s.server.drainFrom,
        j.req.connId = 1 ∧ s.server.HasReply j := by
  obtain ⟨s, hs, htest⟩ := (serverThreads oneWorker).exists_reachesWhen
    (fun s a => SamplesIdle oneWorker s a = true) (.fresh oneWorker)
    (savedRun ++ runs 0 6 ++ transfersRun 19 14 ++ runs 2 12) aboutToStop rfl (by decide +kernel)
  obtain ⟨hstop, htime, j, hj, hid, hopen⟩ := of_aboutToStop htest
  exact ⟨s, hstop, htime, j, hj, hid, drain_loses_no_reply hs [1] hstop htime j hj hopen⟩

/-- The lane has swapped its inbox out when the main thread samples it. -/
theorem drain_loses_reply : ¬ ∀ s, (serverThreads oneWorker).Reaches s → LosesNoReply s := by
  intro h
  obtain ⟨s, hs, htest⟩ := (serverThreads oneWorker).exists_reachesWhen (fun _ _ => True)
    (.fresh oneWorker) (savedRun ++ runs 0 3 ++ runs 2 12)
    (fun s => aboutToStop s && (s.server.conns 1).sent.all fun p => p.1 = none) rfl
    (by decide +kernel)
  obtain ⟨habout, hsent⟩ := Bool.and_eq_true_iff.mp htest
  obtain ⟨hstop, htime, j, hj, hid, hopen⟩ := of_aboutToStop habout
  obtain ⟨res, -, pre, post, hmem, -⟩ := h s hs [1] hstop htime j hj hopen
  rw [hid] at hmem
  have hnone := List.all_eq_true.mp hsent (replyOf (j, res)) (by simp [hmem])
  simp [replyOf] at hnone

end EchoServer
