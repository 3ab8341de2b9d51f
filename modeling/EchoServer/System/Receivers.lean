import EchoServer.System.Pushes

/-!
# The receive handler of a connection

A receive handler takes the frames of its connection one by one : it offers the next one to the
router, consumes it when the router has dealt with it, and stops at one that the router cannot take
yet. The handlers of a connection run one at a time, because the next receive is posted at the end
of a handler (`OneReceiver`).

`Receiving` is what follows for the frames : the one that is offered is the next to be consumed, and
it is consumed once (`Receiving.step`).
-/

namespace EchoServer

open Threads

variable {cfg : ServerConfig} {e : Env} {s s' : ServerState} {t : Server} {op : Op}
  {new : List Op} {i id : ℕ}

namespace Op

/-- A receive handler of the connection has this operation ahead. -/
def handles (id : ℕ) : Op → ℕ
  | receive k | drainFrames k | onMessage k _ _ | postMessage k _ _ | tryEmplace _ k _ _
  | consume k | endReceive k => (k = id : Bool).toNat
  | _ => 0

/-- The frame that is offered to the router, as its connection and its place. -/
def frame? : Op → Option (ℕ × ℕ)
  | onMessage k n _ | postMessage k n _ | tryEmplace _ k n _ => some (k, n)
  | _ => none

/-- This frame is offered. -/
def offers (id n : ℕ) (op : Op) : ℕ := (op.frame? = some (id, n) : Bool).toNat

/-- A frame of the connection is consumed. -/
def consumes (id : ℕ) : Op → ℕ
  | consume k => (k = id : Bool).toNat
  | _ => 0

/-- What does not receive consumes no frame. -/
theorem weights_of_not_receiving (h : op.receiving = false) (id n : ℕ) :
    op.handles id = 0 ∧ op.offers id n = 0 ∧ op.consumes id = 0 := by
  cases op <;> simp [receiving, handles, offers, frame?, consumes] at h ⊢

/-- A handler that offers a frame is not consuming one. -/
theorem offers_add_consumes_le (id n : ℕ) (op : Op) :
    op.offers id n + op.consumes id ≤ op.handles id := by
  cases op with
  | onMessage k m | postMessage k m | tryEmplace _ k m =>
    by_cases hk : k = id <;> simp [offers, frame?, consumes, handles, hk, Bool.toNat_le]
  | _ => simp [offers, frame?, consumes, handles]

end Op

theorem stackWeight_sendError {w : Op → ℕ} (hsend : ∀ id answers f, w (.send id answers f) = 0)
    (hclose : ∀ id, w (.close id) = 0) (k index origin : ℕ) (code : ErrorCode) (detail : String) :
    stackWeight w (sendError k index origin code detail) = 0 := by
  refine stackWeight_eq_zero fun o ho => ?_
  obtain rfl | rfl := mem_sendError ho
  · exact hsend ..
  · exact hclose _

/-- An error that is sent is no part of a receive handler. -/
theorem weights_sendError (id n k index origin : ℕ) (code : ErrorCode) (detail : String) :
    stackWeight (Op.handles id) (sendError k index origin code detail) = 0 ∧
      stackWeight (Op.offers id n) (sendError k index origin code detail) = 0 ∧
      stackWeight (Op.consumes id) (sendError k index origin code detail) = 0 :=
  ⟨stackWeight_sendError (fun _ _ _ => rfl) (fun _ => rfl) ..,
    stackWeight_sendError (fun _ _ _ => rfl) (fun _ => rfl) ..,
    stackWeight_sendError (fun _ _ _ => rfl) (fun _ => rfl) ..⟩

/-- A turn of the lane does not receive. -/
theorem GameLane.receiving_turn {lane lane' : GameLane} {ops : List Op}
    (h : Turn e lane lane' ops) (hop : op ∈ ops) : op.receiving = false := by
  obtain ⟨_, _, _, rfl⟩ | ⟨_, rfl⟩ | ⟨_, _, rfl⟩ | ⟨_, rfl⟩ := h.mem_ops hop <;> rfl

/-- Nor does the chat service. -/
theorem ChatLane.receiving_turn {lane lane' : ChatLane} {ops : List Op}
    (h : Turn lane lane' ops) (hop : op ∈ ops) : op.receiving = false := by
  obtain ⟨_, _, _, rfl⟩ | ⟨_, rfl⟩ | ⟨_, _, _, _, rfl⟩ := h.mem_ops hop <;> rfl

namespace Server

variable {s : Server}

/-- Only a receive handler goes on as one. -/
theorem receiving_exec (h : s.exec cfg e op = some (t, new)) (hop : op.receiving = false) :
    ∀ o ∈ new, o.receiving = false := by
  intro o ho
  cases expandsTo_exec h ho with
  | game l mem => exact GameLane.receiving_turn (GameLane.turn rfl) mem
  | chat mem => exact ChatLane.receiving_turn (ChatLane.turn rfl) mem
  | again => exact hop
  | bare hbare => cases o <;> simp_all [Op.bare, Op.receiving]
  | handler id hreceiving => simp [hop] at hreceiving
  | offer | pass | route => simp [Op.receiving] at hop
  | refuse | refuseDb | lock | member | members => rfl

/-- What a receive handler goes on with is one operation. -/
theorem handles_exec (h : s.exec cfg e op = some (t, new)) (id : ℕ) :
    stackWeight (Op.handles id) new ≤ op.handles id := by
  cases hop : op.receiving with
  | false =>
    have hnone : stackWeight (Op.handles id) new = 0 := stackWeight_eq_zero fun o ho =>
      (Op.weights_of_not_receiving (receiving_exec h hop o ho) id 0).1
    rw [hnone]
    exact Nat.zero_le _
  | true =>
    cases op
    all_goals
      simp only [Op.receiving, Bool.false_eq_true] at hop
    all_goals
      simp only [exec] at h
      repeat' split at h
    all_goals cases h
    all_goals simp [Op.handles, stackWeight_append, (weights_sendError id 0 _ _ _ _ _).1]

/-- A frame that is offered is so still, or is the next one. -/
theorem offers_exec (h : s.exec cfg e op = some (t, new)) (id n : ℕ) :
    stackWeight (Op.offers id n) new ≤ op.offers id n ∨
      op.consumes id = 0 ∧ stackWeight (Op.offers id n) new ≤ 1 ∧
        n = (s.conns id).consumed ∧ n < (s.conns id).received.length := by
  cases hop : op.receiving with
  | false =>
    have hnone : stackWeight (Op.offers id n) new = 0 := stackWeight_eq_zero fun o ho =>
      (Op.weights_of_not_receiving (receiving_exec h hop o ho) id n).2.1
    rw [hnone]
    exact Or.inl (Nat.zero_le _)
  | true =>
    cases op
    all_goals
      simp only [Op.receiving, Bool.false_eq_true] at hop
    case drainFrames k =>
      simp only [exec] at h
      split at h <;> cases h
      · exact Or.inl (by simp [Op.offers, Op.frame?])
      · rename_i view hview
        by_cases hk : k = id ∧ (t.conns k).consumed = n
        · obtain ⟨rfl, rfl⟩ := hk
          refine Or.inr ⟨rfl, ?_, rfl, (List.getElem?_eq_some_iff.mp hview).1⟩
          simp [Op.offers, Op.frame?]
        · exact Or.inl (by simp [Op.offers, Op.frame?, hk])
    all_goals
      simp only [exec] at h
      repeat' split at h
    all_goals cases h
    all_goals
      refine Or.inl ?_
      simp [Op.offers, Op.frame?, stackWeight_append, (weights_sendError id n _ _ _ _ _).2.1]

/-- A frame is consumed when it has been offered. -/
theorem consumes_exec (h : s.exec cfg e op = some (t, new)) (id : ℕ) :
    stackWeight (Op.consumes id) new ≤ 1 ∧
      (0 < stackWeight (Op.consumes id) new → ∃ n, op.frame? = some (id, n)) := by
  cases hop : op.receiving with
  | false =>
    have hnone : stackWeight (Op.consumes id) new = 0 := stackWeight_eq_zero fun o ho =>
      (Op.weights_of_not_receiving (receiving_exec h hop o ho) id 0).2.2
    simp [hnone]
  | true =>
    cases op
    all_goals
      simp only [Op.receiving, Bool.false_eq_true] at hop
    all_goals
      simp only [exec] at h
      repeat' split at h
    all_goals cases h
    all_goals
      simp [Op.consumes, Op.frame?, stackWeight_append, (weights_sendError id 0 _ _ _ _ _).2.2,
        Bool.toNat_le, Nat.pos_iff_ne_zero]

/-- Only the operation that consumes a frame does. -/
theorem consumed_exec (h : s.exec cfg e op = some (t, new)) (id : ℕ)
    (hadopt : op = .adopt → s.nextId ≠ id) :
    (t.conns id).consumed = (s.conns id).consumed + op.consumes id := by
  cases hc : op.conn? with
  | none =>
    cases op
    case adopt =>
      cases h
      simp [updConn, Op.consumes, Ne.symm (hadopt rfl)]
    all_goals
      rw [conns_of_not_conn hc (by simp) h]
      simp only [Op.conn?, reduceCtorEq] at hc
    all_goals rfl
  | some k =>
    by_cases hk : id = k
    · subst hk
      cases op
      all_goals
        simp only [Op.conn?, Option.some.injEq, reduceCtorEq] at hc
      all_goals subst hc
      all_goals
        simp only [exec, lockSend, setSender] at h
        repeat' split at h
      all_goals cases h
      all_goals simp [updConn, Op.consumes]
    · rw [exec_of_conn hc h]
      cases op
      all_goals
        simp only [Op.conn?, Option.some.injEq, reduceCtorEq] at hc
      all_goals simp [updConn, Op.consumes, hk]
      all_goals exact fun hid => hk (hid.symm.trans hc)

/-- A connection that is started stays so. -/
theorem started_exec (h : s.exec cfg e op = some (t, new)) (id : ℕ)
    (hadopt : op = .adopt → s.nextId ≠ id) (hstarted : (s.conns id).started = true) :
    (t.conns id).started = true := by
  cases hop : op.advances with
  | false => rw [(exec_adoption h hop id).2.2.1, hstarted]
  | true =>
    cases op with
    | adopt =>
      cases h
      simpa [updConn, Ne.symm (hadopt rfl)] using hstarted
    | postConnected svc k => cases svc <;> cases h <;> exact hstarted
    | postDisconnected svc k => cases svc <;> cases h <;> exact hstarted
    | register k | installHandlers k | start k =>
      simp only [exec, setSender] at h
      repeat' split at h
      all_goals cases h
      all_goals by_cases hk : id = k <;> simp_all [updConn]
    | _ => simp [Op.advances] at hop

end Server

/-- A connection that has received a frame is started. -/
def Arrived (s : ServerState) (id : ℕ) : Prop :=
  (s.server.conns id).received ≠ [] → (s.server.conns id).started = true

namespace Arrived

theorem fresh (cfg : ServerConfig) (id : ℕ) : Arrived (.fresh cfg) id :=
  fun h => absurd rfl h

theorem exec (hs : Arrived s id) (h : s.server.exec cfg e op = some (t, new)) :
    Arrived ⟨t, s.threads.exec i new⟩ id := by
  intro hne
  by_cases hadopt : op = .adopt ∧ s.server.nextId = id
  · obtain ⟨rfl, rfl⟩ := hadopt
    cases h
    simp [Server.updConn, Conn.fresh] at hne
  replace hadopt : op = .adopt → s.server.nextId ≠ id := fun hop hid => hadopt ⟨hop, hid⟩
  refine Server.started_exec h id hadopt ?_
  obtain heq | ⟨view, rfl, -⟩ := Server.received_exec h id hadopt
  · exact hs (heq ▸ hne)
  · simp only [Server.exec] at h
    split at h
    · assumption
    · cases h

theorem step {a : ServerStep} (hs : Arrived s id) (h : (serverThreads cfg).step s a = some s') :
    Arrived s' id := by
  obtain ⟨i, e, op, new, -, -, hex, hth⟩ | ⟨op, -, -, hsv, hth⟩ := ServerState.step_cases h
  · have := hs.exec (i := i) hex
    rwa [← hth] at this
  · simpa only [Arrived, hsv] using hs

end Arrived

/-! ## One handler at a time -/

/-- A receive handler of a connection starts when no other one is running. -/
def OneReceiver (s : ServerState) : ServerStep → Bool
  | .spawn (.receive id) => s.threads.weight (Op.handles id) = 0
  | _ => true

/-- The frames of a connection and its receive handlers. -/
structure Receiving (s : ServerState) (id : ℕ) : Prop where
  one : s.threads.weight (Op.handles id) ≤ 1
  /-- The frame that is offered is the next to be consumed. -/
  next : ∀ n, 0 < s.threads.weight (Op.offers id n) →
    n = (s.server.conns id).consumed ∧ n < (s.server.conns id).received.length
  consumed_le : (s.server.conns id).consumed + s.threads.weight (Op.consumes id) ≤
    (s.server.conns id).received.length

namespace Receiving

theorem fresh (cfg : ServerConfig) (id : ℕ) : Receiving (.fresh cfg) id := by
  have hone := Adoption.weight_fresh cfg (w := Op.handles id) (fun _ => rfl) rfl rfl
  have hoff := fun n => Adoption.weight_fresh cfg (w := Op.offers id n) (fun _ => rfl) rfl rfl
  have hcon := Adoption.weight_fresh cfg (w := Op.consumes id) (fun _ => rfl) rfl rfl
  refine ⟨by simp [hone], by simp [hoff], ?_⟩
  rw [hcon]
  exact Nat.zero_le _

/-- No frame is being consumed while one is offered. -/
theorem consumes_eq_zero (hs : Receiving s id) {n : ℕ} (hn : 0 < s.threads.weight (Op.offers id n)) :
    s.threads.weight (Op.consumes id) = 0 := by
  have hsum := weight_add (Op.offers id n) (Op.consumes id) s.threads
  have hle := weight_mono (Op.offers_add_consumes_le id n) s.threads
  have hone := hs.one
  omega

/-- A new connection has received nothing. -/
theorem exec_adopt (hs : Receiving s id) (hi : s.threads.head i = some .adopt)
    (h : s.server.exec cfg e .adopt = some (t, new)) (hid : s.server.nextId = id)
    (hunborn : (s.server.conns id).received = []) : Receiving ⟨t, s.threads.exec i new⟩ id := by
  have hone := weight_exec (Op.handles id) hi new
  have hoff := fun n => weight_exec (Op.offers id n) hi new
  have hcon := weight_exec (Op.consumes id) hi new
  obtain ⟨h1, h2, h3⟩ := hs
  rw [hunborn] at h2 h3
  simp only [List.length_nil, Nat.not_lt_zero, and_false] at h2 h3
  subst hid
  cases h
  simp [Op.handles, Op.offers, Op.frame?, Op.consumes] at hone hoff hcon
  refine ⟨by dsimp only; omega, fun n hn => ?_, ?_⟩
  · rw [hoff] at hn
    exact (h2 n hn).elim
  · simp [Server.updConn, Conn.fresh]
    omega

/-- Every operation keeps the frames and their handlers. -/
theorem exec (hs : Receiving s id) (hi : s.threads.head i = some op)
    (h : s.server.exec cfg e op = some (t, new))
    (hunborn : (s.server.conns s.server.nextId).received = []) :
    Receiving ⟨t, s.threads.exec i new⟩ id := by
  by_cases hadopt : op = .adopt ∧ s.server.nextId = id
  · obtain ⟨rfl, rfl⟩ := hadopt
    exact hs.exec_adopt hi h rfl hunborn
  replace hadopt : op = .adopt → s.server.nextId ≠ id := fun hop hid => hadopt ⟨hop, hid⟩
  have hconsumed := Server.consumed_exec h id hadopt
  have hone := weight_exec (Op.handles id) hi new
  have hcon := weight_exec (Op.consumes id) hi new
  have hle_con := le_weight (Op.consumes id) hi
  have hlen : (s.server.conns id).received.length ≤ (t.conns id).received.length := by
    obtain heq | ⟨view, -, heq⟩ := Server.received_exec h id hadopt <;> simp [heq]
  refine ⟨?_, fun n hn => ?_, ?_⟩
  · have := Server.handles_exec h id
    have := hs.one
    dsimp only
    omega
  · have hoff := weight_exec (Op.offers id n) hi new
    obtain hle | ⟨hzero, -, hnext, hlt⟩ := Server.offers_exec h id n
    · have hpos : 0 < s.threads.weight (Op.offers id n) := by
        dsimp only at hn
        omega
      obtain ⟨hnext, hlt⟩ := hs.next n hpos
      have hzero := hs.consumes_eq_zero hpos
      dsimp only
      omega
    · dsimp only
      omega
  · obtain ⟨hle, hframe⟩ := Server.consumes_exec h id
    have hold := hs.consumed_le
    by_cases hnew : 0 < stackWeight (Op.consumes id) new
    · obtain ⟨n, hn⟩ := hframe hnew
      have hpos : 0 < s.threads.weight (Op.offers id n) := by
        have := le_weight (Op.offers id n) hi
        simp [Op.offers, hn] at this
        omega
      have hzero := hs.consumes_eq_zero hpos
      have hnext := hs.next n hpos
      dsimp only
      omega
    · dsimp only
      omega

/-- So does every step, with one receiver at a time. -/
theorem step {a : ServerStep} (hs : Receiving s id) (hok : OneReceiver s a = true)
    (hunborn : (s.server.conns s.server.nextId).received = [])
    (h : (serverThreads cfg).step s a = some s') : Receiving s' id := by
  obtain ⟨i, e, op, new, -, hi, hex, hth⟩ | ⟨op, rfl, hext, hsv, hth⟩ := ServerState.step_cases h
  · have := hs.exec hi hex hunborn
    rwa [← hth] at this
  · obtain ⟨server, threads⟩ := s'
    dsimp only at hsv hth
    subst hsv hth
    obtain ⟨hone, hnext, hconsumed⟩ := hs
    cases op with
    | receive k =>
      have hnone := of_decide_eq_true hok
      refine ⟨?_, by simpa [Op.offers, Op.frame?] using hnext,
        by simpa [Op.consumes] using hconsumed⟩
      by_cases hk : k = id
      · subst hk
        simp [hnone, Op.handles]
      · simpa [Op.handles, hk] using hone
    | _ =>
      simp only [Server.external, Bool.false_eq_true] at hext
      all_goals exact ⟨by simpa [Op.handles] using hone,
        by simpa [Op.offers, Op.frame?] using hnext, by simpa [Op.consumes] using hconsumed⟩

end Receiving

end EchoServer
