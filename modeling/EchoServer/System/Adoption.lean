import EchoServer.System.Queues

/-!
# The course of an adoption

`adopt` takes a connection into the table, installs its handlers, tells each service that it is
connected and starts it, one operation after the other; the close handler tells each service that
it is gone. Each of these operations pushes the next one, so the operations still ahead of a
connection, summed over all threads as weights, say how far its adoption has come.

`Adoption` is that account for one connection : at most one thread adopts it, it gets its handlers
before it is announced and started, it is in the table while it is open, and only once it is closed
does it leave a service (`Adoption.step`).
-/

namespace EchoServer

open Threads

/-! ## Tokens -/

namespace Op

/-- The operations of `adopt` and of the close handler. -/
def lifecycle : Op → Bool
  | register _ | installHandlers _ | postConnected _ _ | start _ | erase _
  | postDisconnected _ _ => true
  | _ => false

/-- The operations that push one of these. -/
def advances : Op → Bool
  | adopt | register _ | installHandlers _ | postConnected _ _ | start _
  | postDisconnected _ _ => true
  | _ => false

/-- The connection has still to get its handlers; it is in the table if `registered`. -/
def installing (registered : Bool) (id : ℕ) : Op → ℕ
  | register k => (!registered && k = id).toNat
  | installHandlers k => (k = id : Bool).toNat
  | _ => 0

/-- A service has still to get the Connected event of the connection. -/
def connecting (service : ServiceId) (id : ℕ) : Op → ℕ
  | register k | installHandlers k | postConnected .game k => (k = id : Bool).toNat
  | postConnected .chat k => (k = id && service = .chat).toNat
  | _ => 0

/-- The connection is being adopted. -/
def adopting (id : ℕ) : Op → ℕ
  | register k | installHandlers k | postConnected _ k | start k => (k = id : Bool).toNat
  | _ => 0

/-- The connection is going to be taken out of the table. -/
def erasing (id : ℕ) : Op → ℕ
  | erase k => (k = id : Bool).toNat
  | _ => 0

/-- A service has still to get the Disconnected event of the connection. -/
def disconnecting (service : ServiceId) (id : ℕ) : Op → ℕ
  | postDisconnected .game k => (k = id : Bool).toNat
  | postDisconnected .chat k => (k = id && service = .chat).toNat
  | _ => 0

variable {op : Op}

/-- None of these weights counts another operation. -/
theorem weights_of_not_lifecycle (h : op.lifecycle = false) (id : ℕ) :
    (∀ b, op.installing b id = 0) ∧ (∀ svc, op.connecting svc id = 0) ∧ op.adopting id = 0 ∧
      op.erasing id = 0 ∧ ∀ svc, op.disconnecting svc id = 0 := by
  cases op <;>
    simp [lifecycle, installing, connecting, adopting, erasing, disconnecting] at h ⊢

/-- An operation that advances no connection is none of those still ahead of one. -/
theorem weights_of_not_advances (h : op.advances = false) (id : ℕ) :
    (∀ b, op.installing b id = 0) ∧ (∀ svc, op.connecting svc id = 0) ∧ op.adopting id = 0 ∧
      (∀ svc, op.disconnecting svc id = 0) ∧ (op = .erase id → op.erasing id = 1) := by
  cases op <;>
    simp [advances, installing, connecting, adopting, erasing, disconnecting] at h ⊢

theorem installing_le_adopting (id : ℕ) (op : Op) : op.installing false id ≤ op.adopting id := by
  cases op <;> simp [installing, adopting]

theorem installing_le_installing (id : ℕ) (op : Op) :
    op.installing true id ≤ op.installing false id := by
  cases op <;> simp [installing]

end Op

/-- The operations of `adopt` and of the close handler among some. -/
def lifecycle (ops : List Op) : List Op := ops.filter Op.lifecycle

@[simp] theorem lifecycle_nil : lifecycle [] = [] :=
  rfl

theorem lifecycle_cons (op : Op) (ops : List Op) :
    lifecycle (op :: ops) = if op.lifecycle then op :: lifecycle ops else lifecycle ops := by
  simp [lifecycle, List.filter_cons]

@[simp] theorem lifecycle_append (ops ops' : List Op) :
    lifecycle (ops ++ ops') = lifecycle ops ++ lifecycle ops' :=
  List.filter_append ..

/-- A weight that counts operations of `adopt` and of the close handler. -/
theorem stackWeight_lifecycle {w : Op → ℕ} (hw : ∀ op : Op, op.lifecycle = false → w op = 0)
    (ops : List Op) : stackWeight w ops = stackWeight w (lifecycle ops) := by
  induction ops with
  | nil => rfl
  | cons op ops ih =>
    by_cases hop : op.lifecycle = true
    · simpa [lifecycle, List.filter_cons, hop] using ih
    · simpa [lifecycle, List.filter_cons, hop, hw op (by simpa using hop)] using ih

@[simp] theorem lifecycle_sendError (id index origin : ℕ) (code : ErrorCode) (detail : String) :
    lifecycle (sendError id index origin code detail) = [] := by
  unfold sendError
  split_ifs <;> rfl

/-- What a verdict leads to has nothing to do with the beginning or the end of a connection. -/
theorem lifecycle_verdict {α : Type} (id index origin : ℕ) {next : α → List Op}
    (hnext : ∀ a, lifecycle (next a) = []) (v : Verdict α) :
    lifecycle (v.ops id index origin next) = [] := by
  cases v with
  | reply f => rfl
  | refuse code detail => exact lifecycle_sendError id index origin code detail
  | pass a => exact hnext a

@[simp] theorem GameLane.lifecycle_step (e : Env) (lane : GameLane) :
    lifecycle (lane.step e).2 = [] := by
  rcases hstep : lane.step e with ⟨lane', ops⟩
  cases GameLane.turn hstep with
  | move => rfl
  | reply index res =>
    unfold onReply
    split <;> rfl
  | event ev =>
    cases ev <;> simp only [onEvent]
    · split <;> rfl
    · rfl
    · split
      · rfl
      · exact lifecycle_verdict _ _ _ (fun _ => rfl) _

@[simp] theorem ChatLane.lifecycle_step (lane : ChatLane) : lifecycle lane.step.2 = [] := by
  rcases hstep : lane.step with ⟨lane', ops⟩
  cases ChatLane.turn hstep with
  | move => rfl
  | relay => rfl
  | event ev =>
    cases ev <;> simp only [onEvent]
    · rfl
    · rfl
    · split
      · rfl
      · exact lifecycle_verdict _ _ _ (fun _ => rfl) _

namespace Server

variable {cfg : ServerConfig} {e : Env} {s s' : Server} {op : Op} {new : List Op}

/-- The step closes connection `k` and calls its close handler. -/
def callsBack (s s' : Server) (k : ℕ) : Bool :=
  !(s.conns k).closed && (s'.conns k).closed && (s.conns k).handlers

/-- Closing has : the game service is told of the end, once the handlers are set. -/
theorem lifecycle_onClose (k : ℕ) (c : Conn) (sender : Sender) :
    lifecycle (onClose k c sender) =
      if !c.closed && sender.closed && c.handlers then [.postDisconnected .game k] else [] := by
  unfold onClose
  split_ifs <;> rfl

/-- An operation that does not advance a connection pushes none of these operations, except
that it calls the close handler of a connection it closes. -/
theorem exec_lifecycle (h : s.exec cfg e op = some (s', new)) (hop : op.advances = false) :
    lifecycle new = match op.conn? with
      | some k => if callsBack s s' k then [.postDisconnected .game k] else []
      | none => [] := by
  cases op with
  | gameLoop l =>
    simp only [exec] at h
    cases h
    simp [lifecycle_cons, Op.lifecycle, Op.conn?]
  | chatLoop =>
    simp only [exec] at h
    cases h
    simp [lifecycle_cons, Op.lifecycle, Op.conn?]
  | mainLoop =>
    simp only [exec, mainStep] at h
    repeat' split at h
    all_goals cases h
    all_goals rfl
  | lockSend k answers f =>
    simp only [exec, lockSend] at h
    split at h
    · cases h
      simp [Op.conn?, callsBack, updConn, lifecycle_onClose, Conn.closed]
    · rename_i hfull
      cases h
      simp [Op.conn?, callsBack, updConn, lifecycle_cons, Op.lifecycle, Conn.closed,
        Sender.sendLocked, hfull]
  | _ =>
    simp only [Op.advances, Bool.true_eq_false] at hop
    all_goals
      simp only [exec, setSender, submitDb] at h
      repeat' split at h
    all_goals cases h
    all_goals
      simp [Op.conn?, callsBack, updConn, lifecycle_cons, Op.lifecycle, lifecycle_onClose,
        Conn.closed]
/-- A closed connection stays closed. -/
theorem closed_exec (h : s.exec cfg e op = some (s', new)) (hadopt : op ≠ .adopt) (id : ℕ)
    (hclosed : (s.conns id).closed = true) : (s'.conns id).closed = true := by
  cases hc : op.conn? with
  | none => rwa [conns_of_not_conn hc hadopt h]
  | some k =>
    by_cases hk : id = k
    · subst hk
      cases op
      all_goals
        simp only [Op.conn?, Option.some.injEq, reduceCtorEq] at hc
      all_goals subst hc
      case lockSend answers f =>
        have := Sender.closed_sendLocked hclosed cfg.send f e.flushOk e.wsaOk
        simp only [exec, lockSend] at h
        split at h <;> cases h <;> simpa [updConn, Conn.closed] using this
      case net a =>
        simp only [exec, setSender] at h
        repeat' split at h
        all_goals cases h
        all_goals
          rename_i hstep
          simpa [updConn, Conn.closed] using Sender.closed_step hclosed hstep
      all_goals
        simp only [exec, setSender] at h
        repeat' split at h
      all_goals cases h
      all_goals simp_all [updConn, Conn.closed]
    · rw [exec_of_conn hc h]
      simpa [updConn, hk] using hclosed

/-- Only `adopt` and its operations change what is known of a connection's adoption, and only
an erasure takes a connection out of the table. -/
theorem exec_adoption (h : s.exec cfg e op = some (s', new)) (hop : op.advances = false) (id : ℕ) :
    s'.nextId = s.nextId ∧ (s'.conns id).handlers = (s.conns id).handlers ∧
      (s'.conns id).started = (s.conns id).started ∧
      ((s'.conns id).registered = (s.conns id).registered ∨
        (op = .erase id ∨ (s.conns id).closed = true) ∧ (s'.conns id).registered = false) := by
  cases hc : op.conn? with
  | none =>
    have hadopt : op ≠ .adopt := by
      rintro rfl
      simp [Op.advances] at hop
    rw [conns_of_not_conn hc hadopt h]
    refine ⟨?_, rfl, rfl, Or.inl rfl⟩
    cases op
    all_goals
      simp only [Op.conn?, Op.advances, reduceCtorEq, Bool.true_eq_false] at hc hop
    case mainLoop =>
      cases h
      exact mainStep_same.2.1
    case dbWork i o =>
      simp only [exec] at h
      split at h <;> cases h
      rename_i hwork
      exact (dbWork_same hwork).2.1
    all_goals
      simp only [exec, submitDb, post] at h
      repeat' split at h
    all_goals cases h
    all_goals rfl
  | some k =>
    have hs := exec_of_conn hc h
    refine ⟨by rw [hs]; rfl, ?_⟩
    by_cases hk : id = k
    · subst hk
      cases op
      all_goals
        simp only [Op.conn?, Op.advances, Option.some.injEq, reduceCtorEq, Bool.true_eq_false]
          at hc hop
      all_goals subst hc
      case reclaim =>
        simp only [exec] at h
        split at h <;> cases h
        rename_i hclosed
        simp only [Bool.or_eq_true, Bool.not_eq_true', not_or, Bool.not_eq_false] at hclosed
        simp [updConn, hclosed.2]
      all_goals
        simp only [exec, lockSend, setSender] at h
        repeat' split at h
      all_goals cases h
      all_goals simp [updConn]
    · rw [hs]
      simp [updConn, hk]

/-- Only `adopt` takes an id. -/
theorem nextId_exec (h : s.exec cfg e op = some (s', new)) (hadopt : op ≠ .adopt) :
    s'.nextId = s.nextId := by
  cases hop : op.advances with
  | false => exact (exec_adoption h hop 0).1
  | true =>
    cases op with
    | adopt => exact absurd rfl hadopt
    | postConnected svc k => cases svc <;> cases h <;> rfl
    | postDisconnected svc k => cases svc <;> cases h <;> rfl
    | _ =>
      simp only [Op.advances, Bool.false_eq_true] at hop
      all_goals
        simp only [exec, setSender] at h
        repeat' split at h
      all_goals cases h
      all_goals rfl

end Server

/-! ## The account of a connection -/

/-- How far the adoption of a connection has come, and its end. -/
structure Adoption (s : ServerState) (id : ℕ) : Prop where
  once : s.threads.weight (Op.adopting id) ≤ 1
  unborn : s.server.nextId ≤ id → (s.server.conns id).handlers = false ∧
    s.threads.weight (Op.adopting id) = 0 ∧ s.threads.weight (Op.erasing id) = 0
  /-- The connection has its handlers. -/
  installed : (s.server.conns id).handlers = true → s.threads.weight (Op.installing false id) = 0
  uninstalled : (s.server.conns id).handlers = false → (s.server.conns id).started = false ∧
    s.threads.weight (Op.adopting id) = s.threads.weight (Op.installing false id) ∧
    ∀ svc, s.threads.weight (Op.disconnecting svc id) = 0
  started : (s.server.conns id).started = true → s.threads.weight (Op.adopting id) = 0
  erasing : 0 < s.threads.weight (Op.erasing id) → (s.server.conns id).closed = true
  /-- An open connection is in the table, once it is adopted or about to get its handlers. -/
  registered : (s.server.conns id).closed = false →
    ((s.server.conns id).registered = true ↔
      (s.server.conns id).handlers = true ∨ 0 < s.threads.weight (Op.installing true id))
  /-- Only a closed connection leaves a service, and it leaves once. -/
  leaving : ∀ svc, s.threads.weight (Op.disconnecting svc id) ≤ (s.server.conns id).closed.toNat

namespace Adoption

variable {cfg : ServerConfig} {e : Env} {s : ServerState} {t : Server} {op : Op} {new : List Op}
  {i id : ℕ}

/-- The handlers are not set while they are still to be set. -/
theorem handlers_eq_false (hs : Adoption s id) (hi : s.threads.head i = some op)
    (hop : op.installing false id ≠ 0) : (s.server.conns id).handlers = false := by
  by_contra hhand
  have hle := le_weight (Op.installing false id) hi
  have := hs.installed (by simpa using hhand)
  omega

/-- The handlers are set before the connection is announced and started. -/
theorem handlers_eq_true (hs : Adoption s id) (hi : s.threads.head i = some op)
    (hop : op.installing false id < op.adopting id) : (s.server.conns id).handlers = true := by
  by_contra hhand
  have hins := weight_exec (Op.installing false id) hi []
  have hone := weight_exec (Op.adopting id) hi []
  have hle := weight_mono (Op.installing_le_adopting id) (s.threads.exec i [])
  have := (hs.uninstalled (by simpa using hhand)).2.1
  simp only [stackWeight_nil] at hins hone
  omega

/-- The close handler runs for a closed connection. -/
theorem closed_of_postDisconnected (hs : Adoption s id) {svc : ServiceId}
    (hi : s.threads.head i = some (.postDisconnected svc id)) :
    (s.server.conns id).closed = true := by
  by_contra hopen
  have hle := le_weight (Op.disconnecting svc id) hi
  have := hs.leaving svc
  rw [Bool.eq_false_of_not_eq_true hopen] at this
  cases svc <;> simp [Op.disconnecting] at hle this <;> omega

/-- What an operation that advances no connection pushes of these operations. -/
theorem stackWeight_of_not_advances {s : Server} (h : s.exec cfg e op = some (t, new))
    (hop : op.advances = false) (id : ℕ) :
    (∀ b, stackWeight (Op.installing b id) new = 0) ∧
      (∀ svc, stackWeight (Op.connecting svc id) new = 0) ∧
      stackWeight (Op.adopting id) new = 0 ∧ stackWeight (Op.erasing id) new = 0 ∧
      ∀ svc, stackWeight (Op.disconnecting svc id) new =
        (op.conn? = some id && s.callsBack t id).toNat := by
  have hpush := Server.exec_lifecycle h hop
  have hnone : ∀ w : Op → ℕ, (∀ op : Op, op.lifecycle = false → w op = 0) →
      (∀ k, w (.postDisconnected .game k) = 0) → stackWeight w new = 0 := by
    intro w hw hpost
    rw [stackWeight_lifecycle hw, hpush]
    split
    · split_ifs <;> simp [hpost]
    · rfl
  refine ⟨fun b => hnone _ (fun op hop => (Op.weights_of_not_lifecycle hop id).1 b) fun _ => rfl,
    fun svc => hnone _ (fun op hop => (Op.weights_of_not_lifecycle hop id).2.1 svc) fun _ => rfl,
    hnone _ (fun op hop => (Op.weights_of_not_lifecycle hop id).2.2.1) fun _ => rfl,
    hnone _ (fun op hop => (Op.weights_of_not_lifecycle hop id).2.2.2.1) fun _ => rfl,
    fun svc => ?_⟩
  rw [stackWeight_lifecycle fun op hop => (Op.weights_of_not_lifecycle hop id).2.2.2.2 svc, hpush]
  split
  · rename_i k hk
    rcases eq_or_ne k id with rfl | hne
    · split_ifs with hcall <;> simp [Op.disconnecting, hk, hcall]
    · split_ifs <;> simp [Op.disconnecting, hk, hne]
  · rename_i hk
    simp [hk]

/-- An operation that advances no connection keeps the course of every one. -/
theorem exec_idle (hs : Adoption s id) (hi : s.threads.head i = some op)
    (h : s.server.exec cfg e op = some (t, new)) (hop : op.advances = false) :
    Adoption ⟨t, s.threads.exec i new⟩ id := by
  have hadopt : op ≠ .adopt := by
    rintro rfl
    simp [Op.advances] at hop
  obtain ⟨hnext, hhand, hstart, hreg'⟩ := Server.exec_adoption h hop id
  have hclosed := Server.closed_exec h hadopt id
  obtain ⟨hins0, -, hone0, hdis0, hera0⟩ := Op.weights_of_not_advances hop id
  have hnone := stackWeight_of_not_advances h hop id
  have hone := weight_exec (Op.adopting id) hi new
  have hins := fun b => weight_exec (Op.installing b id) hi new
  have hera := weight_exec (Op.erasing id) hi new
  have hdis := fun svc => weight_exec (Op.disconnecting svc id) hi new
  have hera_le := le_weight (Op.erasing id) hi
  obtain ⟨hnins, -, hnone, hnera, hndis⟩ := hnone
  simp only [hins0, hnins, Nat.add_zero] at hins
  simp only [hone0, hnone, Nat.add_zero] at hone
  simp only [hnera, Nat.add_zero] at hera
  simp only [hdis0, hndis, Nat.add_zero, Server.callsBack] at hdis
  obtain ⟨h1, h2, h3, h4, h5, h6, h7, h8⟩ := hs
  have hleft : ∀ svc, (s.threads.exec i new).weight (Op.disconnecting svc id) ≤
      (t.conns id).closed.toNat := by
    intro svc
    have h8 := h8 svc
    have hdis := hdis svc
    cases hc : (s.server.conns id).closed <;> cases hc' : (t.conns id).closed <;>
      simp_all [Bool.toNat_le]
  constructor <;> simp <;> grind

/-- How the operations ahead change when thread `i` executes one. -/
theorem weights_exec (hi : s.threads.head i = some op) (new : List Op) (id : ℕ) :
    (s.threads.exec i new).weight (Op.adopting id) + op.adopting id =
        s.threads.weight (Op.adopting id) + stackWeight (Op.adopting id) new ∧
      (s.threads.exec i new).weight (Op.installing false id) + op.installing false id =
        s.threads.weight (Op.installing false id) + stackWeight (Op.installing false id) new ∧
      (s.threads.exec i new).weight (Op.installing true id) + op.installing true id =
        s.threads.weight (Op.installing true id) + stackWeight (Op.installing true id) new ∧
      (s.threads.exec i new).weight (Op.erasing id) + op.erasing id =
        s.threads.weight (Op.erasing id) + stackWeight (Op.erasing id) new ∧
      ∀ svc, (s.threads.exec i new).weight (Op.disconnecting svc id) + op.disconnecting svc id =
        s.threads.weight (Op.disconnecting svc id) + stackWeight (Op.disconnecting svc id) new :=
  ⟨weight_exec _ hi new, weight_exec _ hi new, weight_exec _ hi new, weight_exec _ hi new,
    fun _ => weight_exec _ hi new⟩

/-- The course of a connection is in its own state and in the operations ahead on it. -/
theorem congr {s' : ServerState} (hs : Adoption s id)
    (hnext : s'.server.nextId ≤ id → s.server.nextId ≤ id)
    (hconn : s'.server.conns id = s.server.conns id)
    (hone : s'.threads.weight (Op.adopting id) = s.threads.weight (Op.adopting id))
    (hins : s'.threads.weight (Op.installing false id) = s.threads.weight (Op.installing false id))
    (hreg : s'.threads.weight (Op.installing true id) = s.threads.weight (Op.installing true id))
    (hera : s'.threads.weight (Op.erasing id) = s.threads.weight (Op.erasing id))
    (hdis : ∀ svc, s'.threads.weight (Op.disconnecting svc id) =
      s.threads.weight (Op.disconnecting svc id)) : Adoption s' id where
  once := by rw [hone]; exact hs.once
  unborn h := by rw [hconn, hone, hera]; exact hs.unborn (hnext h)
  installed := by rw [hconn, hins]; exact hs.installed
  uninstalled := by simp only [hconn, hone, hins, hdis]; exact hs.uninstalled
  started := by rw [hconn, hone]; exact hs.started
  erasing := by rw [hconn, hera]; exact hs.erasing
  registered := by rw [hconn, hreg]; exact hs.registered
  leaving := by simp only [hconn, hdis]; exact hs.leaving

/-- `adopt` begins with the next id. -/
theorem exec_adopt (hs : Adoption s id) (hi : s.threads.head i = some .adopt)
    (h : s.server.exec cfg e .adopt = some (t, new)) : Adoption ⟨t, s.threads.exec i new⟩ id := by
  cases h
  obtain ⟨hone, hins, hreg, hera, hdis⟩ := weights_exec hi [.register s.server.nextId] id
  simp [Op.adopting, Op.installing, Op.erasing, Op.disconnecting] at hone hins hreg hera hdis
  by_cases hid : s.server.nextId = id
  · subst hid
    obtain ⟨hhand, hone', hera'⟩ := hs.unborn le_rfl
    obtain ⟨-, hins', hdis'⟩ := hs.uninstalled hhand
    have hmono := weight_mono (Op.installing_le_installing s.server.nextId) s.threads
    simp only [decide_true, Bool.toNat_true] at hone hins
    constructor
    all_goals
      simp [Server.updConn, Conn.fresh, Conn.closed, Sender.fresh, hdis, hdis', hera, hera']
      try omega
  · exact hs.congr (fun hle => by simp at hle; omega) (by simp [Server.updConn, Ne.symm hid])
      (by simpa [hid] using hone) (by simpa [hid] using hins) hreg hera hdis

/-- The connection enters the table. -/
theorem exec_register {k : ℕ} (hs : Adoption s id) (hi : s.threads.head i = some (.register k))
    (h : s.server.exec cfg e (.register k) = some (t, new)) :
    Adoption ⟨t, s.threads.exec i new⟩ id := by
  obtain ⟨hone, hins, hreg, hera, hdis⟩ := weights_exec hi new id
  have hno := hs.handlers_eq_false hi
  have hle := le_weight (Op.adopting id) hi
  simp only [Server.exec] at h
  repeat' split at h
  all_goals cases h
  all_goals
    simp [Op.adopting, Op.installing, Op.erasing, Op.disconnecting]
      at hone hins hreg hera hdis hno hle
  all_goals by_cases hid : k = id
  · subst hid
    obtain ⟨h1, h2, h3, h4, h5, h6, h7, h8⟩ := hs
    simp only [Conn.closed] at h6 h7 h8
    constructor <;> simp only [Server.updConn, Function.update_self, Conn.closed] <;> grind
  · exact hs.congr (fun hle => hle) (by simp [Server.updConn, Ne.symm hid])
      (by simpa [hid] using hone) (by simpa [hid] using hins) (by simpa [hid] using hreg) hera hdis
  · subst hid
    have hmono := weight_mono (Op.installing_le_installing k) s.threads
    obtain ⟨h1, h2, h3, h4, h5, h6, h7, h8⟩ := hs
    constructor <;> grind
  · exact hs.congr (fun hle => hle) rfl (by simpa [hid] using hone) (by simpa [hid] using hins)
      hreg hera hdis

/-- Its handlers are set. -/
theorem exec_installHandlers {k : ℕ} (hs : Adoption s id)
    (hi : s.threads.head i = some (.installHandlers k))
    (h : s.server.exec cfg e (.installHandlers k) = some (t, new)) :
    Adoption ⟨t, s.threads.exec i new⟩ id := by
  obtain ⟨hone, hins, hreg, hera, hdis⟩ := weights_exec hi new id
  have hno := hs.handlers_eq_false hi
  have hle := le_weight (Op.adopting id) hi
  cases h
  simp [Op.adopting, Op.installing, Op.erasing, Op.disconnecting]
    at hone hins hreg hera hdis hno hle
  by_cases hid : k = id
  · subst hid
    obtain ⟨h1, h2, h3, h4, h5, h6, h7, h8⟩ := hs
    simp only [Conn.closed] at h6 h7 h8
    constructor <;> simp [Server.updConn, Conn.closed] <;> grind
  · exact hs.congr (fun hle => hle) (by simp [Server.updConn, Ne.symm hid]) hone
      (by simpa [hid] using hins) (by simpa [hid] using hreg) hera hdis

/-- Its beginning is posted to a service. -/
theorem exec_postConnected {svc : ServiceId} {k : ℕ} (hs : Adoption s id)
    (hi : s.threads.head i = some (.postConnected svc k))
    (h : s.server.exec cfg e (.postConnected svc k) = some (t, new)) :
    Adoption ⟨t, s.threads.exec i new⟩ id := by
  obtain ⟨hone, hins, hreg, hera, hdis⟩ := weights_exec hi new id
  have hsame : t.conns = s.server.conns ∧ t.nextId = s.server.nextId := by
    cases svc <;> cases h <;> exact ⟨rfl, rfl⟩
  have hnew : new = [.postConnected .chat k] ∨ new = [.start k] := by
    cases svc <;> cases h <;> simp
  have hcount : stackWeight (Op.adopting id) new = (k = id : Bool).toNat ∧
      stackWeight (Op.installing false id) new = 0 ∧
      stackWeight (Op.installing true id) new = 0 ∧ stackWeight (Op.erasing id) new = 0 ∧
      ∀ svc, stackWeight (Op.disconnecting svc id) new = 0 := by
    rcases hnew with rfl | rfl <;>
      simp [Op.adopting, Op.installing, Op.erasing, Op.disconnecting]
  obtain ⟨c1, c2, c3, c4, c5⟩ := hcount
  simp only [c1, c2, c3, c4, c5, Op.adopting, Op.installing, Op.erasing, Op.disconnecting,
    Nat.add_zero, Nat.add_right_cancel_iff] at hone hins hreg hera hdis
  exact hs.congr (fun hle => by rwa [hsame.2] at hle) (by rw [hsame.1]) hone hins hreg hera hdis

/-- So is its end. -/
theorem exec_postDisconnected {svc : ServiceId} {k : ℕ} (hs : Adoption s id)
    (hi : s.threads.head i = some (.postDisconnected svc k))
    (h : s.server.exec cfg e (.postDisconnected svc k) = some (t, new)) :
    Adoption ⟨t, s.threads.exec i new⟩ id := by
  obtain ⟨hone, hins, hreg, hera, hdis⟩ := weights_exec hi new id
  have hconn : t.conns = s.server.conns := by cases svc <;> cases h <;> rfl
  have hnext : t.nextId = s.server.nextId := by cases svc <;> cases h <;> rfl
  have hless : ∀ svc', (s.threads.exec i new).weight (Op.disconnecting svc' id) ≤
      s.threads.weight (Op.disconnecting svc' id) := by
    intro svc'
    have := hdis svc'
    cases svc <;> cases h <;> cases svc' <;> simp [Op.disconnecting] at this ⊢ <;> omega
  have hcount : stackWeight (Op.adopting id) new = 0 ∧
      stackWeight (Op.installing false id) new = 0 ∧
      stackWeight (Op.installing true id) new = 0 ∧ stackWeight (Op.erasing id) new = 0 := by
    cases svc <;> cases h <;> simp [Op.adopting, Op.installing, Op.erasing]
  obtain ⟨c1, c2, c3, c4⟩ := hcount
  simp only [c1, c2, c3, c4, Op.adopting, Op.installing, Op.erasing, Nat.add_zero]
    at hone hins hreg hera
  refine ⟨?_, ?_, ?_, ?_, ?_, ?_, ?_, fun svc' => ?_⟩
  all_goals simp only [hconn, hnext, hone, hins, hreg, hera]
  · exact hs.once
  · exact hs.unborn
  · exact hs.installed
  · intro hhand
    obtain ⟨hst, heq, hzero⟩ := hs.uninstalled hhand
    exact ⟨hst, heq, fun svc' => Nat.le_zero.mp (hzero svc' ▸ hless svc')⟩
  · exact hs.started
  · exact hs.erasing
  · exact hs.registered
  · exact (hless svc').trans (hs.leaving svc')

/-- Its first receive is posted. -/
theorem exec_start {k : ℕ} (hs : Adoption s id) (hi : s.threads.head i = some (.start k))
    (h : s.server.exec cfg e (.start k) = some (t, new)) :
    Adoption ⟨t, s.threads.exec i new⟩ id := by
  obtain ⟨hone, hins, hreg, hera, hdis⟩ := weights_exec hi new id
  have hyes := hs.handlers_eq_true hi
  have hle := le_weight (Op.adopting id) hi
  simp only [Server.exec, Server.setSender, Server.onClose] at h
  repeat' split at h
  all_goals cases h
  all_goals
    simp [Op.adopting, Op.installing, Op.erasing, Op.disconnecting]
      at hone hins hreg hera hdis hle hyes
  all_goals by_cases hid : k = id
  all_goals first
    | exact hs.congr (fun hle => hle) (by simp [Server.updConn, Ne.symm hid])
        (by simpa [hid] using hone) hins hreg (by simpa [hid] using hera)
        (by simpa [hid] using hdis)
    | subst hid
      obtain ⟨h1, h2, h3, h4, h5, h6, h7, h8⟩ := hs
      simp only [Conn.closed] at h6 h7 h8
      constructor <;> simp [Server.updConn, Conn.closed] <;> grind [Conn.closed]

/-- Every operation keeps track of the adoption. -/
theorem exec (hs : Adoption s id) (hi : s.threads.head i = some op)
    (h : s.server.exec cfg e op = some (t, new)) : Adoption ⟨t, s.threads.exec i new⟩ id := by
  cases hop : op.advances with
  | false => exact hs.exec_idle hi h hop
  | true =>
    cases op with
    | adopt => exact hs.exec_adopt hi h
    | register k => exact hs.exec_register hi h
    | installHandlers k => exact hs.exec_installHandlers hi h
    | postConnected svc k => exact hs.exec_postConnected hi h
    | postDisconnected svc k => exact hs.exec_postDisconnected hi h
    | start k => exact hs.exec_start hi h
    | _ => simp [Op.advances] at hop

/-- The first threads only have the loops ahead of them. -/
theorem weight_fresh (cfg : ServerConfig) {w : Op → ℕ} (hg : ∀ l, w (.gameLoop l) = 0)
    (hc : w .chatLoop = 0) (hm : w .mainLoop = 0) :
    weight w (ServerState.fresh cfg).threads = 0 := by
  simp [ServerState.fresh, weight, hg, hc, hm, List.map_map, Function.comp_def]

/-- No connection has been adopted. -/
theorem fresh (cfg : ServerConfig) (id : ℕ) : Adoption (.fresh cfg) id := by
  have hone := weight_fresh cfg (w := Op.adopting id) (fun _ => rfl) rfl rfl
  have hins := fun b => weight_fresh cfg (w := Op.installing b id) (fun _ => rfl) rfl rfl
  have hera := weight_fresh cfg (w := Op.erasing id) (fun _ => rfl) rfl rfl
  have hdis := fun svc => weight_fresh cfg (w := Op.disconnecting svc id) (fun _ => rfl) rfl rfl
  constructor <;> simp [hone, hins, hera, hdis] <;>
    simp [ServerState.fresh, Server.fresh, Conn.fresh]

/-- Any step keeps the course of every connection. -/
theorem step {s s' : ServerState} {a : ServerStep} (hs : Adoption s id)
    (h : (serverThreads cfg).step s a = some s') : Adoption s' id := by
  obtain ⟨i, e, op, new, -, hi, hex, hth⟩ | ⟨op, -, hext, hsv, hth⟩ := ServerState.step_cases h
  · have := hs.exec hi hex
    rwa [← hth] at this
  · have hzero : op.lifecycle = false := by
      cases op <;> simp_all [Server.external, Op.lifecycle]
    obtain ⟨hins, -, hone, hera, hdis⟩ := Op.weights_of_not_lifecycle hzero id
    obtain ⟨h1, h2, h3, h4, h5, h6, h7, h8⟩ := hs
    constructor <;> simpa [hsv, hth, hins, hone, hera, hdis]

end Adoption

end EchoServer
