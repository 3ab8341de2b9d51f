import EchoServer.System.Adoption

/-!
# Who the services know

The game service keeps a session and the chat service a member for each connection. `adopt`
and the close handler tell them of its beginning and its end, each the game service first, from
threads that nothing orders. `Server.settles` looks past what is queued.

For an open connection nothing can go wrong : a service will know it exactly if its Connected
event has been posted (`Entry`). A close that overtakes `adopt` leaves an entry behind that
nothing removes (`ghost_member_reachable`). When no step is out of order (`Ordered`), a closed
connection is known only while its end is still to be posted (`Exit`), and at rest the two
services know the adopted connections that are not closed (`tables_exact_of_ordered`).
-/

namespace EchoServer

open Threads

variable {cfg : ServerConfig} {e : Env} {s s' : ServerState} {t : Server} {op : Op}
  {new : List Op} {i id : ℕ}

theorem Op.connecting_le_adopting (svc : ServiceId) (id : ℕ) (op : Op) :
    op.connecting svc id ≤ op.adopting id := by
  cases op with
  | postConnected svc' k =>
    cases svc' <;> by_cases hk : k = id <;> simp [connecting, adopting, hk, Bool.toNat_le]
  | _ => simp [connecting, adopting]

/-- Only `adopt` and the close handler change what a service will know. -/
theorem Server.settles_of_not_advances {s : Server} (h : s.exec cfg e op = some (t, new))
    (hop : op.advances = false) (id : ℕ) (svc : ServiceId) :
    t.settles cfg id svc = s.settles cfg id svc := by
  rw [exec_settles id svc h]
  cases op <;> first | rfl | simp [Op.advances] at hop

/-! ## Open connections -/

/-- A service will know an open connection exactly if its beginning has been posted. -/
structure Entry (cfg : ServerConfig) (s : ServerState) (id : ℕ) : Prop where
  unborn : s.server.nextId ≤ id → ∀ svc, s.server.settles cfg id svc = false
  known : (s.server.conns id).closed = false → ∀ svc, s.server.settles cfg id svc = true ↔
    (s.server.conns id).handlers = true ∧ s.threads.weight (Op.connecting svc id) = 0

namespace Entry

/-- What a service will know is in its queue and in the operations ahead. -/
theorem congr (hs : Entry cfg s id) (hnext : s'.server.nextId ≤ id → s.server.nextId ≤ id)
    (hclosed : (s'.server.conns id).closed = false → (s.server.conns id).closed = false)
    (hhand : (s'.server.conns id).handlers = (s.server.conns id).handlers)
    (hset : ∀ svc, s'.server.settles cfg id svc = s.server.settles cfg id svc)
    (hcon : ∀ svc, s'.threads.weight (Op.connecting svc id) =
      s.threads.weight (Op.connecting svc id)) : Entry cfg s' id where
  unborn h svc := by rw [hset]; exact hs.unborn (hnext h) svc
  known h svc := by rw [hset, hhand, hcon]; exact hs.known (hclosed h) svc

/-- `adopt` posts nothing yet. -/
theorem exec_adopt (hs : Entry cfg s id) (hi : s.threads.head i = some .adopt)
    (h : s.server.exec cfg e .adopt = some (t, new)) : Entry cfg ⟨t, s.threads.exec i new⟩ id := by
  have hcon := fun svc => weight_exec (Op.connecting svc id) hi new
  have hset := fun svc => Server.exec_settles id svc h
  cases h
  by_cases hid : s.server.nextId = id
  · subst hid
    refine ⟨fun hle => absurd hle (by simp), fun _ svc => ?_⟩
    rw [hset svc, hs.unborn le_rfl svc]
    simp [Server.updConn, Conn.fresh]
  · refine hs.congr (fun hle => by simp at hle; omega) ?_ ?_ hset ?_
    · simp [Server.updConn, Ne.symm hid]
    · simp [Server.updConn, Ne.symm hid]
    · simpa [Op.connecting, hid] using hcon

/-- Nor does entering the table. -/
theorem exec_register {k : ℕ} (hs : Entry cfg s id) (ha : Adoption s id)
    (hi : s.threads.head i = some (.register k))
    (h : s.server.exec cfg e (.register k) = some (t, new)) :
    Entry cfg ⟨t, s.threads.exec i new⟩ id := by
  have hcon := fun svc => weight_exec (Op.connecting svc id) hi new
  have hset := fun svc => Server.exec_settles id svc h
  have hno := ha.handlers_eq_false hi
  simp only [Server.exec] at h
  repeat' split at h
  all_goals cases h
  · refine hs.congr (fun hle => hle) ?_ ?_ hset (by simpa [Op.connecting] using hcon)
    · by_cases hid : id = k <;> simp [Server.updConn, hid, Conn.closed]
    · by_cases hid : id = k <;> simp [Server.updConn, hid]
  · by_cases hid : k = id
    · subst hid
      have hnone : (s.server.conns k).handlers = false := hno (by simp [Op.installing])
      refine ⟨fun hle svc => (hset svc).trans (hs.unborn hle svc), fun hopen svc => ?_⟩
      rw [hset svc, hs.known hopen svc]
      simp [hnone]
    · refine hs.congr (fun hle => hle) (fun hopen => hopen) rfl hset ?_
      simpa [Op.connecting, hid] using hcon

/-- Nor setting the handlers. -/
theorem exec_installHandlers {k : ℕ} (hs : Entry cfg s id) (ha : Adoption s id)
    (hi : s.threads.head i = some (.installHandlers k))
    (h : s.server.exec cfg e (.installHandlers k) = some (t, new)) :
    Entry cfg ⟨t, s.threads.exec i new⟩ id := by
  have hcon := fun svc => weight_exec (Op.connecting svc id) hi new
  have hle := fun svc => le_weight (Op.connecting svc id) hi
  have hset := fun svc => Server.exec_settles id svc h
  have hno := ha.handlers_eq_false hi
  cases h
  replace hcon : ∀ svc, _ = _ := fun svc => by simpa [Op.connecting] using hcon svc
  by_cases hid : k = id
  · subst hid
    have hnone : (s.server.conns k).handlers = false := hno (by simp [Op.installing])
    refine ⟨fun hle svc => (hset svc).trans (hs.unborn hle svc), fun hopen svc => ?_⟩
    have hfalse := hs.known (by simpa [Server.updConn, Conn.closed] using hopen) svc
    have hpos := hle svc
    rw [hset svc, hfalse, hcon svc]
    simp [Op.connecting] at hpos
    simp [hnone]
    omega
  · refine hs.congr (fun hle => hle) ?_ ?_ hset hcon
    · simp [Server.updConn, Ne.symm hid]
    · simp [Server.updConn, Ne.symm hid]

/-- A service will know the connection once its beginning is posted. -/
theorem exec_postConnected {svc : ServiceId} {k : ℕ} (hs : Entry cfg s id) (ha : Adoption s id)
    (hi : s.threads.head i = some (.postConnected svc k))
    (h : s.server.exec cfg e (.postConnected svc k) = some (t, new)) :
    Entry cfg ⟨t, s.threads.exec i new⟩ id := by
  have hcon := fun svc => weight_exec (Op.connecting svc id) hi new
  have hset := fun svc => Server.exec_settles id svc h
  have hyes := ha.handlers_eq_true hi
  have hconn : t.conns = s.server.conns := by cases svc <;> cases h <;> rfl
  have hnext : t.nextId = s.server.nextId := by cases svc <;> cases h <;> rfl
  by_cases hid : k = id
  · subst hid
    have hhand : (s.server.conns k).handlers = true := hyes (by simp [Op.installing, Op.adopting])
    have hborn : ¬ s.server.nextId ≤ k := fun hle => by
      have := (ha.unborn hle).1
      simp [hhand] at this
    refine ⟨fun hle => absurd (hnext ▸ hle) hborn, fun hopen svc' => ?_⟩
    have hknown := hs.known (by rwa [hconn] at hopen) svc'
    have hmono := weight_mono (Op.connecting_le_adopting svc' k) s.threads
    have honce := ha.once
    have hcon := hcon svc'
    simp only [hconn, hset svc', hhand, true_and, Bool.or_eq_true, hknown]
    cases svc <;> cases h <;> cases svc' <;> simp [Op.connecting] at hcon ⊢ <;> omega
  · refine hs.congr (fun hle => hnext ▸ hle) (by simp [hconn]) (by simp [hconn]) ?_ ?_
    · intro svc'
      rw [hset svc']
      simp [hid]
    · intro svc'
      have hcon := hcon svc'
      cases svc <;> cases h <;> simpa [Op.connecting, hid] using hcon

/-- Its end is posted only once it is closed. -/
theorem exec_postDisconnected {svc : ServiceId} {k : ℕ} (hs : Entry cfg s id) (ha : Adoption s id)
    (hi : s.threads.head i = some (.postDisconnected svc k))
    (h : s.server.exec cfg e (.postDisconnected svc k) = some (t, new)) :
    Entry cfg ⟨t, s.threads.exec i new⟩ id := by
  have hcon := fun svc => weight_exec (Op.connecting svc id) hi new
  have hset := fun svc => Server.exec_settles id svc h
  have hconn : t.conns = s.server.conns := by cases svc <;> cases h <;> rfl
  have hnext : t.nextId = s.server.nextId := by cases svc <;> cases h <;> rfl
  by_cases hid : k = id
  · subst hid
    have hclosed := ha.closed_of_postDisconnected hi
    refine ⟨fun hle svc' => ?_, fun hopen => ?_⟩
    · rw [hset svc', hs.unborn (hnext ▸ hle) svc']
      exact Bool.false_and _
    · rw [hconn, hclosed] at hopen
      cases hopen
  · refine hs.congr (fun hle => hnext ▸ hle) (by simp [hconn]) (by simp [hconn]) ?_ ?_
    · intro svc'
      rw [hset svc']
      simp [hid]
    · intro svc'
      have hcon := hcon svc'
      cases svc <;> cases h <;> simpa [Op.connecting] using hcon

/-- Starting posts nothing. -/
theorem exec_start {k : ℕ} (hs : Entry cfg s id) (hi : s.threads.head i = some (.start k))
    (h : s.server.exec cfg e (.start k) = some (t, new)) :
    Entry cfg ⟨t, s.threads.exec i new⟩ id := by
  have hcon := fun svc => weight_exec (Op.connecting svc id) hi new
  have hset := fun svc => Server.exec_settles id svc h
  have hclosed := Server.closed_exec h (by simp) id
  simp only [Server.exec, Server.setSender, Server.onClose] at h
  repeat' split at h
  all_goals cases h
  all_goals
    refine hs.congr (fun hle => hle) ?_ ?_ hset (by simpa [Op.connecting] using hcon)
  all_goals by_cases hid : id = k <;> simp_all [Server.updConn, Conn.closed]

/-- Every operation keeps what the services will know of an open connection. -/
theorem exec (hs : Entry cfg s id) (ha : Adoption s id) (hi : s.threads.head i = some op)
    (h : s.server.exec cfg e op = some (t, new)) : Entry cfg ⟨t, s.threads.exec i new⟩ id := by
  cases hop : op.advances with
  | false =>
    have hadopt : op ≠ .adopt := by
      rintro rfl
      simp [Op.advances] at hop
    obtain ⟨hnext, hhand, -, -⟩ := Server.exec_adoption h hop id
    have hclosed := Server.closed_exec h hadopt id
    have hcon := fun svc => weight_exec (Op.connecting svc id) hi new
    have hhead := (Op.weights_of_not_advances hop id).2.1
    have hnone := (Adoption.stackWeight_of_not_advances h hop id).2.1
    simp only [hhead, hnone, Nat.add_zero] at hcon
    refine hs.congr (fun hle => hnext ▸ hle) (fun hopen => ?_) hhand
      (Server.settles_of_not_advances h hop id) hcon
    by_contra hc
    simp [hclosed (by simpa using hc)] at hopen
  | true =>
    cases op with
    | adopt => exact hs.exec_adopt hi h
    | register k => exact hs.exec_register ha hi h
    | installHandlers k => exact hs.exec_installHandlers ha hi h
    | postConnected svc k => exact hs.exec_postConnected ha hi h
    | postDisconnected svc k => exact hs.exec_postDisconnected ha hi h
    | start k => exact hs.exec_start hi h
    | _ => simp [Op.advances] at hop

theorem fresh (cfg : ServerConfig) (id : ℕ) : Entry cfg (.fresh cfg) id := by
  have hsettles : ∀ svc, (ServerState.fresh cfg).server.settles cfg id svc = false := by
    intro svc
    cases svc <;> rfl
  refine ⟨fun _ => hsettles, fun _ svc => ?_⟩
  rw [hsettles]
  simp [ServerState.fresh, Server.fresh, Conn.fresh]

theorem step {a : ServerStep} (hs : Entry cfg s id) (ha : Adoption s id)
    (h : (serverThreads cfg).step s a = some s') : Entry cfg s' id := by
  obtain ⟨i, e, op, new, -, hi, hex, hth⟩ | ⟨op, -, hext, hsv, hth⟩ := ServerState.step_cases h
  · have := hs.exec ha hi hex
    rwa [← hth] at this
  · have hzero : op.lifecycle = false := by
      cases op <;> simp_all [Server.external, Op.lifecycle]
    have hcon := (Op.weights_of_not_lifecycle hzero id).2.1
    exact ⟨by simpa [hsv] using hs.unborn, by simpa [hsv, hth, hcon] using hs.known⟩

end Entry

/-! ## Closed connections -/

/-- The operation that closes a connection is one on it. -/
theorem Server.conn_of_closes {s : Server} (h : s.exec cfg e op = some (t, new))
    (hadopt : op ≠ .adopt) (hwas : (s.conns id).closed = false)
    (hnow : (t.conns id).closed = true) : op.conn? = some id := by
  cases hc : op.conn? with
  | none =>
    rw [conns_of_not_conn hc hadopt h, hwas] at hnow
    cases hnow
  | some k =>
    by_cases hk : id = k
    · rw [hk]
    · rw [exec_of_conn hc h] at hnow
      simp [updConn, hk, hwas] at hnow

/-- Whether an operation closes a connection that has no handlers yet. -/
def Server.closesEarly (cfg : ServerConfig) (e : Env) (s : Server) (op : Op) : Bool :=
  match op.conn?, s.exec cfg e op with
  | some id, some (t, _) =>
    !(s.conns id).closed && (t.conns id).closed && !(s.conns id).handlers
  | _, _ => false

/-- The end of a connection is posted to a service after its beginning. -/
def Op.inOrder (threads : Threads Op) : Op → Bool
  | postDisconnected svc id => threads.weight (Op.connecting svc id) = 0
  | _ => true

/-- A step that closes no connection before its handlers are set, and notifies no service of
the end of a connection before its beginning. -/
def Ordered (cfg : ServerConfig) (s : ServerState) : ServerStep → Bool
  | .exec i e =>
    match s.threads.head i with
    | some op => !s.server.closesEarly cfg e op && op.inOrder s.threads
    | none => true
  | .spawn _ => true

/-- A service will know a closed connection only if its end is still to be posted. -/
structure Exit (cfg : ServerConfig) (s : ServerState) (id : ℕ) : Prop where
  handlers : (s.server.conns id).closed = true → (s.server.conns id).handlers = true
  known : (s.server.conns id).closed = true → ∀ svc, s.server.settles cfg id svc = true ↔
    s.threads.weight (Op.connecting svc id) = 0 ∧ 0 < s.threads.weight (Op.disconnecting svc id)
  posted : (s.server.conns id).closed = true → ∀ svc,
    s.threads.weight (Op.disconnecting svc id) = 0 → s.threads.weight (Op.connecting svc id) = 0

namespace Exit

theorem fresh (cfg : ServerConfig) (id : ℕ) : Exit cfg (.fresh cfg) id := by
  have hopen : ((ServerState.fresh cfg).server.conns id).closed = false := rfl
  constructor <;> simp [hopen]

/-- An open connection has not left. -/
theorem of_open (h : (s.server.conns id).closed = false) : Exit cfg s id := by
  constructor <;> simp [h]

/-- The end depends on the close, the handlers and the queues only. -/
theorem congr (hs : Exit cfg s id)
    (hclosed : (s'.server.conns id).closed = (s.server.conns id).closed)
    (hhand : (s'.server.conns id).handlers = (s.server.conns id).handlers)
    (hset : ∀ svc, s'.server.settles cfg id svc = s.server.settles cfg id svc)
    (hcon : ∀ svc, s'.threads.weight (Op.connecting svc id) =
      s.threads.weight (Op.connecting svc id))
    (hdis : ∀ svc, s'.threads.weight (Op.disconnecting svc id) =
      s.threads.weight (Op.disconnecting svc id)) : Exit cfg s' id where
  handlers := by rw [hclosed, hhand]; exact hs.handlers
  known := by simp only [hclosed, hset, hcon, hdis]; exact hs.known
  posted := by simp only [hclosed, hcon, hdis]; exact hs.posted

/-- A connection with handlers, known to the services exactly if they have been told, is
closed and its close handler called. -/
theorem of_closes (hhand : (s.server.conns id).handlers = true)
    (hset : ∀ svc, s.server.settles cfg id svc = true ↔
      s.threads.weight (Op.connecting svc id) = 0)
    (hdis : ∀ svc, s.threads.weight (Op.disconnecting svc id) = 1) : Exit cfg s id where
  handlers _ := hhand
  known _ svc := by rw [hset svc, hdis svc]; simp
  posted _ svc h := by rw [hdis svc] at h; cases h

theorem exec_register {k : ℕ} (hs : Exit cfg s id) (ha : Adoption s id)
    (hi : s.threads.head i = some (.register k))
    (h : s.server.exec cfg e (.register k) = some (t, new)) :
    Exit cfg ⟨t, s.threads.exec i new⟩ id := by
  have hcon := fun svc => weight_exec (Op.connecting svc id) hi new
  have hdis := fun svc => weight_exec (Op.disconnecting svc id) hi new
  have hset := fun svc => Server.exec_settles id svc h
  have hno := ha.handlers_eq_false hi
  simp only [Server.exec] at h
  repeat' split at h
  all_goals cases h
  · refine hs.congr ?_ ?_ hset (by simpa [Op.connecting] using hcon)
      (by simpa [Op.disconnecting] using hdis)
    · by_cases hid : id = k <;> simp [Server.updConn, hid, Conn.closed]
    · by_cases hid : id = k <;> simp [Server.updConn, hid]
  · by_cases hid : k = id
    · subst hid
      have hnone : (s.server.conns k).handlers = false := hno (by simp [Op.installing])
      refine of_open ?_
      by_contra hc
      simp [hs.handlers (by simpa using hc)] at hnone
    · exact hs.congr rfl rfl hset (by simpa [Op.connecting, hid] using hcon)
        (by simpa [Op.disconnecting] using hdis)

theorem exec_installHandlers {k : ℕ} (hs : Exit cfg s id) (ha : Adoption s id)
    (hi : s.threads.head i = some (.installHandlers k))
    (h : s.server.exec cfg e (.installHandlers k) = some (t, new)) :
    Exit cfg ⟨t, s.threads.exec i new⟩ id := by
  have hcon := fun svc => weight_exec (Op.connecting svc id) hi new
  have hdis := fun svc => weight_exec (Op.disconnecting svc id) hi new
  have hset := fun svc => Server.exec_settles id svc h
  have hno := ha.handlers_eq_false hi
  cases h
  by_cases hid : k = id
  · subst hid
    have hnone : (s.server.conns k).handlers = false := hno (by simp [Op.installing])
    refine of_open ?_
    by_contra hc
    have hwas : (s.server.conns k).closed = true := by
      simpa [Server.updConn, Conn.closed] using hc
    simp [hs.handlers hwas] at hnone
  · refine hs.congr ?_ ?_ hset (by simpa [Op.connecting, hid] using hcon)
      (by simpa [Op.disconnecting] using hdis)
    · simp [Server.updConn, Ne.symm hid]
    · simp [Server.updConn, Ne.symm hid]

/-- A closed connection whose beginning is posted still has its end to be posted. -/
theorem exec_postConnected {svc : ServiceId} {k : ℕ} (hs : Exit cfg s id) (ha : Adoption s id)
    (hi : s.threads.head i = some (.postConnected svc k))
    (h : s.server.exec cfg e (.postConnected svc k) = some (t, new)) :
    Exit cfg ⟨t, s.threads.exec i new⟩ id := by
  have hcon := fun svc => weight_exec (Op.connecting svc id) hi new
  have hdis : ∀ svc', (s.threads.exec i new).weight (Op.disconnecting svc' id) =
      s.threads.weight (Op.disconnecting svc' id) := by
    intro svc'
    have hdis := weight_exec (Op.disconnecting svc' id) hi new
    cases svc <;> cases h <;> simpa [Op.disconnecting] using hdis
  have hset := fun svc => Server.exec_settles id svc h
  have hconn : t.conns = s.server.conns := by cases svc <;> cases h <;> rfl
  by_cases hid : k = id
  · subst hid
    cases hc : (s.server.conns k).closed with
    | false => exact of_open (by rwa [hconn])
    | true =>
      refine ⟨fun _ => by rw [hconn]; exact hs.handlers hc, fun _ svc' => ?_, fun _ svc' => ?_⟩
      all_goals
        have hknown := hs.known hc svc'
        have hposted := hs.posted hc svc'
        have hmono := weight_mono (Op.connecting_le_adopting svc' k) s.threads
        have hle := le_weight (Op.connecting svc' k) hi
        have honce := ha.once
        have hcon := hcon svc'
        simp only [hdis svc', hset svc', Bool.or_eq_true, hknown]
        cases svc <;> cases h <;> cases svc' <;> simp [Op.connecting] at hcon hle ⊢ <;> omega
  · refine hs.congr (by simp [hconn]) (by simp [hconn]) ?_ ?_ hdis
    · intro svc'
      rw [hset svc']
      simp [hid]
    · intro svc'
      have hcon := hcon svc'
      cases svc <;> cases h <;> simpa [Op.connecting, hid] using hcon

/-- Its end is posted behind its beginning. -/
theorem exec_postDisconnected {svc : ServiceId} {k : ℕ} (hs : Exit cfg s id) (ha : Adoption s id)
    (hi : s.threads.head i = some (.postDisconnected svc k))
    (horder : s.threads.weight (Op.connecting svc k) = 0)
    (h : s.server.exec cfg e (.postDisconnected svc k) = some (t, new)) :
    Exit cfg ⟨t, s.threads.exec i new⟩ id := by
  have hcon : ∀ svc', (s.threads.exec i new).weight (Op.connecting svc' id) =
      s.threads.weight (Op.connecting svc' id) := by
    intro svc'
    have hcon := weight_exec (Op.connecting svc' id) hi new
    cases svc <;> cases h <;> simpa [Op.connecting] using hcon
  have hdis := fun svc => weight_exec (Op.disconnecting svc id) hi new
  have hset := fun svc => Server.exec_settles id svc h
  have hconn : t.conns = s.server.conns := by cases svc <;> cases h <;> rfl
  by_cases hid : k = id
  · subst hid
    have hc := ha.closed_of_postDisconnected hi
    refine ⟨fun _ => by rw [hconn]; exact hs.handlers hc, fun _ svc' => ?_, fun _ svc' => ?_⟩
    all_goals
      have hknown := hs.known hc svc'
      have hposted := hs.posted hc svc'
      have hone := ha.leaving svc'
      have hdis := hdis svc'
      rw [hc, Bool.toNat_true] at hone
      simp only [hcon svc', hset svc', Bool.and_eq_true, hknown]
      cases svc <;> cases h <;> cases svc' <;> simp [Op.disconnecting] at hdis ⊢ <;> omega
  · refine hs.congr (by simp [hconn]) (by simp [hconn]) ?_ hcon ?_
    · intro svc'
      rw [hset svc']
      simp [hid]
    · intro svc'
      have hdis := hdis svc'
      cases svc <;> cases h <;> simpa [Op.disconnecting, hid] using hdis

/-- A failing `start` closes the connection, which both services have been told of. -/
theorem exec_start {k : ℕ} (hs : Exit cfg s id) (hn : Entry cfg s id) (ha : Adoption s id)
    (hi : s.threads.head i = some (.start k))
    (h : s.server.exec cfg e (.start k) = some (t, new)) :
    Exit cfg ⟨t, s.threads.exec i new⟩ id := by
  have hcon : ∀ svc, (s.threads.exec i new).weight (Op.connecting svc id) =
      s.threads.weight (Op.connecting svc id) + stackWeight (Op.connecting svc id) new :=
    fun svc => weight_exec (Op.connecting svc id) hi new
  have hdis : ∀ svc, (s.threads.exec i new).weight (Op.disconnecting svc id) =
      s.threads.weight (Op.disconnecting svc id) + stackWeight (Op.disconnecting svc id) new :=
    fun svc => weight_exec (Op.disconnecting svc id) hi new
  have hset := fun svc => Server.exec_settles id svc h
  have hyes := ha.handlers_eq_true hi
  by_cases hid : k = id
  · subst hid
    have hhand : (s.server.conns k).handlers = true := hyes (by simp [Op.installing, Op.adopting])
    cases hc : (s.server.conns k).closed with
    | true =>
      simp only [Server.exec, hc, ↓reduceIte] at h
      cases h
      exact hs.congr rfl rfl hset (by simpa [Op.connecting] using hcon)
        (by simpa [Op.disconnecting] using hdis)
    | false =>
      have hnone := fun svc => ha.leaving svc
      simp only [hc, Bool.toNat_false] at hnone
      simp only [Server.exec, hc, Server.setSender, Server.onClose] at h
      simp only [Bool.false_eq_true, ↓reduceIte] at h
      split at h
      · cases h
        exact hs.congr (by simp [Server.updConn, Conn.closed]) (by simp [Server.updConn]) hset
          (by simpa [Op.connecting] using hcon) (by simpa [Op.disconnecting] using hdis)
      · simp only [hhand, Sender.closed_close, Bool.not_false, Bool.true_and, ↓reduceIte,
          List.cons_append, List.nil_append] at h
        cases h
        simp [Op.connecting, Op.disconnecting] at hcon hdis
        refine of_closes (by simpa [Server.updConn] using hhand) (fun svc => ?_) fun svc => ?_
        · rw [hset svc, hn.known hc svc, hcon svc]
          simp [hhand]
        · have := hnone svc
          exact (hdis svc).trans (by omega)
  · simp only [Server.exec, Server.setSender, Server.onClose] at h
    repeat' split at h
    all_goals cases h
    all_goals
      refine hs.congr ?_ ?_ hset (by simpa [Op.connecting] using hcon)
        (by simpa [Op.disconnecting, hid] using hdis)
    all_goals simp [Server.updConn, Ne.symm hid]

/-- A step that advances no connection closes one only with its handlers set. -/
theorem exec_idle (hs : Exit cfg s id) (hn : Entry cfg s id) (ha : Adoption s id)
    (hi : s.threads.head i = some op) (hearly : s.server.closesEarly cfg e op = false)
    (h : s.server.exec cfg e op = some (t, new)) (hop : op.advances = false) :
    Exit cfg ⟨t, s.threads.exec i new⟩ id := by
  have hadopt : op ≠ .adopt := by
    rintro rfl
    simp [Op.advances] at hop
  obtain ⟨-, hhand, -, -⟩ := Server.exec_adoption h hop id
  have hsame := Server.settles_of_not_advances h hop id
  obtain ⟨-, hhead, -, hhead', -⟩ := Op.weights_of_not_advances hop id
  obtain ⟨-, hnone, -, -, hcall⟩ := Adoption.stackWeight_of_not_advances h hop id
  have hcon := fun svc => weight_exec (Op.connecting svc id) hi new
  have hdis := fun svc => weight_exec (Op.disconnecting svc id) hi new
  simp only [hhead, hnone, Nat.add_zero] at hcon
  simp only [hhead', hcall, Nat.add_zero] at hdis
  cases hwas : (s.server.conns id).closed with
  | true =>
    have hnow := Server.closed_exec h hadopt id hwas
    refine hs.congr (hnow.trans hwas.symm) hhand hsame hcon fun svc => ?_
    simpa [Server.callsBack, hwas] using hdis svc
  | false =>
    cases hnow : (t.conns id).closed with
    | false => exact of_open hnow
    | true =>
      have hconn := Server.conn_of_closes h hadopt hwas hnow
      have hyes : (s.server.conns id).handlers = true := by
        simpa [Server.closesEarly, hconn, h, hwas, hnow] using hearly
      have hcall : s.server.callsBack t id = true := by
        simp [Server.callsBack, hwas, hnow, hyes]
      refine of_closes (hhand.trans hyes) (fun svc => ?_) fun svc => ?_
      · rw [hsame svc, hn.known hwas svc, hcon svc]
        simp [hyes]
      · have hzero := ha.leaving svc
        have hone := hdis svc
        rw [hwas, Bool.toNat_false] at hzero
        rw [hconn, hcall] at hone
        simp at hone
        exact hone.trans (by omega)

/-- Every operation in order keeps what the services will know of a closed connection. -/
theorem exec (hs : Exit cfg s id) (hn : Entry cfg s id) (ha : Adoption s id)
    (hi : s.threads.head i = some op) (hearly : s.server.closesEarly cfg e op = false)
    (horder : op.inOrder s.threads = true) (h : s.server.exec cfg e op = some (t, new)) :
    Exit cfg ⟨t, s.threads.exec i new⟩ id := by
  cases hop : op.advances with
  | false => exact hs.exec_idle hn ha hi hearly h hop
  | true =>
    cases op with
    | adopt =>
      have hcon := fun svc => weight_exec (Op.connecting svc id) hi new
      have hdis := fun svc => weight_exec (Op.disconnecting svc id) hi new
      have hset := fun svc => Server.exec_settles id svc h
      cases h
      by_cases hid : s.server.nextId = id
      · exact of_open (by simp [hid, Server.updConn, Conn.fresh, Conn.closed, Sender.fresh])
      · refine hs.congr ?_ ?_ hset (by simpa [Op.connecting, hid] using hcon)
          (by simpa [Op.disconnecting] using hdis)
        · simp [Server.updConn, Ne.symm hid]
        · simp [Server.updConn, Ne.symm hid]
    | register k => exact hs.exec_register ha hi h
    | installHandlers k => exact hs.exec_installHandlers ha hi h
    | postConnected svc k => exact hs.exec_postConnected ha hi h
    | postDisconnected svc k =>
      exact hs.exec_postDisconnected ha hi (of_decide_eq_true horder) h
    | start k => exact hs.exec_start hn ha hi h
    | _ => simp [Op.advances] at hop

theorem step {a : ServerStep} (hs : Exit cfg s id) (hn : Entry cfg s id) (ha : Adoption s id)
    (hok : Ordered cfg s a = true) (h : (serverThreads cfg).step s a = some s') :
    Exit cfg s' id := by
  obtain ⟨i, e, op, new, rfl, hi, hex, hth⟩ | ⟨op, -, hext, hsv, hth⟩ := ServerState.step_cases h
  · simp only [Ordered, hi, Bool.and_eq_true, Bool.not_eq_true'] at hok
    have := hs.exec hn ha hi hok.1 hok.2 hex
    rwa [← hth] at this
  · have hzero : op.lifecycle = false := by
      cases op <;> simp_all [Server.external, Op.lifecycle]
    obtain ⟨-, hcon, -, -, hdis⟩ := Op.weights_of_not_lifecycle hzero id
    exact ⟨by simpa [hsv] using hs.handlers, by simpa [hsv, hth, hcon, hdis] using hs.known,
      by simpa [hsv, hth, hcon, hdis] using hs.posted⟩

end Exit

/-! ## The tables at rest -/

/-- Every event has been handled, and no adoption or close is under way. -/
def AtRest (cfg : ServerConfig) (s : ServerState) : Prop :=
  (∀ l < cfg.lanes, (s.server.game l).events = []) ∧ s.server.chat.events = [] ∧
    ∀ stack ∈ s.threads, ∀ op ∈ stack, op.lifecycle = false

/-- The session table and the members are the adopted connections that are not closed. -/
def TablesExact (cfg : ServerConfig) (s : Server) : Prop :=
  ∀ id, (∀ l < cfg.lanes, (s.game l).knows id = true ↔
      cfg.laneOf id = l ∧ (s.conns id).registered = true ∧ (s.conns id).closed = false) ∧
    (s.chat.knows id = true ↔ (s.conns id).registered = true ∧ (s.conns id).closed = false)

namespace AtRest

/-- At rest no thread has a beginning or an end to post. -/
theorem weight_eq_zero (h : AtRest cfg s) {w : Op → ℕ}
    (hw : ∀ op : Op, op.lifecycle = false → w op = 0) : s.threads.weight w = 0 := by
  refine List.sum_eq_zero fun n hn => ?_
  obtain ⟨stack, hstack, rfl⟩ := List.mem_map.mp hn
  refine List.sum_eq_zero fun n hn => ?_
  obtain ⟨op, hop, rfl⟩ := List.mem_map.mp hn
  exact hw op (h.2.2 stack hstack op hop)

/-- And no service has an event to handle. -/
theorem queue_eq_nil (h : AtRest cfg s) (id : ℕ) (svc : ServiceId) :
    s.server.queue cfg id svc = [] := by
  cases svc with
  | game => rw [Server.queue, h.1 (cfg.laneOf id) (Nat.mod_lt _ cfg.lanes_pos), eventsOf_nil]
  | chat => rw [Server.queue, h.2.1, eventsOf_nil]

/-- At rest a service knows the adopted connections that are not closed. -/
theorem knows_iff (h : AtRest cfg s) (ha : Adoption s id) (hn : Entry cfg s id)
    (hx : Exit cfg s id) (svc : ServiceId) :
    s.server.knows cfg id svc = true ↔
      (s.server.conns id).registered = true ∧ (s.server.conns id).closed = false := by
  have hset : s.server.settles cfg id svc = s.server.knows cfg id svc := by
    rw [Server.settles, h.queue_eq_nil, settled_nil]
  have hzero := fun (op : Op) (hop : op.lifecycle = false) => Op.weights_of_not_lifecycle hop id
  have hcon := h.weight_eq_zero fun op hop => (hzero op hop).2.1 svc
  have hdis := h.weight_eq_zero fun op hop => (hzero op hop).2.2.2.2 svc
  have hins := h.weight_eq_zero fun op hop => (hzero op hop).1 true
  cases hc : (s.server.conns id).closed with
  | true =>
    have := hx.known hc svc
    simp [hset, hdis] at this
    simp [this]
  | false =>
    rw [← hset, hn.known hc svc, ha.registered hc]
    simp [hcon, hins]

end AtRest

/-- In every run without a step out of order : when every event has been handled and no
adoption or close is under way, the session table of the game service and the members of the
chat service are the adopted connections that have not been closed. -/
theorem tables_exact_of_ordered
    (h : (serverThreads cfg).ReachesWhen (fun s a => Ordered cfg s a = true) s)
    (hrest : AtRest cfg s) : TablesExact cfg s.server := by
  have hall : ∀ id, Adoption s id ∧ Entry cfg s id ∧ Exit cfg s id := by
    intro id
    refine Machine.ReachesWhen.invariant
      (I := fun s => Adoption s id ∧ Entry cfg s id ∧ Exit cfg s id) ?_ ?_ h
    · rintro s rfl
      exact ⟨.fresh cfg id, .fresh cfg id, .fresh cfg id⟩
    · rintro s a s' ⟨ha, hn, hx⟩ hok hstep
      exact ⟨ha.step hstep, hn.step ha hstep, hx.step hn ha hok hstep⟩
  have howned : ∀ l, s.server.Owned cfg l := fun l => Server.owned_of_reachesWhen h l
  intro id
  obtain ⟨ha, hn, hx⟩ := hall id
  refine ⟨fun l _ => ⟨fun hknows => ?_, ?_⟩, hrest.knows_iff ha hn hx .chat⟩
  · have hl := (howned l).sessions id hknows
    subst hl
    exact ⟨rfl, (hrest.knows_iff ha hn hx .game).mp hknows⟩
  · rintro ⟨rfl, hlive⟩
    exact (hrest.knows_iff ha hn hx .game).mpr hlive

/-! ## A ghost member -/

/-- One game lane, and no database. -/
def oneLane : ServerConfig where
  send := ⟨true, 64⟩
  pool := ⟨0, .static, 1, fun _ => 0⟩
  gameLaneCount := 1
  inboundQueueCap := 64
  policy := .backpressure
  dbDeadlineUs := 0

/-- Every post is accepted. -/
def envOk : Env := ⟨true, true, true, 0, 0, [1]⟩

/-- Thread `i` executes `n` operations. -/
def runs (i n : ℕ) : List ServerStep := List.replicate n (.exec i envOk)

/-- A connection is adopted, and both services handle its Connected event. -/
def adoptedRun : List ServerStep := .spawn .adopt :: runs 3 6 ++ runs 0 7 ++ runs 1 7

/-- `adopt` has posted Connected to the game service only, which answers with the session key;
the send fails and closes the connection, so Disconnected is in the queue of the chat service
before Connected. -/
def ghostRun : List ServerStep :=
  .spawn .adopt :: runs 3 4 ++ runs 0 5 ++
    .exec 0 { envOk with flushOk := false, wsaOk := false } :: runs 0 8 ++ runs 3 3 ++ runs 1 8

instance (cfg : ServerConfig) (s : ServerState) : Decidable (AtRest cfg s) :=
  inferInstanceAs (Decidable (_ ∧ _ ∧ _))

/-- Some run comes to rest with a member that is closed. -/
theorem ghost_member_reachable :
    ¬ ∀ s, (serverThreads oneLane).Reaches s → AtRest oneLane s →
      TablesExact oneLane s.server := by
  intro h
  obtain ⟨s, hs, hp⟩ := (serverThreads oneLane).exists_reachesWhen (fun _ _ => True)
    (.fresh oneLane) ghostRun (fun s => AtRest oneLane s ∧ s.server.chat.knows 1 = true ∧
      (s.server.conns 1).closed = true) rfl (by decide +kernel)
  obtain ⟨hrest, hknows, hclosed⟩ := of_decide_eq_true hp
  have := ((h s hs hrest 1).2.mp hknows).2
  simp [hclosed] at this

/-- Two connections are adopted, the first is closed, and both services handle its Disconnected. -/
def closedRun : List ServerStep :=
  adoptedRun ++ .spawn .adopt :: runs 4 6 ++ runs 0 7 ++ runs 1 7 ++ .spawn (.close 1) :: runs 5 3 ++
    runs 0 8 ++ runs 1 8

/-- The services know the connection that is not closed. -/
theorem tables_exact_of_ordered_closed :
    ∃ s : ServerState, (s.server.conns 1).closed = true ∧ s.server.chat.knows 1 = false ∧
      s.server.chat.knows 2 = true ∧ TablesExact oneLane s.server := by
  obtain ⟨s, hs, hp⟩ := (serverThreads oneLane).exists_reachesWhen
    (fun s a => Ordered oneLane s a = true) (.fresh oneLane) closedRun
    (fun s => AtRest oneLane s ∧ (s.server.conns 1).closed = true ∧
      s.server.chat.knows 1 = false ∧ s.server.chat.knows 2 = true) rfl (by decide +kernel)
  obtain ⟨hrest, hclosed, hgone, hknows⟩ := of_decide_eq_true hp
  exact ⟨s, hclosed, hgone, hknows, tables_exact_of_ordered hs hrest⟩

end EchoServer
