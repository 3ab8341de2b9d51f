import EchoServer.Net.FailedSend
import EchoServer.System.Pushes

/-!
# What is on the socket

The send path of every connection among the threads of the server. While a connection is open and no
completion has failed, what is on the socket and what is still to go out are the frames appended to
the send buffer (`Conn.Streams`); so when `has_unsent` says no, they have all been transferred
(`Conn.Streams.transferred`), and stay so (`Server.transferred_exec`).
-/

namespace EchoServer

open Threads

variable {cfg : ServerConfig} {e : Env} {t : Server} {op : Op} {new : List Op} {id : ℕ}

namespace Sender

variable {cfg : SendConfig} {s s' : Sender} {a : SendStep}

@[simp] theorem record_postSendLocked (wsaOk : Bool) (s : Sender) :
    (s.postSendLocked wsaOk).accepted = s.accepted ∧ (s.postSendLocked wsaOk).wire = s.wire ∧
      (s.postSendLocked wsaOk).failing = s.failing := by
  unfold postSendLocked
  dsimp only
  split_ifs <;> exact ⟨rfl, rfl, rfl⟩

@[simp] theorem record_wakeSend (cfg : SendConfig) (flushOk wsaOk : Bool) (s : Sender) :
    (s.wakeSend cfg flushOk wsaOk).accepted = s.accepted ∧
      (s.wakeSend cfg flushOk wsaOk).wire = s.wire ∧
      (s.wakeSend cfg flushOk wsaOk).failing = s.failing := by
  unfold wakeSend
  split_ifs <;> simp

/-- `send` under the lock accepts the frame that is appended, and puts nothing on the socket. -/
theorem record_sendLocked (cfg : SendConfig) (f : Frame) (flushOk wsaOk : Bool) (s : Sender) :
    (s.sendLocked cfg f flushOk wsaOk).accepted =
        s.accepted ++ (if (s.buf.append cfg.sendLimit f).isSome then [f] else []) ∧
      (s.sendLocked cfg f flushOk wsaOk).wire = s.wire ∧
      (s.sendLocked cfg f flushOk wsaOk).failing = s.failing := by
  unfold sendLocked
  split <;> simp [*]

/-- The wire only grows. -/
theorem wire_step (h : (sender cfg).step s a = some s') : s.wire <+: s'.wire := by
  cases a with
  | transfer i n =>
    simp only [sender] at h
    split at h
    · split_ifs at h
      obtain rfl := Option.some.inj h
      exact List.prefix_append ..
    · cases h
  | sendLocked i flushOk wsaOk =>
    simp only [sender] at h
    split at h <;> cases h
    rw [(record_sendLocked ..).2.1]
  | onSendDone i ok wsaOk =>
    simp only [sender] at h
    split at h <;> cases h
    simp only [onSendDone]
    split_ifs <;> simp
  | _ =>
    simp only [sender, enter, onFlush] at h
    repeat' split at h
    all_goals cases h
    all_goals simp [Sender.close]

/-- Only the section of `send` under the lock accepts a frame. -/
theorem accepted_step (h : (sender cfg).step s a = some s')
    (ha : ∀ i flushOk wsaOk, a ≠ .sendLocked i flushOk wsaOk) : s'.accepted = s.accepted := by
  cases a with
  | sendLocked i flushOk wsaOk => exact absurd rfl (ha i flushOk wsaOk)
  | onSendDone i ok wsaOk =>
    simp only [sender] at h
    split at h <;> cases h
    simp only [onSendDone]
    split_ifs <;> simp
  | _ =>
    simp only [sender, enter, onFlush, Sender.transfer] at h
    repeat' split at h
    all_goals cases h
    all_goals simp [Sender.close]

/-- A completion handler that has failed closes the connection. -/
theorem failing_step (h : (sender cfg).step s a = some s') (hf : 0 < s.failing) :
    s'.closed = true ∨ 0 < s'.failing := by
  cases a with
  | closeFailed =>
    simp only [sender] at h
    split_ifs at h
    cases h
    exact Or.inl rfl
  | sendLocked i flushOk wsaOk =>
    simp only [sender] at h
    split at h <;> cases h
    rw [(record_sendLocked ..).2.2]
    exact Or.inr hf
  | onSendDone i ok wsaOk =>
    simp only [sender] at h
    split at h <;> cases h
    simp only [onSendDone]
    split_ifs <;> simp [hf]
  | _ =>
    simp only [sender, enter, onFlush, Sender.transfer] at h
    repeat' split at h
    all_goals cases h
    all_goals simp [Sender.close, hf]

/-- Bytes are lost only in a completion that fails. -/
theorem whole_step (hs : s.Inv) (hw : 0 < s.failing ∨ s.Whole)
    (h : (sender cfg).step s a = some s') : s'.closed = true ∨ 0 < s'.failing ∨ s'.Whole := by
  obtain hf | hw := hw
  · exact (failing_step h hf).imp_right Or.inl
  · by_cases hlost : a.Discards s
    · exact (SendRun.failed_of_discards hs hw h hlost).close_due.imp_right Or.inl
    · exact Or.inr (Or.inr (hw.step hs h hlost))

end Sender

namespace Server

variable {s : Server}

/-- What an operation does on the send path of a connection. -/
inductive SendPath (cfg : ServerConfig) (id : ℕ) (s t : Server) (op : Op) : Prop
  | kept (sender_eq : (t.conns id).sender = (s.conns id).sender)
      (sent_eq : (t.conns id).sent = (s.conns id).sent)
  | locked (answers : Option ℕ) (f : Frame) (flushOk wsaOk : Bool)
      (op_eq : op = .lockSend id answers f)
      (sender_eq : (t.conns id).sender =
        (s.conns id).sender.sendLocked cfg.send f flushOk wsaOk)
      (sent_eq : (t.conns id).sent = (s.conns id).sent ++
        if ((s.conns id).sender.buf.append cfg.send.sendLimit f).isSome then [(answers, f)] else [])
  | stepped (a : SendStep) (not_locked : ∀ i flushOk wsaOk, a ≠ .sendLocked i flushOk wsaOk)
      (step : (sender cfg.send).step (s.conns id).sender a = some (t.conns id).sender)
      (sent_eq : (t.conns id).sent = (s.conns id).sent)
  | closed (closed : (t.conns id).closed = true)
      (wire_eq : (t.conns id).sender.wire = (s.conns id).sender.wire)
      (sent_eq : (t.conns id).sent = (s.conns id).sent)

/-- An operation goes through the send path, or leaves the connection as it is. -/
theorem sendPath_exec (h : s.exec cfg e op = some (t, new))
    (hadopt : op = .adopt → s.nextId ≠ id) : SendPath cfg id s t op := by
  cases hc : op.conn? with
  | none =>
    cases op
    case adopt =>
      cases h
      exact .kept (by simp [updConn, Ne.symm (hadopt rfl)])
        (by simp [updConn, Ne.symm (hadopt rfl)])
    all_goals
      simp only [Op.conn?, reduceCtorEq] at hc
    all_goals
      have hsame := conns_of_not_conn rfl (by simp) h
      exact .kept (by rw [hsame]) (by rw [hsame])
  | some k =>
    by_cases hk : id = k
    · subst hk
      cases op
      all_goals
        simp only [Op.conn?, Option.some.injEq, reduceCtorEq] at hc
      all_goals subst hc
      case lockSend answers f =>
        refine .locked answers f e.flushOk e.wsaOk rfl ?_ ?_
        all_goals
          simp only [exec, lockSend] at h
          split at h <;> cases h <;> simp [updConn, *]
      case closeOverflow =>
        cases h
        exact .closed (by simp [updConn, Conn.closed]) (by simp [updConn, Sender.close])
          (by simp [updConn])
      case close =>
        cases h
        exact .stepped .close (by simp) (by simp [updConn, sender]) (by simp [updConn])
      case start =>
        simp only [exec, setSender] at h
        repeat' split at h
        all_goals cases h
        · exact .kept rfl rfl
        · exact .kept (by simp [updConn]) (by simp [updConn])
        · exact .stepped .close (by simp) (by simp [updConn, sender]) (by simp [updConn])
      case net a =>
        simp only [exec, setSender] at h
        split at h
        all_goals first | cases h | skip
        all_goals
          split at h <;> cases h
          rename_i hstep
          refine .stepped _ ?_ (by simpa [updConn] using hstep) (by simp [updConn])
          simp
      all_goals
        simp only [exec] at h
        repeat' split at h
      all_goals cases h
      all_goals exact .kept (by simp [updConn]) (by simp [updConn])
    · rw [exec_of_conn hc h]
      exact .kept (by simp [updConn, hk]) (by simp [updConn, hk])

end Server

/-- The frames in the send buffer of a connection, and what has become of them. -/
structure Conn.Streams (c : Conn) : Prop where
  inv : c.sender.Inv
  accepted : c.sender.accepted = c.sent.map Prod.snd
  whole : 0 < c.sender.failing ∨ c.sender.Whole

theorem Conn.streams_fresh : Conn.fresh.Streams :=
  ⟨Sender.inv_fresh, rfl, Or.inr rfl⟩

/-- The frame is in the send buffer, and is on the socket with those before it. -/
def Conn.Transferred (c : Conn) (p : Option ℕ × Frame) : Prop :=
  ∃ pre post, c.sent = pre ++ p :: post ∧
    (pre ++ [p]).flatMap (fun p => p.2.encode) <+: c.sender.wire

/-- Nothing is left to send on a connection without unsent bytes. -/
theorem Conn.Streams.transferred {c : Conn} (h : c.Streams) (hopen : c.closed = false)
    (hfailing : c.sender.failing = 0) (hunsent : c.hasUnsent = false) {p : Option ℕ × Frame}
    (hp : p ∈ c.sent) : c.Transferred p := by
  obtain ⟨hsending, hpending⟩ : c.sender.buf.sending = false ∧ c.sender.buf.pending = [] := by
    simpa [Conn.hasUnsent] using hunsent
  have hstaging := h.inv.idle hopen hsending
  have hwhole : c.sender.Whole := h.whole.resolve_left (by omega)
  have hwire : c.sender.wire = c.sent.flatMap fun p => p.2.encode := by
    have hstream : c.sender.wire ++ c.sender.buf.unsent c.sender.transferred =
      c.sender.accepted.flatMap Frame.encode := hwhole
    rw [SendBuffer.unsent, hstaging, hpending, h.accepted, List.flatMap_map] at hstream
    simpa using hstream
  obtain ⟨pre, post, hsent⟩ := List.append_of_mem hp
  exact ⟨pre, post, hsent, post.flatMap fun p => p.2.encode, by simp [hwire, hsent]⟩

namespace Server

variable {s : Server}

/-- The send path of an open connection stays in order. -/
theorem streams_exec (h : s.exec cfg e op = some (t, new))
    (hs : (s.conns id).closed = false → (s.conns id).Streams) (hopen : (t.conns id).closed = false) :
    (t.conns id).Streams := by
  by_cases hadopt : op = .adopt ∧ s.nextId = id
  · obtain ⟨rfl, rfl⟩ := hadopt
    cases h
    simpa [updConn] using Conn.streams_fresh
  replace hadopt : op = .adopt → s.nextId ≠ id := fun hop hid => hadopt ⟨hop, hid⟩
  have hwas : (s.conns id).closed = false := by
    by_contra hclosed
    have := closed_exec_of_ne h hadopt (by simpa using hclosed)
    simp [this] at hopen
  obtain ⟨hinv, haccepted, hwhole⟩ := hs hwas
  cases sendPath_exec h hadopt with
  | kept hsender hsent => exact ⟨hsender ▸ hinv, by rw [hsender, hsent, haccepted], hsender ▸ hwhole⟩
  | locked answers f flushOk wsaOk hop hsender hsent =>
    obtain ⟨hacc, -, hfailing⟩ := Sender.record_sendLocked cfg.send f flushOk wsaOk (s.conns id).sender
    refine ⟨hsender ▸ hinv.sendLocked .., ?_, ?_⟩
    · rw [hsender, hsent, hacc, haccepted, List.map_append]
      split <;> rfl
    · rw [hsender, hfailing]
      refine hwhole.imp_right fun hw => ?_
      unfold Sender.sendLocked
      split
      · exact hw
      · rename_i buf hbuf
        obtain rfl := SendBuffer.append_eq_some hbuf
        exact (hw.append f).wakeSend (hinv.toCore.append f) cfg.send flushOk wsaOk
  | stepped a hlocked hstep hsent =>
    refine ⟨hinv.step hstep, ?_, (Sender.whole_step hinv hwhole hstep).resolve_left ?_⟩
    · rw [Sender.accepted_step hstep hlocked, hsent, haccepted]
    · simpa [Conn.closed] using hopen
  | closed hclosed => simp [hclosed] at hopen

/-- The send buffer only grows. -/
theorem sent_prefix_exec (h : s.exec cfg e op = some (t, new))
    (hadopt : op = .adopt → s.nextId ≠ id) : (s.conns id).sent <+: (t.conns id).sent := by
  cases sendPath_exec h hadopt with
  | kept _ hsame => rw [hsame]
  | locked answers f flushOk wsaOk _ _ hmore =>
    rw [hmore]
    exact List.prefix_append ..
  | stepped _ _ _ hsame => rw [hsame]
  | closed _ _ hsame => rw [hsame]

/-- What has been transferred stays so. -/
theorem transferred_exec (h : s.exec cfg e op = some (t, new))
    (hadopt : op = .adopt → s.nextId ≠ id) {p : Option ℕ × Frame}
    (hp : (s.conns id).Transferred p) : (t.conns id).Transferred p := by
  obtain ⟨pre, post, hsent, hwire⟩ := hp
  cases sendPath_exec h hadopt with
  | kept hsender hsame => exact ⟨pre, post, hsame ▸ hsent, hsender ▸ hwire⟩
  | locked answers f flushOk wsaOk hop hsender hmore =>
    refine ⟨pre, _, by rw [hmore, hsent, List.append_assoc, List.cons_append], ?_⟩
    rw [hsender, (Sender.record_sendLocked ..).2.1]
    exact hwire
  | stepped a hlocked hstep hsame =>
    exact ⟨pre, post, hsame ▸ hsent, hwire.trans (Sender.wire_step hstep)⟩
  | closed hclosed hsender hsame => exact ⟨pre, post, hsame ▸ hsent, hsender ▸ hwire⟩

end Server

end EchoServer
