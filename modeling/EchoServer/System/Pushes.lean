import EchoServer.System.Adoption

/-!
# Who sends a push

A push is the frame of a broadcast. Only a broadcast of the chat service sends one : every other
operation is quiet, and what a quiet operation pushes is quiet (`Server.quiet_exec`).

Seen from one connection, an operation of a broadcast owes it a push or none (`Op.owed`), and
executing it leaves the push to the next operation, appends it to the send buffer, or drops it and
closes the connection (`Server.delivery_exec`).
-/

namespace EchoServer

variable {cfg : ServerConfig} {e : Env} {t : Server} {op : Op} {new : List Op} {id : ℕ}

/-! ## The frames of the services -/

/-- An echo is no push. -/
theorem handleEcho_ne_push {body : Bytes} {f : Frame} (h : handleEcho body = .reply f) :
    f.msgId ≠ kChatPush := by
  simp only [handleEcho, withPayload] at h
  split_ifs at h
  cases h
  exact (by decide : kEchoAck ≠ kChatPush)

/-- Nor is a pong. -/
theorem handlePing_ne_push {unixMs : ℕ} {body : Bytes} {f : Frame}
    (h : handlePing unixMs body = .reply f) : f.msgId ≠ kChatPush := by
  simp only [handlePing] at h
  split_ifs at h
  cases h
  exact (by decide : kPongAck ≠ kChatPush)

/-- The game service replies with no push. -/
theorem onMessage_ne_push {unixMs : ℕ} {m : Message} {f : Frame}
    (h : onMessage unixMs m = .reply f) : f.msgId ≠ kChatPush := by
  unfold onMessage at h
  split_ifs at h
  · exact handleEcho_ne_push h
  · exact handlePing_ne_push h
  · simp only [handleSave, withPayload] at h
    split_ifs at h
  · simp only [handleHistory] at h
    split_ifs at h
  · simp only [handleCounter] at h
    split_ifs at h

/-- The chat service does not reply. -/
theorem onChatMessage_ne_reply (m : Message) (f : Frame) : onChatMessage m ≠ .reply f := by
  unfold onChatMessage withPayload
  dsimp only
  split_ifs <;> simp

/-- Nor is an error. -/
theorem errorAck_ne_push (origin : ℕ) (code : ErrorCode) (detail : String) :
    (errorAck origin code detail).msgId ≠ kChatPush :=
  (by decide : kErrorAck ≠ kChatPush)

/-- Nor is a response of the database. -/
theorem processDbResponse_ne_push (res : Response) : (processDbResponse res).msgId ≠ kChatPush := by
  unfold processDbResponse
  split
  · unfold dbReply
    split
    · exact (by decide : kSaveAck ≠ kChatPush)
    · exact (by decide : kHistoryAck ≠ kChatPush)
    · exact (by decide : kCounterAck ≠ kChatPush)
  all_goals exact errorAck_ne_push _ _ _

/-- The operation has no push ahead of it, and belongs to no broadcast. -/
def Op.quiet : Op → Bool
  | chatLoop | broadcast _ _ _ _ => false
  | send _ _ f | lockSend _ _ f => f.msgId ≠ kChatPush
  | _ => true

/-- Sending an error belongs to no broadcast. -/
theorem quiet_sendError {index origin : ℕ} {code : ErrorCode} {detail : String}
    (h : op ∈ sendError id index origin code detail) : op.quiet = true := by
  obtain rfl | rfl := mem_sendError h
  · simpa [Op.quiet] using errorAck_ne_push origin code detail
  · rfl

/-- A game lane sends no push. -/
theorem GameLane.quiet_step {lane lane' : GameLane} {ops : List Op}
    (h : lane.step e = (lane', ops)) (hop : op ∈ ops) : op.quiet = true := by
  cases GameLane.turn h with
  | move => simp at hop
  | reply index res =>
    unfold onReply at hop
    split at hop
    · simp at hop
    · obtain rfl := List.mem_singleton.mp hop
      simpa [Op.quiet] using processDbResponse_ne_push res
  | event ev =>
    cases ev with
    | connected k =>
      simp only [onEvent] at hop
      split at hop <;> simp only [List.mem_cons, List.not_mem_nil, or_false] at hop
      all_goals
        obtain rfl | rfl := hop <;> rfl
    | disconnected k => simp [onEvent] at hop
    | message m =>
      simp only [onEvent] at hop
      split at hop
      · simp at hop
      · cases hv : onMessage e.unixMs m with
        | reply f =>
          rw [hv] at hop
          obtain rfl := List.mem_singleton.mp hop
          simpa [Op.quiet] using onMessage_ne_push hv
        | refuse code detail =>
          rw [hv] at hop
          exact quiet_sendError hop
        | pass req =>
          rw [hv] at hop
          obtain rfl := List.mem_singleton.mp hop
          rfl

namespace Server

theorem quiet_of_external {s : Server} (h : s.external op = true) : op.quiet = true := by
  cases op <;> simp [external, Op.quiet] at h ⊢

/-- An operation without a push pushes only such operations. -/
theorem quiet_exec {s : Server} (h : s.exec cfg e op = some (t, new)) (hq : op.quiet = true) :
    ∀ o ∈ new, o.quiet = true := by
  intro o ho
  cases expandsTo_exec h ho with
  | game l mem => exact GameLane.quiet_step rfl mem
  | chat => simp [Op.quiet] at hq
  | again => exact hq
  | bare hbare => cases o <;> simp_all [Op.bare, Op.quiet]
  | handler id _ hgoes => obtain rfl | rfl | rfl := hgoes <;> rfl
  | offer | pass | route => rfl
  | @refuse _ _ _ view code detail =>
    simpa [Op.quiet] using errorAck_ne_push view.msgId code detail
  | @refuseDb _ req code detail =>
    simpa [Op.quiet] using errorAck_ne_push (requestMsgId req.kind) code detail
  | lock => exact hq
  | member | members => simp [Op.quiet] at hq

end Server

/-! ## The pushes of one connection -/

/-- The pushes in the send buffer, with those already transferred. -/
def Conn.pushes (c : Conn) : List Frame :=
  (c.sent.map Prod.snd).filter fun f => f.msgId = kChatPush

namespace Op

/-- The pushes that the operation has still to send to a connection. -/
def owed (id : ℕ) : Op → List Frame
  | send k _ f | lockSend k _ f => if k = id ∧ f.msgId = kChatPush then [f] else []
  | broadcast _ _ f todo => if id ∈ todo then [f] else []
  | _ => []

/-- A broadcast sends one push to each of its members. -/
def sound : Op → Prop
  | broadcast _ _ f todo => f.msgId = kChatPush ∧ todo.Nodup
  | _ => True

/-- What belongs to no broadcast owes no push. -/
theorem owed_of_quiet (hq : op.quiet = true) (id : ℕ) : op.owed id = [] := by
  cases op <;> simp_all [quiet, owed]

theorem sound_of_quiet (hq : op.quiet = true) : op.sound := by
  cases op <;> simp_all [quiet, sound]

theorem owed_of_all_quiet {ops : List Op} (h : ∀ o ∈ ops, o.quiet = true) (id : ℕ) :
    ops.flatMap (owed id) = [] :=
  List.flatMap_eq_nil_iff.mpr fun o ho => owed_of_quiet (h o ho) id

end Op

/-- What an operation does about the push that it owes a connection : it leaves it to its
operations, appends it, or drops it and closes the connection. -/
inductive Delivery (id : ℕ) (s t : Server) (op : Op) (new : List Op) : Prop
  | kept (pushes_eq : (t.conns id).pushes = (s.conns id).pushes)
      (owed_eq : new.flatMap (Op.owed id) = op.owed id)
  | sent (answers : Option ℕ) (f : Frame) (op_eq : op = .lockSend id answers f)
      (owed_eq : op.owed id = [f]) (pushes_eq : (t.conns id).pushes = (s.conns id).pushes ++ [f])
      (owed_new : new.flatMap (Op.owed id) = [])
  | dropped (f : Frame) (owed_eq : op.owed id = [f])
      (pushes_eq : (t.conns id).pushes = (s.conns id).pushes)
      (owed_new : new.flatMap (Op.owed id) = [])
      (closing : (t.conns id).closed = true ∨ new = [.close id] ∨ new = [.closeOverflow id])

namespace Server

variable {s : Server}

/-- An operation without a push appends none. -/
theorem pushes_of_quiet (h : s.exec cfg e op = some (t, new)) (hq : op.quiet = true)
    (hadopt : op ≠ .adopt) (id : ℕ) : (t.conns id).pushes = (s.conns id).pushes := by
  cases hc : op.conn? with
  | none => rw [conns_of_not_conn hc hadopt h]
  | some k =>
    by_cases hk : id = k
    · subst hk
      cases op
      all_goals
        simp only [Op.conn?, Option.some.injEq, reduceCtorEq] at hc
      all_goals subst hc
      case lockSend answers f =>
        simp only [Op.quiet, decide_eq_true_eq] at hq
        simp only [exec, lockSend] at h
        split at h <;> cases h <;> simp [updConn, Conn.pushes, hq]
      all_goals
        simp only [exec, setSender] at h
        repeat' split at h
      all_goals cases h
      all_goals simp [updConn, Conn.pushes]
    · rw [exec_of_conn hc h]
      simp [updConn, hk]

/-- A broadcast goes on to the next member. -/
theorem delivery_broadcast {k index : ℕ} {f : Frame} {todo : List ℕ}
    (hs : (Op.broadcast k index f todo).sound)
    (h : s.exec cfg e (.broadcast k index f todo) = some (t, new)) (id : ℕ) :
    Delivery id s t (.broadcast k index f todo) new := by
  obtain ⟨hf, hnodup⟩ := hs
  simp only [exec] at h
  split at h
  · rename_i m hpick
    cases h
    refine .kept rfl ?_
    obtain ⟨hlt, rfl⟩ := List.getElem?_eq_some_iff.mp hpick
    have hperm := List.getElem_cons_eraseIdx_perm hlt
    have hnotin := (List.nodup_cons.mp (hperm.nodup_iff.mpr hnodup)).1
    have hmem := hperm.mem_iff (a := id)
    simp only [List.mem_cons] at hmem
    simp only [List.flatMap_cons, List.flatMap_nil, List.append_nil, Op.owed, hf, and_true]
    by_cases hid : todo[e.pick] = id
    · simp [← hid, hnotin]
    · simp [hid, ← hmem, Ne.symm hid]
  · split at h <;> cases h
    rename_i hnil
    exact .kept rfl (by simp [Op.owed, List.isEmpty_iff.mp hnil])

/-- `send` goes on to the section under the lock, or finds the connection closed. -/
theorem delivery_send {k : ℕ} {answers : Option ℕ} {f : Frame}
    (h : s.exec cfg e (.send k answers f) = some (t, new)) (id : ℕ) :
    Delivery id s t (.send k answers f) new := by
  by_cases hpush : k = id ∧ f.msgId = kChatPush
  · obtain ⟨rfl, hf⟩ := hpush
    have howed : (Op.send k answers f).owed k = [f] := by simp [Op.owed, hf]
    simp only [exec] at h
    split at h
    · rename_i hclosed
      cases h
      exact .dropped f howed rfl rfl (Or.inl hclosed)
    · split at h <;> cases h
      · exact .dropped f howed rfl rfl (Or.inr (Or.inl rfl))
      · exact .kept rfl (by simp [Op.owed])
  · simp only [exec] at h
    repeat' split at h
    all_goals cases h
    all_goals exact .kept rfl (by simp [Op.owed, hpush])

/-- The section appends the push, or the connection closes. -/
theorem delivery_lockSend {k : ℕ} {answers : Option ℕ} {f : Frame}
    (h : s.exec cfg e (.lockSend k answers f) = some (t, new)) (id : ℕ) :
    Delivery id s t (.lockSend k answers f) new := by
  simp only [exec, lockSend] at h
  by_cases hpush : k = id ∧ f.msgId = kChatPush
  · obtain ⟨rfl, hf⟩ := hpush
    have howed : (Op.lockSend k answers f).owed k = [f] := by simp [Op.owed, hf]
    split at h <;> cases h
    · refine .sent answers f rfl howed (by simp [updConn, Conn.pushes, hf]) ?_
      exact Op.owed_of_all_quiet (fun o ho => mem_onClose ho ▸ rfl) k
    · exact .dropped f howed (by simp [updConn, Conn.pushes]) rfl (Or.inr (Or.inr rfl))
  · have howed : (Op.lockSend k answers f).owed id = [] := by simp [Op.owed, hpush]
    split at h <;> cases h
    · refine .kept ?_ ?_
      · by_cases hid : id = k
        · subst hid
          simp only [true_and] at hpush
          simp [updConn, Conn.pushes, hpush]
        · simp [updConn, hid]
      · rw [howed]
        exact Op.owed_of_all_quiet (fun o ho => mem_onClose ho ▸ rfl) id
    · refine .kept ?_ (by rw [howed]; rfl)
      by_cases hid : id = k <;> simp [updConn, hid, Conn.pushes]

/-- A connection that is made has no pushes yet. -/
theorem delivery_adopt (h : s.exec cfg e .adopt = some (t, new))
    (hold : s.nextId = id → (s.conns id).pushes = []) : Delivery id s t .adopt new := by
  cases h
  refine .kept ?_ rfl
  by_cases hid : id = s.nextId
  · subst hid
    rw [hold rfl]
    simp [updConn, Conn.fresh, Conn.pushes]
  · simp [updConn, hid]

/-- What any operation but the loop of the chat service does about a push. -/
theorem delivery_exec (h : s.exec cfg e op = some (t, new)) (hs : op.sound)
    (hloop : op ≠ .chatLoop) (hold : s.nextId = id → (s.conns id).pushes = []) :
    Delivery id s t op new := by
  cases hq : op.quiet with
  | true =>
    by_cases hadopt : op = .adopt
    · subst hadopt
      exact delivery_adopt h hold
    · refine .kept (pushes_of_quiet h hq hadopt id) ?_
      rw [Op.owed_of_quiet hq, Op.owed_of_all_quiet (quiet_exec h hq)]
  | false =>
    cases op with
    | chatLoop => exact absurd rfl hloop
    | broadcast k index f todo => exact delivery_broadcast hs h id
    | send k answers f => exact delivery_send h id
    | lockSend k answers f => exact delivery_lockSend h id
    | _ => simp [Op.quiet] at hq

/-- A push waits for the lock only after the connection was found open. -/
theorem lockSend_of_exec {answers : Option ℕ} {f : Frame} (h : s.exec cfg e op = some (t, new))
    (hloop : op ≠ .chatLoop) (hf : f.msgId = kChatPush) (hmem : .lockSend id answers f ∈ new) :
    op = .send id answers f ∧ (s.conns id).closed = false := by
  cases hq : op.quiet with
  | true =>
    have := quiet_exec h hq _ hmem
    simp [Op.quiet, hf] at this
  | false =>
    cases op with
    | chatLoop => exact absurd rfl hloop
    | broadcast k index g todo =>
      simp only [exec] at h
      repeat' split at h
      all_goals cases h
      all_goals simp at hmem
    | send k answers' g =>
      simp only [exec] at h
      split at h
      · cases h
        simp at hmem
      · rename_i hopen
        split at h <;> cases h
        · simp at hmem
        · obtain ⟨rfl, rfl, rfl⟩ := by simpa using hmem
          exact ⟨rfl, by simpa using hopen⟩
    | lockSend k answers' g =>
      simp only [exec, lockSend] at h
      split at h <;> cases h
      · cases mem_onClose hmem
      · simp at hmem
    | _ => simp [Op.quiet] at hq

/-- A broadcast goes on with fewer members. -/
theorem sound_exec (h : s.exec cfg e op = some (t, new)) (hs : op.sound) (hloop : op ≠ .chatLoop) :
    ∀ o ∈ new, o.sound ∧ o ≠ .chatLoop := by
  have hquiet : (∀ o ∈ new, o.quiet = true) → ∀ o ∈ new, o.sound ∧ o ≠ .chatLoop := by
    intro hall o ho
    refine ⟨Op.sound_of_quiet (hall o ho), ?_⟩
    rintro rfl
    simpa [Op.quiet] using hall _ ho
  cases hq : op.quiet with
  | true => exact hquiet (quiet_exec h hq)
  | false =>
    cases op with
    | chatLoop => exact absurd rfl hloop
    | broadcast k index f todo =>
      obtain ⟨hf, hnodup⟩ := hs
      simp only [exec] at h
      split at h
      · cases h
        intro o ho
        simp only [List.mem_cons, List.not_mem_nil, or_false] at ho
        obtain rfl | rfl := ho
        · exact ⟨trivial, by simp⟩
        · exact ⟨⟨hf, hnodup.eraseIdx _⟩, by simp⟩
      · split at h <;> cases h
        simp
    | send k answers f =>
      simp only [exec] at h
      repeat' split at h
      all_goals cases h
      all_goals simp [Op.sound]
    | lockSend k answers f =>
      refine hquiet ?_
      simp only [exec, lockSend] at h
      split at h <;> cases h
      · exact fun o ho => mem_onClose ho ▸ rfl
      · simp [Op.quiet]
    | _ => simp [Op.quiet] at hq

theorem nextId_le_exec (h : s.exec cfg e op = some (t, new)) : s.nextId ≤ t.nextId := by
  by_cases hadopt : op = .adopt
  · subst hadopt
    cases h
    exact Nat.le_succ _
  · exact (nextId_exec h hadopt).ge

/-- A connection stays closed, unless it is made anew. -/
theorem closed_exec_of_ne (h : s.exec cfg e op = some (t, new))
    (hadopt : op = .adopt → s.nextId ≠ id) (hclosed : (s.conns id).closed = true) :
    (t.conns id).closed = true := by
  by_cases hop : op = .adopt
  · subst hop
    cases h
    simpa [updConn, Ne.symm (hadopt rfl)] using hclosed
  · exact closed_exec h hop id hclosed

/-- A connection that has been made stays closed once it is. -/
theorem closed_exec_of_lt (h : s.exec cfg e op = some (t, new)) (hlt : id < s.nextId)
    (hclosed : (s.conns id).closed = true) : (t.conns id).closed = true :=
  closed_exec_of_ne h (fun _ => hlt.ne') hclosed

/-- Closing closes the connection. -/
theorem closed_of_close (h : s.exec cfg e op = some (t, new))
    (hop : op = .close id ∨ op = .closeOverflow id) : (t.conns id).closed = true := by
  obtain rfl | rfl := hop <;> cases h <;> simp [updConn, Conn.closed]

end Server

end EchoServer
