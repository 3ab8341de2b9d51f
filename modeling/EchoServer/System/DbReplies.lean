import EchoServer.System.Passing
import EchoServer.System.Transfers

/-!
# Replies of the database on their way

A response that the pool has given is in the inbox of a game lane or in the hands of the lane, then
an operation that sends the reply, then in the send buffer (`Located`). While the connection is open
it is in one of these places (`Replying`).
-/

namespace EchoServer

open Threads

variable {cfg : ServerConfig} {e : Env} {s s' : ServerState} {t : Server} {op : Op}
  {new : List Op} {i id index : ℕ} {results : List (Job ℕ × Outcome)} {r : Job ℕ × Response}

/-- The reply that a response becomes, with the frame that it answers. -/
def replyOf (r : Job ℕ × Response) : Option ℕ × Frame := (some r.1.tag, processDbResponse r.2)

/-- The operation is to send this frame. -/
def Op.Sends (id : ℕ) (p : Option ℕ × Frame) (op : Op) : Prop :=
  op = .send id p.1 p.2 ∨ op = .lockSend id p.1 p.2

/-- A thread is to send this frame. -/
def ServerState.InHand (s : ServerState) (id : ℕ) (p : Option ℕ × Frame) : Prop :=
  ∃ stack ∈ s.threads, ∃ o ∈ stack, o.Sends id p

/-- A response that the pool has given is with its lane, or its reply is being sent, or is in the
send buffer. -/
def Located (cfg : ServerConfig) (s : ServerState) (r : Job ℕ × Response) : Prop :=
  (r.1.tag, r.2) ∈ (s.server.game (cfg.laneOf r.2.connId)).replies ∨
    s.InHand r.2.connId (replyOf r) ∨ replyOf r ∈ (s.server.conns r.2.connId).sent

/-- A thread that has sent a frame has put it into the send buffer, or closes the connection. -/
theorem ServerState.InHand.exec {p : Option ℕ × Frame} (hs : s.InHand id p)
    (hi : s.threads.head i = some op) (h : s.server.exec cfg e op = some (t, new)) :
    Ending ⟨t, s.threads.exec i new⟩ id ∨ InHand ⟨t, s.threads.exec i new⟩ id p ∨
      p ∈ (t.conns id).sent := by
  obtain ⟨stack, hstack, o, ho, hsends⟩ := hs
  obtain rfl | ⟨stack', hstack', ho'⟩ := mem_or_mem_exec hi hstack ho new
  · have hexec := h
    obtain rfl | rfl := hsends
    · simp only [Server.exec] at h
      repeat' split at h
      all_goals cases h
      · exact Or.inl (Or.inl (by assumption))
      · exact Or.inl (.of_closes (Or.inr (by simp [Op.closing])) hi hexec)
      · obtain ⟨stack', hstack', ho'⟩ :=
          mem_exec_of_mem hi (List.mem_singleton_self (Op.lockSend id p.1 p.2))
        exact Or.inr (Or.inl ⟨stack', hstack', _, ho', Or.inr rfl⟩)
    · simp only [Server.exec, Server.lockSend] at h
      split at h <;> cases h
      · exact Or.inr (Or.inr (by simp [Server.updConn]))
      · exact Or.inl (.of_closes (Or.inr (by simp [Op.closing])) hi hexec)
  · exact Or.inr (Or.inl ⟨stack', hstack', o, ho', hsends⟩)

/-- A lane that comes to a response of an open connection sends the reply. -/
theorem Located.exec (hs : Located cfg s r) (hi : s.threads.head i = some op)
    (h : s.server.exec cfg e op = some (t, new))
    (hadopt : op = .adopt → s.server.nextId ≠ r.2.connId)
    (hknows : s.server.knows cfg r.2.connId .game = true) :
    Ending ⟨t, s.threads.exec i new⟩ r.2.connId ∨ Located cfg ⟨t, s.threads.exec i new⟩ r := by
  obtain hlane | hhand | hsent := hs
  · obtain ⟨rfl, ops, rfl, hstep⟩ | ⟨-, hgame⟩ := Server.exec_game h (cfg.laneOf r.2.connId)
    · have hturn := GameLane.turn hstep
      refine Or.inr ?_
      cases hturn with
      | move _ hreplies =>
        left
        dsimp only
        rwa [hreplies]
      | event _ _ hreplies =>
        left
        dsimp only
        rwa [hreplies]
      | reply n res _ hreplies =>
        rw [hreplies, List.mem_cons, Prod.mk.injEq] at hlane
        obtain ⟨rfl, rfl⟩ | hlane := hlane
        · obtain ⟨key, hkey⟩ := Option.isSome_iff_exists.mp hknows
          have hop : Op.send r.2.connId (some r.1.tag) (processDbResponse r.2) ∈
              (s.server.game (cfg.laneOf r.2.connId)).onReply r.1.tag r.2 ++
                [.gameLoop (cfg.laneOf r.2.connId)] := by
            simp [GameLane.onReply, hkey]
          obtain ⟨stack', hstack', ho'⟩ := mem_exec_of_mem hi hop
          exact Or.inr (Or.inl ⟨stack', hstack', _, ho', Or.inl rfl⟩)
        · exact Or.inl hlane
    · refine Or.inr (Or.inl ?_)
      simp only [GameLane.replies, hgame, List.mem_append] at hlane ⊢
      tauto
  · exact (hhand.exec hi h).imp_right Or.inr
  · exact Or.inr (Or.inr (Or.inr ((Server.sent_prefix_exec h hadopt).subset hsent)))

/-- A response that the pool gives goes to the lane of its connection. -/
theorem located_of_answers (h : s.server.exec cfg e op = some (t, new))
    (hr : r ∈ s.server.answers t) : Located cfg ⟨t, s.threads.exec i new⟩ r := by
  obtain ⟨rfl, -⟩ | ⟨-, hgame⟩ := Server.exec_game h (cfg.laneOf r.2.connId)
  · cases h
    simp [Server.answers, Server.setGame] at hr
  · refine Or.inl ?_
    have hmem : (r.1.tag, r.2) ∈
        Server.repliesFor cfg (cfg.laneOf r.2.connId) (s.server.answers t) :=
      Server.mem_repliesFor.mpr ⟨rfl, r.1, hr, rfl⟩
    simp only [GameLane.replies, hgame, List.mem_append]
    exact Or.inr (Or.inr hmem)

/-- The responses of the pool are on their way to their connections, while these are open. -/
structure Replying (cfg : ServerConfig) (s : ServerState) : Prop where
  traced : ∃ results, Traced cfg s results
  pool : (workerPool ℕ cfg.pool).Reaches s.server.pool
  adoption : ∀ id, Adoption s id
  entry : ∀ id, Entry cfg s id
  issue : ∀ id, Issue cfg s id
  arrived : ∀ id, Arrived s id
  streams : ∀ id, (s.server.conns id).closed = false → (s.server.conns id).Streams
  located : ∀ r ∈ s.server.pool.responded, Ending s r.2.connId ∨ Located cfg s r

namespace Replying

/-- Nothing has been asked. -/
theorem fresh (cfg : ServerConfig) : Replying cfg (.fresh cfg) where
  traced := ⟨[], .fresh cfg⟩
  pool := .init rfl
  adoption := .fresh cfg
  entry := .fresh cfg
  issue := .fresh cfg
  arrived := .fresh cfg
  streams _ _ := Conn.streams_fresh
  located r hr := by simp [ServerState.fresh, Server.fresh, Pool.fresh] at hr

/-- The request of a response was asked for by its connection. -/
theorem asked (hs : Replying cfg s) (hr : r ∈ s.server.pool.responded) :
    s.server.Asked cfg r.1.tag r.1.req ∧ r.2.connId = r.1.req.connId := by
  obtain ⟨results, ht⟩ := hs.traced
  exact ⟨ht.jobs _ (ht.pool.mem_of_responded hr), (ht.sound.responded r hr).connId_eq⟩

/-- A connection that is answered has received a frame. -/
theorem received_ne_nil (hs : Replying cfg s) (hr : r ∈ s.server.pool.responded) :
    (s.server.conns r.2.connId).received ≠ [] := by
  obtain ⟨hasked, hid⟩ := hs.asked hr
  obtain ⟨view, -, -, hview, -⟩ := hasked.frame
  intro hnil
  rw [← hid, hnil] at hview
  simp at hview

/-- A connection that is answered has been made. -/
theorem connId_lt (hs : Replying cfg s) (hr : r ∈ s.server.pool.responded) :
    r.2.connId < s.server.nextId := by
  obtain ⟨results, ht⟩ := hs.traced
  by_contra hle
  exact hs.received_ne_nil hr (ht.unborn _ (by omega))

/-- A reply is where it was, or one step further. -/
theorem located_exec (hs : Replying cfg s) (hi : s.threads.head i = some op)
    (h : s.server.exec cfg e op = some (t, new)) (hr : r ∈ s.server.pool.responded) :
    Ending ⟨t, s.threads.exec i new⟩ r.2.connId ∨ Located cfg ⟨t, s.threads.exec i new⟩ r := by
  have hadopt : op = .adopt → s.server.nextId ≠ r.2.connId := fun _ => (hs.connId_lt hr).ne'
  obtain hend | hlocated := hs.located r hr
  · exact Or.inl (hend.exec hi h hadopt)
  cases hclosed : (s.server.conns r.2.connId).closed with
  | true => exact Or.inl (Ending.exec (Or.inl hclosed) hi h hadopt)
  | false =>
    obtain ⟨hasked, hid⟩ := hs.asked hr
    exact hlocated.exec hi h hadopt ((hs.issue _).knows_of_asked (hs.adoption _) (hs.entry _)
      (hs.arrived _) hclosed hasked hid.symm)

/-- Every operation keeps the replies. -/
theorem exec (hs : Replying cfg s) (hi : s.threads.head i = some op)
    (h : s.server.exec cfg e op = some (t, new)) : Replying cfg ⟨t, s.threads.exec i new⟩ where
  traced := hs.traced.elim fun _ ht => ⟨_, ht.exec hi h⟩
  pool := by
    obtain hsame | ⟨a, hstep⟩ := Server.exec_pool h
    · exact hsame ▸ hs.pool
    · exact hs.pool.step trivial hstep
  adoption id := (hs.adoption id).exec hi h
  entry id := (hs.entry id).exec (hs.adoption id) hi h
  issue id := (hs.issue id).exec hi h
  arrived id := (hs.arrived id).exec h
  streams id := Server.streams_exec h (hs.streams id)
  located r hr := by
    have hsplit : t.pool.responded = s.server.pool.responded ++ s.server.answers t :=
      List.prefix_append_drop (Server.responded_exec h)
    obtain hr | hr := List.mem_append.mp (hsplit ▸ hr : r ∈ _ ++ _)
    · exact hs.located_exec hi h hr
    · exact Or.inr (located_of_answers h hr)

/-- The environment starts a thread. -/
theorem spawn (hs : Replying cfg s) (h : (serverThreads cfg).step s (.spawn op) = some s') :
    Replying cfg s' := by
  obtain ⟨_, _, _, _, heq, -⟩ | ⟨_, -, hext, hsv, hth⟩ := ServerState.step_cases h
  · cases heq
  · exact {
      traced := hs.traced.elim fun _ ht => ⟨_, ht.step h⟩
      pool := hsv ▸ hs.pool
      adoption := fun id => (hs.adoption id).step h
      entry := fun id => (hs.entry id).step (hs.adoption id) h
      issue := fun id => (hs.issue id).step h
      arrived := fun id => (hs.arrived id).step h
      streams := hsv ▸ hs.streams
      located := fun r hr => by
        rw [hsv] at hr
        refine (hs.located r hr).imp (fun hend => ?_) fun hlocated => ?_
        · rw [Ending, hsv, hth, weight_spawn]
          exact hend.imp_right fun hpos => by omega
        · rw [Located, ServerState.InHand, hsv, hth]
          refine hlocated.imp_right (Or.imp_left ?_)
          rintro ⟨stack, hstack, hsends⟩
          exact ⟨stack, List.mem_append_left _ hstack, hsends⟩ }

end Replying

end EchoServer
