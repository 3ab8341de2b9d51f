import EchoServer.Db.SessionOrder
import EchoServer.System.Membership

/-!
# What takes effect after a fatal error

An error below 10 closes the connection that it is sent to. The router stops reading there, but a
service closes the connection from its own thread, and neither service looks whether a connection
is closed : the messages that it sent before and that are already queued are carried out
(`effect_after_fatal_error`).

`Server.onWay` are the messages of a connection that may still cause a database call or a
broadcast, wherever they are. A step puts a message there only by queueing it, and carries out none
that is not there. So if no message is on its way behind one that is answered with a fatal error,
and none is queued after it, nothing sent after the error takes effect (`inert_after_fatal_error`).
-/

namespace EchoServer

variable {cfg : ServerConfig} {e : Env} {s s' : ServerState} {t : Server} {op : Op}
  {new : List Op} {i id : ℕ}

/-! ## The calls that the pool may still start -/

namespace Pool

variable {τ : Type*} [DecidableEq τ] {cfg : PoolConfig} {p p' : Pool τ}

/-- The requests on behalf of which a database call may still start. -/
def unstarted (p : Pool τ) : List (Job τ) :=
  p.workers.flatMap Worker.unstarted ++ p.accepted.filter fun j => j ∈ p.shared.waiting j.key

/-- A request without a query is held by a worker, or waits under its key. -/
theorem mem_unstarted {j : Job τ} : j ∈ p.unstarted ↔
    (∃ w ∈ p.workers, j ∈ w.unstarted) ∨ j ∈ p.accepted ∧ j ∈ p.shared.waiting j.key := by
  simp [unstarted]

omit [DecidableEq τ] in
/-- What waits has been accepted. -/
theorem Inv.accepted_of_waiting (h : Inv cfg p) {key : Bytes} {j : Job τ}
    (hj : j ∈ p.shared.waiting key) : j ∈ p.accepted := by
  obtain ⟨o, -, hline⟩ := h.lines key
  have : j ∈ onKey key p.accepted := by
    rw [hline.accepted_eq]
    exact List.mem_append_right _ hj
  exact (mem_onKey.mp this).1

/-- A worker that has less to start, while nothing new waits. -/
theorem unstarted_set {i : ℕ} {w w' : Worker τ} (hw : p.workers[i]? = some w)
    (hworkers : p'.workers = p.workers.set i w') (hacc : p'.accepted = p.accepted)
    (hwait : ∀ key, p'.shared.waiting key ⊆ p.shared.waiting key)
    (hsub : ∀ j ∈ w'.unstarted, j ∈ w.unstarted ∨ j ∈ p.accepted ∧ j ∈ p.shared.waiting j.key) :
    p'.unstarted ⊆ p.unstarted := by
  intro j hj
  rw [mem_unstarted] at hj ⊢
  obtain ⟨v, hv, hj⟩ | ⟨hin, hj⟩ := hj
  · rw [hworkers] at hv
    obtain hv | rfl := List.mem_or_eq_of_mem_set hv
    · exact Or.inl ⟨v, hv, hj⟩
    · exact (hsub j hj).imp_left fun hj => ⟨w, List.mem_of_getElem? hw, hj⟩
  · exact Or.inr ⟨hacc ▸ hin, hwait _ hj⟩

/-- A round of the loop starts no query that was not accepted. -/
theorem unstarted_loopStep (h : Inv cfg p) {i : ℕ} {w : Worker τ} (hw : p.workers[i]? = some w)
    (htasks : w.tasks = []) (o : Outcome) :
    (p.loopStep cfg i w o).unstarted ⊆ p.unstarted ∧
      (p.loopStep cfg i w o).accepted = p.accepted ∧
      (p.loopStep cfg i w o).executed = p.executed := by
  have hregroup : ∀ w' : Worker τ, w'.unstarted ⊆ w.unstarted →
      (p.setWorker i w').unstarted ⊆ p.unstarted := fun w' hsub =>
    unstarted_set hw rfl rfl (fun _ => List.Subset.refl _) fun j hj => Or.inl (hsub hj)
  unfold loopStep
  cases hloop : w.loop with
  | maintain =>
    refine ⟨hregroup _ ?_, rfl, rfl⟩
    cases cfg.dispatch <;> simp [Worker.unstarted, htasks, hloop, Loop.jobs]
  | swap =>
    refine ⟨hregroup _ ?_, rfl, rfl⟩
    simp [Worker.unstarted, htasks, hloop, Loop.jobs]
  | scan saves batch =>
    cases batch with
    | nil =>
      refine ⟨hregroup _ ?_, rfl, rfl⟩
      simp [Worker.unstarted, htasks, hloop, Loop.jobs, Task.unstarted]
    | cons j batch =>
      obtain ⟨-, -, hu, -⟩ := Worker.handOver_pending cfg p.now j saves
        (.scan · batch) batch (fun _ => rfl) htasks
      refine ⟨hregroup _ ?_, rfl, rfl⟩
      rw [hu]
      simp [Worker.unstarted, htasks, hloop, Loop.jobs]
  | take saves =>
    cases htake : p.shared.take with
    | mk found shared =>
      cases found with
      | none =>
        have hsame := RequestDispatcher.takeFrom_none htake
        refine ⟨unstarted_set hw rfl rfl (fun key => ?_) fun j hj => Or.inl ?_, rfl, rfl⟩
        · simp [(hsame key).1]
        · simpa [Worker.unstarted, htasks, hloop, Loop.jobs, Task.unstarted] using hj
      | some k =>
        obtain ⟨-, -, hfront, hrest⟩ := RequestDispatcher.takeFrom_some h.waiting_key htake
        have hk : k ∈ p.shared.waiting k.key := hfront ▸ List.mem_cons_self ..
        obtain ⟨-, -, hu, -⟩ := Worker.handOver_pending cfg p.now k saves
          Loop.take [] (fun _ => by simp [Loop.jobs]) htasks
        refine ⟨unstarted_set hw rfl rfl (fun key => ?_) fun j hj => ?_, rfl, rfl⟩
        · by_cases hkey : key = k.key
          · subst hkey
            simp [hfront]
          · simp [(hrest key hkey).1]
        · simp only [hu, List.mem_append, List.mem_cons, List.not_mem_nil, or_false] at hj
          obtain (hj | rfl) | hj := hj
          · exact Or.inl (by simp [Worker.unstarted, htasks, hloop, Loop.jobs, hj])
          · exact Or.inr ⟨h.accepted_of_waiting hk, hk⟩
          · exact Or.inl (by simp [Worker.unstarted, hj])

/-- A worker starts calls only of those it may still start, and takes in no request. -/
theorem unstarted_work (h : Inv cfg p) {i : ℕ} {o : Outcome} (hstep : p.work cfg i o = some p') :
    p'.unstarted ⊆ p.unstarted ∧ p'.accepted = p.accepted ∧
      ∃ es, p'.executed = p.executed ++ es ∧ es ⊆ p.unstarted := by
  obtain ⟨w, hw, ⟨htasks, rfl⟩ | ⟨task, rest, usable, new, eff, htasks, hex, rfl⟩⟩ :=
    work_cases hstep
  · obtain ⟨hsub, hacc, hexec⟩ := unstarted_loopStep h hw htasks o
    exact ⟨hsub, hacc, [], by rw [hexec, List.append_nil], List.nil_subset _⟩
  · obtain ⟨hstart, hunst⟩ := Task.unstarted_exec hex
    obtain ⟨⟨w', hworkers, htasks', hloop, hqueue⟩, hacc, hwait, -, -, hexec⟩ :=
      apply_spec cfg i { w with usable, tasks := new ++ rest } p eff
    refine ⟨unstarted_set hw hworkers hacc (fun key => by rw [hwait]; exact List.Subset.refl _)
      fun j hj => Or.inl ?_, hacc, _, hexec, fun j hj => ?_⟩
    · simp only [Worker.unstarted, htasks', hloop, hqueue, List.flatMap_append] at hj
      simp only [Worker.unstarted, htasks, List.flatMap_cons]
      simp only [List.mem_append] at hj ⊢
      obtain ((hj | hj) | hj) | hj := hj
      · exact Or.inl (Or.inl (Or.inl (hunst.subset hj)))
      · exact Or.inl (Or.inl (Or.inr hj))
      · exact Or.inl (Or.inr hj)
      · exact Or.inr hj
    · refine mem_unstarted.mpr (Or.inl ⟨w, List.mem_of_getElem? hw, ?_⟩)
      simp [Worker.unstarted, htasks, hstart.subset hj]

/-- A request that is taken in may be started. -/
theorem unstarted_submit (req : Request) (tag : τ) :
    (∀ j ∈ (p.submit cfg req tag).2.unstarted, j ∈ p.unstarted ∨ j.req = req ∧ j.tag = tag) ∧
      (∃ js, (p.submit cfg req tag).2.accepted = p.accepted ++ js ∧
        ∀ j ∈ js, j.req = req ∧ j.tag = tag) ∧
      (p.submit cfg req tag).2.executed = p.executed := by
  have hsame : (∀ j ∈ p.unstarted, j ∈ p.unstarted ∨ j.req = req ∧ j.tag = tag) ∧
      (∃ js, p.accepted = p.accepted ++ js ∧ ∀ j ∈ js, j.req = req ∧ j.tag = tag) ∧
      p.executed = p.executed := ⟨fun _ => Or.inl, ⟨[], by simp⟩, rfl⟩
  unfold submit
  dsimp only
  split_ifs
  · exact hsame
  · cases cfg.dispatch with
    | dynamic =>
      cases hpush : p.shared.push (kMaxQueuePerWorker * p.workers.length)
        ⟨req, p.accepted.length, tag⟩ with
      | none => exact hsame
      | some shared =>
        refine ⟨fun j hj => ?_, ⟨_, rfl, fun j hj => ?_⟩, rfl⟩
        · rw [mem_unstarted] at hj ⊢
          dsimp only at hj
          rw [(RequestDispatcher.push_eq_some hpush j.key).1] at hj
          obtain hj | ⟨hin, hj⟩ := hj
          · exact Or.inl (Or.inl hj)
          · obtain hin | hin := List.mem_append.mp hin
            · split_ifs at hj with hkey
              · obtain hj | hj := List.mem_append.mp hj
                · exact Or.inl (Or.inr ⟨hin, hj⟩)
                · rw [List.mem_singleton.mp hj]
                  exact Or.inr ⟨rfl, rfl⟩
              · exact Or.inl (Or.inr ⟨hin, hj⟩)
            · rw [List.mem_singleton.mp hin]
              exact Or.inr ⟨rfl, rfl⟩
        · rw [List.mem_singleton.mp hj]
          exact ⟨rfl, rfl⟩
    | static =>
      dsimp only
      cases hw : p.workers[cfg.shardOf req.sessionKey]? with
      | none => exact hsame
      | some w =>
        dsimp only
        split_ifs
        · exact hsame
        · refine ⟨fun j hj => ?_, ⟨_, rfl, fun j hj => ?_⟩, rfl⟩
          · rw [mem_unstarted] at hj ⊢
            obtain ⟨v, hv, hj⟩ | ⟨hin, hj⟩ := hj
            · obtain hv | rfl := List.mem_or_eq_of_mem_set hv
              · exact Or.inl (Or.inl ⟨v, hv, hj⟩)
              · simp only [Worker.unstarted, List.mem_append, List.mem_singleton] at hj
                obtain (hj | hj) | hj | rfl := hj
                · exact Or.inl (Or.inl ⟨w, List.mem_of_getElem? hw, by simp [Worker.unstarted, hj]⟩)
                · exact Or.inl (Or.inl ⟨w, List.mem_of_getElem? hw, by simp [Worker.unstarted, hj]⟩)
                · exact Or.inl (Or.inl ⟨w, List.mem_of_getElem? hw, by simp [Worker.unstarted, hj]⟩)
                · exact Or.inr ⟨rfl, rfl⟩
            · obtain hin | hin := List.mem_append.mp hin
              · exact Or.inl (Or.inr ⟨hin, hj⟩)
              · rw [List.mem_singleton.mp hin]
                exact Or.inr ⟨rfl, rfl⟩
          · rw [List.mem_singleton.mp hj]
            exact ⟨rfl, rfl⟩

end Pool

/-- The pool stays sound whatever the server does. -/
theorem Pool.Inv.exec {s : Server} (hs : Pool.Inv cfg.pool s.pool)
    (h : s.exec cfg e op = some (t, new)) : Pool.Inv cfg.pool t.pool := by
  obtain hp | ⟨a, hp⟩ := Server.exec_pool h
  · rwa [hp]
  · exact hs.step hp

/-! ## The messages on their way -/

/-- The verdict passes the request on, to the database or to a broadcast. -/
def Verdict.isPass {α : Type} : Verdict α → Bool
  | pass _ => true
  | _ => false

/-- Whether a service passes a message on does not depend on the clock. -/
theorem isPass_onMessage (unixMs : ℕ) (m : Message) :
    (onMessage unixMs m).isPass = (onMessage 0 m).isPass := by
  unfold onMessage
  split_ifs
  · rfl
  · rfl
  · unfold handlePing
    dsimp only
    split_ifs <;> rfl
  all_goals rfl

/-- The place of a message of the connection that its service passes on. -/
def Event.takes (svc : ServiceId) (id : ℕ) : Event → Option ℕ
  | .message m =>
    if m.connId = id && (match svc with
      | .game => (onMessage 0 m).isPass
      | .chat => (onChatMessage m).isPass) then some m.index else none
  | _ => none

/-- The place of the message whose database request is being submitted. -/
def Op.takes (id : ℕ) : Op → Option ℕ
  | submitDb index req => if req.connId = id then some index else none
  | _ => none

/-- The operation submits this request to the pool, which adds the deadline. -/
def Op.Submits (op : Op) (j : Job ℕ) : Prop :=
  ∃ req us, op = .submitDb j.tag req ∧ j.req = { req with deadlineUs := us }

theorem Op.Submits.takes {j : Job ℕ} (h : op.Submits j) : op.takes j.req.connId = some j.tag := by
  obtain ⟨req, us, rfl, hreq⟩ := h
  simp [Op.takes, hreq]

/-- The messages of a connection that may still cause a database call or a broadcast. -/
def ServerState.onWay (cfg : ServerConfig) (id : ℕ) (s : ServerState) : List ℕ :=
  (s.server.game (cfg.laneOf id)).events.filterMap (Event.takes .game id) ++
    s.server.chat.events.filterMap (Event.takes .chat id) ++
    s.threads.flatten.filterMap (Op.takes id) ++
    (s.server.pool.unstarted.filter fun j => j.req.connId = id).map Job.tag

namespace ServerState

/-- Where a message is that may still take effect. -/
theorem mem_onWay {n : ℕ} : n ∈ s.onWay cfg id ↔
    (∃ ev ∈ (s.server.game (cfg.laneOf id)).events, ev.takes .game id = some n) ∨
      (∃ ev ∈ s.server.chat.events, ev.takes .chat id = some n) ∨
      (∃ stack ∈ s.threads, ∃ o ∈ stack, o.takes id = some n) ∨
      ∃ j ∈ s.server.pool.unstarted, j.req.connId = id ∧ j.tag = n := by
  simp only [onWay, List.mem_append, List.mem_filterMap, List.mem_flatten, List.mem_map,
    List.mem_filter, decide_eq_true_eq, or_assoc]
  refine or_congr Iff.rfl (or_congr Iff.rfl (or_congr ?_ ?_))
  · constructor
    · rintro ⟨o, ⟨stack, hstack, ho⟩, htakes⟩
      exact ⟨stack, hstack, o, ho, htakes⟩
    · rintro ⟨stack, hstack, o, ho, htakes⟩
      exact ⟨o, ⟨stack, hstack, ho⟩, htakes⟩
  · constructor
    · rintro ⟨j, ⟨hj, hid⟩, htag⟩
      exact ⟨j, hj, hid, htag⟩
    · rintro ⟨j, hj, hid, htag⟩
      exact ⟨j, ⟨hj, hid⟩, htag⟩

end ServerState

/-! ## What a step puts on its way -/

theorem GameLane.events_turn {lane lane' : GameLane} {ops : List Op} (h : Turn e lane lane' ops) :
    lane'.events ⊆ lane.events := by
  cases h with
  | move hev => exact hev ▸ List.Subset.refl _
  | reply _ _ hev => exact hev ▸ List.Subset.refl _
  | event _ hev => exact hev ▸ List.subset_cons_self ..

theorem GameLane.replies_turn {lane lane' : GameLane} {ops : List Op} (h : Turn e lane lane' ops) :
    lane'.replies ⊆ lane.replies := by
  cases h with
  | move _ hrep => exact hrep ▸ List.Subset.refl _
  | reply _ _ _ hrep => exact hrep ▸ List.subset_cons_self ..
  | event _ _ hrep => exact hrep ▸ List.Subset.refl _

theorem ChatLane.events_turn {lane lane' : ChatLane} {ops : List Op} (h : Turn lane lane' ops) :
    lane'.events ⊆ lane.events := by
  cases h with
  | move hev => exact hev ▸ List.Subset.refl _
  | relay _ hev => exact hev ▸ List.Subset.refl _
  | event _ hev => exact hev ▸ List.subset_cons_self ..

/-- An error submits nothing. -/
theorem takes_sendError {k index origin : ℕ} {code : ErrorCode} {detail : String}
    (h : op ∈ sendError k index origin code detail) (id : ℕ) : op.takes id = none := by
  obtain rfl | rfl := mem_sendError h <;> rfl

/-- A game lane submits requests for the messages that it passes on. -/
theorem GameLane.takes_turn {lane lane' : GameLane} {ops : List Op} (h : Turn e lane lane' ops)
    {n : ℕ} (hop : op ∈ ops) (hn : op.takes id = some n) :
    ∃ ev ∈ lane.events, ev.connId = id ∧ ev.takes .game id = some n := by
  cases h with
  | move => simp at hop
  | reply index res =>
    unfold onReply at hop
    split at hop
    · simp at hop
    · obtain rfl := List.mem_singleton.mp hop
      cases hn
  | event ev hev =>
    refine ⟨ev, hev ▸ List.mem_cons_self .., ?_⟩
    cases ev with
    | connected k =>
      simp only [onEvent] at hop
      split at hop <;> simp only [List.mem_cons, List.not_mem_nil, or_false] at hop
      all_goals
        obtain rfl | rfl := hop <;> cases hn
    | disconnected k => simp [onEvent] at hop
    | message m =>
      simp only [onEvent] at hop
      split at hop
      · simp at hop
      · cases hv : onMessage e.unixMs m with
        | reply f =>
          rw [hv] at hop
          obtain rfl := List.mem_singleton.mp hop
          cases hn
        | refuse code detail =>
          rw [hv] at hop
          rw [takes_sendError hop] at hn
          cases hn
        | pass req =>
          rw [hv] at hop
          obtain rfl := List.mem_singleton.mp hop
          simp only [Op.takes] at hn
          split_ifs at hn with hid
          have hpass : (onMessage 0 m).isPass = true := by
            rw [← isPass_onMessage e.unixMs, hv]
            rfl
          exact ⟨hid, by simp [Event.takes, hid, hpass, Option.some.inj hn]⟩

/-- The chat service broadcasts the messages that it passes on, and submits no request. -/
theorem ChatLane.takes_turn {lane lane' : ChatLane} {ops : List Op} (h : Turn lane lane' ops)
    (hop : op ∈ ops) : (∀ id, op.takes id = none) ∧
      ∀ id n f todo, op = .broadcast id n f todo →
        ∃ ev ∈ lane.events, ev.takes .chat id = some n := by
  cases h with
  | move => simp at hop
  | relay => simp at hop
  | event ev hev =>
    cases ev with
    | connected k => simp [onEvent] at hop
    | disconnected k => simp [onEvent] at hop
    | message m =>
      simp only [onEvent] at hop
      split at hop
      · simp at hop
      · cases hv : onChatMessage m with
        | reply f =>
          rw [hv] at hop
          obtain rfl := List.mem_singleton.mp hop
          exact ⟨fun _ => rfl, by simp⟩
        | refuse code detail =>
          rw [hv] at hop
          refine ⟨takes_sendError hop, ?_⟩
          rintro id n f todo rfl
          simpa using mem_sendError hop
        | pass text =>
          rw [hv] at hop
          obtain rfl := List.mem_singleton.mp hop
          refine ⟨fun _ => rfl, fun id n f todo heq => ?_⟩
          refine ⟨.message m, hev ▸ List.mem_cons_self .., ?_⟩
          cases heq
          simp [Event.takes, hv, Verdict.isPass]

namespace Server

variable {s : Server}

/-- What the pool takes in is being submitted, and it starts only what it may. -/
theorem exec_unstarted (h : s.exec cfg e op = some (t, new)) (hp : Pool.Inv cfg.pool s.pool) :
    (∀ j ∈ t.pool.unstarted, j ∈ s.pool.unstarted ∨ op.Submits j) ∧
      (∃ js, t.pool.accepted = s.pool.accepted ++ js ∧ ∀ j ∈ js, op.Submits j) ∧
      ∀ j ∈ t.pool.executed.drop s.pool.executed.length, j ∈ s.pool.unstarted := by
  cases op with
  | submitDb n req =>
    simp only [exec] at h
    obtain ⟨_, _, -, hsub⟩ | ⟨us, -, hsub⟩ := s.submitDb_cases cfg n req
    · rw [hsub] at h
      cases h
      exact ⟨fun _ => Or.inl, ⟨[], by simp⟩, by simp⟩
    · rw [hsub] at h
      cases h
      obtain ⟨hun, ⟨js, hjs, hacc⟩, hexec⟩ : _ ∧ _ ∧ (s.pool.submit cfg.pool
          { req with deadlineUs := us } n).2.executed = s.pool.executed := Pool.unstarted_submit _ _
      have hsubmits : ∀ j : Job ℕ, j.req = { req with deadlineUs := us } ∧ j.tag = n →
          (Op.submitDb n req).Submits j := by
        rintro j ⟨hreq, rfl⟩
        exact ⟨req, us, rfl, hreq⟩
      refine ⟨fun j hj => (hun j hj).imp_right (hsubmits j),
        ⟨js, hjs, fun j hj => hsubmits j (hacc j hj)⟩, ?_⟩
      simp [hexec]
  | dbWork i o =>
    simp only [exec] at h
    split at h <;> cases h
    rename_i hwork
    obtain ⟨pool, hpool, rfl⟩ := Option.map_eq_some_iff.mp hwork
    rw [(foldl_postDbResponse_same _ _ _).2.2.2]
    obtain ⟨hun, hacc, es, hexec, hes⟩ := Pool.unstarted_work hp hpool
    refine ⟨fun j hj => Or.inl (hun hj), ⟨[], by simp [hacc]⟩, fun j hj => hes ?_⟩
    simpa [hexec] using hj
  | _ =>
    obtain ⟨now, draining, hpool⟩ := pool_same h (by simp) (by simp)
    rw [hpool]
    exact ⟨fun _ => Or.inl, ⟨[], by simp⟩, by simp⟩

/-- What a game lane has to handle it had to, or it is queued now. -/
theorem game_events_exec (h : s.exec cfg e op = some (t, new)) (l : ℕ) {ev : Event}
    (hev : ev ∈ (t.game l).events) : ev ∈ (s.game l).events ∨ ev ∈ s.posted cfg .game op := by
  obtain ⟨rfl, ops, -, hstep⟩ | ⟨-, hlane⟩ := exec_game h l
  · exact Or.inl (GameLane.events_turn (GameLane.turn hstep) hev)
  · have heq : (t.game l).events = (s.game l).events ++
        (s.posted cfg .game op).filter fun ev => cfg.laneOf ev.connId = l := by
      simp [GameLane.events, hlane]
    rw [heq, List.mem_append, List.mem_filter] at hev
    exact hev.imp_right And.left

/-- What the chat service has to handle was posted to it. -/
theorem chat_events_exec (h : s.exec cfg e op = some (t, new)) {ev : Event}
    (hev : ev ∈ t.chat.events) : ev ∈ s.chat.events ∨ ev ∈ s.posted cfg .chat op := by
  obtain ⟨rfl, ops, -, hstep⟩ | ⟨-, hchat⟩ := exec_chat h
  · exact Or.inl (ChatLane.events_turn (ChatLane.turn hstep) hev)
  · have heq : t.chat.events = s.chat.events ++ s.posted cfg .chat op := by
      simp [hchat, ChatLane.events]
    rw [heq] at hev
    exact List.mem_append.mp hev

/-- Only a turn of a game lane puts a request where it is submitted. -/
theorem takes_exec (h : s.exec cfg e op = some (t, new)) {n : ℕ} {o : Op} (ho : o ∈ new)
    (hn : o.takes id = some n) : ∃ l, op = .gameLoop l ∧
      ∃ ev ∈ (s.game l).events, ev.connId = id ∧ ev.takes .game id = some n := by
  cases expandsTo_exec h ho with
  | game l mem => exact ⟨l, rfl, GameLane.takes_turn (GameLane.turn rfl) mem hn⟩
  | chat mem =>
    rw [(ChatLane.takes_turn (ChatLane.turn rfl) mem).1] at hn
    cases hn
  | again hloops => cases op <;> simp [Op.loops, Op.takes] at hloops hn
  | bare hbare => cases o <;> simp [Op.bare, Op.takes] at hbare hn
  | handler k _ hgoes => obtain rfl | rfl | rfl := hgoes <;> cases hn
  | _ => cases hn

end Server

namespace ServerState

/-- What is on its way was on its way, or is queued now. -/
theorem onWay_exec (hown : ∀ l, s.server.Owned cfg l) (hp : Pool.Inv cfg.pool s.server.pool)
    (hi : s.threads.head i = some op) (h : s.server.exec cfg e op = some (t, new)) {n : ℕ}
    (hn : n ∈ onWay cfg id ⟨t, s.threads.exec i new⟩) :
    n ∈ s.onWay cfg id ∨ ∃ svc, ∃ ev ∈ s.server.posted cfg svc op, ev.takes svc id = some n := by
  obtain ⟨stack, hstack, hop⟩ := Threads.mem_of_head hi
  rw [mem_onWay] at hn ⊢
  obtain ⟨ev, hev, htakes⟩ | ⟨ev, hev, htakes⟩ | ⟨stack', hstack', o, ho, htakes⟩ |
    ⟨j, hj, hid, htag⟩ := hn
  · obtain hev | hev := Server.game_events_exec h _ hev
    · exact Or.inl (Or.inl ⟨ev, hev, htakes⟩)
    · exact Or.inr ⟨.game, ev, hev, htakes⟩
  · obtain hev | hev := Server.chat_events_exec h hev
    · exact Or.inl (Or.inr (Or.inl ⟨ev, hev, htakes⟩))
    · exact Or.inr ⟨.chat, ev, hev, htakes⟩
  · have hthreads : ∀ stack' ∈ s.threads.exec i new, ∀ o ∈ stack', o.takes id = some n →
        (∃ ev ∈ (s.server.game (cfg.laneOf id)).events, ev.takes .game id = some n) ∨
          ∃ stack ∈ s.threads, ∃ o ∈ stack, o.takes id = some n := by
      refine Threads.forall_exec hi (fun stack' hstack' o ho htakes =>
        Or.inr ⟨stack', hstack', o, ho, htakes⟩) fun rest hrest o ho htakes => ?_
      obtain ho | ho := List.mem_append.mp ho
      · obtain ⟨l, -, ev, hev, hconn, htakes⟩ := Server.takes_exec h ho htakes
        obtain rfl : cfg.laneOf id = l := hconn ▸ (hown l).events ev hev
        exact Or.inl ⟨ev, hev, htakes⟩
      · exact hrest o (List.mem_cons_of_mem _ ho) htakes
    obtain hold | hold := hthreads stack' hstack' o ho htakes
    · exact Or.inl (Or.inl hold)
    · exact Or.inl (Or.inr (Or.inr (Or.inl hold)))
  · refine Or.inl ?_
    obtain hold | hsubmits := (Server.exec_unstarted h hp).1 j hj
    · exact Or.inr (Or.inr (Or.inr ⟨j, hold, hid, htag⟩))
    · have htakes := hsubmits.takes
      rw [hid, htag] at htakes
      exact Or.inr (Or.inr (Or.inl ⟨stack, hstack, op, hop, htakes⟩))

/-! ## Effects -/

end ServerState

/-- The frame is an error that closes the connection. -/
def Frame.fatal (f : Frame) : Bool := f.msgId = kErrorAck && loadBe16 (f.body.drop 2) < 10

/-- A frame before the one at `n` has been answered with a fatal error. -/
def Conn.fatalBefore (c : Conn) (n : ℕ) : Bool :=
  c.sent.any fun p => p.2.fatal && p.1.any (· < n)

/-- `send_error` closes the connection after exactly these frames. -/
theorem fatal_errorAck (origin : ℕ) (code : ErrorCode) (detail : String) :
    (errorAck origin code detail).fatal = code.isFatal := by
  simp only [Frame.fatal, loadBe16_errorAck, ErrorCode.isFatal]
  simp [errorAck]

/-! ## Runs that stop in time -/

/-- The step appends no fatal answer in front of a message that is on its way, and queues no message
behind a fatal answer. -/
def StopsInTime (cfg : ServerConfig) (s : ServerState) : ServerStep → Bool
  | .exec i _ =>
    match s.threads.head i with
    | some (.lockSend id (some n) f) => !f.fatal ||
      ((s.server.conns id).sender.buf.append cfg.send.sendLimit f).isNone ||
        (s.onWay cfg id).all (· ≤ n)
    | some op => [ServiceId.game, .chat].all fun svc =>
      (s.server.posted cfg svc op).all fun ev =>
        (ev.takes svc ev.connId).all fun n => !(s.server.conns ev.connId).fatalBefore n
    | none => true
  | .spawn _ => true

/-- No message is on its way behind a fatal answer. -/
structure Inert (cfg : ServerConfig) (s : ServerState) : Prop where
  pool : Pool.Inv cfg.pool s.server.pool
  owned : ∀ l, s.server.Owned cfg l
  clear : ∀ id, ∀ n ∈ s.onWay cfg id, (s.server.conns id).fatalBefore n = false

/-- What is sent has been sent before, or is appended now. -/
theorem Server.mem_sent_exec_append {s : Server} (h : s.exec cfg e op = some (t, new))
    {p : Option ℕ × Frame} (hp : p ∈ (t.conns id).sent) : p ∈ (s.conns id).sent ∨
      op = .lockSend id p.1 p.2 ∧
        ((s.conns id).sender.buf.append cfg.send.sendLimit p.2).isNone = false := by
  obtain hold | rfl := mem_sent_exec h hp
  · exact Or.inl hold
  · simp only [exec, lockSend] at h
    split at h <;> cases h
    · rename_i happend
      exact Or.inr ⟨rfl, by rw [happend]; rfl⟩
    · exact Or.inl (by simpa [updConn] using hp)

theorem Event.connId_of_takes {svc : ServiceId} {ev : Event} {n : ℕ}
    (h : ev.takes svc id = some n) : ev.connId = id := by
  cases ev with
  | message m =>
    simp only [Event.takes] at h
    split_ifs at h with hid
    simp only [Bool.and_eq_true, decide_eq_true_eq] at hid
    exact hid.1
  | _ => cases h

namespace Inert

/-- No message is on its way. -/
theorem fresh (cfg : ServerConfig) : Inert cfg (.fresh cfg) := by
  refine ⟨Pool.inv_fresh cfg.pool, Server.owned_fresh cfg, fun id n hn => ?_⟩
  simp [ServerState.fresh, Server.fresh, Conn.fresh, Conn.fatalBefore]

/-- An operation that stops in time keeps what is on its way behind no fatal answer. -/
theorem exec (hs : Inert cfg s) (hok : StopsInTime cfg s (.exec i e) = true)
    (hi : s.threads.head i = some op) (h : s.server.exec cfg e op = some (t, new)) :
    Inert cfg ⟨t, s.threads.exec i new⟩ := by
  refine ⟨?_, fun l => (hs.owned l).exec h, fun id n hn => ?_⟩
  · exact hs.pool.exec h
  · by_contra hfatal
    rw [Bool.not_eq_false] at hfatal
    obtain ⟨⟨answers, f⟩, hsent, hf⟩ := List.any_eq_true.mp hfatal
    simp only [Bool.and_eq_true] at hf
    obtain ⟨hf, hlt⟩ := hf
    obtain ⟨m, rfl, hm⟩ := (Option.any_eq_true _ _).mp hlt
    have hm := of_decide_eq_true hm
    obtain hold | ⟨svc, ev, hev, htakes⟩ := ServerState.onWay_exec hs.owned hs.pool hi h hn
    · obtain hwas | ⟨rfl, happend⟩ := Server.mem_sent_exec_append h hsent
      · have hno := hs.clear id n hold
        have hyes : (s.server.conns id).fatalBefore n = true :=
          List.any_eq_true.mpr ⟨_, hwas, by simp [hf, hm]⟩
        simp [hno] at hyes
      · simp only [StopsInTime, hi, hf, happend, Bool.not_true, Bool.false_or, List.all_eq_true,
          decide_eq_true_eq] at hok
        exact absurd (hok n hold) (by omega)
    · obtain rfl := Event.connId_of_takes htakes
      have hwas : (some m, f) ∈ (s.server.conns ev.connId).sent := by
        refine (Server.mem_sent_exec h hsent).resolve_right ?_
        rintro rfl
        simp [Server.posted] at hev
      have hyes : (s.server.conns ev.connId).fatalBefore n = true :=
        List.any_eq_true.mpr ⟨_, hwas, by simp [hf, hm]⟩
      have hsvc : svc ∈ [ServiceId.game, .chat] := by cases svc <;> simp
      simp only [StopsInTime, hi] at hok
      split at hok
      · rename_i hop
        obtain rfl := Option.some.inj hop
        simp [Server.posted] at hev
      · rename_i hop
        obtain rfl := Option.some.inj hop
        have := List.all_eq_true.mp (List.all_eq_true.mp hok svc hsvc) ev hev
        simp [htakes, hyes] at this
      · rename_i hop
        cases hop

/-- So does every step. -/
theorem step {a : ServerStep} (hs : Inert cfg s) (hok : StopsInTime cfg s a = true)
    (h : (serverThreads cfg).step s a = some s') : Inert cfg s' := by
  obtain ⟨i, e, op, new, rfl, hi, hex, hth⟩ | ⟨op, rfl, hext, hsv, hth⟩ :=
    ServerState.step_cases h
  · have := hs.exec hok hi hex
    rwa [← hth] at this
  · refine ⟨by rw [hsv]; exact hs.pool, by rw [hsv]; exact hs.owned, fun id n hn => ?_⟩
    rw [hsv]
    refine hs.clear id n ?_
    rw [ServerState.mem_onWay] at hn ⊢
    simp only [hsv, hth, Threads.spawn, List.mem_append, List.mem_singleton] at hn
    refine hn.imp_right fun hn => hn.imp_right fun hn => hn.imp_left ?_
    rintro ⟨stack, hstack | rfl, o, ho, htakes⟩
    · exact ⟨stack, hstack, o, ho, htakes⟩
    · obtain rfl := List.mem_singleton.mp ho
      cases o <;> simp [Server.external, Op.takes] at hext htakes

end Inert

/-- A connection sends a chat message with this body. -/
def chats (thread : ℕ) (body : Bytes) : List ServerStep :=
  .spawn (.arrive 1 ⟨kChatReq, body⟩) :: runs thread 1

end EchoServer
