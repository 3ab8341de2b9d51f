import EchoServer.Db.Results
import EchoServer.Db.Tables
import EchoServer.Db.Deadlines

/-!
# What a session reads

The worker pool together with the table `echo_log`. A Save inserts a row, by itself or in the
transaction of a batch, a History reads the rows of its session that are committed; every other
answer of the database is left open, and so is what a call that fails has done : an insert or a
commit may have taken effect when its answer is lost, but takes none later. Workers run side by
side, each with a transaction of its own. The transaction of a Counter is not followed : where a
COMMIT or a ROLLBACK fails it can stay open behind the Counter (`leftOpen`), and what the connection
stores then is not committed, so such runs are left out (`EndsTransactions`).

A row keeps the request that stored it, which no statement reads.

For each session the rows are a log that only grows (`LoggedPool.view`). A Save that is answered Ok
has its row there, under the id that the answer carries; a History that is answered Ok has the
newest of the rows stored for what its session asked before it (`session_reads`).
-/

namespace EchoServer

variable {τ : Type*}

/-! ## The pool and its log -/

/-- A row of `echo_log` : the request that stored it, and its id. -/
abbrev StoredRow (τ : Type*) := Job τ × ℕ

namespace StoredRow

/-- The row as the table has it. -/
def entry (row : StoredRow τ) : LogEntry := ⟨row.2, row.1.key, row.1.req.payload⟩

/-- The row as a History answers it. -/
def logRow (createdAt : ℕ → ℕ) (row : StoredRow τ) : LogRow :=
  ⟨row.2, row.1.req.payload.take kMaxPayloadLen, createdAt row.2⟩

end StoredRow

/-- The pool, with the rows of `echo_log` that its workers have stored. -/
structure LoggedPool (τ : Type*) where
  pool : Pool τ
  /-- The rows that are committed. -/
  rows : List (StoredRow τ)
  /-- What the transaction of each worker has inserted. -/
  txns : ℕ → List (StoredRow τ)
  nextLogId : ℕ

/-- A step of the pool, with what the database has done of it. -/
inductive LoggedStep (τ : Type*) where
  /-- A step of the pool that is not one of a worker. -/
  | pool (a : PoolStep τ)
  /-- A step of worker `i`; `applied` is whether a call that fails has taken effect, and `leftOpen`
  whether a Counter leaves its transaction open, since the COMMIT or a ROLLBACK has failed. -/
  | work (i : ℕ) (o : Outcome) (applied leftOpen : Bool)

namespace LoggedPool

/-- The pool as it starts, over an empty table. -/
def fresh (cfg : PoolConfig) : LoggedPool τ := ⟨.fresh cfg, [], fun _ => [], 1⟩

/-- The tables with the rows that are committed. -/
def tables (s : LoggedPool τ) : Tables := { Tables.empty with log := s.rows.map StoredRow.entry }

/-- The rows of a session. -/
def view (key : Bytes) (s : LoggedPool τ) : List (StoredRow τ) :=
  s.rows.filter fun row => row.1.key = key

/-- The rows of the session of `j` that were stored for requests accepted before it. -/
def before (j : Job τ) (s : LoggedPool τ) : List (StoredRow τ) :=
  (s.view j.key).filter fun row => row.1.seq < j.seq

/-- What is left to worker `i`. -/
def tasks (i : ℕ) (s : LoggedPool τ) : List (Task τ) :=
  (s.pool.workers[i]?.map Worker.tasks).getD []

/-- Whether the connection of worker `i` is usable. -/
def usable (i : ℕ) (s : LoggedPool τ) : Bool := (s.pool.workers[i]?.map Worker.usable).getD false

/-- What the database does when a task of worker `i` gets the answer `o`; `none` is an answer that
it does not give. -/
def call (createdAt : ℕ → ℕ) (i : ℕ) (o : Outcome) (applied : Bool) (s : LoggedPool τ) :
    Task τ → Option (LoggedPool τ)
  | .queried j _ =>
    match j.req.kind with
    | .save =>
      if o.ok && o.logId ≠ s.nextLogId then none
      else if o.ok || applied then
        some { s with rows := s.rows ++ [(j, s.nextLogId)], nextLogId := s.nextLogId + 1 }
      else some s
    | .history =>
      if o.ok && o.rows ≠ s.tables.recent createdAt j.key j.req.limit then none else some s
    | .counter => some s
  | .inserted saves logIds =>
    if o.ok then
      match saves[logIds.length]? with
      | some j =>
        if o.logId = s.nextLogId then
          some { s with
            txns := Function.update s.txns i (s.txns i ++ [(j, s.nextLogId)])
            nextLogId := s.nextLogId + 1 }
        else none
      | none => none
    else some s
  | .commitBatch _ _ =>
    if o.ok || applied then
      some { s with rows := s.rows ++ s.txns i, txns := Function.update s.txns i [] }
    else some s
  | .rollbackBatch _ =>
    -- a connection that is lost has lost its transaction
    if o.ok || o.lost || !s.usable i then some { s with txns := Function.update s.txns i [] }
    else some s
  | _ => some s

/-- One step of the pool, together with what it does to the table. -/
def step (cfg : PoolConfig) (createdAt : ℕ → ℕ) (s : LoggedPool τ) :
    LoggedStep τ → Option (LoggedPool τ)
  | .pool a =>
    match a with
    | .work _ _ => none
    | a => ((workerPool τ cfg).step s.pool a).map fun pool => { s with pool }
  | .work i o applied _ =>
    match s.tasks i with
    | [] => (s.pool.work cfg i o).map fun pool => { s with pool }
    | t :: _ =>
      match s.call createdAt i o applied t with
      | none => none
      | some s' => (s.pool.work cfg i o).map fun pool => { s' with pool }

/-- No transaction stays open behind what has begun it : the ROLLBACK of a batch succeeds, and a
Counter leaves none, or else the connection is lost. -/
def EndsTransactions (s : LoggedPool τ) : LoggedStep τ → Bool
  | .work i o _ leftOpen =>
    match s.tasks i with
    | .rollbackBatch _ :: _ => o.ok || o.lost || !s.usable i
    | .queried j _ :: _ => j.req.kind ≠ .counter || !leftOpen || o.lost || !s.usable i
    | _ => true
  | _ => true

end LoggedPool

/-- The pool and its table from the start on. -/
def loggedPool (τ : Type*) (cfg : PoolConfig) (createdAt : ℕ → ℕ) :
    Machine (LoggedPool τ) (LoggedStep τ) where
  init s := s = .fresh cfg
  step := LoggedPool.step cfg createdAt

/-! ## What a task knows of the log -/

namespace Task

/-- The requests that are not answered and whose rows may be there. -/
def stored : Task τ → List (Job τ)
  | respond j _ | fail j => [j]
  | rollbackBatch saves | failBatch saves => saves
  | respondBatch _ todo => todo.map Prod.fst
  | _ => []

/-- What the transaction has inserted when a task is next; in a rollback nobody asks. -/
def inserting : Task τ → Option (List (StoredRow τ))
  | insert saves logIds | inserted saves logIds | commitBatch saves logIds => some (saves.zip logIds)
  | rollbackBatch _ => none
  | _ => some []

/-- The answers at hand. -/
def answers : Task τ → List (Job τ × Response)
  | respond j res => [(j, res)]
  | respondBatch _ todo => todo
  | _ => []

/-- The task has nothing to do with rows. -/
structure Apart (t : Task τ) : Prop where
  stored : t.stored = []
  inserting : t.inserting = some []
  answers : t.answers = []

variable {now : ℕ} {usable usable' : Bool} {o : Outcome} {t : Task τ} {new : List (Task τ)}
  {eff : Effect τ}

/-- What is stored is answered, or is so by the next task. -/
theorem stored_exec (h : t.exec now usable o = (usable', new, eff)) {j : Job τ}
    (hj : j ∈ t.stored) : j ∈ eff.answered ∨ ∃ t' rest, new = t' :: rest ∧ j ∈ t'.stored := by
  cases t with
  | respond k res =>
    cases h
    exact Or.inl hj
  | fail k =>
    cases h
    exact Or.inr ⟨_, _, rfl, hj⟩
  | rollbackBatch saves =>
    cases h
    exact Or.inr ⟨_, _, rfl, hj⟩
  | failBatch saves =>
    cases h
    exact Or.inr ⟨_, _, rfl, by simpa [stored] using hj⟩
  | respondBatch done todo =>
    cases todo with
    | nil => simp [stored] at hj
    | cons p todo =>
      cases h
      simp only [stored, List.map_cons, List.mem_cons] at hj
      obtain rfl | hj := hj
      · exact Or.inl (List.mem_singleton.mpr rfl)
      · exact Or.inr ⟨_, _, rfl, hj⟩
  | _ => simp [stored] at hj

/-- A task that expands to several expands to releases. -/
theorem apart_exec (h : t.exec now usable o = (usable', new, eff)) :
    (∀ t' ∈ new.tail, t'.Apart) ∧ (new = [] ∨ (∃ t', new = [t']) ∨ ∀ t' ∈ new, t'.Apart) := by
  have hrelease : ∀ done : List (Job τ), ∀ t' ∈ done.map release, t'.Apart := by
    intro done t' ht'
    obtain ⟨j, -, rfl⟩ := List.mem_map.mp ht'
    exact ⟨rfl, rfl, rfl⟩
  cases t with
  | respondBatch done todo =>
    cases todo with
    | nil =>
      cases h
      exact ⟨fun t' ht' => hrelease done t' (List.mem_of_mem_tail ht'),
        Or.inr (Or.inr (hrelease done))⟩
    | cons p todo =>
      cases h
      exact ⟨by simp, Or.inr (Or.inl ⟨_, rfl⟩)⟩
  | _ =>
    simp only [exec] at h
    repeat' split at h
    all_goals cases h
    all_goals first
      | exact ⟨by simp, Or.inl rfl⟩
      | exact ⟨by simp, Or.inr (Or.inl ⟨_, rfl⟩)⟩

/-- The task asks the database for something that changes the rows, or reads them. -/
def asks (o : Outcome) (applied : Bool) : Task τ → Bool
  | queried _ _ | rollbackBatch _ => true
  | inserted _ _ => o.ok
  | commitBatch _ _ => o.ok || applied
  | _ => false

/-- What is inserted by the first of some tasks. -/
def insertingAll : List (Task τ) → Option (List (StoredRow τ))
  | [] => some []
  | t :: _ => t.inserting

/-- Tasks that have nothing to do with a batch insert nothing. -/
theorem insertingAll_of_apart {ts : List (Task τ)} (h : ∀ t ∈ ts, t.Apart) :
    insertingAll ts = some [] := by
  cases ts with
  | nil => rfl
  | cons t ts => exact (h t List.mem_cons_self).inserting

/-- A task that asks for nothing leaves the transaction as it is, and brings no answer but a report
that its request failed. -/
theorem quiet_exec (h : t.exec now usable o = (usable', new, eff)) {applied : Bool}
    (hasks : t.asks o applied = false) {rest : List (Task τ)} (hrest : ∀ t' ∈ rest, t'.Apart) :
    (∀ rows, insertingAll (new ++ rest) = some rows → t.inserting = some rows) ∧
      ∀ p ∈ new.flatMap answers, p ∈ t.answers ∨ p.2.status ≠ .ok := by
  have hnil := insertingAll_of_apart hrest
  have hrelease : ∀ done : List (Job τ), insertingAll (done.map release ++ rest) = some [] := by
    intro done
    refine insertingAll_of_apart fun t' ht' => ?_
    obtain ht' | ht' := List.mem_append.mp ht'
    · obtain ⟨j, -, rfl⟩ := List.mem_map.mp ht'
      exact ⟨rfl, rfl, rfl⟩
    · exact hrest t' ht'
  have hfailed : ∀ saves : List (Job τ), ∀ q ∈ Job.failedAll saves (failedStatus usable),
      q.2.status ≠ .ok := by
    intro saves q hq
    obtain ⟨j, -, rfl⟩ := List.mem_map.mp hq
    exact failedStatus_ne_ok usable
  cases t with
  | queried | rollbackBatch => simp [asks] at hasks
  | inserted saves logIds =>
    have hok : o.ok = false := hasks
    simp only [exec, hok] at h
    cases h
    exact ⟨by simp [insertingAll, inserting], by simp [answers]⟩
  | commitBatch saves logIds =>
    have hok : o.ok = false := (Bool.or_eq_false_iff.mp hasks).1
    simp only [exec, hok] at h
    cases h
    exact ⟨by simp [insertingAll, inserting], by simp [answers]⟩
  | respondBatch done todo =>
    cases todo with
    | nil =>
      cases h
      refine ⟨fun rows hrows => ?_, by simp [answers]⟩
      rw [hrelease] at hrows
      exact hrows
    | cons p todo =>
      cases h
      refine ⟨fun rows hrows => hrows, fun q hq => Or.inl ?_⟩
      have hq : q ∈ todo := by simpa [answers] using hq
      exact List.mem_cons_of_mem p hq
  | failBatch saves =>
    cases h
    refine ⟨fun rows hrows => hrows, fun q hq => Or.inr (hfailed saves q ?_)⟩
    simpa [answers] using hq
  | insert saves logIds =>
    simp only [exec] at h
    split at h <;> cases h
    · exact ⟨fun rows hrows => hrows, by simp [answers]⟩
    · exact ⟨fun rows hrows => hrows, by simp [answers]⟩
  | _ =>
    simp only [exec] at h
    repeat' split at h
    all_goals cases h
    all_goals
      refine ⟨?_, ?_⟩
      · first
          | exact fun rows hrows => hnil.symm.trans hrows
          | simp [insertingAll, inserting]
      · simp [answers, Job.failure, failedStatus_ne_ok]

/-- A response that is given was at hand. -/
theorem responses_exec (h : t.exec now usable o = (usable', new, eff)) :
    eff.answered = eff.responses.map Prod.fst ∧ ∀ q ∈ eff.responses, q ∈ t.answers := by
  cases t with
  | respond j res =>
    cases h
    simp [Effect.answered, Effect.responses, answers]
  | respondBatch done todo =>
    cases todo with
    | nil =>
      cases h
      simp [Effect.answered, Effect.responses]
    | cons p todo =>
      cases h
      simp [Effect.answered, Effect.responses, answers]
  | _ =>
    simp only [exec] at h
    repeat' split at h
    all_goals cases h
    all_goals simp [Effect.answered, Effect.responses]

/-- A call that succeeds gives the answer; a Save that fails is not tried again. -/
theorem queried_exec {j : Job τ} {retry : Bool}
    (h : (queried j retry).exec now usable o = (usable', new, eff)) :
    o.ok = true ∧ new = [respond j (j.success o)] ∨
      o.ok = false ∧ (new = [fail j] ∨ new = [reconnect j] ∧ j.req.kind ≠ .save) := by
  simp only [exec] at h
  split_ifs at h with hok hretry <;> cases h
  · exact Or.inl ⟨hok, rfl⟩
  · refine Or.inr ⟨by simpa using hok, Or.inr ⟨rfl, fun hkind => ?_⟩⟩
    simp [hkind, isRetrySafe] at hretry
  · exact Or.inr ⟨by simpa using hok, Or.inl rfl⟩

/-- A Save that is being inserted has not been answered. -/
theorem mem_pending_of_inserting {rows : List (StoredRow τ)} (h : t.inserting = some rows)
    {row : StoredRow τ} (hrow : row ∈ rows) : row.1 ∈ t.pending := by
  cases t with
  | insert saves logIds | inserted saves logIds | commitBatch saves logIds =>
    obtain rfl := Option.some.inj h
    exact (List.of_mem_zip hrow).1
  | rollbackBatch => cases h
  | _ =>
    obtain rfl := Option.some.inj h
    cases hrow

/-- Nor has one that is stored. -/
theorem stored_subset_pending (t : Task τ) {j : Job τ} (h : j ∈ t.stored) : j ∈ t.pending := by
  cases t <;> simp_all [stored, pending]

end Task

/-! ## The order of a session -/

namespace Pool

variable {cfg : PoolConfig} {p : Pool τ} {i i' : ℕ} {w w' : Worker τ} {j x : Job τ}

/-- The requests of a session are accepted in the order of their numbers. -/
theorem Inv.onKey_pairwise (h : Inv cfg p) (key : Bytes) :
    ((onKey key p.accepted).map Job.seq).Pairwise (· < ·) :=
  h.seq_pairwise.sublist (List.filter_sublist.map _)

/-- One worker has the requests of a key that are neither answered nor waiting. -/
theorem Inv.same_worker (h : Inv cfg p) (hw : p.workers[i]? = some w)
    (hw' : p.workers[i']? = some w') (hj : j ∈ w.pending) (hx : x ∈ w'.pending)
    (hkey : x.key = j.key) : i = i' := by
  obtain ⟨o, -, hline⟩ := h.lines j.key
  have hi : i = o := by
    by_contra hne
    exact hline.others i w hw hne j (w.pending_sublist.subset hj) rfl
  have hi' : i' = o := by
    by_contra hne
    exact hline.others i' w' hw' hne x (w'.pending_sublist.subset hx) hkey
  rw [hi, hi']

/-- What is answered was accepted before what a worker has still to answer. -/
theorem Inv.responded_lt (h : Inv cfg p) (hw : p.workers[i]? = some w) (hj : j ∈ w.pending)
    (hx : x ∈ p.responded.map Prod.fst) (hkey : x.key = j.key) : x.seq < j.seq := by
  obtain ⟨o, -, hline⟩ := h.lines j.key
  have hi : i = o := by
    by_contra hne
    exact hline.others i w hw hne j (w.pending_sublist.subset hj) rfl
  subst hi
  have hacc := h.onKey_pairwise j.key
  rw [hline.accepted_eq, List.append_assoc, List.map_append, List.pairwise_append] at hacc
  refine hacc.2.2 _ (List.mem_map_of_mem (mem_onKey.mpr ⟨hx, hkey⟩)) _ (List.mem_map_of_mem ?_)
  refine List.mem_append_left _ (mem_onKey.mpr ⟨?_, rfl⟩)
  simpa [pendingOf, hw] using hj

/-- Everything of a session before the first request that a worker has to answer is answered. -/
theorem Inv.responded_of_lt (h : Inv cfg p) (hw : p.workers[i]? = some w) {rest : List (Job τ)}
    (hpend : w.pending = j :: rest) (hx : x ∈ p.accepted) (hkey : x.key = j.key)
    (hlt : x.seq < j.seq) : x ∈ p.responded.map Prod.fst := by
  obtain ⟨o, -, hline⟩ := h.lines j.key
  have hj : j ∈ w.pending := hpend ▸ List.mem_cons_self
  have hi : i = o := by
    by_contra hne
    exact hline.others i w hw hne j (w.pending_sublist.subset hj) rfl
  subst hi
  have hacc := h.onKey_pairwise j.key
  have hmem : x ∈ onKey j.key p.accepted := mem_onKey.mpr ⟨hx, hkey⟩
  have hhead : onKey j.key (p.pendingOf i) = j :: onKey j.key rest := by
    simp [pendingOf, hw, hpend, onKey]
  rw [hline.accepted_eq, List.append_assoc, hhead] at hmem hacc
  obtain hmem | hmem := List.mem_append.mp hmem
  · exact (mem_onKey.mp hmem).1
  · -- no request behind the first one was accepted before it
    exfalso
    rw [List.map_append, List.pairwise_append] at hacc
    rw [List.cons_append, List.mem_cons] at hmem
    obtain rfl | hmem := hmem
    · exact lt_irrefl _ hlt
    · have := List.rel_of_pairwise_cons hacc.2.1 (List.mem_map_of_mem hmem)
      omega

/-- The requests of a session that a worker has are in the order of their acceptance. -/
theorem Inv.pending_pairwise (h : Inv cfg p) (hw : p.workers[i]? = some w) :
    w.pending.Pairwise fun a b => b.key = a.key → a.seq < b.seq := by
  refine List.pairwise_of_forall_sublist fun {a b} hab hkey => ?_
  obtain ⟨o, -, hline⟩ := h.lines a.key
  have ha : a ∈ w.pending := hab.subset (by simp)
  have hi : i = o := by
    by_contra hne
    exact hline.others i w hw hne a (w.pending_sublist.subset ha) rfl
  subst hi
  have hacc := h.onKey_pairwise a.key
  have hsub : [a, b].Sublist (onKey a.key p.accepted) := by
    have honly : onKey a.key [a, b] = [a, b] := by simp [onKey, hkey]
    rw [hline.accepted_eq, List.append_assoc, ← honly]
    refine List.Sublist.trans ?_ (List.sublist_append_right ..)
    refine List.Sublist.trans ?_ (List.sublist_append_left ..)
    rw [show p.pendingOf i = w.pending by simp [pendingOf, hw]]
    exact hab.filter _
  have := hacc.sublist (hsub.map _)
  simpa using this

/-- A request that is submitted is accepted at the end, under the next number, or not at all. -/
theorem accepted_grows (cfg : PoolConfig) (req : Request) (tag : τ) (p : Pool τ) :
    (p.submit cfg req tag).2.accepted = p.accepted ∨ ∃ x : Job τ,
      (p.submit cfg req tag).2.accepted = p.accepted ++ [x] ∧ x.seq = p.accepted.length := by
  unfold submit
  dsimp only
  repeat' split
  all_goals first
    | exact Or.inl rfl
    | exact Or.inr ⟨_, rfl, rfl⟩

/-- A round of the loop accepts nothing. -/
theorem loopStep_accepted (cfg : PoolConfig) (i : ℕ) (w : Worker τ) (o : Outcome) (p : Pool τ) :
    (p.loopStep cfg i w o).accepted = p.accepted := by
  unfold loopStep
  repeat' split
  all_goals rfl

end Pool

namespace LoggedPool

variable {cfg : PoolConfig} {createdAt : ℕ → ℕ} {s s' : LoggedPool τ} {i : ℕ} {o : Outcome}
  {applied : Bool} {j : Job τ} {res : Response} {t : Task τ} {rest : List (Task τ)}

/-! ## What an answer says -/

/-- A History has the newest of the rows stored before it, and everything that was accepted before
it in its session is answered. -/
def Reads (createdAt : ℕ → ℕ) (s : LoggedPool τ) (j : Job τ) (res : Response) : Prop :=
  res.rows = ((s.before j).reverse.take j.req.limit).map (StoredRow.logRow createdAt) ∧
    ∀ x ∈ s.pool.accepted, x.key = j.key → x.seq < j.seq → x ∈ s.pool.responded.map Prod.fst

/-- A Save that is answered Ok has its row under the id of the answer, and a History reads. -/
def Answered (createdAt : ℕ → ℕ) (s : LoggedPool τ) (q : Job τ × Response) : Prop :=
  q.2.status = .ok → match q.1.req.kind with
    | .save => (q.1, q.2.logId) ∈ s.rows
    | .history => q.1 ∈ s.pool.accepted ∧ s.Reads createdAt q.1 q.2
    | .counter => True

/-- Rows, answers and requests come at the end, the rows for requests that are not answered. -/
structure Grows (s s' : LoggedPool τ) (added : List (StoredRow τ)) : Prop where
  rows : s'.rows = s.rows ++ added
  added : ∀ row ∈ added, row.1 ∈ s.pool.accepted ∧ row.1 ∉ s.pool.responded.map Prod.fst
  responded : s.pool.responded <+: s'.pool.responded
  accepted : s'.pool.accepted = s.pool.accepted ∨
    ∃ x : Job τ, s'.pool.accepted = s.pool.accepted ++ [x] ∧ x.seq = s.pool.accepted.length

/-- What an answer says of the rows stays true as rows are added. -/
theorem Answered.mono {q : Job τ × Response} {added : List (StoredRow τ)}
    (h : s.Answered createdAt q) (hgrows : s.Grows s' added) (hpool : Pool.Inv cfg s.pool) :
    s'.Answered createdAt q := by
  intro hok
  have hq := h hok
  cases hkind : q.1.req.kind with
  | save =>
    simp only [hkind] at hq ⊢
    rw [hgrows.rows]
    exact List.mem_append_left _ hq
  | counter => trivial
  | history =>
    simp only [hkind] at hq ⊢
    obtain ⟨hacc, hrows, hsettled⟩ := hq
    have hbefore : s'.before q.1 = s.before q.1 := by
      have hnone : ∀ row ∈ added, ¬(row.1.key = q.1.key ∧ row.1.seq < q.1.seq) := by
        rintro row hrow ⟨hkey, hlt⟩
        obtain ⟨hmem, hnot⟩ := hgrows.added row hrow
        exact hnot (hsettled row.1 hmem hkey hlt)
      simp only [before, view, hgrows.rows, List.filter_append, List.filter_filter]
      rw [List.append_right_eq_self, List.filter_eq_nil_iff]
      simpa [and_comm] using hnone
    refine ⟨?_, by rw [hrows, hbefore], fun x hx hkey hlt => ?_⟩
    · obtain heq | ⟨x, heq, -⟩ := hgrows.accepted
      · rwa [heq]
      · rw [heq]
        exact List.mem_append_left _ hacc
    · refine (hgrows.responded.map _).subset (hsettled x ?_ hkey hlt)
      obtain heq | ⟨y, heq, hseq⟩ := hgrows.accepted
      · exact heq ▸ hx
      · rw [heq, List.mem_append, List.mem_singleton] at hx
        obtain hx | rfl := hx
        · exact hx
        · -- a request accepted later has a greater number
          have hmem := List.mem_map_of_mem (f := Job.seq) hacc
          rw [hpool.seqs, List.mem_range] at hmem
          omega

/-- The newest rows of a session, where its ids are increasing. -/
theorem recent_eq (s : LoggedPool τ) (key : Bytes) (limit : ℕ)
    (hsorted : (s.view key).Pairwise fun a b => a.2 < b.2) :
    s.tables.recent createdAt key limit =
      ((s.view key).reverse.take limit).map (StoredRow.logRow createdAt) := by
  have hfilter : s.tables.log.filter (fun row => row.sessionKey = key) =
      (s.view key).map StoredRow.entry := by
    rw [tables, List.filter_map]
    rfl
  have hids : ((s.view key).map StoredRow.entry).Pairwise fun a b => a.logId < b.logId :=
    List.pairwise_map.mpr hsorted
  have hsort : (((s.view key).map StoredRow.entry).insertionSort fun a b => b.logId ≤ a.logId) =
      (s.view key).reverse.map StoredRow.entry := by
    have hinj : ∀ a ∈ (s.view key).map StoredRow.entry, ∀ b ∈ (s.view key).map StoredRow.entry,
        a.logId = b.logId → a = b := by
      intro a ha b hb heq
      refine List.inj_on_of_nodup_map (f := LogEntry.logId) ?_ ha hb heq
      exact List.pairwise_map.mpr (hids.imp fun hlt => hlt.ne)
    refine List.Perm.eq_of_pairwise (fun a b ha hb (hab : b.logId ≤ a.logId) hba =>
      hinj a ?_ b ?_ (le_antisymm hba hab)) ?_ ?_ ?_
    · exact (List.perm_insertionSort _ _).subset ha
    · simpa using hb
    · exact List.pairwise_insertionSort _ _
    · rw [List.map_reverse, List.pairwise_reverse]
      exact hids.imp fun hlt => hlt.le
    · rw [List.map_reverse]
      exact (List.perm_insertionSort _ _).trans (List.reverse_perm _).symm
  simp only [Tables.recent, hfilter, hsort]
  rw [← List.map_take, List.map_map]
  rfl

/-! ## The invariant -/

/-- What holds of the pool and its table in every run that ends its transactions. -/
structure Logged (cfg : PoolConfig) (createdAt : ℕ → ℕ) (s : LoggedPool τ) : Prop where
  pool : Pool.Inv cfg s.pool
  sound : ∃ results, s.pool.Sound results
  /-- Only the first task of a worker has to do with rows. -/
  tail : ∀ i, ∀ t ∈ (s.tasks i).tail, t.Apart
  txn : ∀ i rows, Task.insertingAll (s.tasks i) = some rows → s.txns i = rows ∧
    (rows.Pairwise fun a b => a.2 < b.2) ∧
      (∀ row ∈ rows, row.2 < s.nextLogId) ∧
        ∀ row ∈ rows, ∀ old ∈ s.rows, old.1.key = row.1.key → old.2 < row.2
  ids : ∀ row ∈ s.rows, row.2 < s.nextLogId
  stored : ∀ row ∈ s.rows, row.1 ∈ s.pool.accepted ∧ row.1.req.kind = .save ∧
    (row.1 ∈ s.pool.responded.map Prod.fst ∨
      ∃ i t rest, s.tasks i = t :: rest ∧ row.1 ∈ t.stored)
  sorted : ∀ key, (s.view key).Pairwise fun a b => a.1.seq < b.1.seq ∧ a.2 < b.2
  told : ∀ q ∈ s.pool.responded, s.Answered createdAt q
  atHand : ∀ i, ∀ t ∈ s.tasks i, ∀ q ∈ t.answers, s.Answered createdAt q

theorem tasks_eq_cons (h : s.tasks i = t :: rest) :
    ∃ w, s.pool.workers[i]? = some w ∧ w.tasks = t :: rest := by
  unfold tasks at h
  cases hw : s.pool.workers[i]? with
  | none => simp [hw] at h
  | some w => exact ⟨w, rfl, by simpa [hw] using h⟩

theorem mem_pending (h : s.tasks i = t :: rest) (hj : j ∈ t.pending) :
    ∃ w, s.pool.workers[i]? = some w ∧ j ∈ w.pending := by
  obtain ⟨w, hw, htasks⟩ := tasks_eq_cons h
  exact ⟨w, hw, by simp [Worker.pending, htasks, hj]⟩

/-- What a worker's task does to the pool. -/
theorem apply_tasks {cfg : PoolConfig} {w : Worker τ} (hw : s.pool.workers[i]? = some w)
    {new : List (Task τ)} {usable : Bool} {eff : Effect τ}
    (hpool : s'.pool = s.pool.apply cfg i { w with usable, tasks := new ++ rest } eff) :
    s'.tasks i = new ++ rest ∧ (∀ i', i' ≠ i → s'.tasks i' = s.tasks i') ∧
      s'.pool.accepted = s.pool.accepted ∧
        s'.pool.responded = s.pool.responded ++ eff.responses := by
  obtain ⟨⟨w', hworkers, htasks', -⟩, hacc, -⟩ :=
    Pool.apply_spec cfg i { w with usable, tasks := new ++ rest } s.pool eff
  have hlt : i < s.pool.workers.length := (List.getElem?_eq_some_iff.mp hw).1
  refine ⟨?_, fun i' hi => ?_, by rw [hpool]; exact hacc, ?_⟩
  · rw [tasks, hpool, hworkers]
    simp [hlt, htasks']
  · rw [tasks, hpool, hworkers, List.getElem?_set_ne (Ne.symm hi), tasks]
  · rw [hpool]
    exact (Pool.apply_responded cfg i _ s.pool eff).1

/-- A task that asks for nothing leaves the database as it is. -/
theorem call_of_not_asks (h : t.asks o applied = false) :
    s.call createdAt i o applied t = some s := by
  cases t with
  | queried | rollbackBatch => simp [Task.asks] at h
  | inserted saves logIds =>
    have hok : o.ok = false := h
    simp [call, hok]
  | commitBatch saves logIds =>
    obtain ⟨hok, happ⟩ := Bool.or_eq_false_iff.mp h
    simp [call, hok, happ]
  | _ => rfl

namespace Logged

/-- The first tasks of two workers have no requests of one session. -/
theorem same_worker (hs : Logged cfg createdAt s) {i' : ℕ} {t' : Task τ} {rest' : List (Task τ)}
    {x : Job τ} (h : s.tasks i = t :: rest) (h' : s.tasks i' = t' :: rest') (hj : j ∈ t.pending)
    (hx : x ∈ t'.pending) (hkey : x.key = j.key) : i = i' := by
  obtain ⟨w, hw, hj⟩ := mem_pending h hj
  obtain ⟨w', hw', hx⟩ := mem_pending h' hx
  exact hs.pool.same_worker hw hw' hj hx hkey

/-- What is in the log of a session was accepted before what a task is about to store. -/
theorem stored_lt (hs : Logged cfg createdAt s) (h : s.tasks i = t :: rest) (hnone : t.stored = [])
    (hj : j ∈ t.pending) {row : StoredRow τ} (hrow : row ∈ s.rows) (hkey : row.1.key = j.key) :
    row.1.seq < j.seq := by
  obtain ⟨-, -, hplace | ⟨i', t', rest', h', hstored⟩⟩ := hs.stored row hrow
  · obtain ⟨w, hw, hj⟩ := mem_pending h hj
    exact hs.pool.responded_lt hw hj hplace hkey
  · obtain rfl := hs.same_worker h h' hj (t'.stored_subset_pending hstored) hkey
    rw [h] at h'
    obtain ⟨rfl, rfl⟩ := List.cons.inj h'
    rw [hnone] at hstored
    cases hstored

/-- The log that a History finds. -/
theorem reads (hs : Logged cfg createdAt s) {retry : Bool}
    (h : s.tasks i = .queried j retry :: rest)
    (hrows : res.rows = s.tables.recent createdAt j.key j.req.limit) :
    j ∈ s.pool.accepted ∧ s.Reads createdAt j res := by
  obtain ⟨w, hw, htasks⟩ := tasks_eq_cons h
  have hpend : w.pending = j :: (rest.flatMap Task.pending ++ w.loop.jobs ++ w.queue) := by
    simp [Worker.pending, htasks, Task.pending]
  have hbefore : s.before j = s.view j.key := by
    refine List.filter_eq_self.mpr fun row hrow => ?_
    obtain ⟨hmem, hkey⟩ := List.mem_filter.mp hrow
    exact decide_eq_true
      (hs.stored_lt h rfl (by simp [Task.pending]) hmem (of_decide_eq_true hkey))
  refine ⟨hs.pool.mem_accepted hw (hpend ▸ List.mem_cons_self), ?_, fun x hx hkey hlt => ?_⟩
  · rw [hrows, hbefore, recent_eq s j.key _ ((hs.sorted j.key).imp fun hlt => hlt.2)]
  · exact hs.pool.responded_of_lt hw hpend hx hkey hlt

/-- Worker `i` has done its first task, with the answer `o` of the database. -/
structure Worked (cfg : PoolConfig) (s s' : LoggedPool τ) (i : ℕ) (t : Task τ) (o : Outcome)
    (new rest : List (Task τ)) (eff : Effect τ) : Prop where
  head : s.tasks i = t :: rest
  exec : ∃ now u u', t.exec now u o = (u', new, eff)
  tasks : s'.tasks i = new ++ rest
  others : ∀ i', i' ≠ i → s'.tasks i' = s.tasks i'
  accepted : s'.pool.accepted = s.pool.accepted
  responded : s'.pool.responded = s.pool.responded ++ eff.responses
  pool : Pool.Inv cfg s'.pool
  sound : ∃ results, s'.pool.Sound results

/-- The task adds rows to the table, goes on with the transaction of its worker, and has no answer
at hand but those it had and those that are right. -/
structure Adds (createdAt : ℕ → ℕ) (s s' : LoggedPool τ) (i : ℕ) (t : Task τ)
    (new rest : List (Task τ)) (rs : List (StoredRow τ)) : Prop where
  rows : s'.rows = s.rows ++ rs
  txns : ∀ i', i' ≠ i → s'.txns i' = s.txns i'
  nextLogId : s.nextLogId ≤ s'.nextLogId
  inserting : ∀ rows, Task.insertingAll (new ++ rest) = some rows → s'.txns i = rows ∧
    (rows.Pairwise fun a b => a.2 < b.2) ∧ (∀ row ∈ rows, row.2 < s'.nextLogId) ∧
      ∀ row ∈ rows, ∀ old ∈ s.rows ++ rs, old.1.key = row.1.key → old.2 < row.2
  added : ∀ row ∈ rs, t.stored = [] ∧ row.1 ∈ t.pending ∧ row.1.req.kind = .save ∧
    row.2 < s'.nextLogId ∧ (∃ t' rest', new = t' :: rest' ∧ row.1 ∈ t'.stored) ∧
      ∀ old ∈ s.rows, old.1.key = row.1.key → old.2 < row.2
  sorted : rs.Pairwise fun a b => b.1.key = a.1.key → a.1.seq < b.1.seq ∧ a.2 < b.2
  answers : ∀ q ∈ new.flatMap Task.answers, q ∈ t.answers ∨ s'.Answered createdAt q

section

variable {new : List (Task τ)} {eff : Effect τ} {added : List (StoredRow τ)}

/-- What stands behind the first task has nothing to do with a batch. -/
theorem Worked.rest_apart (hw : Worked cfg s s' i t o new rest eff) (hs : Logged cfg createdAt s) :
    ∀ t' ∈ rest, t'.Apart :=
  fun t' ht' => hs.tail i t' (by rw [hw.head]; exact ht')

/-- A step adds rows and takes none away. -/
theorem Worked.grows (hw : Worked cfg s s' i t o new rest eff) (hs : Logged cfg createdAt s)
    (ha : Adds createdAt s s' i t new rest added) : s.Grows s' added := by
  refine ⟨ha.rows, fun row hrow => ?_, ⟨_, hw.responded.symm⟩, Or.inl hw.accepted⟩
  obtain ⟨w, hworker, hpend⟩ := mem_pending hw.head (ha.added row hrow).2.1
  exact ⟨hs.pool.mem_accepted hworker hpend, fun hmem =>
    lt_irrefl _ (hs.pool.responded_lt hworker hpend hmem rfl)⟩

/-- After the step, only the first task of a worker may be a batch. -/
theorem Worked.tail (hw : Worked cfg s s' i t o new rest eff) (hs : Logged cfg createdAt s) (i' : ℕ) :
    ∀ t' ∈ (s'.tasks i').tail, t'.Apart := by
  intro t' ht'
  obtain ⟨now, u, u', hex⟩ := hw.exec
  by_cases hi : i' = i
  · subst hi
    rw [hw.tasks] at ht'
    cases new with
    | nil => exact hw.rest_apart hs t' (List.mem_of_mem_tail ht')
    | cons n new =>
      obtain ht' | ht' := List.mem_append.mp ht'
      · exact (Task.apart_exec hex).1 t' ht'
      · exact hw.rest_apart hs t' ht'
  · rw [hw.others i' hi] at ht'
    exact hs.tail i' t' ht'

/-- The rows of the open transaction are those of the batch under way. -/
theorem Adds.txn (ha : Adds createdAt s s' i t new rest added)
    (hw : Worked cfg s s' i t o new rest eff) (hs : Logged cfg createdAt s) (i' : ℕ)
    (rows : List (StoredRow τ)) (hr : Task.insertingAll (s'.tasks i') = some rows) :
    s'.txns i' = rows ∧ (rows.Pairwise fun a b => a.2 < b.2) ∧
      (∀ row ∈ rows, row.2 < s'.nextLogId) ∧
        ∀ row ∈ rows, ∀ old ∈ s'.rows, old.1.key = row.1.key → old.2 < row.2 := by
  rw [ha.rows]
  by_cases hi : i' = i
  · subst hi
    rw [hw.tasks] at hr
    exact ha.inserting rows hr
  · rw [hw.others i' hi] at hr
    obtain ⟨htxn, hids, hlt, hold⟩ := hs.txn i' rows hr
    refine ⟨(ha.txns i' hi).trans htxn, hids, fun row hrow => (hlt row hrow).trans_le ha.nextLogId,
      fun row hrow old hmem hkey => ?_⟩
    obtain hmem | hmem := List.mem_append.mp hmem
    · exact hold row hrow old hmem hkey
    · -- two workers would have requests of one session
      exfalso
      cases htasks' : s.tasks i' with
      | nil =>
        rw [htasks'] at hr
        obtain rfl := Option.some.inj hr
        cases hrow
      | cons t' rest' =>
        rw [htasks'] at hr
        exact hi (hs.same_worker hw.head htasks' (ha.added old hmem).2.1
          (Task.mem_pending_of_inserting hr hrow) hkey.symm).symm

/-- A row is there only for a Save that was accepted. -/
theorem Adds.stored (ha : Adds createdAt s s' i t new rest added)
    (hw : Worked cfg s s' i t o new rest eff) (hs : Logged cfg createdAt s) {row : StoredRow τ}
    (hrow : row ∈ s'.rows) : row.1 ∈ s'.pool.accepted ∧ row.1.req.kind = .save ∧
      (row.1 ∈ s'.pool.responded.map Prod.fst ∨
        ∃ i t rest, s'.tasks i = t :: rest ∧ row.1 ∈ t.stored) := by
  obtain ⟨now, u, u', hex⟩ := hw.exec
  rw [hw.accepted, hw.responded, List.map_append, ← (Task.responses_exec hex).1]
  rw [ha.rows] at hrow
  obtain hrow | hrow := List.mem_append.mp hrow
  · obtain ⟨hmem, hkind, hplace⟩ := hs.stored row hrow
    refine ⟨hmem, hkind, ?_⟩
    obtain hplace | ⟨i', t', rest', h', hstored⟩ := hplace
    · exact Or.inl (List.mem_append_left _ hplace)
    · by_cases hi : i' = i
      · subst hi
        rw [hw.head] at h'
        obtain ⟨rfl, rfl⟩ := List.cons.inj h'
        obtain hans | ⟨t', l, rfl, hstored⟩ := Task.stored_exec hex hstored
        · exact Or.inl (List.mem_append_right _ hans)
        · exact Or.inr ⟨i', t', l ++ rest, hw.tasks, hstored⟩
      · exact Or.inr ⟨i', t', rest', (hw.others i' hi).trans h', hstored⟩
  · obtain ⟨-, hpend, hkind, -, ⟨t', l, rfl, hstored⟩, -⟩ := ha.added row hrow
    obtain ⟨w, hworker, hpend⟩ := mem_pending hw.head hpend
    exact ⟨hs.pool.mem_accepted hworker hpend, hkind,
      Or.inr ⟨i, t', l ++ rest, hw.tasks, hstored⟩⟩

/-- A session sees its rows in the order of its Saves. -/
theorem Adds.sorted_view (ha : Adds createdAt s s' i t new rest added)
    (hw : Worked cfg s s' i t o new rest eff) (hs : Logged cfg createdAt s) (key : Bytes) :
    (s'.view key).Pairwise fun a b => a.1.seq < b.1.seq ∧ a.2 < b.2 := by
  have hview : s'.view key = s.view key ++ added.filter fun row => row.1.key = key := by
    rw [view, ha.rows, List.filter_append]
    rfl
  rw [hview, List.pairwise_append]
  refine ⟨hs.sorted key, ?_, fun a hmem b hb => ?_⟩
  · refine (ha.sorted.filter _).imp_of_mem fun {a b} hmem hb hab => hab ?_
    have hka := of_decide_eq_true (List.mem_filter.mp hmem).2
    have hkb := of_decide_eq_true (List.mem_filter.mp hb).2
    exact hkb.trans hka.symm
  · obtain ⟨hmem, hka⟩ := List.mem_filter.mp hmem
    obtain ⟨hb, hkb⟩ := List.mem_filter.mp hb
    have hkey : a.1.key = b.1.key := (of_decide_eq_true hka).trans (of_decide_eq_true hkb).symm
    obtain ⟨hnone, hpend, -, -, -, hold⟩ := ha.added b hb
    exact ⟨hs.stored_lt hw.head hnone hpend hmem hkey, hold a hmem hkey⟩

/-- What the first task of worker `i` does keeps the log. -/
theorem go (hs : Logged cfg createdAt s) (added : List (StoredRow τ))
    (hw : Worked cfg s s' i t o new rest eff)
    (ha : Adds createdAt s s' i t new rest added) : Logged cfg createdAt s' := by
  have hmono : ∀ q, s.Answered createdAt q → s'.Answered createdAt q := fun q hq =>
    hq.mono (hw.grows hs ha) hs.pool
  have hgiven : ∀ q ∈ t.answers, s'.Answered createdAt q := fun q hq =>
    hmono q (hs.atHand i t (hw.head ▸ List.mem_cons_self) q hq)
  refine
    { pool := hw.pool
      sound := hw.sound
      tail := hw.tail hs
      txn := ha.txn hw hs
      ids := fun row hrow => ?_
      stored := fun row hrow => ha.stored hw hs hrow
      sorted := ha.sorted_view hw hs
      told := fun q hq => ?_
      atHand := fun i' t' ht' q hq => ?_ }
  · rw [ha.rows] at hrow
    obtain hrow | hrow := List.mem_append.mp hrow
    · exact (hs.ids row hrow).trans_le ha.nextLogId
    · exact (ha.added row hrow).2.2.2.1
  · rw [hw.responded] at hq
    obtain hq | hq := List.mem_append.mp hq
    · exact hmono q (hs.told q hq)
    · obtain ⟨now, u, u', hex⟩ := hw.exec
      exact hgiven q ((Task.responses_exec hex).2 q hq)
  · by_cases hi : i' = i
    · subst hi
      rw [hw.tasks] at ht'
      obtain ht' | ht' := List.mem_append.mp ht'
      · exact (ha.answers q (List.mem_flatMap.mpr ⟨t', ht', hq⟩)).elim (hgiven q) id
      · rw [(hw.rest_apart hs t' ht').answers] at hq
        cases hq
    · rw [hw.others i' hi] at ht'
      exact hmono q (hs.atHand i' t' ht' q hq)

/-- A task that asks the database for nothing. -/
theorem quiet (hs : Logged cfg createdAt s) (hw : Worked cfg s s' i t o new rest eff)
    (hasks : t.asks o applied = false)
    (hsame : s'.rows = s.rows ∧ s'.txns = s.txns ∧ s'.nextLogId = s.nextLogId) :
    Logged cfg createdAt s' := by
  obtain ⟨hrows, htxns, hnext⟩ := hsame
  obtain ⟨now, u, u', hex⟩ := hw.exec
  obtain ⟨hsame, hanswers⟩ := Task.quiet_exec hex hasks (hw.rest_apart hs)
  refine hs.go [] hw ⟨by simp [hrows], fun i' _ => by rw [htxns], hnext.ge,
    fun rows hr => ?_, by simp, .nil, fun q hq => ?_⟩
  · rw [htxns, hnext, List.append_nil]
    exact hs.txn i rows (by rw [hw.head]; exact hsame rows hr)
  · exact (hanswers q hq).imp_right fun hne hok => absurd hok hne

/-! ### The answer to a call -/

section

variable {retry : Bool}

/-- Behind a call no transaction is open. -/
theorem queried_inserting (hs : Logged cfg createdAt s)
    (hw : Worked cfg s s' i (.queried j retry) o new rest eff) (htxns : s'.txns = s.txns)
    (olds rows : List (StoredRow τ)) (hr : Task.insertingAll (new ++ rest) = some rows) :
    s'.txns i = rows ∧ (rows.Pairwise fun a b => a.2 < b.2) ∧
      (∀ row ∈ rows, row.2 < s'.nextLogId) ∧
        ∀ row ∈ rows, ∀ old ∈ olds, old.1.key = row.1.key → old.2 < row.2 := by
  obtain ⟨now, u, u', hex⟩ := hw.exec
  have hclosed := hs.txn i [] (by rw [hw.head]; rfl)
  have hinserting : Task.insertingAll (new ++ rest) = some [] := by
    obtain ⟨-, rfl⟩ | ⟨-, rfl | ⟨rfl, -⟩⟩ := Task.queried_exec hex <;> rfl
  obtain rfl := Option.some.inj (hinserting.symm.trans hr)
  exact ⟨by rw [htxns]; exact hclosed.1, .nil, by simp, by simp⟩

/-- A call that stores nothing; if it succeeds, its answer is right. -/
theorem queried_nothing (hs : Logged cfg createdAt s)
    (hw : Worked cfg s s' i (.queried j retry) o new rest eff)
    (hsame : s'.rows = s.rows ∧ s'.txns = s.txns ∧ s'.nextLogId = s.nextLogId)
    (hanswer : o.ok = true → s'.Answered createdAt (j, j.success o)) : Logged cfg createdAt s' := by
  obtain ⟨hrows, htxns, hnext⟩ := hsame
  obtain ⟨now, u, u', hex⟩ := hw.exec
  refine hs.go [] hw ⟨by simp [hrows], fun i' _ => by rw [htxns], hnext.ge,
    hs.queried_inserting hw htxns _, by simp, .nil, fun q hq => ?_⟩
  obtain ⟨hok, rfl⟩ | ⟨-, rfl | ⟨rfl, -⟩⟩ := Task.queried_exec hex
  · obtain rfl : q = (j, j.success o) := by simpa [Task.answers] using hq
    exact Or.inr (hanswer hok)
  · simp [Task.answers] at hq
  · simp [Task.answers] at hq

/-- A Save has stored its row, whether the answer comes or not. -/
theorem queried_row (hs : Logged cfg createdAt s)
    (hw : Worked cfg s s' i (.queried j retry) o new rest eff) (hkind : j.req.kind = .save)
    (hid : o.ok = true → o.logId = s.nextLogId) (hrows : s'.rows = s.rows ++ [(j, s.nextLogId)])
    (htxns : s'.txns = s.txns) (hnext : s'.nextLogId = s.nextLogId + 1) :
    Logged cfg createdAt s' := by
  obtain ⟨now, u, u', hex⟩ := hw.exec
  have hrow : (j, s.nextLogId) ∈ s'.rows := by simp [hrows]
  refine hs.go [(j, s.nextLogId)] hw ⟨hrows, fun i' _ => by rw [htxns],
    by rw [hnext]; exact Nat.le_succ _, hs.queried_inserting hw htxns _, fun row hmem => ?_, List.pairwise_singleton ..,
    fun q hq => ?_⟩
  · obtain rfl := List.mem_singleton.mp hmem
    refine ⟨rfl, by simp [Task.pending], hkind, by rw [hnext]; exact Nat.lt_succ_self _, ?_,
      fun old hold _ => hs.ids old hold⟩
    obtain ⟨-, rfl⟩ | ⟨-, rfl | ⟨rfl, hne⟩⟩ := Task.queried_exec hex
    · exact ⟨_, _, rfl, by simp [Task.stored]⟩
    · exact ⟨_, _, rfl, by simp [Task.stored]⟩
    · exact absurd hkind hne
  · obtain ⟨hok, rfl⟩ | ⟨-, rfl | ⟨rfl, -⟩⟩ := Task.queried_exec hex
    · obtain rfl : q = (j, j.success o) := by simpa [Task.answers] using hq
      exact Or.inr fun _ => by simpa [hkind, Job.success, hid hok] using hrow
    · simp [Task.answers] at hq
    · simp [Task.answers] at hq

/-- The answer to a call that a Save, a History or a Counter has made. -/
theorem queried (hs : Logged cfg createdAt s)
    (hw : Worked cfg s s' i (.queried j retry) o new rest eff) {sdb : LoggedPool τ}
    (hcall : s.call createdAt i o applied (.queried j retry) = some sdb)
    (hsame : s'.rows = sdb.rows ∧ s'.txns = sdb.txns ∧ s'.nextLogId = sdb.nextLogId) :
    Logged cfg createdAt s' := by
  cases hkind : j.req.kind with
  | save =>
    simp only [call, hkind] at hcall
    split_ifs at hcall with hid hdone <;> cases hcall
    · exact hs.queried_row hw hkind (by simpa using hid) hsame.1 hsame.2.1 hsame.2.2
    · exact hs.queried_nothing hw hsame fun hok => by simp [hok] at hdone
  | history =>
    simp only [call, hkind] at hcall
    split_ifs at hcall with hread
    cases hcall
    refine hs.queried_nothing hw hsame fun hok => ?_
    have hread : o.rows = s.tables.recent createdAt j.key j.req.limit := by
      simpa [hok] using hread
    have hgrows : s.Grows s' [] :=
      ⟨by simp [hsame.1], by simp, ⟨_, hw.responded.symm⟩, Or.inl hw.accepted⟩
    refine Answered.mono (s := s) (fun _ => ?_) hgrows hs.pool
    simp only [hkind]
    exact hs.reads hw.head (by simpa [Job.success, hkind] using hread)
  | counter =>
    simp only [call, hkind] at hcall
    cases hcall
    exact hs.queried_nothing hw hsame fun _ _ => by simp [hkind]

end

/-! ### The transaction of a batch -/

section

variable {saves : List (Job τ)} {logIds : List ℕ}

/-- Another id goes with the next Save. -/
theorem zip_concat {α β : Type*} (y : β) : ∀ {as : List α} {bs : List β} {x : α},
    as[bs.length]? = some x → as.zip (bs ++ [y]) = as.zip bs ++ [(x, y)]
  | [], _, _, h => by simp at h
  | a :: as, [], x, h => by
    obtain rfl : a = x := by simpa using h
    simp
  | a :: as, b :: bs, x, h => by
    have hrest : as[bs.length]? = some x := by simpa using h
    rw [List.cons_append, List.zip_cons_cons, zip_concat y hrest]
    rfl

/-- A row more in the transaction of a batch. -/
theorem inserted (hs : Logged cfg createdAt s)
    (hw : Worked cfg s s' i (.inserted saves logIds) o new rest eff) (hok : o.ok = true)
    {sdb : LoggedPool τ} (hcall : s.call createdAt i o applied (.inserted saves logIds) = some sdb)
    (hsame : s'.rows = sdb.rows ∧ s'.txns = sdb.txns ∧ s'.nextLogId = sdb.nextLogId) :
    Logged cfg createdAt s' := by
  obtain ⟨hrows, htxns, hnext⟩ := hsame
  obtain ⟨now, u, u', hex⟩ := hw.exec
  obtain ⟨htxn, hids, hlt, hold⟩ := hs.txn i _ (by rw [hw.head]; rfl)
  obtain rfl : [.insert saves (logIds ++ [o.logId])] = new := by
    simp only [Task.exec, hok, ↓reduceIte] at hex
    exact (Prod.mk.inj (Prod.mk.inj hex).2).1
  simp only [call, hok, ↓reduceIte] at hcall
  split at hcall
  · rename_i x hx
    split_ifs at hcall with hid
    cases hcall
    have hzip := zip_concat o.logId hx
    refine hs.go [] hw ⟨by simp [hrows], fun i' hi => by rw [htxns]; simp [hi],
      by rw [hnext]; exact Nat.le_succ _, fun rows hr => ?_, by simp, .nil, by simp [Task.answers]⟩
    obtain rfl : saves.zip (logIds ++ [o.logId]) = rows := Option.some.inj hr
    rw [hzip, htxns, hnext, List.append_nil]
    refine ⟨by simp [htxn, hid], ?_, fun row hrow => ?_, fun row hrow old hmem hkey => ?_⟩
    · rw [List.pairwise_append]
      refine ⟨hids, List.pairwise_singleton .., fun a ha b hb => ?_⟩
      obtain rfl := List.mem_singleton.mp hb
      rw [hid]
      exact hlt a ha
    · obtain hrow | hrow := List.mem_append.mp hrow
      · exact (hlt row hrow).trans (Nat.lt_succ_self _)
      · obtain rfl := List.mem_singleton.mp hrow
        rw [hid]
        exact Nat.lt_succ_self _
    · obtain hrow | hrow := List.mem_append.mp hrow
      · exact hold row hrow old hmem hkey
      · obtain rfl := List.mem_singleton.mp hrow
        rw [hid]
        exact hs.ids old hmem
  · cases hcall

/-- The Saves of a batch, in the order of each session; each has an id. -/
theorem committing (hs : Logged cfg createdAt s)
    (hw : Worked cfg s s' i (.commitBatch saves logIds) o new rest eff) :
    (∀ x ∈ saves, x.req.kind = .save) ∧ saves.length ≤ logIds.length ∧
      saves.Pairwise fun a b => b.key = a.key → a.seq < b.seq := by
  obtain ⟨w, hworker, htasks⟩ := tasks_eq_cons hw.head
  obtain ⟨results, hsound⟩ := hs.sound
  have ht := (hsound.worker w (List.mem_of_getElem? hworker)).tasks (.commitBatch saves logIds)
    (by rw [htasks]; exact List.mem_cons_self)
  refine ⟨ht.kind, ht.stems.2, (hs.pool.pending_pairwise hworker).sublist ?_⟩
  simp only [Worker.pending, htasks, List.flatMap_cons, Task.pending, List.append_assoc]
  exact List.sublist_append_left ..

/-- A COMMIT is answered, or the batch is rolled back. -/
theorem commitBatch_exec {now : ℕ} {u u' : Bool}
    (hex : (Task.commitBatch saves logIds).exec now u o = (u', new, eff)) :
    new = [.respondBatch [] (Job.savedAll saves logIds)] ∨ new = [.rollbackBatch saves] := by
  simp only [Task.exec] at hex
  split_ifs at hex <;> cases hex
  · exact Or.inl rfl
  · exact Or.inr rfl

/-- Each Save of a batch is answered with the id of its row. -/
theorem mem_zip_of_savedAll {q : Job τ × Response} (hlen : saves.length ≤ logIds.length)
    (hq : q ∈ Job.savedAll saves logIds) : q.1 ∈ saves ∧ (q.1, q.2.logId) ∈ saves.zip logIds := by
  obtain ⟨⟨x, n⟩, hxn, rfl⟩ := List.mem_map.mp hq
  have hx : saves[n]? = some x := List.mem_zipIdx_iff_getElem?.mp hxn
  have hn : n < logIds.length := by
    have := (List.getElem?_eq_some_iff.mp hx).1
    omega
  refine ⟨List.mem_of_getElem? hx, List.mem_of_getElem? (i := n) ?_⟩
  rw [List.getElem?_zip_eq_some]
  exact ⟨hx, by simp [hn]⟩

/-- The rows of a batch are committed, whether the answer comes or not. -/
theorem committed (hs : Logged cfg createdAt s)
    (hw : Worked cfg s s' i (.commitBatch saves logIds) o new rest eff)
    (hdone : (o.ok || applied) = true) {sdb : LoggedPool τ}
    (hcall : s.call createdAt i o applied (.commitBatch saves logIds) = some sdb)
    (hsame : s'.rows = sdb.rows ∧ s'.txns = sdb.txns ∧ s'.nextLogId = sdb.nextLogId) :
    Logged cfg createdAt s' := by
  obtain ⟨hrows, htxns, hnext⟩ := hsame
  obtain ⟨now, u, u', hex⟩ := hw.exec
  obtain ⟨htxn, hids, hlt, hold⟩ := hs.txn i _ (by rw [hw.head]; rfl)
  obtain ⟨hkind, hlen, hsaves⟩ := hs.committing hw
  have hnew := commitBatch_exec hex
  simp only [call, hdone, ↓reduceIte] at hcall
  cases hcall
  have hadded : s'.rows = s.rows ++ saves.zip logIds := by rw [hrows]; simp [htxn]
  refine hs.go (saves.zip logIds) hw ⟨hadded, fun i' hi => by rw [htxns]; simp [hi],
    by rw [hnext], fun rows hr => ?_, fun row hrow => ?_, ?_, fun q hq => ?_⟩
  · obtain rfl | rfl := hnew
    · obtain rfl := Option.some.inj hr
      exact ⟨by rw [htxns]; simp, .nil, by simp, by simp⟩
    · cases hr
  · have hmem : row.1 ∈ saves := (List.of_mem_zip hrow).1
    refine ⟨rfl, hmem, hkind _ hmem, by rw [hnext]; exact hlt row hrow, ?_, hold row hrow⟩
    obtain rfl | rfl := hnew
    · exact ⟨_, _, rfl, by simpa [Task.stored] using hmem⟩
    · exact ⟨_, _, rfl, hmem⟩
  · rw [← List.map_fst_zip hlen, List.pairwise_map] at hsaves
    exact (hsaves.and hids).imp fun hab hkey => ⟨hab.1 hkey, hab.2⟩
  · obtain rfl | rfl := hnew
    · obtain ⟨hq, hrow⟩ := mem_zip_of_savedAll hlen (by simpa [Task.answers] using hq)
      refine Or.inr fun _ => ?_
      simp only [hkind _ hq]
      rw [hadded]
      exact List.mem_append_right _ hrow
    · simp [Task.answers] at hq

/-- A batch is rolled back. -/
theorem rolledBack (hs : Logged cfg createdAt s)
    (hw : Worked cfg s s' i (.rollbackBatch saves) o new rest eff)
    (hdone : (o.ok || o.lost || !s.usable i) = true) {sdb : LoggedPool τ}
    (hcall : s.call createdAt i o applied (.rollbackBatch saves) = some sdb)
    (hsame : s'.rows = sdb.rows ∧ s'.txns = sdb.txns ∧ s'.nextLogId = sdb.nextLogId) :
    Logged cfg createdAt s' := by
  obtain ⟨hrows, htxns, hnext⟩ := hsame
  obtain ⟨now, u, u', hex⟩ := hw.exec
  simp only [call, hdone, ↓reduceIte] at hcall
  cases hcall
  obtain rfl : new = [.failBatch saves] := by
    cases hex
    rfl
  refine hs.go [] hw ⟨by simp [hrows], fun i' hi => by rw [htxns]; simp [hi],
    by rw [hnext], fun rows hr => ?_, by simp, .nil, by simp [Task.answers]⟩
  obtain rfl := Option.some.inj hr
  exact ⟨by rw [htxns]; simp, .nil, by simp, by simp⟩

end

end

/-- A step that changes neither rows nor answers; a worker that had nothing to do gets something
that has nothing to do with rows. -/
theorem idle (hs : Logged cfg createdAt s) (hpool : Pool.Inv cfg s'.pool)
    (hsound : ∃ results, s'.pool.Sound results)
    (hsame : s'.rows = s.rows ∧ s'.txns = s.txns ∧ s'.nextLogId = s.nextLogId)
    (hacc : s'.pool.accepted = s.pool.accepted ∨
      ∃ x : Job τ, s'.pool.accepted = s.pool.accepted ++ [x] ∧ x.seq = s.pool.accepted.length)
    (hresp : s'.pool.responded = s.pool.responded)
    (htasks : ∀ i, s'.tasks i = s.tasks i ∨ s.tasks i = [] ∧ ∀ t ∈ s'.tasks i, t.Apart) :
    Logged cfg createdAt s' := by
  obtain ⟨hrows, htxns, hnext⟩ := hsame
  have hgrows : s.Grows s' [] := ⟨by simp [hrows], by simp, by rw [hresp], hacc⟩
  refine
    { pool := hpool
      sound := hsound
      tail := fun i t ht => ?_
      txn := fun i rows hr => ?_
      ids := fun row hrow => ?_
      stored := fun row hrow => ?_
      sorted := fun key => ?_
      told := fun q hq => ?_
      atHand := fun i t ht q hq => ?_ }
  · obtain heq | ⟨-, hapart⟩ := htasks i
    · exact hs.tail i t (heq ▸ ht)
    · exact hapart t (List.mem_of_mem_tail ht)
  · rw [htxns, hrows, hnext]
    refine hs.txn i rows ?_
    obtain heq | ⟨hnil, hapart⟩ := htasks i
    · rwa [heq] at hr
    · rw [Task.insertingAll_of_apart hapart] at hr
      rwa [hnil]
  · rw [hnext]
    exact hs.ids row (hrows ▸ hrow)
  · obtain ⟨hmem, hkind, hplace⟩ := hs.stored row (hrows ▸ hrow)
    refine ⟨?_, hkind, ?_⟩
    · obtain heq | ⟨x, heq, -⟩ := hacc
      · rwa [heq]
      · rw [heq]
        exact List.mem_append_left _ hmem
    · obtain hplace | ⟨i, t, rest, h, hstored⟩ := hplace
      · exact Or.inl (hresp ▸ hplace)
      · obtain heq | ⟨hnil, -⟩ := htasks i
        · exact Or.inr ⟨i, t, rest, heq.trans h, hstored⟩
        · rw [hnil] at h
          cases h
  · rw [view, hrows]
    exact hs.sorted key
  · exact (hs.told q (hresp ▸ hq)).mono hgrows hs.pool
  · obtain heq | ⟨-, hapart⟩ := htasks i
    · exact (hs.atHand i t (heq ▸ ht) q hq).mono hgrows hs.pool
    · rw [(hapart t ht).answers] at hq
      cases hq

/-- A round of the loop touches only the tasks of its own worker. -/
theorem tasks_loopStep {w : Worker τ} (hw : s.pool.workers[i]? = some w) (hnil : w.tasks = [])
    (heq : s'.pool = s.pool.loopStep cfg i w o) (i' : ℕ) :
    s'.tasks i' = s.tasks i' ∨ s.tasks i' = [] ∧ ∀ t ∈ s'.tasks i', t.Apart := by
  obtain ⟨w', hworkers, hparked, -⟩ := Pool.loopStep_parked cfg i s.pool o hnil
  have hlt : i < s.pool.workers.length := (List.getElem?_eq_some_iff.mp hw).1
  by_cases hi : i' = i
  · subst hi
    refine Or.inr ⟨by simp [tasks, hw, hnil], fun t ht => ?_⟩
    have ht : t ∈ w'.tasks := by simpa [tasks, heq, hworkers, hlt] using ht
    cases t with
    | flushSaves | process | release => exact ⟨rfl, rfl, rfl⟩
    | _ => exact absurd (hparked _ ht) (by simp [Task.parked])
  · left
    rw [tasks, heq, hworkers, List.getElem?_set_ne (Ne.symm hi), tasks]

/-- A step of the pool that is not one of a worker. -/
theorem poolStep (hs : Logged cfg createdAt s) {a : PoolStep τ} {pool : Pool τ}
    (hwork : ∀ i o, a ≠ .work i o) (hstep : (workerPool τ cfg).step s.pool a = some pool) :
    Logged cfg createdAt { s with pool } := by
  have hinv := hs.pool.step hstep
  obtain ⟨results, hsound⟩ := hs.sound
  cases a with
  | submit req tag =>
    obtain rfl := Option.some.inj hstep
    obtain ⟨htasks, -, hresp, -⟩ := s.pool.submit_tasks cfg req tag
    refine hs.idle hinv ⟨results, hsound.submit req tag⟩ ⟨rfl, rfl, rfl⟩ ?_ hresp fun i => ?_
    · exact s.pool.accepted_grows cfg req tag
    · left
      simp only [tasks, ← List.getElem?_map, htasks]
  | work i o => exact absurd rfl (hwork i o)
  | tick us =>
    obtain rfl := Option.some.inj hstep
    exact hs.idle hinv ⟨results, hsound.worker, hsound.responded⟩ ⟨rfl, rfl, rfl⟩ (Or.inl rfl) rfl
      fun i => Or.inl rfl
  | drain =>
    obtain rfl := Option.some.inj hstep
    exact hs.idle hinv ⟨results, hsound.worker, hsound.responded⟩ ⟨rfl, rfl, rfl⟩ (Or.inl rfl) rfl
      fun i => Or.inl rfl

/-- A step of a worker. -/
theorem work (hs : Logged cfg createdAt s) {leftOpen : Bool}
    (hends : s.EndsTransactions (.work i o applied leftOpen))
    (hstep : s.step cfg createdAt (.work i o applied leftOpen) = some s') :
    Logged cfg createdAt s' := by
  obtain ⟨results, hsound⟩ := hs.sound
  cases htasks : s.tasks i with
  | nil =>
    simp only [LoggedPool.step, htasks] at hstep
    obtain ⟨pool, hwork, rfl⟩ := Option.map_eq_some_iff.mp hstep
    have hinv : Pool.Inv cfg pool := hs.pool.step (a := .work i o) hwork
    obtain ⟨w, hw, ⟨hnil, rfl⟩ | ⟨t, rest, -, -, -, hw', -⟩⟩ := Pool.work_cases hwork
    · obtain ⟨-, -, -, -, hresp, -⟩ := Pool.loopStep_parked cfg i s.pool o hnil
      exact hs.idle hinv ⟨_, hsound.work hwork⟩ ⟨rfl, rfl, rfl⟩
        (Or.inl (s.pool.loopStep_accepted cfg i w o)) hresp (tasks_loopStep hw hnil rfl)
    · simp [tasks, hw, hw'] at htasks
  | cons t rest =>
    simp only [LoggedPool.step, htasks] at hstep
    split at hstep
    · cases hstep
    rename_i sdb hcall
    obtain ⟨pool, hwork, rfl⟩ := Option.map_eq_some_iff.mp hstep
    have hinv : Pool.Inv cfg pool := hs.pool.step (a := .work i o) hwork
    have hsound' := hsound.work hwork
    obtain ⟨w, hw, ⟨hnil, -⟩ | ⟨t', rest', usable, new, eff, hw', hex, rfl⟩⟩ :=
      Pool.work_cases hwork
    · simp [tasks, hw, hnil] at htasks
    obtain ⟨rfl, rfl⟩ : t' = t ∧ rest' = rest := by simpa [tasks, hw, hw'] using htasks
    let after := s.pool.apply cfg i { w with usable, tasks := new ++ rest' } eff
    have hpool : ({ sdb with pool := after } : LoggedPool τ).pool = after := rfl
    obtain ⟨hnew, hothers, hacc, hresp⟩ := apply_tasks hw hpool
    have hworked : Worked cfg s _ i t' o new rest' eff :=
      ⟨htasks, ⟨_, _, _, hex⟩, hnew, hothers, hacc, hresp, hinv, ⟨_, hsound'⟩⟩
    cases hasks : t'.asks o applied with
    | false =>
      rw [call_of_not_asks hasks] at hcall
      obtain rfl := Option.some.inj hcall
      exact hs.quiet hworked hasks ⟨rfl, rfl, rfl⟩
    | true =>
      cases t' with
      | queried j retry =>
        exact hs.queried hworked hcall ⟨rfl, rfl, rfl⟩
      | inserted saves logIds =>
        exact hs.inserted hworked hasks hcall ⟨rfl, rfl, rfl⟩
      | commitBatch saves logIds =>
        exact hs.committed hworked hasks hcall ⟨rfl, rfl, rfl⟩
      | rollbackBatch saves =>
        have hdone : (o.ok || o.lost || !s.usable i) = true := by
          simpa [EndsTransactions, htasks] using hends
        exact hs.rolledBack hworked hdone hcall ⟨rfl, rfl, rfl⟩
      | _ => simp [Task.asks] at hasks

/-- The log is empty before the first Save. -/
theorem fresh : Logged cfg createdAt (LoggedPool.fresh cfg : LoggedPool τ) := by
  have htasks : ∀ i, (LoggedPool.fresh cfg : LoggedPool τ).tasks i = [] := by
    intro i
    cases hw : (Pool.fresh cfg : Pool τ).workers[i]? with
    | none => simp [tasks, LoggedPool.fresh, hw]
    | some w =>
      obtain rfl := List.eq_of_mem_replicate (List.mem_of_getElem? hw)
      simp [tasks, LoggedPool.fresh, hw, Worker.fresh]
  refine
    { pool := Pool.inv_fresh cfg
      sound := ⟨[], Pool.sound_fresh cfg⟩
      tail := by simp [htasks]
      txn := fun i rows hr => ?_
      ids := by simp [LoggedPool.fresh]
      stored := by simp [LoggedPool.fresh]
      sorted := fun key => .nil
      told := by simp [LoggedPool.fresh, Pool.fresh]
      atHand := by simp [htasks] }
  rw [htasks] at hr
  obtain rfl := Option.some.inj hr
  exact ⟨rfl, .nil, by simp, by simp⟩

/-- Every step of a run that ends its transactions keeps the log. -/
theorem step (hs : Logged cfg createdAt s) {a : LoggedStep τ} (hends : s.EndsTransactions a)
    (hstep : (loggedPool τ cfg createdAt).step s a = some s') : Logged cfg createdAt s' := by
  cases a with
  | pool a =>
    cases a with
    | work i o => cases hstep
    | _ =>
      simp only [loggedPool, LoggedPool.step] at hstep
      obtain ⟨pool, hpool, rfl⟩ := Option.map_eq_some_iff.mp hstep
      exact hs.poolStep (by simp) hpool
  | work i o applied leftOpen => exact hs.work hends hstep

end Logged

end LoggedPool

/-- In every run in which no transaction stays open behind a batch or a Counter, or else the
connection is lost with it, whatever the dispatch, the batch size and the calls that fail : rows are
stored for accepted Saves only, and those of a session in the order of its requests, under
increasing ids; a Save that is answered Ok has its row, under the id of the answer; and a History
that is answered Ok has exactly the newest of the rows stored for the requests of its session
accepted before it. -/
theorem session_reads {cfg : PoolConfig} {createdAt : ℕ → ℕ} {s : LoggedPool τ}
    (h : (loggedPool τ cfg createdAt).ReachesWhen (fun s a => s.EndsTransactions a) s) :
    (∀ row ∈ s.rows, row.1 ∈ s.pool.accepted ∧ row.1.req.kind = .save) ∧
      (∀ key, (s.view key).Pairwise fun a b => a.1.seq < b.1.seq ∧ a.2 < b.2) ∧
      (∀ j res, (j, res) ∈ s.pool.responded → res.status = .ok → j.req.kind = .save →
        (j, res.logId) ∈ s.rows) ∧
      ∀ j res, (j, res) ∈ s.pool.responded → res.status = .ok → j.req.kind = .history →
        res.rows = ((s.before j).reverse.take j.req.limit).map (StoredRow.logRow createdAt) := by
  have hs : s.Logged cfg createdAt := by
    refine Machine.ReachesWhen.invariant ?_ (fun s a s' hs ha hstep => hs.step ha hstep) h
    rintro s rfl
    exact LoggedPool.Logged.fresh
  refine ⟨fun row hrow => ?_, hs.sorted, fun j res hmem hok hkind => ?_,
    fun j res hmem hok hkind => ?_⟩
  · obtain ⟨hacc, hkind, -⟩ := hs.stored row hrow
    exact ⟨hacc, hkind⟩
  · have hq := hs.told (j, res) hmem hok
    simpa only [hkind] using hq
  · have hq := hs.told (j, res) hmem hok
    simp only [hkind] at hq
    exact hq.2.1

/-- A call of worker 0 that succeeds. -/
def answerOk (logId : ℕ) (rows : List LogRow) : LoggedStep Unit :=
  .work 0 ⟨true, false, logId, rows, 0, false⟩ false false

/-- A batch of two Saves, and a History that has the newer one of them. -/
theorem session_reads_batch : ∃ s : LoggedPool Unit,
    s.rows.map Prod.snd = [1, 2] ∧
      (s.pool.responded.map fun q => q.2.rows.map LogRow.logId) = [[], [], [2]] ∧
      ∀ j res, (j, res) ∈ s.pool.responded → res.status = .ok → j.req.kind = .history →
        res.rows = ((s.before j).reverse.take j.req.limit).map (StoredRow.logRow id) := by
  obtain ⟨s, hs, htest⟩ := (loggedPool Unit (soloConfig 2) id).exists_reachesWhen
    (fun s a => s.EndsTransactions a) (.fresh (soloConfig 2))
    (.pool (.submit (sampleRequest .save [1]) ()) ::
      .pool (.submit { sampleRequest .save [1] with payload := [6] } ()) ::
      .pool (.submit (sampleRequest .history [1]) ()) ::
      (List.replicate 9 (answerOk 1 []) ++ List.replicate 13 (answerOk 2 []) ++
        List.replicate 2 (answerOk 0 [⟨2, [6], 2⟩])))
    (fun s => s.rows.map Prod.snd = [1, 2] ∧
      (s.pool.responded.map fun q => q.2.rows.map LogRow.logId) = [[], [], [2]]) rfl
    (by decide +kernel)
  obtain ⟨hrows, hread⟩ := of_decide_eq_true htest
  exact ⟨s, hrows, hread, (session_reads hs).2.2.2⟩

end EchoServer
