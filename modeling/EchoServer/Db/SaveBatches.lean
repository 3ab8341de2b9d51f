import EchoServer.Db.CallOutcomes
import EchoServer.Db.SessionOrder
import EchoServer.Db.WorkerCalls

/-!
# Save batches

`flush_saves` on a connection with no open transaction. A call that fails has changed nothing
that is committed, though the server may have ended the transaction with it (`DbLink.Keeps`);
so what the transaction of a batch has not committed is undone when it ends, and `save_direct`
of a single request is a transaction of its own.

`TaskRun` executes the tasks of `Db.WorkerPool` with the connection's answers, and comes to the
same responses (`TaskRun.flushSaves_leads`). `batch_all_or_nothing` says what is in `echo_log`,
what is answered and what is released in the end.
-/

namespace EchoServer

/-- The failures of a batch that are failures of `begin_batch`, of an insert or of
`commit_batch` : a COMMIT that fails has not been done, a ROLLBACK undoes what is open, and what
a `CALL` gives back can be read. -/
structure CallFaults.Plain (procs : Bool) (H : CallFaults) : Prop where
  commit : H.batch .commit ≠ .lost true
  rollback : H.batch .rollback ≠ .error false
  /-- With result sets waiting a ROLLBACK is refused. -/
  read_insert : procs = true → ∀ i ended, (H.insert i).store .procSave ≠ .error ended
  /-- Outside a transaction an insert is its own COMMIT. -/
  single : H.first (.stmt (if procs then .procSave else .save) .execute) ≠ .lost true
  read_single : procs = true →
    H.first.store .procSave = .ok ∧ H.first (.stmt .procSave (.fetch 0)) = .ok

namespace DbLink

variable {α : Type} {F : Faults} {st : Statement} {c c' : DbLink} {t : Tables}

/-- From `c` to `c'` nothing committed has changed, and the transaction is the same or over. -/
structure Keeps (c c' : DbLink) : Prop where
  tables_eq : c'.tables = c.tables
  txn : c'.txn = none ∨
    c'.txn = c.txn ∧ c'.alive = c.alive ∧ c'.undrained = c.undrained

/-- A ROLLBACK reaches the server, if there is anything to roll back. -/
def Endable (c : DbLink) : Prop := c.txn = none ∨ c.alive = true ∧ c.undrained = false

theorem Keeps.refl (c : DbLink) : Keeps c c := ⟨rfl, Or.inr ⟨rfl, rfl, rfl⟩⟩

theorem Keeps.lose (c : DbLink) : Keeps c c.lose := ⟨rfl, Or.inl rfl⟩

/-- The end of a transaction keeps what is committed. -/
theorem Keeps.endTxn (c : DbLink) (ended : Bool) : Keeps c (c.endTxn ended) := by
  cases ended with
  | true => exact ⟨rfl, Or.inl rfl⟩
  | false => exact Keeps.refl c

theorem Keeps.note (h : Keeps c c') (e : Errno) : Keeps c (c'.note e) := by
  unfold DbLink.note
  split_ifs
  · exact ⟨h.tables_eq, h.txn⟩
  · exact h

/-- What can be rolled back still can. -/
theorem Keeps.endable (h : Keeps c c') (hc : c.Endable) : c'.Endable := by
  rcases h.txn with hnone | ⟨htxn, halive, hundrained⟩
  · exact Or.inl hnone
  · simpa only [Endable, htxn, halive, hundrained] using hc

theorem Keeps.txn_eq_none (h : Keeps c c') (hc : c.txn = none) : c'.txn = none := by
  rcases h.txn with hnone | ⟨htxn, -, -⟩
  · exact hnone
  · rw [htxn, hc]

/-! ## Single calls -/

/-- A command that reaches the server, one that has no effect, and one that the server has done
although it fails. -/
theorem command_cases (f : Fault) (act : Call α) (c : DbLink) :
    (c.alive = true ∧ c.undrained = false ∧ f = .ok ∧ command f act c = act c) ∨
      (∃ e c', command f act c = (.error e, c') ∧ Keeps c c') ∨
      c.alive = true ∧ f = .lost true ∧ command f act c = (.error .lost, (act c).2.lose) := by
  unfold command
  cases halive : c.alive with
  | false => exact Or.inr (Or.inl ⟨.lost, c, by simp, Keeps.refl c⟩)
  | true =>
    cases hundrained : c.undrained with
    | true => exact Or.inr (Or.inl ⟨.other, c, by simp, Keeps.refl c⟩)
    | false =>
      rcases f with _ | ended | served
      · exact Or.inl ⟨rfl, rfl, rfl, by simp⟩
      · exact Or.inr (Or.inl ⟨.other, c.endTxn ended, by simp, Keeps.endTxn c ended⟩)
      · cases served with
        | true => exact Or.inr (Or.inr ⟨rfl, rfl, by simp⟩)
        | false => exact Or.inr (Or.inl ⟨.lost, c.lose, by simp, Keeps.lose c⟩)

/-- The same of a prepared statement that does not fail by itself. -/
theorem exec_cases (F : Faults) (st : Statement) {act : Call α} {a : α} {y : DbLink}
    (hact : act c = (.ok a, y)) :
    (c.alive = true ∧ c.undrained = false ∧ exec F st act c = (.ok a, y)) ∨
      (∃ e c', exec F st act c = (.error e, c') ∧ Keeps c c') ∨
      c.alive = true ∧ F (.stmt st .execute) = .lost true ∧
        ∃ c', exec F st act c = (.error .lost, c') ∧ c'.tables = y.tables ∧ c'.txn = none := by
  unfold exec client
  rcases F (.stmt st .bind) with _ | ended | served
  · dsimp only
    obtain ⟨halive, hundrained, -, heq⟩ | ⟨e, c', heq, hkeeps⟩ | ⟨halive, hlost, heq⟩ :=
      command_cases (F (.stmt st .execute)) act c
    · exact Or.inl ⟨halive, hundrained, by rw [heq, hact]⟩
    · exact Or.inr (Or.inl ⟨e, c'.note e, by rw [heq], hkeeps.note e⟩)
    · refine Or.inr (Or.inr ⟨halive, hlost, y.lose.note .lost, by rw [heq, hact], rfl, rfl⟩)
  · exact Or.inr (Or.inl ⟨.other, _, rfl, (Keeps.endTxn c ended).note .other⟩)
  · exact Or.inr (Or.inl ⟨.lost, _, rfl, (Keeps.lose c).note .lost⟩)

/-- A ROLLBACK commits nothing. -/
theorem rollback_keeps (F : Faults) (c : DbLink) :
    (c.rollback F).tables = c.tables := by
  unfold rollback
  obtain ⟨-, -, -, heq⟩ | ⟨e, c', heq, hkeeps⟩ | ⟨-, -, heq⟩ :=
    command_cases (F .rollback) rollbackTransaction c
  · rw [heq]
    rfl
  · rw [heq]
    exact hkeeps.tables_eq
  · rw [heq]
    rfl

/-- A ROLLBACK that is not refused ends the transaction. -/
theorem txn_rollback (hF : F .rollback ≠ .error false) (hc : c.Endable) :
    (c.rollback F).txn = none := by
  unfold rollback command
  rcases hc with hnone | ⟨halive, hundrained⟩
  · split_ifs
    · exact hnone
    · exact hnone
    · rcases F .rollback with _ | ended | served
      · rfl
      · cases ended <;> simp [endTxn, hnone]
      · rfl
  · simp only [halive, hundrained, Bool.not_true, Bool.false_eq_true, ↓reduceIte]
    rcases hf : F .rollback with _ | ended | served
    · rfl
    · cases ended with
      | true => rfl
      | false => exact absurd hf hF
    · rfl

/-! ## Save -/

variable (sessionKey payload : Bytes)

/-- The connection once the server has inserted the row. -/
def stored (c : DbLink) : DbLink := (insertLog sessionKey payload c).2

theorem alive_stored : (c.stored sessionKey payload).alive = c.alive := by
  cases h : c.txn <;> simp [stored, insertLog, write, h]

theorem undrained_stored : (c.stored sessionKey payload).undrained = c.undrained := by
  cases h : c.txn <;> simp [stored, insertLog, write, h]

/-- What a Save gives back when its row has been inserted. -/
def savedAs (logId : ℕ) : Returned := { Returned.failed with ok := true, logId }

/-- How a Save ends. -/
inductive Saved (procs : Bool) (F : Faults) (c : DbLink) : Returned × DbLink → Prop
  | unchanged {c' : DbLink} : Keeps c c' → Saved procs F c (.failed, c')
  | inserted {c' : DbLink} : c.alive = true → c'.tables = (c.stored sessionKey payload).tables →
      (c'.txn = (c.stored sessionKey payload).txn ∧ c'.alive = true ∧ c'.undrained = false ∨
        c'.txn = none ∧ c'.alive = false) →
      Saved procs F c (savedAs c.nextLogId, c')
  /-- The row has been inserted, but the answer is lost. -/
  | unanswered {c' : DbLink} : c.alive = true → c'.tables = (c.stored sessionKey payload).tables →
      (c'.txn = none ∨
        c'.txn = (c.stored sessionKey payload).txn ∧ c'.alive = true ∧ c'.undrained = false) →
      F (.stmt (if procs then .procSave else .save) .execute) = .lost true ∨
        procs = true ∧ ¬(F.store .procSave = .ok ∧ F (.stmt .procSave (.fetch 0)) = .ok) →
      Saved procs F c (.failed, c')

/-- `save_direct` inserts the row, or fails and inserts none. -/
theorem saveDirect_saved (F : Faults) (c : DbLink) :
    Saved sessionKey payload false F c (saveDirect F sessionKey payload c) := by
  unfold saveDirect
  split_ifs
  · exact .unchanged (Keeps.refl c)
  · have hact : insertLog sessionKey payload c =
        (.ok c.nextLogId, c.stored sessionKey payload) := rfl
    obtain ⟨halive, hundrained, heq⟩ | ⟨e, c', heq, hkeeps⟩ |
        ⟨halive, hlost, c', heq, htables, htxn⟩ :=
      exec_cases F .save hact
    · rw [heq]
      refine .inserted halive rfl (Or.inl ⟨rfl, ?_, ?_⟩)
      · rw [alive_stored, halive]
      · rw [undrained_stored, hundrained]
    · rw [heq]
      exact .unchanged hkeeps
    · rw [heq]
      exact .unanswered halive htables (Or.inl htxn) (Or.inl hlost)

/-- After `drain_extra_results` no result sets wait. -/
theorem drain_cases (F : Faults) (st : Statement) (c : DbLink) :
    (c.drain F st).tables = c.tables ∧
      ((c.drain F st).txn = c.txn ∧ (c.drain F st).alive = c.alive ∧
          (c.drain F st).undrained = false ∨
        (c.drain F st).txn = none ∧ (c.drain F st).alive = false) := by
  unfold drain
  split
  · exact ⟨rfl, Or.inr ⟨rfl, rfl⟩⟩
  · exact ⟨rfl, Or.inl ⟨rfl, rfl, rfl⟩⟩

/-- So does `save_proc`, if its result can be read. -/
theorem saveProc_saved (hstore : ∀ ended, F.store .procSave ≠ .error ended) (c : DbLink) :
    Saved sessionKey payload true F c (saveProc F sessionKey payload c) := by
  unfold saveProc
  have hact : called (insertLog sessionKey payload) c =
      (.ok c.nextLogId, (c.stored sessionKey payload).pending) := rfl
  obtain ⟨halive, hundrained, heq⟩ | ⟨e, c', heq, hkeeps⟩ |
      ⟨halive, hlost, c', heq, htables, htxn⟩ :=
    exec_cases F .procSave hact
  · have hdrained : (c.stored sessionKey payload).undrained = false := by
      rw [undrained_stored, hundrained]
    have halive' : (c.stored sessionKey payload).alive = true := by rw [alive_stored, halive]
    rw [heq]
    dsimp only
    rw [fetchOut_pending F .procSave hdrained]
    rcases hread : F.store .procSave with _ | ended | served
    · rcases hfetch : F (.stmt .procSave (.fetch 0)) with _ | ended | served
      · obtain ⟨htables, hend⟩ := drain_cases F .procSave (c.stored sessionKey payload)
        refine .inserted halive htables ?_
        rwa [halive'] at hend
      · obtain ⟨htables, hend⟩ :=
          drain_cases F .procSave ((c.stored sessionKey payload).endTxn ended)
        have hkept := Keeps.endTxn (c.stored sessionKey payload) ended
        refine .unanswered halive (htables.trans hkept.tables_eq) ?_
          (Or.inr ⟨rfl, by simp [hfetch]⟩)
        rcases hend with ⟨htxn, halive, hundrained⟩ | ⟨htxn, -⟩
        · rcases hkept.txn with hnone | ⟨hsame, hup, -⟩
          · exact Or.inl (htxn.trans hnone)
          · exact Or.inr ⟨htxn.trans hsame, halive.trans (hup.trans halive'), hundrained⟩
        · exact Or.inl htxn
      · exact .unanswered halive rfl (Or.inl rfl) (Or.inr ⟨rfl, by simp [hfetch]⟩)
    · exact absurd hread (hstore ended)
    · exact .unanswered halive rfl (Or.inl rfl) (Or.inr ⟨rfl, by simp [hread]⟩)
  · rw [heq]
    exact .unchanged hkeeps
  · rw [heq]
    exact .unanswered halive htables (Or.inl htxn) (Or.inl hlost)

/-- And `save`, by either path. -/
theorem save_saved {procs : Bool}
    (hstore : procs = true → ∀ ended, F.store .procSave ≠ .error ended) (c : DbLink) :
    Saved sessionKey payload procs F c (save procs F sessionKey payload c) := by
  unfold save
  split_ifs with husable hprocs
  · exact .unchanged (Keeps.refl c)
  · subst hprocs
    exact saveProc_saved sessionKey payload (hstore rfl) c
  · obtain rfl : procs = false := by simpa using hprocs
    exact saveDirect_saved sessionKey payload F c

/-- A Save fails, or gives back the id of its row. -/
theorem save_shape (procs : Bool) (F : Faults) (c : DbLink) :
    (save procs F sessionKey payload c).1 = .failed ∨
      ∃ logId, (save procs F sessionKey payload c).1 = savedAs logId := by
  unfold save saveProc saveDirect
  repeat' split
  all_goals first
    | exact Or.inl rfl
    | exact Or.inr ⟨_, rfl⟩

/-! ## The transaction of a batch -/

/-- The rows of a batch, each with the id it was given. -/
def batchRows (saves : List Asked) (logIds : List ℕ) : List LogEntry :=
  List.zipWith (fun x logId => ⟨logId, x.req.sessionKey, x.req.payload⟩) saves logIds

/-- A batch between two of its inserts : its transaction sees `log`, unless the connection is
lost. -/
structure InBatch (t : Tables) (log : List LogEntry) (c : DbLink) : Prop where
  tables_eq : c.tables = t
  open_or_lost : (∃ u, c.txn = some u ∧ u.log = log ∧ c.alive = true ∧ c.undrained = false) ∨
    c.txn = none ∧ c.alive = false

variable {cfg : DbLinkConfig} {H : CallFaults}

/-- An insert of a batch adds its row to what the transaction sees. -/
theorem InBatch.save {log : List LogEntry} (hc : InBatch t log c) {procs : Bool}
    (hstore : procs = true → ∀ ended, F.store .procSave ≠ .error ended) :
    (∃ c', c.save procs F sessionKey payload = (.failed, c') ∧ c'.tables = t ∧ c'.Endable) ∨
      ∃ c', c.save procs F sessionKey payload = (savedAs c.nextLogId, c') ∧
        InBatch t (log ++ [⟨c.nextLogId, sessionKey, payload⟩]) c' := by
  have hsaved := save_saved sessionKey payload hstore c
  generalize c.save procs F sessionKey payload = r at hsaved
  obtain ⟨htables, ⟨u, htxn, hlog, halive, hundrained⟩ | ⟨htxn, hlost⟩⟩ := hc
  · have hstored : (c.stored sessionKey payload).tables = t ∧
        (c.stored sessionKey payload).txn = some (u.insertLog c.nextLogId sessionKey payload) := by
      simp [stored, insertLog, write, view, htxn, htables]
    cases hsaved with
    | unchanged hkeeps =>
      exact Or.inl ⟨_, rfl, hkeeps.tables_eq.trans htables,
        hkeeps.endable (Or.inr ⟨halive, hundrained⟩)⟩
    | inserted _ htables' hend =>
      refine Or.inr ⟨_, rfl, htables'.trans hstored.1, ?_⟩
      rcases hend with ⟨htxn', hup, hdrained⟩ | hlost
      · exact Or.inl ⟨_, htxn'.trans hstored.2, by simp [Tables.insertLog, hlog], hup, hdrained⟩
      · exact Or.inr hlost
    | unanswered _ htables' hend _ =>
      refine Or.inl ⟨_, rfl, htables'.trans hstored.1, ?_⟩
      rcases hend with hnone | ⟨-, hup, hdrained⟩
      · exact Or.inl hnone
      · exact Or.inr ⟨hup, hdrained⟩
  · cases hsaved with
    | unchanged hkeeps =>
      exact Or.inl ⟨_, rfl, hkeeps.tables_eq.trans htables, Or.inl (hkeeps.txn_eq_none htxn)⟩
    | inserted halive => simp [hlost] at halive
    | unanswered halive => simp [hlost] at halive

/-- The inserts of a batch change nothing that is committed. -/
theorem InBatch.saveAll (hH : H.Plain cfg.procs) (saves : List Asked) :
    ∀ {i : ℕ} {log : List LogEntry} {c : DbLink}, InBatch t log c →
      (∃ logIds c', DbLink.saveAll cfg H i saves c = ((false, logIds), c') ∧ c'.tables = t ∧
          c'.Endable) ∨
        ∃ logIds c', DbLink.saveAll cfg H i saves c = ((true, logIds), c') ∧
          logIds.length = saves.length ∧ InBatch t (log ++ batchRows saves logIds) c' := by
  induction saves with
  | nil =>
    intro i log c hc
    exact Or.inr ⟨[], c, rfl, rfl, by simpa [batchRows] using hc⟩
  | cons x saves ih =>
    intro i log c hc
    rw [DbLink.saveAll]
    obtain ⟨c', heq, htables, hend⟩ | ⟨c', heq, hc'⟩ :=
      hc.save (F := H.insert i) x.req.sessionKey x.req.payload (hH.read_insert · i)
    · exact Or.inl ⟨[], c', by simp [heq, Returned.failed], htables, hend⟩
    · obtain ⟨logIds, c'', hall, htables, hend⟩ | ⟨logIds, c'', hall, hlen, hc''⟩ :=
        ih (i := i + 1) hc'
      · exact Or.inl ⟨c.nextLogId :: logIds, c'', by simp [heq, savedAs, hall], htables, hend⟩
      · refine Or.inr ⟨c.nextLogId :: logIds, c'', by simp [heq, savedAs, hall], by simp [hlen], ?_⟩
        simpa [batchRows] using hc''

/-- How `commit_batch` ends. -/
theorem InBatch.commitBatch {log : List LogEntry} (hc : InBatch t log c)
    (hF : F .commit ≠ .lost true) :
    (∃ c', c.commitBatch F = (false, c') ∧ c'.tables = t ∧ c'.Endable) ∨
      ∃ c', c.commitBatch F = (true, c') ∧ c'.tables.log = log ∧ c'.txn = none := by
  obtain ⟨htables, hopen⟩ := hc
  have hend : c.Endable := by
    rcases hopen with ⟨u, -, -, halive, hundrained⟩ | ⟨htxn, -⟩
    · exact Or.inr ⟨halive, hundrained⟩
    · exact Or.inl htxn
  unfold DbLink.commitBatch runPlain
  split_ifs
  · exact Or.inl ⟨c, rfl, htables, hend⟩
  · obtain ⟨halive, -, -, heq⟩ | ⟨e, c', heq, hkeeps⟩ | ⟨-, hlost, -⟩ :=
      command_cases (F .commit) commitTransaction c
    · rw [heq]
      refine Or.inr ⟨_, rfl, ?_, rfl⟩
      rcases hopen with ⟨u, htxn, hlog, -⟩ | ⟨-, hlost⟩
      · simpa [view, htxn] using hlog
      · simp [hlost] at halive
    · rw [heq]
      have hkeeps := hkeeps.note e
      exact Or.inl ⟨_, rfl, hkeeps.tables_eq.trans htables, hkeeps.endable hend⟩
    · exact absurd hlost hF

/-- How `begin_batch` ends on a connection with no open transaction. -/
theorem beginBatch_cases (F : Faults) (hc : c.txn = none) :
    (∃ c', c.beginBatch F = (false, c') ∧ c'.tables = c.tables ∧ c'.txn = none) ∨
      ∃ c', c.beginBatch F = (true, c') ∧ InBatch c.tables c.tables.log c' := by
  have hview : c.view = c.tables := by simp [view, hc]
  unfold beginBatch runPlain
  split_ifs
  · exact Or.inl ⟨c, rfl, rfl, hc⟩
  · obtain ⟨halive, hundrained, -, heq⟩ | ⟨e, c', heq, hkeeps⟩ | ⟨-, hlost, heq⟩ :=
      command_cases (F .startTransaction) startTransaction c
    · rw [heq]
      exact Or.inr ⟨_, rfl, hview, Or.inl ⟨_, rfl, by rw [hview], halive, hundrained⟩⟩
    · rw [heq]
      have hkeeps := hkeeps.note e
      exact Or.inl ⟨_, rfl, hkeeps.tables_eq, hkeeps.txn_eq_none hc⟩
    · rw [heq]
      exact Or.inl ⟨_, rfl, hview, rfl⟩

/-- The responses to a batch that is committed, and to one that is not. -/
def savedResponses (saves : List Asked) (logIds : List ℕ) : List Response :=
  List.zipWith (fun x logId => x.req.response .ok (savedAs logId)) saves logIds

/-- Every Save of a batch is answered with the same status. -/
def failedResponses (saves : List Asked) (status : Status) : List Response :=
  saves.map fun x => x.req.response status .failed

/-- All the rows are there and answered with their ids, or there are none and no ids. -/
def AllOrNothing (c : DbLink) (saves : List Asked) (r : List Response × DbLink) : Prop :=
  (∃ logIds, logIds.length = saves.length ∧
      r.2.tables.log = c.tables.log ++ batchRows saves logIds ∧
      r.1 = savedResponses saves logIds) ∨
    r.2.tables = c.tables ∧ ∃ status, status ≠ .ok ∧ r.1 = failedResponses saves status

/-- A single Save. -/
theorem handle_save (hH : H.Plain cfg.procs) (htxn : c.txn = none) {x : Asked}
    (hkind : x.req.kind = .save) :
    (c.handle cfg H x).2.txn = none ∧
      AllOrNothing c [x] ([(c.handle cfg H x).1], (c.handle cfg H x).2) := by
  unfold handle
  split_ifs with hlate husable
  · exact ⟨htxn, Or.inr ⟨rfl, .expired, by simp, rfl⟩⟩
  · exact ⟨htxn, Or.inr ⟨rfl, .unavailable, by simp, rfl⟩⟩
  · have hstore : cfg.procs = true → ∀ ended, H.first.store .procSave ≠ .error ended :=
      fun hprocs ended => by simp [(hH.read_single hprocs).1]
    have hsaved := save_saved x.req.sessionKey x.req.payload hstore c
    have hrun : runOnce cfg H.first x.req c =
        c.save cfg.procs H.first x.req.sessionKey x.req.payload := by
      simp [runOnce, hkind]
    have hretry : isRetrySafe x.req.kind = false := by rw [hkind]; rfl
    rw [hrun]
    generalize c.save cfg.procs H.first x.req.sessionKey x.req.payload = r at hsaved
    cases hsaved with
    | unchanged hkeeps =>
      simp only [Returned.failed, Bool.false_eq_true, ↓reduceIte, hretry, Bool.and_false, giveUp]
      exact ⟨hkeeps.txn_eq_none htxn,
        Or.inr ⟨hkeeps.tables_eq, _, failedStatus_ne_ok _, rfl⟩⟩
    | inserted _ htables hend =>
      have hstored : (c.stored x.req.sessionKey x.req.payload).txn = none ∧
          (c.stored x.req.sessionKey x.req.payload).tables.log =
            c.tables.log ++ batchRows [x] [c.nextLogId] := by
        simp [stored, insertLog, write, view, htxn, Tables.insertLog, batchRows]
      simp only [savedAs, ↓reduceIte]
      refine ⟨?_, Or.inl ⟨[c.nextLogId], rfl, ?_, rfl⟩⟩
      · rcases hend with ⟨htxn', -⟩ | ⟨htxn', -⟩
        · exact htxn'.trans hstored.1
        · exact htxn'
      · exact (congrArg Tables.log htables).trans hstored.2
    | unanswered _ _ _ hlost =>
      rcases hlost with hlost | ⟨hprocs, hread⟩
      · exact absurd hlost hH.single
      · exact absurd (hH.read_single hprocs) hread

/-- A batch of two or more. -/
theorem batchTxn_cases (hH : H.Plain cfg.procs) (htxn : c.txn = none) (saves : List Asked) :
    (∃ logIds c', batchTxn cfg H saves c = ((false, logIds), c') ∧ c'.tables = c.tables ∧
        c'.Endable) ∨
      ∃ logIds c', batchTxn cfg H saves c = ((true, logIds), c') ∧
        logIds.length = saves.length ∧ c'.tables.log = c.tables.log ++ batchRows saves logIds ∧
        c'.txn = none := by
  unfold batchTxn
  obtain ⟨c₁, hbegin, htables, htxn₁⟩ | ⟨c₁, hbegin, hc₁⟩ := beginBatch_cases H.batch htxn
  · exact Or.inl ⟨[], c₁, by rw [hbegin], htables, Or.inl htxn₁⟩
  · rw [hbegin]
    dsimp only
    obtain ⟨logIds, c₂, hall, htables, hend⟩ | ⟨logIds, c₂, hall, hlen, hc₂⟩ :=
      hc₁.saveAll hH saves (i := 0)
    · exact Or.inl ⟨logIds, c₂, by rw [hall], htables, hend⟩
    · obtain ⟨c₃, hcommit, htables, hend⟩ | ⟨c₃, hcommit, hlog, htxn₃⟩ :=
        hc₂.commitBatch hH.commit
      · exact Or.inl ⟨logIds, c₃, by simp [hall, hcommit], htables, hend⟩
      · exact Or.inr ⟨logIds, c₃, by simp [hall, hcommit], hlen, hlog, htxn₃⟩

/-- A batch is committed and answered whole, or not at all. -/
theorem flushSaves_allOrNothing (hH : H.Plain cfg.procs) (htxn : c.txn = none)
    {saves : List Asked} (hsaves : saves ≠ []) (hkind : ∀ x ∈ saves, x.req.kind = .save) :
    (c.flushSaves cfg H saves).2.txn = none ∧ AllOrNothing c saves (c.flushSaves cfg H saves) := by
  unfold flushSaves
  split
  · exact absurd rfl hsaves
  · exact handle_save hH htxn (hkind _ (by simp))
  · obtain ⟨logIds, c', heq, htables, hend⟩ | ⟨logIds, c', heq, hlen, hlog, htxn'⟩ :=
      batchTxn_cases hH htxn saves
    · rw [heq]
      refine ⟨txn_rollback hH.rollback hend, Or.inr ⟨?_, _, failedStatus_ne_ok _, rfl⟩⟩
      exact (rollback_keeps H.batch c').trans htables
    · rw [heq]
      refine ⟨htxn', Or.inl ⟨logIds, hlen, hlog, ?_⟩⟩
      exact List.map_zip_eq_zipWith

end DbLink

/-! ## The tasks of a worker on its connection -/

/-- What a call gives back to the worker, and whether it has cost the connection. -/
def Returned.outcome (ret : Returned) (c : DbLink) : Outcome :=
  ⟨ret.ok, !c.usable, ret.logId, ret.rows, ret.hitCount, ret.alreadyApplied⟩

/-- The database call of a task, on the worker's connection. -/
def Task.call {τ : Type*} (cfg : DbLinkConfig) (H : CallFaults) (c : DbLink) :
    Task τ → Returned × DbLink
  | .queried j retry => c.runOnce cfg (if retry then H.second else H.first) j.req
  | .reconnect _ =>
    let (ok, c) := c.ensureUsable H.connected
    ({ Returned.failed with ok }, c)
  | .beginBatch _ =>
    let (ok, c) := c.beginBatch H.batch
    ({ Returned.failed with ok }, c)
  | .inserted saves logIds =>
    match saves[logIds.length]? with
    | some j => c.save cfg.procs (H.insert logIds.length) j.req.sessionKey j.req.payload
    | none => (.failed, c)
  | .commitBatch _ _ =>
    let (ok, c) := c.commitBatch H.batch
    ({ Returned.failed with ok }, c)
  | .rollbackBatch _ => (.failed, c.rollbackBatch H.batch)
  | _ => (.failed, c)

/-- A worker with its connection, until its tasks are done. -/
structure TaskRun (τ : Type*) where
  conn : DbLink
  tasks : List (Task τ)
  responded : List (Job τ × Response)
  released : List (Job τ)

namespace TaskRun

variable {τ : Type*} (cfg : DbLinkConfig) (H : CallFaults) (now : ℕ)

/-- Execute the next task, with the answer of the connection. -/
def step (r : TaskRun τ) : TaskRun τ :=
  match r.tasks with
  | [] => r
  | t :: rest =>
    let (ret, conn) := t.call cfg H r.conn
    let (_, new, eff) := t.exec now r.conn.usable (ret.outcome conn)
    { conn
      tasks := new ++ rest
      responded := r.responded ++ eff.responses
      released := r.released ++ eff.released }

/-- From `r` the worker gets to `r'`. -/
def Leads (r r' : TaskRun τ) : Prop := ∃ n, (step cfg H now)^[n] r = r'

variable {cfg H now} {r r' r'' : TaskRun τ}

theorem Leads.refl (r : TaskRun τ) : Leads cfg H now r r := ⟨0, rfl⟩

theorem Leads.trans (h : Leads cfg H now r r') (h' : Leads cfg H now r' r'') :
    Leads cfg H now r r'' := by
  obtain ⟨n, rfl⟩ := h
  obtain ⟨m, rfl⟩ := h'
  exact ⟨m + n, Function.iterate_add_apply ..⟩

/-- One step, and what it leads to. -/
theorem Leads.head (h : Leads cfg H now (step cfg H now r) r') : Leads cfg H now r r' := by
  obtain ⟨n, rfl⟩ := h
  exact ⟨n + 1, rfl⟩

variable {c : DbLink} {resp : List (Job τ × Response)} {rel : List (Job τ)}

/-- The requests of a batch that has been answered are released one after the other. -/
theorem leads_release (done : List (Job τ)) :
    ∀ rel : List (Job τ), Leads cfg H now ⟨c, done.map .release, resp, rel⟩
      ⟨c, [], resp, rel ++ done⟩ := by
  induction done with
  | nil =>
    intro rel
    rw [List.append_nil]
    exact Leads.refl _
  | cons j done ih =>
    intro rel
    refine Leads.head ?_
    simpa [step, Task.call, Task.exec, Effect.responses, Effect.released] using ih (rel ++ [j])

/-- The end of a batch : all its responses, and then all its releases. -/
theorem leads_respondBatch (todo : List (Job τ × Response)) :
    ∀ (done : List (Job τ)) (resp : List (Job τ × Response)),
      Leads cfg H now ⟨c, [.respondBatch done todo], resp, rel⟩
        ⟨c, [], resp ++ todo, rel ++ (done ++ todo.map Prod.fst)⟩ := by
  induction todo with
  | nil =>
    intro done resp
    refine Leads.head ?_
    have hrelease : Leads cfg H now ⟨c, done.map .release, resp, rel⟩ ⟨c, [], resp, rel ++ done⟩ :=
      leads_release done rel
    simpa [step, Task.call, Task.exec, Effect.responses, Effect.released] using hrelease
  | cons x todo ih =>
    intro done resp
    refine Leads.head ?_
    simpa [step, Task.call, Task.exec, Effect.responses, Effect.released] using
      ih (done ++ [x.1]) (resp ++ [x])

/-- The request, and whether it is past its deadline now. -/
def asked (now : ℕ) (j : Job τ) : Asked := ⟨j.req, j.req.late now⟩

/-- A task with its call, and what it leads to. -/
theorem Leads.task {t : Task τ} {ret : Returned} {c' : DbLink} {usable : Bool}
    {new : List (Task τ)} {eff : Effect τ} (hcall : t.call cfg H c = (ret, c'))
    (hexec : t.exec now c.usable (ret.outcome c') = (usable, new, eff))
    (h : Leads cfg H now ⟨c', new, resp ++ eff.responses, rel ++ eff.released⟩ r') :
    Leads cfg H now ⟨c, [t], resp, rel⟩ r' := by
  refine Leads.head ?_
  simpa only [step, hcall, hexec, List.append_nil] using h

/-- A task that neither responds nor releases. -/
theorem Leads.quiet {t : Task τ} {ret : Returned} {c' : DbLink} {usable : Bool}
    {new : List (Task τ)} (hcall : t.call cfg H c = (ret, c'))
    (hexec : t.exec now c.usable (ret.outcome c') = (usable, new, .none))
    (h : Leads cfg H now ⟨c', new, resp, rel⟩ r') : Leads cfg H now ⟨c, [t], resp, rel⟩ r' := by
  refine Leads.task hcall hexec ?_
  simpa only [Effect.responses, Effect.released, List.append_nil] using h

/-- The inserts of a batch, up to the COMMIT or the ROLLBACK. -/
theorem leads_insert {saves later : List (Job τ)} {logIds ids : List ℕ} {c c' : DbLink} {ok : Bool}
    (hlater : saves.drop logIds.length = later)
    (h : c.saveAll cfg H logIds.length (later.map (asked now)) = ((ok, ids), c')) :
    Leads cfg H now ⟨c, [.insert saves logIds], resp, rel⟩
      ⟨c', [if ok then .commitBatch saves (logIds ++ ids) else .rollbackBatch saves], resp, rel⟩ := by
  induction later generalizing logIds ids c with
  | nil =>
    have hnone : saves[logIds.length]? = none :=
      List.getElem?_eq_none (List.drop_eq_nil_iff.mp hlater)
    obtain ⟨⟨rfl, rfl⟩, rfl⟩ : (true = ok ∧ [] = ids) ∧ c = c' := by
      simpa [DbLink.saveAll] using h
    have hexec : (Task.insert saves logIds).exec now c.usable (Returned.failed.outcome c) =
        (c.usable, [.commitBatch saves logIds], .none) := by
      simp [Task.exec, hnone]
    refine Leads.quiet rfl hexec ?_
    simpa using Leads.refl _
  | cons j later ih =>
    have hj : saves[logIds.length]? = some j := by
      rw [← List.head?_drop, hlater, List.head?_cons]
    have hrest : ∀ logId, saves.drop (logIds ++ [logId]).length = later := by
      intro logId
      rw [List.length_append, List.length_singleton, ← List.drop_drop, hlater, List.drop_one,
        List.tail_cons]
    have hinsert : Leads cfg H now ⟨c, [.inserted saves logIds], resp, rel⟩
        ⟨c', [if ok then .commitBatch saves (logIds ++ ids) else .rollbackBatch saves], resp, rel⟩ := by
      rw [List.map_cons, DbLink.saveAll] at h
      obtain ⟨⟨ret, y⟩, hsave⟩ : ∃ r, c.save cfg.procs (H.insert logIds.length) j.req.sessionKey
        j.req.payload = r := ⟨_, rfl⟩
      have hcall : (Task.inserted saves logIds).call cfg H c = (ret, y) := by
        simp only [Task.call, hj, hsave]
      simp only [asked, hsave] at h
      cases hok : ret.ok with
      | false =>
        obtain ⟨⟨rfl, -⟩, rfl⟩ : (false = ok ∧ [] = ids) ∧ y = c' := by simpa [hok] using h
        refine Leads.quiet hcall (by simp only [Task.exec, Returned.outcome, hok]; rfl) ?_
        exact Leads.refl _
      | true =>
        obtain ⟨⟨⟨ok', ids'⟩, y'⟩, hall⟩ : ∃ r, y.saveAll cfg H (logIds.length + 1)
          (later.map (asked now)) = r := ⟨_, rfl⟩
        obtain ⟨⟨rfl, rfl⟩, rfl⟩ : (ok' = ok ∧ ret.logId :: ids' = ids) ∧ y' = c' := by
          simpa [hok, show later.map (fun j => (⟨j.req, j.req.late now⟩ : Asked)) =
            later.map (asked now) from rfl, hall] using h
        refine Leads.quiet hcall (by simp only [Task.exec, Returned.outcome, hok]; rfl) ?_
        have hnext := ih (hrest ret.logId) (by simpa using hall)
        simpa using hnext
    refine Leads.head ?_
    simpa [step, Task.call, Task.exec, hj, Effect.responses, Effect.released] using hinsert

/-- A response is sent, and its request released. -/
theorem leads_respond (j : Job τ) (res : Response) :
    Leads cfg H now ⟨c, [.respond j res], resp, rel⟩ ⟨c, [], resp ++ [(j, res)], rel ++ [j]⟩ := by
  refine Leads.task rfl rfl ?_
  simpa [Effect.responses, Effect.released] using
    (leads_release [j] rel : Leads cfg H now ⟨c, _, resp ++ [(j, res)], rel⟩ _)

/-- A single Save, from `process` to its release. -/
theorem leads_process {j : Job τ} (hkind : j.req.kind = .save) :
    Leads cfg H now ⟨c, [.process j], resp, rel⟩
      ⟨(c.handle cfg H (asked now j)).2, [],
        resp ++ [(j, (c.handle cfg H (asked now j)).1)], rel ++ [j]⟩ := by
  unfold DbLink.handle
  split_ifs with hlate husable
  · have hexec : (Task.process j).exec now c.usable (Returned.failed.outcome c) =
        (c.usable, [.respond j (j.failure .expired)], .none) := if_pos hlate
    exact Leads.quiet rfl hexec (leads_respond j _)
  · have hexec : (Task.process j).exec now c.usable (Returned.failed.outcome c) =
        (c.usable, [.checkUsable j], .none) := if_neg hlate
    have hexec' : (Task.checkUsable j).exec now c.usable (Returned.failed.outcome c) =
        (c.usable, [.respond j (j.failure .unavailable)], .none) := if_neg (by simpa using husable)
    exact Leads.quiet rfl hexec (Leads.quiet rfl hexec' (leads_respond j _))
  · have hexec : (Task.process j).exec now c.usable (Returned.failed.outcome c) =
        (c.usable, [.checkUsable j], .none) := if_neg hlate
    have hexec' : (Task.checkUsable j).exec now c.usable (Returned.failed.outcome c) =
        (c.usable, [.query j false], .none) := if_pos (by simpa using husable)
    refine Leads.quiet rfl hexec (Leads.quiet rfl hexec' ?_)
    have hstart : (Task.query j false).exec now c.usable (Returned.failed.outcome c) =
        (c.usable, [.queried j false], .execute j) := rfl
    refine Leads.task rfl hstart ?_
    simp only [Effect.responses, Effect.released, List.append_nil]
    have hshape := DbLink.save_shape j.req.sessionKey j.req.payload cfg.procs H.first c
    have hrun : c.runOnce cfg H.first (asked now j).req =
        c.save cfg.procs H.first j.req.sessionKey j.req.payload := by
      simp [DbLink.runOnce, asked, hkind]
    have hretry : isRetrySafe (asked now j).req.kind = false := by
      simp only [asked, hkind]
      rfl
    obtain ⟨⟨ret, y⟩, hsave⟩ : ∃ r, c.save cfg.procs H.first j.req.sessionKey j.req.payload = r :=
      ⟨_, rfl⟩
    have hcall : (Task.queried j false).call cfg H c = (ret, y) := hrun.trans hsave
    rw [hsave] at hshape
    rw [hrun, hsave]
    obtain rfl | ⟨logId, rfl⟩ : ret = .failed ∨ ∃ logId, ret = DbLink.savedAs logId := hshape
    · have hqueried : (Task.queried j false).exec now c.usable (Returned.failed.outcome y) =
          (c.usable && y.usable, [.fail j], .none) := by
        simp [Task.exec, Returned.outcome, Returned.failed, hkind, isRetrySafe]
      have hfail : (Task.fail j).exec now y.usable (Returned.failed.outcome y) =
          (y.usable, [.respond j (j.failure (failedStatus y.usable))], .none) := rfl
      simp only [Returned.failed, Bool.false_eq_true, ↓reduceIte, hretry, Bool.and_false,
        DbLink.giveUp]
      exact Leads.quiet hcall hqueried (Leads.quiet rfl hfail (leads_respond j _))
    · have hqueried : (Task.queried j false).exec now c.usable
          ((DbLink.savedAs logId).outcome y) =
          (c.usable, [.respond j (j.success ((DbLink.savedAs logId).outcome y))], .none) := rfl
      have hres : j.success ((DbLink.savedAs logId).outcome y) =
          (asked now j).req.response .ok (DbLink.savedAs logId) := by
        simp [Job.success, hkind, Job.failure, Returned.outcome, DbLink.savedAs, Returned.failed,
          Request.response, asked]
      rw [hres] at hqueried
      exact Leads.quiet hcall hqueried (leads_respond j _)

/-- A batch whose inserts all succeed has an id for each. -/
theorem length_of_saveAll {saves : List Asked} {i : ℕ} {logIds : List ℕ} {c' : DbLink}
    (h : c.saveAll cfg H i saves = ((true, logIds), c')) : logIds.length = saves.length := by
  induction saves generalizing i logIds c with
  | nil =>
    obtain ⟨rfl, -⟩ : [] = logIds ∧ c = c' := by simpa [DbLink.saveAll] using h
    rfl
  | cons x saves ih =>
    rw [DbLink.saveAll] at h
    obtain ⟨⟨ret, y⟩, hsave⟩ :
        ∃ r, c.save cfg.procs (H.insert i) x.req.sessionKey x.req.payload = r :=
      ⟨_, rfl⟩
    obtain ⟨⟨⟨ok, ids⟩, z⟩, hall⟩ : ∃ r, y.saveAll cfg H (i + 1) saves = r := ⟨_, rfl⟩
    simp only [hsave, hall] at h
    split_ifs at h
    · obtain ⟨⟨rfl, rfl⟩, rfl⟩ : (ok = true ∧ ret.logId :: ids = logIds) ∧ z = c' := by
        simpa using h
      rw [List.length_cons, List.length_cons, ih hall]
    · simp at h

/-- The responses of a committed batch, by request. -/
theorem savedAll_eq {saves : List (Job τ)} {logIds : List ℕ} (hlen : logIds.length = saves.length) :
    Job.savedAll saves logIds =
      saves.zip (((saves.map (asked now)).zip logIds).map fun (x, logId) =>
        x.req.response .ok { Returned.failed with logId }) := by
  refine List.ext_getElem ?_ fun i hi hi' => ?_
  · simp [Job.savedAll, hlen]
  · have hlt : i < logIds.length := by
      rw [hlen]
      simpa [Job.savedAll] using hi
    simp [Job.savedAll, Job.failure, Request.response, Returned.failed, asked, hlt]

/-- The answers of a batch that has failed are those of `failedResponses`. -/
theorem failedAll_eq (saves : List (Job τ)) (status : Status) :
    Job.failedAll saves status =
      saves.zip ((saves.map (asked now)).map fun x => x.req.response status .failed) := by
  refine List.ext_getElem ?_ fun i hi hi' => ?_
  · simp [Job.failedAll]
  · simp [Job.failedAll, Job.failure, Request.response, Returned.failed, asked]

/-- All the responses of a batch, and then all its releases. -/
theorem leads_answer (todo : List (Job τ × Response)) :
    Leads cfg H now ⟨c, [.respondBatch [] todo], resp, rel⟩
      ⟨c, [], resp ++ todo, rel ++ todo.map Prod.fst⟩ :=
  leads_respondBatch todo [] resp

/-- A rollback answers every Save of the batch with the failure. -/
theorem leads_rollback (saves : List (Job τ)) :
    Leads cfg H now ⟨c, [.rollbackBatch saves], resp, rel⟩
      ⟨c.rollbackBatch H.batch, [],
        resp ++ Job.failedAll saves (failedStatus (c.rollbackBatch H.batch).usable), rel ++ saves⟩ := by
  refine Leads.quiet rfl rfl (Leads.quiet rfl rfl ?_)
  simpa using leads_answer (Job.failedAll saves (failedStatus (c.rollbackBatch H.batch).usable))

/-- A batch of two or more, from `begin_batch` to its releases. -/
theorem leads_beginBatch {saves : List (Job τ)} {ok : Bool} {logIds : List ℕ} {c' : DbLink}
    (h : c.batchTxn cfg H (saves.map (asked now)) = ((ok, logIds), c')) :
    Leads cfg H now ⟨c, [.beginBatch saves], resp, rel⟩
      ⟨if ok then c' else c'.rollbackBatch H.batch, [],
        resp ++ (if ok then Job.savedAll saves logIds
          else Job.failedAll saves (failedStatus (c'.rollbackBatch H.batch).usable)),
        rel ++ saves⟩ := by
  unfold DbLink.batchTxn at h
  obtain ⟨⟨begun, y⟩, hbegin⟩ : ∃ r, c.beginBatch H.batch = r := ⟨_, rfl⟩
  have hcall : (Task.beginBatch saves).call cfg H c =
      ({ Returned.failed with ok := begun }, y) := by
    simp only [Task.call, hbegin]
  rw [hbegin] at h
  cases begun with
  | false =>
    obtain ⟨⟨rfl, -⟩, rfl⟩ : (false = ok ∧ [] = logIds) ∧ y = c' := by simpa using h
    exact Leads.quiet hcall rfl (leads_rollback saves)
  | true =>
    obtain ⟨⟨⟨inserted, ids⟩, z⟩, hall⟩ : ∃ r, y.saveAll cfg H 0 (saves.map (asked now)) = r :=
      ⟨_, rfl⟩
    simp only [hall] at h
    refine Leads.quiet hcall rfl (Leads.trans (leads_insert rfl hall) ?_)
    cases inserted with
    | false =>
      obtain ⟨⟨rfl, -⟩, rfl⟩ : (false = ok ∧ ids = logIds) ∧ z = c' := by simpa using h
      exact leads_rollback saves
    | true =>
      obtain ⟨⟨committed, v⟩, hcommit⟩ : ∃ r, z.commitBatch H.batch = r := ⟨_, rfl⟩
      have hcall' : (Task.commitBatch saves ids).call cfg H z =
          ({ Returned.failed with ok := committed }, v) := by
        simp only [Task.call, hcommit]
      obtain ⟨⟨rfl, rfl⟩, rfl⟩ : (committed = ok ∧ ids = logIds) ∧ v = c' := by
        simpa [hcommit] using h
      cases committed with
      | false => exact Leads.quiet hcall' rfl (leads_rollback saves)
      | true =>
        refine Leads.quiet hcall' rfl ?_
        simpa using leads_answer (Job.savedAll saves ids)

/-- A batch that is committed has an id for each of its Saves. -/
theorem length_of_batchTxn {saves : List Asked} {logIds : List ℕ} {c' : DbLink}
    (h : c.batchTxn cfg H saves = ((true, logIds), c')) : logIds.length = saves.length := by
  unfold DbLink.batchTxn at h
  obtain ⟨⟨begun, y⟩, hbegin⟩ : ∃ r, c.beginBatch H.batch = r := ⟨_, rfl⟩
  obtain ⟨⟨⟨inserted, ids⟩, z⟩, hall⟩ : ∃ r, y.saveAll cfg H 0 saves = r := ⟨_, rfl⟩
  cases begun with
  | false => simp [hbegin] at h
  | true =>
    cases inserted with
    | false => simp [hbegin, hall] at h
    | true =>
      obtain rfl : ids = logIds := by
        have := congrArg (fun r => r.1.2) h
        simpa [hbegin, hall] using this
      exact length_of_saveAll hall

/-- `flush_saves` answers with the responses of the connection's own, each for its request, and
releases every request of the list once. -/
theorem flushSaves_leads {saves : List (Job τ)} (hkind : ∀ j ∈ saves, j.req.kind = .save) :
    Leads cfg H now ⟨c, [.flushSaves saves], resp, rel⟩
      ⟨(c.flushSaves cfg H (saves.map (asked now))).2, [],
        resp ++ saves.zip (c.flushSaves cfg H (saves.map (asked now))).1, rel ++ saves⟩ := by
  rcases saves with _ | ⟨j, _ | ⟨j', saves⟩⟩
  · refine Leads.quiet rfl rfl ?_
    simpa [DbLink.flushSaves] using Leads.refl _
  · exact Leads.quiet rfl rfl (leads_process (hkind j (by simp)))
  · refine Leads.quiet rfl rfl ?_
    obtain ⟨⟨⟨ok, logIds⟩, c'⟩, htxn⟩ :
      ∃ r, c.batchTxn cfg H ((j :: j' :: saves).map (asked now)) = r := ⟨_, rfl⟩
    have hlead : Leads cfg H now ⟨c, [.beginBatch (j :: j' :: saves)], resp, rel⟩ _ :=
      leads_beginBatch htxn
    simp only [DbLink.flushSaves, List.map_cons] at htxn ⊢
    rw [htxn]
    cases ok with
    | false =>
      rw [if_neg (by simp), if_neg (by simp), failedAll_eq] at hlead
      exact hlead
    | true =>
      have hlen := length_of_batchTxn htxn
      rw [if_pos rfl, if_pos rfl, savedAll_eq (by simpa using hlen)] at hlead
      exact hlead

end TaskRun

/-- What the loop hands over to `flush_saves` it no longer has. -/
theorem Worker.handOver_flushed {τ : Type*} (cfg : PoolConfig) (now : ℕ) (j : Job τ)
    (saves : List (Job τ)) (next : List (Job τ) → Loop τ) {w : Worker τ} (hw : w.tasks = []) :
    (w.handOver cfg now j saves next).tasks = [] ∨
      (w.handOver cfg now j saves next).loop = next [] := by
  unfold handOver
  dsimp only
  split_ifs
  · exact Or.inr rfl
  · exact Or.inl hw
  · exact Or.inr rfl

/-- A batch of Saves on a connection with no open transaction, wherever `begin_batch`, an insert
or `commit_batch` fails : `flush_saves` ends; either all the rows are in `echo_log`, in order, and
each request is answered with the id of its own row, or nothing is stored and all are answered
with one other status and no id; the answers come in the order of the list, every request is
released once, no transaction is open, and the loop goes on with an empty list. -/
theorem batch_all_or_nothing {τ : Type*} (cfg : DbLinkConfig) (H : CallFaults) (now : ℕ)
    {saves : List (Job τ)} {c : DbLink} (hsaves : saves ≠ [])
    (hkind : ∀ j ∈ saves, j.req.kind = .save) (htxn : c.txn = none) (hH : H.Plain cfg.procs) :
    (∃ n r, (TaskRun.step cfg H now)^[n] ⟨c, [.flushSaves saves], [], []⟩ = r ∧
      r.tasks = [] ∧ r.released = saves ∧ r.responded.map Prod.fst = saves ∧ r.conn.txn = none ∧
      ((∃ logIds : List ℕ, logIds.length = saves.length ∧
          r.conn.tables.log = c.tables.log ++ List.zipWith
            (fun j logId => ⟨logId, j.req.sessionKey, j.req.payload⟩) saves logIds ∧
          r.responded.map Prod.snd =
            List.zipWith (fun j logId => { j.failure .ok with logId }) saves logIds) ∨
        r.conn.tables = c.tables ∧ ∃ status, status ≠ .ok ∧
          r.responded.map Prod.snd = saves.map fun j => j.failure status)) ∧
      ∀ (pool : PoolConfig) (j : Job τ) (next : List (Job τ) → Loop τ) (w : Worker τ),
        w.tasks = [] → (w.handOver pool now j saves next).tasks = [] ∨
          (w.handOver pool now j saves next).loop = next [] := by
  refine ⟨?_, fun pool j next w hw => Worker.handOver_flushed pool now j saves next hw⟩
  have hasked : ∀ x ∈ saves.map (TaskRun.asked now), x.req.kind = .save := by
    intro x hx
    obtain ⟨j, hj, rfl⟩ := List.mem_map.mp hx
    exact hkind j hj
  have hne : saves.map (TaskRun.asked now) ≠ [] := by simpa using hsaves
  obtain ⟨htxn', hall⟩ := DbLink.flushSaves_allOrNothing hH htxn hne hasked
  have hleads : TaskRun.Leads cfg H now ⟨c, [.flushSaves saves], [], []⟩ _ :=
    TaskRun.flushSaves_leads hkind
  obtain ⟨n, hn⟩ := hleads
  have hlen : (c.flushSaves cfg H (saves.map (TaskRun.asked now))).1.length = saves.length := by
    rcases hall with ⟨logIds, hlen, -, heq⟩ | ⟨-, status, -, heq⟩
    · rw [heq]
      rw [DbLink.savedResponses, List.length_zipWith, hlen, Nat.min_self, List.length_map]
    · rw [heq]
      simp [DbLink.failedResponses]
  refine ⟨n, _, hn, rfl, List.nil_append _, ?_, htxn', ?_⟩
  · rw [List.nil_append]
    exact List.map_fst_zip hlen.ge
  · rw [List.nil_append, List.map_snd_zip hlen.le]
    rcases hall with ⟨logIds, hcount, hlog, heq⟩ | ⟨htables, status, hstatus, heq⟩
    · refine Or.inl ⟨logIds, by simpa using hcount, ?_, ?_⟩
      · rw [hlog, DbLink.batchRows, List.zipWith_map_left]
        rfl
      · rw [heq, DbLink.savedResponses, List.zipWith_map_left]
        rfl
    · refine Or.inr ⟨htables, status, hstatus, ?_⟩
      rw [heq, DbLink.failedResponses, List.map_map]
      rfl

/-- The second insert fails. -/
def secondInsertFails : CallFaults :=
  { CallFaults.none with
    insert := fun i site => if i = 1 ∧ site = .stmt .save .execute then .error false else .ok }

/-- Two Saves of two sessions, and the second insert fails : both requests are answered and
released, and no transaction is open. -/
theorem batch_all_or_nothing_failed : ∃ r : TaskRun Unit, r.released.length = 2 ∧
    r.responded.map Prod.fst = r.released ∧ r.conn.txn = none := by
  let saves : List (Job Unit) :=
    [⟨sampleRequest .save [1], 0, ()⟩, ⟨sampleRequest .save [2], 1, ()⟩]
  have hsaves : saves ≠ [] := by simp [saves]
  have hkind : ∀ j ∈ saves, j.req.kind = .save := by simp [saves, sampleRequest]
  have hplain : secondInsertFails.Plain false :=
    ⟨by decide, by decide, by simp, by decide, by simp⟩
  obtain ⟨⟨n, r, -, -, hrel, hresp, htxn, -⟩, -⟩ := batch_all_or_nothing ⟨false, fun _ => 0⟩
    secondInsertFails 0 (c := .opened .empty 1) hsaves hkind rfl hplain
  exact ⟨r, by simp [hrel, saves], by rw [hresp, hrel], htxn⟩

end EchoServer
