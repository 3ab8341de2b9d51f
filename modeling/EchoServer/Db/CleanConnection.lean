import EchoServer.Db.Agreement
import EchoServer.Db.CallOutcomes

/-!
# What a failed operation leaves on the connection

A connection is clean if no transaction is open on it and no `CALL` has left result sets. A
later request on a connection that is usable and not clean runs in a transaction that is not
its own, or fails with commands out of sync (`DbLink.Unclean`).

`connection_clean_iff` says for each operation from a clean connection exactly which failures
leave it unclean. The direct Save and History have none. The path through the procedures
returns before `drain_extra_results` when it cannot take over the result; `counter_direct`
returns from a COMMIT that has failed without a roll back, where `flush_saves` has one; and
nobody looks at how a ROLLBACK ends.
-/

namespace EchoServer

/-- Of taking over `rows` rows. -/
def Faults.fetchAll (F : Faults) (st : Statement) (rows : ℕ) : Fault :=
  firstFault [F.store st, firstFault ((List.range (rows + 1)).map fun i => F (.stmt st (.fetch i)))]

/-- `counter_direct` returns with its transaction open. -/
def Faults.DirectStuck (F : Faults) (claimed : Bool) : Prop :=
  F .startTransaction = .ok ∧
    match F.exec .counterClaim with
    | .ok =>
      if claimed then F .rollback = .error false ∧ (F.read = .ok ∨ F.read = .error false)
      else F.increment = .error false ∧ F .rollback = .error false ∨
        F.increment = .ok ∧ F .commit = .error false
    | f => f = .error false ∧ F .rollback = .error false

namespace DbLink

/-- No transaction is open, and no result sets wait. -/
def Clean (c : DbLink) : Prop := c.txn = none ∧ c.undrained = false

/-- Usable for the next request, and not clean. -/
def Unclean (c : DbLink) : Prop := c.usable = true ∧ ¬c.Clean

end DbLink

/-- The failures after which a call returns with the connection unclean. -/
def DbCall.Soils (cfg : DbLinkConfig) (F : Faults) (c : DbLink) : DbCall → Prop
  | .save _ _ =>
    cfg.procs = true ∧ F.exec .procSave = .ok ∧ ∃ ended, F.store .procSave = .error ended
  | .history sessionKey limit =>
    cfg.procs = true ∧ F.exec .procHistory = .ok ∧ ∃ ended,
      F.fetchAll .procHistory (c.tables.recent cfg.createdAt sessionKey limit).length =
        .error ended
  | .counter _ requestKey =>
    if cfg.procs then
      F.exec .procCounter = .ok ∧ (F.ProcStuck (c.tables.claimed requestKey) ∨
        F.procedure (c.tables.claimed requestKey) = .ok ∧
          ∃ ended, F.store .procCounter = .error ended)
    else F.DirectStuck (c.tables.claimed requestKey)

/-- The failures after the `i`-th insert of a batch that leave the connection unclean. -/
def CallFaults.BatchSoils (procs : Bool) (H : CallFaults) : ℕ → List Asked → Prop
  | _, [] => H.batch .commit = .error false ∧ H.batch .rollback = .error false
  | i, _ :: saves =>
    let F := H.insert i
    if procs then
      match F.exec .procSave, F.store .procSave, F (.stmt .procSave (.fetch 0)) with
      | .ok, .ok, .ok =>
        (∀ served, F (.stmt .procSave .drain) ≠ .lost served) ∧ BatchSoils procs H (i + 1) saves
      | .ok, .ok, f =>
        (∀ served, F (.stmt .procSave .drain) ≠ .lost served) ∧
          f = .error false ∧ H.batch .rollback = .error false
      | .ok, f, _ => ∃ ended, f = .error ended
      | f, _, _ => f = .error false ∧ H.batch .rollback = .error false
    else
      match F.exec .save with
      | .ok => BatchSoils procs H (i + 1) saves
      | f => f = .error false ∧ H.batch .rollback = .error false

/-- A call of the connection, or a batch of the worker. -/
inductive DbOperation where
  | call (request : DbCall)
  | flush (saves : { saves : List Asked // DbLink.Batchable saves })

namespace DbOperation

/-- The connection after an operation. -/
def run (cfg : DbLinkConfig) (H : CallFaults) (c : DbLink) : DbOperation → DbLink
  | .call request => (c.perform cfg H.first request).2
  | .flush saves => (c.flushSaves cfg H saves.1).2

/-- The failures after which an operation returns with the connection unclean. -/
def Soils (cfg : DbLinkConfig) (H : CallFaults) (c : DbLink) (op : DbOperation) : Prop :=
  c.usable = true ∧ c.alive = true ∧
    match op with
    | .call request => request.Soils cfg H.first c
    | .flush saves =>
      match saves.1 with
      | [] => False
      | [x] => (DbCall.save x.req.sessionKey x.req.payload).Soils cfg H.first c
      | saves => H.batch .startTransaction = .ok ∧ H.BatchSoils cfg.procs 0 saves

end DbOperation

namespace DbLink

variable {α : Type} {F : Faults} {st : Statement} {t u v : Tables} {n : ℕ} {b : Bool}
  {c c' : DbLink} {r : Returned × DbLink}

/-! ## Conditions that are clean, and that are not -/

@[simp] theorem not_unclean_opened : ¬(opened t n).Unclean := fun h => h.2 ⟨rfl, rfl⟩

@[simp] theorem not_unclean_cut : ¬(cut t n b).Unclean := fun h => h.2 ⟨rfl, rfl⟩

@[simp] theorem unclean_inTxn : (inTxn t n u).Unclean :=
  ⟨rfl, fun h => by simp [Clean, inTxn] at h⟩

/-- A broken connection is not used again. -/
theorem not_unclean_of_broken (h : c.broken = true) : ¬c.Unclean := fun hc => by
  simp [Unclean, usable, h] at hc

/-- An error that is noted does not soil the connection. -/
theorem not_unclean_note {e : Errno} (h : ¬c.Unclean) : ¬(c.note e).Unclean := by
  unfold note
  split_ifs
  · exact not_unclean_of_broken rfl
  · exact h

/-- A result set that waits does. -/
theorem unclean_pending (h : c.broken = false) : c.pending.Unclean :=
  ⟨by simp [usable, pending, h], fun hc => by simp [Clean, pending] at hc⟩

/-- An open transaction soils the connection, unless the server has ended it. -/
theorem unclean_endTxn_inTxn (ended : Bool) :
    ((inTxn t n u).endTxn ended).Unclean ↔ ended = false := by
  cases ended <;> simp

/-- After a ROLLBACK, only one that fails without losing the connection. -/
theorem unclean_rollback_inTxn :
    ((inTxn t n u).rollback F).Unclean ↔ F .rollback = .error false := by
  rw [rollback_inTxn]
  rcases F .rollback with _ | ended | served
  · simp
  · cases ended <;> simp
  · simp

theorem not_unclean_rollback_opened : ¬((opened t n).rollback F).Unclean := by
  rw [rollback_opened]
  split <;> simp

theorem unclean_rollback_endTxn (ended : Bool) :
    (((inTxn t n u).endTxn ended).rollback F).Unclean ↔
      ended = false ∧ F .rollback = .error false := by
  cases ended
  · simp [unclean_rollback_inTxn]
  · simp [not_unclean_rollback_opened]

/-- A ROLLBACK does not mark the connection as broken. -/
theorem broken_rollback : (c.rollback F).broken = c.broken := by
  unfold rollback command
  split_ifs
  · rfl
  · rfl
  · rcases F .rollback with _ | ended | served
    · rfl
    · cases ended <;> rfl
    · cases served <;> rfl

/-- With result sets waiting nothing is rolled back. -/
theorem unclean_rollback_pending (halive : c.alive = true) (hbroken : c.broken = false) :
    (c.pending.rollback F).Unclean := by
  have hsame : c.pending.rollback F = c.pending := by
    simp [rollback, command, pending, halive]
  rw [hsame]
  exact unclean_pending hbroken

/-! ## Counter -/

/-- When counting leaves the connection unclean. -/
theorem Incremented.unclean_iff {value : ℕ} (h : Incremented F t n u v value r) :
    r.2.Unclean ↔ F.increment = .error false ∧ F .rollback = .error false ∨
      F.increment = .ok ∧ F .commit = .error false := by
  cases h with
  | committed hinc hcommit => simp [hinc, hcommit]
  | unanswered served hinc hcommit => simp [hinc, hcommit]
  | uncommitted ended hinc hcommit => simp [hinc, hcommit, unclean_endTxn_inTxn]
  | rolledBack ended v hinc => simp [hinc, unclean_rollback_endTxn]
  | lost served broken hinc => simp [hinc]

/-- When a repeated request leaves the connection unclean. -/
theorem Repeated.unclean_iff {value : ℕ} (h : Repeated F t n value r) :
    r.2.Unclean ↔ F .rollback = .error false ∧ (F.read = .ok ∨ F.read = .error false) := by
  cases h with
  | answered hroll hread => simp [hread, unclean_rollback_inTxn]
  | stopped ret ended hret hroll hread =>
    rw [rollback_inTxn]
    rcases hf : F .rollback with _ | ended' | served
    · simp
    · cases ended' <;> simp [hread, unclean_endTxn_inTxn]
    · exact absurd hf (hroll served)
  | lost ret served broken hret hlost =>
    rcases hlost with h | h <;> simp [h]

variable (sessionKey requestKey : Bytes)

/-- When `counter_direct` leaves the connection unclean. -/
theorem counterDirect_unclean_iff :
    (counterDirect F sessionKey requestKey (opened t n)).2.Unclean ↔
      F.DirectStuck (t.claimed requestKey) := by
  rw [counterDirect_eq F sessionKey requestKey (.inl rfl), Faults.DirectStuck]
  rcases F .startTransaction with _ | ended | served
  · rcases F.exec .counterClaim with _ | ended | served
    · cases hdup : t.claimed requestKey with
      | true =>
        simpa using (counterDuplicate_inTxn F sessionKey (t := t) (n := n)).unclean_iff
      | false =>
        simpa using (counterIncrement_inTxn F sessionKey requestKey (t := t) (n := n)).unclean_iff
    · simp [unclean_rollback_endTxn]
    · simp
  · simp
  · simp

/-! ## The paths through the procedures -/

/-- A statement that is executed outside a transaction. -/
theorem exec_opened (st : Statement) (act : Call α) :
    (F.exec st = .ok ∧
        (∀ a y, act (opened t n) = (.ok a, y) → exec F st act (opened t n) = (.ok a, y)) ∧
        ∀ e y, act (opened t n) = (.error e, y) →
          exec F st act (opened t n) = (.error e, y.note e)) ∨
      F.exec st ≠ .ok ∧ ∃ e y, exec F st act (opened t n) = (.error e, y) ∧ ¬y.Unclean := by
  obtain h | ⟨ended, hf, heq⟩ | ⟨served, y, hf, heq, hy⟩ :=
    exec_taken F st (c := opened t n) rfl rfl act
  · exact .inl h
  · exact .inr ⟨by simp [hf], _, _, heq, by simp⟩
  · exact .inr ⟨by simp [hf], _, _, heq, not_unclean_of_broken hy⟩

theorem drain_pending : c.pending.drain F st = c.drain F st := by
  unfold drain
  cases F (.stmt st .drain) <;> rfl

theorem endTxn_pending (ended : Bool) : c.pending.endTxn ended = (c.endTxn ended).pending := by
  cases ended <;> rfl

theorem not_unclean_drain_opened : ¬((opened t n).drain F st).Unclean := by
  unfold drain
  split
  · exact not_unclean_cut
  · exact not_unclean_opened

/-- A `CALL` whose result cannot be stored leaves result sets behind. -/
theorem fetchOut_unclean_iff (st : Statement) : (fetchOut F st (opened t n).pending).2.Unclean ↔
    ∃ ended, F.store st = .error ended := by
  rw [fetchOut_pending F st rfl]
  rcases F.store st with _ | ended | served
  · rcases F (.stmt st (.fetch 0)) with _ | ended | served
    · simp [not_unclean_drain_opened]
    · simp [not_unclean_drain_opened]
    · simp
  · simp [unclean_pending (c := opened t n) rfl]
  · simp [not_unclean_of_broken (c := (cut t n true).pending) rfl]

/-- When `save_proc` leaves the connection unclean. -/
theorem saveProc_unclean_iff (payload : Bytes) :
    (saveProc F sessionKey payload (opened t n)).2.Unclean ↔
      F.exec .procSave = .ok ∧ ∃ ended, F.store .procSave = .error ended := by
  have hcall : called (insertLog sessionKey payload) (opened t n) =
      (.ok n, (opened (t.insertLog n sessionKey payload) (n + 1)).pending) := rfl
  unfold saveProc
  obtain ⟨hexec, heq, -⟩ | ⟨hexec, e, y, heq, hy⟩ := exec_opened (F := F) (t := t) (n := n) .procSave
    (called (insertLog sessionKey payload))
  · rw [heq _ _ hcall]
    have hout := fetchOut_unclean_iff (F := F) .procSave
      (t := t.insertLog n sessionKey payload) (n := n + 1)
    simp only [hexec, true_and, ← hout]
    rcases fetchOut F .procSave (opened (t.insertLog n sessionKey payload) (n + 1)).pending with
      ⟨_ | _, c⟩ <;> rfl
  · rw [heq]
    simp [hexec, hy]

/-- `save_direct` never does. -/
theorem saveDirect_not_unclean (payload : Bytes) :
    ¬(saveDirect F sessionKey payload (opened t n)).2.Unclean := by
  have hcall : insertLog sessionKey payload (opened t n) =
      (.ok n, opened (t.insertLog n sessionKey payload) (n + 1)) := rfl
  unfold saveDirect
  obtain ⟨-, heq, -⟩ | ⟨-, e, y, heq, hy⟩ := exec_opened (F := F) (t := t) (n := n) .save
    (insertLog sessionKey payload)
  · simp only [heq _ _ hcall]
    exact not_unclean_opened
  · simp only [heq]
    exact hy

/-- Fetching the rows of a result from the `i`-th on. -/
theorem fetchRows_eq (rows : List LogRow) (i : ℕ) :
    ((fetchRows F st i rows c).1.1, (fetchRows F st i rows c).2) =
      match firstFault ((List.range' i (rows.length + 1)).map fun k => F (.stmt st (.fetch k))) with
      | .ok => (true, c)
      | .error ended => (false, c.endTxn ended)
      | .lost _ => (false, c.lose.note .lost) := by
  induction rows generalizing i with
  | nil =>
    rw [fetchRows]
    cases hf : F (.stmt st (.fetch i)) <;> simp [client, hf, List.range', firstFault]
  | cons row rows ih =>
    rw [fetchRows]
    cases hf : F (.stmt st (.fetch i)) with
    | ok => simpa [client, hf, List.range'_succ, firstFault] using ih (i + 1)
    | error ended => simp [client, hf, List.range'_succ, firstFault]
    | lost served => simp [client, hf, List.range'_succ, firstFault]

/-- Taking over rows, under the faults of all of them. -/
theorem fetchHistoryRows_eq (st : Statement) (rows : List LogRow) :
    ((fetchHistoryRows F st rows c).1.1, (fetchHistoryRows F st rows c).2) =
      match F.fetchAll st rows.length with
      | .ok => (true, c)
      | .error ended => (false, c.endTxn ended)
      | .lost _ => (false, c.lose.note .lost) := by
  unfold fetchHistoryRows Faults.fetchAll
  rw [storeResult_eq]
  rcases F.store st with _ | ended | served
  · dsimp only
    rw [fetchRows_eq, List.range_eq_range']
    rcases firstFault ((List.range' 0 (rows.length + 1)).map fun k => F (.stmt st (.fetch k))) with
      _ | ended | served <;> rfl
  · rfl
  · rfl

variable (createdAt : ℕ → ℕ) (limit : ℕ)

/-- When `history_proc` leaves the connection unclean. -/
theorem historyProc_unclean_iff :
    (historyProc createdAt F sessionKey limit (opened t n)).2.Unclean ↔
      F.exec .procHistory = .ok ∧ ∃ ended,
        F.fetchAll .procHistory (t.recent createdAt sessionKey limit).length = .error ended := by
  have hcall : called (selectRecent createdAt sessionKey limit) (opened t n) =
      (.ok (t.recent createdAt sessionKey limit), (opened t n).pending) := rfl
  unfold historyProc
  obtain ⟨hexec, heq, -⟩ | ⟨hexec, e, y, heq, hy⟩ := exec_opened (F := F) (t := t) (n := n) .procHistory
    (called (selectRecent createdAt sessionKey limit))
  · rw [heq _ _ hcall]
    have hrows := fetchHistoryRows_eq (F := F) (c := (opened t n).pending) .procHistory
      (t.recent createdAt sessionKey limit)
    dsimp only
    rcases hout : fetchHistoryRows F .procHistory (t.recent createdAt sessionKey limit)
      (opened t n).pending with ⟨⟨ok, out⟩, c⟩
    rw [hout] at hrows
    rcases hf : F.fetchAll .procHistory (t.recent createdAt sessionKey limit).length with
      _ | ended | served <;> rw [hf] at hrows <;> obtain ⟨rfl, rfl⟩ := Prod.mk.inj hrows
    · simp [drain_pending, not_unclean_drain_opened]
    · simp [endTxn_pending, hexec, unclean_pending (c := opened t n) rfl]
    · simp [not_unclean_of_broken (c := (opened t n).pending.lose.note .lost) rfl]
  · rw [heq]
    simp [hexec, hy]

/-- `history_direct` never does. -/
theorem historyDirect_not_unclean :
    ¬(historyDirect createdAt F sessionKey limit (opened t n)).2.Unclean := by
  have hcall : selectRecent createdAt sessionKey limit (opened t n) =
      (.ok (t.recent createdAt sessionKey limit), opened t n) := rfl
  unfold historyDirect
  obtain ⟨-, heq, -⟩ | ⟨-, e, y, heq, hy⟩ := exec_opened (F := F) (t := t) (n := n) .history
    (selectRecent createdAt sessionKey limit)
  · have hrows := fetchHistoryRows_eq (F := F) (c := opened t n) .history
      (t.recent createdAt sessionKey limit)
    have husable : (opened t n).usable = true := rfl
    simp only [husable, heq _ _ hcall, Bool.not_true, Bool.false_eq_true, ↓reduceIte]
    rcases hout : fetchHistoryRows F .history (t.recent createdAt sessionKey limit)
      (opened t n) with ⟨⟨ok, out⟩, c⟩
    rw [hout] at hrows
    rcases hf : F.fetchAll .history (t.recent createdAt sessionKey limit).length with
      _ | ended | served <;> rw [hf] at hrows <;> obtain ⟨rfl, rfl⟩ := Prod.mk.inj hrows <;> simp
  · simp only [heq]
    exact hy

/-- When `counter_proc` leaves the connection unclean. -/
theorem counterProc_unclean_iff :
    (counterProc F sessionKey requestKey (opened t n)).2.Unclean ↔
      F.exec .procCounter = .ok ∧ (F.ProcStuck (t.claimed requestKey) ∨
        F.procedure (t.claimed requestKey) = .ok ∧ ∃ ended, F.store .procCounter = .error ended) := by
  have hended := spApplyCounter_ended F sessionKey requestKey (t := t) (n := n) (.inl rfl)
  have hnotStuck : ∀ claimed, F.procedure claimed = .ok → ¬F.ProcStuck claimed := by
    rintro claimed hproc ⟨hstart, -, hclaim | ⟨hclaim, hfail⟩⟩
    · simp [Faults.procedure, hstart, hclaim, firstFault] at hproc
    · cases claimed with
      | false =>
        have hinc : F.procIncrement = .error false := hfail
        simp [Faults.procedure, hstart, hclaim, hinc, firstFault] at hproc
      | true =>
        have hroll : F (.proc .rollback) = .error false := hfail
        simp [Faults.procedure, hstart, hclaim, hroll, firstFault] at hproc
  unfold counterProc
  obtain ⟨hexec, hok, herror⟩ | ⟨hexec, e, y, heq, hy⟩ :=
    exec_opened (F := F) (t := t) (n := n) .procCounter (called (spApplyCounter F sessionKey requestKey))
  · rcases hr : spApplyCounter F sessionKey requestKey (opened t n) with ⟨r, y⟩
    rw [hr] at hended
    cases r with
    | ok value =>
      rw [hok _ _ (show called _ _ = (.ok value, y.pending) by simp [called, hr])]
      have hout : ∀ u, (fetchOut F .procCounter (opened u n).pending).2.Unclean ↔
          ∃ ended, F.store .procCounter = .error ended := fun u => fetchOut_unclean_iff _
      obtain ⟨u, rfl, hproc⟩ : ∃ u, y = opened u n ∧ F.procedure (t.claimed requestKey) = .ok := by
        cases hended with
        | repeated hdup hproc => exact ⟨t, rfl, hdup ▸ hproc⟩
        | committed hnew hproc => exact ⟨_, rfl, hnew ▸ hproc⟩
      simp only [hexec, hproc, hnotStuck _ hproc, true_and, false_or, ← hout u]
      rcases fetchOut F .procCounter (opened u n).pending with ⟨_ | _, c⟩ <;> rfl
    | error e =>
      rw [herror _ _ (show called _ _ = (.error e, y) by simp [called, hr])]
      simp only [hexec, true_and]
      cases hended with
      | unopened _ _ hne hy =>
        have hproc : F.procedure (t.claimed requestKey) ≠ .ok := by
          cases hs : F (.proc .startTransaction) <;>
            simp [Faults.procedure, hs, firstFault] at hne ⊢
        have hnot : ¬F.ProcStuck (t.claimed requestKey) := fun h => hne h.1
        simp only [hproc, hnot, false_and, or_self, iff_false]
        rcases hy with rfl | rfl | rfl <;> exact not_unclean_note (by simp)
      | stopped _ _ hproc hnot hy =>
        simp only [hproc, hnot, false_and, or_self, iff_false]
        rcases hy with rfl | rfl <;> exact not_unclean_note (by simp)
      | unanswered hnew hproc hnot =>
        simp only [hnew, hproc, hnot, false_and, or_self, iff_false]
        exact not_unclean_note not_unclean_cut
      | stuck v hproc hstuck => simp [hproc, hstuck]
  · rw [heq]
    simp [hexec, hy]

/-! ## Batches -/

/-- The end of a batch after its inserts. -/
def finishBatch (H : CallFaults) (out : (Bool × List ℕ) × DbLink) : DbLink :=
  if out.1.1 then
    match out.2.commitBatch H.batch with
    | (true, c) => c
    | (false, c) => c.rollbackBatch H.batch
  else out.2.rollbackBatch H.batch

variable {cfg : DbLinkConfig} {H : CallFaults}

/-- A Save on a connection that is cut. -/
theorem save_cut (cfg : DbLinkConfig) (payload : Bytes) :
    ∃ b', save cfg.procs F sessionKey payload (cut t n b) = (.failed, cut t n b') := by
  unfold save
  cases b with
  | true => exact ⟨true, rfl⟩
  | false =>
    cases cfg.procs with
    | false =>
      obtain ⟨e, b', heq⟩ := exec_cut F .save (t := t) (n := n) (b := false)
        (insertLog sessionKey payload)
      exact ⟨b', by simp [usable, cut, saveDirect] at heq ⊢; simp [heq]⟩
    | true =>
      obtain ⟨e, b', heq⟩ := exec_cut F .procSave (t := t) (n := n) (b := false)
        (called (insertLog sessionKey payload))
      exact ⟨b', by simp [usable, cut, saveProc] at heq ⊢; simp [heq]⟩

/-- A batch that has lost the connection ends with a broken one. -/
theorem finishBatch_cut (saves : List Asked) (i : ℕ) :
    ¬(finishBatch H (saveAll cfg H i saves (cut t n false))).Unclean := by
  cases saves with
  | nil =>
    have hcommit : commitBatch H.batch (cut t n false) = (false, cut t n true) := rfl
    simp [finishBatch, saveAll, hcommit, rollbackBatch]
  | cons x saves =>
    obtain ⟨b', heq⟩ := save_cut (F := H.insert i) (t := t) (n := n) (b := false)
      x.req.sessionKey cfg x.req.payload
    simp [finishBatch, saveAll, heq, Returned.failed, rollbackBatch]

/-- A Save of a batch, directly. -/
theorem save_inTxn_direct (hp : cfg.procs = false) (payload : Bytes) :
    (F.exec .save = .ok ∧ ∃ ret, ret.ok = true ∧
        save cfg.procs F sessionKey payload (inTxn t n u) =
          (ret, inTxn t (n + 1) (u.insertLog n sessionKey payload))) ∨
      (∃ ended, F.exec .save = .error ended ∧
        save cfg.procs F sessionKey payload (inTxn t n u) = (.failed, (inTxn t n u).endTxn ended)) ∨
      ∃ served y, F.exec .save = .lost served ∧ y.broken = true ∧
        save cfg.procs F sessionKey payload (inTxn t n u) = (.failed, y) := by
  have hcall : insertLog sessionKey payload (inTxn t n u) =
      (.ok n, inTxn t (n + 1) (u.insertLog n sessionKey payload)) := rfl
  have husable : (inTxn t n u).usable = true := rfl
  unfold save saveDirect
  simp only [hp, husable, Bool.not_true, Bool.false_eq_true, ↓reduceIte]
  obtain ⟨hf, heq, -⟩ | ⟨ended, hf, heq⟩ | ⟨served, y, hf, heq, hy⟩ :=
    exec_taken F .save (c := inTxn t n u) rfl rfl (insertLog sessionKey payload)
  · exact .inl ⟨hf, { Returned.failed with ok := true, logId := n }, rfl, by rw [heq _ _ hcall]⟩
  · exact .inr (.inl ⟨ended, hf, by rw [heq]⟩)
  · exact .inr (.inr ⟨served, y, hf, hy, by rw [heq]⟩)

/-- A Save of a batch, through its procedure. -/
theorem save_inTxn_proc (hp : cfg.procs = true) (payload : Bytes) :
    (F.exec .procSave = .ok ∧ ∃ v, save cfg.procs F sessionKey payload (inTxn t n u) =
        match fetchOut F .procSave (inTxn t (n + 1) v).pending with
        | (.error _, c) => (.failed, c)
        | (.ok _, c) => ({ Returned.failed with ok := true, logId := n }, c)) ∨
      (∃ ended, F.exec .procSave = .error ended ∧
        save cfg.procs F sessionKey payload (inTxn t n u) = (.failed, (inTxn t n u).endTxn ended)) ∨
      ∃ served y, F.exec .procSave = .lost served ∧ y.broken = true ∧
        save cfg.procs F sessionKey payload (inTxn t n u) = (.failed, y) := by
  have hcall : called (insertLog sessionKey payload) (inTxn t n u) =
      (.ok n, (inTxn t (n + 1) (u.insertLog n sessionKey payload)).pending) := rfl
  have husable : (inTxn t n u).usable = true := rfl
  unfold save saveProc
  simp only [hp, husable, Bool.not_true, Bool.false_eq_true, ↓reduceIte]
  obtain ⟨hf, heq, -⟩ | ⟨ended, hf, heq⟩ | ⟨served, y, hf, heq, hy⟩ :=
    exec_taken F .procSave (c := inTxn t n u) rfl rfl (called (insertLog sessionKey payload))
  · exact .inl ⟨hf, u.insertLog n sessionKey payload, heq _ _ hcall ▸ rfl⟩
  · exact .inr (.inl ⟨ended, hf, by rw [heq]⟩)
  · exact .inr (.inr ⟨served, y, hf, hy, by rw [heq]⟩)

/-- The batch goes on after an insert that succeeds. -/
theorem saveAll_cons_ok {x : Asked} {saves : List Asked} {i : ℕ} {ret : Returned}
    (hok : ret.ok = true)
    (h : save cfg.procs (H.insert i) x.req.sessionKey x.req.payload c = (ret, c')) :
    finishBatch H (saveAll cfg H i (x :: saves) c) =
      finishBatch H (saveAll cfg H (i + 1) saves c') := by
  simp [finishBatch, saveAll, h, hok]

/-- And rolls back after one that fails. -/
theorem saveAll_cons_failed {x : Asked} {saves : List Asked} {i : ℕ}
    (h : save cfg.procs (H.insert i) x.req.sessionKey x.req.payload c = (.failed, c')) :
    finishBatch H (saveAll cfg H i (x :: saves) c) = c'.rollback H.batch := by
  simp [finishBatch, saveAll, h, Returned.failed, rollbackBatch]

/-- Draining between two statements of a transaction. -/
theorem drain_inTxn : (inTxn t n u).drain F st =
    match F (.stmt st .drain) with
    | .lost _ => cut t n false
    | _ => inTxn t n u := by
  unfold drain
  cases F (.stmt st .drain) <;> rfl

/-- Draining on a clean connection. -/
theorem drain_opened : (opened t n).drain F st =
    match F (.stmt st .drain) with
    | .lost _ => cut t n false
    | _ => opened t n := by
  unfold drain
  cases F (.stmt st .drain) <;> rfl

/-- `begin_batch` opens the transaction, or loses the connection, or fails. -/
theorem beginBatch_opened : (opened t n).beginBatch F =
    match F .startTransaction with
    | .ok => (true, inTxn t n t)
    | .error _ => (false, opened t n)
    | .lost _ => (false, cut t n true) := by
  have husable : (opened t n).usable = true := rfl
  unfold beginBatch
  simp only [husable, Bool.not_true, Bool.false_eq_true, ↓reduceIte]
  rcases F .startTransaction with _ | ended | served
  · rfl
  · cases ended <;> rfl
  · cases served <;> rfl

/-- `commit_batch` commits what the transaction has written, or fails. -/
theorem commitBatch_inTxn : (inTxn t n u).commitBatch F =
    match F .commit with
    | .ok => (true, opened u n)
    | .error ended => (false, (inTxn t n u).endTxn ended)
    | .lost served => (false, cut (if served then u else t) n true) := by
  have husable : (inTxn t n u).usable = true := rfl
  unfold commitBatch
  simp only [husable, Bool.not_true, Bool.false_eq_true, ↓reduceIte]
  rcases F .commit with _ | ended | served
  · rfl
  · cases ended <;> rfl
  · cases served <;> rfl

/-- A batch after a `CALL` that has inserted a row. -/
theorem finishBatch_called_iff {x : Asked} {saves : List Asked} {i : ℕ} (hp : cfg.procs = true)
    (hf : (H.insert i).exec .procSave = .ok) (v : Tables)
    (heq : save cfg.procs (H.insert i) x.req.sessionKey x.req.payload (inTxn t n u) =
      match fetchOut (H.insert i) .procSave (inTxn t (n + 1) v).pending with
      | (.error _, c) => (.failed, c)
      | (.ok _, c) => ({ Returned.failed with ok := true, logId := n }, c))
    (hrest : (finishBatch H (saveAll cfg H (i + 1) saves (inTxn t (n + 1) v))).Unclean ↔
      H.BatchSoils cfg.procs (i + 1) saves) :
    (finishBatch H (saveAll cfg H i (x :: saves) (inTxn t n u))).Unclean ↔
      match (H.insert i).exec .procSave, (H.insert i).store .procSave,
        H.insert i (.stmt .procSave (.fetch 0)) with
      | .ok, .ok, .ok => (∀ served, H.insert i (.stmt .procSave .drain) ≠ .lost served) ∧
          H.BatchSoils true (i + 1) saves
      | .ok, .ok, f => (∀ served, H.insert i (.stmt .procSave .drain) ≠ .lost served) ∧
          f = .error false ∧ H.batch .rollback = .error false
      | .ok, f, _ => ∃ ended, f = .error ended
      | f, _, _ => f = .error false ∧ H.batch .rollback = .error false := by
  rw [hp] at hrest
  rw [fetchOut_pending (H.insert i) .procSave (rfl : (inTxn t (n + 1) v).undrained = false)] at heq
  rw [hf]
  rcases hstore : (H.insert i).store .procSave with _ | ended | served <;> rw [hstore] at heq
  · rcases hfetch : H.insert i (.stmt .procSave (.fetch 0)) with _ | ended | served <;>
      rw [hfetch] at heq
    · dsimp only at heq ⊢
      rw [saveAll_cons_ok rfl heq, drain_inTxn]
      rcases H.insert i (.stmt .procSave .drain) with _ | ended | served
      · simp [hrest]
      · simp [hrest]
      · simp [finishBatch_cut]
    · dsimp only at heq ⊢
      rw [saveAll_cons_failed heq]
      cases ended
      · rw [endTxn_inTxn_false, drain_inTxn]
        rcases H.insert i (.stmt .procSave .drain) with _ | ended | served <;>
          simp [unclean_rollback_inTxn]
      · rw [endTxn_inTxn_true, drain_opened]
        rcases H.insert i (.stmt .procSave .drain) with _ | ended | served <;>
          simp [not_unclean_rollback_opened]
    · dsimp only at heq ⊢
      rw [saveAll_cons_failed heq]
      simp
  · dsimp only at heq ⊢
    rw [saveAll_cons_failed heq]
    have halive : ((inTxn t (n + 1) v).endTxn ended).alive = true := by cases ended <;> rfl
    have hbroken : ((inTxn t (n + 1) v).endTxn ended).broken = false := by cases ended <;> rfl
    simp [unclean_rollback_pending halive hbroken]
  · dsimp only at heq ⊢
    rw [saveAll_cons_failed heq]
    have hlost : ((inTxn t (n + 1) v).lose.note .lost).pending.broken = true := rfl
    simpa using not_unclean_of_broken (broken_rollback (F := H.batch).trans hlost)

/-- A batch in a transaction : which failures of its inserts, of the commit and of the roll back
leave the connection unclean. -/
theorem finishBatch_unclean_iff (saves : List Asked) (i n : ℕ) (u : Tables) :
    (finishBatch H (saveAll cfg H i saves (inTxn t n u))).Unclean ↔
      H.BatchSoils cfg.procs i saves := by
  induction saves generalizing i n u with
  | nil =>
    have hcommit := commitBatch_inTxn (F := H.batch) (t := t) (u := u) (n := n)
    simp only [CallFaults.BatchSoils, finishBatch, saveAll, ↓reduceIte, hcommit]
    rcases H.batch .commit with _ | ended | served
    · simp
    · simp [rollbackBatch, unclean_rollback_endTxn]
    · simp [rollbackBatch]
  | cons x saves ih =>
    rw [CallFaults.BatchSoils]
    cases hp : cfg.procs with
    | false =>
      obtain ⟨hf, ret, hok, heq⟩ | ⟨ended, hf, heq⟩ | ⟨served, y, hf, hy, heq⟩ :=
        save_inTxn_direct (F := H.insert i) (t := t) (u := u) (n := n) x.req.sessionKey hp
          x.req.payload
      · rw [saveAll_cons_ok hok heq, ih]
        simp [hf, hp]
      · rw [saveAll_cons_failed heq, unclean_rollback_endTxn]
        simp [hf]
      · rw [saveAll_cons_failed heq]
        simp [hf, not_unclean_of_broken (broken_rollback.trans hy)]
    | true =>
      obtain ⟨hf, v, heq⟩ | ⟨ended, hf, heq⟩ | ⟨served, y, hf, hy, heq⟩ :=
        save_inTxn_proc (F := H.insert i) (t := t) (u := u) (n := n) x.req.sessionKey hp
          x.req.payload
      · exact finishBatch_called_iff hp hf v heq (ih (i + 1) (n + 1) v)
      · rw [saveAll_cons_failed heq, unclean_rollback_endTxn]
        simp [hf]
      · rw [saveAll_cons_failed heq]
        simp [hf, not_unclean_of_broken (broken_rollback.trans hy)]

/-- When a batch of two or more leaves the connection unclean. -/
theorem flushSaves_unclean_iff (x y : Asked) (saves : List Asked) :
    (flushSaves cfg H (x :: y :: saves) (opened t n)).2.Unclean ↔
      H.batch .startTransaction = .ok ∧ H.BatchSoils cfg.procs 0 (x :: y :: saves) := by
  have hbegin := beginBatch_opened (F := H.batch) (t := t) (n := n)
  rcases hf : H.batch .startTransaction with _ | ended | served <;> rw [hf] at hbegin
  · have hfinish : (flushSaves cfg H (x :: y :: saves) (opened t n)).2 =
        finishBatch H (saveAll cfg H 0 (x :: y :: saves) (inTxn t n t)) := by
      simp only [flushSaves, batchTxn, hbegin, finishBatch]
      rcases saveAll cfg H 0 (x :: y :: saves) (inTxn t n t) with ⟨⟨_ | _, logIds⟩, c⟩
      · rfl
      · dsimp only
        rcases commitBatch H.batch c with ⟨_ | _, c'⟩ <;> rfl
    rw [hfinish, finishBatch_unclean_iff]
    simp
  · simp [flushSaves, batchTxn, hbegin, rollbackBatch, not_unclean_rollback_opened]
  · simp [flushSaves, batchTxn, hbegin, rollbackBatch]

/-! ## All operations -/

/-- A clean connection that is usable, by whether the server still has it. -/
theorem Clean.cases (hc : c.Clean) (husable : c.usable = true) :
    c.alive = true ∧ c = opened c.tables c.nextLogId ∨
      c.alive = false ∧ c = cut c.tables c.nextLogId false := by
  obtain ⟨t, n, txn, alive, broken, undrained⟩ := c
  obtain ⟨rfl, rfl⟩ : txn = none ∧ undrained = false := hc
  obtain rfl : broken = false := by simpa [usable] using husable
  cases alive
  · exact .inr ⟨rfl, rfl⟩
  · exact .inl ⟨rfl, rfl⟩

/-- When a single call leaves the connection unclean. -/
theorem perform_opened_unclean_iff (request : DbCall) :
    (perform cfg F (opened t n) request).2.Unclean ↔ request.Soils cfg F (opened t n) := by
  have husable : (opened t n).usable = true := rfl
  have htables : (opened t n).tables = t := rfl
  cases request with
  | save sessionKey payload =>
    simp only [perform, save, husable, Bool.not_true, Bool.false_eq_true, ↓reduceIte, DbCall.Soils]
    cases cfg.procs with
    | false => simpa using saveDirect_not_unclean sessionKey payload
    | true => simpa using saveProc_unclean_iff sessionKey payload
  | history sessionKey limit =>
    simp only [perform, history, husable, htables, Bool.not_true, Bool.false_eq_true, ↓reduceIte,
      DbCall.Soils]
    cases cfg.procs with
    | false => simpa using historyDirect_not_unclean sessionKey cfg.createdAt limit
    | true => simpa using historyProc_unclean_iff sessionKey cfg.createdAt limit
  | counter sessionKey requestKey =>
    simp only [perform, counter, husable, htables, Bool.not_true, Bool.false_eq_true, ↓reduceIte,
      DbCall.Soils]
    cases cfg.procs with
    | false => simpa using counterDirect_unclean_iff sessionKey requestKey
    | true => simpa using counterProc_unclean_iff sessionKey requestKey

/-- A connection that is lost already is never unclean after a call. -/
theorem perform_cut_not_unclean (request : DbCall) :
    ¬(perform cfg F (cut t n false) request).2.Unclean := by
  have husable : (cut t n false).usable = true := rfl
  cases request with
  | save sessionKey payload =>
    obtain ⟨b, heq⟩ := save_cut (F := F) (t := t) (n := n) (b := false) sessionKey cfg
      payload
    simp [perform, heq]
  | history sessionKey limit =>
    simp only [perform, history, husable, Bool.not_true, Bool.false_eq_true, ↓reduceIte]
    cases cfg.procs with
    | false =>
      obtain ⟨e, b, heq⟩ := exec_cut F .history (t := t) (n := n) (b := false)
        (selectRecent cfg.createdAt sessionKey limit)
      simp [historyDirect, husable, heq]
    | true =>
      obtain ⟨e, b, heq⟩ := exec_cut F .procHistory (t := t) (n := n) (b := false)
        (called (selectRecent cfg.createdAt sessionKey limit))
      simp [historyProc, heq]
  | counter sessionKey requestKey =>
    simp only [perform, counter, husable, Bool.not_true, Bool.false_eq_true, ↓reduceIte]
    cases cfg.procs with
    | false =>
      have hstart : runPlain (F .startTransaction) startTransaction (cut t n false) =
          (.error .lost, cut t n true) := rfl
      simp [counterDirect, husable, hstart]
    | true =>
      obtain ⟨e, b, heq⟩ := exec_cut F .procCounter (t := t) (n := n) (b := false)
        (called (spApplyCounter F sessionKey requestKey))
      simp [counterProc, heq]

/-- A connection that is not usable is not touched. -/
theorem perform_unusable (h : c.usable = false) (request : DbCall) :
    (perform cfg F c request).2 = c := by
  cases request <;> simp [perform, save, history, counter, h]

/-- A Save is not tried again. -/
theorem handle_save_link {x : Asked} (hx : x.req.kind = .save ∧ x.late = false) :
    (handle cfg H x c).2 = (perform cfg H.first c (.save x.req.sessionKey x.req.payload)).2 := by
  unfold handle
  rcases husable : c.usable
  · simp [hx.2, husable, perform, save]
  · simp only [hx.1, hx.2, runOnce, perform, isRetrySafe, Bool.and_false,
      Bool.false_eq_true, ↓reduceIte, Bool.not_true]
    split_ifs <;> rfl

end DbLink

/-- On a clean connection, an operation leaves it unclean after exactly the failures of `Soils`. -/
theorem DbOperation.unclean_iff (cfg : DbLinkConfig) (H : CallFaults) (op : DbOperation) {c : DbLink}
    (hc : c.Clean) : (op.run cfg H c).Unclean ↔ op.Soils cfg H c := by
  have hcall : ∀ request, (c.perform cfg H.first request).2.Unclean ↔
      c.usable = true ∧ c.alive = true ∧ request.Soils cfg H.first c := by
    intro request
    cases husable : c.usable with
    | false => simp [DbLink.perform_unusable husable, DbLink.Unclean, husable]
    | true =>
      obtain ⟨halive, hshape⟩ | ⟨halive, hshape⟩ := hc.cases husable
      · rw [hshape, DbLink.perform_opened_unclean_iff]
        simp [DbLink.opened]
      · have hnot : ¬(c.perform cfg H.first request).2.Unclean := by
          rw [hshape]
          exact DbLink.perform_cut_not_unclean request
        simp [hnot, halive]
  cases op with
  | call request => exact hcall request
  | flush saves =>
    obtain ⟨saves, hsaves⟩ := saves
    rcases saves with _ | ⟨x, _ | ⟨y, saves⟩⟩
    · have hsame : (c.flushSaves cfg H []).2 = c := rfl
      simp only [run, Soils, hsame, and_false, iff_false]
      exact fun h => h.2 hc
    · have hlink : (c.flushSaves cfg H [x]).2 = (c.handle cfg H x).2 := rfl
      simp only [run, Soils, hlink, DbLink.handle_save_link (hsaves x List.mem_cons_self), hcall]
    · simp only [run, Soils]
      cases husable : c.usable with
      | false =>
        have hbegin : c.beginBatch H.batch = (false, c) := by simp [DbLink.beginBatch, husable]
        have hbroken : c.broken = true := by simpa [DbLink.usable] using husable
        simp [DbLink.flushSaves, DbLink.batchTxn, hbegin, DbLink.rollbackBatch,
          DbLink.not_unclean_of_broken (DbLink.broken_rollback.trans hbroken)]
      | true =>
        obtain ⟨halive, hshape⟩ | ⟨halive, hshape⟩ := hc.cases husable
        · rw [hshape, DbLink.flushSaves_unclean_iff]
          simp [DbLink.opened]
        · have hbegin : DbLink.beginBatch H.batch (.cut c.tables c.nextLogId false) =
              (false, .cut c.tables c.nextLogId true) := rfl
          have hnot : ¬(c.flushSaves cfg H (x :: y :: saves)).2.Unclean := by
            rw [hshape]
            simp [DbLink.flushSaves, DbLink.batchTxn, hbegin, DbLink.rollbackBatch]
          simp [hnot, halive]

/-- From a clean connection, an operation leaves one that is not usable or clean, exactly if
none of the failures of `Soils` happens. -/
theorem connection_clean_iff (cfg : DbLinkConfig) (H : CallFaults) (op : DbOperation) {c : DbLink}
    (hc : c.Clean) :
    ((op.run cfg H c).usable = true → (op.run cfg H c).Clean) ↔ ¬op.Soils cfg H c := by
  rw [← op.unclean_iff cfg H hc, DbLink.Unclean, not_and, not_not]

/-- A batch of two Saves, the second of which fails, on a connection that has just been opened. -/
theorem connection_clean_iff_batch :
    let H := { CallFaults.none with
      insert := fun i => if i = 1 then fun _ => .error false else .none }
    let save : Asked := ⟨⟨.save, 7, [1], [2], [], 0, 0⟩, false⟩
    let op := DbOperation.flush ⟨[save, save], by
      intro x hx
      simp only [List.mem_cons, List.not_mem_nil, or_false, or_self] at hx
      subst hx
      exact ⟨rfl, rfl⟩⟩
    (op.run ⟨false, fun _ => 0⟩ H (.opened .empty 1)).usable = true ∧
      (op.run ⟨false, fun _ => 0⟩ H (.opened .empty 1)).Clean := by
  intro H save op
  refine ⟨by decide, ?_⟩
  refine (connection_clean_iff ⟨false, fun _ => 0⟩ H op ⟨rfl, rfl⟩).mpr ?_ (by decide)
  simp [op, DbOperation.Soils, CallFaults.BatchSoils, H, CallFaults.none, Faults.exec, firstFault]

/-- The COMMIT of a Counter fails and its transaction stays open; or the result of a Save through
its procedure cannot be taken over, and result sets stay behind. -/
theorem connection_left_unclean : ∃ H : CallFaults,
    (let c := (DbOperation.call (.counter [1] [9])).run ⟨false, fun _ => 0⟩ H (.opened .empty 1)
    c.usable = true ∧ ¬c.txn = none) ∧
      (let c := (DbOperation.call (.save [1] [2])).run ⟨true, fun _ => 0⟩ H (.opened .empty 1)
      c.usable = true ∧ ¬c.undrained = false) :=
  ⟨{ CallFaults.none with
      first := fun site =>
        if site = .commit ∨ site = .stmt .procSave .storeResult then .error false else .ok },
    by decide⟩

end EchoServer
