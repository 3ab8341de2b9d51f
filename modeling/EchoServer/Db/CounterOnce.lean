import EchoServer.Db.Agreement
import EchoServer.Db.CallOutcomes
import EchoServer.Lib.Machine

/-!
# A counter is applied once

`counter` over any failures, with the one retry of `handle`, and over any sequence of
requests.

One call of `counter` has one of two outcomes (`Counted`) : the tables are as before, and a
result is given only if the request key had been applied; or the request key is applied, which
had not been. What carries over from one call to the next is that nothing waits for a commit
(`DbLink.Settled`).

`counter_direct` and `sp_apply_counter` do not look at how their ROLLBACK ends, and
`counter_direct` does not roll back when its COMMIT fails. Then the claim of the request key
can stay in a transaction that is still open (`Faults.LeavesClaim`), with the increment or
without it, and the next START TRANSACTION commits it (`counter_not_once`). In runs in which
that does not happen, `counter_once` holds.
-/

namespace EchoServer

/-- The claim of the request key, just made, is left in a transaction that stays open. -/
def Faults.LeavesClaim (procs : Bool) (F : Faults) : Prop :=
  if procs then
    F.exec .procCounter = .ok ∧ F (.proc .startTransaction) = .ok ∧ F (.proc .claim) = .ok ∧
      F.procIncrement = .error false ∧ F (.proc .handlerRollback) = .error false
  else
    F .startTransaction = .ok ∧ F.exec .counterClaim = .ok ∧
      (F.increment = .error false ∧ F .rollback = .error false ∨
        F.increment = .ok ∧ F .commit = .error false)

namespace DbLink

/-- What is committed is `t`, and nothing else waits for a commit. -/
def Settled (t : Tables) (c : DbLink) : Prop := c.tables = t ∧ (c.txn = none ∨ c.txn = some t)

/-- What one call of `counter` does : nothing, or what it is for. -/
inductive Counted (t : Tables) (sessionKey requestKey : Bytes) : Returned × DbLink → Prop
  | same (ret : Returned) (c : DbLink) : c.Settled t →
      (ret.ok = true → t.claimed requestKey = true ∧ ret.alreadyApplied = true) →
      Counted t sessionKey requestKey (ret, c)
  | applied (ret : Returned) (c : DbLink) : t.claimed requestKey = false →
      c.Settled (t.apply sessionKey requestKey) →
      (ret.ok = true → ret.alreadyApplied = false) → Counted t sessionKey requestKey (ret, c)

variable {α : Type} {F : Faults} {t u v : Tables} {n : ℕ} {b : Bool} {c : DbLink} {st : Statement}

/-! ## Nothing waits for a commit -/

theorem settled_opened : (opened t n).Settled t := ⟨rfl, .inl rfl⟩

theorem settled_inTxn : (inTxn t n t).Settled t := ⟨rfl, .inr rfl⟩

theorem settled_cut : (cut t n b).Settled t := ⟨rfl, .inl rfl⟩

/-- A transaction that has written nothing may end in any way. -/
theorem Settled.endTxn (h : c.Settled t) (ended : Bool) : (c.endTxn ended).Settled t := by
  cases ended
  · exact h
  · exact ⟨h.1, .inl rfl⟩

/-- Or be lost. -/
theorem Settled.lose (h : c.Settled t) : c.lose.Settled t := ⟨h.1, .inl rfl⟩

/-- Result sets that wait do not change what is committed. -/
theorem Settled.pending (h : c.Settled t) : c.pending.Settled t := h

/-- Nor does an error that is noted. -/
theorem Settled.note (h : c.Settled t) (e : Errno) : (c.note e).Settled t := by
  unfold DbLink.note
  split_ifs <;> exact h

/-- Nor does draining them. -/
theorem Settled.drain (h : c.Settled t) : (c.drain F st).Settled t := by
  unfold DbLink.drain
  split
  · exact h.lose
  · exact h

/-- A ROLLBACK settles what the transaction has written, unless it fails on the server. -/
theorem settled_rollback_inTxn (h : F .rollback = .error false → v = t) :
    ((inTxn t n v).rollback F).Settled t := by
  rw [rollback_inTxn]
  split
  · exact settled_cut
  · rename_i hroll
    obtain rfl := h hroll
    exact settled_inTxn
  · exact settled_opened

theorem settled_rollback_opened : ((opened t n).rollback F).Settled t := by
  rw [rollback_opened]
  split
  · exact settled_cut
  · exact settled_opened

/-- Nor does reading a result. -/
theorem settled_fetchOut (st : Statement) (h : c.Settled t) (hdrained : c.undrained = false) :
    ∃ r c', fetchOut F st c.pending = (r, c') ∧ c'.Settled t := by
  rw [fetchOut_pending F st hdrained]
  cases F.store st with
  | error ended => exact ⟨_, _, rfl, (h.endTxn ended).pending⟩
  | lost served => exact ⟨_, _, rfl, (h.lose.note _).pending⟩
  | ok =>
    cases F (.stmt st (.fetch 0)) with
    | ok => exact ⟨_, _, rfl, h.drain⟩
    | error ended => exact ⟨_, _, rfl, (h.endTxn ended).drain⟩
    | lost served => exact ⟨_, _, rfl, h.lose⟩

/-- A connection that is usable, and on which commands are taken. -/
theorem Settled.opened_or (h : c.Settled t) (hbroken : c.broken = false) (halive : c.alive = true)
    (hdrained : c.undrained = false) :
    c = opened t c.nextLogId ∨ c = inTxn t c.nextLogId t := by
  obtain ⟨t', n, txn, alive, broken, undrained⟩ := c
  obtain ⟨rfl, htxn⟩ : t' = t ∧ (txn = none ∨ txn = some t) := h
  obtain rfl : broken = false := hbroken
  obtain rfl : alive = true := halive
  obtain rfl : undrained = false := hdrained
  rcases htxn with rfl | rfl
  · exact .inl rfl
  · exact .inr rfl

/-- A statement that the connection does not take. -/
theorem exec_refused (h : c.Settled t) (hrefused : c.alive = false ∨ c.undrained = true)
    (st : Statement) (act : Call α) : ∃ e c', exec F st act c = (.error e, c') ∧ c'.Settled t := by
  unfold exec
  cases F (.stmt st .bind) with
  | error ended => exact ⟨.other, _, rfl, (h.endTxn ended).note _⟩
  | lost served => exact ⟨.lost, _, rfl, h.lose.note _⟩
  | ok =>
    cases halive : c.alive with
    | false => exact ⟨.lost, c.note .lost, by simp [client, command, halive], h.note _⟩
    | true =>
      have hpending : c.undrained = true := hrefused.resolve_left (by simp [halive])
      exact ⟨.other, c.note .other, by simp [client, command, halive, hpending], h.note _⟩

/-! ## One call -/

variable {sessionKey requestKey : Bytes}

theorem Counted.congr {ret : Returned} {c' : DbLink} (h : Counted t sessionKey requestKey (ret, c))
    (htables : c'.tables = c.tables) (htxn : c'.txn = c.txn) :
    Counted t sessionKey requestKey (ret, c') := by
  cases h with
  | same _ _ hsettled hret => exact .same _ _ (by rwa [Settled, htables, htxn]) hret
  | applied _ _ hnew hsettled hret =>
    exact .applied _ _ hnew (by rwa [Settled, htables, htxn]) hret

/-- A call that fails and leaves nothing behind has counted nothing. -/
theorem counted_failed (h : c.Settled t) : Counted t sessionKey requestKey (.failed, c) :=
  .same _ _ h fun hok => by simp [Returned.failed] at hok

/-- Counting a new key counts it once, unless its claim stays in an open transaction. -/
theorem Incremented.counted {r : Returned × DbLink} {value : ℕ} (hnew : t.claimed requestKey = false)
    (hstart : F .startTransaction = .ok) (hclaim : F.exec .counterClaim = .ok)
    (hkeep : ¬F.LeavesClaim false)
    (h : Incremented F t n u (t.apply sessionKey requestKey) value r) :
    Counted t sessionKey requestKey r := by
  simp only [Faults.LeavesClaim, Bool.false_eq_true, ↓reduceIte, hstart, hclaim, true_and,
    not_or, not_and] at hkeep
  cases h with
  | committed => exact .applied _ _ hnew settled_opened fun _ => rfl
  | unanswered served =>
    cases served
    · exact counted_failed settled_cut
    · exact .applied _ _ hnew settled_cut fun hok => by simp [Returned.failed] at hok
  | uncommitted ended hinc hcommit =>
    cases ended
    · exact absurd hcommit (hkeep.2 hinc)
    · exact counted_failed settled_opened
  | rolledBack ended v hinc =>
    cases ended
    · exact counted_failed (settled_rollback_inTxn fun hroll => absurd hroll (hkeep.1 hinc))
    · exact counted_failed settled_rollback_opened
  | lost => exact counted_failed settled_cut

/-- A repeated key is not counted again. -/
theorem Repeated.counted {r : Returned × DbLink} {value : ℕ} (hdup : t.claimed requestKey = true)
    (h : Repeated F t n value r) : Counted t sessionKey requestKey r := by
  cases h with
  | answered => exact .same _ _ (settled_rollback_inTxn fun _ => rfl) fun _ => ⟨hdup, rfl⟩
  | stopped ret ended hret =>
    exact .same _ _ ((settled_rollback_inTxn fun _ => rfl).endTxn ended) fun _ => ⟨hdup, hret⟩
  | lost ret served broken hret => exact .same _ _ settled_cut fun _ => ⟨hdup, hret⟩

/-- `counter_direct` counts a request once, or leaves everything as it was. -/
theorem counterDirect_counted (hc : c = opened t n ∨ c = inTxn t n t)
    (hkeep : t.claimed requestKey = false → ¬F.LeavesClaim false) :
    Counted t sessionKey requestKey (counterDirect F sessionKey requestKey c) := by
  have hsettled : c.Settled t := by
    rcases hc with rfl | rfl
    · exact settled_opened
    · exact settled_inTxn
  rw [counterDirect_eq F sessionKey requestKey hc]
  cases hstart : F .startTransaction with
  | error ended => exact counted_failed (hsettled.endTxn ended)
  | lost served => exact counted_failed settled_cut
  | ok =>
    cases hclaim : F.exec .counterClaim with
    | error ended =>
      cases ended
      · exact counted_failed (settled_rollback_inTxn fun _ => rfl)
      · exact counted_failed settled_rollback_opened
    | lost served => exact counted_failed settled_cut
    | ok =>
      cases hdup : t.claimed requestKey with
      | true => exact (counterDuplicate_inTxn F sessionKey).counted hdup
      | false =>
        exact (counterIncrement_inTxn F sessionKey requestKey).counted hdup hstart hclaim
          (hkeep hdup)

/-- What `sp_apply_counter` leaves when it fails. -/
theorem ProcEnded.error_counted {e : Errno} {y : DbLink} (hsettled : c.Settled t)
    (hexec : F.exec .procCounter = .ok)
    (hkeep : t.claimed requestKey = false → ¬F.LeavesClaim true)
    (h : ProcEnded F c t n sessionKey requestKey (.error e, y)) :
    Counted t sessionKey requestKey (.failed, y.note e) := by
  cases h with
  | unopened _ _ hne hy =>
    rcases hy with rfl | rfl | rfl
    · exact counted_failed (hsettled.note _)
    · exact counted_failed (settled_opened.note _)
    · exact counted_failed (settled_cut.note _)
  | stopped _ _ hfail hnot hy =>
    rcases hy with rfl | rfl
    · exact counted_failed (settled_opened.note _)
    · exact counted_failed (settled_cut.note _)
  | unanswered hnew =>
    exact .applied _ _ hnew (settled_cut.note _) fun hok => by simp [Returned.failed] at hok
  | stuck v hfail hstuck hv =>
    suffices v = t by
      subst this
      exact counted_failed (settled_inTxn.note _)
    obtain ⟨hstart, hhandler, hclaim | ⟨hclaim, hinc⟩⟩ := hstuck
    · exact hv (.inr (by simp [hclaim]))
    · cases hdup : t.claimed requestKey with
      | true => exact hv (.inl hdup)
      | false =>
        refine absurd ?_ (hkeep hdup)
        simpa [Faults.LeavesClaim, hexec, hstart, hclaim, hhandler, hdup] using hinc

/-- What the tables are once `sp_apply_counter` has run, whatever it answers. -/
theorem ProcEnded.lose_counted {r : Except Errno (ℕ × Bool)} {y : DbLink} (hsettled : c.Settled t)
    (h : ProcEnded F c t n sessionKey requestKey (r, y)) :
    Counted t sessionKey requestKey (.failed, y.lose.note .lost) := by
  have hfailed : Returned.failed.ok = true → Returned.failed.alreadyApplied = false := fun _ => rfl
  cases h with
  | repeated => exact counted_failed (settled_opened.lose.note _)
  | committed hnew => exact .applied _ _ hnew (settled_opened.lose.note _) hfailed
  | unopened e y hne hy =>
    rcases hy with rfl | rfl | rfl
    · exact counted_failed (hsettled.lose.note _)
    · exact counted_failed (settled_opened.lose.note _)
    · exact counted_failed (settled_cut.lose.note _)
  | stopped e y hfail hnot hy =>
    rcases hy with rfl | rfl
    · exact counted_failed (settled_opened.lose.note _)
    · exact counted_failed (settled_cut.lose.note _)
  | unanswered hnew => exact .applied _ _ hnew (settled_cut.lose.note _) hfailed
  | stuck v => exact counted_failed (Settled.note ⟨rfl, .inl rfl⟩ _)

/-- Taking over what `sp_apply_counter` answers. -/
theorem ProcEnded.ok_counted {value : ℕ × Bool} {y : DbLink}
    (h : ProcEnded F c t n sessionKey requestKey (.ok value, y)) :
    Counted t sessionKey requestKey
      (match fetchOut F .procCounter y.pending with
      | (.error _, c) => (.failed, c)
      | (.ok _, c) =>
        ({ Returned.failed with ok := true, hitCount := value.1, alreadyApplied := value.2 }, c)) := by
  cases h with
  | repeated hdup =>
    obtain ⟨r, c', hout, hc'⟩ := settled_fetchOut (F := F) .procCounter
      (settled_opened (t := t) (n := n)) rfl
    rw [hout]
    cases r with
    | error e => exact counted_failed hc'
    | ok => exact .same _ _ hc' fun _ => ⟨hdup, rfl⟩
  | committed hnew =>
    obtain ⟨r, c', hout, hc'⟩ := settled_fetchOut (F := F) .procCounter
      (settled_opened (t := t.apply sessionKey requestKey) (n := n)) rfl
    rw [hout]
    cases r with
    | error e => exact .applied _ _ hnew hc' fun _ => rfl
    | ok => exact .applied _ _ hnew hc' fun _ => rfl

/-- So does `counter_proc`. -/
theorem counterProc_counted (hc : c = opened t n ∨ c = inTxn t n t)
    (hkeep : t.claimed requestKey = false → ¬F.LeavesClaim true) :
    Counted t sessionKey requestKey (counterProc F sessionKey requestKey c) := by
  have hsettled : c.Settled t := by
    rcases hc with rfl | rfl
    · exact settled_opened
    · exact settled_inTxn
  have halive : c.alive = true := by rcases hc with rfl | rfl <;> rfl
  have hdrained : c.undrained = false := by rcases hc with rfl | rfl <;> rfl
  have hended := spApplyCounter_ended F sessionKey requestKey hc
  unfold counterProc exec
  cases hbind : F (.stmt .procCounter .bind) with
  | error ended => exact counted_failed ((hsettled.endTxn ended).note _)
  | lost served => exact counted_failed (hsettled.lose.note _)
  | ok =>
    cases hexec : F (.stmt .procCounter .execute) with
    | error ended =>
      have hcommand : command (.error ended) (called (spApplyCounter F sessionKey requestKey)) c =
          (.error .other, c.endTxn ended) := by simp [command, halive, hdrained]
      simp only [client, hcommand]
      exact counted_failed ((hsettled.endTxn ended).note _)
    | lost served =>
      have hcommand : command (.lost served) (called (spApplyCounter F sessionKey requestKey)) c =
          (.error .lost,
            (if served then (called (spApplyCounter F sessionKey requestKey) c).2 else c).lose) := by
        simp [command, halive, hdrained]
      simp only [client, hcommand]
      cases served with
      | false => exact counted_failed (hsettled.lose.note _)
      | true =>
        rcases hr : spApplyCounter F sessionKey requestKey c with ⟨r, y⟩
        rw [hr] at hended
        have hcounted := hended.lose_counted hsettled
        simp only [called, hr, ↓reduceIte]
        cases r with
        | error e => exact hcounted
        | ok value => exact hcounted.congr rfl rfl
    | ok =>
      have hcall : F.exec .procCounter = .ok := by simp [Faults.exec, hbind, hexec, firstFault]
      simp only [client, command_ok halive hdrained]
      rcases hr : spApplyCounter F sessionKey requestKey c with ⟨r, y⟩
      rw [hr] at hended
      simp only [called, hr]
      cases r with
      | error e => exact hended.error_counted hsettled hcall hkeep
      | ok value => exact hended.ok_counted

/-- One call of `counter`, on a connection on which nothing waits for a commit. -/
theorem counter_counted (sessionKey requestKey : Bytes) (procs : Bool) (hc : c.Settled t)
    (hkeep : t.claimed requestKey = false → ¬F.LeavesClaim procs) :
    Counted t sessionKey requestKey (counter procs F sessionKey requestKey c) := by
  unfold counter
  cases hbroken : c.broken with
  | true => simpa [usable, hbroken] using counted_failed hc
  | false =>
    have husable : c.usable = true := by simp [usable, hbroken]
    simp only [husable, Bool.not_true, Bool.false_eq_true, ↓reduceIte]
    by_cases htaken : c.alive = true ∧ c.undrained = false
    · have hshape := hc.opened_or hbroken htaken.1 htaken.2
      cases procs
      · exact counterDirect_counted hshape hkeep
      · exact counterProc_counted hshape hkeep
    · have hrefused : c.alive = false ∨ c.undrained = true := by
        cases halive : c.alive <;> cases hpending : c.undrained <;> simp_all
      cases procs
      · have hstart : ∃ e c', runPlain (F .startTransaction) startTransaction c =
            (.error e, c') ∧ c'.Settled t := by
          cases halive : c.alive with
          | false => exact ⟨.lost, _, by simp [runPlain, command, halive], hc.note .lost⟩
          | true =>
            have hpending := hrefused.resolve_left (by simp [halive])
            exact ⟨.other, _, by simp [runPlain, command, halive, hpending], hc.note .other⟩
        obtain ⟨e, c', hrun, hc'⟩ := hstart
        simp only [Bool.false_eq_true, ↓reduceIte, counterDirect, husable, Bool.not_true, hrun]
        exact counted_failed hc'
      · obtain ⟨e, c', hexec, hc'⟩ := exec_refused (F := F) hc hrefused .procCounter
          (called (spApplyCounter F sessionKey requestKey))
        simp only [↓reduceIte, counterProc, hexec]
        exact counted_failed hc'

/-- On a connection that works, a request key that has been applied is answered as such. -/
theorem counter_replayed (sessionKey : Bytes) (procs : Bool) (hc : c = opened t n ∨ c = inTxn t n t)
    (hdup : t.claimed requestKey = true) :
    (counter procs .none sessionKey requestKey c).1.ok = true ∧
      (counter procs .none sessionKey requestKey c).1.alreadyApplied = true := by
  have husable : c.usable = true := by rcases hc with rfl | rfl <;> rfl
  unfold counter
  simp only [husable, Bool.not_true, Bool.false_eq_true, ↓reduceIte]
  cases procs with
  | false =>
    have heq : counterDirect .none sessionKey requestKey c =
        counterDuplicate .none sessionKey (inTxn t n t) := by
      rw [counterDirect_eq .none sessionKey requestKey hc]
      simp [Faults.exec, firstFault, hdup]
    simp only [Bool.false_eq_true, ↓reduceIte, heq]
    have hrepeated := counterDuplicate_inTxn Faults.none sessionKey (t := t) (n := n)
    generalize counterDuplicate Faults.none sessionKey (inTxn t n t) = r at hrepeated
    cases hrepeated with
    | answered => exact ⟨rfl, rfl⟩
    | stopped ret ended _ _ hread => simp [Faults.read, Faults.exec, Faults.store, firstFault] at hread
    | lost ret served broken _ hlost =>
      simp [Faults.read, Faults.exec, Faults.store, firstFault] at hlost
  | true =>
    have halive : c.alive = true := by rcases hc with rfl | rfl <;> rfl
    have hdrained : c.undrained = false := by rcases hc with rfl | rfl <;> rfl
    have hended := spApplyCounter_ended Faults.none sessionKey requestKey hc
    rcases hr : spApplyCounter Faults.none sessionKey requestKey c with ⟨r, y⟩
    rw [hr] at hended
    have hok : Faults.none.procedure true = .ok := by simp [Faults.procedure, firstFault]
    cases hended with
    | repeated =>
      have hcall : called (spApplyCounter .none sessionKey requestKey) c =
          (.ok ((t.hitCount sessionKey).getD 0, true), (opened t n).pending) := by
        simp [called, hr]
      simp [counterProc, exec_none_ok halive hdrained .procCounter hcall]
    | committed hnew => simp [hdup] at hnew
    | unopened _ _ hne => simp at hne
    | stopped _ _ hfail => simp [hdup, hok] at hfail
    | unanswered hnew => simp [hdup] at hnew
    | stuck v hfail => simp [hdup, hok] at hfail

/-! ## One request -/

/-- What `handle` does for a Counter : nothing, or what it is for. -/
inductive Handled (t : Tables) (req : Request) : Response × DbLink → Prop
  | same (res : Response) (c : DbLink) : c.Settled t →
      (res.status = .ok → t.claimed req.requestKey = true) → Handled t req (res, c)
  | applied (res : Response) (c : DbLink) : t.claimed req.requestKey = false →
      c.Settled (t.apply req.sessionKey req.requestKey) → Handled t req (res, c)

variable {cfg : DbLinkConfig} {H : CallFaults} {x : Asked}

/-- A new connection finds what is committed. -/
theorem Settled.reopen (h : c.Settled t) (connected : Bool) : (c.reopen connected).2.Settled t := by
  cases connected
  · exact ⟨h.1, .inl rfl⟩
  · exact ⟨h.1, .inl rfl⟩

/-- So does one that is made before a request. -/
theorem Settled.ensureUsable (h : c.Settled t) (connected : Bool) :
    (c.ensureUsable connected).2.Settled t := by
  unfold DbLink.ensureUsable
  split_ifs
  · exact h
  · exact h.reopen connected

/-- And one that is made after a ping that failed. -/
theorem Settled.ping (h : c.Settled t) (f : Fault) : (c.ping f).2.Settled t := by
  unfold DbLink.ping command
  cases c.broken with
  | true => exact h
  | false =>
    cases c.alive with
    | false => exact h
    | true =>
      cases c.undrained with
      | true => exact h
      | false =>
        cases f with
        | ok => exact h
        | error ended => exact h.endTxn ended
        | lost served => cases served <;> exact h.lose

/-- The second try, after a first one that has left the tables as `t'`. -/
theorem Counted.second {ret : Returned} (hkind : x.req.kind = .counter)
    (h : Counted t x.req.sessionKey x.req.requestKey (ret, c)) {F' : Faults} {c' : DbLink}
    (hc' : ∀ t', c.Settled t' → c'.Settled t')
    (hkeep : t.claimed x.req.requestKey = false → ¬F'.LeavesClaim cfg.procs) :
    Handled t x.req
      (let (ret, c) := runOnce cfg F' x.req c'
      if ret.ok then (x.req.response .ok ret, c) else giveUp x.req ret c) := by
  have hstatus : ∀ usable, failedStatus usable ≠ .ok := by decide
  have hrun : runOnce cfg F' x.req c' = counter cfg.procs F' x.req.sessionKey x.req.requestKey c' := by
    simp [runOnce, hkind]
  rw [hrun]
  cases h with
  | same _ _ hsettled =>
    have hnext := counter_counted x.req.sessionKey _ cfg.procs (hc' t hsettled) hkeep
    generalize counter cfg.procs F' x.req.sessionKey x.req.requestKey c' = r at hnext
    cases hnext with
    | same ret' c'' hsettled' hret' =>
      cases hok : ret'.ok with
      | true => simpa [hok] using Handled.same _ _ hsettled' fun _ => (hret' hok).1
      | false =>
        simpa [hok, giveUp] using Handled.same _ _ hsettled' fun hres => absurd hres (hstatus _)
    | applied ret' c'' hnew hsettled' =>
      cases hok : ret'.ok with
      | true => simpa [hok] using Handled.applied _ _ hnew hsettled'
      | false => simpa [hok, giveUp] using Handled.applied _ _ hnew hsettled'
  | applied _ _ hnew hsettled =>
    have hnext := counter_counted (F := F') x.req.sessionKey x.req.requestKey cfg.procs
       (hc' _ hsettled) (by simp)
    generalize counter cfg.procs F' x.req.sessionKey x.req.requestKey c' = r at hnext
    cases hnext with
    | same ret' c'' hsettled' =>
      cases hok : ret'.ok with
      | true => simpa [hok] using Handled.applied _ _ hnew hsettled'
      | false => simpa [hok, giveUp] using Handled.applied _ _ hnew hsettled'
    | applied ret' c'' hnew' => simp at hnew'

/-- The status of the answer follows what the call has counted. -/
theorem Counted.handled {ret : Returned} {status : Status} {c' : DbLink}
    (h : Counted t x.req.sessionKey x.req.requestKey (ret, c))
    (hc' : ∀ t', c.Settled t' → c'.Settled t') (hstatus : status = .ok → ret.ok = true) :
    Handled t x.req (x.req.response status ret, c') := by
  cases h with
  | same _ _ hsettled hret => exact .same _ _ (hc' t hsettled) fun hres => (hret (hstatus hres)).1
  | applied _ _ hnew hsettled => exact .applied _ _ hnew (hc' _ hsettled)

/-- A request is counted once over its two tries, or not at all. -/
theorem handle_handled (cfg : DbLinkConfig) (hkind : x.req.kind = .counter) (hc : c.Settled t)
    (hkeep : x.late = false → c.usable = true → t.claimed x.req.requestKey = false →
      ¬H.first.LeavesClaim cfg.procs ∧ ¬H.second.LeavesClaim cfg.procs) :
    Handled t x.req (handle cfg H x c) := by
  have hgone : ∀ usable, failedStatus usable ≠ .ok := by decide
  unfold handle
  cases hlate : x.late with
  | true => exact .same _ _ hc fun hres => by simp [Request.response] at hres
  | false =>
    cases husable : c.usable with
    | false => exact .same _ _ hc fun hres => by simp [Request.response] at hres
    | true =>
      have hfirst := counter_counted (F := H.first) x.req.sessionKey x.req.requestKey
        cfg.procs hc fun hnew => (hkeep hlate husable hnew).1
      have hrun : runOnce cfg H.first x.req c =
          counter cfg.procs H.first x.req.sessionKey x.req.requestKey c := by
        simp [runOnce, hkind]
      rcases hr : counter cfg.procs H.first x.req.sessionKey x.req.requestKey c with ⟨ret, c1⟩
      rw [hr] at hfirst
      simp only [Bool.false_eq_true, ↓reduceIte, Bool.not_true, hrun, hr]
      cases hok : ret.ok with
      | true => exact hfirst.handled (fun _ h => h) fun _ => hok
      | false =>
        simp only [Bool.false_eq_true, ↓reduceIte]
        split_ifs
        · have hopen := fun t' (h : c1.Settled t') => h.ensureUsable H.connected
          rcases hens : ensureUsable H.connected c1 with ⟨_ | _, c2⟩ <;>
            simp only [hens] at hopen
          · exact hfirst.handled hopen fun h => absurd h (hgone _)
          · exact hfirst.second hkind hopen fun hnew => (hkeep hlate husable hnew).2
        · exact hfirst.handled (fun _ h => h) fun h => absurd h (hgone _)

/-- A request key that has been applied is answered as such, at once or after the connection
has been opened again. -/
theorem handle_replayed (hkind : x.req.kind = .counter) (hlate : x.late = false)
    (husable : c.usable = true) (hc : c.Settled t) (hdup : t.claimed x.req.requestKey = true)
    (hcalls : c.alive = true ∧ c.undrained = false ∧ H.first = .none ∨
      (runOnce cfg H.first x.req c).1.ok = false ∧
        (runOnce cfg H.first x.req c).2.usable = false ∧ H.connected = true ∧ H.second = .none) :
    (handle cfg H x c).1.status = .ok ∧ (handle cfg H x c).1.alreadyApplied = true := by
  have hrun : ∀ (F : Faults) (c : DbLink), runOnce cfg F x.req c =
      counter cfg.procs F x.req.sessionKey x.req.requestKey c := by simp [runOnce, hkind]
  have hbroken : c.broken = false := by simpa [usable] using husable
  obtain ⟨halive, hdrained, hF⟩ | ⟨hfailed, hlost, hconn, hF⟩ := hcalls
  · obtain ⟨hok, happlied⟩ := counter_replayed x.req.sessionKey cfg.procs
      (hc.opened_or hbroken halive hdrained) hdup
    simp only [handle, hlate, husable, hF, hrun, hok, Bool.false_eq_true, ↓reduceIte,
      Bool.not_true]
    exact ⟨rfl, happlied⟩
  · have hfirst := counter_counted (F := H.first) x.req.sessionKey x.req.requestKey
      cfg.procs hc (by simp [hdup])
    rw [hrun] at hfailed hlost
    rcases hr : counter cfg.procs H.first x.req.sessionKey x.req.requestKey c with ⟨ret, c1⟩
    rw [hr] at hfailed hlost hfirst
    have htables : c1.tables = t := by
      cases hfirst with
      | same _ _ hsettled => exact hsettled.1
      | applied _ _ hnew => simp [hdup] at hnew
    have hopen : c1.ensureUsable H.connected = (true, opened t c1.nextLogId) := by
      rw [← htables]
      simp [ensureUsable, hlost, hconn, DbLink.reopen]
    obtain ⟨hok, happlied⟩ := counter_replayed (n := c1.nextLogId) x.req.sessionKey
      cfg.procs (.inl rfl) hdup
    dsimp only at hfailed hlost
    simp only [handle, hlate, husable, hrun, hr, hfailed, hlost, hkind, isRetrySafe, hopen, hF, hok,
      Bool.false_eq_true, ↓reduceIte, Bool.not_true, Bool.not_false, Bool.and_self]
    exact ⟨rfl, happlied⟩

end DbLink

namespace Tables

/-- The counters hold what the claimed request keys are for, each once. -/
def Exact (t : Tables) : Prop :=
  t.applied.Nodup ∧ ∀ key, key ∈ t.applied ↔ t.claimed key = true

/-- Counting a new key keeps the counters exact. -/
theorem Exact.apply {t : Tables} (h : t.Exact) (sessionKey : Bytes) {requestKey : Bytes}
    (hnew : t.claimed requestKey = false) : (t.apply sessionKey requestKey).Exact := by
  have hnot : requestKey ∉ t.applied := by simp [h.2, hnew]
  refine ⟨?_, fun key => ?_⟩
  · rw [applied_apply]
    exact List.nodup_append.mpr ⟨h.1, List.nodup_singleton _, by
      rintro a ha b hb rfl
      exact hnot (List.mem_singleton.mp hb ▸ ha)⟩
  · rw [applied_apply, claimed_apply, List.mem_append, List.mem_singleton, h.2, Bool.or_eq_true,
      decide_eq_true_eq]
    exact or_comm

end Tables

/-! ## Runs -/

/-- A connection, with the requests it was used for. -/
structure CounterRun where
  link : DbLink
  /-- The requests and the responses to them. -/
  responded : List (Request × Response)

/-- What happens to the connection next. -/
inductive CounterStep where
  | request (x : Asked) (H : CallFaults)
  /-- The top of a round of `run`. -/
  | reconnect (connected : Bool)
  | ping (f : Fault)

/-- A worker that is given Counter requests. -/
def counterRuns (cfg : DbLinkConfig) (s : Store) : Machine CounterRun CounterStep where
  init r := r = ⟨s.link, []⟩
  step r
    | .request x H =>
      if x.req.kind = .counter then
        let (res, link) := r.link.handle cfg H x
        some { link, responded := r.responded ++ [(x.req, res)] }
      else none
    | .reconnect connected => some { r with link := (r.link.ensureUsable connected).2 }
    | .ping f => some { r with link := (r.link.ping f).2 }

/-- No try at a request key that has not been claimed leaves the claim in a transaction that
stays open. -/
def KeepsClaims (cfg : DbLinkConfig) (r : CounterRun) : CounterStep → Prop
  | .request x H =>
    x.late = false → r.link.usable = true → r.link.tables.claimed x.req.requestKey = false →
      ¬H.first.LeavesClaim cfg.procs ∧ ¬H.second.LeavesClaim cfg.procs
  | _ => True

/-- What holds between two requests. -/
structure CounterRun.Once (s : Store) (r : CounterRun) : Prop where
  settled : r.link.Settled r.link.tables
  exact : r.link.tables.Exact
  hits : r.link.tables.hits + s.tables.applied.length =
    s.tables.hits + r.link.tables.applied.length
  answered : ∀ x ∈ r.responded, x.2.status = .ok → x.1.requestKey ∈ r.link.tables.applied

variable {cfg : DbLinkConfig} {s : Store} {r : CounterRun}

/-- A step that does nothing but to the connection. -/
theorem CounterRun.Once.keep (h : r.Once s) {link : DbLink} (hlink : link.Settled r.link.tables) :
    CounterRun.Once s { r with link } := by
  obtain ⟨htables, htxn⟩ := hlink
  refine ⟨?_, ?_, ?_, ?_⟩ <;> simp only [htables]
  · exact ⟨htables, htxn⟩
  · exact h.exact
  · exact h.hits
  · exact h.answered

/-- A request keeps what holds between two requests. -/
theorem CounterRun.Once.request (h : r.Once s) {x : Asked} {H : CallFaults}
    (hkind : x.req.kind = .counter) (hok : KeepsClaims cfg r (.request x H)) :
    CounterRun.Once s
      { link := (r.link.handle cfg H x).2
        responded := r.responded ++ [(x.req, (r.link.handle cfg H x).1)] } := by
  have hhandled := DbLink.handle_handled cfg hkind h.settled hok
  generalize r.link.handle cfg H x = out at hhandled
  cases hhandled with
  | same res c hsettled hres =>
    obtain ⟨htables, htxn⟩ := hsettled
    refine ⟨?_, ?_, ?_, ?_⟩ <;> simp only [htables]
    · exact ⟨htables, htxn⟩
    · exact h.exact
    · exact h.hits
    · intro y hy hstatus
      rcases List.mem_append.mp hy with hy | hy
      · exact h.answered y hy hstatus
      · obtain rfl := List.mem_singleton.mp hy
        exact (h.exact.2 _).mpr (hres hstatus)
  | applied res c hnew hsettled =>
    obtain ⟨htables, htxn⟩ := hsettled
    refine ⟨?_, ?_, ?_, ?_⟩ <;> simp only [htables]
    · exact ⟨htables, htxn⟩
    · exact h.exact.apply _ hnew
    · have hsum := h.hits
      simp only [Tables.hits_apply, Tables.applied_apply, List.length_append,
        List.length_singleton]
      omega
    · intro y hy hstatus
      rw [Tables.applied_apply, List.mem_append, List.mem_singleton]
      rcases List.mem_append.mp hy with hy | hy
      · exact .inl (h.answered y hy hstatus)
      · obtain rfl := List.mem_singleton.mp hy
        exact .inr rfl

/-- It holds in every run that keeps its claims. -/
theorem once_of_reachesWhen (hs : s.tables.Exact)
    (h : (counterRuns cfg s).ReachesWhen (KeepsClaims cfg) r) : r.Once s := by
  refine Machine.ReachesWhen.invariant ?_ ?_ h
  · rintro r rfl
    exact ⟨DbLink.settled_opened, hs, rfl, by simp⟩
  · intro r a r' hr hok hstep
    cases a with
    | request x H =>
      simp only [counterRuns] at hstep
      split_ifs at hstep with hkind
      cases hstep
      exact hr.request hkind hok
    | reconnect connected =>
      cases hstep
      exact hr.keep (hr.settled.ensureUsable connected)
    | ping f =>
      cases hstep
      exact hr.keep (hr.settled.ping f)

/-- In a run that leaves no claim in an open transaction : a request key is counted at most
once, and the sum of the counters has grown by what has been counted; a request that is answered
Ok has been counted exactly once; and a request whose key has been counted changes nothing,
and is answered Ok as already applied if its calls succeed, at once or after the connection has
been opened again. -/
theorem counter_once (hs : s.tables.Exact)
    (h : (counterRuns cfg s).ReachesWhen (KeepsClaims cfg) r) :
    (∀ key, r.link.tables.applied.count key ≤ 1) ∧
      r.link.tables.hits + s.tables.applied.length =
        s.tables.hits + r.link.tables.applied.length ∧
      (∀ x ∈ r.responded, x.2.status = .ok → r.link.tables.applied.count x.1.requestKey = 1) ∧
      ∀ x H, x.req.kind = .counter → x.req.requestKey ∈ r.link.tables.applied →
        (r.link.handle cfg H x).2.tables = r.link.tables ∧
        (x.late = false → r.link.usable = true →
          r.link.alive = true ∧ r.link.undrained = false ∧ H.first = .none ∨
            (r.link.runOnce cfg H.first x.req).1.ok = false ∧
              (r.link.runOnce cfg H.first x.req).2.usable = false ∧ H.connected = true ∧
              H.second = .none →
          (r.link.handle cfg H x).1.status = .ok ∧
            (r.link.handle cfg H x).1.alreadyApplied = true) := by
  have hr := once_of_reachesWhen hs h
  refine ⟨List.nodup_iff_count_le_one.mp hr.exact.1, hr.hits, fun x hx hres => ?_,
    fun x H hkind hkey => ?_⟩
  · exact List.count_eq_one_of_mem hr.exact.1 (hr.answered x hx hres)
  · have hdup := (hr.exact.2 _).mp hkey
    refine ⟨?_, fun hlate husable hcalls =>
      DbLink.handle_replayed hkind hlate husable hr.settled hdup hcalls⟩
    have hhandled := DbLink.handle_handled (H := H) cfg hkind hr.settled (by simp [hdup])
    generalize r.link.handle cfg H x = out at hhandled
    cases hhandled with
    | same _ _ hsettled => exact hsettled.1
    | applied _ _ hnew => simp [hdup] at hnew

/-- The calls of a request, the first try of which ends with `F`. -/
def firstTry (F : Faults) : CallFaults := { CallFaults.none with first := F }

/-- The increment fails, and so does the ROLLBACK after it. -/
def bumpFails : Faults
  | .stmt .counterBump .execute | .rollback => .error false
  | .proc .bump | .proc .handlerRollback => .error false
  | _ => .ok

/-- A Counter of the session [1] with the key [9]. -/
def counterRequest : Asked := ⟨⟨.counter, 7, [1], [], [9], 0, 0⟩, false⟩

/-- The tables before any request. -/
def emptyStore : Store := ⟨.empty, 1⟩

/-- A request that succeeds, and the same request sent again. -/
theorem counter_once_replay : ∃ r, (counterRuns ⟨true, fun _ => 0⟩ emptyStore).ReachesWhen
    (KeepsClaims ⟨true, fun _ => 0⟩) r ∧ r.link.tables.applied = [[9]] ∧
      (∀ x ∈ r.responded, x.2.status = .ok) ∧
      r.link.tables.applied.count counterRequest.req.requestKey = 1 := by
  have hkeeps : ∀ r : CounterRun,
      KeepsClaims ⟨true, fun _ => 0⟩ r (.request counterRequest .none) := by
    intro r _ _ _
    constructor <;> simp [Faults.LeavesClaim, CallFaults.none, Faults.procIncrement, firstFault]
  have h0 : (counterRuns ⟨true, fun _ => 0⟩ emptyStore).ReachesWhen
      (KeepsClaims ⟨true, fun _ => 0⟩) ⟨emptyStore.link, []⟩ := .init rfl
  have h1 := h0.step (a := .request counterRequest .none) (hkeeps _) rfl
  have h2 := h1.step (a := .request counterRequest .none) (hkeeps _) rfl
  have hexact : emptyStore.tables.Exact :=
    ⟨List.nodup_nil, by simp [emptyStore, Tables.empty, Tables.claimed]⟩
  refine ⟨_, h2, rfl, by decide, ?_⟩
  exact (counter_once hexact h2).2.2.1 _ (List.mem_cons_self ..) rfl

/-- In some run a request is answered Ok though nothing has been counted. -/
def AnswersUncounted (procs : Bool) : Prop :=
  ∃ r, (counterRuns ⟨procs, fun _ => 0⟩ emptyStore).Reaches r ∧
    ∃ x ∈ r.responded, x.2.status = .ok ∧ r.link.tables.applied.count x.1.requestKey = 0 ∧
      r.link.tables.hits = 0

/-- The increment fails and so does the ROLLBACK; the request is sent again. -/
theorem answersUncounted (procs : Bool) : AnswersUncounted procs := by
  obtain ⟨r, hr, hp⟩ := (counterRuns ⟨procs, fun _ => 0⟩ emptyStore).exists_reachesWhen
    (fun _ _ => True) ⟨emptyStore.link, []⟩
    [.request counterRequest (firstTry bumpFails), .request counterRequest .none]
    (fun r => r.responded.any fun x => x.2.status = .ok &&
      r.link.tables.applied.count x.1.requestKey = 0 && r.link.tables.hits = 0)
    rfl (by cases procs <;> decide +kernel)
  obtain ⟨x, hx, hres⟩ := List.any_eq_true.mp hp
  simp only [Bool.and_eq_true, decide_eq_true_eq] at hres
  exact ⟨r, hr, x, hx, hres.1.1, hres.1.2, hres.2⟩

/-- On either path. -/
theorem counter_not_once : AnswersUncounted false ∧ AnswersUncounted true :=
  ⟨answersUncounted false, answersUncounted true⟩

end EchoServer
