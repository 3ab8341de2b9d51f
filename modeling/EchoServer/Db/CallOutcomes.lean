import EchoServer.Db.MysqlConnection

/-!
# How the calls of an operation end

An operation stops at the first of its calls that fails, so what it leaves behind depends on
that call alone (`firstFault`), and on the roll back after it.

The connection is in one of three conditions : opened, in a transaction that sees `u`, or cut,
whether that has been noticed or not. Each part of `counter` is followed from the condition it
starts in to the one it ends in.
-/

namespace EchoServer

/-- The first of some calls that fails, or success. -/
def firstFault : List Fault → Fault
  | [] => .ok
  | .ok :: fs => firstFault fs
  | f :: _ => f

namespace Faults

variable (F : Faults) (st : Statement)

/-- Of a statement : binding its parameters and executing it. -/
def exec : Fault := firstFault [F (.stmt st .bind), F (.stmt st .execute)]

/-- Of taking over a result. -/
def store : Fault := firstFault [F (.stmt st .bindResult), F (.stmt st .storeResult)]

/-- Of reading the counter. -/
def read : Fault :=
  firstFault [F.exec .counterRead, F.store .counterRead, F (.stmt .counterRead (.fetch 0))]

/-- Of `counter_direct` between the claim and the commit. -/
def increment : Fault := firstFault [F.exec .counterBump, F.read]

/-- Of `sp_apply_counter` after the claim. -/
def procIncrement : Fault :=
  firstFault [F (.proc .bump), F (.proc .read), F (.proc .commit)]

/-- Of `sp_apply_counter` as a whole. -/
def procedure (claimed : Bool) : Fault :=
  firstFault [F (.proc .startTransaction), F (.proc .claim),
    if claimed then firstFault [F (.proc .rollback), F (.proc .readDuplicate)]
    else F.procIncrement]

/-- The handler of `sp_apply_counter` leaves the transaction open. -/
def ProcStuck (claimed : Bool) : Prop :=
  F (.proc .startTransaction) = .ok ∧ F (.proc .handlerRollback) = .error false ∧
    (F (.proc .claim) = .error false ∨
      F (.proc .claim) = .ok ∧
        (if claimed then F (.proc .rollback) else F.procIncrement) = .error false)

end Faults

namespace DbLink

/-- In a transaction that was opened on `t`, and sees `u`. -/
def inTxn (t : Tables) (nextLogId : ℕ) (u : Tables) : DbLink :=
  ⟨t, nextLogId, some u, true, false, false⟩

/-- Lost; `broken` if that has been noticed. -/
def cut (t : Tables) (nextLogId : ℕ) (broken : Bool) : DbLink :=
  ⟨t, nextLogId, none, false, broken, false⟩

variable {α : Type} (F : Faults) (st : Statement) {t u u' : Tables} {n : ℕ} {b : Bool}
  {c c' : DbLink}

/-! ## The conditions of a connection -/

@[simp] theorem lose_opened : (opened t n).lose = cut t n false := rfl

@[simp] theorem lose_inTxn : (inTxn t n u).lose = cut t n false := rfl

@[simp] theorem lose_cut : (cut t n b).lose = cut t n b := rfl

@[simp] theorem note_lost : (cut t n b).note .lost = cut t n true := by simp [note, cut]

@[simp] theorem note_other (c : DbLink) : c.note .other = c := rfl

@[simp] theorem note_duplicate (c : DbLink) : c.note .duplicate = c := rfl

@[simp] theorem endTxn_opened (ended : Bool) : (opened t n).endTxn ended = opened t n := by
  cases ended <;> rfl

@[simp] theorem endTxn_inTxn_true : (inTxn t n u).endTxn true = opened t n := rfl

@[simp] theorem endTxn_inTxn_false : (inTxn t n u).endTxn false = inTxn t n u := rfl

@[simp] theorem endTxn_cut (ended : Bool) : (cut t n b).endTxn ended = cut t n b := by
  cases ended <;> rfl

@[simp] theorem rollback_cut : (cut t n b).rollback F = cut t n b := by simp [rollback, command, cut]

/-- Without a transaction a roll back can only lose the connection. -/
theorem rollback_opened : (opened t n).rollback F =
    match F .rollback with
    | .lost _ => cut t n false
    | _ => opened t n := by
  cases h : F .rollback <;> simp [rollback, command, opened, h, rollbackTransaction, endTxn]
  simp [lose, cut]

/-- What a ROLLBACK leaves of an open transaction. -/
theorem rollback_inTxn : (inTxn t n u).rollback F =
    match F .rollback with
    | .lost _ => cut t n false
    | .error false => inTxn t n u
    | _ => opened t n := by
  cases h : F .rollback with
  | ok => simp [rollback, command, inTxn, h, rollbackTransaction, opened]
  | error ended => cases ended <;> simp [rollback, command, inTxn, h, endTxn, opened]
  | lost served =>
    cases served <;> simp [rollback, command, inTxn, h, rollbackTransaction, lose, cut]

/-! ## Calls in a row -/

/-- A statement that does not lose the connection by itself, under its faults. -/
theorem exec_eq (halive : c.alive = true) (hdrained : c.undrained = false) {act : Call α}
    {r : Except Errno α} (hact : act c = (r, c')) (hr : r ≠ .error .lost)
    (hlose : c'.lose = c.lose) : exec F st act c =
      match F.exec st with
      | .ok => (r, c')
      | .error ended => (.error .other, c.endTxn ended)
      | .lost _ => (.error .lost, c.lose.note .lost) := by
  unfold exec Faults.exec
  cases hb : F (.stmt st .bind) with
  | ok =>
    cases he : F (.stmt st .execute) with
    | ok =>
      cases r with
      | ok a => simp [client, command, halive, hdrained, hact, firstFault]
      | error e =>
        cases e with
        | lost => exact absurd rfl hr
        | duplicate => simp [client, command, halive, hdrained, hact, firstFault]
        | other => simp [client, command, halive, hdrained, hact, firstFault]
    | error ended => simp [client, command, halive, hdrained, firstFault]
    | lost served =>
      cases served <;> simp [client, command, halive, hdrained, hact, hlose, firstFault]
  | error ended => simp [client, firstFault]
  | lost served => simp [client, firstFault]

/-- A statement that a connection takes, in whichever way it ends. -/
theorem exec_taken (halive : c.alive = true) (hdrained : c.undrained = false) (act : Call α) :
    (F.exec st = .ok ∧ (∀ a y, act c = (.ok a, y) → exec F st act c = (.ok a, y)) ∧
        ∀ e y, act c = (.error e, y) → exec F st act c = (.error e, y.note e)) ∨
      (∃ ended, F.exec st = .error ended ∧ exec F st act c = (.error .other, c.endTxn ended)) ∨
      ∃ served y, F.exec st = .lost served ∧ exec F st act c = (.error .lost, y) ∧
        y.broken = true := by
  unfold exec Faults.exec
  rcases hb : F (.stmt st .bind) with _ | ended | served
  · rcases he : F (.stmt st .execute) with _ | ended | served
    · exact .inl ⟨rfl, fun a y hact => by simp [client, command, halive, hdrained, hact],
        fun e y hact => by simp [client, command, halive, hdrained, hact]⟩
    · exact .inr (.inl ⟨ended, rfl, by simp [client, command, halive, hdrained]⟩)
    · exact .inr (.inr ⟨served, (if served then (act c).2 else c).lose.note .lost, rfl,
        by simp [client, command, halive, hdrained], rfl⟩)
  · exact .inr (.inl ⟨ended, rfl, by simp [client]⟩)
  · exact .inr (.inr ⟨served, c.lose.note .lost, rfl, by simp [client], rfl⟩)

/-- A statement on a connection that is cut. -/
theorem exec_cut (act : Call α) :
    ∃ e b', exec F st act (cut t n b) = (.error e, cut t n b') := by
  unfold exec
  rcases F (.stmt st .bind) with _ | ended | served
  · exact ⟨.lost, true, by simp [client, command, cut, note]⟩
  · exact ⟨.other, b, by simp [client]⟩
  · exact ⟨.lost, true, by simp [client]⟩

/-- Taking over a result set, under its faults. -/
theorem storeResult_eq (c : DbLink) : storeResult F st c =
    match F.store st with
    | .ok => (.ok (), c)
    | .error ended => (.error .other, c.endTxn ended)
    | .lost _ => (.error .lost, c.lose.note .lost) := by
  unfold storeResult Faults.store
  cases hb : F (.stmt st .bindResult) with
  | ok => cases hs : F (.stmt st .storeResult) <;> simp [client, firstFault]
  | error ended => simp [client, firstFault]
  | lost served => simp [client, firstFault]

/-- Taking over the row of a `CALL`. -/
theorem fetchOut_pending (hdrained : c.undrained = false) : fetchOut F st c.pending =
    match F.store st with
    | .error ended => (.error .other, (c.endTxn ended).pending)
    | .lost _ => (.error .lost, (c.lose.note .lost).pending)
    | .ok =>
      match F (.stmt st (.fetch 0)) with
      | .ok => (.ok (), c.drain F st)
      | .error ended => (.error .other, (c.endTxn ended).drain F st)
      | .lost _ => (.error .lost, c.lose) := by
  obtain ⟨t, n, txn, alive, broken, undrained⟩ := c
  obtain rfl : undrained = false := hdrained
  unfold fetchOut
  rw [storeResult_eq]
  cases F.store st with
  | error ended => cases ended <;> rfl
  | lost served => rfl
  | ok =>
    cases F (.stmt st (.fetch 0)) with
    | ok => rfl
    | error ended => cases ended <;> rfl
    | lost served =>
      simp only [client, drain]
      cases F (.stmt st .drain) <;> rfl

/-! ## The counter, directly -/

variable (sessionKey requestKey : Bytes)

/-- A key that has been claimed is a duplicate. -/
theorem insertClaim_repeated (h : t.claimed requestKey = true) :
    insertClaim requestKey sessionKey (inTxn t n t) = (.error .duplicate, inTxn t n t) := by
  simp [insertClaim, inTxn, view, h]

/-- A new key is claimed in the transaction. -/
theorem insertClaim_new (h : t.claimed requestKey = false) :
    insertClaim requestKey sessionKey (inTxn t n t) =
      (.ok (), inTxn t n (t.claim requestKey sessionKey)) := by
  simp [insertClaim, inTxn, view, write, h]

/-- How `counter_direct` ends once the request key is claimed. -/
inductive Incremented (F : Faults) (t : Tables) (n : ℕ) (u u' : Tables) (value : ℕ) :
    Returned × DbLink → Prop
  | committed : F.increment = .ok → F .commit = .ok →
      Incremented F t n u u' value
        ({ Returned.failed with ok := true, hitCount := value }, opened u' n)
  | unanswered (served : Bool) : F.increment = .ok → F .commit = .lost served →
      Incremented F t n u u' value (.failed, cut (if served then u' else t) n true)
  | uncommitted (ended : Bool) : F.increment = .ok → F .commit = .error ended →
      Incremented F t n u u' value (.failed, (inTxn t n u').endTxn ended)
  | rolledBack (ended : Bool) (v : Tables) : F.increment = .error ended →
      Incremented F t n u u' value (.failed, ((inTxn t n v).endTxn ended).rollback F)
  | lost (served broken : Bool) : F.increment = .lost served →
      Incremented F t n u u' value (.failed, cut t n broken)

/-- How a COMMIT of an open transaction ends. -/
theorem runPlain_commit_inTxn (f : Fault) (v : Tables) :
    runPlain f commitTransaction (inTxn t n v) = match f with
      | .ok => (.ok (), opened v n)
      | .error ended => (.error .other, (inTxn t n v).endTxn ended)
      | .lost served => (.error .lost, cut (if served then v else t) n true) := by
  cases f with
  | ok => rfl
  | error ended => rfl
  | lost served => cases served <;> rfl

/-- `counter_increment` counts the request, or ends as one of its faults says. -/
theorem counterIncrement_inTxn :
    Incremented F t n u (u.bump sessionKey requestKey) ((u.hitCount sessionKey).getD 0 + 1)
      (counterIncrement F sessionKey requestKey (inTxn t n u)) := by
  have hbump : bumpCounter sessionKey requestKey (inTxn t n u) =
      (.ok (), inTxn t n (u.bump sessionKey requestKey)) := rfl
  have hread : ∀ v, selectHitCount sessionKey (inTxn t n v) =
      (.ok (v.hitCount sessionKey), inTxn t n v) := fun _ => rfl
  have hcommit : ∀ v, commitTransaction (inTxn t n v) = (.ok (), opened v n) := fun _ => rfl
  unfold counterIncrement
  rw [exec_eq F .counterBump rfl rfl hbump (by simp) rfl]
  cases h1 : F.exec .counterBump with
  | error ended =>
    exact .rolledBack ended u (by simp [Faults.increment, h1, firstFault])
  | lost served =>
    simp only [lose_inTxn, note_lost, rollback_cut]
    exact .lost served true (by simp [Faults.increment, h1, firstFault])
  | ok =>
    dsimp only
    rw [exec_eq F .counterRead rfl rfl (hread _) (by simp) rfl]
    cases h2 : F.exec .counterRead with
    | error ended =>
      exact .rolledBack ended _ (by simp [Faults.increment, Faults.read, h1, h2, firstFault])
    | lost served =>
      simp only [lose_inTxn, note_lost, rollback_cut]
      exact .lost served true (by simp [Faults.increment, Faults.read, h1, h2, firstFault])
    | ok =>
      dsimp only
      rw [storeResult_eq]
      cases h3 : F.store .counterRead with
      | error ended =>
        exact .rolledBack ended _
          (by simp [Faults.increment, Faults.read, h1, h2, h3, firstFault])
      | lost served =>
        simp only [lose_inTxn, note_lost, rollback_cut]
        exact .lost served true (by simp [Faults.increment, Faults.read, h1, h2, h3, firstFault])
      | ok =>
        cases h4 : F (.stmt .counterRead (.fetch 0)) with
        | error ended =>
          exact .rolledBack ended _
            (by simp [Faults.increment, Faults.read, h1, h2, h3, h4, firstFault])
        | lost served =>
          simp only [client, lose_inTxn, rollback_cut]
          exact .lost served false
            (by simp [Faults.increment, Faults.read, h1, h2, h3, h4, firstFault])
        | ok =>
          have hinc : F.increment = .ok := by
            simp [Faults.increment, Faults.read, h1, h2, h3, h4, firstFault]
          simp only [client, Tables.hitCount_bump_self]
          rw [runPlain_commit_inTxn]
          cases h5 : F .commit with
          | ok => exact .committed hinc h5
          | error ended => exact .uncommitted ended hinc h5
          | lost served => exact .unanswered served hinc h5

/-- How `counter_direct` ends once it has found the request key claimed before. -/
inductive Repeated (F : Faults) (t : Tables) (n value : ℕ) : Returned × DbLink → Prop
  | answered : (∀ served, F .rollback ≠ .lost served) → F.read = .ok →
      Repeated F t n value ({ Returned.failed with
        ok := true, hitCount := value, alreadyApplied := true }, (inTxn t n t).rollback F)
  | stopped (ret : Returned) (ended : Bool) : ret.alreadyApplied = true →
      (∀ served, F .rollback ≠ .lost served) → F.read = .error ended →
      Repeated F t n value (ret, ((inTxn t n t).rollback F).endTxn ended)
  | lost (ret : Returned) (served broken : Bool) : ret.alreadyApplied = true →
      F .rollback = .lost served ∨ F.read = .lost served →
      Repeated F t n value (ret, cut t n broken)

/-- Reading the counter on a connection that is not cut. -/
theorem counterDuplicate_alive (hroll : (inTxn t n t).rollback F = c) (halive : c.alive = true)
    (hdrained : c.undrained = false) (hview : c.view = t) (hlose : c.lose = cut t n false)
    (hkept : ∀ served, F .rollback ≠ .lost served) :
    Repeated F t n ((t.hitCount sessionKey).getD 0)
      (counterDuplicate F sessionKey (inTxn t n t)) := by
  subst hroll
  have hread : selectHitCount sessionKey ((inTxn t n t).rollback F) =
      (.ok (t.hitCount sessionKey), (inTxn t n t).rollback F) := by
    rw [selectHitCount, hview]
  unfold counterDuplicate
  rw [exec_eq F .counterRead halive hdrained hread (by simp) rfl, hlose]
  cases h2 : F.exec .counterRead with
  | error ended =>
    exact .stopped _ ended rfl hkept (by simp [Faults.read, h2, firstFault])
  | lost served =>
    rw [note_lost]
    exact .lost _ served true rfl (.inr (by simp [Faults.read, h2, firstFault]))
  | ok =>
    dsimp only
    rw [storeResult_eq, hlose]
    cases h3 : F.store .counterRead with
    | error ended =>
      exact .stopped _ ended rfl hkept (by simp [Faults.read, h2, h3, firstFault])
    | lost served =>
      rw [note_lost]
      exact .lost _ served true rfl (.inr (by simp [Faults.read, h2, h3, firstFault]))
    | ok =>
      cases h4 : F (.stmt .counterRead (.fetch 0)) with
      | error ended =>
        exact .stopped _ ended rfl hkept (by simp [Faults.read, h2, h3, h4, firstFault])
      | lost served =>
        simp only [client, hlose]
        exact .lost _ served false rfl (.inr (by simp [Faults.read, h2, h3, h4, firstFault]))
      | ok =>
        exact .answered hkept (by simp [Faults.read, h2, h3, h4, firstFault])

/-- `counter_duplicate` reads the count, or ends as one of its faults says. -/
theorem counterDuplicate_inTxn :
    Repeated F t n ((t.hitCount sessionKey).getD 0)
      (counterDuplicate F sessionKey (inTxn t n t)) := by
  have hroll := rollback_inTxn F (t := t) (u := t) (n := n)
  cases h : F .rollback with
  | ok =>
    rw [h] at hroll
    exact counterDuplicate_alive F sessionKey hroll rfl rfl rfl rfl (by simp [h])
  | error ended =>
    cases ended <;> rw [h] at hroll <;>
      exact counterDuplicate_alive F sessionKey hroll rfl rfl rfl rfl (by simp [h])
  | lost served =>
    rw [h] at hroll
    obtain ⟨e, b, hcut⟩ := exec_cut F .counterRead (t := t) (n := n) (b := false)
      (selectHitCount sessionKey)
    unfold counterDuplicate
    rw [hroll]
    dsimp only
    rw [hcut]
    exact .lost _ served b rfl (.inl h)

/-- `counter_direct` up to the claim. -/
theorem counterDirect_eq (hc : c = opened t n ∨ c = inTxn t n t) :
    counterDirect F sessionKey requestKey c =
      match F .startTransaction with
      | .error ended => (.failed, c.endTxn ended)
      | .lost _ => (.failed, cut t n true)
      | .ok =>
        match F.exec .counterClaim with
        | .error ended => (.failed, ((inTxn t n t).endTxn ended).rollback F)
        | .lost _ => (.failed, cut t n true)
        | .ok =>
          if t.claimed requestKey then counterDuplicate F sessionKey (inTxn t n t)
          else
            counterIncrement F sessionKey requestKey (inTxn t n (t.claim requestKey sessionKey)) := by
  have husable : c.usable = true := by rcases hc with rfl | rfl <;> rfl
  have hrun : runPlain (F .startTransaction) startTransaction c =
      match F .startTransaction with
      | .ok => (.ok (), inTxn t n t)
      | .error ended => (.error .other, c.endTxn ended)
      | .lost _ => (.error .lost, cut t n true) := by
    cases F .startTransaction with
    | ok => rcases hc with rfl | rfl <;> rfl
    | error ended => rcases hc with rfl | rfl <;> rfl
    | lost served => cases served <;> rcases hc with rfl | rfl <;> rfl
  unfold counterDirect
  simp only [husable, Bool.not_true, Bool.false_eq_true, ↓reduceIte]
  rw [hrun]
  cases F .startTransaction with
  | error ended => rfl
  | lost served => rfl
  | ok =>
    dsimp only
    cases hdup : t.claimed requestKey with
    | true =>
      rw [exec_eq F .counterClaim rfl rfl (insertClaim_repeated sessionKey requestKey hdup)
        (by simp) rfl]
      cases F.exec .counterClaim <;> simp
    | false =>
      rw [exec_eq F .counterClaim rfl rfl (insertClaim_new sessionKey requestKey hdup)
        (by simp) rfl]
      cases F.exec .counterClaim <;> simp

/-! ## The counter, through its procedure -/

/-- The exit handler of the procedure rolls back and raises the error again. -/
theorem exitHandler_other (c : DbLink) : (exitHandler F .other c : Except Errno α × DbLink) =
    match F (.proc .handlerRollback) with
    | .ok => (.error .other, { c with txn := none })
    | .error ended => (.error .other, c.endTxn ended)
    | .lost _ => (.error .lost, c.lose) := by
  cases h : F (.proc .handlerRollback) with
  | ok => simp [exitHandler, inProc, h, rollbackTransaction]
  | error ended => simp [exitHandler, inProc, h]
  | lost served => cases served <;> simp [exitHandler, inProc, h, rollbackTransaction, lose]

/-- How `sp_apply_counter` ends. -/
inductive ProcEnded (F : Faults) (c : DbLink) (t : Tables) (n : ℕ) (sessionKey requestKey : Bytes) :
    Except Errno (ℕ × Bool) × DbLink → Prop
  | repeated : t.claimed requestKey = true → F.procedure true = .ok →
      ProcEnded F c t n sessionKey requestKey
        (.ok ((t.hitCount sessionKey).getD 0, true), opened t n)
  | committed : t.claimed requestKey = false → F.procedure false = .ok →
      ProcEnded F c t n sessionKey requestKey
        (.ok ((t.hitCount sessionKey).getD 0 + 1, false), opened (t.apply sessionKey requestKey) n)
  | unopened (e : Errno) (y : DbLink) : F (.proc .startTransaction) ≠ .ok →
      y = c ∨ y = opened t n ∨ y = cut t n false →
      ProcEnded F c t n sessionKey requestKey (.error e, y)
  | stopped (e : Errno) (y : DbLink) : F.procedure (t.claimed requestKey) ≠ .ok →
      ¬F.ProcStuck (t.claimed requestKey) → y = opened t n ∨ y = cut t n false →
      ProcEnded F c t n sessionKey requestKey (.error e, y)
  | unanswered : t.claimed requestKey = false → F.procedure false ≠ .ok → ¬F.ProcStuck false →
      ProcEnded F c t n sessionKey requestKey
        (.error .lost, cut (t.apply sessionKey requestKey) n false)
  | stuck (v : Tables) : F.procedure (t.claimed requestKey) ≠ .ok →
      F.ProcStuck (t.claimed requestKey) →
      (t.claimed requestKey = true ∨ F (.proc .claim) ≠ .ok → v = t) →
      ProcEnded F c t n sessionKey requestKey (.error .other, inTxn t n v)

/-- The handler in a transaction. -/
theorem exitHandler_inTxn (α : Type) (v : Tables) (ended : Bool) :
    (∃ e y, (y = opened t n ∨ y = cut t n false) ∧
        ¬(F (.proc .handlerRollback) = .error false ∧ ended = false) ∧
        exitHandler F .other ((inTxn t n v).endTxn ended) =
          ((.error e, y) : Except Errno α × DbLink)) ∨
      F (.proc .handlerRollback) = .error false ∧ ended = false ∧
        exitHandler F .other ((inTxn t n v).endTxn ended) =
          ((.error .other, inTxn t n v) : Except Errno α × DbLink) := by
  rw [exitHandler_other]
  cases F (.proc .handlerRollback) with
  | ok => exact .inl ⟨.other, opened t n, .inl rfl, by simp, by cases ended <;> rfl⟩
  | lost served => exact .inl ⟨.lost, cut t n false, .inr rfl, by simp, by cases ended <;> rfl⟩
  | error ended' =>
    cases ended with
    | true => exact .inl ⟨.other, opened t n, .inl rfl, by simp, by cases ended' <;> rfl⟩
    | false =>
      cases ended' with
      | true => exact .inl ⟨.other, opened t n, .inl rfl, by simp, rfl⟩
      | false => exact .inr ⟨rfl, rfl, rfl⟩

/-- The handler where no transaction is open. -/
theorem exitHandler_opened (α : Type) :
    ∃ e y, (y = opened t n ∨ y = cut t n false) ∧
      exitHandler F .other (opened t n) = ((.error e, y) : Except Errno α × DbLink) := by
  rw [exitHandler_other]
  cases F (.proc .handlerRollback) with
  | ok => exact ⟨.other, opened t n, .inl rfl, rfl⟩
  | error ended => exact ⟨.other, opened t n, .inl rfl, by simp⟩
  | lost served => exact ⟨.lost, cut t n false, .inr rfl, rfl⟩

/-- The branch of the procedure for a key that has been claimed. -/
theorem spDuplicate_inTxn (hdup : t.claimed requestKey = true)
    (hstart : F (.proc .startTransaction) = .ok) (hclaim : F (.proc .claim) = .ok) :
    ProcEnded F c t n sessionKey requestKey (spDuplicate F sessionKey (inTxn t n t)) := by
  unfold spDuplicate
  cases h1 : F (.proc .rollback) with
  | ok =>
    have hroll : inProc .ok rollbackTransaction (inTxn t n t) = (.ok (), opened t n) := rfl
    have hnot : ¬F.ProcStuck (t.claimed requestKey) := by simp [Faults.ProcStuck, hdup, hclaim, h1]
    rw [hroll]
    cases h2 : F (.proc .readDuplicate) with
    | ok => exact .repeated hdup (by simp [Faults.procedure, hstart, hclaim, h1, h2, firstFault])
    | error ended =>
      have hfail : F.procedure (t.claimed requestKey) ≠ .ok := by
        simp [Faults.procedure, hdup, hstart, hclaim, h1, h2, firstFault]
      obtain ⟨e, y, hy, heq⟩ := exitHandler_opened F (ℕ × Bool) (t := t) (n := n)
      simp only [inProc, endTxn_opened, heq]
      exact .stopped e y hfail hnot hy
    | lost served =>
      have hfail : F.procedure (t.claimed requestKey) ≠ .ok := by
        simp [Faults.procedure, hdup, hstart, hclaim, h1, h2, firstFault]
      cases served <;> exact .stopped .lost _ hfail hnot (.inr rfl)
  | error ended =>
    have hfail : F.procedure (t.claimed requestKey) ≠ .ok := by
      simp [Faults.procedure, hdup, hstart, hclaim, h1, firstFault]
    obtain ⟨e, y, hy, hnot, heq⟩ | ⟨hstuck, hended, heq⟩ :=
      exitHandler_inTxn F (ℕ × Bool) (t := t) (n := n) t ended
    · simp only [inProc, heq]
      refine .stopped e y hfail ?_ hy
      simp only [Faults.ProcStuck, hdup, hstart, hclaim, h1]
      simpa using hnot
    · simp only [inProc, heq]
      refine .stuck t hfail ?_ fun _ => rfl
      simp [Faults.ProcStuck, hdup, hstart, hclaim, h1, hstuck, hended]
  | lost served =>
    have hfail : F.procedure (t.claimed requestKey) ≠ .ok := by
      simp [Faults.procedure, hdup, hstart, hclaim, h1, firstFault]
    have hnot : ¬F.ProcStuck (t.claimed requestKey) := by simp [Faults.ProcStuck, hdup, hclaim, h1]
    cases served <;> exact .stopped .lost _ hfail hnot (.inr rfl)

/-- A statement after the claim has failed with an error. -/
theorem ProcEnded.of_handler (hnew : t.claimed requestKey = false)
    (hstart : F (.proc .startTransaction) = .ok) (hclaim : F (.proc .claim) = .ok) {ended : Bool}
    (hfail : F.procIncrement = .error ended) (v : Tables) :
    ProcEnded F c t n sessionKey requestKey
      (exitHandler F .other ((inTxn t n v).endTxn ended)) := by
  have hproc : F.procedure (t.claimed requestKey) ≠ .ok := by
    simp [Faults.procedure, hnew, hstart, hclaim, hfail, firstFault]
  obtain ⟨e, y, hy, hnot, heq⟩ | ⟨hstuck, hended, heq⟩ :=
    exitHandler_inTxn F (ℕ × Bool) (t := t) (n := n) v ended
  · rw [heq]
    refine .stopped e y hproc ?_ hy
    simp only [Faults.ProcStuck, hnew, hstart, hclaim, hfail]
    simpa using hnot
  · rw [heq]
    refine .stuck v hproc ?_ (by simp [hnew, hclaim])
    simp [Faults.ProcStuck, hnew, hstart, hclaim, hfail, hstuck, hended]

/-- And the branch for a new key. -/
theorem spIncrement_inTxn (hnew : t.claimed requestKey = false)
    (hstart : F (.proc .startTransaction) = .ok) (hclaim : F (.proc .claim) = .ok) :
    ProcEnded F c t n sessionKey requestKey
      (spIncrement F sessionKey requestKey (inTxn t n (t.claim requestKey sessionKey))) := by
  have hcut : ∀ served, F.procIncrement = .lost served → ∀ b, b = false →
      ProcEnded F c t n sessionKey requestKey (.error .lost, cut t n b) := by
    rintro served h b rfl
    exact .stopped .lost _
      (by simp [Faults.procedure, hnew, hstart, hclaim, h, firstFault])
      (by simp [Faults.ProcStuck, hnew, hclaim, h]) (.inr rfl)
  unfold spIncrement
  cases h1 : F (.proc .bump) with
  | error ended =>
    exact .of_handler F sessionKey requestKey hnew hstart hclaim
      (by simp [Faults.procIncrement, h1, firstFault]) _
  | lost served =>
    have hlost : F.procIncrement = .lost served := by simp [Faults.procIncrement, h1, firstFault]
    cases served <;> exact hcut _ hlost _ rfl
  | ok =>
    have hbump : inProc .ok (bumpCounter sessionKey requestKey)
        (inTxn t n (t.claim requestKey sessionKey)) =
          (.ok (), inTxn t n (t.apply sessionKey requestKey)) := rfl
    rw [hbump]
    cases h2 : F (.proc .read) with
    | error ended =>
      exact .of_handler F sessionKey requestKey hnew hstart hclaim
        (by simp [Faults.procIncrement, h1, h2, firstFault]) _
    | lost served =>
      have hlost : F.procIncrement = .lost served := by
        simp [Faults.procIncrement, h1, h2, firstFault]
      cases served <;> exact hcut _ hlost _ rfl
    | ok =>
      have hread : inProc .ok (selectHitCount sessionKey)
          (inTxn t n (t.apply sessionKey requestKey)) =
            (.ok (some ((t.hitCount sessionKey).getD 0 + 1)),
              inTxn t n (t.apply sessionKey requestKey)) :=
        congrArg (fun hits => (Except.ok hits, inTxn t n (t.apply sessionKey requestKey)))
          (t.hitCount_apply_self sessionKey requestKey)
      dsimp only
      rw [hread]
      cases h3 : F (.proc .commit) with
      | ok =>
        exact .committed hnew
          (by simp [Faults.procedure, Faults.procIncrement, hstart, hclaim, h1, h2, h3, firstFault])
      | error ended =>
        exact .of_handler F sessionKey requestKey hnew hstart hclaim
          (by simp [Faults.procIncrement, h1, h2, h3, firstFault]) _
      | lost served =>
        have hlost : F.procIncrement = .lost served := by
          simp [Faults.procIncrement, h1, h2, h3, firstFault]
        cases served with
        | false => exact hcut _ hlost _ rfl
        | true =>
          exact .unanswered hnew
            (by simp [Faults.procedure, hstart, hclaim, hlost, firstFault])
            (by simp [Faults.ProcStuck, hclaim, hlost])

/-- The procedure ends in one of the ways of `ProcEnded`. -/
theorem spApplyCounter_ended (hc : c = opened t n ∨ c = inTxn t n t) :
    ProcEnded F c t n sessionKey requestKey (spApplyCounter F sessionKey requestKey c) := by
  unfold spApplyCounter
  cases hstart : F (.proc .startTransaction) with
  | error ended =>
    have hne : F (.proc .startTransaction) ≠ .ok := by simp [hstart]
    rcases hc with rfl | rfl
    · obtain ⟨e, y, hy, heq⟩ := exitHandler_opened F (ℕ × Bool) (t := t) (n := n)
      simp only [inProc, endTxn_opened, heq]
      exact .unopened e y hne (.inr hy)
    · obtain ⟨e, y, hy, -, heq⟩ | ⟨-, -, heq⟩ :=
        exitHandler_inTxn F (ℕ × Bool) (t := t) (n := n) t ended
      · simp only [inProc, heq]
        exact .unopened e y hne (.inr hy)
      · simp only [inProc, heq]
        exact .unopened .other _ hne (.inl rfl)
  | lost served =>
    have hne : F (.proc .startTransaction) ≠ .ok := by simp [hstart]
    rcases hc with rfl | rfl <;> cases served <;>
      exact .unopened .lost _ hne (.inr (.inr rfl))
  | ok =>
    have hbegin : inProc .ok startTransaction c = (.ok (), inTxn t n t) := by
      rcases hc with rfl | rfl <;> rfl
    rw [hbegin]
    dsimp only
    cases hclaim : F (.proc .claim) with
    | error ended =>
      have hfail : ∀ b, F.procedure b ≠ .ok := by
        simp [Faults.procedure, hstart, hclaim, firstFault]
      obtain ⟨e, y, hy, hnot, heq⟩ | ⟨hstuck, hended, heq⟩ :=
        exitHandler_inTxn F (ℕ × Bool) (t := t) (n := n) t ended
      · simp only [inProc, heq]
        refine .stopped e y (hfail _) ?_ hy
        simp only [Faults.ProcStuck, hstart, hclaim]
        simpa using hnot
      · simp only [inProc, heq]
        refine .stuck t (hfail _) ?_ fun _ => rfl
        simp [Faults.ProcStuck, hstart, hclaim, hstuck, hended]
    | lost served =>
      have hfail : ∀ b, F.procedure b ≠ .ok := by
        simp [Faults.procedure, hstart, hclaim, firstFault]
      have hnot : ∀ b, ¬F.ProcStuck b := by simp [Faults.ProcStuck, hclaim]
      have hcut : inProc (.lost served) (insertClaim requestKey sessionKey) (inTxn t n t) =
          (.error .lost, cut t n false) := by
        cases served <;> cases hdup : t.claimed requestKey <;>
          simp [inProc, insertClaim, inTxn, view, write, lose, cut, hdup]
      rw [hcut]
      exact .stopped .lost _ (hfail _) (hnot _) (.inr rfl)
    | ok =>
      cases hdup : t.claimed requestKey with
      | true =>
        have hins : inProc .ok (insertClaim requestKey sessionKey) (inTxn t n t) =
            (.error .duplicate, inTxn t n t) := insertClaim_repeated sessionKey requestKey hdup
        rw [hins]
        exact spDuplicate_inTxn F sessionKey requestKey hdup hstart hclaim
      | false =>
        have hins : inProc .ok (insertClaim requestKey sessionKey) (inTxn t n t) =
            (.ok (), inTxn t n (t.claim requestKey sessionKey)) :=
          insertClaim_new sessionKey requestKey hdup
        rw [hins]
        exact spIncrement_inTxn F sessionKey requestKey hdup hstart hclaim

end DbLink

end EchoServer
