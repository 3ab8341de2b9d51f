import EchoServer.Net.SendPath

/-!
# After a failed send

`on_send_done` discards the staged bytes of a failed completion under `send_mutex_` and closes
the connection once it has released it. `SendRun` records whether bytes that were not on the
socket have been discarded, and how many `WSASend`s have been called since.

A section that gets in between, a `send` or an `on_flush` with something to issue, calls
`WSASend` for the frames behind the gap; `Undisturbed` says of a step that it is not such a
section. `failed_send_final` : no such call has been made exactly when every step of the run
was undisturbed, and then the socket has a prefix of the accepted frames.
`send_after_failed_send` is a run in which a `send` gets in between.
-/

namespace EchoServer

namespace Sender

/-- `post_send_locked` gets past its test and calls `WSASend`. -/
def issues (s : Sender) : Bool := !(s.buf.sending || s.closed || s.buf.pending.isEmpty)

/-- `wakeSend` calls `WSASend`. -/
def wakeIssues (cfg : SendConfig) (flushOk : Bool) (s : Sender) : Bool :=
  (cfg.directSend || !(s.buf.sending || s.flushQueued || flushOk)) && s.issues

/-- The `settle` of a completion discards bytes that are not on the socket. -/
def discards (transferred : ℕ) (ok : Bool) (s : Sender) : Bool :=
  (s.buf.settle transferred ok).1 && decide (transferred < s.buf.staging.length)

end Sender

namespace SendStep

/-- The step calls `WSASend`. -/
def Issues (cfg : SendConfig) (s : Sender) : SendStep → Prop
  | .sendLocked i flushOk _ => ∃ f ∈ s.calls[i]?, ∃ buf ∈ s.buf.append cfg.sendLimit f,
      { s with buf }.wakeIssues cfg flushOk = true
  | .onFlush _ => s.issues = true
  | .onSendDone i ok _ => ∃ fl ∈ s.inFlight[i]?, (s.buf.settle fl.done ok).1 = false ∧
      { s with buf := (s.buf.settle fl.done ok).2 }.issues = true
  | _ => False

/-- The step discards bytes that are not on the socket. -/
def Discards (s : Sender) : SendStep → Prop
  | .onSendDone i ok _ => ∃ fl ∈ s.inFlight[i]?, s.discards fl.done ok = true
  | _ => False

instance (cfg : SendConfig) (s : Sender) (a : SendStep) : Decidable (a.Issues cfg s) := by
  cases a <;> unfold Issues <;> infer_instance

instance (s : Sender) (a : SendStep) : Decidable (a.Discards s) := by
  cases a <;> unfold Discards <;> infer_instance

end SendStep

/-- The send path, and whether bytes have been lost in it. -/
structure SendRun where
  path : Sender
  /-- A completion has discarded bytes that were not on the socket. -/
  lost : Bool
  /-- The calls of `WSASend` since then. -/
  late : ℕ
  deriving DecidableEq

/-- The send path of one connection, with a record of what a failed send is followed by. -/
def sendRuns (cfg : SendConfig) : Machine SendRun SendStep where
  init r := r = ⟨.fresh, false, 0⟩
  step r a := ((sender cfg).step r.path a).map fun path =>
    { path
      lost := r.lost || decide (a.Discards r.path)
      late := if r.lost = true ∧ a.Issues cfg r.path then r.late + 1 else r.late }

/-- The step is not a section that finds the connection still open after a loss and has
something to issue : a `send` whose frame fits, in direct mode or when its Flush notice is
refused, or an `on_flush` with pending bytes. -/
def Undisturbed (cfg : SendConfig) (r : SendRun) (a : SendStep) : Prop :=
  r.lost = true → r.path.closed = false →
    match a with
    | .sendLocked i flushOk _ => ∀ f ∈ r.path.calls[i]?, r.path.buf.append cfg.sendLimit f ≠ none →
        cfg.directSend = false ∧ (r.path.flushQueued = true ∨ flushOk = true)
    | .onFlush _ => r.path.buf.pending = []
    | _ => True

namespace SendBuffer

/-- A completion that discards nothing keeps the bytes to go out. -/
theorem unsent_settle_of_kept {k : ℕ} {ok : Bool} {b : SendBuffer}
    (h : ¬((b.settle k ok).1 = true ∧ k < b.staging.length)) :
    (b.settle k ok).2.unsent 0 = b.unsent k := by
  by_cases hlt : k < b.staging.length
  · have hfail : ¬(b.settle k ok).1 = true := fun hf => h ⟨hf, hlt⟩
    unfold settle at hfail ⊢
    split_ifs at hfail ⊢ with _ h0
    · simp at hfail
    · simp [unsent, requeueUnsent_eq]
    · simp_all
  · have hle : b.staging.length ≤ k := by omega
    unfold settle unsent
    simp [hlt, List.drop_of_length_le hle]

end SendBuffer

namespace Sender

variable {cfg : SendConfig} {s : Sender}

/-- If nothing is issued, `post_send_locked` changes nothing. -/
theorem postSendLocked_of_not_issues (h : s.issues = false) (wsaOk : Bool) :
    s.postSendLocked wsaOk = s := by
  have hstop : (s.buf.sending || s.closed || s.buf.pending.isEmpty) = true := by
    simpa only [issues, Bool.not_eq_false'] using h
  rw [postSendLocked, if_pos hstop]

/-- If nothing is issued, waking at most notes that a flush is queued. -/
theorem wakeSend_of_not_issues {flushOk : Bool} (h : s.wakeIssues cfg flushOk = false)
    (wsaOk : Bool) :
    s.wakeSend cfg flushOk wsaOk = s ∨
      s.wakeSend cfg flushOk wsaOk = { s with flushQueued := true, flushes := s.flushes + 1 } := by
  unfold wakeIssues at h
  unfold wakeSend
  split_ifs with hdirect hout hflush
  · exact Or.inl (postSendLocked_of_not_issues (by simpa [hdirect] using h) wsaOk)
  · exact Or.inl rfl
  · exact Or.inr rfl
  · exact Or.inl (postSendLocked_of_not_issues (by simp_all) wsaOk)

/-- A loss comes with nothing in flight and a `close` made or still to come. -/
structure Failed (s : Sender) : Prop where
  none_inFlight : s.inFlight = []
  wire_le : s.wire <+: s.accepted.flatMap Frame.encode
  close_due : s.closed = true ∨ 0 < s.failing

/-- What is on the wire is a prefix of what was accepted. -/
theorem Whole.wire_le (h : s.Whole) : s.wire <+: s.accepted.flatMap Frame.encode :=
  ⟨_, h⟩

/-- Another frame does not mend a failed send. -/
theorem Failed.accept (hs : s.Failed) (f : Frame) (buf : SendBuffer) :
    Failed { s with buf, accepted := s.accepted ++ [f] } := by
  refine ⟨hs.none_inFlight, hs.wire_le.trans ?_, hs.close_due⟩
  rw [List.flatMap_append]
  exact List.prefix_append _ _

/-- Nor does sending it, as long as nothing is issued. -/
theorem Failed.sendLocked (hs : s.Failed) {f : Frame} {flushOk : Bool} (wsaOk : Bool)
    (h : ∀ buf ∈ s.buf.append cfg.sendLimit f, { s with buf }.wakeIssues cfg flushOk = false) :
    (s.sendLocked cfg f flushOk wsaOk).Failed := by
  unfold Sender.sendLocked
  split
  · exact ⟨hs.none_inFlight, hs.wire_le, hs.close_due⟩
  · rename_i buf hbuf
    have hs' := hs.accept f buf
    have hquiet : wakeIssues cfg flushOk { s with buf, accepted := s.accepted ++ [f] } = false :=
      h buf hbuf
    rcases wakeSend_of_not_issues hquiet wsaOk with heq | heq
    · rw [heq]
      exact hs'
    · rw [heq]
      exact ⟨hs'.none_inFlight, hs'.wire_le, hs'.close_due⟩

/-- After a loss a step that issues nothing reaches no byte of the socket. -/
theorem Failed.step {s' : Sender} {a : SendStep} (hs : s.Failed)
    (h : (sender cfg).step s a = some s') (hquiet : ¬a.Issues cfg s) : s'.Failed := by
  cases a with
  | enter f =>
    obtain rfl := Option.some.inj h
    unfold Sender.enter
    split_ifs
    · exact hs
    · exact ⟨hs.none_inFlight, hs.wire_le, Or.inl rfl⟩
    · exact ⟨hs.none_inFlight, hs.wire_le, hs.close_due⟩
  | sendLocked i flushOk wsaOk =>
    simp only [sender] at h
    split at h
    · rename_i f hf
      obtain rfl := Option.some.inj h
      have hcall : Failed { s with calls := s.calls.eraseIdx i } :=
        ⟨hs.none_inFlight, hs.wire_le, hs.close_due⟩
      refine hcall.sendLocked wsaOk fun buf hbuf => ?_
      by_contra hissue
      exact hquiet ⟨f, hf, buf, hbuf, Bool.eq_true_of_not_eq_false hissue⟩
    · cases h
  | onFlush wsaOk =>
    simp only [sender] at h
    split_ifs at h
    obtain rfl := Option.some.inj h
    have hidle : issues { s with flushQueued := false, flushes := s.flushes - 1 } = false := by
      simpa [SendStep.Issues, issues] using hquiet
    rw [Sender.onFlush, postSendLocked_of_not_issues hidle]
    exact ⟨hs.none_inFlight, hs.wire_le, hs.close_due⟩
  | onSendDone i ok wsaOk =>
    simp [sender, hs.none_inFlight] at h
  | transfer i n =>
    simp [sender, hs.none_inFlight] at h
  | closeFailed =>
    simp only [sender] at h
    split_ifs at h
    obtain rfl := Option.some.inj h
    exact ⟨hs.none_inFlight, hs.wire_le, Or.inl rfl⟩
  | closeOverflow =>
    simp only [sender] at h
    split_ifs at h
    obtain rfl := Option.some.inj h
    exact ⟨hs.none_inFlight, hs.wire_le, Or.inl rfl⟩
  | close =>
    obtain rfl := Option.some.inj h
    exact ⟨hs.none_inFlight, hs.wire_le, Or.inl rfl⟩

/-- The end of a send that discards nothing keeps the stream whole. -/
theorem Whole.onSendDone {s' : Sender} (hw : s.Whole) (hs : s.Inv) {i : ℕ} {ok wsaOk : Bool}
    (h : (sender cfg).step s (.onSendDone i ok wsaOk) = some s')
    (hkeep : ¬(SendStep.onSendDone i ok wsaOk).Discards s) : s'.Whole := by
  simp only [sender] at h
  split at h
  · rename_i fl hfl
    obtain rfl := Option.some.inj h
    obtain ⟨rfl, -, k, -, rfl, hone⟩ := hs.flight_eq hfl
    have hkept : ¬((s.buf.settle k ok).1 = true ∧ k < s.buf.staging.length) := by
      intro hlost
      exact hkeep ⟨_, hfl, by simpa [discards] using hlost⟩
    have hwhole := hw.settle hone (SendBuffer.unsent_settle_of_kept hkept)
    have hcore := hs.settle hone ok
    unfold Sender.onSendDone
    simp only [hone, List.eraseIdx_cons_zero]
    split_ifs
    · exact hwhole
    · exact hwhole
    · exact hwhole.postSendLocked hcore wsaOk
  · cases h

/-- A step that discards nothing keeps the stream whole. -/
theorem Whole.step {s' : Sender} {a : SendStep} (hw : s.Whole) (hs : s.Inv)
    (h : (sender cfg).step s a = some s') (hkeep : ¬a.Discards s) : s'.Whole := by
  cases a with
  | enter f =>
    obtain rfl := Option.some.inj h
    unfold Sender.enter
    split_ifs
    · exact hw
    · exact hw
    · exact hw
  | sendLocked i flushOk wsaOk =>
    simp only [sender] at h
    split at h
    · rename_i f hf
      obtain rfl := Option.some.inj h
      unfold Sender.sendLocked
      split
      · exact hw
      · rename_i buf hbuf
        obtain rfl := SendBuffer.append_eq_some hbuf
        have hcall : Whole { s with calls := s.calls.eraseIdx i } := hw
        exact (hcall.append f).wakeSend ((hs.takeCall i).append f) cfg flushOk wsaOk
    · cases h
  | onFlush wsaOk =>
    simp only [sender] at h
    split_ifs at h
    obtain rfl := Option.some.inj h
    have hw' : Whole { s with flushQueued := false, flushes := s.flushes - 1 } := hw
    exact hw'.postSendLocked hs.takeFlush wsaOk
  | onSendDone i ok wsaOk => exact hw.onSendDone hs h hkeep
  | transfer i n =>
    simp only [sender] at h
    split at h
    · rename_i fl hfl
      split_ifs at h with hn
      obtain rfl := Option.some.inj h
      obtain ⟨rfl, -, k, -, rfl, hone⟩ := hs.flight_eq hfl
      exact hw.transfer hone n
    · cases h
  | closeFailed =>
    simp only [sender] at h
    split_ifs at h
    obtain rfl := Option.some.inj h
    exact hw
  | closeOverflow =>
    simp only [sender] at h
    split_ifs at h
    obtain rfl := Option.some.inj h
    exact hw
  | close =>
    obtain rfl := Option.some.inj h
    exact hw

end Sender

namespace SendRun

variable {cfg : SendConfig} {r r' : SendRun} {a : SendStep}

/-- What holds while no `WSASend` has followed a loss. -/
structure Final (r : SendRun) : Prop where
  inv : r.path.Inv
  whole : r.lost = false → r.path.Whole
  failed : r.lost = true → r.path.Failed

theorem final_fresh : Final ⟨.fresh, false, 0⟩ :=
  ⟨Sender.inv_fresh, fun _ => rfl, by simp⟩

/-- A completion that loses bytes leaves nothing in flight. -/
theorem failed_of_discards {s s' : Sender} (hs : s.Inv) (hw : s.Whole)
    (h : (sender cfg).step s a = some s') (hlost : a.Discards s) : s'.Failed := by
  cases a with
  | onSendDone i ok wsaOk =>
    obtain ⟨fl, hfl, hdiscards⟩ := hlost
    obtain ⟨rfl, -, k, -, rfl, hone⟩ := hs.flight_eq hfl
    obtain ⟨hfail, -⟩ : (s.buf.settle k ok).1 = true ∧ k < s.buf.staging.length := by
      simpa [Sender.discards] using hdiscards
    simp only [sender, hone, List.getElem?_cons_zero, List.eraseIdx_cons_zero,
      Sender.onSendDone, hfail, if_true] at h
    obtain rfl := Option.some.inj h
    exact ⟨rfl, hw.wire_le, Or.inr (Nat.succ_pos _)⟩
  | _ => exact hlost.elim

/-- A step that issues nothing after a loss keeps the bytes final. -/
theorem Final.step (hr : r.Final) (h : (sender cfg).step r.path a = some r'.path)
    (hlost : r'.lost = (r.lost || decide (a.Discards r.path)))
    (hquiet : ¬(r.lost = true ∧ a.Issues cfg r.path)) : r'.Final := by
  refine ⟨hr.inv.step h, fun hkept => ?_, fun hgap => ?_⟩
  · obtain ⟨hbefore, hkeep⟩ : r.lost = false ∧ ¬a.Discards r.path := by
      simpa [hlost] using hkept
    exact (hr.whole hbefore).step hr.inv h hkeep
  · cases hbefore : r.lost with
    | false =>
      have hdiscards : a.Discards r.path := by simpa [hlost, hbefore] using hgap
      exact failed_of_discards hr.inv (hr.whole hbefore) h hdiscards
    | true => exact (hr.failed hbefore).step h fun hissues => hquiet ⟨hbefore, hissues⟩

/-- After a loss, an allowed step issues something exactly when it is not undisturbed. -/
theorem Final.issues_iff (hr : r.Final) (hlost : r.lost = true) {s' : Sender}
    (h : (sender cfg).step r.path a = some s') :
    a.Issues cfg r.path ↔ ¬Undisturbed cfg r a := by
  have hnone := (hr.failed hlost).none_inFlight
  have hidle : r.path.buf.sending = false := by
    rcases hr.inv.flight with ⟨hidle, -⟩ | ⟨-, k, -, hone⟩
    · exact hidle
    · simp [hnone] at hone
  cases a with
  | sendLocked i flushOk wsaOk =>
    simp only [sender] at h
    split at h
    · rename_i f hf
      have hencode : f.encode ≠ [] :=
        List.ne_nil_of_length_pos (by simp [Frame.encode, kHeaderSize])
      cases hbuf : r.path.buf.append cfg.sendLimit f with
      | none => simp [SendStep.Issues, Undisturbed, hf, hbuf]
      | some buf =>
        obtain rfl := SendBuffer.append_eq_some hbuf
        have hissues : (SendStep.sendLocked i flushOk wsaOk).Issues cfg r.path ↔
            (cfg.directSend = true ∨ r.path.flushQueued = false ∧ flushOk = false) ∧
              r.path.closed = false := by
          simp [SendStep.Issues, Sender.wakeIssues, Sender.issues, hf, hbuf, hidle, hencode]
        have hok : ¬Undisturbed cfg r (.sendLocked i flushOk wsaOk) ↔ r.path.closed = false ∧
            (cfg.directSend = false → r.path.flushQueued = false ∧ flushOk = false) := by
          simp [Undisturbed, hf, hbuf, hlost]
        rw [hissues, hok]
        cases cfg.directSend <;> simp [and_comm]
    · cases h
  | onFlush wsaOk =>
    simp [SendStep.Issues, Undisturbed, Sender.issues, hlost, hidle]
  | onSendDone i ok wsaOk =>
    simp [sender, hnone] at h
  | _ => simp [SendStep.Issues, Undisturbed]

/-- What a step of the record is, and what it says of the run so far. -/
theorem step_cases (h : (sendRuns cfg).step r a = some r') :
    (sender cfg).step r.path a = some r'.path ∧
      r'.lost = (r.lost || decide (a.Discards r.path)) ∧
      r'.late = if r.lost = true ∧ a.Issues cfg r.path then r.late + 1 else r.late := by
  obtain ⟨path, hpath, rfl⟩ := Option.map_eq_some_iff.mp h
  exact ⟨hpath, rfl, rfl⟩

/-- They are final in every run in which nothing is issued after a loss. -/
theorem final_of_reachesWhen (h : (sendRuns cfg).ReachesWhen (Undisturbed cfg) r) :
    r.Final ∧ r.late = 0 := by
  refine Machine.ReachesWhen.invariant (I := fun r => r.Final ∧ r.late = 0) ?_ ?_ h
  · rintro r rfl
    exact ⟨final_fresh, rfl⟩
  · rintro r a r' ⟨hr, hlate⟩ hok hstep
    obtain ⟨hpath, hlost, hcount⟩ := step_cases hstep
    have hquiet : ¬(r.lost = true ∧ a.Issues cfg r.path) := by
      rintro ⟨hgap, hissues⟩
      exact (hr.issues_iff hgap hpath).mp hissues hok
    exact ⟨hr.step hpath hlost hquiet, by rw [hcount, if_neg hquiet, hlate]⟩

/-- A run without a late `WSASend` has had undisturbed steps only. -/
theorem undisturbed_of_late_eq_zero (h : (sendRuns cfg).Reaches r) (hlate : r.late = 0) :
    (sendRuns cfg).ReachesWhen (Undisturbed cfg) r := by
  induction h with
  | init hinit => exact .init hinit
  | @step r r' a _ _ hstep ih =>
    obtain ⟨hpath, -, hcount⟩ := step_cases hstep
    have hquiet : ¬(r.lost = true ∧ a.Issues cfg r.path) := by
      intro hlost
      rw [if_pos hlost] at hcount
      omega
    rw [if_neg hquiet] at hcount
    have hrun := ih (by omega)
    refine hrun.step ?_ hstep
    intro hgap
    by_contra hdisturbed
    refine hquiet ⟨hgap, ((final_of_reachesWhen hrun).1.issues_iff hgap hpath).mpr ?_⟩
    exact fun hok => hdisturbed (hok hgap)

end SendRun

/-- A run has called no `WSASend` after it has discarded bytes that were not on the socket,
exactly when no section of another thread with something to issue came between the discard and
the `close`; and then the socket has a prefix of the accepted frames, and after a loss the
`close` has been made or is still to come. -/
theorem failed_send_final {cfg : SendConfig} {r : SendRun} (h : (sendRuns cfg).Reaches r) :
    (r.late = 0 ↔ (sendRuns cfg).ReachesWhen (Undisturbed cfg) r) ∧
      (r.late = 0 → r.path.wire <+: r.path.accepted.flatMap Frame.encode ∧
        (r.lost = true → r.path.closed = true ∨ 0 < r.path.failing)) := by
  have hiff : r.late = 0 ↔ (sendRuns cfg).ReachesWhen (Undisturbed cfg) r :=
    ⟨SendRun.undisturbed_of_late_eq_zero h, fun hrun => (SendRun.final_of_reachesWhen hrun).2⟩
  refine ⟨hiff, fun hlate => ?_⟩
  have hfinal := (SendRun.final_of_reachesWhen (hiff.mp hlate)).1
  refine ⟨?_, fun hlost => (hfinal.failed hlost).close_due⟩
  cases hlost : r.lost with
  | false => exact (hfinal.whole hlost).wire_le
  | true => exact (hfinal.failed hlost).wire_le

/-- Three bytes of a frame are on the socket when its send fails, and the connection is closed
before anyone else sends. -/
theorem failed_send_final_closed : ∃ r : SendRun, r.lost = true ∧ r.path.wire.length = 3 ∧
    r.path.wire <+: r.path.accepted.flatMap Frame.encode := by
  obtain ⟨r, hr, hp⟩ := (sendRuns ⟨true, 0⟩).exists_reachesWhen (fun _ _ => True)
    ⟨.fresh, false, 0⟩
    [.enter ⟨101, [1, 2]⟩, .sendLocked 0 true true, .enter ⟨102, []⟩, .transfer 0 3,
      .onSendDone 0 false true, .closeFailed, .sendLocked 0 true true]
    (fun r => r.lost = true ∧ r.path.wire.length = 3 ∧ r.late = 0) rfl (by decide +kernel)
  obtain ⟨hlost, hwire, hlate⟩ := of_decide_eq_true hp
  exact ⟨r, hlost, hwire, ((failed_send_final hr).2 hlate).1⟩

/-- In direct mode a `send`, and in notify mode the `on_flush` of a `send`, comes between the
failed completion and its `close` : the socket has three bytes of the first frame and then the
second frame. -/
theorem send_after_failed_send :
    (∃ r : SendRun, (sendRuns ⟨true, 0⟩).Reaches r ∧ r.late = 1 ∧
      ¬r.path.wire <+: r.path.accepted.flatMap Frame.encode) ∧
    ∃ r : SendRun, (sendRuns ⟨false, 0⟩).Reaches r ∧ r.late = 1 ∧
      ¬r.path.wire <+: r.path.accepted.flatMap Frame.encode := by
  constructor
  · obtain ⟨r, hr, hp⟩ := (sendRuns ⟨true, 0⟩).exists_reachesWhen (fun _ _ => True)
      ⟨.fresh, false, 0⟩
      [.enter ⟨101, [1, 2]⟩, .sendLocked 0 true true, .enter ⟨102, [3]⟩, .transfer 0 3,
        .onSendDone 0 false true, .sendLocked 0 true true, .transfer 0 7, .closeFailed]
      (fun r => r.late = 1 ∧ ¬r.path.wire <+: r.path.accepted.flatMap Frame.encode) rfl
      (by decide +kernel)
    exact ⟨r, hr, of_decide_eq_true hp⟩
  · obtain ⟨r, hr, hp⟩ := (sendRuns ⟨false, 0⟩).exists_reachesWhen (fun _ _ => True)
      ⟨.fresh, false, 0⟩
      [.enter ⟨101, [1, 2]⟩, .sendLocked 0 true true, .onFlush true, .enter ⟨102, [3]⟩,
        .transfer 0 3, .onSendDone 0 false true, .sendLocked 0 true true, .onFlush true,
        .transfer 0 7, .closeFailed]
      (fun r => r.late = 1 ∧ ¬r.path.wire <+: r.path.accepted.flatMap Frame.encode) rfl
      (by decide +kernel)
    exact ⟨r, hr, of_decide_eq_true hp⟩

end EchoServer
