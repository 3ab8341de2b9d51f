import EchoServer.Net.SendPath

/-!
# The send backlog under its limit

`send` admits a frame against the sum of the pending and the staged bytes. Nothing else makes
that sum larger : staging moves the pending bytes over the staged buffer, and a completion
clears the staged buffer before the tail it returns is counted again
(`SendBuffer.queued_settle_le`). A `send` that would exceed the limit leaves the buffers as they
are and owes a `close`, which it makes once the lock is free.
-/

namespace EchoServer

namespace SendBuffer

/-- The bytes that `send` counts : `send_pending_.size() + send_staging_.size()`. -/
def queued (b : SendBuffer) : ℕ := b.pending.length + b.staging.length

/-- Staging does not add to what is queued. -/
theorem queued_stage_le (b : SendBuffer) : b.stage.queued ≤ b.queued := by
  simp [queued, stage]

/-- The tail that a completion returns is part of the staged buffer that it clears. -/
theorem queued_settle_le (transferred : ℕ) (ok : Bool) (b : SendBuffer) :
    (b.settle transferred ok).2.queued ≤ b.queued := by
  unfold settle
  split_ifs with hlt h0
  · simp [queued]
  · simp only [queued, requeueUnsent_eq, List.length_append, List.length_drop, List.length_nil]
    omega
  · simp [queued]

/-- A frame is refused exactly if it would exceed the limit. -/
theorem append_eq_none_iff {sendLimit : ℕ} {f : Frame} {b : SendBuffer} :
    b.append sendLimit f = none ↔
      0 < sendLimit ∧ sendLimit < b.queued + (kHeaderSize + f.body.length) := by
  simp only [append, queued]
  split_ifs with h
  · simpa using h
  · simpa using h

/-- What is accepted stays within the limit. -/
theorem queued_append_le {sendLimit : ℕ} {f : Frame} {b b' : SendBuffer} (hlimit : 0 < sendLimit)
    (h : b.append sendLimit f = some b') : b'.queued ≤ sendLimit := by
  have hroom : ¬(0 < sendLimit ∧ sendLimit < b.queued + (kHeaderSize + f.body.length)) := by
    rw [← append_eq_none_iff, h]
    simp
  have hlen : f.encode.length = kHeaderSize + f.body.length := by
    simp [Frame.encode]
  obtain rfl := append_eq_some h
  simp only [queued, List.length_append] at hroom ⊢
  omega

end SendBuffer

namespace Sender

variable {cfg : SendConfig} {s s' : Sender} {a : SendStep}

/-- Posting a send does not add to what is queued. -/
theorem queued_postSendLocked_le (wsaOk : Bool) (s : Sender) :
    (s.postSendLocked wsaOk).buf.queued ≤ s.buf.queued := by
  have hstage := s.buf.queued_stage_le
  unfold postSendLocked
  dsimp only
  split_ifs
  · exact le_rfl
  · exact hstage
  · exact hstage

/-- Nor does waking. -/
theorem queued_wakeSend_le (cfg : SendConfig) (flushOk wsaOk : Bool) (s : Sender) :
    (s.wakeSend cfg flushOk wsaOk).buf.queued ≤ s.buf.queued := by
  unfold wakeSend
  split_ifs
  · exact queued_postSendLocked_le wsaOk s
  · exact le_rfl
  · exact le_rfl
  · exact queued_postSendLocked_le wsaOk s

/-- Nor does the end of a send, even if it puts bytes back. -/
theorem queued_onSendDone_le (transferred : ℕ) (ok wsaOk : Bool) (s : Sender) :
    (s.onSendDone transferred ok wsaOk).buf.queued ≤ s.buf.queued := by
  have hsettle := s.buf.queued_settle_le transferred ok
  unfold onSendDone
  dsimp only
  split_ifs
  · exact hsettle
  · exact hsettle
  · exact (queued_postSendLocked_le wsaOk _).trans hsettle

/-- A step keeps the backlog under the limit. -/
theorem queued_step (hlimit : 0 < cfg.sendLimit) (hs : s.buf.queued ≤ cfg.sendLimit)
    (h : (sender cfg).step s a = some s') : s'.buf.queued ≤ cfg.sendLimit := by
  cases a with
  | enter f =>
    obtain rfl := Option.some.inj h
    unfold Sender.enter
    split_ifs
    · exact hs
    · exact hs
    · exact hs
  | sendLocked i flushOk wsaOk =>
    simp only [sender] at h
    split at h
    · rename_i f hf
      obtain rfl := Option.some.inj h
      unfold Sender.sendLocked
      split
      · exact hs
      · rename_i buf hbuf
        exact (queued_wakeSend_le cfg flushOk wsaOk _).trans
          (SendBuffer.queued_append_le hlimit hbuf)
    · cases h
  | onFlush wsaOk =>
    simp only [sender] at h
    split_ifs at h
    obtain rfl := Option.some.inj h
    exact (queued_postSendLocked_le wsaOk _).trans hs
  | onSendDone i ok wsaOk =>
    simp only [sender] at h
    split at h
    · obtain rfl := Option.some.inj h
      exact (queued_onSendDone_le _ ok wsaOk _).trans hs
    · cases h
  | transfer i n =>
    simp only [sender] at h
    split at h
    · split_ifs at h
      obtain rfl := Option.some.inj h
      exact hs
    · cases h
  | closeFailed =>
    simp only [sender] at h
    split_ifs at h
    obtain rfl := Option.some.inj h
    exact hs
  | closeOverflow =>
    simp only [sender] at h
    split_ifs at h
    obtain rfl := Option.some.inj h
    exact hs
  | close =>
    obtain rfl := Option.some.inj h
    exact hs

/-! ## A `send` over the limit -/

theorem overflowing_postSendLocked (wsaOk : Bool) (s : Sender) :
    (s.postSendLocked wsaOk).overflowing = s.overflowing := by
  unfold postSendLocked
  dsimp only
  split_ifs <;> rfl

theorem overflowing_wakeSend (cfg : SendConfig) (flushOk wsaOk : Bool) (s : Sender) :
    (s.wakeSend cfg flushOk wsaOk).overflowing = s.overflowing := by
  unfold wakeSend
  split_ifs <;> simp [overflowing_postSendLocked]

theorem overflowing_onSendDone (transferred : ℕ) (ok wsaOk : Bool) (s : Sender) :
    (s.onSendDone transferred ok wsaOk).overflowing = s.overflowing := by
  unfold onSendDone
  dsimp only
  split_ifs <;> simp [overflowing_postSendLocked]

/-- The section of `send` takes no overflow back. -/
theorem le_overflowing_sendLocked (cfg : SendConfig) (f : Frame) (flushOk wsaOk : Bool)
    (s : Sender) : s.overflowing ≤ (s.sendLocked cfg f flushOk wsaOk).overflowing := by
  unfold sendLocked
  split
  · exact Nat.le_succ _
  · rw [overflowing_wakeSend]

/-- A call that met the limit closes the connection, if nothing else has. -/
def CloseDue (s : Sender) : Prop := s.closed = true ∨ 0 < s.overflowing

/-- After an overflow, the connection is closed or about to be. -/
theorem CloseDue.step (hs : s.CloseDue) (h : (sender cfg).step s a = some s') : s'.CloseDue := by
  rcases hs with hclosed | hdue
  · exact Or.inl (closed_step hclosed h)
  cases a with
  | enter f =>
    obtain rfl := Option.some.inj h
    unfold Sender.enter
    split_ifs
    · exact Or.inr hdue
    · exact Or.inl rfl
    · exact Or.inr hdue
  | sendLocked i flushOk wsaOk =>
    simp only [sender] at h
    split at h
    · rename_i f hf
      obtain rfl := Option.some.inj h
      have hle := le_overflowing_sendLocked cfg f flushOk wsaOk
        { s with calls := s.calls.eraseIdx i }
      exact Or.inr (lt_of_lt_of_le hdue hle)
    · cases h
  | onFlush wsaOk =>
    simp only [sender] at h
    split_ifs at h
    obtain rfl := Option.some.inj h
    refine Or.inr ?_
    rw [Sender.onFlush, overflowing_postSendLocked]
    exact hdue
  | onSendDone i ok wsaOk =>
    simp only [sender] at h
    split at h
    · obtain rfl := Option.some.inj h
      refine Or.inr ?_
      rw [overflowing_onSendDone]
      exact hdue
    · cases h
  | transfer i n =>
    simp only [sender] at h
    split at h
    · split_ifs at h
      obtain rfl := Option.some.inj h
      exact Or.inr hdue
    · cases h
  | closeFailed =>
    simp only [sender] at h
    split_ifs at h
    obtain rfl := Option.some.inj h
    exact Or.inl rfl
  | closeOverflow =>
    simp only [sender] at h
    split_ifs at h
    obtain rfl := Option.some.inj h
    exact Or.inl rfl
  | close =>
    obtain rfl := Option.some.inj h
    exact Or.inl rfl

/-- And stays so in every run from there. -/
theorem closeDue_of_onFrom {t : Sender} (hs : s.CloseDue) (h : ((sender cfg).onFrom s).Reaches t) :
    t.CloseDue := by
  refine Machine.Reaches.invariant ?_ (fun t a t' ht hstep => ht.step hstep) h
  rintro t rfl
  exact hs

/-- While the close is due and not made, the call that owes it can make it. -/
theorem CloseDue.closes (hs : s.CloseDue) : s.closed = true ∨
    ∃ s', (sender cfg).step s .closeOverflow = some s' ∧ s'.closed = true := by
  rcases hs with hclosed | hdue
  · exact Or.inl hclosed
  · exact Or.inr ⟨_, if_pos hdue, rfl⟩

end Sender

/-- With a limit, the pending and the staged bytes together stay within it in every state, also
when a completion has put an unsent tail back; and a `send` that would exceed it changes no
byte, and from then on the connection is closed or the call's own `close` still to come. -/
theorem send_backlog_limited {cfg : SendConfig} {s : Sender} (hlimit : 0 < cfg.sendLimit)
    (h : (sender cfg).Reaches s) :
    s.buf.pending.length + s.buf.staging.length ≤ cfg.sendLimit ∧
      (∀ transferred ok,
        (s.buf.settle transferred ok).2.pending.length +
          (s.buf.settle transferred ok).2.staging.length ≤ cfg.sendLimit) ∧
      ∀ (i : ℕ) (f : Frame) (flushOk wsaOk : Bool), s.calls[i]? = some f →
        cfg.sendLimit < s.buf.pending.length + s.buf.staging.length +
          (kHeaderSize + f.body.length) →
        ∃ s', (sender cfg).step s (.sendLocked i flushOk wsaOk) = some s' ∧
          s'.buf = s.buf ∧ s'.accepted = s.accepted ∧ s'.inFlight = s.inFlight ∧
          ∀ t, ((sender cfg).onFrom s').Reaches t → t.closed = true ∨
            ∃ t', (sender cfg).step t .closeOverflow = some t' ∧ t'.closed = true := by
  have hqueued : s.buf.queued ≤ cfg.sendLimit := by
    refine Machine.Reaches.invariant ?_
      (fun s a s' hs hstep => Sender.queued_step hlimit hs hstep) h
    rintro s rfl
    exact Nat.zero_le _
  refine ⟨hqueued, fun transferred ok => (s.buf.queued_settle_le transferred ok).trans hqueued, ?_⟩
  intro i f flushOk wsaOk hf hover
  have hnone : s.buf.append cfg.sendLimit f = none :=
    SendBuffer.append_eq_none_iff.mpr ⟨hlimit, hover⟩
  refine ⟨{ s with calls := s.calls.eraseIdx i, overflowing := s.overflowing + 1 }, ?_, rfl, rfl,
    rfl, fun t ht => ?_⟩
  · simp [sender, hf, Sender.sendLocked, hnone]
  · refine (Sender.closeDue_of_onFrom (Or.inr ?_) ht).closes
    exact Nat.succ_pos _

/-- Six of eight bytes are put back beside eight pending ones, all within the limit, and one
more frame would be too much. -/
theorem send_backlog_limited_full : ∃ s : Sender, s.buf.pending.length = 8 ∧
    s.buf.staging.length = 8 ∧
    s.buf.pending.length + s.buf.staging.length ≤ 16 ∧
    ∃ s', (sender ⟨true, 16⟩).step s (.sendLocked 0 true true) = some s' ∧ s'.buf = s.buf := by
  obtain ⟨s, hs, hp⟩ := (sender ⟨true, 16⟩).exists_reachesWhen (fun _ _ => True) .fresh
    [.enter ⟨101, [1, 2]⟩, .sendLocked 0 true true, .enter ⟨102, [3, 4]⟩,
      .sendLocked 0 true true, .enter ⟨103, []⟩]
    (fun s => s.buf.pending.length = 8 ∧ s.buf.staging.length = 8 ∧ s.calls = [⟨103, []⟩])
    rfl (by decide +kernel)
  obtain ⟨hpending, hstaging, hcalls⟩ := of_decide_eq_true hp
  obtain ⟨hle, -, hover⟩ := send_backlog_limited (by decide) hs
  obtain ⟨s', hstep, hbuf, -⟩ := hover 0 ⟨103, []⟩ true true (by rw [hcalls]; rfl)
    (by rw [hpending, hstaging]; decide)
  exact ⟨s, hpending, hstaging, hle, s', hstep, hbuf⟩

end EchoServer
