import EchoServer.Lib.Machine
import EchoServer.Net.ReceiveBuffer

/-!
# The receive buffer over whole runs

Any sequence of the operations of `ReceiveBuffer` : making room, writing within the writable
span and committing it, consuming within the readable one. `written` records the bytes
committed so far and `consumed` counts the bytes consumed.

The capacity takes three values, none, one chunk and the limit, because the limit is two
chunks and only a buffer of one chunk can grow. So `reserveFree` makes room exactly when the
unread bytes and the room asked for fit in the limit (`ReceiveBuffer.reserveFree_iff`).
-/

namespace EchoServer

namespace ReceiveBuffer

variable {b : ReceiveBuffer}

/-- The capacities a buffer has. -/
def Sized (b : ReceiveBuffer) : Prop := b.cap = 0 ∨ b.cap = kChunk ∨ b.cap = kMaxCapacity

/-- The room that `reserve_free(required)` asks for. -/
def asked (required : ℤ) : ℕ := if required ≤ 0 then kMinFree else required.toNat

/-! ## Growing -/

/-- Growing by one chunk is enough if not more is asked for. -/
theorem growthFor_eq_chunk {free required : ℕ} (h : required ≤ free + kChunk) :
    growthFor free required kChunk = kChunk := by
  rw [growthFor, if_neg (by omega)]

/-- The buffer grows by at least what it is to grow by. -/
theorem le_growthFor (free required add : ℕ) : add ≤ growthFor free required add := by
  fun_induction growthFor free required add with
  | case1 add hlt ih => omega
  | case2 add hlt => exact le_rfl

/-- One chunk is not enough, so at least two are asked for. -/
theorem two_chunks_le_growthFor {free required : ℕ} (h : free + kChunk < required) :
    2 * kChunk ≤ growthFor free required kChunk := by
  rw [growthFor, if_pos h, two_mul]
  exact le_growthFor _ _ _

/-- Growing succeeds up to the limit. -/
theorem grow_of_le {add : ℕ} (h : b.cap + add ≤ kMaxCapacity) :
    ∃ b', b.grow add = some b' ∧ b'.cap = b.cap + add ∧
      b'.writableSize = b.cap + add - b.readableSize := by
  have hsize : b.readableSize ≤ b.cap := by
    have := b.write_le_length
    simp only [readableSize, cap]
    omega
  have hlen : b.readable.length = b.readableSize := b.length_readable
  refine ⟨_, if_neg (by omega), ?_, ?_⟩
  · simp only [cap, List.length_append, List.length_replicate, hlen] at hsize ⊢
    omega
  · simp only [writableSize, cap, List.length_append, List.length_replicate, hlen] at hsize ⊢
    omega

/-- And fails beyond it. -/
theorem grow_of_gt {add : ℕ} (h : kMaxCapacity < b.cap + add) : b.grow add = none :=
  if_pos h

/-! ## Making room -/

/-- The buffer that `reserveFree` looks at is allocated, and has the same unread bytes. -/
theorem settle_sized (h : b.Sized) :
    (b.settle.cap = kChunk ∨ b.settle.cap = kMaxCapacity) ∧
      b.settle.readableSize = b.readableSize := by
  have hwrite : b.write ≤ b.cap := b.write_le_length
  have hread := b.read_le_write
  by_cases hmem : b.mem = []
  · have hcap : b.cap = 0 := by simp [cap, hmem]
    rw [settle_of_nil hmem]
    refine ⟨Or.inl (by simp), ?_⟩
    simp only [readableSize, reset]
    omega
  · have hcap : b.cap = kChunk ∨ b.cap = kMaxCapacity :=
      h.resolve_left fun h0 => hmem (List.length_eq_zero_iff.mp h0)
    unfold settle
    simp only [hmem, if_false]
    split_ifs with hdrained hlarge
    · exact ⟨Or.inl (by simp), by simp [readableSize, allocate, hdrained]⟩
    · exact ⟨hcap, by simp [readableSize, reset, hdrained]⟩
    · exact ⟨hcap, rfl⟩

/-- Room is made exactly when the unread bytes and the room asked for fit in the limit. -/
theorem reserveFree_iff (h : b.Sized) (required : ℤ) :
    ((b.reserveFree required).1 = true ↔ b.readableSize + asked required ≤ kMaxCapacity) ∧
      ((b.reserveFree required).1 = true →
        asked required ≤ (b.reserveFree required).2.writableSize) ∧
      (b.reserveFree required).2.Sized := by
  obtain ⟨hcap, hsize⟩ := settle_sized h
  rw [← hsize]
  unfold reserveFree asked
  simp only
  generalize (if required ≤ 0 then kMinFree else required.toNat) = n
  generalize b.settle = s at hcap ⊢
  have hmax : kMaxCapacity = kChunk + kChunk := rfl
  have hpos : 0 < kChunk := by decide
  have hread := s.read_le_write
  have hwrite : s.write ≤ s.cap := s.write_le_length
  have hfree : s.writableSize + s.read + s.readableSize = s.cap := by
    simp only [writableSize, readableSize]
    omega
  have hsized : s.Sized := Or.inr hcap
  by_cases hroom : s.writableSize ≥ n
  · rw [if_pos hroom]
    exact ⟨by simp; omega, fun _ => hroom, hsized⟩
  rw [if_neg hroom]
  by_cases hmove : s.writableSize + s.read ≥ n
  · have hnew : s.compact.writableSize = s.cap - s.readableSize := by
      rw [writableSize, cap_compact]
      rfl
    rw [if_pos hmove]
    refine ⟨by simp; omega, fun _ => ?_, by rw [Sized, cap_compact]; exact hsized⟩
    dsimp only
    omega
  rw [if_neg hmove]
  rcases hcap with hcap | hcap
  · by_cases hgrow : n ≤ s.writableSize + s.read + kChunk
    · have hle : s.cap + kChunk ≤ kMaxCapacity := by omega
      obtain ⟨s', hs', hcap', hfree'⟩ := grow_of_le hle
      rw [growthFor_eq_chunk hgrow, hs']
      have hlarge : n ≤ s'.writableSize := by omega
      refine ⟨by simp [hlarge]; omega, fun _ => hlarge, Or.inr (Or.inr ?_)⟩
      dsimp only
      omega
    · have htwo : 2 * kChunk ≤ growthFor (s.writableSize + s.read) n kChunk :=
        two_chunks_le_growthFor (by omega)
      have hnone : s.grow (growthFor (s.writableSize + s.read) n kChunk) = none :=
        grow_of_gt (by omega)
      rw [hnone]
      exact ⟨by simp; omega, by simp, hsized⟩
  · have hone := le_growthFor (s.writableSize + s.read) n kChunk
    have hnone : s.grow (growthFor (s.writableSize + s.read) n kChunk) = none :=
      grow_of_gt (by omega)
    rw [hnone]
    exact ⟨by simp; omega, by simp, hsized⟩

end ReceiveBuffer

/-! ## Runs -/

/-- A receive buffer, with what has been written to it and read from it. -/
structure BufferRun where
  buf : ReceiveBuffer
  /-- The bytes written and committed, and the number of bytes consumed. -/
  written : Bytes
  consumed : ℕ

/-- What the connection does with its buffer next. -/
inductive BufferStep where
  | reserveFree (required : ℤ)
  /-- `data` is written at the start of the writable span and committed. -/
  | commitWrite (data : Bytes)
  | consume (bytes : ℕ)

/-- A buffer under its callers, who keep within its spans. -/
def bufferRuns : Machine BufferRun BufferStep where
  init r := r = ⟨.empty, [], 0⟩
  step r
    | .reserveFree required => some { r with buf := (r.buf.reserveFree required).2 }
    | .commitWrite data =>
      if h : data.length ≤ r.buf.writableSize then
        some { r with
          buf := (r.buf.fill data h).commitWrite data.length
            (by rw [ReceiveBuffer.writableSize_fill]; exact h)
          written := r.written ++ data }
      else none
    | .consume bytes =>
      if h : bytes ≤ r.buf.readableSize then
        some { r with buf := r.buf.consume bytes h, consumed := r.consumed + bytes }
      else none

namespace BufferRun

/-- The unread bytes are those written less those consumed. -/
structure Queued (r : BufferRun) : Prop where
  sized : r.buf.Sized
  consumed_le : r.consumed ≤ r.written.length
  readable_eq : r.buf.readable = r.written.drop r.consumed

/-- The buffer is a queue in every state that is reached. -/
theorem queued_of_reaches {r : BufferRun} (h : bufferRuns.Reaches r) : r.Queued := by
  refine Machine.Reaches.invariant ?_ ?_ h
  · rintro r rfl
    exact ⟨Or.inl rfl, le_rfl, rfl⟩
  · intro r a r' hr hstep
    have hsize := r.buf.length_readable
    rw [hr.readable_eq, List.length_drop] at hsize
    have hle := hr.consumed_le
    cases a with
    | reserveFree required =>
      obtain rfl := Option.some.inj hstep
      exact ⟨(ReceiveBuffer.reserveFree_iff hr.sized required).2.2, hr.consumed_le,
        (ReceiveBuffer.readable_reserveFree required).trans hr.readable_eq⟩
    | commitWrite data =>
      simp only [bufferRuns] at hstep
      split_ifs at hstep with hroom
      obtain rfl := Option.some.inj hstep
      refine ⟨?_, ?_, ?_⟩
      · rw [ReceiveBuffer.Sized, ReceiveBuffer.cap_commitWrite, ReceiveBuffer.cap_fill]
        exact hr.sized
      · simp only [List.length_append]
        omega
      · rw [ReceiveBuffer.readable_fill_commitWrite, hr.readable_eq,
          List.drop_append_of_le_length hle]
    | consume bytes =>
      simp only [bufferRuns] at hstep
      split_ifs at hstep with hunread
      obtain rfl := Option.some.inj hstep
      refine ⟨hr.sized, ?_, ?_⟩
      · dsimp only
        omega
      · rw [ReceiveBuffer.readable_consume, hr.readable_eq, List.drop_drop]

end BufferRun

/-- After every sequence of operations : the positions are in order, and the capacity is none,
one chunk or the limit; the unread bytes are the bytes written less those consumed, in order;
and making room for `required` bytes succeeds exactly when they fit in the limit beside the
unread bytes, then there is that much room, and in any case the unread bytes are the same. -/
theorem receive_buffer_fifo {r : BufferRun} (h : bufferRuns.Reaches r) :
    (r.buf.read ≤ r.buf.write ∧ r.buf.write ≤ r.buf.cap ∧
        (r.buf.cap = 0 ∨ r.buf.cap = kChunk ∨ r.buf.cap = kMaxCapacity)) ∧
      (r.consumed ≤ r.written.length ∧ r.buf.readable = r.written.drop r.consumed) ∧
      ∀ required : ℤ,
        ((r.buf.reserveFree required).1 = true ↔
            r.buf.readableSize + (if required ≤ 0 then kMinFree else required.toNat) ≤
              kMaxCapacity) ∧
          ((r.buf.reserveFree required).1 = true →
            (if required ≤ 0 then kMinFree else required.toNat) ≤
              (r.buf.reserveFree required).2.writableSize) ∧
          (r.buf.reserveFree required).2.readable = r.buf.readable := by
  have hr := BufferRun.queued_of_reaches h
  refine ⟨⟨r.buf.read_le_write, r.buf.write_le_length, hr.sized⟩,
    ⟨hr.consumed_le, hr.readable_eq⟩, fun required => ?_⟩
  obtain ⟨hiff, hroom, -⟩ := ReceiveBuffer.reserveFree_iff hr.sized required
  exact ⟨hiff, hroom, ReceiveBuffer.readable_reserveFree required⟩

/-- Ten bytes are written and four of them consumed; room for all but six bytes of the limit
is made, and no more than that. -/
theorem receive_buffer_fifo_grown : ∃ r : BufferRun, r.buf.readableSize = 6 ∧
    (r.buf.reserveFree 16378).1 = true ∧ (r.buf.reserveFree 16379).1 = false := by
  obtain ⟨r, hr, htest⟩ := bufferRuns.exists_reachesWhen (fun _ _ => True) ⟨.empty, [], 0⟩
    [.reserveFree 10, .commitWrite (List.replicate 10 7), .consume 4]
    (fun r => r.buf.readableSize = 6) rfl (by decide +kernel)
  have hsize : r.buf.readableSize = 6 := of_decide_eq_true htest
  have hroom := (receive_buffer_fifo hr).2.2
  refine ⟨r, hsize, (hroom 16378).1.mpr ?_, ?_⟩
  · rw [hsize]
    decide
  · have hnot : ¬(r.buf.reserveFree 16379).1 = true := by
      rw [(hroom 16379).1, hsize]
      decide
    simpa using hnot

end EchoServer
