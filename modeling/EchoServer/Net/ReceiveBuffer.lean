import EchoServer.Proto.ByteOrder

/-!
# The receive buffer

`net/receive_buffer.h` : one array whose `[read, write)` is data not yet consumed and
whose `[write, cap)` is room for the kernel to write into. `reserveFree` makes room in
three stages : it moves the data to the front, grows the array by chunks up to
`kMaxCapacity`, or refuses.

A `ReceiveBuffer` carries `read ≤ write ≤ cap`, so a `commitWrite` beyond the writable
span or a `consume` beyond the readable one cannot be written down : both take the
asserted bound as an argument. The contents are `readable`. `readable_reserveFree` says
that making room, or failing to, leaves them alone; `reserveFree_of_chunk` says when a
buffer of one chunk never grows.
-/

namespace EchoServer

/-- Room asked for when the caller gives no size. -/
def kMinFree : ℕ := 4 * 1024

/-- First capacity, growth unit, and the size a larger buffer shrinks back to. -/
def kChunk : ℕ := 8 * 1024

/-- The buffer never grows beyond this. -/
def kMaxCapacity : ℕ := 16 * 1024

/-- The buffer of a connection : an array, and where reading and writing go on in it. -/
structure ReceiveBuffer where
  /-- The array `buf_` points to, empty while `buf_` is null. -/
  mem : Bytes
  write : ℕ
  read : ℕ
  read_le_write : read ≤ write
  write_le_length : write ≤ mem.length

namespace ReceiveBuffer

variable (b : ReceiveBuffer)

/-- `cap_`. -/
def cap : ℕ := b.mem.length

/-- The bytes that have been written and not consumed. -/
def readableSize : ℕ := b.write - b.read

/-- The bytes that can be written without moving anything. -/
def writableSize : ℕ := b.cap - b.write

/-- The bytes `readable()` points to. -/
def readable : Bytes :=
  (b.mem.drop b.read).take b.readableSize

/-- The readable bytes are those between the two positions. -/
theorem length_readable : b.readable.length = b.readableSize := by
  have h1 := b.read_le_write
  have h2 := b.write_le_length
  simp only [readable, readableSize, List.length_take, List.length_drop]
  omega

/-- The buffer before the first receive. -/
def empty : ReceiveBuffer := ⟨[], 0, 0, le_rfl, le_rfl⟩

/-- An array of its own, with nothing in it. -/
def allocate (capacity : ℕ) : ReceiveBuffer :=
  ⟨List.replicate capacity 0, 0, 0, le_rfl, by simp⟩

/-- Everything has been consumed, and writing begins at the front again. -/
def reset : ReceiveBuffer :=
  ⟨b.mem, 0, 0, le_rfl, Nat.zero_le _⟩

/-- Move the readable bytes to the front of the array. -/
def compact : ReceiveBuffer where
  mem :=
    if 0 < b.readableSize ∧ 0 < b.read then
      b.readable ++ b.mem.drop b.readableSize
    else b.mem
  write := b.readableSize
  read := 0
  read_le_write := Nat.zero_le _
  write_le_length := by
    have h1 := b.write_le_length
    have h2 := b.length_readable
    split_ifs
    · simp [h2]
    · simp only [readableSize]
      omega

/-- A larger array with the readable bytes at its front, unless it would be too large. -/
def grow (add : ℕ) : Option ReceiveBuffer :=
  let newCap := b.cap + add
  if newCap > kMaxCapacity then none
  else some
    { mem := b.readable ++ List.replicate (newCap - b.readableSize) 0
      write := b.readableSize
      read := 0
      read_le_write := Nat.zero_le _
      write_le_length := by simp [b.length_readable] }

/-- The growth that covers `required`, in chunks : `free` is the room there already is. -/
def growthFor (free required add : ℕ) : ℕ :=
  if free + add < required then growthFor free required (add + kChunk) else add
termination_by required - add
decreasing_by
  simp only [kChunk]
  omega

/-- The buffer `reserveFree` looks at : allocated, and back to one chunk when drained. -/
def settle : ReceiveBuffer :=
  let b := if b.mem = [] then allocate kChunk else b
  if b.read = b.write then
    if b.cap > kChunk then allocate kChunk else b.reset
  else b

/-- Make room for `required` bytes. `false` means that the limit is exceeded. -/
def reserveFree (required : ℤ := kMinFree) : Bool × ReceiveBuffer :=
  let required := if required ≤ 0 then kMinFree else required.toNat
  let b := b.settle
  if b.writableSize ≥ required then (true, b)
  else if b.writableSize + b.read ≥ required then (true, b.compact)
  else
    match b.grow (growthFor (b.writableSize + b.read) required kChunk) with
    | none => (false, b)
    | some b => (b.writableSize ≥ required, b)

/-- The kernel stores `data` at the start of the writable span. -/
def fill (data : Bytes) (_h : data.length ≤ b.writableSize) : ReceiveBuffer where
  mem := b.mem.take b.write ++ data ++ b.mem.drop (b.write + data.length)
  write := b.write
  read := b.read
  read_le_write := b.read_le_write
  write_le_length := by
    have := b.write_le_length
    simp only [List.length_append, List.length_take]
    omega

/-- The bytes at the start of the writable span have been written. -/
def commitWrite (bytes : ℕ) (h : bytes ≤ b.writableSize) : ReceiveBuffer where
  mem := b.mem
  write := b.write + bytes
  read := b.read
  read_le_write := by
    have := b.read_le_write
    omega
  write_le_length := by
    have := b.write_le_length
    simp only [writableSize, cap] at h
    omega

/-- The bytes at the front have been read. -/
def consume (bytes : ℕ) (h : bytes ≤ b.readableSize) : ReceiveBuffer where
  mem := b.mem
  write := b.write
  read := b.read + bytes
  read_le_write := by
    have := b.read_le_write
    simp only [readableSize] at h
    omega
  write_le_length := b.write_le_length

variable {b}

/-! ## Capacities -/

theorem cap_fill (data : Bytes) (h : data.length ≤ b.writableSize) :
    (b.fill data h).cap = b.cap := by
  have := b.write_le_length
  simp only [writableSize, cap] at h
  simp only [cap, fill, List.length_append, List.length_take, List.length_drop]
  omega

theorem writableSize_fill (data : Bytes) (h : data.length ≤ b.writableSize) :
    (b.fill data h).writableSize = b.writableSize := by
  rw [writableSize, cap_fill]
  rfl

@[simp] theorem cap_consume (n : ℕ) (h : n ≤ b.readableSize) : (b.consume n h).cap = b.cap :=
  rfl

@[simp] theorem cap_reset : b.reset.cap = b.cap :=
  rfl

@[simp] theorem cap_commitWrite (n : ℕ) (h : n ≤ b.writableSize) :
    (b.commitWrite n h).cap = b.cap :=
  rfl

@[simp] theorem cap_allocate (n : ℕ) : (allocate n).cap = n := by
  simp [cap, allocate]

@[simp] theorem cap_compact : b.compact.cap = b.cap := by
  have h1 := b.write_le_length
  have h2 := b.length_readable
  simp only [cap, compact]
  split_ifs
  · simp only [List.length_append, List.length_drop, h2, readableSize]
    omega
  · rfl

/-! ## Contents -/

theorem readable_eq_nil (h : b.read = b.write) : b.readable = [] := by
  simp [readable, readableSize, h]

@[simp] theorem readable_allocate (n : ℕ) : (allocate n).readable = [] :=
  readable_eq_nil rfl

@[simp] theorem readable_reset : b.reset.readable = [] :=
  readable_eq_nil rfl

@[simp] theorem readable_compact : b.compact.readable = b.readable := by
  have h2 := b.length_readable
  have hsize : b.compact.readableSize = b.readableSize := rfl
  rw [readable, hsize]
  by_cases h : 0 < b.readableSize ∧ 0 < b.read
  · have hmem : b.compact.mem = b.readable ++ b.mem.drop b.readableSize := if_pos h
    rw [hmem]
    exact List.take_left' h2
  · have hmem : b.compact.mem = b.mem := if_neg h
    have hread : b.compact.read = 0 := rfl
    rw [hmem, hread]
    rcases Nat.eq_zero_or_pos b.readableSize with h0 | h0
    · simp [readable, h0]
    · have hr : b.read = 0 := by omega
      rw [readable, hr]

/-- Growing keeps the readable bytes. -/
theorem readable_grow {add : ℕ} {b' : ReceiveBuffer} (h : b.grow add = some b') :
    b'.readable = b.readable := by
  have h2 := b.length_readable
  unfold grow at h
  simp only at h
  split_ifs at h with hcap
  obtain rfl := Option.some.inj h
  exact List.take_left' h2

/-- The first use of a buffer gives it one chunk. -/
theorem settle_of_nil (hmem : b.mem = []) : b.settle = (allocate kChunk).reset := by
  have hrw : (allocate kChunk).read = (allocate kChunk).write := rfl
  simp only [settle, hmem, if_true, hrw, cap_allocate, gt_iff_lt, lt_irrefl, if_false]

@[simp] theorem readable_settle : b.settle.readable = b.readable := by
  by_cases hmem : b.mem = []
  · have hnil : b.readable = [] := by simp [readable, hmem]
    rw [settle_of_nil hmem, readable_reset, hnil]
  unfold settle
  by_cases hrw : b.read = b.write
  · simp only [hmem, hrw, if_true, if_false]
    split_ifs <;> simp [readable_eq_nil hrw]
  · simp [hmem, hrw]

/-- Making room changes no readable byte, whether it succeeds or not. -/
theorem readable_reserveFree (required : ℤ) :
    (b.reserveFree required).2.readable = b.readable := by
  unfold reserveFree
  simp only
  generalize (if required ≤ 0 then kMinFree else required.toNat) = n
  split_ifs
  · simp
  · simp
  · cases hg : b.settle.grow (growthFor (b.settle.writableSize + b.settle.read) n kChunk) with
    | none => simp
    | some b' => simp [readable_grow hg]

/-- Storing `data` and committing it appends it to the contents. -/
theorem readable_fill_commitWrite (data : Bytes) (h : data.length ≤ b.writableSize) :
    ((b.fill data h).commitWrite data.length
      (by rw [writableSize_fill]; exact h)).readable = b.readable ++ data := by
  have h1 := b.read_le_write
  have h2 := b.write_le_length
  have hsize : ((b.fill data h).commitWrite data.length
      (by rw [writableSize_fill]; exact h)).readableSize = b.readableSize + data.length := by
    simp only [readableSize, commitWrite, fill]
    omega
  rw [readable, hsize]
  show ((b.mem.take b.write ++ data ++ _).drop b.read).take _ = _
  rw [List.append_assoc, List.drop_append_of_le_length (by simp; omega), List.drop_take,
    List.take_append, ← readableSize, ← readable, b.length_readable,
    List.take_of_length_le (by rw [b.length_readable]; omega), Nat.add_sub_cancel_left,
    List.take_left]

/-- Consuming drops bytes at the front of the contents. -/
theorem readable_consume (n : ℕ) (h : n ≤ b.readableSize) :
    (b.consume n h).readable = b.readable.drop n := by
  simp only [readable, consume, readableSize, List.drop_take, List.drop_drop]
  congr 1
  omega

/-! ## Room -/

/-- With at most one chunk and the contents small enough, room is made without growing :
the buffer ends at one chunk. -/
theorem reserveFree_of_chunk (hcap : b.cap = 0 ∨ b.cap = kChunk)
    (hsize : b.readableSize + kMinFree ≤ kChunk) :
    b.reserveFree.1 = true ∧ b.reserveFree.2.cap = kChunk ∧
      kMinFree ≤ b.reserveFree.2.writableSize := by
  have hsettle : b.settle.cap = kChunk ∧ b.settle.readableSize + kMinFree ≤ kChunk := by
    rcases hcap with h | h
    · rw [settle_of_nil (List.length_eq_zero_iff.mp h)]
      exact ⟨by simp, by decide⟩
    · have hmem : b.mem ≠ [] := by
        intro hm
        simp [cap, hm, kChunk] at h
      unfold settle
      by_cases hrw : b.read = b.write
      · simp only [hmem, hrw, if_true, if_false, h, gt_iff_lt, lt_irrefl]
        exact ⟨h, by simp [reset, readableSize, kMinFree, kChunk]⟩
      · simp only [hmem, hrw, if_false]
        exact ⟨h, hsize⟩
  generalize hs : b.settle = s at hsettle
  obtain ⟨hc, hr⟩ := hsettle
  have h1 := s.read_le_write
  have h2 : s.write ≤ s.cap := s.write_le_length
  have hroom : s.writableSize + s.read ≥ kMinFree := by
    simp only [writableSize, readableSize] at hr ⊢
    omega
  have hreq : (if (kMinFree : ℤ) ≤ 0 then kMinFree else (kMinFree : ℤ).toNat) = kMinFree := rfl
  simp only [reserveFree, hreq, hs]
  by_cases hw : s.writableSize ≥ kMinFree
  · simp [hw, hc]
  · have hcw : kMinFree ≤ s.compact.writableSize := by
      have hwrite : s.compact.write = s.readableSize := rfl
      rw [writableSize, cap_compact, hwrite]
      omega
    simp [hw, hroom, hc, hcw]

end ReceiveBuffer

end EchoServer
