import EchoServer.Lib.Framing
import EchoServer.Proto.ByteOrder

/-!
# Frame boundaries

`proto/frame.h` : a frame is `body_size` (u32), `msg_id` (u16) and `body_size` bytes of
body, in network byte order. `peekFrame` reads the first frame of the bytes a connection
has buffered, `writeHeader` writes the six header bytes.

`frameFormat` is the format alone, without the receiver's limit on the body : a `Framing`
whose encoder is `writeHeader` and the body. `peekFrame_eq` reads `peekFrame` as that
format with the limit put in front : it agrees with the format on a frame within
`kMaxInboundBody`, and refuses at a header above it.
-/

namespace EchoServer

/-- The length of a body, and the id of its message. -/
def kHeaderSize : ℕ := 6

/-- Largest body accepted from a peer. -/
def kMaxInboundBody : ℕ := 1024

/-- Largest body sent to a peer. -/
def kMaxOutboundBody : ℕ := 64 * 1024

/-- A frame's message id and body. In the source the body points into the receive buffer. -/
structure Frame where
  msgId : ℕ
  body : Bytes
  deriving DecidableEq, Repr

/-- What is found at the front of the bytes received. -/
inductive FrameResult where
  /-- One whole frame, and the bytes to consume for it. -/
  | ok (out : Frame) (consumed : ℕ)
  | incomplete
  | tooLarge
  deriving DecidableEq, Repr

/-- Read the frame at the front of `data`. -/
def peekFrame (data : Bytes) : FrameResult :=
  if data.length < kHeaderSize then .incomplete
  else
    let bodySize := loadBe32 data
    if bodySize > kMaxInboundBody then .tooLarge
    else
      let total := kHeaderSize + bodySize
      if data.length < total then .incomplete
      else .ok ⟨loadBe16 (data.drop 4), (data.drop kHeaderSize).take bodySize⟩ total

/-- The six header bytes of a frame. -/
def writeHeader (msgId bodySize : ℕ) : Bytes :=
  storeBe32 bodySize ++ storeBe16 msgId

@[simp] theorem length_writeHeader (msgId bodySize : ℕ) :
    (writeHeader msgId bodySize).length = kHeaderSize := by
  simp [writeHeader, kHeaderSize]

namespace Frame

/-- The frame on the wire : header, then body. -/
def encode (f : Frame) : Bytes :=
  writeHeader f.msgId f.body.length ++ f.body

/-- What the header fields can carry : a u16 id and a u32 length. -/
def Fits (f : Frame) : Prop :=
  f.msgId < 256 ^ 2 ∧ f.body.length < 256 ^ 4

@[simp] theorem length_encode (f : Frame) : f.encode.length = kHeaderSize + f.body.length := by
  simp [encode]

end Frame

/-- The first whole frame of a stream, whatever the size of its body. -/
def cutFrame (s : Bytes) : Option (Frame × Bytes) :=
  if kHeaderSize ≤ s.length ∧ kHeaderSize + loadBe32 s ≤ s.length then
    some (⟨loadBe16 (s.drop 4), (s.drop kHeaderSize).take (loadBe32 s)⟩,
      s.drop (kHeaderSize + loadBe32 s))
  else none

/-- The header gives the length of the body. -/
theorem loadBe32_writeHeader (msgId : ℕ) {n : ℕ} (hn : n < 256 ^ 4) (r : Bytes) :
    loadBe32 (writeHeader msgId n ++ r) = n := by
  rw [writeHeader, List.append_assoc, loadBe32, loadBe_append (length_storeBe32 n), storeBe32,
    loadBe_storeBe, Nat.mod_eq_of_lt hn]

/-- And the id of the message. -/
theorem loadBe16_writeHeader {msgId n : ℕ} (hm : msgId < 256 ^ 2) (r : Bytes) :
    loadBe16 ((writeHeader msgId n ++ r).drop 4) = msgId := by
  rw [writeHeader, List.append_assoc, List.drop_left' (length_storeBe32 n), loadBe16,
    loadBe_append (length_storeBe16 msgId), storeBe16, loadBe_storeBe, Nat.mod_eq_of_lt hm]

/-- A header is determined by the two values read from it. -/
theorem writeHeader_load {s : Bytes} (hs : kHeaderSize ≤ s.length) :
    writeHeader (loadBe16 (s.drop 4)) (loadBe32 s) = s.take kHeaderSize := by
  have h6 : 6 ≤ s.length := hs
  have h4 : (s.take 4).length = 4 := by simp; omega
  have h2 : ((s.drop 4).take 2).length = 2 := by simp; omega
  have hsize : storeBe32 (loadBe32 s) = s.take 4 := by
    have := storeBe_loadBe h4
    rwa [← loadBe_append h4 (s.drop 4), List.take_append_drop] at this
  have hid : storeBe16 (loadBe16 (s.drop 4)) = (s.drop 4).take 2 := by
    have := storeBe_loadBe h2
    rwa [← loadBe_append h2 ((s.drop 4).drop 2), List.take_append_drop] at this
  rw [writeHeader, hsize, hid, ← List.take_add]
  rfl

/-- A frame that was encoded is cut off as it was. -/
theorem cutFrame_encode (f : Frame) (r : Bytes) (hf : f.Fits) :
    cutFrame (f.encode ++ r) = some (f, r) := by
  have hsize := loadBe32_writeHeader f.msgId hf.2 (f.body ++ r)
  have hid := loadBe16_writeHeader (n := f.body.length) hf.1 (f.body ++ r)
  have hdrop : (writeHeader f.msgId f.body.length ++ (f.body ++ r)).drop kHeaderSize =
      f.body ++ r := List.drop_left' (length_writeHeader _ _)
  rw [Frame.encode, List.append_assoc, cutFrame, hsize, hid, hdrop, ← List.drop_drop, hdrop,
    if_pos (by simp)]
  simp

/-- And what is cut off is the encoding of the frame. -/
theorem encode_of_cutFrame (s : Bytes) (f : Frame) (r : Bytes) (h : cutFrame s = some (f, r)) :
    s = f.encode ++ r ∧ f.Fits := by
  unfold cutFrame at h
  split_ifs at h with hs
  obtain ⟨rfl, rfl⟩ : _ = f ∧ _ = r := by simpa using h
  obtain ⟨h6, htotal⟩ := hs
  have hbody : ((s.drop kHeaderSize).take (loadBe32 s)).length = loadBe32 s := by
    simp only [List.length_take, List.length_drop]
    omega
  refine ⟨?_, ?_, ?_⟩
  · rw [Frame.encode, hbody, writeHeader_load h6, List.append_assoc, ← List.drop_drop,
      List.take_append_drop, List.take_append_drop]
  · have h2 : ((s.drop 4).take 2).length = 2 := by
      simp only [List.length_take, List.length_drop]
      have : 6 ≤ s.length := h6
      omega
    have := loadBe_lt 2 h2
    rwa [← loadBe_append h2 ((s.drop 4).drop 2), List.take_append_drop] at this
  · have h4 : (s.take 4).length = 4 := by
      simp only [List.length_take]
      have : 6 ≤ s.length := h6
      omega
    have := loadBe_lt 4 h4
    rw [hbody]
    rwa [← loadBe_append h4 (s.drop 4), List.take_append_drop] at this

/-- The frame format of the protocol. -/
def frameFormat : Framing UInt8 Frame where
  enc := Frame.encode
  Valid := Frame.Fits
  split := cutFrame
  enc_ne_nil f h := by
    have := congrArg List.length h
    simp [kHeaderSize] at this
  split_enc := cutFrame_encode
  enc_of_split := encode_of_cutFrame

theorem split_frameFormat (s : Bytes) : frameFormat.split s = cutFrame s :=
  rfl

/-- A header at the front of `s` announces a body above the inbound limit. -/
def Oversized (s : Bytes) : Prop :=
  kHeaderSize ≤ s.length ∧ kMaxInboundBody < loadBe32 s

instance (s : Bytes) : Decidable (Oversized s) := by
  unfold Oversized
  infer_instance

/-- `peekFrame` is the format behind a check of the announced size. -/
theorem peekFrame_eq (s : Bytes) :
    peekFrame s =
      if Oversized s then .tooLarge
      else match cutFrame s with
        | some (f, _) => .ok f f.encode.length
        | none => .incomplete := by
  unfold peekFrame cutFrame Oversized
  by_cases h6 : s.length < kHeaderSize
  · simp [h6, Nat.not_le_of_lt h6]
  by_cases hbig : loadBe32 s > kMaxInboundBody
  · simp [h6, hbig, Nat.le_of_not_lt h6]
  by_cases htotal : s.length < kHeaderSize + loadBe32 s
  · simp [h6, hbig, htotal, Nat.not_le_of_lt htotal]
  · have hle : loadBe32 s ≤ s.length - kHeaderSize := by omega
    simp [h6, hbig, htotal, Nat.le_of_not_lt h6, Nat.le_of_not_lt htotal, hle]

/-- `peek_frame` refuses a header exactly if it announces too much. -/
theorem peekFrame_tooLarge_iff (s : Bytes) : peekFrame s = .tooLarge ↔ Oversized s := by
  rw [peekFrame_eq]
  split_ifs with h
  · simp [h]
  · cases cutFrame s <;> simp [h]

/-- A frame that is peeked is the first of the stream, within the limit, and its encoding
is what is to be consumed. -/
theorem peekFrame_ok {s : Bytes} {f : Frame} {n : ℕ} (h : peekFrame s = .ok f n) :
    cutFrame s = some (f, s.drop n) ∧ n = f.encode.length ∧ n ≤ s.length ∧
      f.body.length ≤ kMaxInboundBody := by
  rw [peekFrame_eq] at h
  split_ifs at h with hbig
  cases hc : cutFrame s with
  | none => simp [hc] at h
  | some fr =>
    obtain ⟨g, r⟩ := fr
    obtain ⟨rfl, rfl⟩ : g = f ∧ g.encode.length = n := by simpa [hc] using h
    obtain ⟨rfl, hfit⟩ := encode_of_cutFrame s g r hc
    refine ⟨by simp, rfl, by simp, ?_⟩
    by_contra hgt
    refine hbig ⟨by simp; omega, ?_⟩
    rw [Frame.encode, List.append_assoc, loadBe32_writeHeader _ hfit.2]
    omega

/-- An incomplete frame is not cut off, and its header is within the limit. -/
theorem cutFrame_of_peekFrame_incomplete {s : Bytes} (h : peekFrame s = .incomplete) :
    cutFrame s = none ∧ ¬Oversized s := by
  rw [peekFrame_eq] at h
  split_ifs at h with hbig
  refine ⟨?_, hbig⟩
  cases hc : cutFrame s with
  | none => rfl
  | some fr => simp [hc] at h

/-- Bytes that hold neither a whole frame nor an oversized header are fewer than the
largest inbound frame. -/
theorem length_lt_of_peekFrame_incomplete {s : Bytes} (h : peekFrame s = .incomplete) :
    s.length < kHeaderSize + kMaxInboundBody := by
  obtain ⟨hc, hbig⟩ := cutFrame_of_peekFrame_incomplete h
  by_contra hge
  have h6 : kHeaderSize ≤ s.length := by omega
  have hle : loadBe32 s ≤ kMaxInboundBody := by
    by_contra hgt
    exact hbig ⟨h6, by omega⟩
  unfold cutFrame at hc
  rw [if_pos ⟨h6, by omega⟩] at hc
  simp at hc

end EchoServer
