import EchoServer.Lib.Machine
import EchoServer.Net.ReceiveBuffer
import EchoServer.Proto.Frame

/-!
# The inbound stream of one connection

The receive half of `net/connection.cpp` with the handlers of the connection run one at a
time : `on_receive_done` commits the bytes of a completion, `drain_frames` hands the whole
frames in the buffer to the message handler, and the next receive is posted unless the
connection was closed or paused on the way. `on_resume` drains again from the frame that
was left in the buffer.

The handler is a list of answers, one for each frame it is shown, and answers `true` when
the list is used up. A `false` answer is given after `pause_receive`, as
`Service::post_message` does. `arrived` and `delivered` record the bytes the peer's stream
has brought and the frames the handler accepted; no function reads them.

At the end of a handler the stream so far is the delivered frames, encoded, followed by
the buffer, and unless the connection is paused the buffer starts with neither a whole
frame nor a header above the limit (`Receiver.Inv`). `inbound_exactly_once` reads the
decoding of the stream off that invariant.
-/

namespace EchoServer

/-- The receive side of a connection. -/
structure Receiver where
  recvBuf : ReceiveBuffer
  /-- A `WSARecv` is outstanding. -/
  posted : Bool
  recvPaused : Bool
  closed : Bool
  delivered : List Frame
  arrived : Bytes

namespace Receiver

/-- A connection before its first receive. -/
def fresh : Receiver := ⟨.empty, false, false, false, [], []⟩

/-- The connection is closed. -/
def close (c : Receiver) : Receiver := { c with closed := true }

/-- `post_receive`, with the `WSARecv` accepted by the kernel. -/
def postReceive (c : Receiver) : Receiver :=
  if c.closed then c
  else
    let (room, recvBuf) := c.recvBuf.reserveFree
    if room then { c with recvBuf, posted := true } else close { c with recvBuf }

/-- A frame is not longer than what is readable. -/
theorem consumed_le {c : Receiver} {view : Frame} {consumed : ℕ}
    (h : peekFrame c.recvBuf.readable = .ok view consumed) :
    consumed ≤ c.recvBuf.readableSize := by
  rw [← c.recvBuf.length_readable]
  exact (peekFrame_ok h).2.2.1

/-- Consume the frame at the front of the buffer. -/
def accept (c : Receiver) (view : Frame) (consumed : ℕ)
    (h : peekFrame c.recvBuf.readable = .ok view consumed) : Receiver :=
  { c with
    recvBuf := c.recvBuf.consume consumed (consumed_le h)
    delivered := c.delivered ++ [view] }

/-- Accepting a frame consumes its bytes. -/
theorem readable_accept {c : Receiver} {view : Frame} {consumed : ℕ}
    (h : peekFrame c.recvBuf.readable = .ok view consumed) :
    (c.accept view consumed h).recvBuf.readable = c.recvBuf.readable.drop consumed :=
  ReceiveBuffer.readable_consume consumed (consumed_le h)

/-- So draining comes to an end. -/
theorem readableSize_accept_lt {c : Receiver} {view : Frame} {consumed : ℕ}
    (h : peekFrame c.recvBuf.readable = .ok view consumed) :
    (c.accept view consumed h).recvBuf.readableSize < c.recvBuf.readableSize := by
  obtain ⟨-, hn, -, -⟩ := peekFrame_ok h
  have hle := consumed_le h
  have hpos : 0 < consumed := by simp [hn, kHeaderSize]
  simp only [accept, ReceiveBuffer.consume, ReceiveBuffer.readableSize] at hle ⊢
  omega

/-- Hand the whole frames in the buffer to the message handler. -/
def drainFrames (answers : List Bool) (c : Receiver) : Receiver :=
  match h : peekFrame c.recvBuf.readable with
  | .incomplete => c
  | .tooLarge => c.close
  | .ok view consumed =>
    if answers.headD true then
      have := readableSize_accept_lt h
      let c' := c.accept view consumed h
      if c'.closed then c' else drainFrames answers.tail c'
    else { c with recvPaused := true }
termination_by c.recvBuf.readableSize

/-- The end of both handlers : read on, unless closed or paused. -/
def readOn (c : Receiver) : Receiver :=
  if !c.closed && !c.recvPaused then c.postReceive else c

/-- `on_receive_done` for a completion that brought `data`. -/
def onReceiveDone (data : Bytes) (answers : List Bool) (c : Receiver)
    (h : data.length ≤ c.recvBuf.writableSize) : Receiver :=
  readOn <| drainFrames answers
    { c with
      posted := false
      recvBuf := (c.recvBuf.fill data h).commitWrite data.length
        (by rw [ReceiveBuffer.writableSize_fill]; exact h)
      arrived := c.arrived ++ data }

/-- `on_resume` : the frames that wait are offered again. -/
def onResume (answers : List Bool) (c : Receiver) : Receiver :=
  readOn <| drainFrames answers { c with recvPaused := false }

end Receiver

/-- A handler of the connection runs. -/
inductive InboundStep where
  /-- A receive completes with `data`, and the handler gives `answers`. -/
  | receive (data : Bytes) (answers : List Bool)
  /-- The Resume notice of a paused connection is taken. -/
  | resume (answers : List Bool)

/-- A connection from its start, its handlers one at a time. -/
def receiver : Machine Receiver InboundStep where
  init c := c = Receiver.fresh.postReceive
  step c
    | .receive data answers =>
      if h : c.posted ∧ data ≠ [] ∧ data.length ≤ c.recvBuf.writableSize then
        some (c.onReceiveDone data answers h.2.2)
      else none
    | .resume answers => if c.recvPaused then some (c.onResume answers) else none

/-- A frame of the protocol with a body within the inbound limit. -/
def Inbound (f : Frame) : Prop :=
  f.Fits ∧ f.body.length ≤ kMaxInboundBody

/-- After whole frames within the limit comes a header above it. -/
def AnnouncesOversized (s : Bytes) : Prop :=
  ∃ (fs : List Frame) (r : Bytes),
    s = fs.flatMap Frame.encode ++ r ∧ (∀ f ∈ fs, Inbound f) ∧ Oversized r

namespace Receiver

/-- What the handlers keep at every point between two frames. -/
structure Split (c : Receiver) : Prop where
  arrived_eq : c.arrived = c.delivered.flatMap Frame.encode ++ c.recvBuf.readable
  delivered_inbound : ∀ f ∈ c.delivered, Inbound f
  cap_chunk : c.recvBuf.cap = 0 ∨ c.recvBuf.cap = kChunk

/-- `Split`, and a reason to stop draining. -/
structure Drained (c : Receiver) : Prop extends Split c where
  oversized : c.closed = true → Oversized c.recvBuf.readable
  incomplete : c.closed = false → c.recvPaused = false →
    peekFrame c.recvBuf.readable = .incomplete

/-- What holds between two handlers. -/
structure Inv (c : Receiver) : Prop extends Drained c where
  posted_open : c.closed = false → c.recvPaused = false →
    c.posted = true ∧ kMinFree ≤ c.recvBuf.writableSize
  posted_only : c.posted = true → c.closed = false ∧ c.recvPaused = false
  paused_only : c.recvPaused = true → c.closed = false

/-- Accepting a frame moves it from the buffer to the delivered frames. -/
theorem Split.accept {c : Receiver} {view : Frame} {consumed : ℕ} (hc : Split c)
    (h : peekFrame c.recvBuf.readable = .ok view consumed) :
    Split (c.accept view consumed h) := by
  obtain ⟨hcut, hn, hle, hbody⟩ := peekFrame_ok h
  obtain ⟨hread, hfit⟩ := encode_of_cutFrame _ _ _ hcut
  refine ⟨?_, ?_, hc.cap_chunk⟩
  · show c.arrived = (c.delivered ++ [view]).flatMap Frame.encode ++
      (c.accept view consumed h).recvBuf.readable
    rw [readable_accept, List.flatMap_append, List.append_assoc,
      List.flatMap_singleton, ← hread]
    exact hc.arrived_eq
  · intro f hf
    rcases List.mem_append.mp hf with hf | hf
    · exact hc.delivered_inbound f hf
    · rw [List.mem_singleton.mp hf]
      exact ⟨hfit, hbody⟩

/-- Draining an open, unpaused connection stops for a reason : the buffer is short of a
frame, the handler refused, or the next header is too large. -/
theorem Split.drainFrames {c : Receiver} (answers : List Bool) (hc : Split c)
    (hopen : c.closed = false) (hrun : c.recvPaused = false) :
    Drained (c.drainFrames answers) ∧ (c.drainFrames answers).posted = c.posted ∧
      ((c.drainFrames answers).recvPaused = true →
        (c.drainFrames answers).closed = false) := by
  fun_induction Receiver.drainFrames answers c with
  | case1 answers c h =>
    exact ⟨⟨hc, by simp [hopen], fun _ _ => h⟩, rfl, by simp [hrun]⟩
  | case2 answers c h =>
    refine ⟨⟨⟨hc.arrived_eq, hc.delivered_inbound, hc.cap_chunk⟩, fun _ => ?_, ?_⟩, rfl, ?_⟩
    · exact (peekFrame_tooLarge_iff _).mp h
    · simp [close]
    · simp [close, hrun]
  | case3 answers c view consumed h ha hlt c' hclosed =>
    simp [c', Receiver.accept, hopen] at hclosed
  | case4 answers c view consumed h ha hlt c' hclosed ih =>
    exact ih (hc.accept h) hopen hrun
  | case5 answers c view consumed h ha =>
    exact ⟨⟨⟨hc.arrived_eq, hc.delivered_inbound, hc.cap_chunk⟩, by simp [hopen],
      by simp⟩, rfl, fun _ => hopen⟩

/-- Short of a whole frame, the buffer is short of the largest frame, so room is made in one
chunk. -/
theorem room_of_incomplete {b : ReceiveBuffer} (hcap : b.cap = 0 ∨ b.cap = kChunk)
    (h : peekFrame b.readable = .incomplete) :
    b.readableSize < kHeaderSize + kMaxInboundBody ∧ b.reserveFree.1 = true ∧
      b.reserveFree.2.cap = kChunk ∧ kMinFree ≤ b.reserveFree.2.writableSize := by
  have hlt := length_lt_of_peekFrame_incomplete h
  rw [b.length_readable] at hlt
  have hshort : b.readableSize + kMinFree ≤ kChunk := by
    simp only [kHeaderSize, kMaxInboundBody, kMinFree, kChunk] at hlt ⊢
    omega
  exact ⟨hlt, ReceiveBuffer.reserveFree_of_chunk hcap hshort⟩

/-- Reading on after a drain finds room in one chunk and posts a receive. -/
theorem Drained.readOn {c : Receiver} (hc : Drained c) (hposted : c.posted = false)
    (hp : c.recvPaused = true → c.closed = false) : Inv c.readOn := by
  unfold Receiver.readOn
  by_cases hgo : (!c.closed && !c.recvPaused) = true
  · rw [if_pos hgo]
    obtain ⟨hopen, hrun⟩ : c.closed = false ∧ c.recvPaused = false := by simpa using hgo
    obtain ⟨-, hroom, hcap, hfree⟩ := room_of_incomplete hc.cap_chunk (hc.incomplete hopen hrun)
    have hread := c.recvBuf.readable_reserveFree kMinFree
    have hpost : c.postReceive =
        { c with recvBuf := c.recvBuf.reserveFree.2, posted := true } := by
      simp [postReceive, hopen, hroom]
    rw [hpost]
    refine ⟨⟨⟨?_, hc.delivered_inbound, Or.inr hcap⟩, ?_, ?_⟩, fun _ _ => ⟨rfl, hfree⟩,
      fun _ => ⟨hopen, hrun⟩, fun _ => hopen⟩
    · simpa [hread] using hc.arrived_eq
    · simpa [hread] using hc.oversized
    · simpa [hread] using hc.incomplete
  · rw [if_neg hgo]
    refine ⟨hc, fun h1 h2 => absurd (by simp [h1, h2]) hgo, by simp [hposted], hp⟩

/-- The stream before the first byte. -/
theorem inv_fresh : Inv fresh.postReceive := by
  have hc : Drained fresh :=
    ⟨⟨rfl, by simp [fresh], Or.inl rfl⟩, by simp [fresh], fun _ _ => by decide⟩
  have := hc.readOn rfl (by simp [fresh])
  rwa [readOn, if_pos (by simp [fresh])] at this

/-- Bytes that arrive are appended to the stream, and its frames delivered. -/
theorem Inv.onReceiveDone {c : Receiver} (hc : Inv c) (hposted : c.posted = true)
    (data : Bytes) (answers : List Bool) (h : data.length ≤ c.recvBuf.writableSize) :
    Inv (c.onReceiveDone data answers h) := by
  obtain ⟨hopen, hrun⟩ := hc.posted_only hposted
  have hsplit : Split
      { c with
        posted := false
        recvBuf := (c.recvBuf.fill data h).commitWrite data.length
          (by rw [ReceiveBuffer.writableSize_fill]; exact h)
        arrived := c.arrived ++ data } := by
    refine ⟨?_, hc.delivered_inbound, ?_⟩
    · rw [ReceiveBuffer.readable_fill_commitWrite, hc.arrived_eq, List.append_assoc]
    · simpa [ReceiveBuffer.cap_fill] using hc.cap_chunk
  obtain ⟨hd, hp, hpc⟩ := hsplit.drainFrames answers hopen hrun
  exact hd.readOn hp hpc

/-- Resuming delivers the frames that the pause has held back. -/
theorem Inv.onResume {c : Receiver} (hc : Inv c) (hpaused : c.recvPaused = true)
    (answers : List Bool) : Inv (c.onResume answers) := by
  have hsplit : Split { c with recvPaused := false } :=
    ⟨hc.arrived_eq, hc.delivered_inbound, hc.cap_chunk⟩
  have hposted : c.posted = false := by
    by_contra h
    have := (hc.posted_only (by simpa using h)).2
    simp [hpaused] at this
  obtain ⟨hd, hp, hpc⟩ := hsplit.drainFrames answers (hc.paused_only hpaused) rfl
  exact hd.readOn (hp.trans hposted) hpc

/-- The stream is delivered in order in every run. -/
theorem inv_of_reaches {c : Receiver} (h : receiver.Reaches c) : Inv c := by
  refine Machine.Reaches.invariant ?_ ?_ h
  · intro c hc
    have hc : c = fresh.postReceive := hc
    rw [hc]
    exact inv_fresh
  · intro c a c' hc hstep
    cases a with
    | receive data answers =>
      simp only [receiver] at hstep
      split_ifs at hstep with hok
      obtain rfl := Option.some.inj hstep
      exact hc.onReceiveDone hok.1 data answers hok.2.2
    | resume answers =>
      simp only [receiver] at hstep
      split_ifs at hstep with hok
      obtain rfl := Option.some.inj hstep
      exact hc.onResume hok answers

end Receiver

/-- A stream whose front is oversized starts with no frame within the limit. -/
theorem takeWhile_frames_of_oversized {s : Bytes} (h : Oversized s) :
    (frameFormat.frames s).takeWhile (·.body.length ≤ kMaxInboundBody) = [] := by
  cases hc : cutFrame s with
  | none =>
    have hsplit : frameFormat.split s = none := by rw [split_frameFormat, hc]
    rw [Framing.frames_of_split_none hsplit, List.takeWhile_nil]
  | some fr =>
    obtain ⟨f, r⟩ := fr
    obtain ⟨rfl, hfit⟩ := encode_of_cutFrame s f r hc
    have hbig := h.2
    rw [Frame.encode, List.append_assoc, loadBe32_writeHeader _ hfit.2] at hbig
    have hsplit : frameFormat.split (f.encode ++ r) = some (f, r) := by
      rw [split_frameFormat, hc]
    rw [Framing.frames_of_split hsplit]
    simp [hbig]

/-- The delivered frames are the stream's frames up to the first header above the limit. -/
theorem delivered_eq_takeWhile {c : Receiver} (hc : c.Inv) (hrun : c.recvPaused = false) :
    c.delivered =
      (frameFormat.frames c.arrived).takeWhile (·.body.length ≤ kMaxInboundBody) := by
  have hframes : frameFormat.frames c.arrived =
      c.delivered ++ frameFormat.frames c.recvBuf.readable := by
    rw [hc.arrived_eq]
    exact Framing.frames_flatMap_append (fun f hf => (hc.delivered_inbound f hf).1) _
  have hnone : (frameFormat.frames c.recvBuf.readable).takeWhile
      (·.body.length ≤ kMaxInboundBody) = [] := by
    cases hcl : c.closed with
    | true => exact takeWhile_frames_of_oversized (hc.oversized hcl)
    | false =>
      have hcut := (cutFrame_of_peekFrame_incomplete (hc.incomplete hcl hrun)).1
      rw [Framing.frames_of_split_none hcut]
      rfl
  rw [hframes, List.takeWhile_append_of_pos, hnone, List.append_nil]
  exact fun f hf => by simpa using (hc.delivered_inbound f hf).2

/-- Only a header above the limit closes the connection, and it does so as soon as the
frames before it are delivered. -/
theorem closed_iff_announcesOversized {c : Receiver} (hc : c.Inv) (hrun : c.recvPaused = false) :
    c.closed = true ↔ AnnouncesOversized c.arrived := by
  constructor
  · intro hcl
    exact ⟨c.delivered, _, hc.arrived_eq, hc.delivered_inbound, hc.oversized hcl⟩
  · rintro ⟨fs, r, harr, hfs, hr⟩
    by_contra hcl
    have hcut := cutFrame_of_peekFrame_incomplete
      (hc.incomplete (by simpa using hcl) hrun)
    have hdel : c.delivered = fs := by
      rw [delivered_eq_takeWhile hc hrun, harr,
        show frameFormat.frames (fs.flatMap Frame.encode ++ r) = fs ++ frameFormat.frames r from
          Framing.frames_flatMap_append (fun f hf => (hfs f hf).1) r,
        List.takeWhile_append_of_pos, takeWhile_frames_of_oversized hr, List.append_nil]
      exact fun f hf => by simpa using (hfs f hf).2
    have hread : c.recvBuf.readable = r := by
      have := hc.arrived_eq
      rw [harr, hdel] at this
      exact (List.append_cancel_left this).symm
    exact hcut.2 (hread ▸ hr)

/-- In every run of the receive handlers, whatever the chunks and the refusals : the
frames accepted are a prefix of the decoding of every stream that begins with the bytes
received; while nothing is paused they are all its frames up to the first header above the
limit; and the connection is closed exactly when the stream has reached such a header. -/
theorem inbound_exactly_once {c : Receiver} (h : receiver.Reaches c) :
    (∀ later, c.delivered <+: frameFormat.frames (c.arrived ++ later)) ∧
      (c.recvPaused = false → c.delivered =
        (frameFormat.frames c.arrived).takeWhile (·.body.length ≤ kMaxInboundBody)) ∧
      (c.recvPaused = false → (c.closed = true ↔ AnnouncesOversized c.arrived)) ∧
      (c.recvPaused = true → c.closed = false) := by
  have hc := Receiver.inv_of_reaches h
  refine ⟨fun later => ?_, delivered_eq_takeWhile hc, closed_iff_announcesOversized hc,
    hc.paused_only⟩
  refine ⟨frameFormat.frames (c.recvBuf.readable ++ later), ?_⟩
  rw [hc.arrived_eq, List.append_assoc]
  exact (Framing.frames_flatMap_append (fun f hf => (hc.delivered_inbound f hf).1) _).symm

/-- Two copies of one frame, in chunks that cut the first : the handler refuses the second
frame, and accepts it after the pause. -/
theorem inbound_exactly_once_two_frames :
    ∃ c : Receiver, c.delivered = [⟨1, [7, 8]⟩, ⟨1, [7, 8]⟩] ∧ c.recvPaused = false ∧
      c.delivered =
        (frameFormat.frames c.arrived).takeWhile (·.body.length ≤ kMaxInboundBody) := by
  let fr := (Frame.mk 1 [7, 8]).encode
  obtain ⟨c, hc, hp⟩ := receiver.exists_reachesWhen
    (fun _ _ => True) Receiver.fresh.postReceive
    [.receive (fr.take 3) [], .receive (fr.drop 3 ++ fr) [true, false], .resume []]
    (fun c => c.delivered = [⟨1, [7, 8]⟩, ⟨1, [7, 8]⟩] ∧ c.recvPaused = false)
    rfl (by decide +kernel)
  obtain ⟨hd, hrun⟩ : c.delivered = [⟨1, [7, 8]⟩, ⟨1, [7, 8]⟩] ∧ c.recvPaused = false := by
    simpa using hp
  exact ⟨c, hd, hrun, (inbound_exactly_once hc).2.1 hrun⟩

end EchoServer
