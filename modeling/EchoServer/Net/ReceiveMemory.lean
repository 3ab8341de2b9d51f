import EchoServer.Net.InboundStream

/-!
# The receive memory of a connection

The receive handlers of `InboundStream` among everything that can close the connection while
they run : the message handler itself, another thread, a receive that fails or that the kernel
does not accept. `posts` records the buffer of every call of `post_receive` that finds the
connection open.

Whatever the handler does, a drain that leaves the connection open and not paused has run out
of whole frames (`Receiver.incomplete_drainWith`). What is left is then short of the largest
frame, and the room for the next receive is made in one chunk : the limit of the buffer is
never reached (`receive_limit_never_trips`).
-/

namespace EchoServer

/-- What the message handler does with a frame. -/
structure Answer where
  accepts : Bool
  pauses : Bool
  /-- The connection is closed by the time the handler returns. -/
  closes : Bool
  deriving DecidableEq, Repr

namespace Answer

/-- A handler that answers `false` has paused the connection. -/
def paused (a : Answer) : Bool := a.pauses || !a.accepts

end Answer

namespace Receiver

/-- The state in which the message handler leaves the connection. -/
def handle (a : Answer) (c : Receiver) : Receiver :=
  { c with recvPaused := c.recvPaused || a.paused, closed := c.closed || a.closes }

/-- `drain_frames` with a connection that may be closed while the message handler runs. -/
def drainWith (answers : List Answer) (c : Receiver) : Receiver :=
  match h : peekFrame c.recvBuf.readable with
  | .incomplete => c
  | .tooLarge => c.close
  | .ok view consumed =>
    let answer := answers.headD ⟨true, false, false⟩
    if answer.accepts then
      have := readableSize_accept_lt h
      let c' := (c.accept view consumed h).handle answer
      if c'.closed then c' else drainWith answers.tail c'
    else c.handle answer
termination_by c.recvBuf.readableSize

end Receiver

/-- A connection, with the buffers that its receives were posted with. -/
structure ReceiveRun where
  conn : Receiver
  /-- The buffers that `post_receive` has found on the open connection. -/
  posts : List ReceiveBuffer

namespace ReceiveRun

/-- A connection that another thread may have closed in the meantime. -/
def late (closes : Bool) (r : ReceiveRun) : ReceiveRun :=
  { r with conn := { r.conn with closed := r.conn.closed || closes } }

/-- `post_receive`; `accepted` tells whether the kernel accepts the receive. -/
def postReceive (accepted : Bool) (r : ReceiveRun) : ReceiveRun :=
  if r.conn.closed then r
  else
    let (room, recvBuf) := r.conn.recvBuf.reserveFree
    let c := { r.conn with recvBuf }
    { conn := if room && accepted then { c with posted := true } else c.close
      posts := r.posts ++ [r.conn.recvBuf] }

/-- The end of both handlers : read on, unless closed or paused. -/
def readOn (closes accepted : Bool) (r : ReceiveRun) : ReceiveRun :=
  if !(r.late closes).conn.closed && !r.conn.recvPaused then
    (r.late closes).postReceive accepted
  else r.late closes

/-- `on_receive_done` for a completion that brought `data`. -/
def onReceiveDone (data : Bytes) (answers : List Answer) (closes accepted : Bool)
    (r : ReceiveRun) (h : data.length ≤ r.conn.recvBuf.writableSize) : ReceiveRun :=
  let recvBuf := (r.conn.recvBuf.fill data h).commitWrite data.length
    (by rw [ReceiveBuffer.writableSize_fill]; exact h)
  let c := { r.conn with posted := false, recvBuf, arrived := r.conn.arrived ++ data }
  readOn closes accepted { r with conn := c.drainWith answers }

/-- `on_resume` : the frames that wait are offered again. -/
def onResume (answers : List Answer) (closes accepted : Bool) (r : ReceiveRun) : ReceiveRun :=
  let c := { r.conn with recvPaused := false }
  readOn closes accepted { r with conn := c.drainWith answers }

end ReceiveRun

/-- A handler of the connection runs, or somebody closes it. -/
inductive ReceiveStep where
  /-- A receive completes with `data`. -/
  | receive (data : Bytes) (answers : List Answer) (closes accepted : Bool)
  /-- A receive fails, or the peer has ended its stream. -/
  | fail
  /-- The Resume notice of a paused connection is taken. -/
  | resume (answers : List Answer) (closes accepted : Bool)
  /-- Another thread closes the connection. -/
  | close

/-- A connection from its start, its receive handlers one at a time. -/
def receiveRuns : Machine ReceiveRun ReceiveStep where
  init r := ∃ accepted, r = ReceiveRun.postReceive accepted ⟨.fresh, []⟩
  step r
    | .receive data answers closes accepted =>
      if h : r.conn.posted ∧ data ≠ [] ∧ data.length ≤ r.conn.recvBuf.writableSize then
        some (r.onReceiveDone data answers closes accepted h.2.2)
      else none
    | .fail =>
      if r.conn.posted then some { r with conn := { r.conn with posted := false }.close }
      else none
    | .resume answers closes accepted =>
      if r.conn.recvPaused then some (r.onResume answers closes accepted) else none
    | .close => some { r with conn := r.conn.close }

namespace Receiver

/-- Draining does not grow the buffer. -/
theorem cap_drainWith (answers : List Answer) (c : Receiver) :
    (c.drainWith answers).recvBuf.cap = c.recvBuf.cap := by
  fun_induction drainWith answers c with
  | case1 | case2 | case3 | case5 => rfl
  | case4 _ _ _ _ _ _ _ _ _ _ ih => exact ih

/-- A drain that leaves the connection open and not paused has run out of whole frames. -/
theorem incomplete_drainWith (answers : List Answer) (c : Receiver)
    (hopen : (c.drainWith answers).closed = false)
    (hrun : (c.drainWith answers).recvPaused = false) :
    peekFrame (c.drainWith answers).recvBuf.readable = .incomplete := by
  fun_induction drainWith answers c with
  | case1 _ _ h => exact h
  | case2 => simp [close] at hopen
  | case3 _ _ _ _ _ _ _ _ _ hclosed => simp [hclosed] at hopen
  | case4 _ _ _ _ _ _ _ _ _ _ ih => exact ih hopen hrun
  | case5 _ _ _ _ _ _ hrefused => simp [handle, Answer.paused, hrefused] at hrun

end Receiver

namespace ReceiveRun

/-- A buffer in which `post_receive` makes room in one chunk. -/
structure Roomy (b : ReceiveBuffer) : Prop where
  short : b.readableSize < kHeaderSize + kMaxInboundBody
  room : b.reserveFree.1 = true
  cap_chunk : b.reserveFree.2.cap = kChunk

/-- What holds between two handlers. -/
structure Chunked (r : ReceiveRun) : Prop where
  cap_chunk : r.conn.recvBuf.cap = 0 ∨ r.conn.recvBuf.cap = kChunk
  posts_roomy : ∀ b ∈ r.posts, Roomy b

variable {r : ReceiveRun}

/-- `post_receive` after a drain. -/
theorem Chunked.postReceive (hr : Chunked r)
    (hdrained : r.conn.closed = false → peekFrame r.conn.recvBuf.readable = .incomplete)
    (accepted : Bool) : Chunked (r.postReceive accepted) := by
  unfold ReceiveRun.postReceive
  by_cases hclosed : r.conn.closed = true
  · rwa [if_pos hclosed]
  · rw [if_neg hclosed]
    obtain ⟨hshort, hroom, hcap, -⟩ :=
      Receiver.room_of_incomplete hr.cap_chunk (hdrained (by simpa using hclosed))
    refine ⟨?_, ?_⟩
    · dsimp only
      split_ifs
      · exact Or.inr hcap
      · exact Or.inr hcap
    · intro b hb
      rcases List.mem_append.mp hb with hb | hb
      · exact hr.posts_roomy b hb
      · rw [List.mem_singleton.mp hb]
        exact ⟨hshort, hroom, hcap⟩

/-- The end of a handler that has drained the buffer of `c`. -/
theorem Chunked.readOn_drainWith {c : Receiver} {posts : List ReceiveBuffer}
    (hr : Chunked ⟨c, posts⟩) (answers : List Answer) (closes accepted : Bool) :
    Chunked (ReceiveRun.readOn closes accepted ⟨c.drainWith answers, posts⟩) := by
  have hlate : Chunked (ReceiveRun.late closes ⟨c.drainWith answers, posts⟩) := by
    refine ⟨?_, hr.posts_roomy⟩
    show (c.drainWith answers).recvBuf.cap = 0 ∨ (c.drainWith answers).recvBuf.cap = kChunk
    rw [Receiver.cap_drainWith]
    exact hr.cap_chunk
  unfold ReceiveRun.readOn
  split_ifs with hgo
  · obtain ⟨hopen, hrun⟩ : (ReceiveRun.late closes ⟨c.drainWith answers, posts⟩).conn.closed =
        false ∧ (c.drainWith answers).recvPaused = false := by simpa using hgo
    refine hlate.postReceive (fun _ => ?_) accepted
    refine Receiver.incomplete_drainWith answers c ?_ hrun
    simp only [late, Bool.or_eq_false_iff] at hopen
    exact hopen.1
  · exact hlate

/-- The capacity is a number of chunks in every state that is reached. -/
theorem chunked_of_reaches (h : receiveRuns.Reaches r) : Chunked r := by
  refine Machine.Reaches.invariant ?_ ?_ h
  · intro r hinit
    obtain ⟨accepted, hr⟩ : ∃ accepted, r = ReceiveRun.postReceive accepted ⟨.fresh, []⟩ := hinit
    have hfresh : Chunked ⟨.fresh, []⟩ := ⟨Or.inl rfl, by simp⟩
    rw [hr]
    exact hfresh.postReceive (fun _ => rfl) accepted
  · intro r a r' hr hstep
    cases a with
    | receive data answers closes accepted =>
      simp only [receiveRuns] at hstep
      split_ifs at hstep with hok
      obtain rfl := Option.some.inj hstep
      have hfilled : Chunked
          ⟨{ r.conn with
              posted := false
              recvBuf := (r.conn.recvBuf.fill data hok.2.2).commitWrite data.length
                (by rw [ReceiveBuffer.writableSize_fill]; exact hok.2.2)
              arrived := r.conn.arrived ++ data }, r.posts⟩ :=
        ⟨by simpa [ReceiveBuffer.cap_fill] using hr.cap_chunk, hr.posts_roomy⟩
      exact hfilled.readOn_drainWith answers closes accepted
    | fail =>
      simp only [receiveRuns] at hstep
      split_ifs at hstep
      obtain rfl := Option.some.inj hstep
      exact ⟨hr.cap_chunk, hr.posts_roomy⟩
    | resume answers closes accepted =>
      simp only [receiveRuns] at hstep
      split_ifs at hstep
      obtain rfl := Option.some.inj hstep
      have hresumed : Chunked ⟨{ r.conn with recvPaused := false }, r.posts⟩ :=
        ⟨hr.cap_chunk, hr.posts_roomy⟩
      exact hresumed.readOn_drainWith answers closes accepted
    | close =>
      obtain rfl := Option.some.inj hstep
      exact ⟨hr.cap_chunk, hr.posts_roomy⟩

end ReceiveRun

/-- In every run of the receive handlers of a connection, whatever the stream, its chunks, the
pauses and the closes : each call of `post_receive` on the open connection finds fewer bytes
than the largest frame has, makes room, and leaves a buffer of one chunk; and the buffer is
never larger. -/
theorem receive_limit_never_trips {r : ReceiveRun} (h : receiveRuns.Reaches r) :
    (∀ b ∈ r.posts, b.readableSize < kHeaderSize + kMaxInboundBody ∧ b.reserveFree.1 = true ∧
        b.reserveFree.2.cap = kChunk) ∧
      r.conn.recvBuf.cap ≤ kChunk := by
  have hr := ReceiveRun.chunked_of_reaches h
  refine ⟨fun b hb => ?_, ?_⟩
  · obtain ⟨hshort, hroom, hcap⟩ := hr.posts_roomy b hb
    exact ⟨hshort, hroom, hcap⟩
  · rcases hr.cap_chunk with hcap | hcap
    · simp [hcap]
    · exact hcap.le

/-- A frame is refused, then read again and accepted, and half a frame is left over. -/
theorem receive_limit_never_trips_paused : ∃ r : ReceiveRun, r.posts.length = 2 ∧
    r.conn.recvBuf.readableSize = 3 ∧ r.conn.recvBuf.cap ≤ kChunk := by
  let fr := (Frame.mk 1 [7, 8]).encode
  obtain ⟨r, hr, hp⟩ := receiveRuns.exists_reachesWhen (fun _ _ => True)
    (ReceiveRun.postReceive true ⟨.fresh, []⟩)
    [.receive (fr ++ fr.take 3) [⟨false, true, false⟩] false true, .resume [] false true]
    (fun r => r.posts.length = 2 ∧ r.conn.recvBuf.readableSize = 3)
    ⟨true, rfl⟩ (by decide +kernel)
  obtain ⟨hposts, hsize⟩ := of_decide_eq_true hp
  exact ⟨r, hposts, hsize, (receive_limit_never_trips hr).2⟩

end EchoServer
