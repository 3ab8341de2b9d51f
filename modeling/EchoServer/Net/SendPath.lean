import EchoServer.Lib.Machine
import EchoServer.Net.SendBuffer

/-!
# The send path of one connection

The send half of `net/connection.cpp`, one step for each section under `send_mutex_` :
`send` after its test of `closed_`, `on_flush` and `on_send_done`, with `post_send_locked`
inside them. A step of its own are the test before the lock (`SendStep.enter`), the two
`close` calls that follow a section (`closeFailed`, `closeOverflow`), a `close` by any
other thread, and the kernel taking bytes of a staged buffer (`transfer`).

An operation is outstanding from the call that issues it to the section of its completion
handler : `inFlight` are the `WSASend`s and `flushes` counts the Flush notices. Both a
`WSASend` and the post of a Flush notice may fail at once. `accepted`, `wire` and
`completions` record the frames appended in lock order, the bytes on the socket and the
completions handled; no function reads them.

`Sender.Inv` holds after every step. Its `stream` field is the integrity of the stream
(`outbound_stream_integrity`), and its other fields say who will issue what is pending
(`no_stranded_output`). Sizes are exact : the source stores a staged size in an `int`.
-/

namespace EchoServer

/-- What is set once for every connection before it starts. -/
structure SendConfig where
  /-- Issue from the sending thread; otherwise post a Flush notice. -/
  directSend : Bool
  sendLimit : ℕ

/-- A `WSASend` the kernel holds : its bytes, and how many of them are on the socket. -/
structure Flight where
  bytes : Bytes
  done : ℕ
  deriving DecidableEq, Repr

/-- The send path of a connection, with the calls and the completions that are under way. -/
structure Sender where
  buf : SendBuffer
  flushQueued : Bool
  closed : Bool
  inFlight : List Flight
  flushes : ℕ
  /-- Calls of `send` that found the connection open and wait for the lock. -/
  calls : List Frame
  /-- Failed completion handlers between the lock and their `close`. -/
  failing : ℕ
  /-- Calls of `send` that met the limit, between the lock and their `close`. -/
  overflowing : ℕ
  accepted : List Frame
  wire : Bytes
  completions : List (ℕ × Bool)
  deriving DecidableEq, Repr

namespace Sender

/-- A connection that has sent nothing. -/
def fresh : Sender := ⟨.empty, false, false, [], 0, [], 0, 0, [], [], []⟩

/-- The connection is closed. -/
def close (s : Sender) : Sender := { s with closed := true }

/-- `post_send_locked`; `wsaOk` tells whether `WSASend` is accepted. -/
def postSendLocked (wsaOk : Bool) (s : Sender) : Sender :=
  if s.buf.sending || s.closed || s.buf.pending.isEmpty then s
  else
    let s := { s with buf := s.buf.stage }
    if wsaOk then { s with inFlight := s.inFlight ++ [⟨s.buf.staging, 0⟩] }
    else close { s with buf := { s.buf with sending := false } }

/-- `send` up to the lock. -/
def enter (f : Frame) (s : Sender) : Sender :=
  if s.closed then s
  else if kMaxOutboundBody < f.body.length then s.close
  else { s with calls := s.calls ++ [f] }

/-- The wake-up for a frame just appended : issue it, or leave that to the send or the
Flush notice already out, or post a notice. -/
def wakeSend (cfg : SendConfig) (flushOk wsaOk : Bool) (s : Sender) : Sender :=
  if cfg.directSend then s.postSendLocked wsaOk
  else if s.buf.sending || s.flushQueued then s
  else if flushOk then { s with flushQueued := true, flushes := s.flushes + 1 }
  else s.postSendLocked wsaOk

/-- `send` under the lock. -/
def sendLocked (cfg : SendConfig) (f : Frame) (flushOk wsaOk : Bool) (s : Sender) : Sender :=
  match s.buf.append cfg.sendLimit f with
  | none => { s with overflowing := s.overflowing + 1 }
  | some buf => { s with buf, accepted := s.accepted ++ [f] }.wakeSend cfg flushOk wsaOk

/-- The Flush notice of a connection is taken. -/
def onFlush (wsaOk : Bool) (s : Sender) : Sender :=
  { s with flushQueued := false, flushes := s.flushes - 1 }.postSendLocked wsaOk

/-- `on_send_done` under the lock, for a completion the kernel no longer holds. -/
def onSendDone (transferred : ℕ) (ok wsaOk : Bool) (s : Sender) : Sender :=
  let (fail, buf) := s.buf.settle transferred ok
  let s := { s with buf, completions := s.completions ++ [(transferred, ok)] }
  if fail then { s with failing := s.failing + 1 }
  else if s.closed then s
  else s.postSendLocked wsaOk

/-- The kernel puts `n` more bytes of a send on the socket. -/
def transfer (i : ℕ) (fl : Flight) (n : ℕ) (s : Sender) : Sender :=
  { s with
    inFlight := s.inFlight.set i ⟨fl.bytes, fl.done + n⟩
    wire := s.wire ++ (fl.bytes.drop fl.done).take n }

/-- The bytes of the sends in flight that are on the socket. -/
def transferred (s : Sender) : ℕ := (s.inFlight.map Flight.done).sum

/-- Every send completion so far was ok and had transferred something. -/
def Clean (s : Sender) : Prop := ∀ c ∈ s.completions, 0 < c.1 ∧ c.2 = true

instance (s : Sender) : Decidable s.Clean :=
  inferInstanceAs (Decidable (∀ c ∈ s.completions, 0 < c.1 ∧ c.2 = true))

/-- What is on the socket, then what is still to go out, is the accepted frames. -/
def Whole (s : Sender) : Prop :=
  s.wire ++ s.buf.unsent s.transferred = s.accepted.flatMap Frame.encode

end Sender

/-- A thread goes on with a call, a notice or a completion. -/
inductive SendStep where
  /-- A thread calls `send`. -/
  | enter (f : Frame)
  /-- The `i`-th waiting call of `send` takes the lock. -/
  | sendLocked (i : ℕ) (flushOk wsaOk : Bool)
  | onFlush (wsaOk : Bool)
  /-- The completion of the `i`-th send in flight. -/
  | onSendDone (i : ℕ) (ok wsaOk : Bool)
  | transfer (i n : ℕ)
  | closeFailed
  | closeOverflow
  | close

/-- The send path of one connection. -/
def sender (cfg : SendConfig) : Machine Sender SendStep where
  init s := s = .fresh
  step s
    | .enter f => some (s.enter f)
    | .sendLocked i flushOk wsaOk =>
      match s.calls[i]? with
      | some f => some ({ s with calls := s.calls.eraseIdx i }.sendLocked cfg f flushOk wsaOk)
      | none => none
    | .onFlush wsaOk => if 0 < s.flushes then some (s.onFlush wsaOk) else none
    | .onSendDone i ok wsaOk =>
      match s.inFlight[i]? with
      | some fl =>
        some ({ s with inFlight := s.inFlight.eraseIdx i }.onSendDone fl.done ok wsaOk)
      | none => none
    | .transfer i n =>
      match s.inFlight[i]? with
      | some fl => if fl.done + n ≤ fl.bytes.length then some (s.transfer i fl n) else none
      | none => none
    | .closeFailed => if 0 < s.failing then some { s with failing := s.failing - 1 }.close else none
    | .closeOverflow =>
      if 0 < s.overflowing then some { s with overflowing := s.overflowing - 1 }.close else none
    | .close => some s.close

namespace Sender

/-- What every section keeps, whether or not it has issued what is pending. -/
structure Core (s : Sender) : Prop where
  /-- The kernel holds the staged buffer while `sending_` is set, and nothing else. -/
  flight : s.buf.sending = false ∧ s.inFlight = [] ∨
    s.buf.sending = true ∧ ∃ k ≤ s.buf.staging.length, s.inFlight = [⟨s.buf.staging, k⟩]
  flushes_eq : s.flushes = s.flushQueued.toNat
  idle : s.closed = false → s.buf.sending = false → s.buf.staging = []
  stream : s.Clean → s.wire ++ s.buf.unsent s.transferred = s.accepted.flatMap Frame.encode

/-- What holds outside the lock. -/
structure Inv (s : Sender) : Prop extends Core s where
  issued : s.closed = false → s.failing = 0 → s.buf.pending ≠ [] →
    s.buf.sending = true ∨ s.flushQueued = true

theorem inv_fresh : Inv fresh :=
  ⟨⟨Or.inl ⟨rfl, rfl⟩, rfl, fun _ _ => rfl, fun _ => rfl⟩, fun _ _ h => absurd rfl h⟩

/-- Without a send in flight nothing is being transferred. -/
theorem transferred_of_inFlight_nil {s : Sender} (h : s.inFlight = []) : s.transferred = 0 := by
  simp [transferred, h]

/-- With one, what it has transferred. -/
theorem transferred_of_inFlight {s : Sender} {bytes : Bytes} {k : ℕ}
    (h : s.inFlight = [⟨bytes, k⟩]) : s.transferred = k := by
  simp [transferred, h]

/-- Closing changes no byte. -/
theorem Inv.close {s : Sender} (hs : Inv s) : Inv s.close :=
  ⟨⟨hs.flight, hs.flushes_eq, by simp [Sender.close], hs.stream⟩, by simp [Sender.close]⟩

/-! ## Keeping the stream whole -/

@[simp] theorem completions_postSendLocked (wsaOk : Bool) (s : Sender) :
    (s.postSendLocked wsaOk).completions = s.completions := by
  unfold postSendLocked
  dsimp only
  split_ifs <;> rfl

/-- `post_send_locked` stops at its test, or stages an idle buffer. -/
theorem Core.idle_of_not_stopped {s : Sender} (hs : Core s)
    (h : ¬(s.buf.sending || s.closed || s.buf.pending.isEmpty) = true) :
    s.buf.staging = [] ∧ s.inFlight = [] := by
  obtain ⟨⟨hidle, hopen⟩, -⟩ :
      (s.buf.sending = false ∧ s.closed = false) ∧ s.buf.pending ≠ [] := by
    simpa using h
  refine ⟨hs.idle hopen hidle, ?_⟩
  rcases hs.flight with ⟨-, hnone⟩ | ⟨hsend, -⟩
  · exact hnone
  · simp [hidle] at hsend

/-- Posting a send keeps the bytes together. -/
theorem Whole.postSendLocked {s : Sender} (hw : s.Whole) (hs : Core s) (wsaOk : Bool) :
    (s.postSendLocked wsaOk).Whole := by
  unfold Sender.postSendLocked
  by_cases hstop : (s.buf.sending || s.closed || s.buf.pending.isEmpty) = true
  · rwa [if_pos hstop]
  · rw [if_neg hstop]
    obtain ⟨hstaging, hnone⟩ := hs.idle_of_not_stopped hstop
    have hstream : s.wire ++ s.buf.stage.unsent 0 = s.accepted.flatMap Frame.encode := by
      rw [SendBuffer.unsent_stage hstaging]
      simpa [Whole, transferred_of_inFlight_nil hnone] using hw
    cases wsaOk with
    | true => simpa [Whole, transferred, hnone] using hstream
    | false => simpa [Whole, Sender.close, transferred, hnone, SendBuffer.unsent] using hstream

/-- Appending a frame adds its bytes at the end. -/
theorem Whole.append {s : Sender} (hw : s.Whole) (f : Frame) :
    Whole { s with
      buf := { s.buf with pending := s.buf.pending ++ f.encode }
      accepted := s.accepted ++ [f] } := by
  have hw : s.wire ++ s.buf.unsent s.transferred = s.accepted.flatMap Frame.encode := hw
  unfold Whole
  rw [List.flatMap_append, List.flatMap_singleton, ← hw]
  simp [SendBuffer.unsent, transferred]

/-- Waking keeps the bytes together. -/
theorem Whole.wakeSend {s : Sender} (hw : s.Whole) (hs : Core s) (cfg : SendConfig)
    (flushOk wsaOk : Bool) : (s.wakeSend cfg flushOk wsaOk).Whole := by
  unfold Sender.wakeSend
  split_ifs
  · exact hw.postSendLocked hs wsaOk
  · exact hw
  · exact hw
  · exact hw.postSendLocked hs wsaOk

/-- A completion that loses nothing keeps the stream whole. -/
theorem Whole.settle {s : Sender} (hw : s.Whole) {k : ℕ} {ok : Bool}
    (hone : s.inFlight = [⟨s.buf.staging, k⟩])
    (hkeep : (s.buf.settle k ok).2.unsent 0 = s.buf.unsent k) :
    Whole { s with
      inFlight := []
      buf := (s.buf.settle k ok).2
      completions := s.completions ++ [(k, ok)] } := by
  unfold Whole
  rw [transferred_of_inFlight_nil rfl, hkeep]
  simpa [Whole, transferred_of_inFlight hone] using hw

/-- Bytes the kernel takes leave the unsent part of the staged buffer and reach the wire. -/
theorem Whole.transfer {s : Sender} (hw : s.Whole) {k : ℕ}
    (hone : s.inFlight = [⟨s.buf.staging, k⟩]) (n : ℕ) :
    (s.transfer 0 ⟨s.buf.staging, k⟩ n).Whole := by
  have hfl : (s.transfer 0 ⟨s.buf.staging, k⟩ n).inFlight = [⟨s.buf.staging, k + n⟩] := by
    simp [Sender.transfer, hone]
  have hsplit : s.buf.staging.drop k =
      (s.buf.staging.drop k).take n ++ s.buf.staging.drop (k + n) := by
    rw [← List.drop_drop, List.take_append_drop]
  unfold Whole at hw ⊢
  rw [transferred_of_inFlight hone, SendBuffer.unsent, hsplit] at hw
  rw [transferred_of_inFlight hfl]
  simpa only [Sender.transfer, SendBuffer.unsent, List.append_assoc] using hw

/-! ## One step -/

/-- `post_send_locked` leaves pending bytes only to a send in flight or on a closed
connection. -/
theorem Core.postSendLocked {s : Sender} (hs : Core s) (wsaOk : Bool) :
    Inv (s.postSendLocked wsaOk) := by
  have hstream : (s.postSendLocked wsaOk).Clean → (s.postSendLocked wsaOk).Whole := by
    intro hclean
    refine Whole.postSendLocked (hs.stream ?_) hs wsaOk
    simpa [Clean] using hclean
  unfold Sender.postSendLocked at hstream ⊢
  by_cases hstop : (s.buf.sending || s.closed || s.buf.pending.isEmpty) = true
  · rw [if_pos hstop] at hstream ⊢
    refine ⟨hs, fun hopen _ hne => Or.inl ?_⟩
    simpa [hopen, hne] using hstop
  · rw [if_neg hstop] at hstream ⊢
    obtain ⟨-, hnone⟩ := hs.idle_of_not_stopped hstop
    cases wsaOk with
    | true =>
      exact ⟨⟨Or.inr ⟨rfl, 0, by simp, by simp [hnone]⟩, hs.flushes_eq,
        by simp [SendBuffer.stage], hstream⟩, by simp [SendBuffer.stage]⟩
    | false =>
      exact ⟨⟨Or.inl ⟨rfl, hnone⟩, hs.flushes_eq, by simp [Sender.close], hstream⟩,
        by simp [Sender.close]⟩

/-- A thread that enters `send` has sent nothing yet. -/
theorem Inv.enter {s : Sender} (hs : Inv s) (f : Frame) : Inv (s.enter f) := by
  unfold Sender.enter
  split_ifs
  · exact hs
  · exact hs.close
  · exact ⟨⟨hs.flight, hs.flushes_eq, hs.idle, hs.stream⟩, hs.issued⟩

/-- Appending a frame leaves what is in flight. -/
theorem Core.append {s : Sender} (hs : Core s) (f : Frame) :
    Core { s with
      buf := { s.buf with pending := s.buf.pending ++ f.encode }
      accepted := s.accepted ++ [f] } :=
  ⟨hs.flight, hs.flushes_eq, hs.idle, fun hclean => Whole.append (hs.stream hclean) f⟩

/-- A call of `send` that takes the lock waits no longer. -/
theorem Core.takeCall {s : Sender} (hs : Core s) (i : ℕ) :
    Core { s with calls := s.calls.eraseIdx i } :=
  ⟨hs.flight, hs.flushes_eq, hs.idle, hs.stream⟩

/-- Waking ends the section under the lock. -/
theorem Core.wakeSend {s : Sender} (hs : Core s) (cfg : SendConfig) (flushOk wsaOk : Bool) :
    Inv (s.wakeSend cfg flushOk wsaOk) := by
  unfold Sender.wakeSend
  split_ifs with _ hout
  · exact hs.postSendLocked wsaOk
  · exact ⟨hs, fun _ _ _ => by simpa using hout⟩
  · have hq : s.flushQueued = false := by simp_all
    exact ⟨⟨hs.flight, by simpa [hq] using hs.flushes_eq, hs.idle, hs.stream⟩,
      fun _ _ _ => Or.inr rfl⟩
  · exact hs.postSendLocked wsaOk

/-- The section of `send` under the lock keeps the invariant. -/
theorem Inv.sendLocked {s : Sender} (hs : Inv s) (cfg : SendConfig) (f : Frame)
    (flushOk wsaOk : Bool) : Inv (s.sendLocked cfg f flushOk wsaOk) := by
  unfold Sender.sendLocked
  split
  · exact ⟨⟨hs.flight, hs.flushes_eq, hs.idle, hs.stream⟩, hs.issued⟩
  · rename_i buf hbuf
    obtain rfl := SendBuffer.append_eq_some hbuf
    exact (hs.append f).wakeSend cfg flushOk wsaOk

/-- A Flush notice that is taken is no longer queued. -/
theorem Core.takeFlush {s : Sender} (hs : Core s) :
    Core { s with flushQueued := false, flushes := s.flushes - 1 } := by
  refine ⟨hs.flight, ?_, hs.idle, hs.stream⟩
  have := hs.flushes_eq
  cases h : s.flushQueued <;> simp_all

/-- A flush keeps it. -/
theorem Inv.onFlush {s : Sender} (hs : Inv s) (wsaOk : Bool) : Inv (s.onFlush wsaOk) :=
  hs.takeFlush.postSendLocked wsaOk

/-- Only the one send in flight can complete, or take more bytes. -/
theorem Core.flight_eq {s : Sender} (hs : Core s) {i : ℕ} {fl : Flight}
    (hfl : s.inFlight[i]? = some fl) :
    i = 0 ∧ s.buf.sending = true ∧ ∃ k ≤ s.buf.staging.length,
      fl = ⟨s.buf.staging, k⟩ ∧ s.inFlight = [⟨s.buf.staging, k⟩] := by
  obtain ⟨-, hnone⟩ | ⟨hsend, k, hk, hone⟩ := hs.flight
  · simp [hnone] at hfl
  · rw [hone, List.getElem?_singleton] at hfl
    split_ifs at hfl with hi
    exact ⟨hi, hsend, k, hk, (Option.some.inj hfl).symm, hone⟩

/-- The state in which a completion leaves the buffers. -/
theorem Core.settle {s : Sender} (hs : Core s) {k : ℕ}
    (hone : s.inFlight = [⟨s.buf.staging, k⟩]) (ok : Bool) :
    Core { s with
      inFlight := []
      buf := (s.buf.settle k ok).2
      completions := s.completions ++ [(k, ok)] } := by
  refine ⟨Or.inl ⟨by simp, rfl⟩, hs.flushes_eq, fun _ _ => by simp, fun hclean => ?_⟩
  obtain ⟨hpos, rfl⟩ := hclean (k, ok) (by simp)
  have hpre : s.Clean := fun c hc => hclean c (by simp [hc])
  exact Whole.settle (hs.stream hpre) hone (SendBuffer.unsent_settle hpos s.buf)

/-- A completion of the only send in flight returns its tail to the pending bytes, or
marks the handler as failing. -/
theorem Inv.onSendDone {s : Sender} (hs : Inv s) {i : ℕ} {fl : Flight}
    (hfl : s.inFlight[i]? = some fl) (ok wsaOk : Bool) :
    Inv ({ s with inFlight := s.inFlight.eraseIdx i }.onSendDone fl.done ok wsaOk) := by
  obtain ⟨rfl, -, k, -, rfl, hone⟩ := hs.flight_eq hfl
  have hcore := hs.settle hone ok
  unfold Sender.onSendDone
  simp only [hone, List.eraseIdx_cons_zero]
  split_ifs with hfail hclosed
  · exact ⟨⟨hcore.flight, hcore.flushes_eq, hcore.idle, hcore.stream⟩, by simp⟩
  · exact ⟨hcore, by simp [hclosed]⟩
  · exact hcore.postSendLocked wsaOk

/-- Bytes that the system takes are on the wire. -/
theorem Inv.transfer {s : Sender} (hs : Inv s) {i n : ℕ} {fl : Flight}
    (hfl : s.inFlight[i]? = some fl) (hn : fl.done + n ≤ fl.bytes.length) :
    Inv (s.transfer i fl n) := by
  obtain ⟨rfl, hsend, k, -, rfl, hone⟩ := hs.flight_eq hfl
  have hfl' : (s.transfer 0 ⟨s.buf.staging, k⟩ n).inFlight = [⟨s.buf.staging, k + n⟩] := by
    simp [Sender.transfer, hone]
  exact ⟨⟨Or.inr ⟨hsend, k + n, hn, hfl'⟩, hs.flushes_eq, hs.idle,
    fun hclean => Whole.transfer (hs.stream hclean) hone n⟩, hs.issued⟩

/-- Every step keeps the invariant. -/
theorem Inv.step {cfg : SendConfig} {s s' : Sender} {a : SendStep} (hs : Inv s)
    (h : (sender cfg).step s a = some s') : Inv s' := by
  cases a with
  | enter f =>
    obtain rfl := Option.some.inj h
    exact hs.enter f
  | sendLocked i flushOk wsaOk =>
    simp only [sender] at h
    split at h
    · obtain rfl := Option.some.inj h
      have hcall : Inv { s with calls := s.calls.eraseIdx i } := ⟨hs.takeCall i, hs.issued⟩
      exact hcall.sendLocked cfg _ flushOk wsaOk
    · cases h
  | onFlush wsaOk =>
    simp only [sender] at h
    split_ifs at h
    obtain rfl := Option.some.inj h
    exact hs.onFlush wsaOk
  | onSendDone i ok wsaOk =>
    simp only [sender] at h
    split at h
    · rename_i fl hfl
      obtain rfl := Option.some.inj h
      exact hs.onSendDone hfl ok wsaOk
    · cases h
  | transfer i n =>
    simp only [sender] at h
    split at h
    · rename_i fl hfl
      split_ifs at h with hn
      obtain rfl := Option.some.inj h
      exact hs.transfer hfl hn
    · cases h
  | closeFailed =>
    simp only [sender] at h
    split_ifs at h
    obtain rfl := Option.some.inj h
    exact ⟨⟨hs.flight, hs.flushes_eq, by simp [Sender.close], hs.stream⟩, by simp [Sender.close]⟩
  | closeOverflow =>
    simp only [sender] at h
    split_ifs at h
    obtain rfl := Option.some.inj h
    exact ⟨⟨hs.flight, hs.flushes_eq, by simp [Sender.close], hs.stream⟩, by simp [Sender.close]⟩
  | close =>
    obtain rfl := Option.some.inj h
    exact hs.close

/-- It holds in every state that is reached. -/
theorem inv_of_reaches {cfg : SendConfig} {s : Sender} (h : (sender cfg).Reaches s) : Inv s := by
  refine Machine.Reaches.invariant ?_ (fun s a s' hs hstep => hs.step hstep) h
  rintro s rfl
  exact inv_fresh

/-! ## Closed stays closed -/

@[simp] theorem closed_close (s : Sender) : s.close.closed = true :=
  rfl

theorem closed_postSendLocked {s : Sender} (h : s.closed = true) (wsaOk : Bool) :
    (s.postSendLocked wsaOk).closed = true := by
  simp [postSendLocked, h]

theorem closed_sendLocked {s : Sender} (h : s.closed = true) (cfg : SendConfig) (f : Frame)
    (flushOk wsaOk : Bool) : (s.sendLocked cfg f flushOk wsaOk).closed = true := by
  simp only [sendLocked, wakeSend]
  repeat' split
  all_goals first | exact h | exact closed_postSendLocked (by exact h) wsaOk

/-- A connection that is closed stays closed. -/
theorem closed_step {cfg : SendConfig} {s s' : Sender} {a : SendStep} (hc : s.closed = true)
    (h : (sender cfg).step s a = some s') : s'.closed = true := by
  cases a with
  | sendLocked i flushOk wsaOk =>
    simp only [sender] at h
    split at h <;> cases h
    exact closed_sendLocked (by exact hc) _ _ _ _
  | onFlush wsaOk =>
    simp only [sender] at h
    split_ifs at h
    cases h
    exact closed_postSendLocked (by exact hc) wsaOk
  | onSendDone i ok wsaOk =>
    simp only [sender] at h
    split at h <;> cases h
    simp only [onSendDone]
    split_ifs <;> simp_all
  | _ =>
    simp only [sender, enter] at h
    repeat' split at h
    all_goals cases h
    all_goals simp_all [Sender.transfer]

end Sender

/-- While every completion was ok and made progress, what is on the socket, the rest of
the staged buffer and the pending bytes are the accepted frames in the order they took
the lock; so the socket has a prefix of them. -/
theorem outbound_stream_integrity {cfg : SendConfig} {s : Sender}
    (h : (sender cfg).Reaches s) (hclean : s.Clean) :
    s.wire ++ s.buf.staging.drop s.transferred ++ s.buf.pending =
        s.accepted.flatMap Frame.encode ∧
      s.wire <+: s.accepted.flatMap Frame.encode := by
  have hstream := (Sender.inv_of_reaches h).stream hclean
  rw [SendBuffer.unsent] at hstream
  exact ⟨by rw [List.append_assoc]; exact hstream, ⟨_, hstream⟩⟩

/-- A frame goes out in three pieces while another is appended. -/
theorem outbound_stream_integrity_partial :
    ∃ s : Sender, s.accepted = [⟨101, [1, 2]⟩, ⟨102, [3]⟩] ∧
      s.completions = [(3, true), (4, true)] ∧ s.transferred = 5 ∧
      s.wire ++ s.buf.staging.drop s.transferred ++ s.buf.pending =
        s.accepted.flatMap Frame.encode := by
  obtain ⟨s, hs, hp⟩ := (sender ⟨true, 64⟩).exists_reachesWhen
    (fun _ _ => True) .fresh
    ([.enter ⟨101, [1, 2]⟩, .sendLocked 0 true true, .enter ⟨102, [3]⟩,
      .transfer 0 3, .sendLocked 0 true true, .onSendDone 0 true true, .transfer 0 4,
      .onSendDone 0 true true, .transfer 0 5])
    (fun s => s.Clean ∧ s.accepted = [⟨101, [1, 2]⟩, ⟨102, [3]⟩] ∧
      s.completions = [(3, true), (4, true)] ∧ s.transferred = 5)
    rfl (by decide +kernel)
  obtain ⟨hclean, ha, hc, ht⟩ := of_decide_eq_true hp
  exact ⟨s, ha, hc, ht, (outbound_stream_integrity hs hclean).1⟩

/-- At most one `WSASend` is out, exactly while `sending_` is set; and what is pending on
an open connection with no handler about to close it has a send or a Flush notice out. -/
theorem no_stranded_output {cfg : SendConfig} {s : Sender} (h : (sender cfg).Reaches s) :
    s.inFlight.length ≤ 1 ∧ (s.buf.sending = true ↔ s.inFlight.length = 1) ∧
      (s.closed = false → s.failing = 0 → s.buf.pending ≠ [] →
        s.inFlight ≠ [] ∨ 0 < s.flushes) := by
  have hs := Sender.inv_of_reaches h
  obtain ⟨hidle, hnone⟩ | ⟨hsend, k, -, hone⟩ := hs.flight
  · refine ⟨by simp [hnone], by simp [hidle, hnone], fun hopen hf hne => Or.inr ?_⟩
    rcases hs.issued hopen hf hne with hs' | hq
    · simp [hidle] at hs'
    · simp [hs.flushes_eq, hq]
  · exact ⟨by simp [hone], by simp [hsend, hone], fun _ _ _ => Or.inl (by simp [hone])⟩

/-- In notify mode a frame appended during a send waits for its completion, and one
appended to an idle connection for its Flush notice. -/
theorem no_stranded_output_notify :
    ∃ s : Sender, s.closed = false ∧ s.failing = 0 ∧ s.buf.pending ≠ [] ∧
      s.buf.sending = false ∧ (s.inFlight ≠ [] ∨ 0 < s.flushes) := by
  obtain ⟨s, hs, hp⟩ := (sender ⟨false, 0⟩).exists_reachesWhen
    (fun _ _ => True) .fresh
    ([.enter ⟨101, [1, 2]⟩, .sendLocked 0 true true, .onFlush true, .transfer 0 8,
      .onSendDone 0 true true, .enter ⟨102, [3]⟩, .sendLocked 0 true true])
    (fun s => s.closed = false ∧ s.failing = 0 ∧ s.buf.pending ≠ [] ∧
      s.buf.sending = false)
    rfl (by decide +kernel)
  obtain ⟨hopen, hf, hne, hidle⟩ := of_decide_eq_true hp
  exact ⟨s, hopen, hf, hne, hidle, (no_stranded_output hs).2.2 hopen hf hne⟩

end EchoServer
