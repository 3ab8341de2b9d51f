import EchoServer.Proto.Frame

/-!
# The send buffer

What `send_mutex_` guards in `net/connection.h` : `send_pending_` collects the frames not
yet issued, `send_staging_` is the buffer given to the kernel, and `sending_` is set while
it is out. Issuing swaps the two (`SendBuffer.stage`), and a completion clears the staged
buffer after `requeue_unsent` has put an untransferred tail back in front of the pending
bytes (`SendBuffer.settle`).

`SendBuffer.unsent` is the bytes still to go out once `sent` bytes of the staged buffer
have been transferred. Staging an idle buffer and settling a completion that made
progress leave it unchanged.
-/

namespace EchoServer

/-- `send_pending_`, `send_staging_` and `sending_`. -/
structure SendBuffer where
  pending : Bytes
  staging : Bytes
  sending : Bool
  deriving DecidableEq, Repr

/-- Put the bytes of `staged` after the first `sent` back in front of `pending`. -/
def requeueUnsent (pending staged : Bytes) (sent : ℕ) : Bytes :=
  if staged.length ≤ sent then pending else staged.drop sent ++ pending

/-- What was not sent goes back before what is pending. -/
theorem requeueUnsent_eq (pending staged : Bytes) (sent : ℕ) :
    requeueUnsent pending staged sent = staged.drop sent ++ pending := by
  unfold requeueUnsent
  split_ifs with h
  · rw [List.drop_of_length_le h, List.nil_append]
  · rfl

namespace SendBuffer

/-- Nothing is to be sent. -/
def empty : SendBuffer := ⟨[], [], false⟩

/-- Append a frame to the pending bytes, unless the bytes not yet sent would go over
`sendLimit`; a limit of 0 is none. -/
def append (sendLimit : ℕ) (f : Frame) (b : SendBuffer) : Option SendBuffer :=
  let queued := b.pending.length + b.staging.length
  let adding := kHeaderSize + f.body.length
  if 0 < sendLimit ∧ sendLimit < queued + adding then none
  else some { b with pending := b.pending ++ f.encode }

/-- Swap the two buffers and clear the pending one. -/
def stage (b : SendBuffer) : SendBuffer :=
  { pending := [], staging := b.pending, sending := true }

/-- The part of `on_send_done` before the next send : whether it failed, and the buffers. -/
def settle (transferred : ℕ) (ok : Bool) (b : SendBuffer) : Bool × SendBuffer :=
  if ok ∧ transferred < b.staging.length then
    if transferred = 0 then (true, { b with staging := [], sending := false })
    else (false,
      { pending := requeueUnsent b.pending b.staging transferred
        staging := []
        sending := false })
  else (!ok, { b with staging := [], sending := false })

/-- The bytes still to go out when `sent` bytes of the staged buffer have gone. -/
def unsent (sent : ℕ) (b : SendBuffer) : Bytes :=
  b.staging.drop sent ++ b.pending

/-- A frame that is accepted is appended to what is pending. -/
theorem append_eq_some {sendLimit : ℕ} {f : Frame} {b b' : SendBuffer}
    (h : b.append sendLimit f = some b') : b' = { b with pending := b.pending ++ f.encode } := by
  simp only [append] at h
  split_ifs at h
  exact (Option.some.inj h).symm

/-- Staging an idle buffer keeps the bytes to go out. -/
theorem unsent_stage {b : SendBuffer} (h : b.staging = []) :
    b.stage.unsent 0 = b.unsent 0 := by
  simp [unsent, stage, h]

@[simp] theorem staging_settle (transferred : ℕ) (ok : Bool) (b : SendBuffer) :
    (b.settle transferred ok).2.staging = [] := by
  unfold settle
  split_ifs <;> rfl

@[simp] theorem sending_settle (transferred : ℕ) (ok : Bool) (b : SendBuffer) :
    (b.settle transferred ok).2.sending = false := by
  unfold settle
  split_ifs <;> rfl

/-- A successful completion that made progress keeps the bytes to go out. -/
theorem unsent_settle {transferred : ℕ} (ht : 0 < transferred) (b : SendBuffer) :
    (b.settle transferred true).2.unsent 0 = b.unsent transferred := by
  unfold settle unsent
  split_ifs with hlt h0
  · omega
  · simp [requeueUnsent_eq]
  · have hle : b.staging.length ≤ transferred := by simpa using hlt
    simp [List.drop_of_length_le hle]

end SendBuffer

end EchoServer
