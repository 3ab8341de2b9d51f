import EchoServer.Net.InboundStream
import EchoServer.System.Transfers

/-!
# A client and its connection

`SimpleClient` of `bench/bot_client.cpp` on one end of a socket, and a connection of the server on
the other. `send_message` writes one frame in as many calls of `::send` as it takes; `recv_message`
peeks at what it has buffered, and calls `::recv` until a whole frame is there. It peeks with the
limit of the server's inbound side, so it turns away a frame that the server may send. No caller
goes on with a client that one of the two has failed.

`dialogue` puts the client, `receiver` and `sender` together : `up` is what the client has written
and no receive has brought yet, and `read` counts the bytes of `wire` that the client has taken.
What the server sends is left open. The receives are those of a connection whose receive handlers
run one at a time and that nobody else closes. `sent` and `received` record the messages of the
client; no step reads them.

`requests_arrive` and `answers_arrive` are the two directions : the messages one end is given are
those that the other end was handed to send, in order, up to the first with a body above the limit.
-/

namespace EchoServer

/-- The buffer of one `::recv` of the client. -/
def kClientChunk : ℕ := 8192

/-- Which call the client is in. -/
inductive ClientPlace where
  | idle
  /-- `send_message`, with what is still to be written. -/
  | sending (rest : Bytes)
  /-- `recv_message`, waiting in `::recv`. -/
  | receiving
  /-- A call has failed. -/
  | left
  deriving DecidableEq

/-- The client, with what it has sent and received. -/
structure SimpleClient where
  /-- `buf_`. -/
  buf : Bytes
  place : ClientPlace
  sent : List Frame
  received : List Frame
  /-- `recv_message` has met a header above the limit. -/
  refused : Bool

namespace SimpleClient

/-- The client before its first call. -/
def fresh : SimpleClient := ⟨[], .idle, [], [], false⟩

/-- `send_message` up to its first `::send`. -/
def sendMessage (f : Frame) (c : SimpleClient) : SimpleClient :=
  { c with place := .sending f.encode, sent := c.sent ++ [f] }

/-- `recv_message` up to its next `::recv`, or to its end. -/
def recvMessage (c : SimpleClient) : SimpleClient :=
  match peekFrame c.buf with
  | .ok view consumed =>
    { c with buf := c.buf.drop consumed, place := .idle, received := c.received ++ [view] }
  | .tooLarge => { c with place := .left, refused := true }
  | .incomplete => { c with place := .receiving }

end SimpleClient

/-- A client and its connection, with the bytes that are under way between them. -/
structure Dialogue where
  client : SimpleClient
  up : Bytes
  server : Receiver
  sender : Sender
  read : ℕ

namespace Dialogue

/-- The connection has been made, and nothing has been sent. -/
def fresh : Dialogue := ⟨.fresh, [], Receiver.fresh.postReceive, .fresh, 0⟩

end Dialogue

/-- One of the two ends goes on. -/
inductive DialogueStep where
  /-- The client calls `send_message`. -/
  | sendMessage (f : Frame)
  /-- `::send` takes `n` bytes. -/
  | write (n : ℕ)
  /-- The client calls `recv_message`. -/
  | recvMessage
  /-- `::recv` brings `n` bytes. -/
  | recv (n : ℕ)
  /-- `::send` or `::recv` fails. -/
  | fail
  /-- A receive of the server completes with `n` bytes. -/
  | receive (n : ℕ) (answers : List Bool)
  | resume (answers : List Bool)
  | send (a : SendStep)

/-- An id is a u16. -/
def SendStep.typed : SendStep → Bool
  | .enter f => f.msgId < 256 ^ 2
  | _ => true

instance (f : Frame) : Decidable f.Fits :=
  inferInstanceAs (Decidable (_ ∧ _))

/-- A client and the connection it has to the server. -/
def dialogue (cfg : SendConfig) : Machine Dialogue DialogueStep where
  init t := t = .fresh
  step t
    | .sendMessage f =>
      if t.client.place = .idle ∧ f.Fits then some { t with client := t.client.sendMessage f }
      else none
    | .write n =>
      match t.client.place with
      | .sending rest =>
        if 0 < n ∧ n ≤ rest.length then
          let place := if n < rest.length then .sending (rest.drop n) else .idle
          some { t with client := { t.client with place }, up := t.up ++ rest.take n }
        else none
      | _ => none
    | .recvMessage =>
      if t.client.place = .idle then some { t with client := t.client.recvMessage } else none
    | .recv n =>
      if t.client.place = .receiving ∧ 0 < n ∧ n ≤ kClientChunk ∧ t.read + n ≤ t.sender.wire.length
      then
        let data := (t.sender.wire.drop t.read).take n
        let client := { t.client with buf := t.client.buf ++ data }
        some { t with client := client.recvMessage, read := t.read + n }
      else none
    | .fail =>
      match t.client.place with
      | .sending _ | .receiving => some { t with client := { t.client with place := .left } }
      | _ => none
    | .receive n answers =>
      if n ≤ t.up.length then
        (receiver.step t.server (.receive (t.up.take n) answers)).map fun server =>
          { t with server, up := t.up.drop n }
      else none
    | .resume answers =>
      (receiver.step t.server (.resume answers)).map fun server => { t with server }
    | .send a =>
      if a.typed then ((sender cfg).step t.sender a).map fun sender => { t with sender } else none

/-! ## Frames at the front of a stream -/

/-- Encoded frames are found again in their stream. -/
theorem frames_flatMap_encode {fs : List Frame} (hfs : ∀ f ∈ fs, f.Fits) :
    frameFormat.frames (fs.flatMap Frame.encode) = fs := by
  have hnil : frameFormat.frames [] = [] := Framing.frames_of_split_none (by decide)
  have h := frameFormat.frames_flatMap_append hfs []
  rwa [List.append_nil, hnil, List.append_nil] at h

/-- A stream of frames that begins with some of them goes on with the others. -/
theorem exists_of_flatMap_append {fs gs : List Frame} {s : Bytes} (hfs : ∀ f ∈ fs, f.Fits)
    (hgs : ∀ f ∈ gs, f.Fits) (h : gs.flatMap Frame.encode ++ s = fs.flatMap Frame.encode) :
    ∃ rest, fs = gs ++ rest ∧ s = rest.flatMap Frame.encode := by
  have hframes : gs ++ frameFormat.frames s = fs := by
    rw [← frames_flatMap_encode hfs, ← h]
    exact (Framing.frames_flatMap_append hgs s).symm
  refine ⟨frameFormat.frames s, hframes.symm, ?_⟩
  rw [← hframes, List.flatMap_append] at h
  exact List.append_cancel_left h

/-- Where a header above the limit is next, so is a message with such a body. -/
theorem exists_oversized {rest : List Frame} {s t : Bytes} (hrest : ∀ f ∈ rest, f.Fits)
    (h : s ++ t = rest.flatMap Frame.encode) (hs : Oversized s) :
    ∃ f, rest.head? = some f ∧ kMaxInboundBody < f.body.length := by
  obtain ⟨hlen, hbig⟩ := hs
  cases rest with
  | nil =>
    obtain ⟨rfl, rfl⟩ : s = [] ∧ t = [] := by simpa using h
    simp [kHeaderSize] at hlen
  | cons f rest =>
    have hload : loadBe32 (s ++ t) = loadBe32 s := by
      have h4 : (s.take 4).length = 4 := by
        rw [List.length_take]
        exact min_eq_left (le_trans (by decide) hlen)
      rw [← List.take_append_drop 4 s, List.append_assoc, loadBe32, loadBe_append h4,
        loadBe_append h4]
    rw [List.flatMap_cons, Frame.encode, List.append_assoc] at h
    rw [h, loadBe32_writeHeader _ (hrest f (by simp)).2] at hload
    exact ⟨f, rfl, hload ▸ hbig⟩

/-- A stream of frames that is short of a whole one has none. -/
theorem eq_nil_of_incomplete {rest : List Frame} (hrest : ∀ f ∈ rest, f.Fits)
    (h : peekFrame (rest.flatMap Frame.encode) = .incomplete) : rest = [] := by
  rw [← frames_flatMap_encode hrest]
  exact Framing.frames_of_split_none (cutFrame_of_peekFrame_incomplete h).1

namespace Sender

variable {cfg : SendConfig} {s s' : Sender} {a : SendStep}

@[simp] theorem calls_postSendLocked (wsaOk : Bool) (s : Sender) :
    (s.postSendLocked wsaOk).calls = s.calls := by
  unfold postSendLocked
  dsimp only
  split_ifs <;> rfl

@[simp] theorem calls_wakeSend (cfg : SendConfig) (flushOk wsaOk : Bool) (s : Sender) :
    (s.wakeSend cfg flushOk wsaOk).calls = s.calls := by
  unfold wakeSend
  split_ifs <;> simp

@[simp] theorem calls_sendLocked (cfg : SendConfig) (f : Frame) (flushOk wsaOk : Bool)
    (s : Sender) : (s.sendLocked cfg f flushOk wsaOk).calls = s.calls := by
  unfold sendLocked
  split <;> simp

/-- What the header can carry is all that `send` is given, and all that it lets through. -/
theorem fits_step (hs : ∀ f ∈ s.calls ++ s.accepted, f.Fits) (ha : a.typed = true)
    (h : (sender cfg).step s a = some s') : ∀ f ∈ s'.calls ++ s'.accepted, f.Fits := by
  cases a with
  | enter f =>
    simp only [sender, Option.some.injEq] at h
    subst h
    simp only [enter]
    split_ifs with hclosed hbig
    · exact hs
    · exact hs
    · have hbody : f.body.length < 256 ^ 4 := by
        simp only [kMaxOutboundBody] at hbig
        omega
      have hf : f.Fits := ⟨of_decide_eq_true ha, hbody⟩
      simp only [List.mem_append, List.mem_singleton] at hs ⊢
      grind
  | sendLocked i flushOk wsaOk =>
    simp only [sender] at h
    split at h <;> cases h
    rename_i f hcall
    intro g hg
    rw [calls_sendLocked, (record_sendLocked ..).1, List.mem_append, List.mem_append] at hg
    obtain hg | hg | hg := hg
    · exact hs g (List.mem_append_left _ (List.mem_of_mem_eraseIdx hg))
    · exact hs g (List.mem_append_right _ hg)
    · obtain rfl : g = f := by
        split_ifs at hg
        · exact List.mem_singleton.mp hg
        · cases hg
      exact hs g (List.mem_append_left _ (List.mem_of_getElem? hcall))
  | onSendDone i ok wsaOk =>
    simp only [sender] at h
    split at h <;> cases h
    simp only [onSendDone]
    split_ifs <;> simpa using hs
  | _ =>
    simp only [sender, onFlush, Sender.transfer] at h
    repeat' split at h
    all_goals cases h
    all_goals simpa [Sender.close] using hs

end Sender

namespace ClientPlace

/-- What the client has still to write. -/
def rest : ClientPlace → Bytes
  | .sending rest => rest
  | _ => []

@[simp] theorem rest_idle : ClientPlace.idle.rest = [] :=
  rfl

@[simp] theorem rest_sending (rest : Bytes) : (ClientPlace.sending rest).rest = rest :=
  rfl

@[simp] theorem rest_receiving : ClientPlace.receiving.rest = [] :=
  rfl

@[simp] theorem rest_left : ClientPlace.left.rest = [] :=
  rfl

end ClientPlace

namespace Receiver

@[simp] theorem arrived_postReceive (c : Receiver) : c.postReceive.arrived = c.arrived := by
  simp only [postReceive]
  split_ifs <;> rfl

@[simp] theorem arrived_readOn (c : Receiver) : c.readOn.arrived = c.arrived := by
  unfold readOn
  split_ifs <;> simp

@[simp] theorem arrived_drainFrames (answers : List Bool) (c : Receiver) :
    (c.drainFrames answers).arrived = c.arrived := by
  fun_induction drainFrames answers c with
  | case4 answers c view consumed h ha hlt c' hclosed ih => exact ih
  | _ => rfl

/-- A completion brings the bytes that it is given. -/
theorem arrived_receive {c c' : Receiver} {data : Bytes} {answers : List Bool}
    (h : receiver.step c (.receive data answers) = some c') : c'.arrived = c.arrived ++ data := by
  simp only [receiver] at h
  split_ifs at h
  cases h
  simp [onReceiveDone]

/-- Resuming receives no byte. -/
theorem arrived_resume {c c' : Receiver} {answers : List Bool}
    (h : receiver.step c (.resume answers) = some c') : c'.arrived = c.arrived := by
  simp only [receiver] at h
  split_ifs at h
  cases h
  simp [onResume]

end Receiver

namespace SimpleClient

variable {c : SimpleClient} {stream : Bytes}

/-- The client's side of what the server sends : `stream` is what it has taken off the socket. -/
structure Takes (c : SimpleClient) (stream : Bytes) : Prop where
  stream_eq : stream = c.received.flatMap Frame.encode ++ c.buf
  inbound : ∀ f ∈ c.received, Inbound f
  waiting : c.place = .receiving → peekFrame c.buf = .incomplete
  refused : c.refused = true → c.place = .left ∧ Oversized c.buf

/-- Waiting for an answer sends nothing. -/
theorem recvMessage_kept (c : SimpleClient) :
    c.recvMessage.sent = c.sent ∧ c.recvMessage.place.rest = [] := by
  unfold SimpleClient.recvMessage
  split <;> exact ⟨rfl, rfl⟩

/-- A look at the buffer takes one message from its front, or says why it does not. -/
theorem Takes.recvMessage (hstream : stream = c.received.flatMap Frame.encode ++ c.buf)
    (hin : ∀ f ∈ c.received, Inbound f) (hopen : c.refused = false) :
    c.recvMessage.Takes stream := by
  unfold SimpleClient.recvMessage
  split
  · rename_i view consumed hpeek
    obtain ⟨hcut, hn, -, hbody⟩ := peekFrame_ok hpeek
    obtain ⟨hbuf, hfit⟩ := encode_of_cutFrame _ _ _ hcut
    refine ⟨?_, ?_, by simp, by simp [hopen]⟩
    · rw [List.flatMap_append, List.flatMap_singleton, List.append_assoc, ← hbuf, hstream]
    · intro f hf
      obtain hf | hf := List.mem_append.mp hf
      · exact hin f hf
      · rw [List.mem_singleton.mp hf]
        exact ⟨hfit, hbody⟩
  · rename_i hpeek
    exact ⟨hstream, hin, by simp, fun _ => ⟨rfl, (peekFrame_tooLarge_iff _).mp hpeek⟩⟩
  · rename_i hpeek
    exact ⟨hstream, hin, fun _ => hpeek, by simp [hopen]⟩

/-- A client that has not left has not been refused. -/
theorem Takes.open_of_place (hc : c.Takes stream) (h : c.place ≠ .left) : c.refused = false := by
  by_contra hr
  exact h (hc.refused (by simpa using hr)).1

end SimpleClient

namespace Dialogue

/-- What holds between two steps. -/
structure Inv (t : Dialogue) : Prop where
  server : receiver.Reaches t.server
  sender : t.sender.Inv
  sent_fits : ∀ f ∈ t.client.sent, f.Fits
  /-- What has arrived, what is on its way and what is still to be written are the messages sent,
  but for the end of the last one when the client has left. -/
  up_eq : ∃ lost, t.server.arrived ++ t.up ++ (t.client.place.rest ++ lost) =
    t.client.sent.flatMap Frame.encode ∧ (t.client.place ≠ .left → lost = [])
  accepted_fits : ∀ f ∈ t.sender.calls ++ t.sender.accepted, f.Fits
  read_le : t.read ≤ t.sender.wire.length
  takes : t.client.Takes (t.sender.wire.take t.read)

variable {t t' : Dialogue}

theorem server_fresh : fresh.server = Receiver.fresh.postReceive := by
  simp only [fresh]

theorem inv_fresh : fresh.Inv where
  server := .init server_fresh
  sender := Sender.inv_fresh
  sent_fits := by simp [fresh, SimpleClient.fresh]
  up_eq := by
    refine ⟨[], ?_, fun _ => rfl⟩
    rw [server_fresh, Receiver.arrived_postReceive]
    rfl
  accepted_fits := by simp [fresh, Sender.fresh]
  read_le := Nat.zero_le _
  takes :=
    { stream_eq := by decide
      inbound := by simp [fresh, SimpleClient.fresh]
      waiting := by simp [fresh, SimpleClient.fresh]
      refused := by simp [fresh, SimpleClient.fresh] }

/-- The client begins a request. -/
theorem Inv.sendMessage (ht : t.Inv) (f : Frame) (hidle : t.client.place = .idle) (hf : f.Fits) :
    ({ t with client := t.client.sendMessage f } : Dialogue).Inv := by
  obtain ⟨lost, hup, hlost⟩ := ht.up_eq
  obtain rfl := hlost (by simp [hidle])
  exact
    { ht with
      sent_fits := by
        intro g hg
        obtain hg | hg := List.mem_append.mp hg
        · exact ht.sent_fits g hg
        · rwa [List.mem_singleton.mp hg]
      up_eq := ⟨[], by
        rw [hidle, ClientPlace.rest_idle] at hup
        simp [SimpleClient.sendMessage, ← hup], fun _ => rfl⟩
      takes :=
        { ht.takes with
          waiting := by simp [SimpleClient.sendMessage]
          refused := by simp [SimpleClient.sendMessage, ht.takes.open_of_place, hidle] } }

/-- Its bytes reach the server. -/
theorem Inv.write (ht : t.Inv) {rest : Bytes} {n : ℕ} (hplace : t.client.place = .sending rest)
    {place : ClientPlace} (hrest : place.rest = rest.drop n)
    (hnext : place ≠ .receiving ∧ place ≠ .left) :
    ({ t with client := { t.client with place }, up := t.up ++ rest.take n } : Dialogue).Inv := by
  obtain ⟨lost, hup, hlost⟩ := ht.up_eq
  obtain rfl := hlost (by simp [hplace])
  exact
    { ht with
      up_eq := ⟨[], by
        rw [hplace, ClientPlace.rest_sending] at hup
        simpa [hrest] using hup, fun _ => rfl⟩
      takes :=
        { ht.takes with
          waiting := fun h => absurd h hnext.1
          refused := by simp [ht.takes.open_of_place, hplace] } }

/-- The client begins to wait. -/
theorem Inv.recvMessage (ht : t.Inv) (hidle : t.client.place = .idle) :
    ({ t with client := t.client.recvMessage } : Dialogue).Inv := by
  obtain ⟨lost, hup, hlost⟩ := ht.up_eq
  obtain rfl := hlost (by simp [hidle])
  obtain ⟨hsent, hrest⟩ := t.client.recvMessage_kept
  have hopen := ht.takes.open_of_place (by simp [hidle])
  exact
    { ht with
      sent_fits := by simpa [hsent] using ht.sent_fits
      up_eq := ⟨[], by simpa [hsent, hrest, hidle] using hup, fun _ => rfl⟩
      takes := SimpleClient.Takes.recvMessage ht.takes.stream_eq ht.takes.inbound hopen }

/-- Bytes of the server reach the client. -/
theorem Inv.recv (ht : t.Inv) {n : ℕ} (hplace : t.client.place = .receiving)
    (hn : t.read + n ≤ t.sender.wire.length) :
    ({ t with
      client :=
        { t.client with buf := t.client.buf ++ (t.sender.wire.drop t.read).take n }.recvMessage
      read := t.read + n } : Dialogue).Inv := by
  obtain ⟨lost, hup, hlost⟩ := ht.up_eq
  obtain rfl := hlost (by simp [hplace])
  rw [hplace, ClientPlace.rest_receiving] at hup
  obtain ⟨hsent, hrest⟩ := SimpleClient.recvMessage_kept
    { t.client with buf := t.client.buf ++ (t.sender.wire.drop t.read).take n }
  have hopen := ht.takes.open_of_place (by simp [hplace])
  have hstream : t.sender.wire.take (t.read + n) =
      t.client.received.flatMap Frame.encode ++
        (t.client.buf ++ (t.sender.wire.drop t.read).take n) := by
    rw [List.take_add, ht.takes.stream_eq, List.append_assoc]
  exact
    { ht with
      sent_fits := by simpa [hsent] using ht.sent_fits
      up_eq := ⟨[], by rw [hsent, hrest]; exact hup, fun _ => rfl⟩
      read_le := hn
      takes := SimpleClient.Takes.recvMessage hstream ht.takes.inbound hopen }

/-- What the client was still to write is lost with it. -/
theorem Inv.fail (ht : t.Inv) :
    ({ t with client := { t.client with place := .left } } : Dialogue).Inv := by
  obtain ⟨lost, hup, -⟩ := ht.up_eq
  exact
    { ht with
      up_eq := ⟨t.client.place.rest ++ lost, by simpa using hup, by simp⟩
      takes :=
        { ht.takes with
          waiting := by simp
          refused := fun h => ⟨rfl, (ht.takes.refused h).2⟩ } }

/-- Bytes on their way arrive. -/
theorem Inv.serve (ht : t.Inv) {a : InboundStep} {server : Receiver}
    (h : receiver.step t.server a = some server) {up : Bytes}
    (hup : server.arrived ++ up = t.server.arrived ++ t.up) :
    ({ t with server, up } : Dialogue).Inv := by
  exact
    { ht with
      server := ht.server.step trivial h
      up_eq := by simpa only [hup] using ht.up_eq }

/-- The server sends. -/
theorem Inv.send (ht : t.Inv) {cfg : SendConfig} {a : SendStep} {sender : Sender}
    (ha : a.typed = true) (h : (EchoServer.sender cfg).step t.sender a = some sender) :
    ({ t with sender } : Dialogue).Inv := by
  obtain ⟨more, hmore⟩ := Sender.wire_step h
  have htake : sender.wire.take t.read = t.sender.wire.take t.read := by
    rw [← hmore, List.take_append_of_le_length ht.read_le]
  exact
    { ht with
      sender := ht.sender.step h
      accepted_fits := Sender.fits_step ht.accepted_fits ha h
      read_le := by
        rw [← hmore, List.length_append]
        exact Nat.le_add_right_of_le ht.read_le
      takes := by rw [htake]; exact ht.takes }

/-- Every step keeps the dialogue. -/
theorem Inv.step {cfg : SendConfig} {a : DialogueStep} (ht : t.Inv)
    (h : (dialogue cfg).step t a = some t') : t'.Inv := by
  cases a with
  | sendMessage f =>
    simp only [dialogue] at h
    split_ifs at h with hok
    cases h
    exact ht.sendMessage f hok.1 hok.2
  | write n =>
    simp only [dialogue] at h
    split at h
    · rename_i rest hplace
      split_ifs at h with hn hmore <;> cases h
      · exact ht.write hplace rfl (by simp)
      · have hall : rest.drop n = [] := List.drop_eq_nil_of_le (by omega)
        exact ht.write hplace hall.symm (by simp)
    · cases h
  | recvMessage =>
    simp only [dialogue] at h
    split_ifs at h with hidle
    cases h
    exact ht.recvMessage hidle
  | recv n =>
    simp only [dialogue] at h
    split_ifs at h with hok
    cases h
    exact ht.recv hok.1 hok.2.2.2
  | fail =>
    simp only [dialogue] at h
    split at h <;> cases h
    all_goals exact ht.fail
  | receive n answers =>
    simp only [dialogue] at h
    split_ifs at h with hn
    obtain ⟨server, hserver, rfl⟩ := Option.map_eq_some_iff.mp h
    refine ht.serve hserver ?_
    rw [Receiver.arrived_receive hserver, List.append_assoc, List.take_append_drop]
  | resume answers =>
    simp only [dialogue] at h
    obtain ⟨server, hserver, rfl⟩ := Option.map_eq_some_iff.mp h
    exact ht.serve hserver (by rw [Receiver.arrived_resume hserver])
  | send a =>
    simp only [dialogue] at h
    split_ifs at h with ha
    obtain ⟨sender, hsender, rfl⟩ := Option.map_eq_some_iff.mp h
    exact ht.send ha hsender

/-- The dialogue is kept in every run. -/
theorem inv_of_reaches {cfg : SendConfig} (h : (dialogue cfg).Reaches t) : t.Inv := by
  refine Machine.Reaches.invariant ?_ (fun s a s' hs hstep => hs.step hstep) h
  rintro s rfl
  exact inv_fresh

/-- The messages the server was given are the first of those sent. -/
theorem Inv.delivered (ht : t.Inv) : ∃ rest lost,
    t.client.sent = t.server.delivered ++ rest ∧ (∀ f ∈ rest, f.Fits) ∧
      t.server.recvBuf.readable ++ (t.up ++ (t.client.place.rest ++ lost)) =
        rest.flatMap Frame.encode ∧ (t.client.place ≠ .left → lost = []) := by
  have hserver := Receiver.inv_of_reaches ht.server
  obtain ⟨lost, hup, hlost⟩ := ht.up_eq
  rw [hserver.arrived_eq, List.append_assoc, List.append_assoc] at hup
  obtain ⟨rest, hsent, hrest⟩ := exists_of_flatMap_append ht.sent_fits
    (fun f hf => (hserver.delivered_inbound f hf).1) hup
  exact ⟨rest, lost, hsent, fun f hf => ht.sent_fits f (by simp [hsent, hf]), hrest, hlost⟩

/-- The messages the client has received are the first of those let through. -/
theorem Inv.received (ht : t.Inv) (hclean : t.sender.Clean) :
    ∃ rest, t.sender.accepted = t.client.received ++ rest ∧ (∀ f ∈ rest, f.Fits) ∧
      t.client.buf ++ (t.sender.wire.drop t.read ++ t.sender.buf.unsent t.sender.transferred) =
        rest.flatMap Frame.encode := by
  have hstream := ht.sender.stream hclean
  rw [← List.take_append_drop t.read t.sender.wire, ht.takes.stream_eq, List.append_assoc,
    List.append_assoc] at hstream
  have hfits : ∀ f ∈ t.sender.accepted, f.Fits := fun f hf =>
    ht.accepted_fits f (List.mem_append_right _ hf)
  obtain ⟨rest, hacc, hrest⟩ := exists_of_flatMap_append hfits
    (fun f hf => (ht.takes.inbound f hf).1) hstream
  exact ⟨rest, hacc, fun f hf => hfits f (by simp [hacc, hf]), hrest⟩

end Dialogue

/-- In every run of a client and its connection, which nobody closes but its receive handlers, one
at a time, and however `::send`, `::recv` and the receives cut the bytes : the server is given the
first of the messages sent, each once and in order, and turns the client away only at a message with
a body above the limit. When all that was sent has arrived and the connection is not paused, it has
been given all before the first such message, and has closed exactly if there is one. -/
theorem requests_arrive {cfg : SendConfig} {t : Dialogue} (h : (dialogue cfg).Reaches t) :
    t.server.delivered <+: t.client.sent ∧
      (t.server.closed = true → ∃ f, t.client.sent[t.server.delivered.length]? = some f ∧
        kMaxInboundBody < f.body.length) ∧
      (t.server.recvPaused = false → t.up = [] →
        (t.client.place = .idle ∨ t.client.place = .receiving) →
          t.server.delivered = t.client.sent.takeWhile (·.body.length ≤ kMaxInboundBody) ∧
          (t.server.closed = true ↔ ∃ f ∈ t.client.sent, kMaxInboundBody < f.body.length)) := by
  have ht := Dialogue.inv_of_reaches h
  have hserver := Receiver.inv_of_reaches ht.server
  obtain ⟨rest, lost, hsent, hfits, hrest, hlost⟩ := ht.delivered
  have hnext : t.server.closed = true →
      ∃ f, rest.head? = some f ∧ kMaxInboundBody < f.body.length := fun hclosed =>
    exists_oversized hfits hrest (hserver.oversized hclosed)
  refine ⟨⟨rest, hsent.symm⟩, fun hclosed => ?_, fun hrun hup hplace => ?_⟩
  · obtain ⟨f, hf, hbig⟩ := hnext hclosed
    refine ⟨f, ?_, hbig⟩
    rw [hsent, List.getElem?_append_right le_rfl, Nat.sub_self, ← List.head?_eq_getElem?, hf]
  · obtain ⟨hidle, hthere⟩ : t.client.place.rest = [] ∧ t.client.place ≠ .left := by
      obtain hp | hp := hplace <;> simp [hp]
    rw [hup, hidle, hlost hthere] at hrest
    simp only [List.append_nil] at hrest
    have harrived : t.server.arrived = t.client.sent.flatMap Frame.encode := by
      rw [hserver.arrived_eq, hsent, List.flatMap_append, hrest]
    refine ⟨?_, fun hclosed => ?_, fun ⟨f, hf, hbig⟩ => ?_⟩
    · rw [delivered_eq_takeWhile hserver hrun, harrived, frames_flatMap_encode ht.sent_fits]
    · obtain ⟨f, hf, hbig⟩ := hnext hclosed
      exact ⟨f, hsent ▸ List.mem_append_right _ (List.mem_of_head? hf), hbig⟩
    · by_contra hopen
      have hwait := hserver.incomplete (by simpa using hopen) hrun
      rw [hrest] at hwait
      obtain rfl := eq_nil_of_incomplete hfits hwait
      rw [hsent, List.append_nil] at hf
      exact absurd (hserver.delivered_inbound f hf).2 (not_le.mpr hbig)

/-- Two messages arrive in pieces, and the body of the second is above the limit. -/
theorem requests_arrive_oversized :
    ∃ t : Dialogue, t.client.sent = [⟨1, [7]⟩, ⟨2, List.replicate 1025 0⟩] ∧
      t.server.closed = true ∧
        t.server.delivered = t.client.sent.takeWhile (·.body.length ≤ kMaxInboundBody) := by
  obtain ⟨t, ht, hp⟩ := (dialogue ⟨true, 0⟩).exists_reachesWhen (fun _ _ => True) .fresh
    [.sendMessage ⟨1, [7]⟩, .write 3, .receive 3 [], .write 4,
      .sendMessage ⟨2, List.replicate 1025 0⟩, .receive 2 [], .write 31, .write 1000,
      .receive 1033 []]
    (fun t => t.client.sent = [⟨1, [7]⟩, ⟨2, List.replicate 1025 0⟩] ∧ t.server.closed = true ∧
      t.server.recvPaused = false ∧ t.up = [] ∧ t.client.place = .idle)
    rfl (by decide +kernel)
  obtain ⟨hsent, hclosed, hrun, hup, hidle⟩ := of_decide_eq_true hp
  exact ⟨t, hsent, hclosed, ((requests_arrive ht).2.2 hrun hup (Or.inl hidle)).1⟩

/-- While every completion of a send was ok and made progress : the client receives the first of
the messages that the server let through, each once and in order, and turns away only one with a
body above the limit. When `recv_message` waits for more, it has returned every message
whose bytes it was brought; so when all is through, it has returned all of them. -/
theorem answers_arrive {cfg : SendConfig} {t : Dialogue} (h : (dialogue cfg).Reaches t)
    (hclean : t.sender.Clean) :
    t.client.received <+: t.sender.accepted ∧
      (t.client.refused = true → ∃ f, t.sender.accepted[t.client.received.length]? = some f ∧
        kMaxInboundBody < f.body.length) ∧
      (t.client.place = .receiving →
        t.client.received = frameFormat.frames (t.sender.wire.take t.read) ∧
        (t.read = t.sender.wire.length → t.sender.buf.unsent t.sender.transferred = [] →
          t.client.received = t.sender.accepted)) := by
  have ht := Dialogue.inv_of_reaches h
  obtain ⟨rest, hacc, hfits, hrest⟩ := ht.received hclean
  refine ⟨⟨rest, hacc.symm⟩, fun hrefused => ?_, fun hplace => ⟨?_, fun hread hunsent => ?_⟩⟩
  · obtain ⟨f, hf, hbig⟩ := exists_oversized hfits hrest (ht.takes.refused hrefused).2
    refine ⟨f, ?_, hbig⟩
    rw [hacc, List.getElem?_append_right le_rfl, Nat.sub_self, ← List.head?_eq_getElem?, hf]
  · have hnone := (cutFrame_of_peekFrame_incomplete (ht.takes.waiting hplace)).1
    have hnil : frameFormat.frames t.client.buf = [] := Framing.frames_of_split_none hnone
    have hframes := frameFormat.frames_flatMap_append
      (fun f hf => (ht.takes.inbound f hf).1) t.client.buf
    rw [hnil, List.append_nil] at hframes
    rw [ht.takes.stream_eq]
    exact hframes.symm
  · have hwait := ht.takes.waiting hplace
    rw [hread, List.drop_length, hunsent, List.append_nil, List.append_nil] at hrest
    rw [hrest] at hwait
    rw [hacc, eq_nil_of_incomplete hfits hwait, List.append_nil]

/-- The server answers with a short message and with one above the limit. -/
theorem answers_arrive_refused :
    ∃ t : Dialogue, t.client.received = [⟨101, [7]⟩] ∧
      ∃ f, t.sender.accepted[t.client.received.length]? = some f ∧
        kMaxInboundBody < f.body.length := by
  let answer : Frame := ⟨102, List.replicate 1025 0⟩
  obtain ⟨t, ht, hp⟩ := (dialogue ⟨true, 0⟩).exists_reachesWhen (fun _ _ => True) .fresh
    [.recvMessage, .send (.enter ⟨101, [7]⟩), .send (.sendLocked 0 true true),
      .send (.enter answer), .send (.transfer 0 7), .recv 2, .recv 5,
      .send (.sendLocked 0 true true), .send (.onSendDone 0 true true), .send (.transfer 0 6),
      .recvMessage, .recv 6]
    (fun t => t.sender.Clean ∧ t.client.received = [⟨101, [7]⟩] ∧ t.client.refused = true)
    rfl (by decide +kernel)
  obtain ⟨hclean, hr, hrefused⟩ := of_decide_eq_true hp
  exact ⟨t, hr, (answers_arrive ht hclean).2.1 hrefused⟩

end EchoServer
