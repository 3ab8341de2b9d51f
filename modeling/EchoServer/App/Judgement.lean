import EchoServer.App.Handlers
import EchoServer.Proto.Fields

/-!
# How request bodies are judged

The protocol gives every request one typed field for its body. `ClientRequest` is a request in
these terms, with the body it is sent as, and `ClientRequest.judgement` is what the table of
error codes says about it. `serve` is what the server does with the frame : the routing table,
the copy of the body in the event, and the handler of the service.

The two agree on every body that the event can carry, and a body that is no such field is
refused as invalid (`body_judged`). A longer body is never looked at and is answered as a
payload that is too long.
-/

namespace EchoServer

/-- The answer to a request, and whether the connection is closed after it. -/
inductive Judgement where
  | error (code : ErrorCode) (closed : Bool)
  | executed
  deriving DecidableEq, Repr

/-- `send_error` closes the connection after a fatal code. -/
def Verdict.judgement {α : Type} : Verdict α → Judgement
  | refuse code _ => .error code code.isFatal
  | reply _ | pass _ => .executed

namespace Verdict

/-- What is passed on is passed on as something else. -/
def map {α β : Type} (g : α → β) : Verdict α → Verdict β
  | reply f => .reply f
  | refuse code detail => .refuse code detail
  | pass a => .pass (g a)

end Verdict

/-- What becomes of a frame once its event reaches the service : a database request, a text to
broadcast, or an answer. -/
def serve (unixMs connId index : ℕ) (view : Frame) : Option (Verdict (Request ⊕ Bytes)) :=
  (route view.msgId).map fun
    | .game => (onMessage unixMs (.ofFrame connId index view)).map .inl
    | .chat => (onChatMessage (.ofFrame connId index view)).map .inr

/-! ## The requests of the protocol -/

/-- A request with the fields that the protocol gives it. -/
inductive ClientRequest where
  | echo (payload : FieldKind.str.Value)
  | save (payload : FieldKind.str.Value)
  | history (limit : UInt16)
  | counter (requestKey : FieldKind.str.Value) (length_eq : requestKey.val.length = 36)
  | ping (clientTimeMs : UInt64)
  | chat (text : FieldKind.str.Value)

namespace ClientRequest

/-- The id that a client sends the request under. -/
def msgId : ClientRequest → ℕ
  | echo _ => kEchoReq
  | save _ => kSaveReq
  | history _ => kHistoryReq
  | counter _ _ => kCounterReq
  | ping _ => kPingReq
  | chat _ => kChatReq

/-- The field that is the whole body. -/
def field : ClientRequest → Field
  | echo s | save s | counter s _ | chat s => ⟨.str, s⟩
  | history limit => ⟨.u16, limit⟩
  | ping clientTimeMs => ⟨.u64, clientTimeMs⟩

/-- The body that a client sends the request with. -/
def body (r : ClientRequest) : Bytes := (ByteWriter.scratch.writeAll [r.field]).data

/-- What the table of error codes says. -/
def judgement : ClientRequest → Judgement
  | echo s | save s | chat s =>
    if kMaxPayloadBytes < s.val.length then .error .payloadTooLong false else .executed
  | history limit =>
    if limit.toNat < kMinHistoryLimit ∨ kMaxHistoryLimit < limit.toNat then
      .error .limitOutOfRange false
    else .executed
  | counter _ _ | ping _ => .executed

/-- What it means to execute a request. -/
def execution (unixMs : ℕ) : ClientRequest → Verdict (Request ⊕ Bytes)
  | echo payload => .reply ⟨kEchoAck, (ByteWriter.scratch.str payload.val).data⟩
  | save payload => .pass (.inl { Request.ofKind .save with payload := payload.val })
  | history limit => .pass (.inl { Request.ofKind .history with limit := limit.toNat })
  | counter requestKey _ =>
    .pass (.inl { Request.ofKind .counter with requestKey := requestKey.val })
  | ping clientTimeMs =>
    .reply ⟨kPongAck, ((ByteWriter.scratch.u64 clientTimeMs.toNat).u64 unixMs).data⟩
  | chat text => .pass (.inr text.val)

end ClientRequest

/-- The verdict is the one that the protocol asks for a request with this id and body : on a body
that is no request of the protocol, `INVALID_FIELD` and a close. -/
structure JudgedAs (unixMs msgId : ℕ) (body : Bytes) (v : Verdict (Request ⊕ Bytes)) : Prop where
  judgement : ∀ r : ClientRequest, r.msgId = msgId → r.body = body → v.judgement = r.judgement
  execution : ∀ r : ClientRequest, r.msgId = msgId → r.body = body → r.judgement = .executed →
    v = r.execution unixMs
  invalid : (∀ r : ClientRequest, r.msgId = msgId → r.body ≠ body) →
    v.judgement = .error .invalidField true

/-! ## One field -/

namespace ByteReader

/-- A body that is one field is read as that field, and only such a body is read to its last
byte. -/
theorem field_ofBody (k : FieldKind) (body : Bytes) :
    (∀ v, body = (ByteWriter.scratch.field k v).data →
        ((ofBody body).field k).1 = v ∧ ((ofBody body).field k).2.consumedAll = true) ∧
      (((ofBody body).field k).2.consumedAll = true →
        body = (ByteWriter.scratch.field k ((ofBody body).field k).1).data) := by
  have hrest : (ofBody body).rest = body := rfl
  have hpos := pos_field_le (r := ofBody body) (Nat.zero_le _) k
  have hwritten : ∀ v, body = (fieldCodec k).enc v → (fieldCodec k).dec body = some (v, []) := by
    rintro v rfl
    simpa using (fieldCodec k).dec_enc v []
  simp only [ByteWriter.data_field, ByteWriter.scratch, List.nil_append]
  rw [consumedAll_iff hpos]
  rcases reads_field k (ofBody body) with ⟨-, v, n, hdec, hn, heq⟩ | ⟨hdec, n, -, -, heq⟩
  · have hleft : ((ofBody body).field k).2.rest = body.drop n := by
      rw [heq]
      simp [rest, ofBody]
    have hok : ((ofBody body).field k).2.ok = true := by rw [heq]; rfl
    rw [hrest] at hdec
    rw [hleft, hok, heq]
    refine ⟨fun v' hv' => ?_, fun h => ?_⟩
    · obtain ⟨rfl, hnil⟩ := Prod.mk.inj (Option.some.inj (hdec.symm.trans (hwritten v' hv')))
      exact ⟨rfl, rfl, hnil⟩
    · have hall := (fieldCodec k).enc_of_dec body v _ hdec
      rwa [h.2, List.append_nil] at hall
  · have hok : ((ofBody body).field k).2.ok = false := by rw [heq]
    refine ⟨fun v hv => ?_, fun h => ?_⟩
    · have hnone := hdec rfl
      rw [hrest, hwritten v hv] at hnone
      cases hnone
    · simp [hok] at h

/-- A number of `n` bytes is below `256 ^ n`. -/
theorem uint_lt (n : ℕ) (r : ByteReader) : (r.uint n).1 < 256 ^ n := by
  unfold uint
  dsimp only
  split_ifs
  · exact loadBe_lt_pow _ _
  · exact Nat.pos_of_ne_zero (by positivity)

end ByteReader

/-! ## The handlers -/

/-- The body of a request is its one field, written. -/
theorem ClientRequest.body_eq (r : ClientRequest) :
    r.body = (ByteWriter.scratch.field r.field.1 r.field.2).data :=
  rfl

@[simp] theorem Verdict.judgement_map {α β : Type} (g : α → β) (v : Verdict α) :
    (v.map g).judgement = v.judgement := by
  cases v <;> rfl

variable {unixMs msgId : ℕ} {body : Bytes}

/-- A handler whose body is one string of bounded length; `make` are its requests. -/
theorem judgedAs_withPayload {α : Type} (make : FieldKind.str.Value → ClientRequest) (what : String)
    (next : Bytes → Verdict α) (g : α → Request ⊕ Bytes)
    (hmake : ∀ r : ClientRequest, r.msgId = msgId → ∃ s, r = make s)
    (hid : ∀ s, (make s).msgId = msgId) (hfield : ∀ s, (make s).field = ⟨.str, s⟩)
    (hjudge : ∀ s, (make s).judgement =
      if kMaxPayloadBytes < s.val.length then .error .payloadTooLong false else .executed)
    (hnext : ∀ s, (next s.val).map g = (make s).execution unixMs ∧
      (next s.val).judgement = .executed) :
    JudgedAs unixMs msgId body ((withPayload body what next).map g) := by
  have hbody : ∀ s, (make s).body = (ByteWriter.scratch.field .str s).data := fun s => by
    rw [ClientRequest.body_eq, hfield]
  obtain ⟨hread, hall⟩ := ByteReader.field_ofBody .str body
  have hserved : ∀ s, (make s).body = body → (withPayload body what next).map g =
      if kMaxPayloadBytes < s.val.length then .refuse .payloadTooLong "512 bytes max"
      else (make s).execution unixMs := by
    intro s hs
    obtain ⟨hvalue, hconsumed⟩ := hread s (hs.symm.trans (hbody s))
    have hstr : (ByteReader.ofBody body).str.1 = s.val := congrArg Subtype.val hvalue
    have hconsumed : (ByteReader.ofBody body).str.2.consumedAll = true := hconsumed
    simp only [withPayload, hconsumed, hstr, Bool.not_true, Bool.false_eq_true, if_false]
    split_ifs
    · rfl
    · exact (hnext s).1
  refine ⟨fun r hr hb => ?_, fun r hr hb hexec => ?_, fun hnone => ?_⟩
  · obtain ⟨s, rfl⟩ := hmake r hr
    rw [hserved s hb, hjudge]
    split_ifs
    · rfl
    · rw [← (hnext s).1, Verdict.judgement_map, (hnext s).2]
  · obtain ⟨s, rfl⟩ := hmake r hr
    rw [hjudge] at hexec
    split_ifs at hexec with hlong
    rw [hserved s hb, if_neg hlong]
  · have hbad : (ByteReader.ofBody body).str.2.consumedAll = false := by
      by_contra hgood
      exact hnone _ (hid _) ((hbody _).trans (hall (Bool.eq_true_of_not_eq_false hgood)).symm)
    simp only [withPayload, hbad]
    rfl

/-- `handle_echo` decides on an echo as the protocol does. -/
theorem judgedAs_handleEcho : JudgedAs unixMs kEchoReq body ((handleEcho body).map .inl) := by
  refine judgedAs_withPayload .echo _ _ _ (fun r hr => ?_) (fun _ => rfl) (fun _ => rfl)
    (fun _ => rfl) fun _ => ⟨rfl, rfl⟩
  cases r with
  | echo s => exact ⟨s, rfl⟩
  | _ => exact absurd hr (Nat.ne_of_beq_eq_false rfl)

/-- `handle_save` decides on a save as the protocol does. -/
theorem judgedAs_handleSave : JudgedAs unixMs kSaveReq body ((handleSave body).map .inl) := by
  refine judgedAs_withPayload .save _ _ _ (fun r hr => ?_) (fun _ => rfl) (fun _ => rfl)
    (fun _ => rfl) fun _ => ⟨rfl, rfl⟩
  cases r with
  | save s => exact ⟨s, rfl⟩
  | _ => exact absurd hr (Nat.ne_of_beq_eq_false rfl)

/-- The chat service decides on a chat as the protocol does. -/
theorem judgedAs_chat :
    JudgedAs unixMs kChatReq body ((withPayload body "chat body" Verdict.pass).map .inr) := by
  refine judgedAs_withPayload .chat _ _ _ (fun r hr => ?_) (fun _ => rfl) (fun _ => rfl)
    (fun _ => rfl) fun _ => ⟨rfl, rfl⟩
  cases r with
  | chat s => exact ⟨s, rfl⟩
  | _ => exact absurd hr (Nat.ne_of_beq_eq_false rfl)

/-- `handle_ping` decides on a ping as the protocol does. -/
theorem judgedAs_handlePing :
    JudgedAs unixMs kPingReq body ((handlePing unixMs body).map .inl) := by
  obtain ⟨hread, hall⟩ := ByteReader.field_ofBody .u64 body
  have hserved : ∀ v : UInt64, (ClientRequest.ping v).body = body →
      (handlePing unixMs body).map .inl = (ClientRequest.ping v).execution unixMs := by
    intro v hv
    obtain ⟨hvalue, hconsumed⟩ := hread v hv.symm
    have hlt := ByteReader.uint_lt 8 (ByteReader.ofBody body)
    have hnat : (ByteReader.ofBody body).u64.1 = v.toNat := by
      rw [← hvalue]
      exact (UInt64.toNat_ofNat_of_lt' hlt).symm
    have hconsumed : (ByteReader.ofBody body).u64.2.consumedAll = true := hconsumed
    simp only [handlePing, hconsumed, hnat]
    rfl
  refine ⟨fun r hr hb => ?_, fun r hr hb _ => ?_, fun hnone => ?_⟩
  · cases r with
    | ping v =>
      rw [hserved v hb]
      rfl
    | _ => exact absurd hr (Nat.ne_of_beq_eq_false rfl)
  · cases r with
    | ping v => exact hserved v hb
    | _ => exact absurd hr (Nat.ne_of_beq_eq_false rfl)
  · have hbad : (ByteReader.ofBody body).u64.2.consumedAll = false := by
      by_contra hgood
      exact hnone (.ping _) rfl (hall (Bool.eq_true_of_not_eq_false hgood)).symm
    simp only [handlePing, hbad]
    rfl

/-- `handle_history` decides on a request for the log as the protocol does. -/
theorem judgedAs_handleHistory :
    JudgedAs unixMs kHistoryReq body ((handleHistory body).map .inl) := by
  obtain ⟨hread, hall⟩ := ByteReader.field_ofBody .u16 body
  have hserved : ∀ v : UInt16, (ClientRequest.history v).body = body →
      (handleHistory body).map .inl =
        if v.toNat < kMinHistoryLimit ∨ kMaxHistoryLimit < v.toNat then
          .refuse .limitOutOfRange "1..100"
        else (ClientRequest.history v).execution unixMs := by
    intro v hv
    obtain ⟨hvalue, hconsumed⟩ := hread v hv.symm
    have hlt := ByteReader.uint_lt 2 (ByteReader.ofBody body)
    have hnat : (ByteReader.ofBody body).u16.1 = v.toNat := by
      rw [← hvalue]
      exact (UInt16.toNat_ofNat_of_lt' hlt).symm
    have hconsumed : (ByteReader.ofBody body).u16.2.consumedAll = true := hconsumed
    simp only [handleHistory, hconsumed, hnat, Bool.not_true, Bool.false_eq_true, if_false]
    split_ifs <;> rfl
  refine ⟨fun r hr hb => ?_, fun r hr hb hexec => ?_, fun hnone => ?_⟩
  · cases r with
    | history v =>
      rw [hserved v hb, ClientRequest.judgement]
      split_ifs <;> rfl
    | _ => exact absurd hr (Nat.ne_of_beq_eq_false rfl)
  · cases r with
    | history v =>
      rw [ClientRequest.judgement] at hexec
      split_ifs at hexec with hrange
      rw [hserved v hb, if_neg hrange]
    | _ => exact absurd hr (Nat.ne_of_beq_eq_false rfl)
  · have hbad : (ByteReader.ofBody body).u16.2.consumedAll = false := by
      by_contra hgood
      exact hnone (.history _) rfl (hall (Bool.eq_true_of_not_eq_false hgood)).symm
    simp only [handleHistory, hbad]
    rfl

/-- `handle_counter` decides on a counter as the protocol does. -/
theorem judgedAs_handleCounter :
    JudgedAs unixMs kCounterReq body ((handleCounter body).map .inl) := by
  obtain ⟨hread, hall⟩ := ByteReader.field_ofBody .str body
  have hserved : ∀ (s : FieldKind.str.Value) (hs : s.val.length = 36),
      (ClientRequest.counter s hs).body = body →
        (handleCounter body).map .inl = (ClientRequest.counter s hs).execution unixMs := by
    intro s hs hb
    obtain ⟨hvalue, hconsumed⟩ := hread s hb.symm
    have hstr : (ByteReader.ofBody body).str.1 = s.val := congrArg Subtype.val hvalue
    have hconsumed : (ByteReader.ofBody body).str.2.consumedAll = true := hconsumed
    simp only [handleCounter, hconsumed, hstr, hs]
    rfl
  refine ⟨fun r hr hb => ?_, fun r hr hb _ => ?_, fun hnone => ?_⟩
  · cases r with
    | counter s hs =>
      rw [hserved s hs hb]
      rfl
    | _ => exact absurd hr (Nat.ne_of_beq_eq_false rfl)
  · cases r with
    | counter s hs => exact hserved s hs hb
    | _ => exact absurd hr (Nat.ne_of_beq_eq_false rfl)
  · simp only [handleCounter]
    split_ifs with hbad hlen
    · rfl
    · rfl
    · have hlen : (ByteReader.ofBody body).str.1.length = 36 := by simpa using hlen
      have hgood : (ByteReader.ofBody body).str.2.consumedAll = true := by simpa using hbad
      exact absurd (hall hgood).symm
        (hnone (.counter ⟨_, ByteReader.length_str_le _⟩ hlen) rfl)

/-- The handler that a frame with a body the event can carry is shown to. -/
theorem judgedAs_serve (unixMs connId index : ℕ) {msgId : ℕ} {body : Bytes}
    (hfits : body.length ≤ kMaxEventBody) (hid : 1 ≤ msgId ∧ msgId ≤ 6) :
    ∃ v, serve unixMs connId index ⟨msgId, body⟩ = some v ∧ JudgedAs unixMs msgId body v := by
  have hevent : Message.ofFrame connId index ⟨msgId, body⟩ =
      ⟨connId, msgId, body, false, index⟩ := if_neg (by simpa using hfits)
  have hgame : route msgId = some .game → serve unixMs connId index ⟨msgId, body⟩ =
      some ((onMessage unixMs ⟨connId, msgId, body, false, index⟩).map .inl) := fun h => by
    simp only [serve, hevent, h, Option.map_some]
  have hchat : route msgId = some .chat → serve unixMs connId index ⟨msgId, body⟩ =
      some ((onChatMessage ⟨connId, msgId, body, false, index⟩).map .inr) := fun h => by
    simp only [serve, hevent, h, Option.map_some]
  obtain ⟨hlo, hhi⟩ := hid
  interval_cases msgId
  · exact ⟨_, hgame rfl, judgedAs_handleEcho⟩
  · exact ⟨_, hgame rfl, judgedAs_handleSave⟩
  · exact ⟨_, hgame rfl, judgedAs_handleHistory⟩
  · exact ⟨_, hgame rfl, judgedAs_handleCounter⟩
  · exact ⟨_, hgame rfl, judgedAs_handlePing⟩
  · exact ⟨_, hchat rfl, judgedAs_chat⟩

/-- A body that the event cannot carry is answered as a payload that is too long. -/
theorem judgement_serve_oversized (unixMs connId index : ℕ) {msgId : ℕ} {body : Bytes}
    (hlong : kMaxEventBody < body.length) (hid : 1 ≤ msgId ∧ msgId ≤ 6) :
    ∃ v, serve unixMs connId index ⟨msgId, body⟩ = some v ∧
      v.judgement = .error .payloadTooLong false := by
  have hevent : Message.ofFrame connId index ⟨msgId, body⟩ = ⟨connId, msgId, [], true, index⟩ :=
    if_pos hlong
  obtain ⟨hlo, hhi⟩ := hid
  interval_cases msgId
  all_goals exact ⟨_, by rw [serve, hevent]; rfl, rfl⟩

/-- For every request id and every body : up to 640 bytes the answer is the one that the protocol
asks for, `INVALID_FIELD` and a close on a body that is not the documented field, else what the
field's own bounds say, else the request is executed. A longer body is answered
`PAYLOAD_TOO_LONG` and the connection is kept. -/
theorem body_judged (unixMs connId index : ℕ) (view : Frame)
    (hid : 1 ≤ view.msgId ∧ view.msgId ≤ 6) :
    ∃ v, serve unixMs connId index view = some v ∧
      (view.body.length ≤ kMaxEventBody → JudgedAs unixMs view.msgId view.body v) ∧
      (kMaxEventBody < view.body.length → v.judgement = .error .payloadTooLong false) := by
  by_cases hfits : view.body.length ≤ kMaxEventBody
  · obtain ⟨v, hv, hjudged⟩ := judgedAs_serve unixMs connId index hfits hid
    exact ⟨v, hv, fun _ => hjudged, fun hlong => absurd hfits (by omega)⟩
  · obtain ⟨v, hv, hjudged⟩ :=
      judgement_serve_oversized unixMs connId index (Nat.lt_of_not_le hfits) hid
    exact ⟨v, hv, fun hshort => absurd hshort hfits, fun _ => hjudged⟩

/-- A History that asks for no row. -/
theorem body_judged_limit : ∃ v, serve 0 7 0 ⟨kHistoryReq, [0, 0]⟩ = some v ∧
    v.judgement = .error .limitOutOfRange false := by
  obtain ⟨v, hv, hjudged, -⟩ := body_judged 0 7 0 ⟨kHistoryReq, [0, 0]⟩ (by decide)
  exact ⟨v, hv, (hjudged (by decide)).judgement (.history 0) rfl rfl⟩

/-- A Ping of 641 bytes is no request of the protocol, and its connection is kept. -/
theorem oversized_ping_kept : ∃ v, serve 0 7 0 ⟨kPingReq, List.replicate 641 0⟩ = some v ∧
    v.judgement = .error .payloadTooLong false ∧
    (∀ r : ClientRequest, r.msgId = kPingReq → r.body ≠ List.replicate 641 0) ∧
    ¬JudgedAs 0 kPingReq (List.replicate 641 0) v := by
  have hnone : ∀ r : ClientRequest, r.msgId = kPingReq → r.body ≠ List.replicate 641 0 := by
    intro r hr hbody
    have hlen := congrArg List.length hbody
    cases r with
    | ping v =>
      have h8 : (ClientRequest.ping v).body.length = 8 := length_storeBe 8 v.toNat
      rw [h8, List.length_replicate] at hlen
      omega
    | _ => exact absurd hr (Nat.ne_of_beq_eq_false rfl)
  have hlong : kMaxEventBody < (List.replicate 641 (0 : UInt8)).length := by
    rw [List.length_replicate]
    decide
  have hid : 1 ≤ kPingReq ∧ kPingReq ≤ 6 := by decide
  obtain ⟨v, hv, hjudged⟩ := judgement_serve_oversized 0 7 0 hlong hid
  refine ⟨v, hv, hjudged, hnone, fun h => ?_⟩
  have hinvalid := h.invalid hnone
  rw [hjudged] at hinvalid
  cases hinvalid

end EchoServer
