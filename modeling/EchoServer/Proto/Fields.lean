import EchoServer.Lib.Codec
import EchoServer.Proto.Body

/-!
# Rows of typed fields

The reads and writes of `ByteReader` and `ByteWriter` one after the other : a row of fields of
the six kinds that the two classes know. A string longer than 65535 bytes cannot be written
whole, so it is no field.

Each kind is a codec (`fieldCodec`), and the reader with its sticky error state computes what
the row of codecs decodes (`ByteReader.reads_field`, `ByteReader.readAll_eq`). So a row that is
written is read back to its last byte, and a body that is read to its last byte is the row it
was read as (`field_codec`).
-/

namespace EchoServer

/-- What a field of a body may be. -/
inductive FieldKind where
  | u8
  | u16
  | u32
  | u64
  | i64
  | str
  deriving DecidableEq, Repr

/-- The values of a kind. -/
def FieldKind.Value : FieldKind → Type
  | u8 => UInt8
  | u16 => UInt16
  | u32 => UInt32
  | u64 => UInt64
  | i64 => Int64
  | str => { s : Bytes // s.length ≤ 0xFFFF }

/-- What a failed read gives. -/
def FieldKind.zero : (k : FieldKind) → k.Value
  | u8 => (0 : UInt8)
  | u16 => (0 : UInt16)
  | u32 => (0 : UInt32)
  | u64 => (0 : UInt64)
  | i64 => (0 : Int64)
  | str => ⟨[], by simp⟩

/-- A typed field. -/
abbrev Field := Σ k : FieldKind, k.Value

namespace ByteWriter

/-- Four bytes, the highest one first. -/
def u32 (w : ByteWriter) (v : ℕ) : ByteWriter := ⟨w.data ++ storeBe 4 v⟩

/-- The bytes of the number as an unsigned one. -/
def i64 (w : ByteWriter) (v : Int64) : ByteWriter := w.u64 v.toUInt64.toNat

/-- A field is written as its kind. -/
def field (w : ByteWriter) : (k : FieldKind) → k.Value → ByteWriter
  | .u8, (v : UInt8) => w.u8 v.toNat
  | .u16, (v : UInt16) => w.u16 v.toNat
  | .u32, (v : UInt32) => w.u32 v.toNat
  | .u64, (v : UInt64) => w.u64 v.toNat
  | .i64, (v : Int64) => w.i64 v
  | .str, s => w.str s.val

/-- The fields of a body, one after the other. -/
def writeAll (w : ByteWriter) (fs : List Field) : ByteWriter :=
  fs.foldl (fun w f => w.field f.1 f.2) w

end ByteWriter

namespace ByteReader

/-- One byte. -/
def u8 : ByteReader → ℕ × ByteReader := uint 1

/-- Four bytes, the highest one first. -/
def u32 : ByteReader → ℕ × ByteReader := uint 4

/-- The number that the bytes of an unsigned one stand for. -/
def i64 (r : ByteReader) : Int64 × ByteReader :=
  let (v, r) := r.u64
  ((UInt64.ofNat v).toInt64, r)

/-- The bytes not read yet. -/
def rest (r : ByteReader) : Bytes := r.data.drop r.pos

/-- A read past the end, or after one. -/
theorem uint_fail {n : ℕ} {r : ByteReader} (h : r.ok = true → r.rest.length < n) :
    r.uint n = (0, { r with ok := false }) := by
  rcases r with ⟨data, pos, ok⟩
  rcases ok with _ | _
  · rfl
  · have hlt : data.length - pos < n := by simpa [rest] using h rfl
    simp [uint, need, hlt]

/-- A number is read if there are enough bytes. -/
theorem uint_read {n : ℕ} {r : ByteReader} (hok : r.ok = true) (hn : n ≤ r.rest.length) :
    r.uint n = (loadBe n r.rest, { r with pos := r.pos + n }) := by
  have hle : ¬r.data.length - r.pos < n := by simpa [rest] using hn
  simp [uint, need, hok, hle, rest]

/-- A text without its length fails. -/
theorem str_fail {r : ByteReader} (h : r.ok = true → r.rest.length < 2) :
    r.str = ([], { r with ok := false }) := by
  simp [str, u16, uint_fail h, need]

/-- The length is read, and the string is not there. -/
theorem str_short {r : ByteReader} (hok : r.ok = true) (h2 : 2 ≤ r.rest.length)
    (hn : r.rest.length < 2 + loadBe 2 r.rest) :
    r.str = ([], { r with pos := r.pos + 2, ok := false }) := by
  have hlt : r.data.length - (r.pos + 2) < loadBe 2 r.rest := by
    simp only [rest, List.length_drop] at h2 hn ⊢
    omega
  simp [str, u16, uint_read hok h2, need, hok, hlt]

/-- A text is read if all of it is there. -/
theorem str_read {r : ByteReader} (hok : r.ok = true)
    (hn : 2 + loadBe 2 r.rest ≤ r.rest.length) :
    r.str = ((r.rest.drop 2).take (loadBe 2 r.rest),
      { r with pos := r.pos + (2 + loadBe 2 r.rest) }) := by
  have hle : ¬r.data.length - (r.pos + 2) < loadBe 2 r.rest := by
    simp only [rest, List.length_drop] at hn ⊢
    omega
  have hread := uint_read (n := 2) hok (by omega)
  simp [str, u16, hread, need, hok, hle]
  simp [rest, List.drop_drop, add_assoc]

/-- A text that is read has a length of two bytes. -/
theorem length_str_le (r : ByteReader) : r.str.1.length ≤ 0xFFFF := by
  by_cases h : 2 + loadBe 2 r.rest ≤ r.rest.length
  · cases hok : r.ok with
    | false => simp [str_fail (r := r) (by simp [hok])]
    | true =>
      have hlt := loadBe_lt_pow 2 r.rest
      rw [str_read hok h, List.length_take]
      omega
  · by_cases h2 : r.ok = true ∧ 2 ≤ r.rest.length
    · simp [str_short h2.1 h2.2 (by omega)]
    · simp [str_fail (r := r) fun hok => by by_contra hge; exact h2 ⟨hok, by omega⟩]

/-- A field is read as its kind. -/
def field : (k : FieldKind) → ByteReader → k.Value × ByteReader
  | .u8, r => (UInt8.ofNat r.u8.1, r.u8.2)
  | .u16, r => (UInt16.ofNat r.u16.1, r.u16.2)
  | .u32, r => (UInt32.ofNat r.u32.1, r.u32.2)
  | .u64, r => (UInt64.ofNat r.u64.1, r.u64.2)
  | .i64, r => r.i64
  | .str, r => (⟨r.str.1, r.length_str_le⟩, r.str.2)

/-- The fields of a body, one after the other. -/
def readAll : List FieldKind → ByteReader → List Field × ByteReader
  | [], r => ([], r)
  | k :: ks, r =>
    let (v, r) := r.field k
    let (fs, r) := r.readAll ks
    (⟨k, v⟩ :: fs, r)

end ByteReader

/-! ## The codec of a kind -/

/-- A machine integer as a number of `n` bytes. -/
structure Word (n : ℕ) (α : Type) where
  toNat : α → ℕ
  ofNat : ℕ → α
  toNat_lt : ∀ a, toNat a < 256 ^ n
  ofNat_toNat : ∀ a, ofNat (toNat a) = a
  toNat_ofNat : ∀ v < 256 ^ n, toNat (ofNat v) = v

/-- An integer in `n` bytes. -/
def wordCodec {n : ℕ} {α : Type} (W : Word n α) : Codec UInt8 α where
  enc a := storeBe n (W.toNat a)
  dec s := if s.length < n then none else some (W.ofNat (loadBe n s), s.drop n)
  dec_enc a r := by
    have hlen : (storeBe n (W.toNat a)).length = n := length_storeBe n _
    rw [if_neg (by simp), loadBe_append hlen, loadBe_storeBe, Nat.mod_eq_of_lt (W.toNat_lt a),
      W.ofNat_toNat, List.drop_left' hlen]
  enc_of_dec s a r h := by
    split_ifs at h with hn
    obtain ⟨rfl, rfl⟩ := Prod.mk.inj (Option.some.inj h)
    have hlen : (s.take n).length = n := by
      rw [List.length_take]
      omega
    rw [W.toNat_ofNat _ (loadBe_lt_pow n s), ← loadBe_take, storeBe_loadBe hlen,
      List.take_append_drop]

/-- A string with its length in front. -/
def strCodec : Codec UInt8 { s : Bytes // s.length ≤ 0xFFFF } where
  enc s := storeBe 2 s.val.length ++ s.val
  dec s :=
    if s.length < 2 + loadBe 2 s then none
    else
      some (⟨(s.drop 2).take (loadBe 2 s), by
        have := loadBe_lt_pow 2 s
        rw [List.length_take]
        omega⟩, s.drop (2 + loadBe 2 s))
  dec_enc := by
    rintro ⟨s, hs⟩ r
    have hload : loadBe 2 (storeBe 2 s.length ++ s ++ r) = s.length := by
      rw [List.append_assoc, loadBe_append (length_storeBe 2 _), loadBe_storeBe,
        Nat.mod_eq_of_lt (by omega)]
    have hdrop : (storeBe 2 s.length ++ s ++ r).drop 2 = s ++ r := by
      rw [List.append_assoc, List.drop_left' (length_storeBe 2 _)]
    have hrest : (storeBe 2 s.length ++ s ++ r).drop (2 + s.length) = r := by
      rw [← List.drop_drop, hdrop, List.drop_left]
    simp only [hload, hdrop, hrest, List.take_left]
    rw [if_neg (by simp)]
  enc_of_dec s a r h := by
    split_ifs at h with hn
    obtain ⟨rfl, rfl⟩ := Prod.mk.inj (Option.some.inj h)
    have hlen : ((s.drop 2).take (loadBe 2 s)).length = loadBe 2 s := by
      rw [List.length_take, List.length_drop]
      omega
    have h2 : (s.take 2).length = 2 := by
      rw [List.length_take]
      omega
    have hhead : storeBe 2 (loadBe 2 s) = s.take 2 := by rw [← loadBe_take, storeBe_loadBe h2]
    dsimp only
    rw [hlen, hhead, List.append_assoc, ← List.drop_drop, List.take_append_drop,
      List.take_append_drop]

/-- The words of one byte. -/
def u8Word : Word 1 UInt8 where
  toNat := UInt8.toNat
  ofNat := UInt8.ofNat
  toNat_lt := UInt8.toNat_lt
  ofNat_toNat _ := UInt8.ofNat_toNat
  toNat_ofNat _ h := UInt8.toNat_ofNat_of_lt' h

/-- The words of two bytes. -/
def u16Word : Word 2 UInt16 where
  toNat := UInt16.toNat
  ofNat := UInt16.ofNat
  toNat_lt := UInt16.toNat_lt
  ofNat_toNat _ := UInt16.ofNat_toNat
  toNat_ofNat _ h := UInt16.toNat_ofNat_of_lt' h

/-- The words of four bytes. -/
def u32Word : Word 4 UInt32 where
  toNat := UInt32.toNat
  ofNat := UInt32.ofNat
  toNat_lt := UInt32.toNat_lt
  ofNat_toNat _ := UInt32.ofNat_toNat
  toNat_ofNat _ h := UInt32.toNat_ofNat_of_lt' h

/-- The words of eight bytes. -/
def u64Word : Word 8 UInt64 where
  toNat := UInt64.toNat
  ofNat := UInt64.ofNat
  toNat_lt := UInt64.toNat_lt
  ofNat_toNat _ := UInt64.ofNat_toNat
  toNat_ofNat _ h := UInt64.toNat_ofNat_of_lt' h

/-- A signed integer has the bytes of the unsigned one it is cast to. -/
def i64Word : Word 8 Int64 where
  toNat v := v.toUInt64.toNat
  ofNat v := (UInt64.ofNat v).toInt64
  toNat_lt v := v.toUInt64.toNat_lt
  ofNat_toNat v := by
    rw [UInt64.ofNat_toNat]
    rfl
  toNat_ofNat _ h := UInt64.toNat_ofNat_of_lt' h

/-- How a field of each kind is encoded. -/
def fieldCodec : (k : FieldKind) → Codec UInt8 k.Value
  | .u8 => wordCodec u8Word
  | .u16 => wordCodec u16Word
  | .u32 => wordCodec u32Word
  | .u64 => wordCodec u64Word
  | .i64 => wordCodec i64Word
  | .str => strCodec

/-! ## The reader reads what the codec decodes -/

namespace ByteReader

/-- `res` is what reading a value of the codec gives : the value and what follows it, or, after
a failed read, `zero`. -/
def Reads {α : Type} (C : Codec UInt8 α) (zero : α) (r : ByteReader) (res : α × ByteReader) :
    Prop :=
  (r.ok = true ∧ ∃ v n, C.dec r.rest = some (v, r.rest.drop n) ∧ n ≤ r.rest.length ∧
      res = (v, { r with pos := r.pos + n })) ∨
    ((r.ok = true → C.dec r.rest = none) ∧ ∃ n ≤ r.rest.length, (r.ok = false → n = 0) ∧
      res = (zero, { r with pos := r.pos + n, ok := false }))

/-- Reading a number follows its codec. -/
theorem reads_word {α : Type} {n : ℕ} (W : Word n α) (r : ByteReader) :
    r.Reads (wordCodec W) (W.ofNat 0) (W.ofNat (r.uint n).1, (r.uint n).2) := by
  by_cases h : r.ok = true ∧ n ≤ r.rest.length
  · obtain ⟨hok, hn⟩ := h
    refine Or.inl ⟨hok, _, n, if_neg (by omega), hn, ?_⟩
    rw [uint_read hok hn]
  · have hshort : r.ok = true → r.rest.length < n := fun hok => by
      by_contra hge
      exact h ⟨hok, by omega⟩
    refine Or.inr ⟨fun hok => if_pos (hshort hok), 0, Nat.zero_le _, fun _ => rfl, ?_⟩
    rw [uint_fail hshort]
    rfl

/-- Reading a text follows its codec. -/
theorem reads_str (r : ByteReader) :
    r.Reads strCodec (FieldKind.zero .str) (⟨r.str.1, r.length_str_le⟩, r.str.2) := by
  by_cases h2 : r.ok = true ∧ 2 ≤ r.rest.length
  · obtain ⟨hok, h2⟩ := h2
    by_cases hn : 2 + loadBe 2 r.rest ≤ r.rest.length
    · refine Or.inl ⟨hok, _, _, if_neg (by omega), hn, ?_⟩
      simp only [str_read hok hn]
    · refine Or.inr ⟨fun _ => if_pos (by omega), 2, h2, by simp [hok], ?_⟩
      simp only [str_short hok h2 (by omega)]
      rfl
  · have hshort : r.ok = true → r.rest.length < 2 := fun hok => by
      by_contra hge
      exact h2 ⟨hok, by omega⟩
    refine Or.inr ⟨fun hok => if_pos ?_, 0, Nat.zero_le _, fun _ => rfl, ?_⟩
    · have := hshort hok
      omega
    · simp only [str_fail hshort]
      rfl

/-- Reading a field follows its codec. -/
theorem reads_field (k : FieldKind) (r : ByteReader) :
    r.Reads (fieldCodec k) k.zero (r.field k) := by
  cases k with
  | u8 => exact reads_word u8Word r
  | u16 => exact reads_word u16Word r
  | u32 => exact reads_word u32Word r
  | u64 => exact reads_word u64Word r
  | i64 => exact reads_word i64Word r
  | str => exact reads_str r

/-- The reader does not run past the end. -/
theorem pos_field_le {r : ByteReader} (hpos : r.pos ≤ r.data.length) (k : FieldKind) :
    (r.field k).2.pos ≤ (r.field k).2.data.length := by
  rcases reads_field k r with ⟨-, v, n, -, hn, heq⟩ | ⟨-, n, hn, -, heq⟩
  all_goals
    rw [heq]
    simp only [rest, List.length_drop] at hn
    dsimp only
    omega

/-- A reader that has failed reads zeros. -/
theorem field_of_failed {r : ByteReader} (hok : r.ok = false) (k : FieldKind) :
    r.field k = (k.zero, r) := by
  rcases reads_field k r with ⟨htrue, -⟩ | ⟨-, n, -, hn, heq⟩
  · rw [hok] at htrue
    cases htrue
  · rw [heq, hn hok]
    rcases r with ⟨data, pos, ok⟩
    obtain rfl : ok = false := hok
    rfl

/-- Reading leaves the data. -/
theorem data_field (r : ByteReader) (k : FieldKind) : (r.field k).2.data = r.data := by
  rcases reads_field k r with ⟨-, v, n, -, -, heq⟩ | ⟨-, n, -, -, heq⟩ <;> rw [heq]

/-- Every byte has been read. -/
theorem consumedAll_iff {r : ByteReader} (hpos : r.pos ≤ r.data.length) :
    r.consumedAll = true ↔ r.ok = true ∧ r.rest = [] := by
  rw [consumedAll, Bool.and_eq_true, beq_iff_eq, rest, List.drop_eq_nil_iff]
  exact and_congr_right fun _ => ⟨fun h => h.ge, fun h => le_antisymm hpos h⟩

/-! ### Rows -/

/-- So does reading a list of fields. -/
theorem data_readAll (ks : List FieldKind) : ∀ r : ByteReader, (r.readAll ks).2.data = r.data := by
  induction ks with
  | nil => exact fun _ => rfl
  | cons k ks ih => exact fun r => (ih _).trans (data_field r k)

/-- Nor does it run past the end. -/
theorem pos_readAll_le (ks : List FieldKind) : ∀ {r : ByteReader}, r.pos ≤ r.data.length →
    (r.readAll ks).2.pos ≤ (r.readAll ks).2.data.length := by
  induction ks with
  | nil => exact fun hpos => hpos
  | cons k ks ih => exact fun hpos => ih (pos_field_le hpos k)

/-- A reader that has failed stays where it is. -/
theorem readAll_of_failed (ks : List FieldKind) : ∀ {r : ByteReader}, r.ok = false →
    (r.readAll ks).2 = r := by
  induction ks with
  | nil => exact fun _ => rfl
  | cons k ks ih =>
    intro r hok
    simp only [readAll, field_of_failed hok]
    exact ih hok

/-- A row that is read without a failure is what the codecs decode. -/
theorem readAll_eq (ks : List FieldKind) : ∀ {r : ByteReader}, r.ok = true →
    if (r.readAll ks).2.ok then
      Codec.decAll fieldCodec ks r.rest = some ((r.readAll ks).1, (r.readAll ks).2.rest)
    else Codec.decAll fieldCodec ks r.rest = none := by
  induction ks with
  | nil =>
    intro r hok
    simp [readAll, Codec.decAll, hok]
  | cons k ks ih =>
    intro r hok
    rcases reads_field k r with ⟨-, v, n, hdec, -, heq⟩ | ⟨hdec, n, -, -, heq⟩
    · have hrest : ({ r with pos := r.pos + n } : ByteReader).rest = r.rest.drop n := by
        simp [rest, List.drop_drop]
      have hnext := ih (r := { r with pos := r.pos + n }) hok
      rw [hrest] at hnext
      simp only [readAll, heq, Codec.decAll, hdec]
      split_ifs at hnext ⊢
      · rw [hnext]
        rfl
      · rw [hnext]
        rfl
    · have hfail : ({ r with pos := r.pos + n, ok := false } : ByteReader).ok = false := rfl
      have hall : (r.readAll (k :: ks)).2.ok = false := by
        simp only [readAll, heq, readAll_of_failed ks hfail]
      rw [if_neg (by simp [hall]), Codec.decAll, hdec hok]

end ByteReader

/-- Writing a field appends its encoding. -/
theorem ByteWriter.data_field (w : ByteWriter) (k : FieldKind) (v : k.Value) :
    (w.field k v).data = w.data ++ (fieldCodec k).enc v := by
  cases k with
  | str =>
    obtain ⟨s, hs⟩ := v
    have hmin : min s.length 0xFFFF = s.length := by omega
    simp [ByteWriter.field, ByteWriter.str, ByteWriter.u16, hmin, fieldCodec, strCodec]
  | _ => rfl

/-- Writing a list of fields appends theirs. -/
theorem ByteWriter.data_writeAll (fs : List Field) : ∀ w : ByteWriter,
    (w.writeAll fs).data = w.data ++ Codec.encAll fieldCodec fs := by
  induction fs with
  | nil => simp [ByteWriter.writeAll, Codec.encAll]
  | cons f fs ih =>
    intro w
    rw [show w.writeAll (f :: fs) = (w.field f.1 f.2).writeAll fs from rfl, ih,
      ByteWriter.data_field, List.append_assoc]
    rfl

/-- Whatever fields are written are read back to the last byte. A body that is read to its last
byte, as fields of any kinds, is what these fields are written as. The reader does not go past
the end, and once a read has failed every read gives zero or the empty string and moves
nothing. -/
theorem field_codec :
    (∀ fs : List Field,
      ((ByteReader.ofBody (ByteWriter.scratch.writeAll fs).data).readAll
          (fs.map Sigma.fst)).1 = fs ∧
        ((ByteReader.ofBody (ByteWriter.scratch.writeAll fs).data).readAll
          (fs.map Sigma.fst)).2.consumedAll = true) ∧
      ∀ (body : Bytes) (ks : List FieldKind),
        (((ByteReader.ofBody body).readAll ks).2.consumedAll = true →
          (ByteWriter.scratch.writeAll ((ByteReader.ofBody body).readAll ks).1).data = body) ∧
        ((ByteReader.ofBody body).readAll ks).2.pos ≤ body.length ∧
        (((ByteReader.ofBody body).readAll ks).2.ok = false → ∀ k : FieldKind,
          ((ByteReader.ofBody body).readAll ks).2.field k =
            (k.zero, ((ByteReader.ofBody body).readAll ks).2)) := by
  have hrest : ∀ body, (ByteReader.ofBody body).rest = body := fun _ => rfl
  have hdata : ∀ fs, (ByteWriter.scratch.writeAll fs).data = Codec.encAll fieldCodec fs := by
    intro fs
    rw [ByteWriter.data_writeAll]
    rfl
  have hpos : ∀ body ks, ((ByteReader.ofBody body).readAll ks).2.pos ≤
      ((ByteReader.ofBody body).readAll ks).2.data.length :=
    fun body ks => ByteReader.pos_readAll_le ks (Nat.zero_le _)
  refine ⟨fun fs => ?_, fun body ks => ⟨fun hall => ?_, ?_, ByteReader.field_of_failed⟩⟩
  · have hdec := Codec.decAll_encAll fieldCodec fs []
    rw [List.append_nil, ← hdata, ← hrest (ByteWriter.scratch.writeAll fs).data] at hdec
    have hread := ByteReader.readAll_eq (fs.map Sigma.fst)
      (r := ByteReader.ofBody (ByteWriter.scratch.writeAll fs).data) rfl
    split_ifs at hread with hok
    · rw [hdec] at hread
      obtain ⟨hvals, hnil⟩ := Prod.mk.inj (Option.some.inj hread)
      exact ⟨hvals.symm, (ByteReader.consumedAll_iff (hpos _ _)).mpr ⟨hok, hnil.symm⟩⟩
    · rw [hdec] at hread
      cases hread
  · obtain ⟨hok, hend⟩ := (ByteReader.consumedAll_iff (hpos body ks)).mp hall
    have hread := ByteReader.readAll_eq ks (r := ByteReader.ofBody body) rfl
    rw [if_pos hok, hrest] at hread
    have hbody := Codec.encAll_of_decAll fieldCodec hread
    rw [hend, List.append_nil] at hbody
    rw [hdata, ← hbody]
  · have hle := hpos body ks
    rwa [ByteReader.data_readAll] at hle

end EchoServer
