import EchoServer.Proto.ByteOrder

/-!
# Message bodies

`proto/byte_writer.h` and `proto/byte_reader.h`. A body is a row of big-endian integers
and of strings, a string being its length in two bytes and then its bytes. The writer cuts
a string at 65535 bytes. The reader checks the bytes left before every read : the first
read that goes past the end lowers `ok`, and from then on every read gives zero or the
empty string and moves nothing.
-/

namespace EchoServer

/-- A string as bytes. -/
def utf8 (s : String) : Bytes := s.toUTF8.data.toList

/-- A body being written. -/
structure ByteWriter where
  data : Bytes
  deriving DecidableEq, Repr

namespace ByteWriter

/-- The cleared writer a reply starts from. -/
def scratch : ByteWriter := ⟨[]⟩

/-- One byte. -/
def u8 (w : ByteWriter) (v : ℕ) : ByteWriter := ⟨w.data ++ storeBe 1 v⟩

/-- Two bytes, the higher one first. -/
def u16 (w : ByteWriter) (v : ℕ) : ByteWriter := ⟨w.data ++ storeBe 2 v⟩

/-- Eight bytes, the highest one first. -/
def u64 (w : ByteWriter) (v : ℕ) : ByteWriter := ⟨w.data ++ storeBe 8 v⟩

/-- A length of two bytes, and the text cut to it. -/
def str (w : ByteWriter) (s : Bytes) : ByteWriter :=
  let n := min s.length 0xFFFF
  ⟨(w.u16 n).data ++ s.take n⟩

end ByteWriter

/-- A body being read. -/
structure ByteReader where
  data : Bytes
  pos : ℕ
  ok : Bool
  deriving DecidableEq, Repr

namespace ByteReader

/-- The reader at the front of a body. -/
def ofBody (data : Bytes) : ByteReader := ⟨data, 0, true⟩

/-- Whether `n` more bytes can be read; lowers `ok` if not. -/
def need (n : ℕ) (r : ByteReader) : Bool × ByteReader :=
  if !r.ok then (false, r)
  else if r.data.length - r.pos < n then (false, { r with ok := false })
  else (true, r)

/-- Read an unsigned integer of `n` bytes. -/
def uint (n : ℕ) (r : ByteReader) : ℕ × ByteReader :=
  let (ok, r) := r.need n
  if ok then (loadBe n (r.data.drop r.pos), { r with pos := r.pos + n }) else (0, r)

/-- Two bytes, the higher one first. -/
def u16 : ByteReader → ℕ × ByteReader := uint 2

/-- Eight bytes, the highest one first. -/
def u64 : ByteReader → ℕ × ByteReader := uint 8

/-- A length of two bytes and so many bytes, if they are there. -/
def str (r : ByteReader) : Bytes × ByteReader :=
  let (n, r) := r.u16
  let (ok, r) := r.need n
  if ok then ((r.data.drop r.pos).take n, { r with pos := r.pos + n }) else ([], r)

/-- Every read succeeded and no byte is left. -/
def consumedAll (r : ByteReader) : Bool := r.ok && r.pos == r.data.length

end ByteReader

end EchoServer
