import EchoServer.Proto.Body
import EchoServer.Proto.Frame
import EchoServer.Proto.Messages

/-!
# Error replies

The frame that `send_error` of `app/reply.cpp` sends : the id of the request it answers,
the code, and a text for the reader of a log. The caller closes the connection after a
fatal code.
-/

namespace EchoServer

/-- The error reply to a request with id `origin`. -/
def errorAck (origin : ℕ) (code : ErrorCode) (detail : String) : Frame :=
  ⟨kErrorAck, (((ByteWriter.scratch.u16 origin).u16 code.value).str (utf8 detail)).data⟩

example : (errorAck 9 .unknownMessage "unknown id").body =
    [0, 9, 0, 2, 0, 10, 117, 110, 107, 110, 111, 119, 110, 32, 105, 100] := by
  decide +kernel

/-- An error names its code. -/
theorem loadBe16_errorAck (origin : ℕ) (code : ErrorCode) (detail : String) :
    loadBe16 ((errorAck origin code detail).body.drop 2) = code.value := by
  have hbody : (errorAck origin code detail).body.drop 2 =
      storeBe 2 code.value ++ (ByteWriter.scratch.str (utf8 detail)).data := by
    have hlen : (storeBe 2 origin).length = 2 := length_storeBe 2 origin
    simp only [errorAck, ByteWriter.scratch, ByteWriter.u16, ByteWriter.str, List.nil_append,
      List.append_assoc]
    rw [List.drop_left' hlen]
  rw [hbody, loadBe16, loadBe_append (length_storeBe 2 _), loadBe_storeBe]
  cases code <;> rfl

end EchoServer
