import EchoServer.Proto.ByteOrder
import Mathlib.Data.List.Infix

/-!
# The administration port

`serve` of `net/admin_server.h` : it reads until a line has ended, takes the path from between the
first two spaces of what it has read, and answers by the path.

A client is the list of what `recv` gives, the empty one standing for a connection that is closed
or silent, as the end of the list does. However a stream is cut, the reads stop in or after its
first line feed (`readRequest_eq`), and the two spaces lie before it, so the answer is the one to
its first line (`serve_eq`).
-/

namespace EchoServer

/-- The bytes of an ASCII text. -/
def ascii (s : String) : Bytes := s.toList.map Char.toUInt8

/-- The end of a line. -/
def lineFeed : UInt8 := 10

/-- What divides the words of a request line. -/
def space : UInt8 := 32

namespace AdminServer

/-- The bytes of a request that are read at most. -/
def kRequestMax : ℕ := 2048

/-- `http_response`, whose header fits its buffer. -/
def httpResponse (status body : String) : String :=
  "HTTP/1.1 " ++ status ++ "\r\n" ++
    "Content-Type: text/plain; version=0.0.4; charset=utf-8\r\n" ++
    "Content-Length: " ++ toString body.utf8ByteSize ++ "\r\n" ++
    "Connection: close\r\n" ++
    "\r\n" ++ body

/-- `request_path`. -/
def requestPath (request : Bytes) : Bytes :=
  if space ∉ request then []
  else
    let rest := request.drop (request.idxOf space + 1)
    if space ∉ rest then [] else rest.take (rest.idxOf space)

/-- The loop of `serve`. It gives `none` for a request that is too large. -/
def readRequest : Bytes → List Bytes → Option Bytes
  | request, [] => some request
  | request, chunk :: chunks =>
    if chunk = [] then some request
    else
      let request := request ++ chunk
      if [13, 10, 13, 10] <:+: request then some request
      else if lineFeed ∈ request then some request
      else if kRequestMax ≤ request.length then none
      else readRequest request chunks

variable (health : Option Bool) (metrics : Option String)

/-- The answer to a path. `health` is what the health function says, if there is one, and `metrics`
what the metrics function gives. -/
def respond (path : Bytes) : String :=
  if path = ascii "/health" then
    if health.getD true then httpResponse "200 OK" "ok\n"
    else httpResponse "503 Service Unavailable" "unavailable\n"
  else if path = ascii "/metrics" then httpResponse "200 OK" (metrics.getD "")
  else httpResponse "404 Not Found" "not found\n"

/-- `serve` : what it sends, if anything. -/
def serve (reads : List Bytes) : Option String :=
  match readRequest [] reads with
  | none => some (httpResponse "431 Request Header Fields Too Large" "too large\n")
  | some request =>
    if request = [] then none else some (respond health metrics (requestPath request))

/-! ## The first line -/

/-- What comes before the first line feed. -/
def firstLine (stream : Bytes) : Bytes := stream.takeWhile (· ≠ lineFeed)

/-- The path of a request line is what stands between its blanks. -/
theorem requestPath_eq {method path rest : Bytes} (hmethod : space ∉ method)
    (hpath : space ∉ path) : requestPath (method ++ space :: (path ++ space :: rest)) = path := by
  have hfirst : (method ++ space :: (path ++ space :: rest)).idxOf space = method.length := by
    rw [List.idxOf_append_of_notMem hmethod, List.idxOf_cons_self, Nat.add_zero]
  have hsecond : (path ++ space :: rest).idxOf space = path.length := by
    rw [List.idxOf_append_of_notMem hpath, List.idxOf_cons_self, Nat.add_zero]
  have hdrop : (method ++ space :: (path ++ space :: rest)).drop (method.length + 1) =
      path ++ space :: rest := by
    simp
  simp only [requestPath, hfirst, hdrop, hsecond]
  simp

/-- The path of a line with two spaces is what lies between the first two. -/
theorem exists_of_count {line : Bytes} (h : 2 ≤ line.count space) :
    ∃ method path rest, line = method ++ space :: (path ++ space :: rest) ∧ space ∉ method ∧
      space ∉ path := by
  have hsplit : ∀ {l : Bytes}, 0 < l.count space →
      ∃ before after, l = before ++ space :: after ∧ space ∉ before ∧
        after.count space + 1 = l.count space := by
    intro l hl
    obtain ⟨before, after, rfl, hbefore⟩ := List.eq_append_cons_of_mem (List.count_pos_iff.mp hl)
    refine ⟨before, after, rfl, hbefore, ?_⟩
    rw [List.count_append, List.count_eq_zero.mpr hbefore, List.count_cons_self, Nat.zero_add]
  obtain ⟨method, rest, rfl, hmethod, hcount⟩ := hsplit (by omega : 0 < line.count space)
  obtain ⟨path, rest, rfl, hpath, -⟩ := hsplit (by omega : 0 < rest.count space)
  exact ⟨method, path, rest, rfl, hmethod, hpath⟩

/-- The first line ends before the first newline. -/
theorem firstLine_eq {line : Bytes} (h : lineFeed ∉ line) (rest : Bytes) :
    firstLine (line ++ lineFeed :: rest) = line := by
  have hall : ∀ b ∈ line, (b ≠ lineFeed) = true := by
    intro b hb
    simp only [ne_eq, eq_iff_iff, iff_true]
    rintro rfl
    exact h hb
  rw [firstLine, List.takeWhile_append_of_pos (by simpa using hall), List.takeWhile_cons_of_neg,
    List.append_nil]
  simp

/-- The reads stop with a line feed in hand, wherever the stream is cut. -/
theorem readRequest_eq : ∀ {reads : List Bytes} {request : Bytes}, (∀ chunk ∈ reads, chunk ≠ []) →
    lineFeed ∉ request → lineFeed ∈ (request ++ reads.flatten).take 2047 →
      ∃ read rest, readRequest request reads = some read ∧ lineFeed ∈ read ∧
        read ++ rest = request ++ reads.flatten
  | [], request, _, hnone, hmem => by
    rw [List.flatten_nil, List.append_nil] at hmem
    exact absurd (List.mem_of_mem_take hmem) hnone
  | chunk :: reads, request, hreads, _, hmem => by
    obtain ⟨hchunk, hreads⟩ := List.forall_mem_cons.mp hreads
    rw [List.flatten_cons, ← List.append_assoc] at hmem ⊢
    rw [readRequest, if_neg hchunk]
    by_cases hread : lineFeed ∈ request ++ chunk
    · refine ⟨request ++ chunk, reads.flatten, ?_, hread, rfl⟩
      simp [hread]
    · have hend : ¬ [13, 10, 13, 10] <:+: request ++ chunk := by
        intro hcrlf
        exact hread (hcrlf.subset (by decide))
      -- all bytes so far are in the first line, which is short
      have hshort : (request ++ chunk).length < kRequestMax := by
        by_contra hlong
        rw [List.take_append_of_le_length (by unfold kRequestMax at hlong; omega)] at hmem
        exact hread (List.mem_of_mem_take hmem)
      simp only [hend, hread, if_false, if_neg (Nat.not_le.mpr hshort)]
      exact readRequest_eq hreads hread hmem

/-- What comes behind the version in the first line of an answer. -/
def statusOf (answer : String) : List Char := answer.toList.drop 9

/-- An answer begins with its status. -/
theorem statusOf_httpResponse (status body : String) :
    status.toList <+: statusOf (httpResponse status body) := by
  refine ⟨("\r\nContent-Type: text/plain; version=0.0.4; charset=utf-8\r\nContent-Length: " ++
    toString body.utf8ByteSize ++ "\r\nConnection: close\r\n\r\n" ++ body).toList, ?_⟩
  simp [statusOf, httpResponse]

/-- No answer to a path has the status of a request that is too large. -/
theorem statusOf_respond (path : Bytes) :
    ¬ "431".toList <+: statusOf (respond health metrics path) := by
  have hne : ∀ {status body : String}, status.toList.take 3 ≠ "431".toList →
      3 ≤ status.toList.length → ¬ "431".toList <+: statusOf (httpResponse status body) := by
    intro status body hstatus hlength hprefix
    refine hstatus ?_
    have hall := List.prefix_of_prefix_length_le hprefix (statusOf_httpResponse status body) hlength
    exact (List.prefix_iff_eq_take.mp hall).symm
  unfold respond
  split_ifs
  all_goals exact hne (by decide) (by decide)

/-- For any stream whose first line feed is among the first 2047 bytes and whose first line has two
spaces, and for any way it is cut into reads : with the path that lies between the first two spaces
of the first line, the answer is that of the health function to `/health`, the metrics to `/metrics`
and 404 to any other, and never 431. -/
theorem serve_eq {reads : List Bytes} (hreads : ∀ chunk ∈ reads, chunk ≠ [])
    (hlineFeed : lineFeed ∈ reads.flatten.take 2047)
    (hspaces : 2 ≤ (firstLine reads.flatten).count space) :
    ∃ method path rest answer,
      firstLine reads.flatten = method ++ space :: (path ++ space :: rest) ∧
        space ∉ method ∧ space ∉ path ∧ serve health metrics reads = some answer ∧
          (path = ascii "/health" → answer = if health.getD true then httpResponse "200 OK" "ok\n"
            else httpResponse "503 Service Unavailable" "unavailable\n") ∧
          (path = ascii "/metrics" → answer = httpResponse "200 OK" (metrics.getD "")) ∧
          (path ≠ ascii "/health" → path ≠ ascii "/metrics" →
            answer = httpResponse "404 Not Found" "not found\n") ∧
          ¬ "431".toList <+: statusOf answer := by
  obtain ⟨method, path, rest, hline, hmethod, hpath⟩ := exists_of_count hspaces
  obtain ⟨read, left, hread, hmem, happend⟩ :=
    readRequest_eq hreads List.not_mem_nil (by rwa [List.nil_append])
  obtain ⟨line, after, rfl, hnone⟩ := List.eq_append_cons_of_mem hmem
  have hfirst : firstLine reads.flatten = line := by
    rw [List.nil_append] at happend
    rw [← happend, List.append_assoc, List.cons_append, firstLine_eq hnone]
  have hrequest : requestPath (line ++ lineFeed :: after) = path := by
    rw [← hfirst, hline, List.append_assoc, List.cons_append, List.append_assoc, List.cons_append,
      requestPath_eq hmethod hpath]
  have hne : line ++ lineFeed :: after ≠ [] := by simp
  refine ⟨method, path, rest, respond health metrics path, hline, hmethod, hpath, ?_, ?_, ?_, ?_,
    statusOf_respond health metrics path⟩
  · rw [serve, hread]
    simp only [if_neg hne, hrequest]
  · rintro rfl
    rw [respond, if_pos rfl]
  · rintro rfl
    rw [respond, if_neg (by decide), if_pos rfl]
  · intro hhealth hmetrics
    rw [respond, if_neg hhealth, if_neg hmetrics]

/-- The request line comes in two reads, with a header behind it. -/
theorem serve_eq_two_reads :
    serve (some true) none [ascii "GET /hea", ascii "lth HTTP/1.1\r\nHost: a b\r\n"] =
      some (httpResponse "200 OK" "ok\n") := by
  obtain ⟨method, path, rest, answer, hline, hmethod, hpath, hserve, hhealth, -⟩ :=
    serve_eq (some true) none
      (show ∀ chunk ∈ [ascii "GET /hea", ascii "lth HTTP/1.1\r\nHost: a b\r\n"], chunk ≠ [] by
        decide) (by decide) (by decide)
  have hrequest : requestPath (method ++ space :: (path ++ space :: rest)) = path :=
    requestPath_eq hmethod hpath
  rw [← hline] at hrequest
  rw [hserve, hhealth (hrequest.symm.trans (by decide))]
  rfl

end AdminServer

end EchoServer
