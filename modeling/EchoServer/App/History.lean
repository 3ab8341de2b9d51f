import EchoServer.App.Handlers
import EchoServer.Db.MysqlConnection
import EchoServer.Net.SendPath
import EchoServer.Proto.Fields

/-!
# The answer to a history request

A history passes four limits on its way to the peer : `handle_history` bounds the number of rows,
`fetch_history_rows` cuts a payload at the end of its buffer, the writer counts rows and bytes in
two bytes each, and `send` closes the connection over a body that is too large.

`ResultRow` is a row as the database sends it, with any payload or none, and `readHistory` reads
an answer the way the protocol describes it. The four limits fit together : whatever the columns
hold, the answer can be sent and is read back as the rows that were fetched (`history_fits`).
-/

namespace EchoServer

/-- A row of the result set. The payload may be `NULL`, and of any length. -/
structure ResultRow where
  logId : UInt64
  payload : Option Bytes
  createdAtMs : UInt64

/-- What `fetch_history_rows` copies out of a row, whose payload goes through a buffer of
`kMaxPayloadLen` bytes. -/
def LogRow.ofResult (r : ResultRow) : LogRow :=
  ⟨r.logId.toNat, (r.payload.getD []).take kMaxPayloadLen, r.createdAtMs.toNat⟩

namespace ByteReader

/-- Read a `LogEntry`. -/
def logRow (r : ByteReader) : LogRow × ByteReader :=
  let (logId, r) := r.u64
  let (payload, r) := r.str
  let (createdAtMs, r) := r.u64
  (⟨logId, payload, createdAtMs⟩, r)

/-- The rows of an answer, one after the other. -/
def logRows : ℕ → ByteReader → List LogRow × ByteReader
  | 0, r => ([], r)
  | n + 1, r =>
    let (row, r) := r.logRow
    let (rows, r) := r.logRows n
    (row :: rows, r)

/-- Read the body of a `HistoryAck` : the number of rows, and the rows. -/
def readHistory (body : Bytes) : List LogRow × ByteReader :=
  let (n, r) := (ofBody body).u16
  r.logRows n

/-! ## Reading what was written -/

/-- Nothing has failed, and `tail` is what is left to read. -/
structure At (r : ByteReader) (tail : Bytes) : Prop where
  ok : r.ok = true
  rest : r.rest = tail
  pos_le : r.pos ≤ r.data.length

/-- A fresh reader stands before the whole body. -/
theorem at_ofBody (body : Bytes) : (ofBody body).At body :=
  ⟨rfl, rfl, Nat.zero_le _⟩

/-- A reader with nothing before it has consumed the body. -/
theorem At.consumedAll {r : ByteReader} (h : r.At []) : r.consumedAll = true :=
  (consumedAll_iff h.pos_le).mpr ⟨h.ok, h.rest⟩

/-- Going forward over what is there. -/
theorem At.skip {r : ByteReader} {p tail : Bytes} (h : r.At (p ++ tail)) :
    ({ r with pos := r.pos + p.length } : ByteReader).At tail := by
  have hdrop : r.data.drop r.pos = p ++ tail := h.rest
  have hlen := congrArg List.length hdrop
  have hpos := h.pos_le
  rw [List.length_drop, List.length_append] at hlen
  refine ⟨h.ok, ?_, ?_⟩
  · rw [ByteReader.rest, ← List.drop_drop, hdrop, List.drop_left]
  · dsimp only
    omega

/-- A number that is before the reader is read, and the reader stands behind it. -/
theorem At.uint {r : ByteReader} {n v : ℕ} {tail : Bytes} (h : r.At (storeBe n v ++ tail))
    (hv : v < 256 ^ n) : (r.uint n).1 = v ∧ (r.uint n).2.At tail := by
  have hskip := h.skip
  rw [length_storeBe] at hskip
  rw [uint_read h.ok (by simp [h.rest]), h.rest, loadBe_append (length_storeBe n v),
    loadBe_storeBe, Nat.mod_eq_of_lt hv]
  exact ⟨rfl, hskip⟩

/-- A text that is before the reader is read, and the reader stands behind it. -/
theorem At.str {r : ByteReader} {s tail : Bytes} (hs : s.length ≤ 0xFFFF)
    (h : r.At (storeBe 2 s.length ++ s ++ tail)) : r.str.1 = s ∧ r.str.2.At tail := by
  have hload : loadBe 2 r.rest = s.length := by
    rw [h.rest, List.append_assoc, loadBe_append (length_storeBe 2 _), loadBe_storeBe,
      Nat.mod_eq_of_lt (by omega)]
  have hskip := h.skip
  rw [List.length_append, length_storeBe] at hskip
  have hlen : 2 + loadBe 2 r.rest ≤ r.rest.length := by
    rw [hload, h.rest]
    simp
  rw [str_read h.ok hlen, hload, h.rest, List.append_assoc,
    List.drop_left' (length_storeBe 2 _), List.take_left]
  exact ⟨rfl, hskip⟩

end ByteReader

/-! ## A row -/

/-- What the writer appends for a row. -/
def LogRow.bytes (row : LogRow) : Bytes :=
  storeBe 8 row.logId ++
    ((storeBe 2 row.payload.length ++ row.payload) ++ storeBe 8 row.createdAtMs)

/-- A row that the protocol can carry. -/
structure LogRow.Fits (row : LogRow) : Prop where
  logId : row.logId < 256 ^ 8
  payload : row.payload.length ≤ kMaxPayloadLen
  createdAtMs : row.createdAtMs < 256 ^ 8

/-- A row as the database returns it fits : `fetch_history` has truncated its payload. -/
theorem LogRow.fits_ofResult (r : ResultRow) : (LogRow.ofResult r).Fits :=
  ⟨r.logId.toNat_lt, List.length_take_le .., r.createdAtMs.toNat_lt⟩

namespace LogRow.Fits

variable {row : LogRow}

theorem length_le (h : row.Fits) : row.payload.length ≤ 0xFFFF :=
  h.payload.trans (by decide)

/-- Writing a row appends its bytes. -/
theorem data_write (h : row.Fits) (w : ByteWriter) :
    (((w.u64 row.logId).str row.payload).u64 row.createdAtMs).data = w.data ++ row.bytes := by
  have hmin : min row.payload.length 0xFFFF = row.payload.length := min_eq_left h.length_le
  simp [ByteWriter.u64, ByteWriter.str, ByteWriter.u16, hmin, LogRow.bytes]

/-- A row takes 18 bytes besides its payload. -/
theorem length_bytes (h : row.Fits) : row.bytes.length ≤ 18 + kMaxPayloadLen := by
  have := h.payload
  simp only [LogRow.bytes, List.length_append, length_storeBe]
  omega

/-- A row that is before the reader is read as it was written. -/
theorem read (h : row.Fits) {r : ByteReader} {tail : Bytes} (hr : r.At (row.bytes ++ tail)) :
    r.logRow.1 = row ∧ r.logRow.2.At tail := by
  rw [LogRow.bytes, List.append_assoc] at hr
  obtain ⟨hid, hr⟩ := hr.uint h.logId
  rw [List.append_assoc] at hr
  obtain ⟨hpayload, hr⟩ := hr.str h.length_le
  obtain ⟨hcreated, hend⟩ := hr.uint h.createdAtMs
  have hrow : r.logRow = (⟨(r.uint 8).1, (r.uint 8).2.str.1, ((r.uint 8).2.str.2.uint 8).1⟩,
      ((r.uint 8).2.str.2.uint 8).2) := rfl
  rw [hrow, hid, hpayload, hcreated]
  exact ⟨rfl, hend⟩

end LogRow.Fits

/-! ## The rows -/

/-- The rows of a history, as the writer appends them. -/
def logBytes (rows : List LogRow) : Bytes := rows.flatMap LogRow.bytes

/-- Writing the rows one after the other appends the bytes of all of them. -/
theorem data_writeRows {rows : List LogRow} (h : ∀ row ∈ rows, row.Fits) :
    ∀ w : ByteWriter, (rows.foldl
      (fun w row => ((w.u64 row.logId).str row.payload).u64 row.createdAtMs) w).data =
        w.data ++ logBytes rows := by
  induction rows with
  | nil => simp [logBytes]
  | cons row rows ih =>
    intro w
    have hrow := h row List.mem_cons_self
    rw [List.foldl_cons, ih fun r hr => h r (List.mem_cons_of_mem _ hr), hrow.data_write,
      List.append_assoc]
    rfl

/-- The rows take no more than a full payload each. -/
theorem length_logBytes_le {rows : List LogRow} (h : ∀ row ∈ rows, row.Fits) :
    (logBytes rows).length ≤ rows.length * (18 + kMaxPayloadLen) := by
  induction rows with
  | nil => simp [logBytes]
  | cons row rows ih =>
    have hrow := (h row List.mem_cons_self).length_bytes
    have hrows := ih fun r hr => h r (List.mem_cons_of_mem _ hr)
    have hcons : logBytes (row :: rows) = row.bytes ++ logBytes rows := rfl
    rw [hcons, List.length_append, List.length_cons, Nat.succ_mul]
    omega

/-- Rows that are before the reader are read as they were written. -/
theorem read_logBytes {rows : List LogRow} (h : ∀ row ∈ rows, row.Fits) :
    ∀ {r : ByteReader} {tail : Bytes}, r.At (logBytes rows ++ tail) →
      (r.logRows rows.length).1 = rows ∧ (r.logRows rows.length).2.At tail := by
  induction rows with
  | nil => exact fun hr => ⟨rfl, hr⟩
  | cons row rows ih =>
    intro r tail hr
    have hcons : logBytes (row :: rows) = row.bytes ++ logBytes rows := rfl
    rw [hcons, List.append_assoc] at hr
    obtain ⟨hrow, hr⟩ := (h row List.mem_cons_self).read hr
    obtain ⟨hrows, hr⟩ := ih (fun r hr => h r (List.mem_cons_of_mem _ hr)) hr
    exact ⟨congrArg₂ List.cons hrow hrows, hr⟩

/-- A fetch that ends well has copied every row of the result set. -/
theorem DbLink.eq_of_fetchRows (F : Faults) (st : Statement) {rows out : List LogRow} :
    ∀ {i : ℕ} {c : DbLink}, (fetchRows F st i rows c).1 = (true, out) → out = rows := by
  induction rows generalizing out with
  | nil =>
    intro i c h
    rw [fetchRows] at h
    split at h
    · cases h
    · cases h
      rfl
  | cons row rows ih =>
    intro i c h
    rw [fetchRows] at h
    split at h
    · cases h
    · rename_i c' _
      rcases hnext : fetchRows F st (i + 1) rows c' with ⟨⟨ok, out'⟩, c''⟩
      simp only [hnext, Prod.mk.injEq] at h
      obtain ⟨rfl, rfl⟩ := h
      rw [ih (congrArg Prod.fst hnext)]

/-- What `fetch_history` returns when it succeeds are the rows of the table. -/
theorem DbLink.eq_of_fetchHistoryRows {F : Faults} {st : Statement} {rows out : List LogRow}
    {c : DbLink} (h : (fetchHistoryRows F st rows c).1 = (true, out)) : out = rows := by
  rw [fetchHistoryRows] at h
  split at h
  · cases h
  · exact eq_of_fetchRows F st h

/-- A request that `handle_history` accepts asks for no more rows than the protocol allows. -/
theorem limit_of_handleHistory {body : Bytes} {req : Request}
    (h : handleHistory body = .pass req) : req.limit ≤ kMaxHistoryLimit := by
  simp only [handleHistory] at h
  split_ifs at h with _ hlimit
  obtain rfl := Verdict.pass.inj h
  dsimp only
  omega

/-- For every history request that is accepted and whatever rows the database returns for it, no
more than it asked for : the answer that `process_db_response` makes of the fetched rows can be
sent, so `send` does not close the connection over it, and it is read back to its last byte as
these rows. -/
theorem history_fits {body : Bytes} {req : Request} (hreq : handleHistory body = .pass req)
    {result : List ResultRow} (hlimit : result.length ≤ req.limit) {F : Faults} {st : Statement}
    {c : DbLink} {rows : List LogRow}
    (hfetch : (DbLink.fetchHistoryRows F st (result.map .ofResult) c).1 = (true, rows))
    {res : Response} (hkind : res.kind = .history) (hstatus : res.status = .ok)
    (hrows : res.rows = rows) :
    rows = result.map .ofResult ∧ (processDbResponse res).msgId = kHistoryAck ∧
      (processDbResponse res).body.length ≤ kMaxOutboundBody ∧
      (∀ s : Sender, (s.enter (processDbResponse res)).closed = s.closed) ∧
      (ByteReader.readHistory (processDbResponse res).body).1 = rows ∧
      (ByteReader.readHistory (processDbResponse res).body).2.consumedAll = true := by
  have hresult := DbLink.eq_of_fetchHistoryRows hfetch
  have hfits : ∀ row ∈ rows, row.Fits := by
    rw [hresult]
    intro row hrow
    obtain ⟨r, -, rfl⟩ := List.mem_map.mp hrow
    exact LogRow.fits_ofResult r
  have hcount : rows.length ≤ kMaxHistoryLimit := by
    rw [hresult, List.length_map]
    exact hlimit.trans (limit_of_handleHistory hreq)
  have hack : processDbResponse res = ⟨kHistoryAck, storeBe 2 rows.length ++ logBytes rows⟩ := by
    simp only [processDbResponse, hstatus, dbReply, hkind, hrows, data_writeRows hfits]
    rfl
  have hlen : (processDbResponse res).body.length ≤ kMaxOutboundBody := by
    have hbytes := length_logBytes_le hfits
    have hmul := Nat.mul_le_mul_right (18 + kMaxPayloadLen) hcount
    rw [hack, List.length_append, length_storeBe]
    calc 2 + (logBytes rows).length ≤ 2 + kMaxHistoryLimit * (18 + kMaxPayloadLen) := by omega
      _ ≤ kMaxOutboundBody := by decide
  refine ⟨hresult, by rw [hack], hlen, fun s => ?_, ?_⟩
  · unfold Sender.enter
    split_ifs with hclosed
    · rfl
    · omega
    · rfl
  · have hstart := ByteReader.at_ofBody (storeBe 2 rows.length ++ logBytes rows)
    obtain ⟨hn, hr⟩ := hstart.uint (by
      have : kMaxHistoryLimit < 256 ^ 2 := by decide
      omega)
    rw [← List.append_nil (logBytes rows)] at hr
    obtain ⟨hread, hend⟩ := read_logBytes hfits hr
    rw [List.append_nil] at hread hend
    simp only [hack, ByteReader.readHistory, ByteReader.u16, hn]
    exact ⟨hread, hend.consumedAll⟩

/-- Two rows, one without a payload and one with a payload that does not fit. -/
def twoRows : List ResultRow := [⟨7, none, 0⟩, ⟨6, some (List.replicate 600 0), 1⟩]

/-- Two rows, one of them with an empty payload. -/
theorem history_fits_two_rows :
    ∃ res : Response, res.rows = twoRows.map .ofResult ∧
      (processDbResponse res).body.length ≤ kMaxOutboundBody ∧
      (ByteReader.readHistory (processDbResponse res).body).1 = twoRows.map .ofResult := by
  have hreq : handleHistory [0, 2] = .pass { Request.ofKind .history with limit := 2 } := by
    decide +kernel
  have hfetch : (DbLink.fetchHistoryRows .none .history (twoRows.map .ofResult)
      (.opened .empty 1)).1 = (true, twoRows.map .ofResult) := rfl
  have hlimit : twoRows.length ≤ ({ Request.ofKind .history with limit := 2 } : Request).limit := by
    decide
  let res : Response := ⟨.history, 1, .ok, 0, twoRows.map .ofResult, 0, false⟩
  have hkind : res.kind = .history := rfl
  have hfits := history_fits hreq hlimit hfetch hkind rfl rfl
  exact ⟨_, rfl, hfits.2.2.1, hfits.2.2.2.2.1⟩

end EchoServer
