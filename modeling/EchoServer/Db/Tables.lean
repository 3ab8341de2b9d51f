import Mathlib.Data.List.AList
import Mathlib.Data.List.Sort
import EchoServer.Db.Types

/-!
# The tables of the database

`sql/001_schema.sql`, less the times that no query of the server reads but one : when a row
of `echo_log` was created. That one is not stored; a query for it takes a function that tells
when the row with a given id was created.

A table with a primary key is an `AList`. A key is a value of its column : what the collation
of the column does not tell apart is one key. `applied` records the request keys that
`echo_counter` was incremented for; no statement reads it.
-/

namespace EchoServer

/-- A row of `echo_log`. -/
structure LogEntry where
  logId : ℕ
  sessionKey : Bytes
  payload : Bytes
  deriving DecidableEq, Repr

/-- A row of `echo_counter`, less its key. -/
structure CounterRow where
  hitCount : ℕ
  version : ℕ
  deriving DecidableEq, Repr

/-- The tables of the schema, as far as the statements read them. -/
structure Tables where
  /-- `echo_log`. -/
  log : List LogEntry
  /-- `echo_counter`, by session key. -/
  counters : AList fun _ : Bytes => CounterRow
  /-- `counter_request` : the session key that each request key came from. -/
  requests : AList fun _ : Bytes => Bytes
  applied : List Bytes

/-- The longest payload that a row of a history carries. -/
def kMaxPayloadLen : ℕ := 512

namespace Tables

/-- A database in which nothing has been stored. -/
def empty : Tables := ⟨[], ∅, ∅, []⟩

/-- `INSERT INTO echo_log(session_key, payload)`, with the next id of the table. -/
def insertLog (logId : ℕ) (sessionKey payload : Bytes) (t : Tables) : Tables :=
  { t with log := t.log ++ [⟨logId, sessionKey, payload⟩] }

/-- `SELECT … FROM echo_log WHERE session_key = ? ORDER BY log_id DESC LIMIT ?`, as
`fetch_history_rows` copies it out. -/
def recent (createdAt : ℕ → ℕ) (sessionKey : Bytes) (limit : ℕ) (t : Tables) : List LogRow :=
  let rows := t.log.filter fun row => row.sessionKey = sessionKey
  ((rows.insertionSort fun a b => b.logId ≤ a.logId).take limit).map fun row =>
    ⟨row.logId, row.payload.take kMaxPayloadLen, createdAt row.logId⟩

/-- The claim of a request key is in `counter_request`. -/
def claimed (requestKey : Bytes) (t : Tables) : Bool := (t.requests.lookup requestKey).isSome

/-- `INSERT INTO counter_request(request_key, session_key)`. -/
def claim (requestKey sessionKey : Bytes) (t : Tables) : Tables :=
  { t with requests := t.requests.insert requestKey sessionKey }

/-- `SELECT hit_count FROM echo_counter WHERE session_key = ?`. -/
def hitCount (sessionKey : Bytes) (t : Tables) : Option ℕ :=
  (t.counters.lookup sessionKey).map CounterRow.hitCount

/-- `INSERT INTO echo_counter … ON DUPLICATE KEY UPDATE`, on behalf of a request key. -/
def bump (sessionKey requestKey : Bytes) (t : Tables) : Tables :=
  let row := match t.counters.lookup sessionKey with
    | none => ⟨1, 1⟩
    | some row => ⟨row.hitCount + 1, row.version + 1⟩
  { t with
    counters := t.counters.insert sessionKey row
    applied := t.applied ++ [requestKey] }

/-- The increment that a request key is claimed for. -/
def apply (sessionKey requestKey : Bytes) (t : Tables) : Tables :=
  (t.claim requestKey sessionKey).bump sessionKey requestKey

/-- The sum of all hit counts. -/
def hits (t : Tables) : ℕ := (t.counters.entries.map fun row => row.2.hitCount).sum

/-! ## What an increment does -/

variable (sessionKey requestKey : Bytes) (t : Tables)

@[simp] theorem claimed_claim (key : Bytes) :
    (t.claim requestKey sessionKey).claimed key = (decide (key = requestKey) || t.claimed key) := by
  by_cases h : key = requestKey
  · subst h
    simp [claimed, claim]
  · simp [claimed, claim, h]

@[simp] theorem claimed_bump (key : Bytes) :
    (t.bump sessionKey requestKey).claimed key = t.claimed key := rfl

@[simp] theorem claimed_apply (key : Bytes) :
    (t.apply sessionKey requestKey).claimed key = (decide (key = requestKey) || t.claimed key) := by
  rw [apply, claimed_bump, claimed_claim]

@[simp] theorem applied_apply :
    (t.apply sessionKey requestKey).applied = t.applied ++ [requestKey] := rfl

@[simp] theorem hitCount_claim (key : Bytes) :
    (t.claim requestKey sessionKey).hitCount key = t.hitCount key := rfl

/-- Counting adds one to the counter of the session. -/
theorem hitCount_bump_self :
    (t.bump sessionKey requestKey).hitCount sessionKey =
      some ((t.hitCount sessionKey).getD 0 + 1) := by
  cases h : t.counters.lookup sessionKey <;> simp [hitCount, bump, h]

/-- So does applying a request. -/
theorem hitCount_apply_self :
    (t.apply sessionKey requestKey).hitCount sessionKey =
      some ((t.hitCount sessionKey).getD 0 + 1) := by
  rw [apply, hitCount_bump_self, hitCount_claim]

/-- The sum after a row is written is what the row holds and what the others held. -/
theorem sum_insert (f : CounterRow → ℕ) (s : AList fun _ : Bytes => CounterRow) (key : Bytes)
    (row : CounterRow) :
    ((s.insert key row).entries.map fun e => f e.2).sum + ((s.lookup key).map f).getD 0 =
      (s.entries.map fun e => f e.2).sum + f row := by
  have hout : (s.entries.map fun e => f e.2).sum =
      ((List.kerase key s.entries).map fun e => f e.2).sum + ((s.lookup key).map f).getD 0 := by
    cases h : s.lookup key with
    | none =>
      have hnot : key ∉ s.entries.keys := by
        simpa [AList.lookup, List.dlookup_eq_none] using h
      rw [List.kerase_of_notMem_keys hnot]
      rfl
    | some old =>
      have hkey : key ∈ s.entries.keys :=
        List.dlookup_isSome.mp (by rw [show s.entries.dlookup key = some old from h]; rfl)
      obtain ⟨b, l₁, l₂, hnot, hl, herase⟩ := List.exists_of_kerase hkey
      have hb : s.entries.dlookup key = some b :=
        (List.mem_dlookup_iff s.nodupKeys).mpr (by rw [hl]; simp)
      obtain rfl : old = b :=
        Option.some.inj ((show s.entries.dlookup key = some old from h).symm.trans hb)
      rw [herase, hl]
      simp
      omega
  rw [hout]
  simp [AList.insert, List.kinsert]
  omega

/-- An increment adds one to the sum of all hit counts. -/
theorem hits_apply : (t.apply sessionKey requestKey).hits = t.hits + 1 := by
  have h := sum_insert CounterRow.hitCount t.counters sessionKey
    (match t.counters.lookup sessionKey with
      | none => ⟨1, 1⟩
      | some row => ⟨row.hitCount + 1, row.version + 1⟩)
  simp only [hits, apply, bump, claim]
  cases hrow : t.counters.lookup sessionKey <;> simp [hrow] at h ⊢ <;> omega

end Tables

end EchoServer
