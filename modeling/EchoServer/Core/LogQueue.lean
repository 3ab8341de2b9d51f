import EchoServer.Core.SwapQueue
import EchoServer.Lib.Lines
import EchoServer.Lib.Threads

/-!
# The queue of the log

`core/log.cpp` : a call of `log_write` assembles one line in a buffer of fixed size and, while the
writer runs, puts it into a queue; the thread of the writer takes what is in the queue every few
milliseconds and writes it. Before `log_start` and after `log_stop` a call writes its line itself.

The calls, the writer and the thread that starts and stops the log run side by side. One step is one
access to what they share : the flag, a section of the mutex of the queue, a section of the mutex of
the file. `LogHistory` records what a run has done; no step reads it.

Every line is accounted for, and the queue is written in its order (`log_accounted`); calls that
test the length of the queue before they put a line into it can exceed its cap, by one for each call
that is under way (`log_bounded`); and `log_stop` leaves behind what calls put into the queue after
the last swap, because they have seen the log running (`log_stop_leaves`).
-/

namespace EchoServer

open Threads

/-! ## Lines -/

/-- How much a line matters. -/
inductive LogLevel where
  | debug
  | info
  | warn
  | error

namespace LogLevel

/-- The levels in their order. -/
def rank : LogLevel → ℕ
  | debug => 0
  | info => 1
  | warn => 2
  | error => 3

/-- `level_tag`. -/
def tag : LogLevel → List Char
  | debug => "DEBUG".toList
  | info => "INFO ".toList
  | warn => "WARN ".toList
  | error => "ERROR".toList

end LogLevel

/-- The buffer of one line. -/
def kLineMax : ℕ := 240

/-- From so many lines in the queue on, a line is dropped. -/
def kQueueCap : ℕ := 65536

/-- One line as it is written. -/
structure Record where
  line : List Char
  length_lt : line.length < kLineMax
  ends : line.getLast? = some '\n'
  deriving DecidableEq

/-- A call of `log_write`, with what it reads of the clock and of its thread; `body` is its text
with the arguments filled in. -/
structure LogCall where
  level : LogLevel
  hour : ℕ
  minute : ℕ
  second : ℕ
  ms : ℕ
  tid : ℕ
  body : List Char
  file : List Char
  line : ℕ

/-- `base_name`. -/
def baseName : List Char → List Char
  | [] => []
  | c :: path =>
    if (c :: path).any fun d => d = '/' || d = '\\' then baseName path else c :: path

namespace LogCall

/-- A number in a field of at least `w` places. -/
def field (base w n : ℕ) : List Char := (Nat.toDigits base n).leftpad w '0'

/-- What `snprintf` makes of the call in a buffer that is large enough. -/
def text (c : LogCall) : List Char :=
  field 10 2 c.hour ++ ':' :: field 10 2 c.minute ++ ':' :: field 10 2 c.second ++
    '.' :: field 10 3 c.ms ++ " [".toList ++ c.level.tag ++ "] t".toList ++ field 16 4 c.tid ++
    ' ' :: c.body.take (kLineMax - 1) ++ " (".toList ++ baseName c.file ++
    ':' :: Nat.toDigits 10 c.line ++ [')', '\n']

/-- Every line ends with a newline. -/
theorem getLast?_text (c : LogCall) : c.text.getLast? = some '\n' := by
  rw [text, List.getLast?_append]
  rfl

/-- The line, cut to the buffer. -/
def record (c : LogCall) : Record :=
  if h : c.text.length < kLineMax then ⟨c.text, h, c.getLast?_text⟩
  else ⟨c.text.take (kLineMax - 2) ++ ['\n'], by simp [kLineMax]; omega, by simp⟩

end LogCall

/-! ## The threads -/

/-- The buffer that is not being written. -/
def SwapQueue.taken {τ : Type*} (q : SwapQueue τ) : List τ := q.buffers (!q.write)

/-- What a call of `log_write` has still to do. -/
inductive CallOp where
  | testRunning (r : Record)
  -- the path without the queue, under the mutex of the file
  | emit (r : Record)
  | testPending (r : Record)
  | push (r : Record)

namespace CallOp

/-- The line that a call is about. -/
def record : CallOp → Record
  | testRunning r | emit r | testPending r | push r => r

/-- The call still has the line. -/
def carries (r : Record) (op : CallOp) : ℕ := [op.record].count r

/-- The call has seen the log running, and has not put its line into the queue. -/
def risky : CallOp → ℕ
  | testPending _ | push _ => 1
  | _ => 0

/-- The call has passed the test of the cap. -/
def pushing : CallOp → ℕ
  | push _ => 1
  | _ => 0

end CallOp

/-- Where `writer_loop` is; in the last round the flag is down. -/
inductive WriterPlace where
  | none
  | loop
  | swap (last : Bool)
  | emit (last : Bool)
  deriving DecidableEq

/-- The writer has not seen the flag down. -/
def WriterPlace.works : WriterPlace → Bool
  | .loop | .swap false | .emit false => true
  | _ => false

/-- Where `log_start` or `log_stop` is. -/
inductive ControlPlace where
  | idle
  | openFile
  | store
  | create
  | join
  | close
  deriving DecidableEq

/-- What the file system and the clock answer. -/
structure LogEnv where
  newDay : Bool
  /-- `rotated_target` finds a name. -/
  target : Bool
  renamed : Bool
  opened : Bool
  sized : Bool

/-- What a run has done. -/
structure LogHistory where
  /-- The lines of the calls that passed the test of the level. -/
  begun : List Record
  pushed : List Record
  lost : List Record
  /-- What the writer has written. -/
  drained : List Record
  /-- How many calls had seen the log running, and had not put their line into the queue, when the
  writer swapped last. -/
  late : ℕ

/-- The log : its queue, its file, its writer and the calls of `log_write`. -/
structure Logger where
  level : LogLevel
  running : Bool
  queue : SwapQueue Record
  dropped : ℕ
  /-- `g_path` is not empty. -/
  named : Bool
  maxBytes : ℕ
  /-- `g_file`. -/
  isOpen : Bool
  written : ℕ
  stderr : List Record
  /-- The size of the active file when the log was opened first, and what has been added to it. -/
  before : ℕ
  active : List Record
  rotated : List (List Record)
  writer : WriterPlace
  control : ControlPlace
  calls : Threads CallOp
  history : LogHistory

/-- What a thread does next. -/
inductive LogAct where
  | call (c : LogCall)
  /-- The call with number `i` goes on. -/
  | caller (i : ℕ)
  | writer (e : LogEnv)
  | start (named : Bool) (level : LogLevel) (maxBytes : ℕ)
  | stop
  | control (e : LogEnv)
  | setLevel (level : LogLevel)

namespace Logger

/-- The size of some lines in the file. -/
def bytes (records : List Record) : ℕ := (records.map fun r => r.line.length).sum

/-- `emit`. -/
def emit (s : Logger) (r : Record) : Logger :=
  { s with
    stderr := s.stderr ++ [r]
    active := if s.isOpen then s.active ++ [r] else s.active
    written := if s.isOpen then s.written + r.line.length else s.written }

/-- `open_file`. -/
def openFile (e : LogEnv) (s : Logger) : Logger :=
  { s with
    isOpen := e.opened
    written := if e.opened && e.sized then s.before + bytes s.active else 0 }

/-- `rotate_if_needed`. -/
def rotateIfNeeded (e : LogEnv) (s : Logger) : Logger :=
  if !s.isOpen || !s.named then s
  else if !(0 < s.maxBytes && s.maxBytes ≤ s.written) && !e.newDay then s
  else if !e.target then s
  else if e.renamed then
    openFile e { s with rotated := s.rotated ++ [s.active], before := 0, active := [] }
  else openFile e s

/-- What `drain` does with the batch. -/
def drainBatch (e : LogEnv) (s : Logger) : Logger :=
  if s.queue.taken.isEmpty then s
  else
    let t := s.queue.taken.foldl emit s
    rotateIfNeeded e { t with
      queue := { t.queue with buffers := Function.update t.queue.buffers (!t.queue.write) [] }
      history := { t.history with drained := t.history.drained ++ s.queue.taken } }

/-- A call of `log_write` : what it shares, and what it has still to do. -/
def callStep (s : Logger) : CallOp → Logger × List CallOp
  | .testRunning r => (s, [if s.running then .testPending r else .emit r])
  | .emit r => (s.emit r, [])
  | .testPending r =>
    if kQueueCap ≤ s.queue.waiting.length then
      ({ s with
          dropped := s.dropped + 1
          history := { s.history with lost := s.history.lost ++ [r] } }, [])
    else (s, [.push r])
  | .push r =>
    ({ s with
        queue := s.queue.push r
        history := { s.history with pushed := s.history.pushed ++ [r] } }, [])

/-- `writer_loop`. -/
def writerStep (e : LogEnv) (s : Logger) : Option Logger :=
  match s.writer with
  | .none => none
  | .loop => some { s with writer := .swap !s.running }
  | .swap last =>
    some { s with
      queue := s.queue.swap.2
      writer := .emit last
      history := { s.history with late := s.calls.weight CallOp.risky } }
  | .emit last => some { s.drainBatch e with writer := if last then .none else .loop }

/-- `log_start` and `log_stop`. -/
def controlStep (e : LogEnv) (s : Logger) : Option Logger :=
  match s.control with
  | .idle => none
  | .openFile => some { (if s.named then s.openFile e else s) with control := .store }
  | .store => some { s with running := true, control := .create }
  | .create => some { s with writer := .loop, control := .idle }
  | .join => if s.writer = .none then some { s with control := .close } else none
  | .close => some { s with isOpen := false, control := .idle }

/-- One thread calls `log_start` and `log_stop`. -/
def step (s : Logger) : LogAct → Option Logger
  | .call c =>
    if c.level.rank < s.level.rank then some s
    else some { s with
      calls := s.calls.spawn [.testRunning c.record]
      history := { s.history with begun := s.history.begun ++ [c.record] } }
  | .caller i =>
    match s.calls.head i with
    | none => none
    | some op =>
      some { (s.callStep op).1 with calls := s.calls.exec i (s.callStep op).2 }
  | .writer e => s.writerStep e
  | .start named level maxBytes =>
    if s.control = .idle then
      if s.running then some s
      else some { s with level, named, maxBytes, control := .openFile }
    else none
  | .stop =>
    if s.control = .idle then
      if s.running then some { s with running := false, control := .join } else some s
    else none
  | .control e => s.controlStep e
  | .setLevel level => some { s with level }

/-- Before the first `log_start`, with what is in the file. -/
def fresh (before : ℕ) : Logger where
  level := .info
  running := false
  queue := .empty
  dropped := 0
  named := false
  maxBytes := 0
  isOpen := false
  written := 0
  stderr := []
  before := before
  active := []
  rotated := []
  writer := .none
  control := .idle
  calls := []
  history := ⟨[], [], [], [], 0⟩

end Logger

/-- The log from its start on. -/
def logger : Machine Logger LogAct where
  init s := ∃ before, s = .fresh before
  step := Logger.step

/-! ## What one step does -/

namespace SwapQueue

variable {τ : Type*} (q : SwapQueue τ)

@[simp] theorem taken_push (item : τ) : (q.push item).taken = q.taken := by
  simp [taken, push]

@[simp] theorem taken_swap : q.swap.2.taken = q.waiting := by
  simp [taken, swap, waiting]

end SwapQueue

namespace Logger

variable {s s' : Logger} {a : LogAct} {e : LogEnv} {r : Record}

/-- Writing lines touches what is written and nothing else. -/
theorem foldl_emit (l : List Record) : ∀ s : Logger, ∃ active written,
    l.foldl emit s = { s with stderr := s.stderr ++ l, active, written } := by
  induction l with
  | nil => exact fun s => ⟨s.active, s.written, by simp⟩
  | cons r l ih =>
    intro s
    obtain ⟨active, written, heq⟩ := ih (s.emit r)
    exact ⟨active, written, by rw [List.foldl_cons, heq]; simp [emit]⟩

/-- A rotation touches only what the writer alone owns. -/
theorem rotateIfNeeded_eq (e : LogEnv) (s : Logger) :
    ∃ isOpen written before active rotated,
      s.rotateIfNeeded e = { s with isOpen, written, before, active, rotated } := by
  unfold rotateIfNeeded
  split_ifs
  all_goals exact ⟨_, _, _, _, _, rfl⟩

/-- What is drained is written, and the batch is empty. -/
structure Drained (s t : Logger) : Prop where
  stderr : t.stderr = s.stderr ++ s.queue.taken
  waiting : t.queue.waiting = s.queue.waiting
  batch : t.queue.taken = []
  history : t.history = { s.history with drained := s.history.drained ++ s.queue.taken }
  calls : t.calls = s.calls
  flags : t.running = s.running ∧ t.dropped = s.dropped ∧ t.control = s.control

/-- Draining writes the batch and notices nothing else. -/
theorem drained (e : LogEnv) (s : Logger) : s.Drained (s.drainBatch e) := by
  unfold drainBatch
  split_ifs with hempty
  · have hnil : s.queue.taken = [] := List.isEmpty_iff.mp hempty
    exact ⟨by simp [hnil], rfl, hnil, by simp [hnil], rfl, rfl, rfl, rfl⟩
  · obtain ⟨active, written, hemit⟩ := foldl_emit s.queue.taken s
    rw [hemit]
    obtain ⟨_, _, _, _, _, heq⟩ := rotateIfNeeded_eq e
      { s with
        stderr := s.stderr ++ s.queue.taken, active, written
        queue := { s.queue with buffers := Function.update s.queue.buffers (!s.queue.write) [] }
        history := { s.history with drained := s.history.drained ++ s.queue.taken } }
    dsimp only at heq ⊢
    rw [heq]
    refine ⟨rfl, ?_, ?_, rfl, rfl, rfl, rfl, rfl⟩
    · simp [SwapQueue.waiting]
    · simp [SwapQueue.taken]

/-! ## Starting and stopping -/

/-- The flag and the writer, for each place of the thread that starts and stops the log. -/
def Phase (s : Logger) : Prop :=
  match s.control with
  | .idle => s.running = true ∧ s.writer.works = true ∨
      s.running = false ∧ s.writer = .none ∧ s.isOpen = false
  | .openFile | .store => s.running = false ∧ s.writer = .none
  | .create => s.running = true ∧ s.writer = .none
  | .join => s.running = false
  | .close => s.running = false ∧ s.writer = .none

/-- A caller does not touch the file, the flag or the threads of the log. -/
theorem isOpen_callStep (s : Logger) (op : CallOp) :
    (s.callStep op).1.isOpen = s.isOpen ∧ (s.callStep op).1.running = s.running ∧
      (s.callStep op).1.writer = s.writer ∧ (s.callStep op).1.control = s.control := by
  cases op <;> simp only [callStep]
  case testPending => split_ifs <;> simp
  all_goals simp [emit]

/-- The writer ends only once the log is being stopped. -/
theorem Phase.writer (h : s.Phase) (hstep : s.writerStep e = some s') : s'.Phase := by
  unfold writerStep at hstep
  split at hstep
  · cases hstep
  · rename_i hplace
    cases hstep
    unfold Phase at h ⊢
    cases hcontrol : s.control <;> simp_all [WriterPlace.works]
  · rename_i last hplace
    cases hstep
    unfold Phase at h ⊢
    cases hcontrol : s.control <;> cases last <;> simp_all [WriterPlace.works]
  · rename_i last hplace
    cases hstep
    obtain ⟨hrunning, -, hcontrol⟩ := (s.drained e).flags
    unfold Phase at h ⊢
    dsimp only
    rw [hrunning, hcontrol]
    cases hcontrol : s.control <;> cases last <;> simp_all [WriterPlace.works]

/-- No step opens the log before its writer runs. -/
theorem Phase.step (h : s.Phase) (hstep : s.step a = some s') : s'.Phase := by
  cases a with
  | call c =>
    simp only [Logger.step] at hstep
    split_ifs at hstep <;> cases hstep <;> exact h
  | caller i =>
    simp only [Logger.step] at hstep
    split at hstep
    · cases hstep
    · rename_i op hi
      cases hstep
      obtain ⟨hopen, hrunning, hwriter, hcontrol⟩ := s.isOpen_callStep op
      simpa only [Phase, hopen, hrunning, hwriter, hcontrol] using h
  | writer e => exact h.writer hstep
  | start named level maxBytes =>
    simp only [Logger.step] at hstep
    split_ifs at hstep with hidle hrunning
    · cases hstep
      exact h
    · cases hstep
      unfold Phase at h ⊢
      simp_all
  | stop =>
    simp only [Logger.step] at hstep
    split_ifs at hstep with hidle hrunning
    · cases hstep
      unfold Phase at h ⊢
      simp_all
    · cases hstep
      exact h
  | control e =>
    simp only [Logger.step, controlStep] at hstep
    split at hstep
    · cases hstep
    · rename_i hplace
      cases hstep
      unfold Phase at h ⊢
      split_ifs <;> simp_all [openFile]
    · rename_i hplace
      cases hstep
      unfold Phase at h ⊢
      simp_all
    · rename_i hplace
      cases hstep
      unfold Phase at h ⊢
      simp_all [WriterPlace.works]
    · rename_i hplace
      split_ifs at hstep with hnone
      cases hstep
      unfold Phase at h ⊢
      simp_all
    · rename_i hplace
      cases hstep
      unfold Phase at h ⊢
      simp_all
  | setLevel level =>
    cases hstep
    exact h

/-! ## Every line -/

/-- Where the lines are. Outside of the two places between a swap and the end of the batch, the
writer has no batch. -/
structure Accounted (s : Logger) : Prop where
  count : ∀ r, s.history.begun.count r = s.stderr.count r + s.history.lost.count r +
    s.queue.taken.count r + s.queue.waiting.count r + s.calls.weight (CallOp.carries r)
  dropped : s.dropped = s.history.lost.length
  order : s.history.pushed = s.history.drained ++ s.queue.taken ++ s.queue.waiting
  written : s.history.drained.Sublist s.stderr
  idle : (∀ last, s.writer ≠ .emit last) → s.queue.taken = []

namespace Accounted

/-- Nothing has been accepted, written or dropped. -/
theorem fresh (before : ℕ) : Accounted (.fresh before) where
  count _ := rfl
  dropped := rfl
  order := rfl
  written := List.Sublist.refl _
  idle _ := rfl

/-- A caller's line is accepted, dropped or written to stderr, and counted so. -/
theorem call {i : ℕ} {op : CallOp} (h : s.Accounted) (hi : s.calls.head i = some op) :
    Accounted { (s.callStep op).1 with calls := s.calls.exec i (s.callStep op).2 } := by
  have hweight := fun r => weight_exec (CallOp.carries r) hi (s.callStep op).2
  have hcount := h.count
  cases op with
  | testRunning r =>
    simp only [callStep] at hweight ⊢
    refine ⟨fun r' => ?_, h.dropped, h.order, h.written, h.idle⟩
    have := hweight r'
    have := hcount r'
    split_ifs at * <;> simp [CallOp.carries, CallOp.record] at * <;> omega
  | emit r =>
    simp only [callStep] at hweight ⊢
    refine ⟨fun r' => ?_, h.dropped, h.order, h.written.trans (List.sublist_append_left ..), h.idle⟩
    have := hweight r'
    have := hcount r'
    simp [CallOp.carries, CallOp.record, Logger.emit, List.count_singleton] at *
    omega
  | testPending r =>
    simp only [callStep] at hweight ⊢
    split_ifs at * with hfull
    · refine ⟨fun r' => ?_, by simp [h.dropped], h.order, h.written, h.idle⟩
      have := hweight r'
      have := hcount r'
      simp [CallOp.carries, CallOp.record, List.count_singleton] at *
      omega
    · refine ⟨fun r' => ?_, h.dropped, h.order, h.written, h.idle⟩
      have := hweight r'
      have := hcount r'
      simp [CallOp.carries, CallOp.record] at *
      omega
  | push r =>
    simp only [callStep] at hweight ⊢
    refine ⟨fun r' => ?_, h.dropped, ?_, h.written, fun hidle => by simpa using h.idle hidle⟩
    · have := hweight r'
      have := hcount r'
      simp [CallOp.carries, CallOp.record, List.count_singleton] at *
      omega
    · simp [h.order]

/-- The writer moves lines from the queue to the file. -/
theorem writer (h : s.Accounted) (hstep : s.writerStep e = some s') : s'.Accounted := by
  unfold writerStep at hstep
  split at hstep
  · cases hstep
  · rename_i hplace
    cases hstep
    exact ⟨h.count, h.dropped, h.order, h.written, fun _ => h.idle (by simp [hplace])⟩
  · rename_i last hplace
    cases hstep
    have hidle := h.idle (by simp [hplace])
    refine ⟨fun r => ?_, h.dropped, ?_, h.written, fun hne => absurd rfl (hne last)⟩
    · have := h.count r
      simp [hidle] at *
      omega
    · simp [h.order, hidle]
  · rename_i last hplace
    cases hstep
    have hd := s.drained e
    obtain ⟨hrunning, hdropped, hcontrol⟩ := hd.flags
    refine ⟨fun r => ?_, ?_, ?_, ?_, fun _ => hd.batch⟩
    · have := h.count r
      simp only [hd.stderr, hd.waiting, hd.batch, hd.history, hd.calls, List.count_append,
        List.count_nil]
      omega
    · simp only [hdropped, hd.history]
      exact h.dropped
    · simp only [hd.waiting, hd.batch, hd.history, List.append_nil]
      exact h.order
    · simp only [hd.stderr, hd.history]
      exact h.written.append_right _

/-- Starting and stopping neither lose a line nor count one twice. -/
theorem control (h : s.Accounted) (hphase : s.Phase) (hstep : s.controlStep e = some s') :
    s'.Accounted := by
  unfold controlStep at hstep
  split at hstep
  · cases hstep
  · cases hstep
    split_ifs
    · exact ⟨h.count, h.dropped, h.order, h.written, h.idle⟩
    · exact ⟨h.count, h.dropped, h.order, h.written, h.idle⟩
  · cases hstep
    exact ⟨h.count, h.dropped, h.order, h.written, h.idle⟩
  · rename_i hplace
    cases hstep
    have hnone : s.writer = .none := by
      unfold Phase at hphase
      rw [hplace] at hphase
      exact hphase.2
    exact ⟨h.count, h.dropped, h.order, h.written, fun _ => h.idle (by simp [hnone])⟩
  · split_ifs at hstep
    cases hstep
    exact ⟨h.count, h.dropped, h.order, h.written, h.idle⟩
  · cases hstep
    exact ⟨h.count, h.dropped, h.order, h.written, h.idle⟩

/-- Every step keeps the account. -/
theorem step (h : s.Accounted) (hphase : s.Phase) (hstep : s.step a = some s') :
    s'.Accounted := by
  cases a with
  | call c =>
    simp only [Logger.step] at hstep
    split_ifs at hstep <;> cases hstep
    · exact h
    · refine ⟨fun r => ?_, h.dropped, h.order, h.written, h.idle⟩
      have := h.count r
      simp [CallOp.carries, CallOp.record] at *
      omega
  | caller i =>
    simp only [Logger.step] at hstep
    split at hstep
    · cases hstep
    · rename_i op hi
      cases hstep
      exact h.call hi
  | writer e => exact h.writer hstep
  | start named level maxBytes =>
    simp only [Logger.step] at hstep
    split_ifs at hstep
    · cases hstep
      exact h
    · cases hstep
      exact ⟨h.count, h.dropped, h.order, h.written, h.idle⟩
  | stop =>
    simp only [Logger.step] at hstep
    split_ifs at hstep
    · cases hstep
      exact ⟨h.count, h.dropped, h.order, h.written, h.idle⟩
    · cases hstep
      exact h
  | control e => exact h.control hphase hstep
  | setLevel level =>
    cases hstep
    exact ⟨h.count, h.dropped, h.order, h.written, h.idle⟩

end Accounted

/-- What holds of a log that has not been started and is kept by every step of a log whose threads
are where they should be holds in every run. -/
theorem invariant {I : Logger → Prop} (h0 : ∀ before, I (.fresh before))
    (hs : ∀ s a s', s.Phase → I s → s.step a = some s' → I s') (h : logger.Reaches s) :
    s.Phase ∧ I s := by
  refine Machine.Reaches.invariant (I := fun s => Phase s ∧ I s) ?_ (fun s a s' hs' hstep => ?_) h
  · rintro s ⟨before, rfl⟩
    exact ⟨Or.inr ⟨rfl, rfl, rfl⟩, h0 before⟩
  · exact ⟨hs'.1.step hstep, hs s a s' hs'.1 hs'.2 hstep⟩

/-- A call, whatever the clock shows. -/
def logCall (body : List Char) : LogCall := ⟨.info, 1, 2, 3, 4, 5, body, ['a', '.', 'c'], 6⟩

/-- The system grants what it is asked for. -/
def allOk : LogEnv := ⟨false, true, true, true, true⟩

/-- Of two calls the second has found room in the queue when `log_stop` raises its hand; it puts its
line into the queue when `log_stop` has returned. -/
def lateRun : List LogAct :=
  [.start true .info 0, .control allOk, .control allOk, .control allOk,
    .call (logCall ['x']), .caller 0, .caller 0, .caller 0,
    .call (logCall ['y']), .caller 1, .caller 1,
    .stop, .writer allOk, .writer allOk, .writer allOk,
    .control allOk, .control allOk, .caller 1]

/-- In every run, each line of a call that passes the test of the level is written, or counted as
dropped, or in the batch or the queue, or still with its call, and it is so once; what is put into
the queue is written in the order in which it was put there. -/
theorem log_accounted (h : logger.Reaches s) :
    (∀ r, s.history.begun.count r = s.stderr.count r + s.history.lost.count r +
        s.queue.taken.count r + s.queue.waiting.count r +
          s.calls.weight (CallOp.carries r)) ∧
      s.dropped = s.history.lost.length ∧
      ∃ drained, drained.Sublist s.stderr ∧
        s.history.pushed = drained ++ s.queue.taken ++ s.queue.waiting := by
  obtain ⟨-, hs⟩ := invariant .fresh (fun s a s' hphase hs => Accounted.step hs hphase) h
  exact ⟨hs.count, hs.dropped, _, hs.written, hs.order⟩

/-- One line is written, and the other is in the queue. -/
theorem log_accounted_late : ∃ s : Logger,
    (s.stderr.length = 1 ∧ s.queue.waiting.length = 1 ∧ s.history.begun.length = 2) ∧
      s.dropped = s.history.lost.length := by
  obtain ⟨s, hs, htest⟩ := logger.exists_reachesWhen (fun _ _ => True) (.fresh 0) lateRun
    (fun s => decide (s.stderr.length = 1 ∧ s.queue.waiting.length = 1 ∧
      s.history.begun.length = 2)) ⟨0, rfl⟩ (by decide +kernel)
  exact ⟨s, of_decide_eq_true htest, (log_accounted hs).2.1⟩

/-! ## Stopping -/

/-- Once the flag is down and the last batch is taken, lines come into the queue only of calls that
were late. -/
def LeavesLate (s : Logger) : Prop :=
  s.running = false → s.writer = .none ∨ s.writer = .emit true →
    s.queue.waiting.length + s.calls.weight CallOp.risky ≤ s.history.late

namespace LeavesLate

/-- A line that comes after the stop is written by its caller. -/
theorem call {i : ℕ} {op : CallOp} (h : s.LeavesLate) (hi : s.calls.head i = some op) :
    LeavesLate { (s.callStep op).1 with calls := s.calls.exec i (s.callStep op).2 } := by
  intro hdown hwriter
  have hweight := weight_exec CallOp.risky hi (s.callStep op).2
  cases op with
  | testRunning r =>
    simp only [callStep] at hdown hwriter hweight ⊢
    have := h hdown hwriter
    simp [hdown, CallOp.risky] at hweight ⊢
    omega
  | emit r =>
    have := h hdown hwriter
    simp [callStep, emit, CallOp.risky] at hweight ⊢
    omega
  | testPending r =>
    simp only [callStep] at hdown hwriter hweight ⊢
    split_ifs at hdown hwriter hweight ⊢
    all_goals
      have := h hdown hwriter
      simp [CallOp.risky] at hweight ⊢
      omega
  | push r =>
    have := h hdown hwriter
    simp [callStep, CallOp.risky] at hweight ⊢
    omega

/-- The writer leaves no line behind that came before the stop. -/
theorem writer (h : s.LeavesLate) (hstep : s.writerStep e = some s') : s'.LeavesLate := by
  unfold writerStep at hstep
  split at hstep
  · cases hstep
  · cases hstep
    intro _ hwriter
    simp at hwriter
  · -- the last swap leaves nothing in the queue
    cases hstep
    intro _ _
    simp
  · rename_i last hplace
    cases hstep
    have hd := s.drained e
    intro hdown hwriter
    cases last with
    | false => simp at hwriter
    | true =>
      simp only [hd.flags.1] at hdown
      simp only [hd.waiting, hd.calls, hd.history]
      exact h hdown (Or.inr hplace)

/-- Every step keeps what is left behind to the late lines. -/
theorem step (h : s.LeavesLate) (hphase : s.Phase) (hstep : s.step a = some s') :
    s'.LeavesLate := by
  cases a with
  | call c =>
    simp only [Logger.step] at hstep
    split_ifs at hstep <;> cases hstep
    · exact h
    · intro hdown hwriter
      have := h hdown hwriter
      simpa [CallOp.risky] using this
  | caller i =>
    simp only [Logger.step] at hstep
    split at hstep
    · cases hstep
    · rename_i op hi
      cases hstep
      exact h.call hi
  | writer e => exact h.writer hstep
  | start named level maxBytes =>
    simp only [Logger.step] at hstep
    split_ifs at hstep <;> cases hstep <;> exact h
  | stop =>
    simp only [Logger.step] at hstep
    split_ifs at hstep with hidle hrunning <;> cases hstep
    · -- the writer has not seen the flag down
      intro _ hwriter
      unfold Phase at hphase
      rw [hidle] at hphase
      obtain ⟨-, hworks⟩ | ⟨hdown, -⟩ := hphase
      · obtain hw | hw := hwriter
        · simp [show s.writer = .none from hw, WriterPlace.works] at hworks
        · simp [show s.writer = .emit true from hw, WriterPlace.works] at hworks
      · rw [hrunning] at hdown
        cases hdown
    · exact h
  | control e =>
    simp only [Logger.step, controlStep] at hstep
    split at hstep
    · cases hstep
    · cases hstep
      split_ifs <;> exact h
    · cases hstep
      intro hdown _
      cases hdown
    · rename_i hplace
      cases hstep
      intro hdown _
      unfold Phase at hphase
      rw [hplace] at hphase
      rw [hphase.1] at hdown
      cases hdown
    · split_ifs at hstep
      cases hstep
      exact h
    · cases hstep
      exact h
  | setLevel level =>
    cases hstep
    exact h

end LeavesLate

/-- In every run, when `log_stop` has returned the file is closed and the writer has written what it
took; the queue is left with what it got after the last swap, of calls that had seen the log running
before. With no such call everything that was put into the queue has been written. -/
theorem log_stop_leaves (h : logger.Reaches s) (hreturned : s.control = .idle)
    (hdown : s.running = false) :
    s.isOpen = false ∧ s.writer = .none ∧
      s.queue.waiting.length + s.calls.weight CallOp.risky ≤ s.history.late ∧
      ∃ drained, drained.Sublist s.stderr ∧ s.history.pushed = drained ++ s.queue.waiting := by
  obtain ⟨hphase, hs, hlate⟩ := invariant (I := fun s => s.Accounted ∧ s.LeavesLate)
    (fun before => ⟨.fresh before, fun _ _ => le_rfl⟩)
    (fun s a s' hphase hs hstep => ⟨hs.1.step hphase hstep, hs.2.step hphase hstep⟩) h
  unfold Phase at hphase
  rw [hreturned] at hphase
  obtain ⟨hup, -⟩ | ⟨-, hnone, hclosed⟩ := hphase
  · rw [hdown] at hup
    cases hup
  · have hidle := hs.idle (by simp [hnone])
    refine ⟨hclosed, hnone, hlate hdown (Or.inl hnone), _, hs.written, ?_⟩
    rw [hs.order, hidle, List.append_nil]

/-- A line is left in the queue. -/
theorem log_stop_leaves_one : ∃ s : Logger,
    (s.control = .idle ∧ s.running = false ∧ s.queue.waiting.length = 1 ∧ s.history.late = 1) ∧
      s.isOpen = false := by
  obtain ⟨s, hs, htest⟩ := logger.exists_reachesWhen (fun _ _ => True) (.fresh 0) lateRun
    (fun s => decide (s.control = .idle ∧ s.running = false ∧ s.queue.waiting.length = 1 ∧
      s.history.late = 1)) ⟨0, rfl⟩ (by decide +kernel)
  have hstopped := of_decide_eq_true htest
  exact ⟨s, hstopped, (log_stop_leaves hs hstopped.1 hstopped.2.1).1⟩

/-! ## The cap -/

/-- At most `T` calls are under way at a time. -/
def AtMost (T : ℕ) (s : Logger) : LogAct → Bool
  | .call _ => s.calls.weight (fun _ => 1) < T
  | _ => true

/-- With at most `T` calls under way, the queue and the batch stay below the cap plus `T`. -/
structure Bounded (T : ℕ) (s : Logger) : Prop where
  calls : s.calls.weight (fun _ => 1) ≤ T
  waiting : s.queue.waiting.length + s.calls.weight CallOp.pushing < kQueueCap + T
  taken : s.queue.taken.length < kQueueCap + T

namespace Bounded

variable {T : ℕ}

/-- A caller adds a line only below the limit that it has seen. -/
theorem call {i : ℕ} {op : CallOp} (h : Bounded T s) (hi : s.calls.head i = some op) :
    Bounded T { (s.callStep op).1 with calls := s.calls.exec i (s.callStep op).2 } := by
  have hone := weight_exec (fun _ => 1) hi (s.callStep op).2
  have hpushing := weight_exec CallOp.pushing hi (s.callStep op).2
  have hle : weight CallOp.pushing (s.calls.exec i (s.callStep op).2) ≤
      weight (fun _ => 1) (s.calls.exec i (s.callStep op).2) := by
    refine weight_mono (fun c => ?_) _
    cases c <;> simp [CallOp.pushing]
  obtain ⟨hcalls, hwaiting, htaken⟩ := h
  cases op with
  | testRunning r =>
    simp only [callStep] at *
    split_ifs at *
    all_goals
      simp [CallOp.pushing] at hone hpushing
      constructor <;> dsimp only <;> omega
  | emit r =>
    simp only [callStep, emit] at *
    simp [CallOp.pushing] at hone hpushing
    constructor <;> dsimp only <;> omega
  | testPending r =>
    simp only [callStep] at *
    split_ifs at * with hfull
    · simp [CallOp.pushing] at hone hpushing
      constructor <;> dsimp only <;> omega
    · -- the queue had room when it was tested
      simp [CallOp.pushing] at hone hpushing
      dsimp only at hle
      constructor <;> dsimp only <;> omega
  | push r =>
    simp only [callStep] at *
    simp [CallOp.pushing] at hone hpushing
    constructor <;> simp only [SwapQueue.waiting_push, SwapQueue.taken_push, List.length_append,
      List.length_singleton] <;> omega

/-- The writer only takes lines out. -/
theorem writer (h : Bounded T s) (hstep : s.writerStep e = some s') : Bounded T s' := by
  obtain ⟨hcalls, hwaiting, htaken⟩ := h
  unfold writerStep at hstep
  split at hstep
  · cases hstep
  · cases hstep
    exact ⟨hcalls, hwaiting, htaken⟩
  · cases hstep
    have hle : weight CallOp.pushing s.calls ≤ weight (fun _ => 1) s.calls := by
      refine weight_mono (fun c => ?_) _
      cases c <;> simp [CallOp.pushing]
    have hpos : 0 < kQueueCap := by decide
    refine ⟨hcalls, ?_, ?_⟩
    · simp only [SwapQueue.waiting_swap, List.length_nil]
      omega
    · simp only [SwapQueue.taken_swap]
      omega
  · cases hstep
    have hd := s.drained e
    refine ⟨by simpa only [hd.calls] using hcalls,
      by simpa only [hd.calls, hd.waiting] using hwaiting, ?_⟩
    simp only [hd.batch, List.length_nil]
    omega

/-- Every step keeps the bound, while at most `T` calls are under way. -/
theorem step (h : Bounded T s) (hok : AtMost T s a = true) (hstep : s.step a = some s') :
    Bounded T s' := by
  cases a with
  | call c =>
    simp only [Logger.step] at hstep
    split_ifs at hstep <;> cases hstep
    · exact h
    · simp only [AtMost, decide_eq_true_eq] at hok
      refine ⟨?_, ?_, h.taken⟩
      · simp
        omega
      · simpa [CallOp.pushing] using h.waiting
  | caller i =>
    simp only [Logger.step] at hstep
    split at hstep
    · cases hstep
    · rename_i op hi
      cases hstep
      exact h.call hi
  | writer e => exact h.writer hstep
  | start named level maxBytes | stop | control e =>
    simp only [Logger.step, controlStep] at hstep
    repeat' split at hstep
    all_goals cases hstep
    all_goals exact ⟨h.calls, h.waiting, h.taken⟩
  | setLevel level =>
    cases hstep
    exact ⟨h.calls, h.waiting, h.taken⟩

end Bounded

/-- In every run with at most `T` calls under way at a time, the queue and the batch stay below the
cap and `T` more. -/
theorem log_bounded {T : ℕ} (h : logger.ReachesWhen (fun s a => AtMost T s a = true) s) :
    s.queue.waiting.length < kQueueCap + T ∧ s.queue.taken.length < kQueueCap + T := by
  have hs : Bounded T s := by
    refine Machine.ReachesWhen.invariant (I := Bounded T) ?_
      (fun s a s' hs hok hstep => hs.step hok hstep) h
    rintro s ⟨before, rfl⟩
    have hpos : 0 < kQueueCap := by decide
    exact ⟨Nat.zero_le T, by simp [Logger.fresh]; omega,
      by simp [Logger.fresh, SwapQueue.taken, SwapQueue.empty]; omega⟩
  exact ⟨(Nat.le_add_right ..).trans_lt hs.waiting, hs.taken⟩

theorem log_bounded_two : ∃ s : Logger,
    s.queue.waiting.length = 1 ∧ s.queue.waiting.length < kQueueCap + 2 := by
  obtain ⟨s, hs, htest⟩ := logger.exists_reachesWhen (fun s a => AtMost 2 s a = true) (.fresh 0)
    lateRun (fun s => decide (s.queue.waiting.length = 1)) ⟨0, rfl⟩ (by decide +kernel)
  exact ⟨s, of_decide_eq_true htest, (log_bounded hs).1⟩

/-! ## Cutting the lines apart -/

/-- The digits of a number have no newline. -/
theorem newline_notMem_toDigits {b : ℕ} (hb : 1 < b) (hle : b ≤ 16) (n : ℕ) :
    '\n' ∉ Nat.toDigits b n := by
  have hdigit : ∀ k < 16, '\n' ≠ Nat.digitChar k := by decide
  induction n using Nat.strong_induction_on with
  | h n ih =>
    rw [Nat.toDigits_eq_if hb]
    split_ifs with hlt
    · exact fun h => hdigit n (hlt.trans_le hle) (List.mem_singleton.mp h)
    · rw [List.mem_append, List.mem_singleton, not_or]
      refine ⟨ih _ (Nat.div_lt_self (by omega) hb), hdigit _ ?_⟩
      exact (Nat.mod_lt n (by omega)).trans_le hle

/-- Nor has a padded number. -/
theorem newline_notMem_field {b : ℕ} (hb : 1 < b) (hle : b ≤ 16) (w n : ℕ) :
    '\n' ∉ LogCall.field b w n := by
  simp [LogCall.field, List.leftpad, newline_notMem_toDigits hb hle]

/-- The base name is a part of the path. -/
theorem baseName_subset : ∀ path : List Char, baseName path ⊆ path
  | [] => List.Subset.refl _
  | c :: path => by
    rw [baseName]
    split_ifs
    · exact fun d hd => List.mem_cons_of_mem c (baseName_subset path hd)
    · exact List.Subset.refl _

/-- The record of a call whose arguments have no newline ends in the only one it has. -/
theorem single_record {c : LogCall} (hbody : '\n' ∉ c.body) (hfile : '\n' ∉ c.file) :
    '\n' ∉ c.record.line.dropLast := by
  have htag : '\n' ∉ c.level.tag := by
    cases c.level <;> decide
  have htext : '\n' ∉ c.text.dropLast := by
    have htake : '\n' ∉ c.body.take (kLineMax - 1) := fun h => hbody (List.mem_of_mem_take h)
    have hbase : '\n' ∉ baseName c.file := fun h => hfile (baseName_subset _ h)
    have h10 := fun w n => newline_notMem_field (b := 10) (by decide) (by decide) w n
    have h16 := newline_notMem_field (b := 16) (by decide) (by decide) 4 c.tid
    have hline := newline_notMem_toDigits (b := 10) (by decide) (by decide) c.line
    rw [LogCall.text, List.dropLast_append_of_ne_nil (by simp)]
    simp [h10, h16, hline, hbase, htake, htag]
  unfold LogCall.record
  split_ifs with hfits
  · exact htext
  · rw [List.dropLast_concat]
    intro hmem
    refine htext ?_
    rw [List.dropLast_eq_take]
    exact List.take_subset_take_left _ (by omega) hmem

/-- Lines that end in their only newline can be cut apart. -/
theorem splitOn_lines {records : List Record} (h : ∀ r ∈ records, '\n' ∉ r.line.dropLast) :
    (records.flatMap Record.line).splitOn '\n' =
      (records.map fun r => r.line.dropLast) ++ [[]] := by
  have htext : records.flatMap Record.line =
      Lines.text '\n' (records.map fun r => r.line.dropLast) := by
    rw [Lines.text, List.flatMap_map]
    exact List.flatMap_congr fun r _ => (List.dropLast_append_getLast? _ r.ends).symm
  rw [htext, Lines.splitOn_text (by simpa using h)]

/-- The arguments of the call have no newline in them. -/
def plain : LogAct → Bool
  | .call c => '\n' ∉ c.body ∧ '\n' ∉ c.file
  | _ => true

/-- The history of calls grows by the record of a call. -/
theorem begun_step (hstep : s.step a = some s') : s'.history.begun = s.history.begun ∨
    ∃ c, a = .call c ∧ s'.history.begun = s.history.begun ++ [c.record] := by
  cases a with
  | call c =>
    simp only [Logger.step] at hstep
    split_ifs at hstep <;> cases hstep
    · exact Or.inl rfl
    · exact Or.inr ⟨c, rfl, rfl⟩
  | caller i =>
    refine Or.inl ?_
    simp only [Logger.step] at hstep
    split at hstep
    · cases hstep
    · rename_i op _
      cases hstep
      cases op <;> simp only [callStep, emit]
      split_ifs <;> rfl
  | writer e =>
    refine Or.inl ?_
    simp only [Logger.step, writerStep] at hstep
    split at hstep <;> cases hstep
    · rfl
    · rfl
    · simp only [(s.drained e).history]
  | start named level maxBytes | stop | control e =>
    refine Or.inl ?_
    simp only [Logger.step, controlStep] at hstep
    repeat' split at hstep
    all_goals cases hstep
    all_goals rfl
  | setLevel level =>
    cases hstep
    exact Or.inl rfl

/-- In every run in which no argument has a newline in it, what has been written, cut at the
newlines, is the lines that were written, each below the size of the buffer. -/
theorem log_lines (h : logger.ReachesWhen (fun _ a => plain a = true) s) :
    (s.stderr.flatMap Record.line).splitOn '\n' =
        (s.stderr.map fun r => r.line.dropLast) ++ [[]] ∧
      ∀ r ∈ s.stderr, r.line.length < kLineMax := by
  have hs : s.Phase ∧ s.Accounted ∧ ∀ r ∈ s.history.begun, '\n' ∉ r.line.dropLast := by
    refine Machine.ReachesWhen.invariant (I := fun s : Logger =>
      s.Phase ∧ s.Accounted ∧ ∀ r ∈ s.history.begun, '\n' ∉ r.line.dropLast) ?_
      (fun s a s' hs hok hstep => ?_) h
    · rintro s ⟨before, rfl⟩
      exact ⟨Or.inr ⟨rfl, rfl, rfl⟩, .fresh before, by simp [Logger.fresh]⟩
    · obtain ⟨hphase, hacc, hsingle⟩ := hs
      refine ⟨hphase.step hstep, hacc.step hphase hstep, fun r hr => ?_⟩
      obtain heq | ⟨c, rfl, heq⟩ := begun_step hstep
      · exact hsingle r (heq ▸ hr)
      · rw [heq, List.mem_append, List.mem_singleton] at hr
        obtain hr | hr := hr
        · exact hsingle r hr
        · simp only [plain, decide_eq_true_eq] at hok
          rw [hr]
          exact single_record hok.1 hok.2
  obtain ⟨-, hacc, hsingle⟩ := hs
  refine ⟨splitOn_lines fun r hr => hsingle r ?_, fun r _ => r.length_lt⟩
  rw [← List.count_pos_iff] at hr ⊢
  have := hacc.count r
  omega

theorem log_lines_late : ∃ s : Logger, s.stderr.length = 1 ∧
    (s.stderr.flatMap Record.line).splitOn '\n' =
      (s.stderr.map fun r => r.line.dropLast) ++ [[]] := by
  obtain ⟨s, hs, htest⟩ := logger.exists_reachesWhen (fun _ a => plain a = true) (.fresh 0) lateRun
    (fun s => decide (s.stderr.length = 1)) ⟨0, rfl⟩ (by decide +kernel)
  exact ⟨s, of_decide_eq_true htest, (log_lines hs).1⟩

end Logger

end EchoServer
