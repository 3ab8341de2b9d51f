import EchoServer.App.Route
import EchoServer.App.Statistics
import EchoServer.Lib.Exposition
import EchoServer.Net.AdminServer

/-!
# The metrics

`render_metrics` of `app/metrics.cpp`, which the administration port answers with : the numbers of
the server in the text format of metrics.

Each helper formats into a buffer on the stack and appends as many bytes as `snprintf` says the text
has, which would read past the buffer if the text did not fit. It always does, and what is appended
are lines of the format (`appends_write`). Reading them, one finds each number under its name, and
nothing else (`metrics_read_back`).

The texts of the lines are written twice below : as the source has them in `renderMetrics`, and in
tables of names and meanings.
-/

namespace EchoServer

open Exposition

open Lines hiding text

/-- The counters of `IoService` that are shown. -/
structure IoNumbers where
  connectionCount : UInt64
  refused : UInt64
  throttled : UInt64
  sendOverflow : UInt64
  flushPosts : UInt64
  sendIssues : UInt64
  sendMessages : UInt64
  partialSends : UInt64

/-- The numbers of `WorkerPool` that are shown. -/
structure DbNumbers where
  queued : UInt64
  workerCount : Int32
  connectedWorkers : Int32

/-- What `render_metrics` reads, and when it reads it. -/
structure ServerNumbers where
  uptimeMs : Int64
  /-- `ServiceRouter::stats`, read first. -/
  stats : ServiceStats
  io : IoNumbers
  db : DbNumbers
  /-- `ServiceRouter::game_stats` and `chat_stats`, read afterwards. -/
  game : ServiceStats
  chat : ServiceStats
  logDropped : UInt64

/-- What a helper of `render_metrics` does to `out`. -/
abbrev Writer := String → Option String

namespace Metrics

/-- `snprintf` to a buffer of `size` bytes, and `append` of as many bytes as it gives. `none` is a
read past the buffer. -/
def appendFormatted (size : ℕ) (text : String) : Writer := fun out =>
  if text.utf8ByteSize < size then some (out ++ text) else none

/-- One number, with its explanation and its kind. -/
def line (name help kind : String) (value : UInt64) : Writer :=
  appendFormatted 512 ("# HELP " ++ name ++ " " ++ help ++ "\n# TYPE " ++ name ++ " " ++ kind ++
    "\n" ++ name ++ " " ++ toString value.toNat ++ "\n")

/-- A number that only grows. -/
def counter (name help : String) (value : UInt64) : Writer := line name help "counter" value

/-- A number that may fall. -/
def gauge (name help : String) (value : UInt64) : Writer := line name help "gauge" value

/-- The `help` of the source is not used. -/
def quantiles (name service : String) (dist : LatencyHistogram) : Writer :=
  appendFormatted 768 (
    name ++ "\x7bservice=\"" ++ service ++ "\",quantile=\"0.5\"\x7d " ++
      toString (Int64.ofInt (dist.percentile (1 / 2))).toInt ++ "\n" ++
    name ++ "\x7bservice=\"" ++ service ++ "\",quantile=\"0.99\"\x7d " ++
      toString (Int64.ofInt (dist.percentile (99 / 100))).toInt ++ "\n" ++
    name ++ "_samples\x7bservice=\"" ++ service ++ "\"\x7d " ++
      toString (UInt64.ofNat dist.count).toNat ++ "\n")

/-- The explanation of a distribution and of the number of its samples. -/
def quantileHead (name help : String) : Writer :=
  appendFormatted 512 ("# HELP " ++ name ++ " " ++ help ++ "\n# TYPE " ++ name ++ " gauge\n" ++
    "# HELP " ++ name ++ "_samples 마지막 기록 주기의 표본 수\n" ++
    "# TYPE " ++ name ++ "_samples gauge\n")

/-- The helpers one after the other. -/
def run (writers : List Writer) : Writer := fun out =>
  writers.foldlM (fun out write => write out) out

end Metrics

open Metrics

/-- `render_metrics`. -/
def renderMetrics (m : ServerNumbers) : Option String :=
  let s := m.stats
  let count (c : CountField) : UInt64 := .ofNat (s.counts c)
  run [
    gauge "echo_uptime_seconds" "기동 후 경과 시간" (m.uptimeMs / 1000).toUInt64,
    gauge "echo_connections" "현재 접속 수" m.io.connectionCount,
    counter "echo_connections_refused_total" "상한에 걸려 되돌린 접속 수" m.io.refused,
    gauge "echo_sessions" "서비스가 들고 있는 항목 수의 합" (.ofNat s.entries),
    counter "echo_messages_handled_total" "처리한 메시지 수" (count .handled),
    counter "echo_messages_rejected_total" "오류로 응답한 메시지 수" (count .rejected),
    counter "echo_inbound_overflow_total" "수신 큐 상한에 걸려 거절한 메시지 수" (count .overflow),
    counter "echo_messages_throttled_total" "속도 제한에 걸린 메시지 수" m.io.throttled,
    counter "echo_send_overflow_total" "송신 누적 상한에 걸려 끊은 연결 수" m.io.sendOverflow,
    counter "echo_flush_posts_total" "발행 통지 수" m.io.flushPosts,
    counter "echo_send_issues_total" "실제 발행(WSASend) 수" m.io.sendIssues,
    counter "echo_send_messages_total" "발행에 실려 나간 메시지 수" m.io.sendMessages,
    counter "echo_partial_sends_total" "전량이 나가지 못해 남은 구간을 다시 실은 횟수"
      m.io.partialSends,
    counter "echo_handler_faults_total" "처리 중 예외로 끊은 연결 수" (count .faults),
    counter "echo_db_requests_total" "DB 요청 수" (count .dbRequests),
    counter "echo_db_responses_total" "DB 응답 수" (count .dbResponses),
    counter "echo_db_failures_total" "실패로 끝난 DB 요청 수" (count .dbFailures),
    counter "echo_db_expired_total" "기한을 넘겨 실행하지 않은 DB 요청 수" (count .dbExpired),
    gauge "echo_db_queued" "DB 큐에 남은 요청 수" m.db.queued,
    gauge "echo_db_workers" "DB 워커 수" m.db.workerCount.toInt64.toUInt64,
    gauge "echo_db_workers_connected" "커넥션이 살아 있는 DB 워커 수"
      m.db.connectedWorkers.toInt64.toUInt64,
    counter "echo_broadcasts_total" "브로드캐스트 횟수" (count .broadcasts),
    counter "echo_broadcast_sends_total" "브로드캐스트가 부른 송신 횟수" (count .broadcastSends),
    counter "echo_service_relays_total" "서비스 간 전달로 받은 항목 수" (count .relayMessages),
    quantileHead "echo_process_nanoseconds" "항목 하나를 처리한 시간",
    quantiles "echo_process_nanoseconds" "game" (m.game.dists .process),
    quantiles "echo_process_nanoseconds" "chat" (m.chat.dists .process),
    quantileHead "echo_queue_wait_microseconds" "적재부터 소비까지 기다린 시간",
    quantiles "echo_queue_wait_microseconds" "game" (m.game.dists .queue),
    quantiles "echo_queue_wait_microseconds" "chat" (m.chat.dists .queue),
    quantileHead "echo_service_relay_microseconds" "서비스 간 전달에 든 시간",
    quantiles "echo_service_relay_microseconds" "game" (m.game.dists .relay),
    quantiles "echo_service_relay_microseconds" "chat" (m.chat.dists .relay),
    quantileHead "echo_db_roundtrip_microseconds" "DB 요청 제출부터 응답까지",
    quantiles "echo_db_roundtrip_microseconds" "game" (m.game.dists .dbRound),
    quantileHead "echo_broadcast_microseconds" "브로드캐스트 한 번에 든 시간",
    quantiles "echo_broadcast_microseconds" "chat" (m.chat.dists .broadcast),
    counter "echo_log_dropped_total" "큐가 가득 차 버린 로그 줄 수" m.logDropped] ""

namespace Metrics

/-! ## What is shown -/

/-- The numbers that have a line of their own. -/
inductive Number where
  | uptime
  | connections
  | refused
  | sessions
  | count (c : CountField)
  | throttled
  | sendOverflow
  | flushPosts
  | sendIssues
  | sendMessages
  | partialSends
  | dbQueued
  | dbWorkers
  | dbWorkersConnected
  | logDropped
  deriving DecidableEq

/-- The name that a number is shown under. -/
def Number.name : Number → String
  | uptime => "echo_uptime_seconds"
  | connections => "echo_connections"
  | refused => "echo_connections_refused_total"
  | sessions => "echo_sessions"
  | count .handled => "echo_messages_handled_total"
  | count .rejected => "echo_messages_rejected_total"
  | count .overflow => "echo_inbound_overflow_total"
  | throttled => "echo_messages_throttled_total"
  | sendOverflow => "echo_send_overflow_total"
  | flushPosts => "echo_flush_posts_total"
  | sendIssues => "echo_send_issues_total"
  | sendMessages => "echo_send_messages_total"
  | partialSends => "echo_partial_sends_total"
  | count .faults => "echo_handler_faults_total"
  | count .dbRequests => "echo_db_requests_total"
  | count .dbResponses => "echo_db_responses_total"
  | count .dbFailures => "echo_db_failures_total"
  | count .dbExpired => "echo_db_expired_total"
  | dbQueued => "echo_db_queued"
  | dbWorkers => "echo_db_workers"
  | dbWorkersConnected => "echo_db_workers_connected"
  | count .broadcasts => "echo_broadcasts_total"
  | count .broadcastSends => "echo_broadcast_sends_total"
  | count .relayMessages => "echo_service_relays_total"
  | logDropped => "echo_log_dropped_total"

/-- The explanation that goes with a number. -/
def Number.help : Number → String
  | uptime => "기동 후 경과 시간"
  | connections => "현재 접속 수"
  | refused => "상한에 걸려 되돌린 접속 수"
  | sessions => "서비스가 들고 있는 항목 수의 합"
  | count .handled => "처리한 메시지 수"
  | count .rejected => "오류로 응답한 메시지 수"
  | count .overflow => "수신 큐 상한에 걸려 거절한 메시지 수"
  | throttled => "속도 제한에 걸린 메시지 수"
  | sendOverflow => "송신 누적 상한에 걸려 끊은 연결 수"
  | flushPosts => "발행 통지 수"
  | sendIssues => "실제 발행(WSASend) 수"
  | sendMessages => "발행에 실려 나간 메시지 수"
  | partialSends => "전량이 나가지 못해 남은 구간을 다시 실은 횟수"
  | count .faults => "처리 중 예외로 끊은 연결 수"
  | count .dbRequests => "DB 요청 수"
  | count .dbResponses => "DB 응답 수"
  | count .dbFailures => "실패로 끝난 DB 요청 수"
  | count .dbExpired => "기한을 넘겨 실행하지 않은 DB 요청 수"
  | dbQueued => "DB 큐에 남은 요청 수"
  | dbWorkers => "DB 워커 수"
  | dbWorkersConnected => "커넥션이 살아 있는 DB 워커 수"
  | count .broadcasts => "브로드캐스트 횟수"
  | count .broadcastSends => "브로드캐스트가 부른 송신 횟수"
  | count .relayMessages => "서비스 간 전달로 받은 항목 수"
  | logDropped => "큐가 가득 차 버린 로그 줄 수"

/-- A gauge is what stands now, a counter what has happened since the start. -/
def Number.kind : Number → String
  | uptime | connections | sessions | dbQueued | dbWorkers | dbWorkersConnected => "gauge"
  | _ => "counter"

/-- Where `render_metrics` takes a number from. -/
def Number.value (m : ServerNumbers) : Number → UInt64
  | uptime => (m.uptimeMs / 1000).toUInt64
  | connections => m.io.connectionCount
  | refused => m.io.refused
  | sessions => .ofNat m.stats.entries
  | count c => .ofNat (m.stats.counts c)
  | throttled => m.io.throttled
  | sendOverflow => m.io.sendOverflow
  | flushPosts => m.io.flushPosts
  | sendIssues => m.io.sendIssues
  | sendMessages => m.io.sendMessages
  | partialSends => m.io.partialSends
  | dbQueued => m.db.queued
  | dbWorkers => m.db.workerCount.toInt64.toUInt64
  | dbWorkersConnected => m.db.connectedWorkers.toInt64.toUInt64
  | logDropped => m.logDropped

/-- The name of a distribution, with its unit. -/
def distName : DistField → String
  | .process => "echo_process_nanoseconds"
  | .queue => "echo_queue_wait_microseconds"
  | .relay => "echo_service_relay_microseconds"
  | .dbRound => "echo_db_roundtrip_microseconds"
  | .broadcast => "echo_broadcast_microseconds"

/-- The explanation that goes with a distribution. -/
def distHelp : DistField → String
  | .process => "항목 하나를 처리한 시간"
  | .queue => "적재부터 소비까지 기다린 시간"
  | .relay => "서비스 간 전달에 든 시간"
  | .dbRound => "DB 요청 제출부터 응답까지"
  | .broadcast => "브로드캐스트 한 번에 든 시간"

/-- The label of a service. -/
def serviceName : ServiceId → String
  | .game => "game"
  | .chat => "chat"

/-- The services that have a distribution. -/
def services : DistField → List ServiceId
  | .process | .queue | .relay => [.game, .chat]
  | .dbRound => [.game]
  | .broadcast => [.chat]

/-- The distribution of a service. -/
def distOf (m : ServerNumbers) (d : DistField) : ServiceId → LatencyHistogram
  | .game => m.game.dists d
  | .chat => m.chat.dists d

/-- What a sample shows, by its name and its labels. -/
inductive Shows (m : ServerNumbers) : String → List Label → ℤ → Prop where
  | number (n : Number) : Shows m n.name [] (n.value m).toNat
  | median (d : DistField) (s : ServiceId) (h : s ∈ services d) :
    Shows m (distName d) [("service", serviceName s), ("quantile", "0.5")]
      (Int64.ofInt ((distOf m d s).percentile (1 / 2))).toInt
  | tail (d : DistField) (s : ServiceId) (h : s ∈ services d) :
    Shows m (distName d) [("service", serviceName s), ("quantile", "0.99")]
      (Int64.ofInt ((distOf m d s).percentile (99 / 100))).toInt
  | samples (d : DistField) (s : ServiceId) (h : s ∈ services d) :
    Shows m (distName d ++ "_samples") [("service", serviceName s)]
      (UInt64.ofNat (distOf m d s).count).toNat

/-- What one call of a helper is about. -/
inductive Part where
  | number (n : Number)
  | head (d : DistField)
  | quantiles (d : DistField) (s : ServiceId)
  deriving DecidableEq

/-- What `render_metrics` writes for a part. -/
def Part.write (m : ServerNumbers) : Part → Writer
  | number n => line n.name n.help n.kind (n.value m)
  | head d => quantileHead (distName d) (distHelp d)
  | quantiles d s => Metrics.quantiles (distName d) (serviceName s) (distOf m d s)

/-- The lines that a part consists of. -/
def Part.lines (m : ServerNumbers) : Part → List Line
  | number n => [.help n.name n.help, .kind n.name n.kind, .sample n.name [] (n.value m).toNat]
  | head d => [.help (distName d) (distHelp d), .kind (distName d) "gauge",
    .help (distName d ++ "_samples") "마지막 기록 주기의 표본 수",
    .kind (distName d ++ "_samples") "gauge"]
  | quantiles d s =>
    [.sample (distName d) [("service", serviceName s), ("quantile", "0.5")]
      (Int64.ofInt ((distOf m d s).percentile (1 / 2))).toInt,
    .sample (distName d) [("service", serviceName s), ("quantile", "0.99")]
      (Int64.ofInt ((distOf m d s).percentile (99 / 100))).toInt,
    .sample (distName d ++ "_samples") [("service", serviceName s)]
      (UInt64.ofNat (distOf m d s).count).toNat]

/-- The numbers before the distributions, in the order of `render_metrics`. -/
def numbers : List Number :=
  [.uptime, .connections, .refused, .sessions, .count .handled, .count .rejected,
    .count .overflow, .throttled, .sendOverflow, .flushPosts, .sendIssues, .sendMessages,
    .partialSends, .count .faults, .count .dbRequests, .count .dbResponses, .count .dbFailures,
    .count .dbExpired, .dbQueued, .dbWorkers, .dbWorkersConnected, .count .broadcasts,
    .count .broadcastSends, .count .relayMessages]

/-- The head of a distribution, and its quantiles for each service that has it. -/
def distParts (d : DistField) : List Part := .head d :: (services d).map (Part.quantiles d)

/-- The calls of `render_metrics`, in their order. -/
def parts : List Part :=
  numbers.map Part.number ++ [.process, .queue, .relay, .dbRound, .broadcast].flatMap distParts ++
    [Part.number .logDropped]

/-- `render_metrics` writes the parts one after the other. -/
theorem renderMetrics_eq (m : ServerNumbers) :
    renderMetrics m = run (parts.map (Part.write m)) "" := by
  simp only [renderMetrics, parts, numbers, distParts, services, List.flatMap_cons,
    List.flatMap_nil, List.map_cons, List.map_nil, List.cons_append, List.nil_append,
    List.append_nil, Part.write, counter, gauge, Number.name, Number.help, Number.kind,
    Number.value, distName, distHelp, serviceName, distOf]

/-! ## Every text fits its buffer -/

/-- A text of ASCII characters has as many bytes as characters. -/
theorem utf8ByteSize_ofList : ∀ {l : List Char}, (∀ c ∈ l, c.utf8Size = 1) →
    (String.ofList l).utf8ByteSize = l.length
  | [], _ => rfl
  | c :: l, h => by
    obtain ⟨hc, hl⟩ := List.forall_mem_cons.mp h
    have hcons : String.ofList (c :: l) = String.singleton c ++ String.ofList l := by
      rw [← String.toList_inj]
      simp
    rw [hcons, String.utf8ByteSize_append, String.utf8ByteSize_singleton, hc,
      utf8ByteSize_ofList hl, List.length_cons, Nat.add_comm]

/-- A number below `10 ^ k` has at most `k` digits. -/
theorem utf8ByteSize_repr_le {n k : ℕ} (hk : 0 < k) (h : n < 10 ^ k) :
    n.repr.utf8ByteSize ≤ k := by
  rw [Nat.repr_eq_ofList_toDigits, utf8ByteSize_ofList]
  · exact (Nat.length_toDigits_le_iff (by decide) hk).mpr h
  · intro c hc
    have hdigit := Nat.isDigit_of_mem_toDigits (by decide) le_rfl hc
    rw [Char.isDigit_iff_toNat] at hdigit
    rw [Char.utf8Size_eq_one_iff, UInt32.le_iff_toNat_le]
    exact hdigit.2.trans (by decide)

/-- A 64-bit number has at most 20 digits. -/
theorem utf8ByteSize_uint64 (v : UInt64) : (toString v.toNat).utf8ByteSize ≤ 20 :=
  utf8ByteSize_repr_le (by decide) (v.toNat_lt.trans (by norm_num))

/-- An `Int64` takes at most 20 bytes : a sign and 19 digits. -/
theorem utf8ByteSize_int64 (v : Int64) : (toString v.toInt).utf8ByteSize ≤ 20 := by
  have hlt := v.toInt_lt
  have hge := v.le_toInt
  rw [Int.toString_eq_repr, Int.repr_eq_if]
  split_ifs
  · exact utf8ByteSize_repr_le (by decide) (by omega)
  · rw [String.utf8ByteSize_append]
    have := utf8ByteSize_repr_le (n := (-v.toInt).toNat) (k := 19) (by decide) (by omega)
    have hminus : "-".utf8ByteSize = 1 := by decide
    omega

/-- The helper appends the lines. -/
def Appends (write : Writer) (lines : List Line) : Prop :=
  ∀ out, write out = some (out ++ text lines)

/-- A text that fits the buffer of `append_formatted` is appended whole. -/
theorem appends_formatted {size : ℕ} {t : String} {lines : List Line} (ht : t = text lines)
    (hsize : t.utf8ByteSize < size) : Appends (appendFormatted size t) lines := by
  intro out
  rw [appendFormatted, if_pos hsize, ht]

/-- `line` fits its buffer, and appends the help, the kind and the sample. -/
theorem appends_line {name help kind : String}
    (h : 3 * name.utf8ByteSize + help.utf8ByteSize + kind.utf8ByteSize ≤ 400) (value : UInt64) :
    Appends (line name help kind value)
      [.help name help, .kind name kind, .sample name [] value.toNat] := by
  have hrepr : (value.toNat : ℤ).repr = value.toNat.repr := rfl
  unfold line
  refine appends_formatted ?_ ?_
  · rw [← String.toList_inj]
    simp [text, Line.text, labelsText, hrepr]
  · have h₁ : "# HELP ".utf8ByteSize = 7 := by decide
    have h₂ : "\n# TYPE ".utf8ByteSize = 8 := by decide
    have h₃ : " ".utf8ByteSize = 1 := by decide
    have h₄ : "\n".utf8ByteSize = 1 := by decide
    have hvalue := utf8ByteSize_uint64 value
    simp only [String.utf8ByteSize_append]
    omega

/-- The head of a distribution fits its buffer. -/
theorem appends_quantileHead {name help : String}
    (h : 4 * name.utf8ByteSize + help.utf8ByteSize ≤ 400) :
    Appends (quantileHead name help) [.help name help, .kind name "gauge",
      .help (name ++ "_samples") "마지막 기록 주기의 표본 수",
      .kind (name ++ "_samples") "gauge"] := by
  unfold quantileHead
  refine appends_formatted ?_ ?_
  · rw [← String.toList_inj]
    simp [text, Line.text]
  · have h₁ : "# HELP ".utf8ByteSize = 7 := by decide
    have h₂ : "\n# TYPE ".utf8ByteSize = 8 := by decide
    have h₃ : " ".utf8ByteSize = 1 := by decide
    have h₄ : " gauge\n".utf8ByteSize = 7 := by decide
    have h₅ : "_samples 마지막 기록 주기의 표본 수\n".utf8ByteSize = 47 := by decide
    have h₆ : "# TYPE ".utf8ByteSize = 7 := by decide
    have h₇ : "_samples gauge\n".utf8ByteSize = 15 := by decide
    simp only [String.utf8ByteSize_append]
    omega

/-- The samples of one service fit their buffer. -/
theorem appends_quantiles {name service : String}
    (h : 3 * name.utf8ByteSize + 3 * service.utf8ByteSize ≤ 400) (dist : LatencyHistogram) :
    Appends (quantiles name service dist)
      [.sample name [("service", service), ("quantile", "0.5")]
        (Int64.ofInt (dist.percentile (1 / 2))).toInt,
      .sample name [("service", service), ("quantile", "0.99")]
        (Int64.ofInt (dist.percentile (99 / 100))).toInt,
      .sample (name ++ "_samples") [("service", service)] (UInt64.ofNat dist.count).toNat] := by
  unfold quantiles
  have hmedian := utf8ByteSize_int64 (Int64.ofInt (dist.percentile (1 / 2)))
  have htail := utf8ByteSize_int64 (Int64.ofInt (dist.percentile (99 / 100)))
  have hcount := utf8ByteSize_uint64 (UInt64.ofNat dist.count)
  generalize Int64.ofInt (dist.percentile (1 / 2)) = median at hmedian ⊢
  generalize Int64.ofInt (dist.percentile (99 / 100)) = tail at htail ⊢
  generalize UInt64.ofNat dist.count = count at hcount ⊢
  have hrepr : (count.toNat : ℤ).repr = count.toNat.repr := rfl
  refine appends_formatted ?_ ?_
  · rw [← String.toList_inj]
    simp [text, Line.text, labelsText, labelText, hrepr]
  · have h₁ : "\x7bservice=\"".utf8ByteSize = 10 := by decide
    have h₂ : "\",quantile=\"0.5\"\x7d ".utf8ByteSize = 18 := by decide
    have h₃ : "\n".utf8ByteSize = 1 := by decide
    have h₄ : "\",quantile=\"0.99\"\x7d ".utf8ByteSize = 19 := by decide
    have h₅ : "_samples\x7bservice=\"".utf8ByteSize = 18 := by decide
    have h₆ : "\"\x7d ".utf8ByteSize = 3 := by decide
    simp only [String.utf8ByteSize_append]
    omega

/-- Every part of the page fits the buffer that it is formatted in. -/
theorem appends_write (m : ServerNumbers) (p : Part) : Appends (p.write m) (p.lines m) := by
  cases p with
  | number n =>
    refine appends_line ?_ _
    cases n with
    | count c => cases c <;> decide
    | _ => decide
  | head d =>
    refine appends_quantileHead ?_
    cases d <;> decide
  | quantiles d s =>
    refine appends_quantiles ?_ _
    cases d <;> cases s <;> decide

/-- The parts append their lines one after the other. -/
theorem appends_run (m : ServerNumbers) : ∀ parts : List Part,
    Appends (run (parts.map (Part.write m))) (parts.flatMap (Part.lines m))
  | [] => fun out => by simp [run, text]
  | p :: parts => fun out => by
    have := appends_run m parts (out ++ text (p.lines m))
    rw [run] at this ⊢
    rw [List.map_cons, List.foldlM_cons, appends_write m p out, Option.bind_eq_bind,
      Option.bind_some, this, List.flatMap_cons, text_append, String.append_assoc]

/-- What is shown, line by line. -/
def exposed (m : ServerNumbers) : List Line := parts.flatMap (Part.lines m)

/-- No line is cut off : the page is the text of the exposed lines. -/
theorem renderMetrics_eq_text (m : ServerNumbers) : renderMetrics m = some (text (exposed m)) := by
  rw [renderMetrics_eq, appends_run, String.empty_append, exposed]

/-! ## Reading the metrics -/

/-- The numbers of a server that has just started. -/
def zero : ServerNumbers :=
  ⟨0, .zero, ⟨0, 0, 0, 0, 0, 0, 0, 0⟩, ⟨0, 0, 0⟩, .zero, .zero, 0⟩

/-- The lines of two servers differ in their values only. -/
theorem blank_exposed (m : ServerNumbers) :
    (exposed m).map Line.blank = (exposed zero).map Line.blank := by
  have hpart : ∀ p : Part, (p.lines m).map Line.blank = (p.lines zero).map Line.blank := by
    rintro (n | d | ⟨d, s⟩) <;> simp only [Part.lines, List.map_cons, List.map_nil, Line.blank]
  simp only [exposed, List.map_flatMap, hpart]

theorem free_name (n : Number) : free [' ', '\n', '#', '\x7b'] n.name = true := by
  cases n with
  | count c => cases c <;> exact free_ofList (by decide)
  | _ => exact free_ofList (by decide)

theorem free_help (n : Number) : free ['\n'] n.help = true := by
  cases n with
  | count c => cases c <;> exact free_ofList (by decide)
  | _ => exact free_ofList (by decide)

theorem free_kind (n : Number) : free ['\n'] n.kind = true := by
  cases n <;> exact free_ofList (by decide)

theorem free_distName (d : DistField) : free [' ', '\n', '#', '\x7b'] (distName d) = true := by
  cases d <;> exact free_ofList (by decide)

theorem free_distHelp (d : DistField) : free ['\n'] (distHelp d) = true := by
  cases d <;> exact free_ofList (by decide)

theorem plainLabel_service (s : ServiceId) : plainLabel ("service", serviceName s) = true := by
  cases s <;> decide

/-- No line of the page has a character that its place in the format forbids. -/
theorem plain_exposed (m : ServerNumbers) : ∀ line ∈ exposed m, line.plain = true := by
  have hword : ∀ {s : String}, free [' ', '\n', '#', '\x7b'] s = true →
      free [' ', '\n'] s = true := free_of_subset (by decide)
  intro line hline
  obtain ⟨p, -, hline⟩ := List.mem_flatMap.mp hline
  cases p with
  | number n =>
    simp only [Part.lines, List.mem_cons, List.not_mem_nil, or_false] at hline
    obtain rfl | rfl | rfl := hline
    · simp [Line.plain, hword (free_name n), free_help]
    · simp [Line.plain, hword (free_name n), free_kind]
    · simp [Line.plain, free_name]
  | head d =>
    have hsamples : free [' ', '\n', '#', '\x7b'] (distName d ++ "_samples") = true :=
      free_append (free_distName d) (free_ofList (by decide))
    have hhelp : free ['\n'] "마지막 기록 주기의 표본 수" = true := free_ofList (by decide)
    have hgauge : free ['\n'] "gauge" = true := free_ofList (by decide)
    simp only [Part.lines, List.mem_cons, List.not_mem_nil, or_false] at hline
    obtain rfl | rfl | rfl | rfl := hline
    · simp [Line.plain, hword (free_distName d), free_distHelp]
    · simp [Line.plain, hword (free_distName d), hgauge]
    · simp [Line.plain, hword hsamples, hhelp]
    · simp [Line.plain, hword hsamples, hgauge]
  | quantiles d s =>
    have hsamples : free [' ', '\n', '#', '\x7b'] (distName d ++ "_samples") = true :=
      free_append (free_distName d) (free_ofList (by decide))
    have hmedian : plainLabel ("quantile", "0.5") = true := by decide
    have htail : plainLabel ("quantile", "0.99") = true := by decide
    simp only [Part.lines, List.mem_cons, List.not_mem_nil, or_false] at hline
    obtain rfl | rfl | rfl := hline
    · simp [Line.plain, free_distName, plainLabel_service, hmedian]
    · simp [Line.plain, free_distName, plainLabel_service, htail]
    · simp [Line.plain, hsamples, plainLabel_service]

/-- Each name has its help and kind once, and before its samples. -/
theorem wellFormed_exposed (m : ServerNumbers) : WellFormed (exposed m) := by
  refine wellFormed_of_blank ?_
  rw [blank_exposed]
  decide +kernel

theorem number_mem (n : Number) : .number n ∈ parts := by
  cases n with
  | count c => cases c <;> decide
  | _ => decide

/-- A distribution is on the page for exactly the services that record it. -/
theorem quantiles_mem {d : DistField} {s : ServiceId} :
    .quantiles d s ∈ parts ↔ s ∈ services d := by
  cases d <;> cases s <;> decide

/-- The samples of the page are those that the numbers show. -/
theorem sample_mem {m : ServerNumbers} {name : String} {labels : List Label} {value : ℤ} :
    .sample name labels value ∈ exposed m ↔ Shows m name labels value := by
  rw [exposed, List.mem_flatMap]
  constructor
  · rintro ⟨p, hp, hmem⟩
    cases p with
    | number n =>
      simp only [Part.lines, List.mem_cons, Line.sample.injEq, reduceCtorEq, List.not_mem_nil,
        false_or, or_false] at hmem
      obtain ⟨rfl, rfl, rfl⟩ := hmem
      exact .number n
    | head d => simp [Part.lines] at hmem
    | quantiles d s =>
      have hs := quantiles_mem.mp hp
      simp only [Part.lines, List.mem_cons, Line.sample.injEq, List.not_mem_nil, or_false] at hmem
      obtain ⟨rfl, rfl, rfl⟩ | ⟨rfl, rfl, rfl⟩ | ⟨rfl, rfl, rfl⟩ := hmem
      · exact .median d s hs
      · exact .tail d s hs
      · exact .samples d s hs
  · intro h
    cases h with
    | number n => exact ⟨.number n, number_mem n, by simp [Part.lines]⟩
    | median d s hs | tail d s hs | samples d s hs =>
      exact ⟨.quantiles d s, quantiles_mem.mpr hs, by simp [Part.lines]⟩

end Metrics

/-- Whatever the numbers are : no text is longer than its buffer; what is written can be read, and
explains each name once and before its samples; and its samples are the numbers, each under its name
and its labels, and no others. -/
theorem metrics_read_back (m : ServerNumbers) : ∃ out lines, renderMetrics m = some out ∧
    Exposition.read out = some lines ∧ WellFormed lines ∧
      ∀ name labels value, .sample name labels value ∈ lines ↔ Shows m name labels value :=
  ⟨_, exposed m, renderMetrics_eq_text m, read_text (plain_exposed m), wellFormed_exposed m,
    fun _ _ _ => sample_mem⟩

end EchoServer
