import EchoServer.Net.ReceiveMemory

/-!
# The rate limiter and refused frames

`net/rate_limiter.h`, and the message handler of `main.cpp` in front of a service that pauses
the connection when its queue is full (`OverflowPolicy::Backpressure`). The handler asks the
limiter before it posts, and a frame that is refused stays in the buffer and is handed to the
handler again when the connection is resumed.

The limiter only ever stores whole numbers in `rate_` and `burst_`; its tokens are in any type
with the operations that it uses, of which no law is assumed, so they may be rounded. `spent`
counts the tokens taken. `charged`, `passed`, `refused` and `limited` record frames, by their
place in the stream : one entry for each token, for each frame the service took, for each time
it refused one, and for each answer `rate limit`. No function reads them.

Every token is for a frame that was taken or for a refusal (`Meter.Metered.total`). A resume
that shows a refused frame again takes a second token for it or answers it with `rate limit`
(`Meter.not_pure_onMessage`), so the tokens are fair as long as that does not happen and no
longer (`rate_limit_fair`).
-/

namespace EchoServer

/-- The token bucket of a connection. -/
structure RateLimiter (F : Type*) where
  rate : ℤ
  burst : ℤ
  tokens : F
  lastMs : ℤ
  /-- The tokens taken so far. -/
  spent : ℕ

namespace RateLimiter

variable {F : Type*} [Add F] [Sub F] [Mul F] [Div F] [IntCast F] [LT F] [DecidableLT F]

/-- The limiter of the options; without a burst it holds what flows in within a second. -/
def configure (ratePerSec burst : ℤ) : RateLimiter F :=
  let burst := if 0 < burst then burst else max 1 ratePerSec
  ⟨if 0 < ratePerSec then ratePerSec else 0, burst, burst, 0, 0⟩

/-- The options set a limit. -/
def enabled (l : RateLimiter F) : Bool := 0 < l.rate

/-- Add the tokens of the time since the last look, up to `burst`. -/
def refill (nowMs : ℤ) (l : RateLimiter F) : RateLimiter F :=
  let lastMs := if l.lastMs = 0 then nowMs else l.lastMs
  let elapsed := nowMs - lastMs
  if 0 < elapsed then
    let tokens := l.tokens + (l.rate : F) * ((elapsed : F) / ((1000 : ℤ) : F))
    { l with tokens := if tokens < l.burst then tokens else l.burst, lastMs := nowMs }
  else { l with lastMs }

/-- A message takes a token, if there is one. -/
def allow (nowMs : ℤ) (l : RateLimiter F) : Bool × RateLimiter F :=
  if l.rate ≤ 0 then (true, l)
  else
    let l := l.refill nowMs
    if l.tokens < ((1 : ℤ) : F) then (false, l)
    else (true, { l with tokens := l.tokens - ((1 : ℤ) : F), spent := l.spent + 1 })

/-- `Connection::allow_message`. -/
def allowMessage (nowMs : ℤ) (l : RateLimiter F) : Bool × RateLimiter F :=
  if l.enabled then l.allow nowMs else (true, l)

/-- An enabled limiter takes one token for a message it allows and none for another. -/
theorem allowMessage_spec {l : RateLimiter F} (h : 0 < l.rate) (nowMs : ℤ) :
    (l.allowMessage nowMs).2.rate = l.rate ∧
      (l.allowMessage nowMs).2.spent = l.spent + (l.allowMessage nowMs).1.toNat := by
  have hrefill : (l.refill nowMs).rate = l.rate ∧ (l.refill nowMs).spent = l.spent := by
    unfold refill
    dsimp only
    split_ifs <;> exact ⟨rfl, rfl⟩
  obtain ⟨hrate, hspent⟩ := hrefill
  rw [allowMessage, if_pos (by simpa [enabled] using h), allow, if_neg (by omega)]
  dsimp only
  split_ifs <;> simp [hrate, hspent]

end RateLimiter

/-- What else decides over a frame that the handler is shown. -/
structure Shown where
  nowMs : ℤ
  /-- The queue of the service has room. -/
  room : Bool
  /-- The connection is closed by the time the handler returns. -/
  closes : Bool
  deriving DecidableEq, Repr

/-- The limiter of a connection and what became of its frames. -/
structure Meter (F : Type*) where
  limiter : RateLimiter F
  charged : List ℕ
  passed : List ℕ
  refused : List ℕ
  limited : List ℕ

section

variable {F : Type*} [Add F] [Sub F] [Mul F] [Div F] [IntCast F] [LT F] [DecidableLT F]

/-- The message handler, for the frame at `place` : whether the frame is consumed. -/
def Meter.onMessage (place : ℕ) (s : Shown) (m : Meter F) : Bool × Meter F :=
  let (allowed, limiter) := m.limiter.allowMessage s.nowMs
  let charged := m.charged ++ List.replicate (limiter.spent - m.limiter.spent) place
  if !allowed then (true, { m with limiter, charged, limited := m.limited ++ [place] })
  else if s.room then (true, { m with limiter, charged, passed := m.passed ++ [place] })
  else (false, { m with limiter, charged, refused := m.refused ++ [place] })

/-- A connection with its limiter. -/
structure ThrottledRun (F : Type*) extends ReceiveRun where
  meter : Meter F

/-- A handler of the connection runs, or somebody closes it. -/
inductive ThrottledStep where
  | receive (data : Bytes) (shown : List Shown) (closes accepted : Bool)
  | fail
  | resume (shown : List Shown) (closes accepted : Bool)
  | close

namespace ThrottledRun

/-- `drain_frames` with this handler. -/
def drainFrames (shown : List Shown) (c : Receiver) (m : Meter F) : Receiver × Meter F :=
  match h : peekFrame c.recvBuf.readable with
  | .incomplete => (c, m)
  | .tooLarge => (c.close, m)
  | .ok view consumed =>
    let s := shown.headD ⟨0, true, false⟩
    let (consumes, m) := m.onMessage c.delivered.length s
    if consumes then
      have := Receiver.readableSize_accept_lt h
      let c' := (c.accept view consumed h).handle ⟨true, false, s.closes⟩
      if c'.closed then (c', m) else drainFrames shown.tail c' m
    else (c.handle ⟨false, true, s.closes⟩, m)
termination_by c.recvBuf.readableSize

/-- The end of both handlers, after the drain of the buffer of `c`. -/
def drainAndReadOn (shown : List Shown) (closes accepted : Bool) (c : Receiver)
    (r : ThrottledRun F) : ThrottledRun F :=
  let (conn, meter) := drainFrames shown c r.meter
  ⟨ReceiveRun.readOn closes accepted ⟨conn, r.posts⟩, meter⟩

/-- `on_receive_done`, with the limiter in front of the message handler. -/
def onReceiveDone (data : Bytes) (shown : List Shown) (closes accepted : Bool)
    (r : ThrottledRun F) (h : data.length ≤ r.conn.recvBuf.writableSize) : ThrottledRun F :=
  let recvBuf := (r.conn.recvBuf.fill data h).commitWrite data.length
    (by rw [ReceiveBuffer.writableSize_fill]; exact h)
  let c := { r.conn with posted := false, recvBuf, arrived := r.conn.arrived ++ data }
  r.drainAndReadOn shown closes accepted c

/-- `on_resume`, with the limiter in front of the message handler. -/
def onResume (shown : List Shown) (closes accepted : Bool) (r : ThrottledRun F) :
    ThrottledRun F :=
  r.drainAndReadOn shown closes accepted { r.conn with recvPaused := false }

/-- A connection whose limiter has been configured. -/
def fresh (ratePerSec burst : ℤ) (accepted : Bool) : ThrottledRun F where
  toReceiveRun := ReceiveRun.postReceive accepted ⟨.fresh, []⟩
  meter := ⟨.configure ratePerSec burst, [], [], [], []⟩

end ThrottledRun

variable (F) in
/-- A connection with a limiter from its start, its receive handlers one at a time. -/
def throttledRuns (ratePerSec burst : ℤ) : Machine (ThrottledRun F) ThrottledStep where
  init r := ∃ accepted, r = .fresh ratePerSec burst accepted
  step r
    | .receive data shown closes accepted =>
      if h : r.conn.posted ∧ data ≠ [] ∧ data.length ≤ r.conn.recvBuf.writableSize then
        some (r.onReceiveDone data shown closes accepted h.2.2)
      else none
    | .fail =>
      if r.conn.posted then some { r with conn := { r.conn with posted := false }.close }
      else none
    | .resume shown closes accepted =>
      if r.conn.recvPaused then some (r.onResume shown closes accepted) else none
    | .close => some { r with conn := r.conn.close }

end

namespace Meter

variable {F : Type*} {m m' : Meter F} {place next : ℕ} {s : Shown}

/-- A token has been taken for the frame at `place`. -/
def waiting (place : ℕ) (m : Meter F) : Bool := place ∈ m.charged

/-- No frame has two tokens, and none that has one is answered `rate limit`. -/
structure Pure (m : Meter F) : Prop where
  charged_once : m.charged.Nodup
  limited_free : ∀ k ∈ m.limited, k ∉ m.charged

/-- What the records say in every run; `place` is the next frame. -/
structure Metered (place : ℕ) (m : Meter F) : Prop where
  rate_pos : 0 < m.limiter.rate
  spent_eq : m.limiter.spent = m.charged.length
  total : m.charged.length = m.passed.length + m.refused.length
  charged_le : ∀ k ∈ m.charged, k ≤ place
  limited_lt : ∀ k ∈ m.limited, k < place

/-- The tokens are those of the frames taken and of a frame that waits to be taken. -/
structure Fair (place : ℕ) (m : Meter F) : Prop extends Pure m where
  spent_eq : m.limiter.spent = m.passed.length + (m.waiting place).toNat

/-- A handler adds to the records. -/
structure Extends (m m' : Meter F) : Prop where
  charged : m.charged <+: m'.charged
  limited : m.limited <+: m'.limited

theorem Extends.refl (m : Meter F) : m.Extends m := ⟨List.prefix_rfl, List.prefix_rfl⟩

theorem Extends.trans {m'' : Meter F} (h : m.Extends m') (h' : m'.Extends m'') :
    m.Extends m'' :=
  ⟨h.charged.trans h'.charged, h.limited.trans h'.limited⟩

/-- What is unfair stays unfair. -/
theorem Pure.of_extends (h : m'.Pure) (hext : m.Extends m') : m.Pure :=
  ⟨h.charged_once.sublist hext.charged.sublist, fun k hk hmem =>
    h.limited_free k (hext.limited.subset hk) (hext.charged.subset hmem)⟩

/-- A frame that has not been charged is not waiting. -/
theorem waiting_eq_false (h : ∀ k ∈ m.charged, k < place) : m.waiting place = false :=
  decide_eq_false fun hmem => (h _ hmem).false

/-! ## One frame -/

variable [Add F] [Sub F] [Mul F] [Div F] [IntCast F] [LT F] [DecidableLT F]

/-- What the handler does with a frame while the limiter is on. -/
theorem onMessage_cases (hrate : 0 < m.limiter.rate) (place : ℕ) (s : Shown) :
    ∃ limiter : RateLimiter F, limiter.rate = m.limiter.rate ∧
      (limiter.spent = m.limiter.spent ∧
          m.onMessage place s = (true, { m with limiter, limited := m.limited ++ [place] }) ∨
        limiter.spent = m.limiter.spent + 1 ∧
          (m.onMessage place s = (true, { m with
              limiter
              charged := m.charged ++ [place]
              passed := m.passed ++ [place] }) ∨
            m.onMessage place s = (false, { m with
              limiter
              charged := m.charged ++ [place]
              refused := m.refused ++ [place] }))) := by
  obtain ⟨hrate', hspent⟩ := RateLimiter.allowMessage_spec hrate s.nowMs
  refine ⟨(m.limiter.allowMessage s.nowMs).2, hrate', ?_⟩
  cases hallowed : (m.limiter.allowMessage s.nowMs).1 with
  | false =>
    have hsame : (m.limiter.allowMessage s.nowMs).2.spent = m.limiter.spent := by
      simpa [hallowed] using hspent
    exact .inl ⟨hsame, by simp [onMessage, hallowed, hsame]⟩
  | true =>
    have hone : (m.limiter.allowMessage s.nowMs).2.spent = m.limiter.spent + 1 := by
      simpa [hallowed] using hspent
    refine .inr ⟨hone, ?_⟩
    cases hroom : s.room with
    | true => exact .inl (by simp [onMessage, hallowed, hone, hroom])
    | false => exact .inr (by simp [onMessage, hallowed, hone, hroom])

/-- A message that is shown adds to what is charged, and takes nothing back. -/
theorem extends_onMessage (h : m.Metered place) {consumes : Bool}
    (hm : m.onMessage place s = (consumes, m')) : m.Extends m' := by
  obtain ⟨limiter, -, ⟨-, hcase⟩ | ⟨-, hcase | hcase⟩⟩ := onMessage_cases h.rate_pos place s
  all_goals obtain rfl := (Prod.mk.inj (hm.symm.trans hcase)).2
  · exact ⟨List.prefix_rfl, List.prefix_append _ _⟩
  · exact ⟨List.prefix_append _ _, List.prefix_rfl⟩
  · exact ⟨List.prefix_append _ _, List.prefix_rfl⟩

/-- A frame that is consumed. -/
theorem Metered.consumed (h : m.Metered place) (hm : m.onMessage place s = (true, m')) :
    m'.Metered (place + 1) ∧ m'.waiting (place + 1) = false := by
  have hkept : ∀ k ∈ m.charged, k < place + 1 := fun k hk => Nat.lt_succ_of_le (h.charged_le k hk)
  have hlimited : ∀ k ∈ m.limited, k < place + 1 := fun k hk =>
    (h.limited_lt k hk).trans (Nat.lt_succ_self _)
  obtain ⟨limiter, hrate, ⟨hspent, hcase⟩ | ⟨hspent, hcase | hcase⟩⟩ :=
    onMessage_cases h.rate_pos place s
  · obtain rfl := (Prod.mk.inj (hm.symm.trans hcase)).2
    refine ⟨⟨hrate ▸ h.rate_pos, hspent.trans h.spent_eq, h.total, fun k hk => (hkept k hk).le, ?_⟩,
      waiting_eq_false hkept⟩
    simpa [or_imp, forall_and] using hlimited
  · obtain rfl := (Prod.mk.inj (hm.symm.trans hcase)).2
    have hcharged : ∀ k ∈ m.charged ++ [place], k < place + 1 := by
      simpa [or_imp, forall_and] using hkept
    refine ⟨⟨hrate ▸ h.rate_pos, ?_, ?_, fun k hk => (hcharged k hk).le, hlimited⟩,
      waiting_eq_false hcharged⟩
    · simp [hspent, h.spent_eq]
    · simp only [h.total, List.length_append, List.length_singleton]
      omega
  · simp [hcase] at hm

/-- A frame that is left in the buffer. -/
theorem Metered.left (h : m.Metered place) (hm : m.onMessage place s = (false, m')) :
    m'.Metered place := by
  obtain ⟨limiter, hrate, ⟨-, hcase⟩ | ⟨hspent, hcase | hcase⟩⟩ :=
    onMessage_cases h.rate_pos place s
  · simp [hcase] at hm
  · simp [hcase] at hm
  · obtain rfl := (Prod.mk.inj (hm.symm.trans hcase)).2
    refine ⟨hrate ▸ h.rate_pos, ?_, ?_, ?_, h.limited_lt⟩
    · simp [hspent, h.spent_eq]
    · simp only [h.total, List.length_append, List.length_singleton]
      omega
    · simpa [or_imp, forall_and] using h.charged_le

/-- A frame that no token was taken for. -/
theorem Fair.onMessage (hf : m.Fair place) (h : m.Metered place)
    (hfree : m.waiting place = false) {consumes : Bool}
    (hm : m.onMessage place s = (consumes, m')) :
    m'.Fair (if consumes then place + 1 else place) := by
  have hnew : place ∉ m.charged := of_decide_eq_false hfree
  have hspent : m.limiter.spent = m.passed.length := by simpa [hfree] using hf.spent_eq
  have honce : (m.charged ++ [place]).Nodup :=
    List.nodup_append.mpr ⟨hf.charged_once, List.nodup_singleton _, fun k hk k' hk' heq =>
      hnew (by rwa [← List.mem_singleton.mp hk', ← heq])⟩
  have hlimited : ∀ k ∈ m.limited, k ∉ m.charged ++ [place] := fun k hk hmem => by
    rcases List.mem_append.mp hmem with hmem | hmem
    · exact hf.limited_free k hk hmem
    · exact (h.limited_lt k hk).ne (List.mem_singleton.mp hmem)
  cases consumes with
  | true =>
    have hnone := (h.consumed hm).2
    obtain ⟨limiter, -, ⟨hsame, hcase⟩ | ⟨hone, hcase | hcase⟩⟩ :=
      onMessage_cases h.rate_pos place s
    · obtain rfl := (Prod.mk.inj (hm.symm.trans hcase)).2
      refine ⟨⟨hf.charged_once, ?_⟩, ?_⟩
      · simpa [or_imp, forall_and, hnew] using hf.limited_free
      · simp [hnone, hsame, hspent]
    · obtain rfl := (Prod.mk.inj (hm.symm.trans hcase)).2
      refine ⟨⟨honce, hlimited⟩, ?_⟩
      simp [hnone, hone, hspent]
    · simp [hcase] at hm
  | false =>
    obtain ⟨limiter, -, ⟨-, hcase⟩ | ⟨hone, hcase | hcase⟩⟩ := onMessage_cases h.rate_pos place s
    · simp [hcase] at hm
    · simp [hcase] at hm
    · obtain rfl := (Prod.mk.inj (hm.symm.trans hcase)).2
      refine ⟨⟨honce, hlimited⟩, ?_⟩
      simp [waiting, hone, hspent]

/-- A frame that is shown again is charged again, or answered `rate limit`. -/
theorem not_pure_onMessage (h : m.Metered place) (hwait : m.waiting place = true)
    {consumes : Bool} (hm : m.onMessage place s = (consumes, m')) : ¬m'.Pure := by
  have hmem : place ∈ m.charged := of_decide_eq_true hwait
  intro hpure
  obtain ⟨limiter, -, ⟨-, hcase⟩ | ⟨-, hcase | hcase⟩⟩ := onMessage_cases h.rate_pos place s
  all_goals obtain rfl := (Prod.mk.inj (hm.symm.trans hcase)).2
  · exact hpure.limited_free place (by simp) hmem
  · exact (List.nodup_append.mp hpure.charged_once).2.2 place hmem place (by simp) rfl
  · exact (List.nodup_append.mp hpure.charged_once).2.2 place hmem place (by simp) rfl

end Meter

namespace ThrottledRun

variable {F : Type*} [Add F] [Sub F] [Mul F] [Div F] [IntCast F] [LT F] [DecidableLT F]
  {r r' : ThrottledRun F} {c : Receiver} {m : Meter F}

/-! ## One drain -/

/-- The buffer of `c` starts with a whole frame. -/
def HasFrame (c : Receiver) : Prop :=
  ∃ view consumed, peekFrame c.recvBuf.readable = .ok view consumed

/-- The drain loop charges the frames in their order. -/
theorem metered_drainFrames (shown : List Shown) (h : m.Metered c.delivered.length) :
    (drainFrames shown c m).2.Metered (drainFrames shown c m).1.delivered.length ∧
      m.Extends (drainFrames shown c m).2 ∧ (drainFrames shown c m).1.posted = c.posted := by
  fun_induction drainFrames shown c m with
  | case1 => exact ⟨h, .refl _, rfl⟩
  | case2 => exact ⟨h, .refl _, rfl⟩
  | case3 _ c _ view n hpeek s m' _ c' _ hm =>
    have hplace : c'.delivered.length = c.delivered.length + 1 := List.length_append ..
    exact ⟨hplace ▸ (h.consumed hm).1, Meter.extends_onMessage h hm, rfl⟩
  | case4 _ c _ view n hpeek s m' _ c' _ hm ih =>
    have hplace : c'.delivered.length = c.delivered.length + 1 := List.length_append ..
    obtain ⟨hmetered, hext, hposted⟩ := ih (hplace ▸ (h.consumed hm).1)
    exact ⟨hmetered, (Meter.extends_onMessage h hm).trans hext, hposted⟩
  | case5 _ c _ view n hpeek s consumes m' hm hleft =>
    obtain rfl : consumes = false := by simpa using hleft
    exact ⟨h.left hm, Meter.extends_onMessage h hm, rfl⟩

/-- A frame that is left with a token pauses the connection. -/
theorem paused_drainFrames (shown : List Shown) (h : m.Metered c.delivered.length)
    (hfront : m.waiting c.delivered.length = true → HasFrame c)
    (hwait : (drainFrames shown c m).2.waiting (drainFrames shown c m).1.delivered.length = true) :
    (drainFrames shown c m).1.recvPaused = true ∧ HasFrame (drainFrames shown c m).1 := by
  fun_induction drainFrames shown c m with
  | case1 _ c _ hpeek =>
    obtain ⟨view, n, hok⟩ := hfront hwait
    simp [hok] at hpeek
  | case2 _ c _ hpeek =>
    obtain ⟨view, n, hok⟩ := hfront hwait
    simp [hok] at hpeek
  | case3 _ c _ view n hpeek s m' _ c' _ hm =>
    have hplace : c'.delivered.length = c.delivered.length + 1 := List.length_append ..
    simp [hplace, (h.consumed hm).2] at hwait
  | case4 _ c _ view n hpeek s m' _ c' _ hm ih =>
    have hplace : c'.delivered.length = c.delivered.length + 1 := List.length_append ..
    refine ih (hplace ▸ (h.consumed hm).1) (fun hw => ?_) hwait
    simp [hplace, (h.consumed hm).2] at hw
  | case5 _ c _ view n hpeek =>
    exact ⟨by simp [Receiver.handle, Answer.paused], view, n, hpeek⟩

/-- It is fair, unless a frame that waits is shown again. -/
theorem fair_drainFrames (shown : List Shown) (h : m.Metered c.delivered.length)
    (hf : m.Fair c.delivered.length) (hfree : m.waiting c.delivered.length = false) :
    (drainFrames shown c m).2.Fair (drainFrames shown c m).1.delivered.length := by
  fun_induction drainFrames shown c m with
  | case1 => exact hf
  | case2 => exact hf
  | case3 _ c _ view n hpeek s m' _ c' _ hm =>
    have hplace : c'.delivered.length = c.delivered.length + 1 := List.length_append ..
    exact hplace ▸ hf.onMessage h hfree hm
  | case4 _ c _ view n hpeek s m' _ c' _ hm ih =>
    have hplace : c'.delivered.length = c.delivered.length + 1 := List.length_append ..
    obtain ⟨hmetered, hnone⟩ := h.consumed hm
    exact ih (hplace ▸ hmetered) (hplace ▸ hf.onMessage h hfree hm) (hplace ▸ hnone)
  | case5 _ c _ view n hpeek s consumes m' hm hleft =>
    obtain rfl : consumes = false := by simpa using hleft
    exact hf.onMessage h hfree hm

/-- A drain that shows a refused frame again. -/
theorem not_pure_drainFrames (shown : List Shown) (h : m.Metered c.delivered.length)
    (hfront : HasFrame c) (hwait : m.waiting c.delivered.length = true) :
    ¬(drainFrames shown c m).2.Pure := by
  obtain ⟨view, n, hok⟩ := hfront
  fun_cases drainFrames shown c m with
  | case1 hpeek => simp [hok] at hpeek
  | case2 hpeek => simp [hok] at hpeek
  | case3 view n hpeek s m' _ c' _ hm => exact Meter.not_pure_onMessage h hwait hm
  | case4 view n hpeek s m' _ c' _ hm =>
    have hplace : c'.delivered.length = c.delivered.length + 1 := List.length_append ..
    intro hpure
    have hext := (metered_drainFrames shown.tail (hplace ▸ (h.consumed hm).1)).2.1
    exact Meter.not_pure_onMessage h hwait hm (hpure.of_extends hext)
  | case5 view n hpeek s consumes m' hm => exact Meter.not_pure_onMessage h hwait hm

/-- The drain is one of a handler that gives the same answers. -/
theorem conn_drainFrames (shown : List Shown) :
    ∃ answers, (drainFrames shown c m).1 = c.drainWith answers := by
  fun_induction drainFrames shown c m with
  | case1 _ c _ hpeek =>
    refine ⟨[], ?_⟩
    rw [Receiver.drainWith]
    split <;> simp_all
  | case2 _ c _ hpeek =>
    refine ⟨[], ?_⟩
    rw [Receiver.drainWith]
    split <;> simp_all
  | case3 _ c _ view n hpeek s m' _ c' hclosed hm =>
    refine ⟨[⟨true, false, s.closes⟩], ?_⟩
    rw [Receiver.drainWith]
    split
    · simp_all
    · simp_all
    · rename_i view' n' hpeek'
      obtain ⟨rfl, rfl⟩ := FrameResult.ok.inj (hpeek.symm.trans hpeek')
      exact (if_pos hclosed).symm
  | case4 _ c _ view n hpeek s m' _ c' hopen hm ih =>
    obtain ⟨answers, ih⟩ := ih
    refine ⟨⟨true, false, s.closes⟩ :: answers, ?_⟩
    rw [Receiver.drainWith, ih]
    split
    · simp_all
    · simp_all
    · rename_i view' n' hpeek'
      obtain ⟨rfl, rfl⟩ := FrameResult.ok.inj (hpeek.symm.trans hpeek')
      exact (if_neg hopen).symm
  | case5 _ c _ view n hpeek s consumes m' hm hleft =>
    refine ⟨[⟨false, true, s.closes⟩], ?_⟩
    rw [Receiver.drainWith]
    split
    · simp_all
    · simp_all
    · rfl

/-! ## Runs -/

/-- A token has been taken for the frame at the front of the buffer, which was refused. -/
def waiting (r : ThrottledRun F) : Bool := r.meter.waiting r.conn.delivered.length

/-- The connection is resumed only while no refused frame is at the front of its buffer. -/
def NoneShownAgain (r : ThrottledRun F) : ThrottledStep → Prop
  | .resume _ _ _ => r.waiting = false
  | _ => True

instance (r : ThrottledRun F) (a : ThrottledStep) : Decidable (NoneShownAgain r a) := by
  cases a <;> unfold NoneShownAgain <;> infer_instance

/-- What holds between two handlers : a refused frame pauses the connection, and no receive is
outstanding on a paused connection. -/
structure Kept (r : ThrottledRun F) : Prop where
  metered : r.meter.Metered r.conn.delivered.length
  front : r.waiting = true → r.conn.recvPaused = true ∧ HasFrame r.conn
  not_posted : r.conn.recvPaused = true → r.conn.posted = false

/-- Posting a receive delivers nothing. -/
theorem delivered_postReceive (accepted : Bool) (r : ReceiveRun) :
    (r.postReceive accepted).conn.delivered = r.conn.delivered ∧
      (r.postReceive accepted).conn.recvPaused = r.conn.recvPaused := by
  unfold ReceiveRun.postReceive
  dsimp only
  split_ifs <;> exact ⟨rfl, rfl⟩

/-- Nor does reading on. -/
theorem delivered_readOn (closes accepted : Bool) (r : ReceiveRun) :
    (ReceiveRun.readOn closes accepted r).conn.delivered = r.conn.delivered ∧
      (ReceiveRun.readOn closes accepted r).conn.recvPaused = r.conn.recvPaused := by
  unfold ReceiveRun.readOn
  split_ifs
  · exact delivered_postReceive accepted (r.late closes)
  · exact ⟨rfl, rfl⟩

/-- A connection that is paused does not read on. -/
theorem readOn_of_paused (closes accepted : Bool) {r : ReceiveRun} (h : r.conn.recvPaused = true) :
    ReceiveRun.readOn closes accepted r = r.late closes := by
  rw [ReceiveRun.readOn, if_neg (by simp [h])]

omit [Add F] [Sub F] [Mul F] [Div F] [IntCast F] [LT F] [DecidableLT F] in
/-- While a receive is posted, no frame waits. -/
theorem Kept.waiting_of_posted (h : r.Kept) (hposted : r.conn.posted = true) :
    r.meter.waiting r.conn.delivered.length = false := by
  by_contra hwait
  have hnot := h.not_posted (h.front (by simpa [waiting] using hwait)).1
  simp [hposted] at hnot

/-- The end of a handler that found no receive outstanding. -/
theorem kept_drainAndReadOn (shown : List Shown) (closes accepted : Bool)
    (h : r.meter.Metered c.delivered.length)
    (hfront : r.meter.waiting c.delivered.length = true → HasFrame c) (hposted : c.posted = false) :
    Kept (r.drainAndReadOn shown closes accepted c) := by
  obtain ⟨hmetered, -, hposted'⟩ := metered_drainFrames shown h
  have hpaused := paused_drainFrames shown h hfront
  generalize hd : drainFrames shown c r.meter = d at hmetered hposted' hpaused
  obtain ⟨conn, meter⟩ := d
  have heq : r.drainAndReadOn shown closes accepted c =
      ⟨ReceiveRun.readOn closes accepted ⟨conn, r.posts⟩, meter⟩ := by
    rw [drainAndReadOn, hd]
  obtain ⟨hplace, hsame⟩ := delivered_readOn closes accepted ⟨conn, r.posts⟩
  rw [heq]
  refine ⟨by rw [hplace]; exact hmetered, fun hwait => ?_, fun hp => ?_⟩
  · rw [waiting, hplace] at hwait
    obtain ⟨hp, hframe⟩ := hpaused hwait
    rw [readOn_of_paused closes accepted hp]
    exact ⟨hp, hframe⟩
  · rw [hsame] at hp
    rw [readOn_of_paused closes accepted hp]
    exact hposted'.trans hposted

/-- Both handlers extend the records. -/
theorem extends_drainAndReadOn (shown : List Shown) (closes accepted : Bool)
    (h : r.meter.Metered c.delivered.length) :
    r.meter.Extends (r.drainAndReadOn shown closes accepted c).meter :=
  (metered_drainFrames shown h).2.1

/-- Draining and reading on is fair, as the drain loop is. -/
theorem fair_drainAndReadOn (shown : List Shown) (closes accepted : Bool)
    (h : r.meter.Metered c.delivered.length) (hf : r.meter.Fair c.delivered.length)
    (hfree : r.meter.waiting c.delivered.length = false) :
    (r.drainAndReadOn shown closes accepted c).meter.Fair
      (r.drainAndReadOn shown closes accepted c).conn.delivered.length := by
  have hfair := fair_drainFrames shown h hf hfree
  rw [drainAndReadOn, (delivered_readOn ..).1]
  exact hfair

variable {ratePerSec burst : ℤ} {a : ThrottledStep}

/-- Every run is one of the receive handlers, whatever the handler answers. -/
theorem receiveRuns_of_reaches (h : (throttledRuns F ratePerSec burst).Reaches r) :
    receiveRuns.Reaches r.toReceiveRun := by
  refine h.invariant (I := fun r => receiveRuns.Reaches r.toReceiveRun) ?_ ?_
  · rintro _ ⟨accepted, rfl⟩
    exact .init ⟨accepted, by rw [fresh]⟩
  · intro r a r' hr hstep
    cases a with
    | receive data shown closes accepted =>
      simp only [throttledRuns] at hstep
      split_ifs at hstep with hok
      obtain rfl := Option.some.inj hstep
      obtain ⟨answers, hanswers⟩ := conn_drainFrames
        (c := { r.conn with
          posted := false
          recvBuf := (r.conn.recvBuf.fill data hok.2.2).commitWrite data.length
            (by rw [ReceiveBuffer.writableSize_fill]; exact hok.2.2)
          arrived := r.conn.arrived ++ data }) (m := r.meter) shown
      refine hr.step (a := .receive data answers closes accepted) trivial ?_
      simp only [receiveRuns, dif_pos hok, ReceiveRun.onReceiveDone, ← hanswers]
      rfl
    | fail =>
      simp only [throttledRuns] at hstep
      split_ifs at hstep with hok
      obtain rfl := Option.some.inj hstep
      exact hr.step (a := .fail) trivial (if_pos hok)
    | resume shown closes accepted =>
      simp only [throttledRuns] at hstep
      split_ifs at hstep with hok
      obtain rfl := Option.some.inj hstep
      obtain ⟨answers, hanswers⟩ :=
        conn_drainFrames (c := { r.conn with recvPaused := false }) (m := r.meter) shown
      refine hr.step (a := .resume answers closes accepted) trivial ?_
      simp only [receiveRuns, if_pos hok, ReceiveRun.onResume, ← hanswers]
      rfl
    | close =>
      obtain rfl := Option.some.inj hstep
      exact hr.step (a := .close) trivial rfl

/-- Every step keeps the account of what is charged. -/
theorem Kept.step (h : r.Kept) (hstep : (throttledRuns F ratePerSec burst).step r a = some r') :
    r'.Kept ∧ r.meter.Extends r'.meter := by
  cases a with
  | receive data shown closes accepted =>
    simp only [throttledRuns] at hstep
    split_ifs at hstep with hok
    obtain rfl := Option.some.inj hstep
    refine ⟨kept_drainAndReadOn shown closes accepted h.metered (fun hwait => ?_) rfl,
      extends_drainAndReadOn shown closes accepted h.metered⟩
    simp [h.waiting_of_posted hok.1] at hwait
  | fail =>
    simp only [throttledRuns] at hstep
    split_ifs at hstep
    obtain rfl := Option.some.inj hstep
    exact ⟨⟨h.metered, h.front, fun _ => rfl⟩, .refl _⟩
  | resume shown closes accepted =>
    simp only [throttledRuns] at hstep
    split_ifs at hstep with hpaused
    obtain rfl := Option.some.inj hstep
    exact ⟨kept_drainAndReadOn shown closes accepted h.metered (fun hwait => (h.front hwait).2)
      (h.not_posted hpaused), extends_drainAndReadOn shown closes accepted h.metered⟩
  | close =>
    obtain rfl := Option.some.inj hstep
    exact ⟨⟨h.metered, h.front, h.not_posted⟩, .refl _⟩

/-- A step that shows no waiting frame again is fair. -/
theorem fair_step (h : r.Kept) (hf : r.meter.Fair r.conn.delivered.length)
    (ha : NoneShownAgain r a) (hstep : (throttledRuns F ratePerSec burst).step r a = some r') :
    r'.meter.Fair r'.conn.delivered.length := by
  cases a with
  | receive data shown closes accepted =>
    simp only [throttledRuns] at hstep
    split_ifs at hstep with hok
    obtain rfl := Option.some.inj hstep
    exact fair_drainAndReadOn shown closes accepted h.metered hf (h.waiting_of_posted hok.1)
  | fail =>
    simp only [throttledRuns] at hstep
    split_ifs at hstep
    obtain rfl := Option.some.inj hstep
    exact hf
  | resume shown closes accepted =>
    simp only [throttledRuns] at hstep
    split_ifs at hstep
    obtain rfl := Option.some.inj hstep
    exact fair_drainAndReadOn shown closes accepted h.metered hf ha
  | close =>
    obtain rfl := Option.some.inj hstep
    exact hf

/-- A step that shows a refused frame again is unfair for good. -/
theorem noneShownAgain_of_pure (h : r.Kept) (hpure : r'.meter.Pure)
    (hstep : (throttledRuns F ratePerSec burst).step r a = some r') : NoneShownAgain r a := by
  cases a with
  | resume shown closes accepted =>
    simp only [throttledRuns] at hstep
    split_ifs at hstep
    obtain rfl := Option.some.inj hstep
    by_contra hwait
    have hwait : r.waiting = true := by simpa [NoneShownAgain] using hwait
    exact not_pure_drainFrames (c := { r.conn with recvPaused := false }) shown h.metered
      (h.front hwait).2 hwait hpure
  | _ => trivial

omit [Add F] [Sub F] [Mul F] [Div F] [LT F] [DecidableLT F] in
/-- The connection of a fresh run has posted its first receive. -/
theorem conn_fresh (accepted : Bool) :
    (fresh ratePerSec burst accepted : ThrottledRun F).conn =
      (ReceiveRun.postReceive accepted ⟨.fresh, []⟩).conn := by
  rw [fresh]

omit [Add F] [Sub F] [Mul F] [Div F] [LT F] [DecidableLT F] in
/-- Nothing is charged before the first frame. -/
theorem kept_fresh (hrate : 0 < ratePerSec) (accepted : Bool) :
    Kept (.fresh ratePerSec burst accepted : ThrottledRun F) ∧
      (fresh ratePerSec burst accepted : ThrottledRun F).meter.Fair
        (fresh ratePerSec burst accepted : ThrottledRun F).conn.delivered.length := by
  obtain ⟨-, hpaused⟩ := delivered_postReceive accepted ⟨.fresh, []⟩
  refine ⟨⟨⟨?_, rfl, rfl, by simp [fresh], by simp [fresh]⟩,
    by simp [waiting, fresh, Meter.waiting], fun hp => ?_⟩, ⟨by simp [fresh], by simp [fresh]⟩, ?_⟩
  · simp [fresh, RateLimiter.configure, hrate]
  · rw [conn_fresh, hpaused] at hp
    simp [Receiver.fresh] at hp
  · simp [fresh, RateLimiter.configure, Meter.waiting]

/-- The account holds in every state that is reached. -/
theorem kept_of_reaches (hrate : 0 < ratePerSec)
    (h : (throttledRuns F ratePerSec burst).Reaches r) : r.Kept := by
  refine h.invariant ?_ fun r a r' hr hstep => (hr.step hstep).1
  rintro _ ⟨accepted, rfl⟩
  exact (kept_fresh hrate accepted).1

/-- The limiter is fair in every run that shows no waiting frame again. -/
theorem fair_of_reachesWhen (hrate : 0 < ratePerSec)
    (h : (throttledRuns F ratePerSec burst).ReachesWhen NoneShownAgain r) :
    r.Kept ∧ r.meter.Fair r.conn.delivered.length := by
  refine h.invariant (I := fun r => r.Kept ∧ r.meter.Fair r.conn.delivered.length) ?_ ?_
  · rintro _ ⟨accepted, rfl⟩
    exact kept_fresh hrate accepted
  · rintro r a r' ⟨hk, hf⟩ ha hstep
    exact ⟨(hk.step hstep).1, fair_step hk hf ha hstep⟩

/-- A run that charges no frame twice has shown none again. -/
theorem reachesWhen_of_pure (hrate : 0 < ratePerSec)
    (h : (throttledRuns F ratePerSec burst).Reaches r) (hpure : r.meter.Pure) :
    (throttledRuns F ratePerSec burst).ReachesWhen NoneShownAgain r := by
  induction h with
  | init hi => exact .init hi
  | step hr _ hstep ih =>
    have hk := kept_of_reaches hrate hr
    exact (ih (hpure.of_extends (hk.step hstep).2)).step (noneShownAgain_of_pure hk hpure hstep)
      hstep

end ThrottledRun

section

variable {F : Type*} [Add F] [Sub F] [Mul F] [Div F] [IntCast F] [LT F] [DecidableLT F]

/-- While the limiter is on, the tokens of a connection are those of the frames its service took
and of a frame that waits to be taken, none a second one for a frame, and no frame that has one
is answered `rate limit`, in exactly the runs in which the connection is never resumed with a
refused frame at the front of its buffer. In every run each token is for a frame that was taken
or for a refusal. -/
theorem rate_limit_fair {ratePerSec burst : ℤ} (hrate : 0 < ratePerSec) {r : ThrottledRun F}
    (h : (throttledRuns F ratePerSec burst).Reaches r) :
    (r.meter.Fair r.conn.delivered.length ↔
        (throttledRuns F ratePerSec burst).ReachesWhen ThrottledRun.NoneShownAgain r) ∧
      r.meter.limiter.spent = r.meter.passed.length + r.meter.refused.length := by
  have hk := ThrottledRun.kept_of_reaches hrate h
  exact ⟨⟨fun hf => ThrottledRun.reachesWhen_of_pure hrate h hf.toPure,
    fun hw => (ThrottledRun.fair_of_reachesWhen hrate hw).2⟩,
    hk.metered.spent_eq.trans hk.metered.total⟩

end

/-- Of four frames in one chunk, a limiter of two tokens lets two pass and answers the third; when
it has a token again, the service has no room, and the fourth waits with its token. -/
theorem rate_limit_fair_one_waits : ∃ r : ThrottledRun ℚ,
    (r.meter.passed = [0, 1] ∧ r.meter.limited = [2] ∧ r.meter.refused = [3]) ∧
      r.meter.limiter.spent = 3 ∧ r.meter.Fair r.conn.delivered.length := by
  let fr := (Frame.mk 1 [7, 8]).encode
  obtain ⟨r, hr, hp⟩ := (throttledRuns ℚ 1 2).exists_reachesWhen ThrottledRun.NoneShownAgain
    (.fresh 1 2 true)
    [.receive (fr ++ fr ++ fr ++ fr)
      [⟨1000, true, false⟩, ⟨1000, true, false⟩, ⟨1000, true, false⟩, ⟨2000, false, false⟩] false true]
    (fun r => (r.meter.passed = [0, 1] ∧ r.meter.limited = [2] ∧ r.meter.refused = [3]) ∧
      r.meter.limiter.spent = 3) ⟨true, rfl⟩ (by decide +kernel)
  obtain ⟨hmeter, hspent⟩ := of_decide_eq_true hp
  have hfair := (rate_limit_fair (by decide) (hr.mono fun _ _ _ => trivial)).1.mpr hr
  exact ⟨r, hmeter, hspent, hfair⟩

/-- A frame that is refused once and taken when the connection is resumed costs two tokens; with
a limiter of one token it is answered `rate limit`. -/
theorem refused_frame_charged_again :
    (∃ r : ThrottledRun ℚ, (throttledRuns ℚ 10 5).Reaches r ∧ r.meter.limiter.spent = 2 ∧
        r.meter.passed = [0] ∧ r.conn.delivered.length = 1) ∧
      ∃ r : ThrottledRun ℚ, (throttledRuns ℚ 1 1).Reaches r ∧ r.meter.limiter.spent = 1 ∧
        r.meter.passed = [] ∧ r.meter.charged = [0] ∧ r.meter.limited = [0] := by
  let fr := (Frame.mk 1 [7, 8]).encode
  constructor
  · obtain ⟨r, hr, hp⟩ := (throttledRuns ℚ 10 5).exists_reachesWhen (fun _ _ => True)
      (.fresh 10 5 true)
      [.receive fr [⟨1000, false, false⟩] false true, .resume [⟨1000, true, false⟩] false true]
      (fun r => r.meter.limiter.spent = 2 ∧ r.meter.passed = [0] ∧ r.conn.delivered.length = 1)
      ⟨true, rfl⟩ (by decide +kernel)
    exact ⟨r, hr, of_decide_eq_true hp⟩
  · obtain ⟨r, hr, hp⟩ := (throttledRuns ℚ 1 1).exists_reachesWhen (fun _ _ => True)
      (.fresh 1 1 true)
      [.receive fr [⟨1000, false, false⟩] false true, .resume [⟨1000, true, false⟩] false true]
      (fun r => r.meter.limiter.spent = 1 ∧ r.meter.passed = [] ∧ r.meter.charged = [0] ∧
        r.meter.limited = [0]) ⟨true, rfl⟩ (by decide +kernel)
    exact ⟨r, hr, of_decide_eq_true hp⟩

end EchoServer
