import EchoServer.Lib.Machine
import EchoServer.Core.Latency

/-!
# What the services report

`app/service.cpp` and `app/service_router.cpp` : a lane counts and measures while it handles items,
`report` leaves a copy for others under `stats_mutex` and empties the distributions, and another
thread merges the copies, lane after lane, while the lanes go on.

What the handlers count and measure is left open (`Handling`). The fields of `ServiceStats` that are
treated alike are functions of the field. `CountField` has those that only grow : `report` gives the
responses counted from the start, not those of the period. A lane's `reports`, `window` and
`samples` record what it has reported and measured; no step reads them.

A scrape reads the lanes of the game service, then the lane of the chat service, then the messages
no service takes (`ServiceRouter::stats`). It is no state of the server at any time, and yet no
count goes back from one scrape to the next (`scrapes_grow`); and its percentiles are those of what
each lane measured in one period (`scrape_distributions`).
-/

namespace EchoServer

/-- The fields of `ServiceStats` that are counts. -/
inductive CountField where
  | handled
  | rejected
  | faults
  | overflow
  | relayMessages
  | dbRequests
  | dbResponses
  | dbFailures
  | dbExpired
  | broadcasts
  | broadcastSends
  deriving DecidableEq

/-- The fields of `ServiceStats` that are distributions. -/
inductive DistField where
  | process
  | queue
  | relay
  | dbRound
  | broadcast
  deriving DecidableEq

/-- The numbers of one service, summed up over its lanes. -/
structure ServiceStats where
  entries : ℕ
  counts : CountField → ℕ
  dists : DistField → LatencyHistogram

namespace ServiceStats

/-- The numbers before the first lane is added. -/
def zero : ServiceStats := ⟨0, fun _ => 0, fun _ => .empty⟩

/-- One round of the loop of `Service::stats`. -/
def add (total s : ServiceStats) : ServiceStats where
  entries := total.entries + s.entries
  counts c := total.counts c + s.counts c
  dists d := (total.dists d).merge (s.dists d)

/-- `Service::stats`, from the copies of the lanes. -/
def ofLanes (copies : List ServiceStats) : ServiceStats := copies.foldl add zero

/-- `ServiceRouter::stats` : the distributions are not merged. -/
def ofServices (game chat : ServiceStats) (unknown : ℕ) : ServiceStats where
  entries := game.entries + chat.entries
  counts c := game.counts c + chat.counts c + if c = .rejected then unknown else 0
  dists _ := .empty

/-- `stats` adds up the counters of the lanes. -/
theorem counts_foldl_add (c : CountField) (copies : List ServiceStats) : ∀ total : ServiceStats,
    (copies.foldl add total).counts c = total.counts c + (copies.map (·.counts c)).sum := by
  induction copies with
  | nil => exact fun total => rfl
  | cons s copies ih =>
    intro total
    rw [List.foldl_cons, ih, List.map_cons, List.sum_cons, add, Nat.add_assoc]

/-- The counter of a service is the sum over its lanes. -/
theorem counts_ofLanes (c : CountField) (copies : List ServiceStats) :
    (ofLanes copies).counts c = (copies.map (·.counts c)).sum := by
  rw [ofLanes, counts_foldl_add, zero, Nat.zero_add]

/-- `stats` merges the distributions of the lanes. -/
theorem dists_foldl_add (d : DistField) (copies : List ServiceStats) : ∀ total : ServiceStats,
    (copies.foldl add total).dists d =
      (copies.map (·.dists d)).foldl (fun total lane => total.merge lane) (total.dists d) := by
  induction copies with
  | nil => exact fun total => rfl
  | cons s copies ih => exact fun total => ih _

/-- Each distribution of a service is merged over its lanes. -/
theorem dists_ofLanes (d : DistField) (copies : List ServiceStats) :
    (ofLanes copies).dists d = LatencyHistogram.stats (copies.map (·.dists d)) :=
  dists_foldl_add d copies zero

end ServiceStats

/-- What handling one item does to the numbers of its lane. -/
structure Handling where
  counted : List CountField
  measured : List (DistField × ℤ)
  /-- The size of the table of the service afterwards. -/
  entries : ℕ
  /-- The handler throws. -/
  fault : Bool

/-- A report and the samples it is about. -/
structure Report where
  stats : ServiceStats
  window : DistField → List ℤ

/-- The numbers of a lane. -/
structure StatsLane where
  entries : ℕ
  counts : CountField → ℕ
  dists : DistField → LatencyHistogram
  /-- The copy for others. -/
  stats : ServiceStats
  reports : List Report
  /-- What was measured since the last report. -/
  window : DistField → List ℤ
  samples : DistField → List ℤ

namespace StatsLane

/-- The copy of a lane that has not reported is all zeros. -/
def fresh : StatsLane :=
  ⟨0, fun _ => 0, fun _ => .empty, .zero, [⟨.zero, fun _ => []⟩], fun _ => [], fun _ => []⟩

/-- One more is counted. -/
def bump (l : StatsLane) (c : CountField) : StatsLane :=
  { l with counts := Function.update l.counts c (l.counts c + 1) }

/-- `add` to a distribution. -/
def measure (d : DistField) (us : ℤ) (l : StatsLane) : Option StatsLane :=
  ((l.dists d).add us).map fun h =>
    { l with
      dists := Function.update l.dists d h
      window := Function.update l.window d (l.window d ++ [us])
      samples := Function.update l.samples d (l.samples d ++ [us]) }

/-- The samples of a round, one after the other. -/
def measureAll : List (DistField × ℤ) → StatsLane → Option StatsLane
  | [], l => some l
  | m :: ms, l => (l.measure m.1 m.2).bind (measureAll ms)

/-- A handler, and `note_fault` where it throws. -/
def handle (h : Handling) (l : StatsLane) : Option StatsLane :=
  (measureAll h.measured { h.counted.foldl bump l with entries := h.entries }).map fun l =>
    if h.fault then l.bump .faults else l

/-- The responses that `on_before_batch` takes. -/
def takeReplies : List Handling → StatsLane → Option StatsLane
  | [], l => some l
  | h :: replies, l => (l.handle h).bind (takeReplies replies)

/-- The messages from the other service, each with the time it has waited. -/
def takeRelays : List (ℤ × Handling) → StatsLane → Option StatsLane
  | [], l => some l
  | (us, h) :: relays, l =>
    (l.measure .relay us).bind fun l => ((l.bump .relayMessages).handle h).bind (takeRelays relays)

/-- The batch, each item with the time it has waited and the time it takes. -/
def takeBatch : List (ℤ × Handling × ℤ) → StatsLane → Option StatsLane
  | [], l => some l
  | (us, h, ns) :: batch, l =>
    (l.measure .queue us).bind fun l => (l.handle h).bind fun l =>
      (l.measure .process ns).bind (takeBatch batch)

/-- `run_step`. -/
def runStep (replies : List Handling) (relays : List (ℤ × Handling))
    (batch : List (ℤ × Handling × ℤ)) (l : StatsLane) : Option StatsLane :=
  (l.takeReplies replies).bind fun l => (l.takeRelays relays).bind (takeBatch batch)

/-- `report`, with the `on_report` of the service. -/
def report (l : StatsLane) : StatsLane :=
  let snap : ServiceStats := ⟨l.entries, l.counts, l.dists⟩
  { l with
    stats := snap
    dists := fun _ => .empty
    reports := l.reports ++ [⟨snap, l.window⟩]
    window := fun _ => [] }

end StatsLane

/-- A scrape on its way. -/
structure Scraping where
  /-- The counts that had been reported when it began. -/
  reported : CountField → ℕ
  copies : List ServiceStats

/-- A scrape that is through. -/
structure Scrape where
  reported : CountField → ℕ
  copies : List ServiceStats
  game : ServiceStats
  chat : ServiceStats
  total : ServiceStats

/-- The lanes and the thread that scrapes them. -/
structure Statistics where
  /-- The lanes of the game service, then the lane of the chat service. -/
  lanes : List StatsLane
  unknown : ℕ
  scraping : Option Scraping
  scrapes : List Scrape

namespace Statistics

/-- What counts as rejected besides. -/
def unknownOf (s : Statistics) (c : CountField) : ℕ := if c = .rejected then s.unknown else 0

/-- What has been counted. -/
def counted (s : Statistics) (c : CountField) : ℕ :=
  (s.lanes.map (·.counts c)).sum + s.unknownOf c

/-- What has been reported of it. -/
def reported (s : Statistics) (c : CountField) : ℕ :=
  (s.lanes.map (·.stats.counts c)).sum + s.unknownOf c

/-- The end of a scrape, with the copies of `games` lanes of the game service in front. -/
def scrape (games : ℕ) (s : Statistics) (p : Scraping) : Scrape :=
  let game := ServiceStats.ofLanes (p.copies.take games)
  let chat := ServiceStats.ofLanes (p.copies.drop games)
  ⟨p.reported, p.copies, game, chat, .ofServices game chat s.unknown⟩

end Statistics

/-- What a lane or the thread that scrapes does next. -/
inductive StatsStep where
  /-- A round of a lane. -/
  | run (i : ℕ) (replies : List Handling) (relays : List (ℤ × Handling))
      (batch : List (ℤ × Handling × ℤ))
  /-- A message finds the queue of a lane full. -/
  | overflow (i : ℕ)
  | report (i : ℕ)
  /-- A message that no service takes. -/
  | unknown
  /-- A scrape begins. -/
  | begin
  /-- It copies the report of the next lane. -/
  | copy
  | finish

/-- The numbers of `games` lanes of the game service and of the chat service. -/
def statistics (games : ℕ) : Machine Statistics StatsStep where
  init s := s = ⟨List.replicate (games + 1) .fresh, 0, none, []⟩
  step s
    | .run i replies relays batch =>
      match s.lanes[i]? with
      | some l => (l.runStep replies relays batch).map fun l => { s with lanes := s.lanes.set i l }
      | none => none
    | .overflow i =>
      match s.lanes[i]? with
      | some l => some { s with lanes := s.lanes.set i (l.bump .overflow) }
      | none => none
    | .report i =>
      match s.lanes[i]? with
      | some l => some { s with lanes := s.lanes.set i l.report }
      | none => none
    | .unknown => some { s with unknown := s.unknown + 1 }
    | .begin =>
      match s.scraping with
      | none => some { s with scraping := some ⟨s.reported, []⟩ }
      | some _ => none
    | .copy =>
      match s.scraping with
      | some p =>
        s.lanes[p.copies.length]?.map fun l =>
          { s with scraping := some { p with copies := p.copies ++ [l.stats] } }
      | none => none
    | .finish =>
      match s.scraping with
      | some p =>
        if p.copies.length = s.lanes.length then
          some { s with scraping := none, scrapes := s.scrapes ++ [s.scrape games p] }
        else none
      | none => none

/-! ## One lane -/

namespace LatencyHistogram

/-- Two stretches of samples are added one after the other. -/
theorem addAll_append (a b : List ℤ) : ∀ h : LatencyHistogram,
    h.addAll (a ++ b) = (h.addAll a).bind (addAll b) := by
  induction a with
  | nil => exact fun h => rfl
  | cons us a ih =>
    intro h
    rw [List.cons_append, addAll, addAll, Option.bind_assoc]
    exact congrArg _ (funext ih)

/-- One sample more. -/
theorem Records.add {samples : List ℤ} {h h' : LatencyHistogram} (hr : Records samples h) {us : ℤ}
    (ha : h.add us = some h') : Records (samples ++ [us]) h' := by
  have hr : empty.addAll samples = some h := hr
  rw [Records, addAll_append, hr, Option.bind_some, addAll, ha]
  rfl

end LatencyHistogram

open LatencyHistogram

namespace StatsLane

variable {l l' l'' : StatsLane}

/-- What holds of the numbers of a lane at any time. -/
structure Kept (l : StatsLane) : Prop where
  stats_le : ∀ c, l.stats.counts c ≤ l.counts c
  stats_mem : ∃ rep ∈ l.reports, rep.stats = l.stats
  reports : ∀ rep ∈ l.reports, ∀ d, Records (rep.window d) (rep.stats.dists d)
  window : ∀ d, Records (l.window d) (l.dists d)
  samples : ∀ d, l.samples d = l.reports.flatMap (·.window d) ++ l.window d

/-- Nothing that a lane has counted or reported goes back. -/
structure Le (l l' : StatsLane) : Prop where
  counts : ∀ c, l.counts c ≤ l'.counts c
  stats : ∀ c, l.stats.counts c ≤ l'.stats.counts c
  reports : l.reports <+: l'.reports

theorem Le.refl (l : StatsLane) : l.Le l :=
  ⟨fun _ => le_rfl, fun _ => le_rfl, List.prefix_rfl⟩

theorem Le.trans (h : l.Le l') (h' : l'.Le l'') : l.Le l'' :=
  ⟨fun c => (h.counts c).trans (h'.counts c), fun c => (h.stats c).trans (h'.stats c),
    h.reports.trans h'.reports⟩

/-- What a lane may become. -/
def Goes (l l' : StatsLane) : Prop := l'.Kept ∧ l.Le l'

/-- A lane that has not run has counted nothing. -/
theorem kept_fresh : fresh.Kept where
  stats_le _ := le_rfl
  stats_mem := ⟨_, List.mem_singleton.mpr rfl, rfl⟩
  reports rep hrep d := by
    rw [List.mem_singleton.mp hrep]
    rfl
  window _ := rfl
  samples _ := rfl

/-- Counting keeps what holds of the lane, and takes nothing back. -/
theorem Kept.bump (hl : l.Kept) (c : CountField) : l.Goes (l.bump c) := by
  have hle : ∀ c', l.counts c' ≤ (l.bump c).counts c' := by
    intro c'
    simp only [StatsLane.bump, Function.update_apply]
    split_ifs with hc
    · exact hc ▸ Nat.le_succ _
    · exact le_rfl
  exact ⟨{ hl with stats_le := fun c' => (hl.stats_le c').trans (hle c') },
    ⟨hle, fun _ => le_rfl, List.prefix_rfl⟩⟩

/-- So does a sample that is recorded. -/
theorem Kept.measure (hl : l.Kept) {d : DistField} {us : ℤ} (h : l.measure d us = some l') :
    l.Goes l' := by
  obtain ⟨dist, hadd, rfl⟩ := Option.map_eq_some_iff.mp h
  refine ⟨{ hl with window := ?_, samples := ?_ }, fun _ => le_rfl, fun _ => le_rfl,
    List.prefix_rfl⟩
  · intro d'
    by_cases hd : d' = d
    · subst hd
      simpa using (hl.window d').add hadd
    · simpa [Function.update_of_ne hd] using hl.window d'
  · intro d'
    by_cases hd : d' = d
    · subst hd
      simp [hl.samples d']
    · simp [Function.update_of_ne hd, hl.samples d']

/-- `report` gives away the distributions and starts new ones. -/
theorem Kept.report (hl : l.Kept) : l.Goes l.report where
  left :=
    { stats_le := fun _ => le_rfl
      stats_mem := ⟨_, List.mem_append_right _ (List.mem_singleton.mpr rfl), rfl⟩
      reports := by
        intro rep hrep d
        obtain hrep | hrep := List.mem_append.mp hrep
        · exact hl.reports rep hrep d
        · rw [List.mem_singleton.mp hrep]
          exact hl.window d
      window := fun _ => rfl
      samples := fun d => by
        simp [StatsLane.report, hl.samples d] }
  right := ⟨fun _ => le_rfl, hl.stats_le, List.prefix_append _ _⟩

theorem Goes.trans (h : l.Goes l') (h' : l'.Kept → l'.Goes l'') : l.Goes l'' :=
  ⟨(h' h.1).1, h.2.trans (h' h.1).2⟩

/-- And any number of samples, by induction on them. -/
theorem Kept.measureAll : ∀ {ms : List (DistField × ℤ)} {l l' : StatsLane}, l.Kept →
    l.measureAll ms = some l' → l.Goes l'
  | [], l, l', hl, h => by
    obtain rfl := Option.some.inj h
    exact ⟨hl, .refl l⟩
  | m :: ms, l, l', hl, h => by
    obtain ⟨l1, h1, h⟩ := Option.bind_eq_some_iff.mp h
    exact (hl.measure h1).trans fun hl1 => hl1.measureAll h

/-- And any number of counts. -/
theorem Kept.foldl_bump : ∀ (cs : List CountField) {l : StatsLane}, l.Kept →
    l.Goes (cs.foldl StatsLane.bump l)
  | [], l, hl => ⟨hl, .refl l⟩
  | c :: cs, _, hl => (hl.bump c).trans fun hl1 => hl1.foldl_bump cs

/-- A message that is handled counts and measures only. -/
theorem Kept.handle (hl : l.Kept) {h : Handling} (hstep : l.handle h = some l') : l.Goes l' := by
  obtain ⟨l1, h1, rfl⟩ := Option.map_eq_some_iff.mp hstep
  have hbump : l.Goes { h.counted.foldl StatsLane.bump l with entries := h.entries } := by
    obtain ⟨hk, hle⟩ := hl.foldl_bump h.counted
    exact ⟨{ hk with }, { hle with }⟩
  refine (hbump.trans fun hk => hk.measureAll h1).trans fun hl1 => ?_
  split_ifs
  · exact hl1.bump .faults
  · exact ⟨hl1, .refl l1⟩

/-- The replies of a round, by induction on them. -/
theorem Kept.takeReplies : ∀ {replies : List Handling} {l l' : StatsLane}, l.Kept →
    l.takeReplies replies = some l' → l.Goes l'
  | [], l, l', hl, h => by
    obtain rfl := Option.some.inj h
    exact ⟨hl, .refl l⟩
  | _ :: replies, l, l', hl, h => by
    obtain ⟨l1, h1, h⟩ := Option.bind_eq_some_iff.mp h
    exact (hl.handle h1).trans fun hl1 => hl1.takeReplies h

/-- The relayed messages of a round, by induction on them. -/
theorem Kept.takeRelays : ∀ {relays : List (ℤ × Handling)} {l l' : StatsLane}, l.Kept →
    l.takeRelays relays = some l' → l.Goes l'
  | [], l, l', hl, h => by
    obtain rfl := Option.some.inj h
    exact ⟨hl, .refl l⟩
  | (_, _) :: relays, l, l', hl, h => by
    obtain ⟨l1, h1, h⟩ := Option.bind_eq_some_iff.mp h
    obtain ⟨l2, h2, h⟩ := Option.bind_eq_some_iff.mp h
    exact (hl.measure h1).trans fun hl1 => (hl1.bump .relayMessages).trans fun hb =>
      (hb.handle h2).trans fun hl2 => hl2.takeRelays h

/-- The messages of a round, by induction on them. -/
theorem Kept.takeBatch : ∀ {batch : List (ℤ × Handling × ℤ)} {l l' : StatsLane}, l.Kept →
    l.takeBatch batch = some l' → l.Goes l'
  | [], l, l', hl, h => by
    obtain rfl := Option.some.inj h
    exact ⟨hl, .refl l⟩
  | (_, _, _) :: batch, l, l', hl, h => by
    obtain ⟨l1, h1, h⟩ := Option.bind_eq_some_iff.mp h
    obtain ⟨l2, h2, h⟩ := Option.bind_eq_some_iff.mp h
    obtain ⟨l3, h3, h⟩ := Option.bind_eq_some_iff.mp h
    exact (hl.measure h1).trans fun hl1 => (hl1.handle h2).trans fun hl2 =>
      (hl2.measure h3).trans fun hl3 => hl3.takeBatch h

/-- A round of the lane keeps what holds of it, and takes nothing back. -/
theorem Kept.runStep (hl : l.Kept) {replies : List Handling} {relays : List (ℤ × Handling)}
    {batch : List (ℤ × Handling × ℤ)} (h : l.runStep replies relays batch = some l') :
    l.Goes l' := by
  obtain ⟨l1, h1, h⟩ := Option.bind_eq_some_iff.mp h
  obtain ⟨l2, h2, h⟩ := Option.bind_eq_some_iff.mp h
  exact (hl.takeReplies h1).trans fun hl1 => (hl1.takeRelays h2).trans fun hl2 => hl2.takeBatch h

end StatsLane

/-! ## Scrapes -/

/-- Sums of lists are ordered if their items are, one by one. -/
theorem sum_map_le {α β : Type*} {R : α → β → Prop} {f : α → ℕ} {g : β → ℕ} {xs : List α}
    {ys : List β} (h : List.Forall₂ R xs ys) (hR : ∀ x y, R x y → f x ≤ g y) :
    (xs.map f).sum ≤ (ys.map g).sum := by
  induction h with
  | nil => exact le_rfl
  | cons hxy _ ih => exact Nat.add_le_add (hR _ _ hxy) ih

theorem forall₂_set {α : Type*} {R : α → α → Prop} (hR : ∀ x, R x x) {x y : α} (hxy : R x y) :
    ∀ {xs : List α} {i : ℕ}, xs[i]? = some x → List.Forall₂ R xs (xs.set i y)
  | x' :: xs, 0, h => by
    obtain rfl : x' = x := by simpa using h
    exact .cons hxy (List.forall₂_same.mpr fun x _ => hR x)
  | x' :: xs, i + 1, h => .cons (hR x') (forall₂_set hR hxy (by simpa using h))

/-- A copy of a report of the lane. -/
def Copied (copy : ServiceStats) (l : StatsLane) : Prop :=
  (∀ c, copy.counts c ≤ l.stats.counts c) ∧ ∃ rep ∈ l.reports, rep.stats = copy

/-- An older copy of a lane stays a copy as the lane goes on. -/
theorem Copied.mono {copy : ServiceStats} {l l' : StatsLane} (h : Copied copy l) (hl : l.Le l') :
    Copied copy l' := by
  obtain ⟨hle, rep, hrep, heq⟩ := h
  exact ⟨fun c => (hle c).trans (hl.stats c), rep, hl.reports.subset hrep, heq⟩

namespace Statistics

variable {s s' : Statistics} {games : ℕ} {p : Scraping}

/-- The counts of a scrape on its way, with the lanes still to be copied as they are. -/
def mixed (s : Statistics) (p : Scraping) (c : CountField) : ℕ :=
  (p.copies.map (·.counts c)).sum +
    ((s.lanes.drop p.copies.length).map (·.stats.counts c)).sum + s.unknownOf c

/-- What a scrape has been made from. -/
structure Made (s : Statistics) (games : ℕ) (r : Scrape) : Prop where
  copied : List.Forall₂ Copied r.copies s.lanes
  game : r.game = .ofLanes (r.copies.take games)
  chat : r.chat = .ofLanes (r.copies.drop games)
  reported_le : ∀ c, r.reported c ≤ r.total.counts c
  total_le : ∀ c, r.total.counts c ≤ s.reported c

/-- What holds between two steps. -/
structure Inv (games : ℕ) (s : Statistics) : Prop where
  kept : ∀ l ∈ s.lanes, l.Kept
  copied : ∀ p, s.scraping = some p →
    List.Forall₂ Copied p.copies (s.lanes.take p.copies.length)
  floor : ∀ p, s.scraping = some p → ∀ c, p.reported c ≤ s.mixed p c
  before : ∀ p, s.scraping = some p → ∀ r ∈ s.scrapes, ∀ c, r.total.counts c ≤ p.reported c
  made : ∀ r ∈ s.scrapes, s.Made games r
  grows : s.scrapes.Pairwise fun a b => ∀ c, a.total.counts c ≤ b.total.counts c

/-- Lanes that go on, and messages no service takes, take nothing back. -/
structure Grows (s s' : Statistics) : Prop where
  lanes : List.Forall₂ StatsLane.Le s.lanes s'.lanes
  unknown : s.unknown ≤ s'.unknown
  scraping_eq : s'.scraping = s.scraping
  scrapes_eq : s'.scrapes = s.scrapes

/-- What is not known of a lane does not shrink. -/
theorem Grows.unknownOf_le (h : s.Grows s') (c : CountField) : s.unknownOf c ≤ s'.unknownOf c := by
  unfold unknownOf
  split_ifs
  · exact h.unknown
  · exact le_rfl

/-- What a scrape would report does not shrink. -/
theorem Grows.reported_le (h : s.Grows s') (c : CountField) : s.reported c ≤ s'.reported c :=
  Nat.add_le_add (sum_map_le h.lanes fun _ _ hl => hl.stats c) (h.unknownOf_le c)

/-- Nor does a scrape that has copied some lanes and not yet the others. -/
theorem Grows.mixed_le (h : s.Grows s') (p : Scraping) (c : CountField) :
    s.mixed p c ≤ s'.mixed p c := by
  have hrest := sum_map_le (List.forall₂_drop p.copies.length h.lanes) fun _ _ hl => hl.stats c
  exact Nat.add_le_add (Nat.add_le_add_left hrest _) (h.unknownOf_le c)

theorem Copied.forall₂_mono {copies : List ServiceStats} {ls ls' : List StatsLane}
    (h : List.Forall₂ Copied copies ls) (hl : List.Forall₂ StatsLane.Le ls ls') :
    List.Forall₂ Copied copies ls' := by
  induction h generalizing ls' with
  | nil => cases hl; exact .nil
  | cons hc _ ih =>
    cases hl with
    | cons hle hrest => exact .cons (hc.mono hle) (ih hrest)

/-- The invariant holds as the lanes go on while a scrape is under way. -/
theorem Inv.grow (hs : s.Inv games) (h : s.Grows s') (hkept : ∀ l ∈ s'.lanes, l.Kept) :
    s'.Inv games where
  kept := hkept
  copied p hp := Copied.forall₂_mono (hs.copied p (h.scraping_eq ▸ hp))
    (List.forall₂_take p.copies.length h.lanes)
  floor p hp c := (hs.floor p (h.scraping_eq ▸ hp) c).trans (h.mixed_le p c)
  before p hp r hr := hs.before p (h.scraping_eq ▸ hp) r (h.scrapes_eq ▸ hr)
  made r hr :=
    have hm := hs.made r (h.scrapes_eq ▸ hr)
    { hm with
      copied := Copied.forall₂_mono hm.copied h.lanes
      total_le := fun c => (hm.total_le c).trans (h.reported_le c) }
  grows := h.scrapes_eq ▸ hs.grows

/-- A step of a lane. -/
theorem Inv.lane (hs : s.Inv games) {i : ℕ} {l l' : StatsLane} (hi : s.lanes[i]? = some l)
    (h : l.Goes l') : ({ s with lanes := s.lanes.set i l' } : Statistics).Inv games := by
  refine hs.grow ⟨forall₂_set StatsLane.Le.refl h.2 hi, le_rfl, rfl, rfl⟩ fun k hk => ?_
  obtain hk | rfl := List.mem_or_eq_of_mem_set hk
  · exact hs.kept k hk
  · exact h.1

/-- A scrape begins with no lane copied. -/
theorem Inv.begin (hs : s.Inv games) :
    ({ s with scraping := some ⟨s.reported, []⟩ } : Statistics).Inv games := by
  refine { hs with copied := ?_, floor := ?_, before := ?_, made := ?_ }
  · rintro p hp
    cases hp
    exact .nil
  · rintro p hp c
    cases hp
    exact (Nat.zero_add _).symm.le.trans (by simp [mixed, reported, unknownOf])
  · rintro p hp r hr c
    cases hp
    exact (hs.made r hr).total_le c
  · exact fun r hr => { hs.made r hr with }

/-- The next lane is copied under its mutex. -/
theorem Inv.copy (hs : s.Inv games) (hp : s.scraping = some p) {l : StatsLane}
    (hl : s.lanes[p.copies.length]? = some l) :
    ({ s with scraping := some { p with copies := p.copies ++ [l.stats] } } : Statistics).Inv
      games := by
  have hk := hs.kept l (List.mem_of_getElem? hl)
  have htake : s.lanes.take (p.copies.length + 1) = s.lanes.take p.copies.length ++ [l] := by
    rw [List.take_add_one, hl]
    rfl
  have hdrop : s.lanes.drop p.copies.length = l :: s.lanes.drop (p.copies.length + 1) := by
    obtain ⟨hlt, rfl⟩ := List.getElem?_eq_some_iff.mp hl
    exact List.drop_eq_getElem_cons hlt
  refine { hs with copied := ?_, floor := ?_, before := ?_, made := ?_ }
  · rintro q hq
    cases hq
    rw [List.length_append, List.length_singleton, htake]
    exact List.rel_append (hs.copied p hp) (.cons ⟨fun _ => le_rfl, hk.stats_mem⟩ .nil)
  · rintro q hq c
    cases hq
    have hfloor := hs.floor p hp c
    simp only [mixed, hdrop, unknownOf, List.map_cons, List.sum_cons, List.map_append,
      List.sum_append, List.map_nil, List.sum_nil, List.length_append,
      List.length_singleton] at hfloor ⊢
    omega
  · rintro q hq r hr c
    cases hq
    exact hs.before p hp r hr c
  · exact fun r hr => { hs.made r hr with }

/-- A scrape that has copied every lane is reported. -/
theorem Inv.finish (hs : s.Inv games) (hp : s.scraping = some p)
    (hall : p.copies.length = s.lanes.length) :
    ({ s with scraping := none, scrapes := s.scrapes ++ [s.scrape games p] } : Statistics).Inv
      games := by
  have hcopied : List.Forall₂ Copied p.copies s.lanes := by
    simpa [hall] using hs.copied p hp
  have htotal : ∀ c, (s.scrape games p).total.counts c =
      (p.copies.map (·.counts c)).sum + s.unknownOf c := by
    intro c
    simp only [scrape, ServiceStats.ofServices, ServiceStats.counts_ofLanes, unknownOf]
    rw [← List.sum_append, ← List.map_append, List.take_append_drop]
  have hfloor : ∀ c, p.reported c ≤ (s.scrape games p).total.counts c := by
    intro c
    have h := hs.floor p hp c
    rw [mixed, hall, List.drop_length] at h
    rw [htotal]
    simpa using h
  have hmade : s.Made games (s.scrape games p) :=
    { copied := hcopied
      game := rfl
      chat := rfl
      reported_le := hfloor
      total_le := fun c => by
        rw [htotal]
        exact Nat.add_le_add_right (sum_map_le hcopied fun _ _ h => h.1 c) _ }
  refine
    { hs with
      copied := by simp
      floor := by simp
      before := by simp
      made := ?_
      grows := ?_ }
  · rintro r hr
    obtain hr | hr := List.mem_append.mp hr
    · exact { hs.made r hr with }
    · rw [List.mem_singleton.mp hr]
      exact { hmade with }
  · refine List.pairwise_append.mpr ⟨hs.grows, List.pairwise_singleton _ _, ?_⟩
    rintro a ha b hb c
    rw [List.mem_singleton.mp hb]
    exact (hs.before p hp a ha c).trans (hfloor c)

/-- Every step of a lane or of the scraper keeps the invariant. -/
theorem Inv.step {a : StatsStep} (hs : s.Inv games) (h : (statistics games).step s a = some s') :
    s'.Inv games := by
  cases a with
  | run i replies relays batch =>
    simp only [statistics] at h
    split at h
    · rename_i l hl
      obtain ⟨l', hrun, rfl⟩ := Option.map_eq_some_iff.mp h
      exact hs.lane hl ((hs.kept l (List.mem_of_getElem? hl)).runStep hrun)
    · cases h
  | overflow i =>
    simp only [statistics] at h
    split at h <;> cases h
    rename_i l hl
    exact hs.lane hl ((hs.kept l (List.mem_of_getElem? hl)).bump .overflow)
  | report i =>
    simp only [statistics] at h
    split at h <;> cases h
    rename_i l hl
    exact hs.lane hl (hs.kept l (List.mem_of_getElem? hl)).report
  | unknown =>
    cases h
    refine hs.grow ⟨?_, Nat.le_succ _, rfl, rfl⟩ hs.kept
    exact List.forall₂_same.mpr fun l _ => .refl l
  | begin =>
    simp only [statistics] at h
    split at h <;> cases h
    exact hs.begin
  | copy =>
    simp only [statistics] at h
    split at h
    · rename_i p hp
      obtain ⟨l, hl, rfl⟩ := Option.map_eq_some_iff.mp h
      exact hs.copy hp hl
    · cases h
  | finish =>
    simp only [statistics] at h
    split at h
    · rename_i p hp
      split_ifs at h with hall
      cases h
      exact hs.finish hp hall
    · cases h

/-- The invariant holds in every state that is reached. -/
theorem inv_of_reaches (h : (statistics games).Reaches s) : s.Inv games := by
  refine Machine.Reaches.invariant ?_ (fun s a s' hs hstep => hs.step hstep) h
  rintro s rfl
  refine
    { kept := ?_
      copied := by simp
      floor := by simp
      before := by simp
      made := by simp
      grows := List.Pairwise.nil }
  intro l hl
  rw [List.eq_of_mem_replicate hl]
  exact StatsLane.kept_fresh

end Statistics

/-- In every run of the lanes and of the thread that scrapes them : no count of a scrape is below
that of an earlier one; and each is at least what had been reported when the scrape began, and at
most what has been counted. -/
theorem scrapes_grow {games : ℕ} {s : Statistics} (h : (statistics games).Reaches s) :
    (s.scrapes.Pairwise fun a b => ∀ c, a.total.counts c ≤ b.total.counts c) ∧
      ∀ r ∈ s.scrapes, ∀ c, r.reported c ≤ r.total.counts c ∧ r.total.counts c ≤ s.counted c := by
  have hs := Statistics.inv_of_reaches h
  refine ⟨hs.grows, fun r hr c => ⟨(hs.made r hr).reported_le c, ?_⟩⟩
  have hcounted : s.reported c ≤ s.counted c := by
    refine Nat.add_le_add_right (List.sum_le_sum fun l hl => ?_) _
    exact (hs.kept l hl).stats_le c
  exact ((hs.made r hr).total_le c).trans hcounted

/-- A handler that counts its message. -/
def sampleHandling : Handling := ⟨[.handled], [], 1, false⟩

/-- The lane of the game service reports while the first scrape is on its way, and once more before
the second. -/
theorem scrapes_grow_twice : ∃ s : Statistics,
    s.scrapes.map (fun r => r.total.counts .handled) = [1, 2] ∧
      s.scrapes.Pairwise fun a b => ∀ c, a.total.counts c ≤ b.total.counts c := by
  obtain ⟨s, hs, hp⟩ := (statistics 1).exists_reachesWhen (fun _ _ => True)
    ⟨List.replicate 2 .fresh, 0, none, []⟩
    [.run 0 [] [] [(5, sampleHandling, 700)], .report 0, .begin, .copy,
      .run 0 [] [] [(8, sampleHandling, 600)], .report 0, .unknown, .copy, .finish, .begin, .copy,
      .copy, .finish]
    (fun s => s.scrapes.map (fun r => r.total.counts .handled) = [1, 2]) rfl (by decide +kernel)
  exact ⟨s, of_decide_eq_true hp, (scrapes_grow hs).1⟩

/-- The reports that copies were made of. -/
theorem exists_reports {copies : List ServiceStats} {ls : List StatsLane}
    (h : List.Forall₂ Copied copies ls) : ∃ reps : List Report,
      List.Forall₂ (fun rep l => rep ∈ l.reports) reps ls ∧ copies = reps.map Report.stats := by
  induction h with
  | nil => exact ⟨[], .nil, rfl⟩
  | cons hc _ ih =>
    obtain ⟨-, rep, hrep, rfl⟩ := hc
    obtain ⟨reps, hreps, rfl⟩ := ih
    exact ⟨rep :: reps, .cons hrep hreps, rfl⟩

/-- The merged distributions are those of the merged periods. -/
theorem records_ofLanes {reps : List Report} {d : DistField}
    (h : ∀ rep ∈ reps, Records (rep.window d) (rep.stats.dists d)) :
    Records (reps.flatMap (·.window d))
      ((ServiceStats.ofLanes (reps.map Report.stats)).dists d) := by
  have hlanes : List.Forall₂ Records (reps.map (·.window d)) (reps.map (·.stats.dists d)) :=
    List.forall₂_map_left_iff.mpr (List.forall₂_map_right_iff.mpr (List.forall₂_same.mpr h))
  rw [ServiceStats.dists_ofLanes, LatencyHistogram.stats, List.map_map, List.flatMap_def]
  refine records_iff.mpr ⟨?_, ?_⟩
  · intro us hus
    obtain ⟨w, hw, hmem⟩ := List.mem_flatten.mp hus
    obtain ⟨rep, hrep, rfl⟩ := List.mem_map.mp hw
    exact (records_iff.mp (h rep hrep)).1 us hmem
  · exact ((stats_eq hlanes .empty).trans (empty_merge _)).symm

/-- In every run in which each sample has a bucket : what a lane has measured is divided among its
reports and the period that has begun, each sample in one of them; and a scrape shows of every lane
one report, its distributions being those of all the samples of these reports together, for the game
service and for the chat service. -/
theorem scrape_distributions {games : ℕ} {s : Statistics} (h : (statistics games).Reaches s) :
    (∀ l ∈ s.lanes, ∀ d, l.samples d = l.reports.flatMap (·.window d) ++ l.window d) ∧
      ∀ r ∈ s.scrapes, ∃ reps : List Report,
        List.Forall₂ (fun rep l => rep ∈ l.reports) reps s.lanes ∧
          ∀ d, Records ((reps.take games).flatMap (·.window d)) (r.game.dists d) ∧
            Records ((reps.drop games).flatMap (·.window d)) (r.chat.dists d) := by
  have hs := Statistics.inv_of_reaches h
  refine ⟨fun l hl => (hs.kept l hl).samples, fun r hr => ?_⟩
  have hmade := hs.made r hr
  obtain ⟨reps, hreps, hcopies⟩ := exists_reports hmade.copied
  have hrecords : ∀ rep ∈ reps, ∀ d, Records (rep.window d) (rep.stats.dists d) := by
    intro rep hrep
    obtain ⟨i, hi, rfl⟩ := List.mem_iff_getElem.mp hrep
    have hlen := hreps.length_eq
    exact (hs.kept _ (List.getElem_mem (hlen ▸ hi))).reports _ (hreps.get hi (hlen ▸ hi))
  refine ⟨reps, hreps, fun d => ⟨?_, ?_⟩⟩
  · rw [hmade.game, hcopies, ← List.map_take]
    exact records_ofLanes fun rep hrep => hrecords rep (List.mem_of_mem_take hrep) d
  · rw [hmade.chat, hcopies, ← List.map_drop]
    exact records_ofLanes fun rep hrep => hrecords rep (List.mem_of_mem_drop hrep) d

/-- Two lanes of the game service report while a scrape is on its way. -/
theorem scrape_distributions_two_lanes : ∃ (s : Statistics) (r : Scrape) (reps : List Report),
    r ∈ s.scrapes ∧ Records ((reps.take 2).flatMap (·.window .queue)) (r.game.dists .queue) := by
  obtain ⟨s, hs, hp⟩ := (statistics 2).exists_reachesWhen (fun _ _ => True)
    ⟨List.replicate 3 .fresh, 0, none, []⟩
    [.run 0 [] [] [(5, sampleHandling, 700)], .report 0,
      .run 1 [] [(3, sampleHandling)] [(8, sampleHandling, 600), (9, sampleHandling, 800)],
      .begin, .copy, .report 1, .copy, .report 0, .copy, .finish]
    (fun s => s.scrapes ≠ []) rfl (by decide +kernel)
  obtain ⟨r, hr⟩ := List.exists_mem_of_ne_nil _ (of_decide_eq_true hp)
  obtain ⟨reps, -, hrecords⟩ := (scrape_distributions hs).2 r hr
  exact ⟨s, r, reps, hr, (hrecords .queue).1⟩

end EchoServer
