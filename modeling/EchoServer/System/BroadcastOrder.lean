import EchoServer.Lib.Feed
import EchoServer.System.Membership
import EchoServer.System.Pushes

/-!
# The order of the broadcasts

Every chat message that is not refused becomes one frame, which the chat service sends to its
members one after the other, while other threads send on the same connections and close them.

The broadcasts performed and the Connected events handled are a feed (`ChatLane.acts`). Seen from
one connection, the pushes in its send buffer and the push that it is still owed are all that is
due to it since its Connected event, or a push was dropped and the connection is closed before it
is owed another (`Delivered`). So the pushes of every connection are one segment of the feed, from
its Connected event on (`broadcasts_in_order`).
-/

namespace EchoServer

open Threads

variable {cfg : ServerConfig} {e : Env} {s s' : ServerState} {t : Server} {op : Op}
  {new : List Op} {i id : ℕ}

/-! ## The feed of the chat service -/

/-- The frame of a broadcast that begins. -/
def Op.push? : Op → Option Frame
  | broadcast _ _ f _ => some f
  | _ => none

namespace ChatLane

/-- What one turn adds to the feed : the Connected event handled, or the broadcast begun. -/
def acts (lane : ChatLane) : Feed ℕ Frame :=
  match lane.loop with
  | .events (.connected id :: _) => [.joins id]
  | .events (ev :: _) => (lane.onEvent ev).2.filterMap fun op => op.push?.map .publishes
  | _ => []

/-- What a turn is to the members. -/
inductive Act (lane lane' : ChatLane) : List Op → Feed ℕ Frame → Prop
  | rest (ops : List Op) (quiet : ∀ o ∈ ops, o.quiet = true)
      (knows_eq : ∀ id, lane'.knows id = lane.knows id) : Act lane lane' ops []
  | joins (k : ℕ) (mem : .connected k ∈ lane.events)
      (knows_eq : ∀ id, lane'.knows id = (lane.knows id || k = id)) : Act lane lane' [] [.joins k]
  | leaves (k : ℕ) (mem : .disconnected k ∈ lane.events)
      (knows_eq : ∀ id, lane'.knows id = (lane.knows id && k ≠ id)) : Act lane lane' [] []
  | publishes (k index : ℕ) (f : Frame) (push : f.msgId = kChatPush)
      (knows_eq : ∀ id, lane'.knows id = lane.knows id) :
      Act lane lane' [.broadcast k index f lane.members.keys] [.publishes f]

variable {lane lane' : ChatLane} {ops : List Op}

/-- A step of the chat service is one of its acts. -/
theorem act (h : lane.step = (lane', ops)) : Act lane lane' ops lane.acts := by
  unfold step at h
  unfold acts
  cases hloop : lane.loop with
  | relays batch =>
    rw [hloop] at h
    cases batch with
    | nil =>
      cases h
      exact .rest [] (by simp) fun _ => rfl
    | cons msg batch =>
      cases h
      exact .rest [] (by simp) fun id => knows_onService _ msg id
  | events batch =>
    rw [hloop] at h
    cases batch with
    | nil =>
      cases h
      exact .rest [] (by simp) fun _ => rfl
    | cons ev batch =>
      have hmem : ev ∈ lane.events := by simp [events, hloop, ChatLoop.heldEvents]
      have hev : { lane with loop := .events batch, handled := lane.handled ++ [ev] }.onEvent ev =
          (lane', ops) := h
      have hknows : ∀ id, lane'.knows id = ev.settle id (lane.knows id) := by
        intro id
        have := knows_onEvent
          { lane with loop := .events batch, handled := lane.handled ++ [ev] } ev id
        rwa [hev] at this
      obtain rfl : ops = (lane.onEvent ev).2 := by
        have := (onEvent_with lane (.events batch) (lane.handled ++ [ev]) ev).1
        rw [hev] at this
        exact congrArg Prod.snd this
      cases ev with
      | connected k => exact .joins k hmem hknows
      | disconnected k => exact .leaves k hmem hknows
      | message m =>
        simp only [onEvent]
        split
        · exact .rest [] (by simp) hknows
        · cases hv : onChatMessage m with
          | reply f => exact absurd hv (onChatMessage_ne_reply m f)
          | refuse code detail =>
            have hquiet : ∀ o ∈ sendError m.connId m.index m.msgId code detail, o.quiet = true :=
              fun _ ho => quiet_sendError ho
            have hnone : (sendError m.connId m.index m.msgId code detail).filterMap
                (fun op => op.push?.map FeedEvent.publishes) = ([] : Feed ℕ Frame) := by
              refine List.filterMap_eq_nil_iff.mpr fun o ho => ?_
              have := hquiet o ho
              cases o <;> simp_all [Op.quiet, Op.push?]
            have : Act lane lane' _ [] := .rest _ hquiet hknows
            rwa [← hnone] at this
          | pass text => exact .publishes m.connId m.index _ rfl hknows
  | _ =>
    rw [hloop] at h
    cases h
    exact .rest [] (by simp) fun _ => rfl

theorem mem_keys_iff (lane : ChatLane) (id : ℕ) :
    id ∈ lane.members.keys ↔ lane.knows id = true := by
  rw [← AList.mem_keys, ← AList.lookup_isSome, knows]

end ChatLane

/-- What a step adds to the feed. -/
def feedOf (s : ServerState) : ServerStep → Feed ℕ Frame
  | .exec i _ =>
    match s.threads.head i with
    | some .chatLoop => s.server.chat.acts
    | _ => []
  | .spawn _ => []

/-- The server, and the Connected events and broadcasts of the chat service so far. -/
def chatFeed (cfg : ServerConfig) : Machine (ServerState × Feed ℕ Frame) ServerStep :=
  (serverThreads cfg).recording [] fun s a feed => feed ++ feedOf s a

/-! ## The members and the feed -/

/-- A member has joined the feed, and who has joined and is no member is closed. -/
structure Audience (s : Server) (feed : Feed ℕ Frame) (id : ℕ) : Prop where
  announced : .connected id ∈ s.chat.events → id < s.nextId
  joined : .joins id ∈ feed → id < s.nextId
  member : s.chat.knows id = true → .joins id ∈ feed
  left : .disconnected id ∈ s.chat.events → id < s.nextId ∧ (s.conns id).closed = true
  gone : .joins id ∈ feed → s.chat.knows id = false → (s.conns id).closed = true

namespace Server

variable {s : Server} {svc : ServiceId}

/-- Only `post_connected` posts a beginning. -/
theorem eq_of_posted_connected (h : .connected id ∈ s.posted cfg svc op) :
    op = .postConnected svc id := by
  unfold posted at h
  split at h
  · split_ifs at h with hsvc
    · subst hsvc
      simp only [List.mem_singleton, Event.connected.injEq] at h
      rw [h]
    · simp at h
  · split_ifs at h <;> simp at h
  · split_ifs at h <;> simp at h
  · simp at h

/-- And only `post_disconnected` an end. -/
theorem eq_of_posted_disconnected (h : .disconnected id ∈ s.posted cfg svc op) :
    op = .postDisconnected svc id := by
  unfold posted at h
  split at h
  · split_ifs at h <;> simp at h
  · split_ifs at h with hsvc
    · subst hsvc
      simp only [List.mem_singleton, Event.disconnected.injEq] at h
      rw [h]
    · simp at h
  · split_ifs at h <;> simp at h
  · simp at h

end Server

theorem ChatLane.events_subset {lane lane' : ChatLane} {ops : List Op}
    (h : lane.step = (lane', ops)) : lane'.events ⊆ lane.events := by
  cases ChatLane.turn h with
  | move hev => exact hev ▸ List.Subset.refl _
  | relay _ hev => exact hev ▸ List.Subset.refl _
  | event _ hev => exact hev ▸ List.subset_cons_self ..

namespace Audience

variable {feed : Feed ℕ Frame}

theorem fresh (cfg : ServerConfig) (id : ℕ) : Audience (.fresh cfg) [] id := by
  constructor <;>
    simp [Server.fresh, ChatLane.fresh, ChatLane.events, ChatLoop.heldEvents, ChatLane.knows]

/-- A turn of the chat service. -/
theorem turn {s : Server} (hs : Audience s feed id) {lane : ChatLane} {ops : List Op}
    (h : s.chat.step = (lane, ops)) :
    Audience { s with chat := lane } (feed ++ s.chat.acts) id := by
  have hsub := ChatLane.events_subset h
  obtain ⟨hann, hjoin, hmem, hleft, hgone⟩ := hs
  have hann' := fun hev => hann (hsub hev)
  have hleft' := fun hev => hleft (hsub hev)
  generalize hacts : s.chat.acts = acts
  have hact := hacts ▸ ChatLane.act h
  cases hact with
  | rest _ _ hknows =>
    rw [List.append_nil]
    exact ⟨hann', hjoin, hknows id ▸ hmem, hleft', hknows id ▸ hgone⟩
  | joins k hk hknows =>
    refine ⟨hann', fun hin => ?_, fun hin => ?_, hleft', fun hin hno => ?_⟩
    · simp only [List.mem_append, List.mem_singleton, FeedEvent.joins.injEq] at hin
      obtain hin | rfl := hin
      · exact hjoin hin
      · exact hann hk
    · dsimp only at hin
      simp only [hknows, Bool.or_eq_true, decide_eq_true_eq] at hin
      obtain hin | rfl := hin
      · exact List.mem_append_left _ (hmem hin)
      · simp
    · dsimp only at hno
      simp only [hknows, Bool.or_eq_false_iff, decide_eq_false_iff_not] at hno
      simp only [List.mem_append, List.mem_singleton, FeedEvent.joins.injEq, Ne.symm hno.2,
        or_false] at hin
      exact hgone hin hno.1
  | leaves k hk hknows =>
    rw [List.append_nil]
    refine ⟨hann', hjoin, fun hin => ?_, hleft', fun hin hno => ?_⟩
    · dsimp only at hin
      simp only [hknows, Bool.and_eq_true] at hin
      exact hmem hin.1
    · dsimp only at hno
      simp only [hknows, Bool.and_eq_false_iff, decide_eq_false_iff_not, not_not] at hno
      obtain hno | rfl := hno
      · exact hgone hin hno
      · exact (hleft hk).2
  | publishes k index f _ hknows =>
    have hsame : .joins id ∈ feed ++ [.publishes f] ↔ .joins id ∈ feed := by simp
    refine ⟨hann', fun hin => hjoin (hsame.mp hin), ?_, hleft', ?_⟩
    · simpa [hknows id] using hmem
    · simpa [hknows id] using hgone

/-- Any other operation posts a Connected event only of a connection that has been made, and a
Disconnected event only of one that is closed. -/
theorem exec (hs : Audience s.server feed id) (ha : Adoption s id)
    (hi : s.threads.head i = some op) (hloop : op ≠ .chatLoop)
    (h : s.server.exec cfg e op = some (t, new)) : Audience t feed id := by
  obtain ⟨hann, hjoin, hmem, hleft, hgone⟩ := hs
  have hnext := Server.nextId_le_exec h
  obtain ⟨rfl, -⟩ | ⟨-, hchat⟩ := Server.exec_chat h
  · exact absurd rfl hloop
  have hknows : t.chat.knows id = s.server.chat.knows id := by rw [hchat]; rfl
  have hev : t.chat.events = s.server.chat.events ++ s.server.posted cfg .chat op := by
    simp [hchat, ChatLane.events]
  refine ⟨fun hin => ?_, fun hin => (hjoin hin).trans_le hnext, hknows ▸ hmem, fun hin => ?_,
    fun hin hno => Server.closed_exec_of_lt h (hjoin hin) (hgone hin (hknows ▸ hno))⟩
  · rw [hev, List.mem_append] at hin
    obtain hin | hin := hin
    · exact (hann hin).trans_le hnext
    · obtain rfl := Server.eq_of_posted_connected hin
      by_contra hlt
      have hzero := (ha.unborn (by omega)).2.1
      have hone := le_weight (Op.adopting id) hi
      simp [Op.adopting, hzero] at hone
  · rw [hev, List.mem_append] at hin
    obtain hin | hin := hin
    · exact ⟨(hleft hin).1.trans_le hnext,
        Server.closed_exec_of_lt h (hleft hin).1 (hleft hin).2⟩
    · obtain rfl := Server.eq_of_posted_disconnected hin
      have hlt : id < s.server.nextId := by
        by_contra hlt
        have hzero := (ha.uninstalled (ha.unborn (by omega)).1).2.2 .chat
        have hone := le_weight (Op.disconnecting .chat id) hi
        simp [Op.disconnecting, hzero] at hone
      exact ⟨hlt.trans_le hnext,
        Server.closed_exec_of_lt h hlt (ha.closed_of_postDisconnected hi)⟩

end Audience

/-! ## What a connection has got -/

/-- The connection has got all that is due to it, but for what is ahead; or a push was dropped, and
it is closed before the next one. -/
inductive Delivered (id : ℕ) (c : Conn) (ahead : List Op) (due : List Frame) : Prop
  | whole (all : c.pushes ++ ahead.flatMap (Op.owed id) = due)
  | cut (part : c.pushes <+: due)
      (unlocked : ∀ answers f, .lockSend id answers f ∈ ahead → f.msgId ≠ kChatPush)
      (closing : c.closed = true ∨
        ∃ op rest, ahead = op :: rest ∧ (op = .close id ∨ op = .closeOverflow id))

/-- The operations ahead of the chat service's thread, with the pushes of one connection. -/
structure Sending (id : ℕ) (c : Conn) (ahead : List Op) (feed : Feed ℕ Frame) : Prop where
  sound : ∀ o ∈ ahead, o.sound ∧ o ≠ .chatLoop
  single : (ahead.flatMap (Op.owed id)).length ≤ 1
  stranger : .joins id ∉ feed → ahead.flatMap (Op.owed id) = []
  delivered : Delivered id c ahead (feed.due id)

/-- What a connection has been pushed is a part of what was due, in order. -/
theorem Delivered.part {c : Conn} {ahead : List Op} {due : List Frame}
    (h : Delivered id c ahead due) : c.pushes <+: due := by
  cases h with
  | whole hall => exact ⟨_, hall⟩
  | cut hpart => exact hpart

namespace Sending

variable {c : Conn} {ahead rest : List Op} {feed : Feed ℕ Frame}

/-- Who has not joined has got nothing. -/
theorem pushes_eq_nil (hs : Sending id c ahead feed) (h : .joins id ∉ feed) : c.pushes = [] := by
  have hpart := hs.delivered.part
  rw [Feed.due_of_notMem h] at hpart
  exact List.prefix_nil.mp hpart

/-- Another thread leaves the pushes as they are, and does not open the connection. -/
theorem congr (hs : Sending id c ahead feed) {c' : Conn} (hpush : c'.pushes = c.pushes)
    (hclosed : .joins id ∈ feed → c.closed = true → c'.closed = true) :
    Sending id c' ahead feed := by
  refine ⟨hs.sound, hs.single, hs.stranger, ?_⟩
  by_cases hjoin : .joins id ∈ feed
  · cases hs.delivered with
    | whole hall => exact .whole (by rw [hpush, hall])
    | cut hpart hun hclosing => exact .cut (by rwa [hpush]) hun (hclosing.imp_left (hclosed hjoin))
  · exact .whole (by rw [hpush, hs.pushes_eq_nil hjoin, hs.stranger hjoin,
      Feed.due_of_notMem hjoin, List.append_nil])

/-- Nothing was dropped : a push is sent on, appended, or dropped now. -/
theorem delivered_whole {s : Server} (hd : Delivery id s t op new)
    (hall : (s.conns id).pushes ++ (op :: rest).flatMap (Op.owed id) = feed.due id)
    (hsingle : ((op :: rest).flatMap (Op.owed id)).length ≤ 1) :
    Delivered id (t.conns id) (new ++ rest) (feed.due id) := by
  rw [List.flatMap_cons] at hall
  simp only [List.flatMap_cons, List.length_append] at hsingle
  cases hd with
  | kept hpush howed => exact .whole (by rw [hpush, List.flatMap_append, howed, hall])
  | sent answers f _ howed hpush hnil =>
    refine .whole ?_
    rw [hpush, List.flatMap_append, hnil, List.nil_append, List.append_assoc, ← howed, hall]
  | dropped f howed hpush hnil hclosing =>
    have hrest : rest.flatMap (Op.owed id) = [] := by
      rw [howed, List.length_singleton] at hsingle
      exact List.eq_nil_of_length_eq_zero (by omega)
    refine .cut ⟨[f], by rw [hpush, ← hall, howed, hrest, List.append_nil]⟩ ?_ ?_
    · intro answers g hmem hg
      have hall : (new ++ rest).flatMap (Op.owed id) = [] := by
        rw [List.flatMap_append, hnil, hrest, List.append_nil]
      have := List.flatMap_eq_nil_iff.mp hall _ hmem
      simp [Op.owed, hg] at this
    · obtain hclosed | rfl | rfl := hclosing
      · exact Or.inl hclosed
      · exact Or.inr ⟨_, _, rfl, Or.inl rfl⟩
      · exact Or.inr ⟨_, _, rfl, Or.inr rfl⟩

/-- A push was dropped : nothing is sent any more, and the connection is closed by now. -/
theorem delivered_cut {s : Server} (hd : Delivery id s t op new) (hloop : op ≠ .chatLoop)
    (h : s.exec cfg e op = some (t, new)) (hlt : id < s.nextId)
    (hpart : (s.conns id).pushes <+: feed.due id)
    (hun : ∀ answers f, .lockSend id answers f ∈ op :: rest → f.msgId ≠ kChatPush)
    (hclosing : (s.conns id).closed = true ∨
      ∃ o tl, op :: rest = o :: tl ∧ (o = .close id ∨ o = .closeOverflow id)) :
    Delivered id (t.conns id) (new ++ rest) (feed.due id) := by
  have hpush : (t.conns id).pushes = (s.conns id).pushes := by
    cases hd with
    | kept hpush => exact hpush
    | sent answers f hop howed =>
      subst hop
      have := hun answers f (List.mem_cons_self ..)
      simp [Op.owed, this] at howed
    | dropped _ _ hpush => exact hpush
  refine .cut (by rwa [hpush]) (fun answers f hmem hf => ?_) (Or.inl ?_)
  · obtain hmem | hmem := List.mem_append.mp hmem
    · obtain ⟨rfl, hopen⟩ := Server.lockSend_of_exec h hloop hf hmem
      obtain hclosed | ⟨op, _, hop, hclose⟩ := hclosing
      · simp [hopen] at hclosed
      · obtain ⟨rfl, -⟩ := List.cons.inj hop
        simp at hclose
    · exact hun answers f (List.mem_cons_of_mem _ hmem) hf
  · obtain hclosed | ⟨op, _, hop, hclose⟩ := hclosing
    · exact Server.closed_exec_of_lt h hlt hclosed
    · obtain ⟨rfl, -⟩ := List.cons.inj hop
      exact Server.closed_of_close h hclose

/-- Who has not joined is owed nothing. -/
theorem delivered_stranger {s : Server} (hs : Sending id (s.conns id) (op :: rest) feed)
    (hd : Delivery id s t op new) (hin : .joins id ∉ feed) :
    Delivered id (t.conns id) (new ++ rest) (feed.due id) := by
  obtain ⟨hop, hrest⟩ : op.owed id = [] ∧ rest.flatMap (Op.owed id) = [] := by
    simpa [List.flatMap_cons] using hs.stranger hin
  have hold := hs.pushes_eq_nil hin
  refine .whole ?_
  cases hd with
  | kept hpush howed =>
    rw [hpush, hold, List.flatMap_append, howed, hop, hrest, Feed.due_of_notMem hin]
    rfl
  | sent _ _ _ howed => simp [hop] at howed
  | dropped _ howed => simp [hop] at howed

/-- The thread of the chat service executes an operation of a broadcast, or one before it. -/
theorem exec {s : Server} (hs : Sending id (s.conns id) (op :: rest) feed)
    (hjoin : .joins id ∈ feed → id < s.nextId) (h : s.exec cfg e op = some (t, new)) :
    Sending id (t.conns id) (new ++ rest) feed := by
  obtain ⟨hsound, hloop⟩ := hs.sound op (List.mem_cons_self ..)
  have hdelivery := Server.delivery_exec h hsound hloop fun hnext =>
    hs.pushes_eq_nil fun hin => (hjoin hin).ne hnext.symm
  refine ⟨fun o ho => ?_, ?_, fun hno => ?_, ?_⟩
  · obtain ho | ho := List.mem_append.mp ho
    · exact Server.sound_exec h hsound hloop o ho
    · exact hs.sound o (List.mem_cons_of_mem _ ho)
  · have hsingle := hs.single
    simp only [List.flatMap_cons, List.length_append] at hsingle
    rw [List.flatMap_append, List.length_append]
    cases hdelivery with
    | kept _ howed => rwa [howed]
    | sent _ _ _ _ _ hnil => simp only [hnil, List.length_nil]; omega
    | dropped _ _ _ hnil => simp only [hnil, List.length_nil]; omega
  · obtain ⟨hop, hrest⟩ : op.owed id = [] ∧ rest.flatMap (Op.owed id) = [] := by
      simpa [List.flatMap_cons] using hs.stranger hno
    rw [List.flatMap_append, hrest, List.append_nil]
    cases hdelivery with
    | kept _ howed => rw [howed, hop]
    | sent _ _ _ _ _ hnil => exact hnil
    | dropped _ _ _ hnil => exact hnil
  · cases hs.delivered with
    | whole hall => exact delivered_whole hdelivery hall hs.single
    | cut hpart hun hclosing =>
      by_cases hin : .joins id ∈ feed
      · exact delivered_cut hdelivery hloop h (hjoin hin) hpart hun hclosing
      · exact hs.delivered_stranger hdelivery hin

/-- The chat service takes a turn. -/
theorem turn {s : Server} (hs : Sending id (s.conns id) [] feed) (ha : Audience s feed id)
    {lane : ChatLane} {ops : List Op} (h : s.chat.step = (lane, ops)) :
    Sending id (s.conns id) ops (feed ++ s.chat.acts) := by
  have hquiet : (∀ o ∈ ops, o.quiet = true) → ∀ feed', Feed.due id feed' = Feed.due id feed →
      Sending id (s.conns id) ops feed' := by
    intro hall feed' hdue
    have hnil := Op.owed_of_all_quiet hall id
    refine ⟨fun o ho => ⟨Op.sound_of_quiet (hall o ho), ?_⟩, by simp [hnil], fun _ => hnil, ?_⟩
    · rintro rfl
      simpa [Op.quiet] using hall _ ho
    · rw [hdue]
      cases hs.delivered with
      | whole hall => exact .whole (by rw [hnil]; exact hall)
      | cut hpart _ hclosing =>
        refine .cut hpart (fun answers f hmem => ?_) (hclosing.imp_right fun h => ?_)
        · simpa [Op.quiet] using hall _ hmem
        · obtain ⟨_, _, hno, -⟩ := h
          cases hno
  generalize hacts : s.chat.acts = acts
  have hact := hacts ▸ ChatLane.act h
  cases hact with
  | rest _ hall => exact hquiet hall _ (by rw [List.append_nil])
  | joins k => exact hquiet (by simp) _ (Feed.due_append_joins id k feed)
  | leaves k => exact hquiet (by simp) _ (by rw [List.append_nil])
  | publishes k index f hpush =>
    have hkeys := s.chat.mem_keys_iff id
    have howed : [Op.broadcast k index f s.chat.members.keys].flatMap (Op.owed id) =
        if s.chat.knows id then [f] else [] := by
      simp [Op.owed, hkeys]
    refine ⟨?_, ?_, fun hno => ?_, ?_⟩
    · intro o ho
      obtain rfl := List.mem_singleton.mp ho
      exact ⟨⟨hpush, s.chat.members.keys_nodup⟩, by simp⟩
    · rw [howed]
      split_ifs <;> simp
    · rw [howed, if_neg]
      intro hknows
      exact hno (List.mem_append_left _ (ha.member hknows))
    · have hun : ∀ answers g, .lockSend id answers g ∈
          [Op.broadcast k index f s.chat.members.keys] → g.msgId ≠ kChatPush := by simp
      by_cases hin : .joins id ∈ feed
      · rw [Feed.due_append_publishes hin]
        cases hs.delivered with
        | whole hall =>
          simp only [List.flatMap_nil, List.append_nil] at hall
          cases hknows : s.chat.knows id with
          | true => exact .whole (by rw [howed, hall, hknows, if_pos rfl])
          | false =>
            exact .cut (hall ▸ List.prefix_append ..) hun (Or.inl (ha.gone hin hknows))
        | cut hpart _ hclosing =>
          refine .cut (hpart.trans (List.prefix_append ..)) hun (hclosing.imp_right fun h => ?_)
          obtain ⟨_, _, hno, -⟩ := h
          cases hno
      · have hno : .joins id ∉ feed ++ [.publishes f] := by simpa using hin
        have hknows : s.chat.knows id ≠ true := fun h => hin (ha.member h)
        refine .whole ?_
        rw [howed, if_neg hknows, hs.pushes_eq_nil hin, Feed.due_of_notMem hno]
        rfl

end Sending

/-! ## Every run -/

/-- The thread of the chat service sends the pushes, and no other. -/
structure InOrder (cfg : ServerConfig) (id : ℕ) (s : ServerState) (feed : Feed ℕ Frame) : Prop where
  adoption : Adoption s id
  audience : Audience s.server feed id
  quiet : ∀ i, i ≠ cfg.lanes → ∀ stack, s.threads[i]? = some stack → ∀ o ∈ stack, o.quiet = true
  chat : ∃ ahead, s.threads[cfg.lanes]? = some (ahead ++ [.chatLoop]) ∧
    Sending id (s.server.conns id) ahead feed

namespace InOrder

variable {feed : Feed ℕ Frame}

theorem fresh (cfg : ServerConfig) (id : ℕ) : InOrder cfg id (.fresh cfg) [] := by
  refine ⟨.fresh cfg id, .fresh cfg id, fun i hi stack hstack o ho => ?_, [], ?_, ?_⟩
  · have hlanes : ((List.range cfg.lanes).map fun l => [Op.gameLoop l]).length = cfg.lanes := by
      simp
    simp only [ServerState.fresh] at hstack
    obtain hlt | hge := Nat.lt_or_ge i cfg.lanes
    · rw [List.getElem?_append_left (by omega)] at hstack
      obtain ⟨l, -, rfl⟩ := List.mem_map.mp (List.mem_of_getElem? hstack)
      obtain rfl := List.mem_singleton.mp ho
      rfl
    · rw [List.getElem?_append_right (by omega), hlanes] at hstack
      obtain ⟨n, hn⟩ : ∃ n, i - cfg.lanes = n + 1 := ⟨i - cfg.lanes - 1, by omega⟩
      rw [hn, List.getElem?_cons_succ] at hstack
      obtain rfl := List.mem_singleton.mp (List.mem_of_getElem? hstack)
      obtain rfl := List.mem_singleton.mp ho
      rfl
  · simp [ServerState.fresh]
  · refine ⟨by simp, by simp, by simp, .whole ?_⟩
    simp [ServerState.fresh, Server.fresh, Conn.fresh, Conn.pushes, Feed.due, Feed.published]

/-- The chat service takes a turn. -/
theorem turn (hs : InOrder cfg id s feed) (hi : s.threads.head i = some .chatLoop)
    (h : s.server.exec cfg e .chatLoop = some (t, new)) :
    InOrder cfg id ⟨t, s.threads.exec i new⟩ (feed ++ feedOf s (.exec i e)) := by
  have hadoption := hs.adoption.exec hi h
  obtain ⟨ahead, hstack, hsending⟩ := hs.chat
  obtain ⟨rest, hrest⟩ := head_eq_some.mp hi
  have hfeed : feedOf s (.exec i e) = s.server.chat.acts := by simp only [feedOf, hi]
  obtain rfl : i = cfg.lanes := by
    by_contra hne
    have := hs.quiet i hne _ hrest _ (List.mem_cons_self ..)
    simp [Op.quiet] at this
  obtain ⟨rfl, rfl⟩ : ahead = [] ∧ rest = [] := by
    rw [hstack] at hrest
    cases ahead with
    | nil => simpa using hrest.symm
    | cons o ahead =>
      obtain rfl : o = .chatLoop := (List.cons.inj (Option.some.inj hrest)).1
      exact absurd rfl (hsending.sound _ (List.mem_cons_self ..)).2
  simp only [Server.exec] at h
  obtain ⟨rfl, rfl⟩ := Prod.mk.inj (Option.some.inj h)
  rw [hfeed]
  refine ⟨hadoption, hs.audience.turn rfl, fun j hj stack hj' => ?_, s.server.chat.step.2, ?_,
    hsending.turn hs.audience rfl⟩
  · rw [getElem?_exec_of_ne _ (Ne.symm hj)] at hj'
    exact hs.quiet j hj stack hj'
  · rw [getElem?_exec hrest, List.append_nil]

/-- The thread of the chat service executes what is ahead of its next turn. -/
theorem ahead (hs : InOrder cfg id s feed) (hi : s.threads.head cfg.lanes = some op)
    (hloop : op ≠ .chatLoop) (h : s.server.exec cfg e op = some (t, new)) :
    InOrder cfg id ⟨t, s.threads.exec cfg.lanes new⟩ feed := by
  have hadoption := hs.adoption.exec hi h
  obtain ⟨ahead, hstack, hsending⟩ := hs.chat
  obtain ⟨rest, hrest⟩ := head_eq_some.mp hi
  obtain ⟨o, ahead, rfl⟩ : ∃ o tl, ahead = o :: tl := by
    cases ahead with
    | nil =>
      rw [hstack] at hrest
      exact absurd (List.cons.inj (Option.some.inj hrest)).1.symm hloop
    | cons o ahead => exact ⟨o, ahead, rfl⟩
  rw [hstack] at hrest
  obtain ⟨rfl, rfl⟩ := List.cons.inj (Option.some.inj hrest)
  refine ⟨hadoption, hs.audience.exec hs.adoption hi hloop h, fun j hj stack hj' => ?_,
    new ++ ahead, ?_, hsending.exec hs.audience.joined h⟩
  · rw [getElem?_exec_of_ne _ (Ne.symm hj)] at hj'
    exact hs.quiet j hj stack hj'
  · rw [getElem?_exec hstack, List.append_assoc]
    rfl

/-- Another thread executes an operation, which sends no push. -/
theorem other (hs : InOrder cfg id s feed) (hi : s.threads.head i = some op)
    (hloop : op ≠ .chatLoop) (hlane : i ≠ cfg.lanes)
    (h : s.server.exec cfg e op = some (t, new)) :
    InOrder cfg id ⟨t, s.threads.exec i new⟩ feed := by
  have hadoption := hs.adoption.exec hi h
  obtain ⟨ahead, hstack, hsending⟩ := hs.chat
  obtain ⟨rest, hrest⟩ := head_eq_some.mp hi
  have hquiet := hs.quiet i hlane _ hrest
  have hop := hquiet op (List.mem_cons_self ..)
  refine ⟨hadoption, hs.audience.exec hs.adoption hi hloop h, fun j hj stack hj' o ho => ?_,
    ahead, ?_, hsending.congr ?_ fun hin => Server.closed_exec_of_lt h (hs.audience.joined hin)⟩
  · by_cases hij : i = j
    · subst hij
      rw [getElem?_exec hrest] at hj'
      obtain rfl := Option.some.inj hj'
      obtain ho | ho := List.mem_append.mp ho
      · exact Server.quiet_exec h hop o ho
      · exact hquiet o (List.mem_cons_of_mem _ ho)
    · rw [getElem?_exec_of_ne _ hij] at hj'
      exact hs.quiet j hj stack hj' o ho
  · rw [getElem?_exec_of_ne _ hlane, hstack]
  · have hdelivery : Delivery id s.server t op new :=
      Server.delivery_exec h (Op.sound_of_quiet hop) hloop fun hnext =>
        hsending.pushes_eq_nil fun hin => (hs.audience.joined hin).ne hnext.symm
    have howed := Op.owed_of_quiet hop id
    cases hdelivery with
    | kept hpush => exact hpush
    | sent _ _ _ hone => simp [howed] at hone
    | dropped _ hone => simp [howed] at hone

/-- An operation that publishes adds to the feed what it publishes. -/
theorem exec (hs : InOrder cfg id s feed) (hi : s.threads.head i = some op)
    (h : s.server.exec cfg e op = some (t, new)) :
    InOrder cfg id ⟨t, s.threads.exec i new⟩ (feed ++ feedOf s (.exec i e)) := by
  by_cases hloop : op = .chatLoop
  · subst hloop
    exact hs.turn hi h
  have hfeed : feedOf s (.exec i e) = [] := by
    simp only [feedOf, hi]
    split
    · rename_i hop
      exact absurd (Option.some.inj hop) hloop
    · rfl
  rw [hfeed, List.append_nil]
  by_cases hlane : i = cfg.lanes
  · subst hlane
    exact hs.ahead hi hloop h
  · exact hs.other hi hloop hlane h

/-- Every step keeps the order. -/
theorem step {a : ServerStep} (hs : InOrder cfg id s feed)
    (h : (serverThreads cfg).step s a = some s') : InOrder cfg id s' (feed ++ feedOf s a) := by
  obtain ⟨i, e, op, new, rfl, hi, hex, hth⟩ | ⟨op, rfl, hext, hsv, hth⟩ :=
    ServerState.step_cases h
  · have := hs.exec hi hex
    rwa [← hth] at this
  · obtain ⟨hadoption, haudience, hquiet, ahead, hstack, hsending⟩ := hs
    have hlt := (List.getElem?_eq_some_iff.mp hstack).1
    have hop := Server.quiet_of_external hext
    rw [feedOf, List.append_nil]
    refine ⟨hadoption.step h, by rwa [hsv], fun j hj stack hj' o ho => ?_, ahead, ?_, by rwa [hsv]⟩
    · rw [hth, spawn, List.getElem?_append] at hj'
      split_ifs at hj'
      · exact hquiet j hj stack hj' o ho
      · obtain rfl := List.mem_singleton.mp (List.mem_of_getElem? hj')
        rwa [List.mem_singleton.mp ho]
    · rw [hth, spawn, List.getElem?_append_left hlt, hstack]

end InOrder

/-- In every run, the pushes in the send buffer of a connection are a first part of the broadcasts
performed since its Connected event was handled; so of two connections, the one that has got more
since the later of the two joined has got the same first. -/
theorem broadcasts_in_order {feed : Feed ℕ Frame} (h : (chatFeed cfg).Reaches (s, feed)) :
    (∀ id, (s.server.conns id).pushes <+: feed.published.drop (feed.joinedAt id)) ∧
      ∀ id k, feed.joinedAt id ≤ feed.joinedAt k →
        (s.server.conns id).pushes.drop (feed.joinedAt k - feed.joinedAt id) <+:
            (s.server.conns k).pushes ∨
          (s.server.conns k).pushes <+:
            (s.server.conns id).pushes.drop (feed.joinedAt k - feed.joinedAt id) := by
  have hall : ∀ id, (s.server.conns id).pushes <+: feed.due id := by
    intro id
    have hinv : InOrder cfg id s feed := by
      refine Machine.recording_invariant (I := InOrder cfg id) ?_ ?_ h
      · rintro s rfl
        exact .fresh cfg id
      · exact fun s a s' feed hs hstep => hs.step hstep
    obtain ⟨ahead, -, hsending⟩ := hinv.chat
    exact hsending.delivered.part
  exact ⟨hall, fun id k hle => Feed.prefix_or_prefix (hall id) (hall k) hle⟩

/-- Connection 1 says something, and the chat service broadcasts it. -/
def talks (thread : ℕ) (letter : UInt8) : List ServerStep :=
  .spawn (.arrive 1 ⟨kChatReq, (ByteWriter.scratch.str [letter]).data⟩) :: runs thread 1 ++
    .spawn (.receive 1) :: runs (thread + 1) 8 ++ runs 1 16

/-- Connection 1 says "a"; connection 2 is adopted, with a key that nearly fills its send buffer;
and connection 1 says "b" and "c". -/
def chatRun : List ServerStep :=
  adoptedRun ++ talks 4 97 ++ .spawn .adopt :: runs 6 6 ++
    List.replicate 7 (.exec 0 { envOk with key := List.replicate 40 2 }) ++ runs 1 7 ++
    talks 7 98 ++ talks 9 99

/-- Connection 1 hears all that it says. Connection 2 joins after "a" and hears "b"; "c" is dropped,
since its buffer is full. -/
theorem broadcasts_in_order_two_members :
    ∃ (s : ServerState) (feed : Feed ℕ Frame),
      (s.server.conns 1).pushes = [chatPush [1] [97], chatPush [1] [98], chatPush [1] [99]] ∧
        (s.server.conns 2).pushes = [chatPush [1] [98]] ∧ (s.server.conns 2).closed = true ∧
        ∀ id, (s.server.conns id).pushes <+: feed.published.drop (feed.joinedAt id) := by
  obtain ⟨⟨s, feed⟩, hs, hp⟩ := (chatFeed oneLane).exists_reachesWhen (fun _ _ => True)
    (.fresh oneLane, []) chatRun
    (fun p =>
      (p.1.server.conns 1).pushes = [chatPush [1] [97], chatPush [1] [98], chatPush [1] [99]] ∧
        (p.1.server.conns 2).pushes = [chatPush [1] [98]] ∧
        (p.1.server.conns 2).closed = true) ⟨rfl, rfl⟩ (by decide +kernel)
  obtain ⟨hfirst, hsecond, hclosed⟩ := of_decide_eq_true hp
  exact ⟨s, feed, hfirst, hsecond, hclosed, (broadcasts_in_order hs).1⟩

end EchoServer
