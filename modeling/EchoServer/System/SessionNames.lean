import EchoServer.System.Membership

/-!
# The name of a member

The game service issues the session key of a connection when it handles its Connected event, and
relays it to the chat service, which makes it the name of the member. The relay comes by another
queue than the Connected event of the chat service. When it comes first the chat service parks the
key, and it forgets at the end of a round what it has parked.

A connection is announced to the game service once, so it is issued one key (`Issue`), and
whatever is relayed has been issued (`Relayed`). The game service is told first, so the key may be
a whole round ahead of the Connected event, and then the member gets no name
(`nameless_member_reachable`). When no round ends with a key parked that the connection still needs
(`keepsName`), the chat service keeps the key until it has the member, and the name of the member
is the key (`named_by_key`).
-/

namespace EchoServer

open Threads

variable {cfg : ServerConfig} {e : Env} {s s' : ServerState} {t : Server} {op : Op}
  {new : List Op} {i id : ℕ}

/-! ## One key for each connection -/

namespace GameLane

variable {lane lane' : GameLane} {ops : List Op}

/-- The keys issued to a connection, and the Connected events that will issue one. -/
def announced (id : ℕ) (lane : GameLane) : ℕ :=
  lane.events.count (.connected id) + (lane.issued.filter fun p => p.1 = id).length

/-- A session key has been issued. -/
def Issued (lane : GameLane) : Prop :=
  ∀ id key, lane.sessions.lookup id = some key → (id, key) ∈ lane.issued

/-- Keys that are issued stay issued. -/
theorem issued_subset_onEvent (e : Env) (lane : GameLane) (ev : Event) :
    lane.issued ⊆ (lane.onEvent e ev).1.issued := by
  cases ev <;> simp only [onEvent]
  · split
    · exact List.Subset.refl _
    · exact List.subset_append_left ..
  · exact List.Subset.refl _
  · split <;> exact List.Subset.refl _

/-- Every session of the lane has an issued key. -/
theorem Issued.onEvent (h : lane.Issued) (e : Env) (ev : Event) : (lane.onEvent e ev).1.Issued := by
  intro id key hkey
  cases ev with
  | connected k =>
    simp only [GameLane.onEvent] at hkey ⊢
    split at hkey
    · exact h id key hkey
    · by_cases hk : id = k
      · subst hk
        simp only [AList.lookup_insert, Option.some.injEq] at hkey
        simp [hkey]
      · rw [AList.lookup_insert_ne hk] at hkey
        exact List.mem_append_left _ (h id key hkey)
  | disconnected k =>
    by_cases hk : id = k
    · subst hk
      simp [GameLane.onEvent] at hkey
    · simp only [GameLane.onEvent, AList.lookup_erase_ne hk] at hkey
      exact h id key hkey
  | message m =>
    simp only [GameLane.onEvent] at hkey ⊢
    split at hkey <;> exact h id key hkey

/-- What an event relays has been issued to its connection. -/
theorem Issued.relay_onEvent (h : lane.Issued) {ev : Event} {msg : ServiceMessage}
    (hmem : Op.relay msg ∈ (lane.onEvent e ev).2) :
    (msg.connId, msg.text) ∈ (lane.onEvent e ev).1.issued := by
  cases ev with
  | connected k =>
    simp only [GameLane.onEvent] at hmem ⊢
    split at hmem
    · rename_i key hkey
      obtain rfl : msg = ⟨k, key⟩ := by simpa using hmem
      exact h k key hkey
    · obtain rfl : msg = ⟨k, e.key⟩ := by simpa using hmem
      simp
  | disconnected k => simp [GameLane.onEvent] at hmem
  | message m =>
    simp only [GameLane.onEvent] at hmem
    split at hmem
    · simp at hmem
    · obtain ⟨f, hf⟩ | hclose | ⟨req, -, hpass⟩ := Verdict.mem_ops hmem
      · cases hf
      · cases hclose
      · simp at hpass

/-- Handling an event issues a key at most to the connection it announces. -/
theorem length_issued_onEvent (e : Env) (lane : GameLane) (ev : Event) (id : ℕ) :
    ((lane.onEvent e ev).1.issued.filter fun p => p.1 = id).length ≤
      (lane.issued.filter fun p => p.1 = id).length + [ev].count (.connected id) := by
  cases ev with
  | connected k =>
    simp only [onEvent]
    split
    · exact Nat.le_add_right ..
    · by_cases hk : k = id <;> simp [hk]
  | disconnected k => exact Nat.le_add_right ..
  | message m =>
    simp only [onEvent]
    split <;> exact Nat.le_add_right ..

/-- A turn announces nothing. -/
theorem Turn.announced_le (h : Turn e lane lane' ops) (id : ℕ) :
    lane'.announced id ≤ lane.announced id := by
  cases h with
  | move hev _ _ hiss => rw [announced, hev, hiss, announced]
  | reply _ _ hev _ _ hiss => rw [announced, hev, hiss, announced]
  | event ev hev _ _ hiss =>
    have hlen := length_issued_onEvent e lane ev id
    rw [announced, announced, hev, hiss, List.count_cons]
    simp only [List.count_singleton] at hlen
    omega

theorem Turn.issued_subset (h : Turn e lane lane' ops) : lane.issued ⊆ lane'.issued := by
  cases h with
  | move _ _ _ hiss => exact fun p hp => hiss ▸ hp
  | reply _ _ _ _ _ hiss => exact fun p hp => hiss ▸ hp
  | event ev _ _ _ hiss => exact fun p hp => hiss ▸ issued_subset_onEvent e lane ev hp

theorem Turn.issued (h : Turn e lane lane' ops) (hl : lane.Issued) : lane'.Issued := by
  intro id key hkey
  cases h with
  | move _ _ hsess hiss => exact hiss ▸ hl id key (hsess ▸ hkey)
  | reply _ _ _ _ hsess hiss => exact hiss ▸ hl id key (hsess ▸ hkey)
  | event ev _ _ hsess hiss => exact hiss ▸ hl.onEvent e ev id key (hsess ▸ hkey)

/-- What a turn relays has been issued. -/
theorem Turn.relay (h : Turn e lane lane' ops) (hl : lane.Issued) {msg : ServiceMessage}
    (hmem : Op.relay msg ∈ ops) : (msg.connId, msg.text) ∈ lane'.issued := by
  cases h with
  | move => simp at hmem
  | reply index res =>
    unfold onReply at hmem
    split at hmem <;> simp at hmem
  | event ev _ _ _ hiss => exact hiss ▸ hl.relay_onEvent hmem

end GameLane

/-- The operation announces a connection to the game service. -/
def Op.announcing (id : ℕ) : Op → ℕ
  | postConnected .game k => (k = id : Bool).toNat
  | _ => 0

namespace Server

variable {s s' : Server}

/-- The Connected events that an operation posts to the game service. -/
theorem count_posted (cfg : ServerConfig) (s : Server) (op : Op) (id : ℕ) :
    (s.posted cfg .game op).count (.connected id) = op.announcing id := by
  cases op with
  | postConnected svc k =>
    cases svc <;> by_cases hk : k = id <;> simp [posted, Op.announcing, hk]
  | postDisconnected svc k => cases svc <;> simp [posted, Op.announcing]
  | tryEmplace svc k index view =>
    simp only [posted]
    split_ifs <;> simp [Op.announcing]
  | _ => simp [posted, Op.announcing]

/-- Only `adopt` announces a connection to the game service. -/
theorem announced_exec (h : s.exec cfg e op = some (s', new)) (id : ℕ) :
    (s'.game (cfg.laneOf id)).announced id ≤
      (s.game (cfg.laneOf id)).announced id + op.announcing id := by
  obtain ⟨rfl, ops, -, hstep⟩ | ⟨-, hlane⟩ := exec_game h (cfg.laneOf id)
  · exact ((GameLane.turn hstep).announced_le id).trans (Nat.le_add_right ..)
  · have hcount : ((s.posted cfg .game op).filter fun ev =>
        cfg.laneOf ev.connId = cfg.laneOf id).count (.connected id) = op.announcing id := by
      rw [List.count_filter (by simp [Event.connId]), count_posted]
    have hev : (s'.game (cfg.laneOf id)).events = (s.game (cfg.laneOf id)).events ++
        (s.posted cfg .game op).filter fun ev => cfg.laneOf ev.connId = cfg.laneOf id := by
      simp [GameLane.events, hlane]
    rw [GameLane.announced, hev, List.count_append, hcount, GameLane.announced]
    simp only [hlane]
    omega

/-- An announcement is pushed by `adopt` alone, and passed on until it is posted. -/
theorem connecting_exec (h : s.exec cfg e op = some (s', new)) (hadopt : op ≠ .adopt) (id : ℕ) :
    stackWeight (Op.connecting .game id) new + op.announcing id ≤
      op.connecting .game id := by
  cases hop : op.advances with
  | false =>
    have hnone := (Adoption.stackWeight_of_not_advances h hop id).2.1 .game
    have hpost : op.announcing id = 0 := by
      cases op <;> first | rfl | simp [Op.advances] at hop
    simp [hnone, hpost]
  | true =>
    cases op with
    | adopt => exact absurd rfl hadopt
    | postConnected svc k =>
      cases svc <;> cases h <;> by_cases hk : k = id <;> simp [Op.connecting, Op.announcing, hk]
    | postDisconnected svc k => cases svc <;> cases h <;> simp [Op.connecting, Op.announcing]
    | _ =>
      simp only [Op.advances, Bool.false_eq_true] at hop
      all_goals
        simp only [exec, setSender, onClose] at h
        repeat' split at h
      all_goals cases h
      all_goals simp [Op.connecting, Op.announcing]

end Server

/-- A connection is announced to the game service, and issued a key, at most once. -/
structure Issue (cfg : ServerConfig) (s : ServerState) (id : ℕ) : Prop where
  unborn : s.server.nextId ≤ id → s.threads.weight (Op.connecting .game id) +
    (s.server.game (cfg.laneOf id)).announced id = 0
  once : s.threads.weight (Op.connecting .game id) +
    (s.server.game (cfg.laneOf id)).announced id ≤ 1

namespace Issue

/-- No key has been issued. -/
theorem fresh (cfg : ServerConfig) (id : ℕ) : Issue cfg (.fresh cfg) id := by
  have hweight : weight (Op.connecting .game id) (ServerState.fresh cfg).threads = 0 :=
    Adoption.weight_fresh cfg (fun _ => rfl) rfl rfl
  have hann : ((ServerState.fresh cfg).server.game (cfg.laneOf id)).announced id = 0 := rfl
  constructor <;> simp [hweight, hann]

/-- No operation issues a second key to a connection. -/
theorem exec (hs : Issue cfg s id) (hi : s.threads.head i = some op)
    (h : s.server.exec cfg e op = some (t, new)) : Issue cfg ⟨t, s.threads.exec i new⟩ id := by
  have hcon := weight_exec (Op.connecting .game id) hi new
  have hann := Server.announced_exec h id
  have hunborn := hs.unborn
  have honce := hs.once
  by_cases hadopt : op = .adopt
  · subst hadopt
    have hnext : t.nextId = s.server.nextId + 1 := by cases h; rfl
    have hnew : stackWeight (Op.connecting .game id) new = (s.server.nextId = id : Bool).toNat := by
      cases h
      simp [Op.connecting]
    simp only [Op.announcing, Op.connecting, Nat.add_zero] at hann hcon
    by_cases hid : s.server.nextId = id
    · have hzero := hunborn hid.le
      simp [hid] at hnew
      constructor <;> dsimp only <;> omega
    · simp [hid] at hnew
      constructor <;> dsimp only <;> omega
  · have hpush := Server.connecting_exec h hadopt id
    rw [← Server.nextId_exec h hadopt] at hunborn
    constructor <;> dsimp only <;> omega

theorem step {a : ServerStep} (hs : Issue cfg s id) (h : (serverThreads cfg).step s a = some s') :
    Issue cfg s' id := by
  obtain ⟨i, e, op, new, -, hi, hex, hth⟩ | ⟨op, -, hext, hsv, hth⟩ := ServerState.step_cases h
  · have := hs.exec hi hex
    rwa [← hth] at this
  · have hzero : op.connecting .game id = 0 := by
      cases op <;> simp_all [Server.external, Op.connecting]
    constructor
    · simpa [hsv, hth, hzero] using hs.unborn
    · simpa [hsv, hth, hzero] using hs.once

/-- A connection has one key at most. -/
theorem key_unique (hs : Issue cfg s id) {key key' : Bytes}
    (h : (id, key) ∈ (s.server.game (cfg.laneOf id)).issued)
    (h' : (id, key') ∈ (s.server.game (cfg.laneOf id)).issued) : key = key' := by
  have honce := hs.once
  have hle : ((s.server.game (cfg.laneOf id)).issued.filter fun p => p.1 = id).length ≤ 1 := by
    rw [GameLane.announced] at honce
    omega
  have hmem : (id, key) ∈ (s.server.game (cfg.laneOf id)).issued.filter fun p => p.1 = id := by
    simpa using h
  have hmem' : (id, key') ∈ (s.server.game (cfg.laneOf id)).issued.filter fun p => p.1 = id := by
    simpa using h'
  obtain ⟨p, hp⟩ := List.length_eq_one_iff.mp (le_antisymm hle (List.length_pos_of_mem hmem))
  rw [hp, List.mem_singleton] at hmem hmem'
  exact congrArg Prod.snd (hmem.trans hmem'.symm)

end Issue

/-! ## What is relayed -/

/-- The key of a relay has been issued to its connection. -/
def Server.Issued (s : Server) (msg : ServiceMessage) : Prop :=
  ∃ l, (msg.connId, msg.text) ∈ (s.game l).issued

/-- Every relay carries an issued key, wherever it is. -/
structure Relayed (s : ServerState) : Prop where
  sessions : ∀ l, (s.server.game l).Issued
  threads : ∀ stack ∈ s.threads, ∀ msg, Op.relay msg ∈ stack → s.server.Issued msg
  chat : ∀ msg ∈ s.server.chat.relayed ++ s.server.chat.relays, s.server.Issued msg

/-- A step of the chat service handles relays in their order. -/
theorem ChatLane.relays_step (lane : ChatLane) :
    lane.step.1.relayed ++ lane.step.1.relays = lane.relayed ++ lane.relays := by
  unfold step
  cases hloop : lane.loop with
  | relays batch =>
    cases batch with
    | nil => simp [relays, ChatLoop.heldRelays, hloop]
    | cons msg batch =>
      simp only [onService]
      split <;> simp [relays, ChatLoop.heldRelays, hloop]
  | events batch =>
    cases batch with
    | nil => simp [relays, ChatLoop.heldRelays, hloop]
    | cons ev batch =>
      cases ev <;> simp only [onEvent]
      · simp [relays, ChatLoop.heldRelays, hloop]
      · simp [relays, ChatLoop.heldRelays, hloop]
      · split <;> simp [relays, ChatLoop.heldRelays, hloop]
  | _ => simp [relays, ChatLoop.heldRelays, hloop]

/-- The chat service relays nothing. -/
theorem ChatLane.Turn.relay_notMem {lane lane' : ChatLane} {ops : List Op}
    (h : Turn lane lane' ops) (msg : ServiceMessage) : Op.relay msg ∉ ops := by
  cases h with
  | move => simp
  | relay => simp
  | event ev =>
    cases ev <;> simp only [onEvent]
    · simp
    · simp
    · split
      · simp
      · intro hmem
        obtain ⟨f, hf⟩ | hclose | ⟨text, -, hpass⟩ := Verdict.mem_ops hmem
        · cases hf
        · cases hclose
        · simp at hpass

namespace Server

variable {s s' : Server}

/-- A key stays issued. -/
theorem issued_exec (h : s.exec cfg e op = some (s', new)) (l : ℕ) :
    (s.game l).issued ⊆ (s'.game l).issued := by
  obtain ⟨rfl, ops, -, hstep⟩ | ⟨-, hlane⟩ := exec_game h l
  · exact (GameLane.turn hstep).issued_subset
  · rw [hlane]
    exact List.Subset.refl _

/-- What a lane has in its session table stays issued. -/
theorem issued_game_exec {l : ℕ} (hs : (s.game l).Issued) (h : s.exec cfg e op = some (s', new)) :
    (s'.game l).Issued := by
  obtain ⟨-, ops, -, hstep⟩ | ⟨-, hlane⟩ := exec_game h l
  · exact (GameLane.turn hstep).issued hs
  · rwa [hlane]

/-- A relay keeps its key. -/
theorem Issued.exec {msg : ServiceMessage} (hs : s.Issued msg)
    (h : s.exec cfg e op = some (s', new)) : s'.Issued msg := by
  obtain ⟨l, hl⟩ := hs
  exact ⟨l, issued_exec h l hl⟩

/-- Only a game lane relays. -/
theorem relay_exec (h : s.exec cfg e op = some (s', new)) (hs : ∀ l, (s.game l).Issued)
    {msg : ServiceMessage} (hmem : Op.relay msg ∈ new) : s'.Issued msg := by
  cases op with
  | gameLoop l =>
    obtain ⟨-, ops, rfl, hstep⟩ | ⟨hne, -⟩ := exec_game h l
    · exact ⟨l, (GameLane.turn hstep).relay (hs l) (by simpa using hmem)⟩
    · exact absurd rfl hne
  | chatLoop =>
    obtain ⟨-, ops, rfl, hstep⟩ | ⟨hne, -⟩ := exec_chat h
    · have hnone := (ChatLane.turn hstep).relay_notMem msg
      simp [hnone] at hmem
    · exact absurd rfl hne
  | submitDb index req =>
    simp only [exec] at h
    obtain ⟨_, _, -, hsub⟩ | ⟨us, -, hsub⟩ := s.submitDb_cases cfg index req
    all_goals
      rw [hsub] at h
      cases h
      simp [sendError] at hmem
  | mainLoop =>
    simp only [exec, mainStep] at h
    repeat' split at h
    all_goals cases h
    all_goals simp at hmem
  | _ =>
    simp only [exec, lockSend, setSender, onClose, sendError] at h
    repeat' split at h
    all_goals cases h
    all_goals simp at hmem

end Server

namespace Relayed

theorem fresh (cfg : ServerConfig) : Relayed (.fresh cfg) := by
  refine ⟨fun l id key h => ?_, fun stack hstack msg hmem => ?_, fun msg hmem => ?_⟩
  · simp [ServerState.fresh, Server.fresh, GameLane.fresh] at h
  · simp only [ServerState.fresh, List.mem_append, List.mem_map, List.mem_cons,
      List.not_mem_nil, or_false] at hstack
    obtain ⟨l, -, rfl⟩ | rfl | rfl := hstack <;> simp at hmem
  · simp [ServerState.fresh, Server.fresh, ChatLane.fresh, ChatLane.relays,
      ChatLoop.heldRelays] at hmem

/-- Every operation relays issued keys only. -/
theorem exec (hs : Relayed s) (hi : s.threads.head i = some op)
    (h : s.server.exec cfg e op = some (t, new)) : Relayed ⟨t, s.threads.exec i new⟩ where
  sessions l := Server.issued_game_exec (hs.sessions l) h
  threads := by
    refine forall_exec (P := fun stack => ∀ msg, Op.relay msg ∈ stack → t.Issued msg) hi
      (fun stack hstack msg hmem => (hs.threads stack hstack msg hmem).exec h) ?_
    intro rest hrest msg hmem
    obtain hmem | hmem := List.mem_append.mp hmem
    · exact Server.relay_exec h hs.sessions hmem
    · exact hrest msg (List.mem_cons_of_mem _ hmem)
  chat := by
    have hold := fun msg hmem => (hs.chat msg hmem).exec h
    obtain ⟨-, ops, -, hstep⟩ | ⟨-, hchat⟩ := Server.exec_chat h
    · have hsame := s.server.chat.relays_step
      rw [hstep] at hsame
      rwa [← hsame] at hold
    · intro msg hmem
      have hlast : t.chat.relayed ++ t.chat.relays =
          s.server.chat.relayed ++ s.server.chat.relays ++ op.relayed := by
        simp [hchat, ChatLane.relays]
      rw [hlast] at hmem
      obtain hmem | hmem := List.mem_append.mp hmem
      · exact hold msg hmem
      · cases op <;> simp only [Op.relayed, List.not_mem_nil] at hmem
        rw [List.mem_singleton.mp hmem]
        obtain ⟨stack, hstack, hhead⟩ := mem_of_head hi
        exact (hs.threads stack hstack _ hhead).exec h

theorem step {a : ServerStep} (hs : Relayed s) (h : (serverThreads cfg).step s a = some s') :
    Relayed s' := by
  obtain ⟨i, e, op, new, -, hi, hex, hth⟩ | ⟨op, -, hext, hsv, hth⟩ := ServerState.step_cases h
  · have := hs.exec hi hex
    rwa [← hth] at this
  · obtain ⟨hsess, hthr, hchat⟩ := hs
    refine ⟨by rwa [hsv], fun stack hstack msg hmem => ?_, by rwa [hsv]⟩
    rw [hsv]
    rw [hth, spawn, List.mem_append, List.mem_singleton] at hstack
    rcases hstack with hstack | rfl
    · exact hthr stack hstack msg hmem
    · obtain rfl := List.mem_singleton.mp hmem
      cases hext

end Relayed

/-! ## The name of a member -/

/-- What the chat service knows of the key of a connection. -/
structure ChatLane.Names (lane : ChatLane) (id : ℕ) : Prop where
  /-- A parked key has been relayed. -/
  source : ∀ key, lane.pendingNames.lookup id = some key → ⟨id, key⟩ ∈ lane.relayed
  unknown : .connected id ∉ lane.handled → lane.members.lookup id = none
  parked : .connected id ∉ lane.handled → .disconnected id ∉ lane.handled →
    (∃ key, ⟨id, key⟩ ∈ lane.relayed) → (lane.pendingNames.lookup id).isSome
  member : .connected id ∈ lane.handled → .disconnected id ∉ lane.handled →
    (lane.members.lookup id).isSome
  named : .connected id ∈ lane.handled → .disconnected id ∉ lane.handled →
    (∃ key, ⟨id, key⟩ ∈ lane.relayed) →
      ∃ key, lane.members.lookup id = some key ∧ ⟨id, key⟩ ∈ lane.relayed

namespace ChatLane

/-- No key is parked that the connection still needs. -/
def keepsName (lane : ChatLane) (id : ℕ) : Bool :=
  (lane.pendingNames.lookup id).isNone ||
    Event.connected id ∈ lane.handled || Event.disconnected id ∈ lane.handled

variable {lane lane' : ChatLane}

namespace Names

theorem congr (h : lane.Names id) (hmem : lane'.members.lookup id = lane.members.lookup id)
    (hpend : lane'.pendingNames.lookup id = lane.pendingNames.lookup id)
    (hconn : Event.connected id ∈ lane'.handled ↔ Event.connected id ∈ lane.handled)
    (hdisc : Event.disconnected id ∈ lane'.handled ↔ Event.disconnected id ∈ lane.handled)
    (hrel : ∀ key, ⟨id, key⟩ ∈ lane'.relayed ↔ ⟨id, key⟩ ∈ lane.relayed) : lane'.Names id := by
  obtain ⟨h1, h2, h3, h4, h5⟩ := h
  constructor <;> simpa only [hmem, hpend, hconn, hdisc, hrel]

/-- A relay names the member, or waits for it. -/
theorem onService (h : lane.Names id) (loop : ChatLoop) (msg : ServiceMessage) :
    ({ lane with loop, relayed := lane.relayed ++ [msg] }.onService msg).Names id := by
  unfold ChatLane.onService
  by_cases hid : msg.connId = id
  · subst hid
    obtain ⟨hsource, hunknown, hparked, hmember, hnamed⟩ := h
    dsimp only
    split
    · rename_i hnone
      refine ⟨fun key hkey => ?_, hunknown, fun _ _ _ => by simp, hmember, fun hc hd _ => ?_⟩
      · obtain rfl : msg.text = key := by simpa using hkey
        simp
      · simpa [hnone] using hmember hc hd
    · rename_i name hname
      refine ⟨fun key hkey => List.mem_append_left _ (hsource key hkey), fun hc => ?_,
        fun hc => ?_, fun _ _ => by simp, fun _ _ _ => ⟨msg.text, by simp⟩⟩
      · simpa [hname] using hunknown hc
      · simpa [hname] using hunknown hc
  · have hne : id ≠ msg.connId := Ne.symm hid
    have hrel : ∀ key, (⟨id, key⟩ : ServiceMessage) ∈ lane.relayed ++ [msg] ↔
        ⟨id, key⟩ ∈ lane.relayed := by
      intro key
      simp only [List.mem_append, List.mem_singleton, or_iff_left_iff_imp]
      rintro rfl
      exact absurd rfl hid
    dsimp only
    split
    · exact h.congr rfl (AList.lookup_insert_ne hne) Iff.rfl Iff.rfl hrel
    · exact h.congr (AList.lookup_insert_ne hne) rfl Iff.rfl Iff.rfl hrel

/-- An event of the connection names it, or takes it out. -/
theorem onEvent (h : lane.Names id) (loop : ChatLoop) (ev : Event) :
    ({ lane with loop, handled := lane.handled ++ [ev] }.onEvent ev).1.Names id := by
  by_cases hid : ev.connId = id
  · obtain ⟨hsource, hunknown, hparked, hmember, hnamed⟩ := h
    cases ev with
    | connected k =>
      obtain rfl : k = id := hid
      simp only [ChatLane.onEvent]
      refine ⟨by simp, by simp, by simp, fun _ _ => by simp, fun hc hd hrel => ?_⟩
      simp only [List.mem_append, List.mem_singleton, reduceCtorEq, or_false] at hd
      dsimp only at hrel ⊢
      rw [AList.lookup_insert]
      cases hpend : lane.pendingNames.lookup k with
      | some key => exact ⟨key, by simp, hsource key hpend⟩
      | none =>
        by_cases hold : Event.connected k ∈ lane.handled
        · obtain ⟨key, hkey, hmem⟩ := hnamed hold hd hrel
          exact ⟨key, by simp [hkey], hmem⟩
        · simpa [hpend] using hparked hold hd hrel
    | disconnected k =>
      obtain rfl : k = id := hid
      simp only [ChatLane.onEvent]
      refine ⟨by simp, by simp, ?_, ?_, ?_⟩
      all_goals
        intro _ hd
        simp at hd
    | message m =>
      simp only [ChatLane.onEvent]
      split
      all_goals
        exact (⟨hsource, hunknown, hparked, hmember, hnamed⟩ : lane.Names id).congr rfl rfl
          (by simp) (by simp) fun _ => Iff.rfl
  · have hconn : Event.connected id ∈ lane.handled ++ [ev] ↔ Event.connected id ∈ lane.handled := by
      simp only [List.mem_append, List.mem_singleton, or_iff_left_iff_imp]
      rintro rfl
      exact absurd rfl hid
    have hdisc : Event.disconnected id ∈ lane.handled ++ [ev] ↔
        Event.disconnected id ∈ lane.handled := by
      simp only [List.mem_append, List.mem_singleton, or_iff_left_iff_imp]
      rintro rfl
      exact absurd rfl hid
    have hne : id ≠ ev.connId := Ne.symm hid
    cases ev with
    | connected k =>
      exact h.congr (AList.lookup_insert_ne hne) (AList.lookup_erase_ne hne) hconn hdisc
        fun _ => Iff.rfl
    | disconnected k =>
      exact h.congr (AList.lookup_erase_ne hne) (AList.lookup_erase_ne hne) hconn hdisc
        fun _ => Iff.rfl
    | message m =>
      simp only [ChatLane.onEvent]
      split <;> exact h.congr rfl rfl hconn hdisc fun _ => Iff.rfl

theorem fresh (id : ℕ) : ChatLane.fresh.Names id := by
  constructor <;> simp [ChatLane.fresh]

/-- A turn keeps what is known of a key, unless it forgets one that is needed. -/
theorem step (h : lane.Names id) (hkeep : lane.loop = .afterBatch → lane.keepsName id = true) :
    lane.step.1.Names id := by
  unfold ChatLane.step
  cases hloop : lane.loop with
  | relays batch =>
    cases batch with
    | nil => exact h.congr rfl rfl Iff.rfl Iff.rfl fun _ => Iff.rfl
    | cons msg batch => exact h.onService _ msg
  | events batch =>
    cases batch with
    | nil => exact h.congr rfl rfl Iff.rfl Iff.rfl fun _ => Iff.rfl
    | cons ev batch => exact h.onEvent _ ev
  | afterBatch =>
    obtain ⟨hsource, hunknown, hparked, hmember, hnamed⟩ := h
    refine ⟨by simp, hunknown, fun hc hd hrel => ?_, hmember, hnamed⟩
    have hkey := hparked hc hd hrel
    have hneeded := hkeep hloop
    simp [keepsName, hc, hd, Option.isNone_iff_eq_none] at hneeded
    simp [hneeded] at hkey
  | _ => exact h.congr rfl rfl Iff.rfl Iff.rfl fun _ => Iff.rfl

end Names

end ChatLane

/-- A step that does not end a round of the chat service with the key of a connection parked that
still needs it. -/
def KeepsName (id : ℕ) (s : ServerState) : ServerStep → Bool
  | .exec i _ => match s.threads.head i, s.server.chat.loop with
    | some .chatLoop, .afterBatch => s.server.chat.keepsName id
    | _, _ => true
  | .spawn _ => true

/-- A member that the chat service has heard of, and of its session, and not of its end, has the
session key as its name. -/
def NamedByKey (cfg : ServerConfig) (s : Server) (id : ℕ) : Prop :=
  .connected id ∈ s.chat.handled → .disconnected id ∉ s.chat.handled →
    (∃ key, ⟨id, key⟩ ∈ s.chat.relayed) →
      ∃ key, (∀ k, (id, k) ∈ (s.game (cfg.laneOf id)).issued ↔ k = key) ∧
        s.chat.members.lookup id = some key

/-- A step that keeps the names keeps them by key. -/
theorem names_step {a : ServerStep} (hs : s.server.chat.Names id) (hok : KeepsName id s a = true)
    (h : (serverThreads cfg).step s a = some s') : s'.server.chat.Names id := by
  obtain ⟨i, e, op, new, rfl, hi, hex, -⟩ | ⟨op, -, -, hsv, -⟩ := ServerState.step_cases h
  · obtain ⟨rfl, ops, -, hstep⟩ | ⟨-, hchat⟩ := Server.exec_chat hex
    · have := hs.step fun hloop => by simpa [KeepsName, hi, hloop] using hok
      rwa [hstep] at this
    · rw [hchat]
      exact hs.congr rfl rfl Iff.rfl Iff.rfl fun _ => Iff.rfl
  · rwa [hsv]

/-- In every run whose rounds keep the key of a connection while it is needed, the name of the
member is the session key. -/
theorem named_by_key (h : (serverThreads cfg).ReachesWhen (fun s a => KeepsName id s a = true) s) :
    NamedByKey cfg s.server id := by
  have hinv : Issue cfg s id ∧ Relayed s ∧ s.server.chat.Names id := by
    refine Machine.ReachesWhen.invariant
      (I := fun s => Issue cfg s id ∧ Relayed s ∧ s.server.chat.Names id) ?_ ?_ h
    · rintro s rfl
      exact ⟨.fresh cfg id, .fresh cfg, .fresh id⟩
    · rintro s a s' ⟨hissue, hrel, hnames⟩ hok hstep
      exact ⟨hissue.step hstep, hrel.step hstep, names_step hnames hok hstep⟩
  obtain ⟨hissue, hrel, hnames⟩ := hinv
  intro hc hd hr
  obtain ⟨key, hname, hkey⟩ := hnames.named hc hd hr
  obtain ⟨l, hl⟩ := hrel.chat ⟨id, key⟩ (List.mem_append_left _ hkey)
  obtain rfl := (Server.owned_of_reachesWhen h l).issued _ hl
  exact ⟨key, fun k => ⟨fun hk => hissue.key_unique hk hl, fun hk => hk ▸ hl⟩, hname⟩

/-- The relay of the session key overtakes the Connected event of the chat service by a round. -/
def namelessRun : List ServerStep :=
  .spawn .adopt :: runs 3 4 ++ runs 0 7 ++ runs 1 6 ++ runs 3 1 ++ runs 1 4

/-- The key of an open connection can be lost. -/
theorem nameless_member_reachable :
    ¬ ∀ s, (serverThreads oneLane).Reaches s → ∀ id, (s.server.conns id).closed = false →
      NamedByKey oneLane s.server id := by
  intro h
  obtain ⟨s, hs, hp⟩ := (serverThreads oneLane).exists_reachesWhen (fun _ _ => True)
    (.fresh oneLane) namelessRun (fun s => (s.server.conns 1).closed = false ∧
      .connected 1 ∈ s.server.chat.handled ∧ .disconnected 1 ∉ s.server.chat.handled ∧
      ⟨1, [1]⟩ ∈ s.server.chat.relayed ∧ (1, [1]) ∈ (s.server.game 0).issued ∧
      s.server.chat.members.lookup 1 = some []) rfl (by decide +kernel)
  obtain ⟨hclosed, hc, hd, hr, hissued, hname⟩ := of_decide_eq_true hp
  obtain ⟨key, hkey, hname'⟩ := h s hs 1 hclosed hc hd ⟨[1], hr⟩
  have hone := (hkey [1]).mp hissued
  rw [hname, ← hone] at hname'
  cases hname'

/-- A connection whose events the chat service handles before the relay. -/
theorem named_by_key_adopted :
    ∃ s : ServerState, .connected 1 ∈ s.server.chat.handled ∧
      .disconnected 1 ∉ s.server.chat.handled ∧ ⟨1, [1]⟩ ∈ s.server.chat.relayed ∧
      NamedByKey oneLane s.server 1 := by
  obtain ⟨s, hs, hp⟩ := (serverThreads oneLane).exists_reachesWhen
    (fun s a => KeepsName 1 s a = true) (.fresh oneLane) (adoptedRun ++ runs 1 6)
    (fun s => .connected 1 ∈ s.server.chat.handled ∧ .disconnected 1 ∉ s.server.chat.handled ∧
      ⟨1, [1]⟩ ∈ s.server.chat.relayed) rfl (by decide +kernel)
  obtain ⟨hc, hd, hr⟩ := of_decide_eq_true hp
  exact ⟨s, hc, hd, hr, named_by_key hs⟩

end EchoServer
