import AudioPlatform.Concurrency.Queued
import AudioPlatform.Server.History
import AudioPlatform.Server.Coherence
import AudioPlatform.Windows.Gui

/-! One Windows client and the server.

The client's requests reach the server in order and without loss, some time after the
click. The server refuses a second join; the engine takes it as a switch. So the two
agree as long as the user leaves one channel before joining the next. -/
namespace AudioPlatform.Windows
open AudioPlatform.Concurrency AudioPlatform.Core AudioPlatform.Server

variable {Frame : Type} {L : Library Frame} {D : Deployment} {c : ClientId}

/-! ### The server's part -/

/-- What the maps say about a client that is registered: its channel, and whether it speaks. -/
structure Registered (s : ServerState) (c : ClientId) (o : Option ChannelId) (b : Bool) : Prop where
  record : (s.clients c).map Client.standing = some (o, b)
  member : ∀ n, c ∈ s.members n ↔ o = some n
  channels : ∀ n ∈ channelNames, (s.channels n).isSome

section Registered
variable {s : ServerState} {o : Option ChannelId} {n k : ChannelId} {b : Bool}

theorem Registered.joins (h : Registered s c none b) (hn : n ∈ channelNames) : s.Joins c n := by
  obtain ⟨cl, hcl, hstanding⟩ := Option.map_eq_some_iff.mp h.record
  exact ⟨h.channels n hn, cl, hcl, congrArg Prod.fst hstanding⟩

theorem Registered.not_joins (h : Registered s c (some k) b) : ¬ s.Joins c n := by
  rintro ⟨-, cl, hcl, hnone⟩
  have hrecord := h.record
  rw [hcl] at hrecord
  have hsome : cl.channelId = some k := congrArg Prod.fst (Option.some.inj hrecord)
  rw [hnone] at hsome
  cases hsome

theorem Registered.isSome (h : Registered s c o b) : (s.clients c).isSome := by
  have := congrArg Option.isSome h.record
  rwa [Option.isSome_map] at this

theorem Registered.joined (h : Registered s c none b) (hn : n ∈ channelNames) :
    Registered (s.joined c n) c (some n) b where
  record := by
    obtain ⟨cl, hcl, hstanding⟩ := Option.map_eq_some_iff.mp h.record
    have hspeaking : cl.speaking = b := congrArg Prod.snd hstanding
    unfold ServerState.joined
    rw [clients_updateClient_self, clients_updateMembers, hcl, ← hspeaking]
    rfl
  member m := by
    unfold ServerState.joined
    rw [members_updateClient, mem_updateMembers_insert s n m c c (h.channels n hn), h.member m]
    simp [eq_comm]
  channels m hm := by
    unfold ServerState.joined
    rw [channels_updateClient, isSome_updateMembers]
    exact h.channels m hm

theorem Registered.speaking (h : Registered s c o b) (b' : Bool) :
    Registered (s.updateClient c (.speaking b')) c o b' where
  record := by
    obtain ⟨cl, hcl, hstanding⟩ := Option.map_eq_some_iff.mp h.record
    have hchannel : cl.channelId = o := congrArg Prod.fst hstanding
    rw [clients_updateClient_self, hcl, ← hchannel]
    rfl
  member := h.member
  channels := h.channels

theorem Registered.left (h : Registered s c (some n) b) : Registered (s.left c n) c none false where
  record := by
    obtain ⟨cl, hcl, -⟩ := Option.map_eq_some_iff.mp h.record
    unfold ServerState.left
    rw [clients_updateClient_self, clients_updateMembers, clients_updateClient_self, hcl]
    rfl
  member m := by
    unfold ServerState.left
    rw [members_updateClient, mem_updateMembers_remove, members_updateClient, h.member m]
    simp [eq_comm]
  channels m hm := by
    unfold ServerState.left
    rw [channels_updateClient, isSome_updateMembers, channels_updateClient]
    exact h.channels m hm

end Registered

/-! ### Messages under way -/

/-- The server takes a message of the client and serves it to its end. -/
def Takes (D : Deployment) (c : ClientId) (S : Serial) (m : ClientMessage) (S' : Serial) : Prop :=
  ∃ up now, serve D up (.incoming c now (.message m)) S = some S'

/-- The connection is between two requests. -/
def Ready (c : ClientId) (S : Serial) : Prop := S.phase (.conn c) = .idle

theorem exists_takes (D : Deployment) {S : Serial} (m : ClientMessage) (h : Ready c S) :
    ∃ S', Takes D c S m S' ∧ Ready c S' := by
  obtain ⟨s', hends, -⟩ := ends_handleMessage D (fun _ => true) c 0 m S.world
  obtain ⟨sent, halone⟩ := hends.alone S.world rfl
  have hserve : serve D (fun _ => true) (.incoming c 0 (.message m)) S =
      some ⟨⟨s', sent, S.world.datagrams⟩, Function.update S.phase (.conn c) .idle⟩ := by
    show (if S.phase (.conn c) = .idle then _ else _) = _
    rw [if_pos (show S.phase (.conn c) = .idle from h), halone]
    rfl
  exact ⟨_, ⟨_, _, hserve⟩, Function.update_self ..⟩

/-- Where serving a message ends is what the server takes it to. -/
theorem Takes.state {S S' : Serial} {m : ClientMessage} {s' : ServerState} (h : Takes D c S m S')
    (hends : ∀ up now, Ends up (handleIncoming now c (.message m)) S.world.state .idle s') :
    S'.world.state = s' := by
  obtain ⟨up, now, h⟩ := h
  replace h : (if S.phase (.conn c) = .idle then _ else none) = some S' := h
  split at h
  · obtain ⟨⟨φ, w⟩, halone, rfl⟩ := Option.map_eq_some_iff.mp h
    exact ((hends up now).unique halone).2.1
  · cases h

/-! ### Agreement -/

/-- The engine and the client's record say the same. -/
structure Agree (e : Engine L) (cl : Client) : Prop where
  channel : cl.channelId.map cString =
    if e.channel.active then some e.channel.channelIdStr else none
  speaking : cl.speaking = e.transmitting

def AgreeOn (c : ClientId) (g : Gui L) (S : Serial) : Prop :=
  ∃ cl, S.world.state.clients c = some cl ∧ Agree g.engine cl

/-- A channel is joined only while the engine is in none. -/
def LeavesFirst (g : Gui L) : Click → Prop
  | .join idx => g.channelJoined idx = false → g.engine.channel.active = false
  | _ => True

/-- The window, the engine and the server are in one channel or in none. -/
def Synced (c : ClientId) (g : Gui L) (S : Serial) : Prop :=
  ∃ o, g.On o ∧ Registered S.world.state c (o.map channelIds) g.engine.transmitting

theorem Synced.agree {g : Gui L} {S : Serial} (h : Synced c g S) : AgreeOn c g S := by
  obtain ⟨o, hon, hreg⟩ := h
  obtain ⟨cl, hcl, hstanding⟩ := Option.map_eq_some_iff.mp hreg.record
  refine ⟨cl, hcl, ?_, congrArg Prod.snd hstanding⟩
  rw [show cl.channelId = o.map channelIds from congrArg Prod.fst hstanding, hon.active]
  cases o with
  | none => rfl
  | some idx =>
    rw [hon.name idx rfl]
    rfl

/-- A click that leaves first, once its message has been served. -/
theorem synced_click {g : Gui L} {S S' : Serial} {b : Click} (h : Synced c g S)
    (hb : LeavesFirst g b) (hq : Queued.TakesAll (Takes D c) (g.click b).2 S S') :
    Synced c (g.click b).1 S' := by
  obtain ⟨o, hon, hreg⟩ := h
  cases b with
  | join idx =>
    by_cases hidx : o = some idx
    · subst hidx
      obtain ⟨hmsg, hoff, htx⟩ := hon.leaves
      rw [hmsg] at hq
      obtain ⟨_, htake, rfl⟩ := hq
      have hstate := htake.state fun up now => ends_handleLeave_ok up now ((hreg.member _).mpr rfl)
      refine ⟨none, hoff, ?_⟩
      rw [hstate, htx]
      exact hreg.left
    · have hactive := hb ((hon.joined idx).trans (decide_eq_false hidx))
      obtain rfl : o = none := by
        rw [hon.active] at hactive
        simpa using hactive
      obtain ⟨hin, htx⟩ := hon.enters idx
      rw [hon.click_join hidx] at hq
      obtain ⟨_, htake, rfl⟩ := hq
      have hstate := htake.state fun up now =>
        ends_handleJoin_ok up now (hreg.joins (channelIds_mem idx))
      refine ⟨some idx, hin, ?_⟩
      rw [hstate, htx, ← hon.silent rfl]
      exact hreg.joined (channelIds_mem idx)
  | talk idx =>
    by_cases hidx : o = some idx
    · subst hidx
      cases htx : g.engine.transmitting with
      | false =>
        obtain ⟨hmsg, hin, htx'⟩ := hon.starts htx
        rw [hmsg] at hq
        obtain ⟨_, htake, rfl⟩ := hq
        have hstate := htake.state fun up now =>
          ends_handleStart_ok up now ((hreg.member _).mpr rfl)
        refine ⟨some idx, hin, ?_⟩
        rw [hstate, htx']
        exact hreg.speaking true
      | true =>
        obtain ⟨hmsg, hin, htx'⟩ := hon.stops htx
        rw [hmsg] at hq
        obtain ⟨_, htake, rfl⟩ := hq
        have hstate := htake.state fun up now =>
          ends_handleStop_ok up now ((hreg.member _).mpr rfl) hreg.isSome
        refine ⟨some idx, hin, ?_⟩
        rw [hstate, htx']
        exact hreg.speaking false
    · rw [(hon.disabled hidx).1] at hq ⊢
      obtain rfl := hq
      exact ⟨o, hon, hreg⟩
  | mute idx =>
    by_cases hidx : o = some idx
    · subst hidx
      obtain ⟨hmsg, hin, htx⟩ := hon.mutes
      rw [hmsg] at hq
      obtain rfl := hq
      exact ⟨some idx, hin, htx ▸ hreg⟩
    · rw [(hon.disabled hidx).2] at hq ⊢
      obtain rfl := hq
      exact ⟨o, hon, hreg⟩

/-- A join from another channel: the engine switches, and the server refuses. -/
theorem disagree_click {g : Gui L} {S S' : Serial} {b : Click} (h : Synced c g S)
    (hb : ¬ LeavesFirst g b) (hq : Queued.TakesAll (Takes D c) (g.click b).2 S S') :
    ¬ AgreeOn c (g.click b).1 S' := by
  obtain ⟨o, hon, hreg⟩ := h
  cases b with
  | join idx =>
    obtain ⟨hjoined, hactive⟩ := Classical.not_imp.mp hb
    have hidx : o ≠ some idx := by
      rw [hon.joined idx] at hjoined
      exact of_decide_eq_false hjoined
    obtain ⟨other, rfl⟩ : ∃ other, o = some other := by
      rw [hon.active] at hactive
      exact Option.isSome_iff_exists.mp ((Bool.not_eq_false _).mp hactive)
    rw [hon.click_join hidx] at hq
    obtain ⟨_, htake, rfl⟩ := hq
    have hstate := htake.state fun up now => ends_handleJoin_error up now hreg.not_joins
    obtain ⟨-, hin, hname, -⟩ := engine_join g.engine (cString (channelIds idx)) hon.connected
    rintro ⟨cl, hcl, hagree⟩
    have hrecord := hreg.record
    rw [← hstate, hcl] at hrecord
    have hchannel : cl.channelId = some (channelIds other) :=
      congrArg Prod.fst (Option.some.inj hrecord)
    have hagrees := hagree.channel
    rw [hon.click_join hidx] at hagrees
    dsimp only at hagrees
    rw [hin, if_pos rfl, hname, take_cString, hchannel] at hagrees
    exact hidx (congrArg some (cString_channelIds_inj (Option.some.inj hagrees)))
  | talk idx => exact absurd trivial hb
  | mute idx => exact absurd trivial hb

/-- The client has connected and authenticated, and nothing has been clicked. -/
structure Started (c : ClientId) (g : Gui L) (S : Serial) : Prop where
  ws : g.ws = true
  connected : g.engine.connected = true
  inactive : g.engine.channel.active = false
  silent : g.engine.transmitting = false
  joined : ∀ idx, g.channelJoined idx = false
  transmitting : ∀ idx, g.transmitting idx = false
  ready : Ready c S
  registered : Registered S.world.state c none false

theorem Started.synced {g : Gui L} {S : Serial} (h : Started c g S) : Synced c g S := by
  refine ⟨none, ⟨h.ws, h.connected, fun idx => ?_, fun idx => ?_, h.inactive, ?_,
    fun _ => h.silent⟩, ?_⟩
  · rw [h.joined idx]
    rfl
  · rw [h.transmitting idx, h.silent, Bool.and_false]
  · exact fun idx hidx => by cases hidx
  · rw [h.silent]
    exact h.registered

/-- **Client and server agree.** For any clicks, however they interleave with the messages:
the client's record and the engine agree whenever no message is under way, exactly if no
channel is joined while the engine is in one. -/
theorem agree_iff_leaves_first {g : Gui L} {S : Serial} (h : Started c g S) (clicks : List Click) :
    (∀ done state, done <+: clicks → Queued.Reaches Gui.click (Takes D c) g S done state →
      state.queue = [] → AgreeOn c state.near state.far) ↔
      Machine.Along Gui.click LeavesFirst g clicks :=
  Queued.promise_iff_along (fun _ m hr => exists_takes D m hr) h.ready h.synced
    (fun _ _ hs => hs.agree)
    (fun _ _ _ _ hs hb hq => synced_click hs hb hq)
    (fun _ _ _ _ hs hb hq => disagree_click hs hb hq)

/-! ### A new client -/

/-- The window of a client that has just connected. -/
def newGui : Gui toneLibrary where
  channelJoined := fun _ => false
  transmitting := fun _ => false
  channelMuted := fun _ => false
  engine := (aeEngineConnect (aeEngineSetClientId newEngine 7) .connected 0).1
  ws := true

/-- The server once client "a" has authenticated. -/
def newSerial : Serial where
  world :=
    { state := (ServerState.new 9000).authenticated "a" 7 "windows-client"
      sent := Function.update (fun _ => []) "a" [.authOk "a" 9000]
      datagrams := [] }
  phase := Function.update (Serial.initial oneShard).phase (.conn "a") .idle

example : serve oneShard (fun _ => true) (.auth "a" "windows-client") (Serial.initial oneShard) =
    some newSerial := rfl

theorem started_new : Started "a" newGui newSerial where
  ws := rfl
  connected := rfl
  inactive := rfl
  silent := rfl
  joined _ := rfl
  transmitting _ := rfl
  ready := rfl
  registered :=
    { record := rfl
      member := fun n => iff_of_false (notMem_members_new 9000 n "a") (by simp)
      channels := by decide }

/-- Any clicks of the new client can be served to the end. -/
theorem exists_served (clicks : List Click) : ∃ S', Queued.Reaches Gui.click (Takes oneShard "a")
    newGui newSerial clicks ⟨Machine.run Gui.click newGui clicks, [], S'⟩ ∧ Ready "a" S' :=
  Queued.exists_reaches (fun _ m hr => exists_takes oneShard m hr) newGui started_new.ready clicks

/-- The user joins "channel-1" and talks, and both requests are served. -/
theorem agree_joining_once : ∃ state,
    Queued.Reaches Gui.click (Takes oneShard "a") newGui newSerial [.join 0, .talk 0] state ∧
      state.queue = [] ∧ AgreeOn "a" state.near state.far := by
  obtain ⟨S', hreach, -⟩ := exists_served [.join 0, .talk 0]
  have hleaves : Machine.Along Gui.click LeavesFirst newGui [.join 0, .talk 0] :=
    ⟨fun _ => rfl, trivial, trivial⟩
  exact ⟨_, hreach, rfl, (agree_iff_leaves_first started_new _).mpr hleaves _ _ (List.prefix_refl _)
    hreach rfl⟩

/-- The user joins "channel-1" and then "channel-2", and both requests are served. -/
theorem disagree_joining_twice : ∃ state,
    Queued.Reaches Gui.click (Takes oneShard "a") newGui newSerial [.join 0, .join 1] state ∧
      state.queue = [] ∧ ¬ AgreeOn "a" state.near state.far := by
  obtain ⟨S₁, hreach, hready⟩ := exists_served [.join 0]
  have hsynced : Synced "a" (Machine.run Gui.click newGui [Click.join 0]) S₁ :=
    Queued.inv_of_reaches (fun _ _ _ _ hs hb hq => synced_click hs hb hq) started_new.synced hreach
      ⟨fun _ => rfl, trivial⟩ rfl
  have hswitch : ¬ LeavesFirst (Machine.run Gui.click newGui [Click.join 0]) (.join 1) :=
    fun h => Bool.noConfusion (h rfl)
  obtain ⟨S₂, hq, -⟩ := Queued.exists_takesAll (fun _ m hr => exists_takes oneShard m hr)
    ((Machine.run Gui.click newGui [Click.join 0]).click (.join 1)).2 hready
  have hboth : Queued.Reaches Gui.click (Takes oneShard "a") newGui newSerial
      ([Click.join 0] ++ [Click.join 1]) _ := Queued.reaches_takesAll (hreach.input (.join 1)) hq
  exact ⟨_, hboth, rfl, disagree_click hsynced hswitch hq⟩

end AudioPlatform.Windows
