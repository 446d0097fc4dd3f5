import AudioPlatform.Core.Nonces

/-! What the channel arguments of the calls are worth.

The engine has one channel and remembers its name, but the calls that name a channel never
look at the name: they act on the channel that is joined, whichever they are called with. -/
namespace AudioPlatform.Core
open Concurrency

variable {Frame : Type} {L : Library Frame}

/-! ### Names -/

/-- An engine beside the name that was last joined and the one it was last told to transmit
on. -/
structure Named (L : Library Frame) where
  engine : Engine L
  joined : CString
  started : CString

/-- The channel that is named by a call other than a join. -/
def Call.named : Call Frame → Option CString
  | .leaveChannel b => some b
  | .startTransmit b => some b
  | .stopTransmit b => some b
  | .setChannelVolume b _ => some b
  | .setChannelMuted b _ => some b
  | _ => none

/-- The names change with the joins and starts that return `AE_OK`. -/
def Named.call (s : Named L) (c : Call Frame) : Named L × List (Action Frame) :=
  ({ engine := (s.engine.call c).1
     joined :=
      match c with
      | .joinChannel a => if (aeEngineJoinChannel s.engine a).2 = .ok then a else s.joined
      | _ => s.joined
     started :=
      match c with
      | .startTransmit b => if (aeEngineStartTransmit s.engine b).2 = .ok then b else s.started
      | _ => s.started }, (s.engine.call c).2)

/-- The names beside the engine change nothing in it. -/
theorem engine_run (s : Named L) (calls : List (Call Frame)) :
    (Machine.run Named.call s calls).engine = Machine.run Engine.call s.engine calls :=
  Machine.run_map (f := Named.engine) (fun _ _ => rfl) s calls

/-- The channel is as it was: its name and number, whether it is active, the flags, the volume and
the remote streams. -/
structure SameChannel (e e' : Engine L) : Prop where
  channel : e'.channel = e.channel
  transmitting : e'.transmitting = e.transmitting
  streams : e'.streams = e.streams

/-- The call leaves the joined channel alone if it names another one, what it sends is for the
channel last started, and so is what will be sent. -/
structure Respects (s : Named L) (c : Call Frame) : Prop where
  others : ∀ b, c.named = some b → s.engine.channel.active = true → b ≠ s.joined →
    SameChannel s.engine (s.engine.call c).1
  packets : ∀ packet ∈ audioPackets (s.call c).2,
    packetChannel packet = some (channelStrToId s.started)
  onAir : (s.call c).1.engine.transmitting = true →
    (s.call c).1.engine.channel.channelIdNum = channelStrToId (s.call c).1.started

/-- The call names the joined channel, or there is none, or it has nothing to change. -/
def NamesJoined (s : Named L) (c : Call Frame) : Prop :=
  ∀ b, c.named = some b → s.engine.channel.active = true → b ≠ s.joined →
    match c with
    | .startTransmit b => s.engine.transmitting = true ∧ s.engine.channel.transmitting = true ∧
        channelStrToId b = s.engine.channel.channelIdNum
    | .stopTransmit _ => s.engine.transmitting = false ∧ s.engine.channel.transmitting = false
    | .setChannelVolume _ volume => clampVolume volume = s.engine.channel.volume
    | .setChannelMuted _ muted => (if muted then 0 else 1) = s.engine.channel.volume
    | _ => False

/-! ### The invariant -/

/-- The number of the channel is that of the name last joined, and the engine transmits only in
a channel, the one last started. -/
structure Tuned (s : Named L) : Prop where
  number : s.engine.channel.active = true →
    s.engine.channel.channelIdNum = channelStrToId s.joined
  active : s.engine.transmitting = true → s.engine.channel.active = true
  started : s.engine.transmitting = true →
    s.engine.channel.channelIdNum = channelStrToId s.started

variable {s s' : Named L}

/-- It is enough to know the control part. -/
theorem Tuned.of_control {k : Control L} (hk : s'.engine.control = k)
    (hnumber : k.channel.active = true → k.channel.channelIdNum = channelStrToId s'.joined)
    (hactive : k.transmitting = true → k.channel.active = true)
    (hstarted : k.transmitting = true → k.channel.channelIdNum = channelStrToId s'.started) :
    Tuned s' := by
  subst hk
  exact ⟨hnumber, hactive, hstarted⟩

theorem join_ok (e : Engine L) (a : CString) :
    (aeEngineJoinChannel e a).2 = .ok ↔ e.connected = true := by
  unfold aeEngineJoinChannel
  cases e.connected <;> simp

theorem start_ok (e : Engine L) (b : CString) :
    (aeEngineStartTransmit e b).2 = .ok ↔ e.channel.active = true := by
  unfold aeEngineStartTransmit
  cases e.channel.active <;> simp

/-- A join leaves the channel before, if any, and takes its number from its own name. -/
theorem tuned_join (h : Tuned s) (a : CString) : Tuned (s.call (.joinChannel a)).1 := by
  have hcontrol := control_call s.engine (c := .joinChannel a) id
  dsimp only [Control.after] at hcontrol
  by_cases hon : s.engine.connected = true
  · have hjoined : (s.call (.joinChannel a)).1.joined = a := if_pos ((join_ok s.engine a).mpr hon)
    have hoff : s.engine.channel.active = false → s.engine.transmitting = false := by
      intro hidle
      by_contra ht
      rw [h.active (by simpa using ht)] at hidle
      cases hidle
    rw [if_pos (show s.engine.control.connected = true from hon)] at hcontrol
    have hsilent : ((if s.engine.control.channel.active then s.engine.control.hungUp else
        s.engine.control).entered a).transmitting = false := by
      split
      · rfl
      · rename_i hidle
        exact hoff (by simpa using hidle)
    refine .of_control hcontrol (fun _ => ?_) (fun ht => ?_) fun ht => ?_
    · rw [hjoined]
      rfl
    · rw [hsilent] at ht
      cases ht
    · rw [hsilent] at ht
      cases ht
  · have hjoined : (s.call (.joinChannel a)).1.joined = s.joined :=
      if_neg fun hok => hon ((join_ok s.engine a).mp hok)
    rw [if_neg (show ¬ s.engine.control.connected = true from hon)] at hcontrol
    refine .of_control hcontrol ?_ h.active h.started
    rw [hjoined]
    exact h.number

/-- A start is for the joined channel, or changes nothing. -/
theorem tuned_start (h : Tuned s) {b : CString} (hc : NamesJoined s (.startTransmit b)) :
    Tuned (s.call (.startTransmit b)).1 := by
  have hcontrol := control_call s.engine (c := .startTransmit b) id
  dsimp only [Control.after] at hcontrol
  by_cases hon : s.engine.channel.active = true
  · have hstarted : (s.call (.startTransmit b)).1.started = b :=
      if_pos ((start_ok s.engine b).mpr hon)
    rw [if_pos (show s.engine.control.channel.active = true from hon)] at hcontrol
    refine .of_control hcontrol h.number (fun _ => hon) fun _ => ?_
    rw [hstarted]
    show s.engine.channel.channelIdNum = channelStrToId b
    by_cases hb : b = s.joined
    · rw [hb]
      exact h.number hon
    · exact (hc b rfl hon hb).2.2.symm
  · have hstarted : (s.call (.startTransmit b)).1.started = s.started :=
      if_neg fun hok => hon ((start_ok s.engine b).mp hok)
    rw [if_neg (show ¬ s.engine.control.channel.active = true from hon)] at hcontrol
    refine .of_control hcontrol h.number h.active ?_
    rw [hstarted]
    exact h.started

/-- A call that names the joined channel, if any, keeps the engine tuned. -/
theorem tuned_call (h : Tuned s) {c : Call Frame} (hc : NamesJoined s c) : Tuned (s.call c).1 := by
  cases c with
  | joinChannel a => exact tuned_join h a
  | startTransmit b => exact tuned_start h hc
  | process t =>
    obtain ⟨encoder, captureRing, txSequence, hcontrol⟩ := control_tick s.engine t
    exact .of_control hcontrol h.number h.active h.started
  | leaveAllChannels =>
    have hcontrol := control_call s.engine (c := .leaveAllChannels) id
    dsimp only [Control.after] at hcontrol
    split at hcontrol
    · refine .of_control hcontrol (fun hact => ?_) (fun ht => ?_) fun ht => ?_
      · cases hact
      · cases ht
      · cases ht
    · exact .of_control hcontrol h.number h.active h.started
  | leaveChannel b =>
    refine .of_control (control_call s.engine id) (fun hact => ?_) (fun ht => ?_) fun ht => ?_
    · cases hact
    · cases ht
    · cases ht
  | disconnect =>
    refine .of_control (control_call s.engine id) (fun hact => ?_) (fun ht => ?_) fun ht => ?_
    · cases hact
    · cases ht
    · cases ht
  | stopTransmit b =>
    refine .of_control (control_call s.engine id) h.number (fun ht => ?_) fun ht => ?_
    · cases ht
    · cases ht
  | _ => exact .of_control (control_call s.engine id) h.number h.active h.started

/-! ### What is sent -/

/-- A packet of a tick is for the channel that is joined, and the engine is transmitting. -/
theorem audio_process {e : Engine L} {t : Tick} {packet : List Byte}
    (h : packet ∈ audioPackets (aeEngineProcess e t).2) :
    e.transmitting = true ∧ packetChannel packet = some e.channel.channelIdNum := by
  rw [audioPackets_process] at h
  split at h
  · rcases transmit_outcomes e with heq | ⟨-, heq⟩ | ⟨htx, payload, built, hp, heq⟩
    · rw [heq] at h
      cases h
    · rw [heq] at h
      cases h
    · obtain ⟨hsent, hbears⟩ := audioPackets_send e.encoding.network hp
      rw [heq] at h
      have hmem : packet ∈ audioPackets (aeNetSend e.encoding.network built : List (Action Frame)) := h
      rw [hsent] at hmem
      rw [List.mem_singleton.mp hmem]
      exact ⟨htx, hbears.1⟩
  · cases h

theorem packets_call (h : Tuned s) (c : Call Frame) : ∀ packet ∈ audioPackets (s.call c).2,
    packetChannel packet = some (channelStrToId s.started) := by
  intro packet hpacket
  by_cases htick : c.Ticks
  · cases c with
    | process t =>
      obtain ⟨htx, hchannel⟩ := audio_process hpacket
      rw [hchannel, h.started htx]
    | _ => exact absurd htick id
  · have hmem : packet ∈ audioPackets (s.engine.call c).2 := hpacket
    rw [audioPackets_call s.engine htick] at hmem
    cases hmem

/-! ### One call -/

theorem call_start {e : Engine L} (hon : e.channel.active = true) (b : CString) :
    (e.call (.startTransmit b)).1 =
      { e with channel := { e.channel with transmitting := true }, transmitting := true } := by
  show (aeEngineStartTransmit e b).1 = _
  unfold aeEngineStartTransmit
  rw [if_neg (by simp [hon])]

/-- A call that has nothing to change for another channel changes nothing. -/
theorem sameChannel_of_namesJoined {c : Call Frame} (hc : NamesJoined s c) {b : CString}
    (hb : c.named = some b) (hon : s.engine.channel.active = true) (hne : b ≠ s.joined) :
    SameChannel s.engine (s.engine.call c).1 := by
  have hnothing := hc b hb hon hne
  cases c with
  | startTransmit b =>
    obtain ⟨htx, hflag, -⟩ := hnothing
    rw [call_start hon]
    refine ⟨?_, htx.symm, rfl⟩
    show ({ s.engine.channel with transmitting := true } : ChannelState) = _
    rw [← hflag]
  | stopTransmit b =>
    obtain ⟨htx, hflag⟩ := hnothing
    refine ⟨?_, htx.symm, rfl⟩
    show ({ s.engine.channel with transmitting := false } : ChannelState) = _
    rw [← hflag]
  | setChannelVolume b volume =>
    refine ⟨?_, rfl, rfl⟩
    show ({ s.engine.channel with volume := clampVolume volume } : ChannelState) = _
    rw [hnothing]
  | setChannelMuted b muted =>
    refine ⟨?_, rfl, rfl⟩
    show ({ s.engine.channel with volume := if muted then 0 else 1 } : ChannelState) = _
    rw [hnothing]
  | _ => exact hnothing.elim

/-- A call respects the names exactly if it names the joined channel, or has nothing to change. -/
theorem respects_iff (h : Tuned s) (c : Call Frame) : Respects s c ↔ NamesJoined s c := by
  constructor
  · intro hr b hb hon hne
    have hsame := hr.others b hb hon hne
    have hchannel := hsame.channel
    have htx := hsame.transmitting
    cases c with
    | leaveChannel b =>
      have hleft := congrArg Control.channel (control_call s.engine (c := .leaveChannel b) id)
      have hoff : false = s.engine.channel.active :=
        congrArg ChannelState.active (hleft.symm.trans hchannel)
      rw [hon] at hoff
      cases hoff
    | startTransmit b =>
      have hair := hr.onAir
      have hstarted : (s.call (.startTransmit b)).1.started = b :=
        if_pos ((start_ok s.engine b).mpr hon)
      have hengine : (s.call (.startTransmit b)).1.engine = _ := call_start hon b
      rw [hstarted, hengine] at hair
      rw [call_start hon] at hchannel htx
      exact ⟨htx.symm, (congrArg ChannelState.transmitting hchannel).symm, (hair rfl).symm⟩
    | stopTransmit b =>
      exact ⟨htx.symm, (congrArg ChannelState.transmitting hchannel).symm⟩
    | setChannelVolume b volume => exact congrArg ChannelState.volume hchannel
    | setChannelMuted b muted => exact congrArg ChannelState.volume hchannel
    | _ => cases hb
  · intro hc
    exact ⟨fun _ hb hon hne => sameChannel_of_namesJoined hc hb hon hne, packets_call h c,
      (tuned_call h hc).started⟩

/-! ### A run -/

/-- A new engine, with no name yet. -/
theorem tuned_create [Zero Frame] {config : Option AeConfig} {e : Engine L}
    (h : aeEngineCreate L config = some e) : Tuned ⟨e, [], []⟩ := by
  have hoff := (idle_create h).channel
  have hsilent := (fresh_create h).transmitting
  refine ⟨fun hact => ?_, fun ht => ?_, fun ht => ?_⟩
  · cases hoff.symm.trans hact
  · cases hsilent.symm.trans ht
  · cases hsilent.symm.trans ht

/-- **Channel arguments.** In a run of a new engine, the calls that name another channel than the
joined one leave that one alone, and what is sent is for the channel last started, exactly if
each call that names a channel names the joined one, or has nothing to change. -/
theorem names_respected_iff [Zero Frame] {config : Option AeConfig} {e : Engine L}
    (hnew : aeEngineCreate L config = some e) (calls : List (Call Frame)) :
    Machine.Along Named.call Respects ⟨e, [], []⟩ calls ↔
      Machine.Along Named.call NamesJoined ⟨e, [], []⟩ calls := by
  have hany : Machine.Along Named.call (fun _ _ => True) ⟨e, [], []⟩ calls :=
    Machine.along_of_forall (fun _ _ => trivial) calls
  have hstep : ∀ (n : Named L) (c : Call Frame), Tuned n → True → NamesJoined n c →
      Tuned (n.call c).1 := fun _ _ h _ hc => tuned_call h hc
  exact Machine.along_congr_of_invariant hstep (fun _ c h _ => respects_iff h c) (tuned_create hnew) hany

/-- A client that talks on "channel-1" and then on "channel-2". -/
def switching : List (Call (ℚ × ℚ)) :=
  tuneIn ++ [.startTransmit channelOne, .setChannelVolume channelOne (1 / 2),
    .joinChannel channelTwo, .startTransmit channelTwo, .stopTransmit channelTwo]

theorem names_respected_iff_switching :
    Machine.Along Named.call Respects ⟨newEngine, [], []⟩ switching := by
  have hother : ∀ (s : Named toneLibrary) (c : Call (ℚ × ℚ)), c.named = none → NamesJoined s c := by
    intro s c hc b hb
    rw [hc] at hb
    cases hb
  have hown : ∀ (s : Named toneLibrary) (c : Call (ℚ × ℚ)), c.named = some s.joined →
      NamesJoined s c := by
    intro s c hc b hb _ hne
    rw [hc] at hb
    exact absurd (Option.some.inj hb).symm hne
  refine (names_respected_iff create_newEngine switching).mpr ?_
  exact ⟨hother _ _ rfl, hother _ _ rfl, hother _ _ rfl, hown _ _ rfl, hown _ _ rfl, hother _ _ rfl,
    hown _ _ rfl, hown _ _ rfl, trivial⟩

/-- A client that has joined "channel-1" is told to leave "channel-2", and leaves "channel-1". -/
theorem left_by_another_name :
    ¬ Machine.Along Named.call Respects ⟨newEngine, [], []⟩ (tuneIn ++ [.leaveChannel channelTwo]) := by
  rintro ⟨-, -, -, h, -⟩
  have hsame := h.others channelTwo rfl rfl (by decide)
  exact absurd (congrArg ChannelState.active hsame.channel) (by decide)

end AudioPlatform.Core
