import AudioPlatform.Core.Calls
import AudioPlatform.Server.State

/-! The Windows client: its channel buttons.

A click is acted on at once: it sends a request to the server, calls the engine, and
changes what the window shows. Nothing waits for the server's answer. -/
namespace AudioPlatform.Windows
open AudioPlatform.Core AudioPlatform.Server

/-- The three channels of the window. -/
abbrev ChannelIndex := Fin 3

def channelIds : ChannelIndex → ChannelId
  | 0 => "channel-1"
  | 1 => "channel-2"
  | 2 => "channel-3"

/-- They are channels of the server. -/
theorem channelIds_mem (idx : ChannelIndex) : channelIds idx ∈ channelNames := by
  revert idx
  decide

/-- A string as the engine holds it. -/
def cString (s : String) : CString := s.toUTF8.data.toList.map UInt8.toBitVec

theorem cString_channelIds_inj {idx idx' : ChannelIndex}
    (h : cString (channelIds idx) = cString (channelIds idx')) : idx = idx' := by
  revert idx idx'
  decide

/-- A click on one of a channel's buttons. The first one reads "Join" or "Leave", the
second "Talk" or "Stop TX", the third "Mute" or "Unmute". -/
inductive Click where
  | join (idx : ChannelIndex)
  | talk (idx : ChannelIndex)
  | mute (idx : ChannelIndex)
  deriving DecidableEq, Repr

variable {Frame : Type} {L : Library Frame}

structure Gui (L : Library Frame) where
  channelJoined : ChannelIndex → Bool
  transmitting : ChannelIndex → Bool
  channelMuted : ChannelIndex → Bool
  engine : Engine L
  /-- The WebSocket is open. -/
  ws : Bool

/-- What `sendWsText` puts on the wire. -/
def Gui.sends (g : Gui L) (msg : ClientMessage) : List ClientMessage := if g.ws then [msg] else []

/-- A button that is disabled cannot be clicked. -/
def Gui.enabled (g : Gui L) : Click → Bool
  | .join _ => true
  | .talk idx => g.channelJoined idx
  | .mute idx => g.channelJoined idx

def Gui.onJoin (g : Gui L) (idx : ChannelIndex) : Gui L × List ClientMessage :=
  if !g.channelJoined idx then
    if g.ws then
      ({ g with
          engine := (aeEngineJoinChannel g.engine (cString (channelIds idx))).1
          channelJoined := Function.update g.channelJoined idx true },
        g.sends (.joinChannel (channelIds idx)))
    else (g, [])
  else
    ({ g with
        engine := (aeEngineLeaveChannel g.engine (cString (channelIds idx))).1
        channelJoined := Function.update g.channelJoined idx false
        transmitting := Function.update g.transmitting idx false
        channelMuted := Function.update g.channelMuted idx false },
      g.sends (.leaveChannel (channelIds idx)))

def Gui.onTalk (g : Gui L) (idx : ChannelIndex) : Gui L × List ClientMessage :=
  if !g.transmitting idx then
    ({ g with
        engine := (aeEngineStartTransmit g.engine (cString (channelIds idx))).1
        transmitting := Function.update g.transmitting idx true },
      g.sends (.startTransmit (channelIds idx)))
  else
    ({ g with
        engine := (aeEngineStopTransmit g.engine (cString (channelIds idx))).1
        transmitting := Function.update g.transmitting idx false },
      g.sends (.stopTransmit (channelIds idx)))

def Gui.onMute (g : Gui L) (idx : ChannelIndex) : Gui L × List ClientMessage :=
  let muted := !g.channelMuted idx
  ({ g with
      channelMuted := Function.update g.channelMuted idx muted
      engine := (aeEngineSetChannelMuted g.engine (cString (channelIds idx)) muted).1 }, [])

/-- The window procedure, for the channel buttons. -/
def Gui.click (g : Gui L) (b : Click) : Gui L × List ClientMessage :=
  if !g.enabled b then (g, [])
  else
    match b with
    | .join idx => g.onJoin idx
    | .talk idx => g.onTalk idx
    | .mute idx => g.onMute idx

/-! ### The engine's part -/

section Engine
variable (e : Engine L) (channelId : CString)

theorem engine_join (hon : e.connected = true) :
    (aeEngineJoinChannel e channelId).1.connected = true ∧
      (aeEngineJoinChannel e channelId).1.channel.active = true ∧
      (aeEngineJoinChannel e channelId).1.channel.channelIdStr =
        channelId.take (channelIdStrSize - 1) ∧
      (e.transmitting = false → (aeEngineJoinChannel e channelId).1.transmitting = false) := by
  have hcontrol := control_joinChannel e channelId
  dsimp only [Control.after] at hcontrol
  rw [if_pos (show e.control.connected = true from hon)] at hcontrol
  rw [← control_connected, ← control_channel,
    ← control_transmitting (aeEngineJoinChannel e channelId).1, hcontrol]
  by_cases hact : e.control.channel.active = true
  · rw [if_pos hact]
    exact ⟨hon, rfl, rfl, fun _ => rfl⟩
  · rw [if_neg hact]
    exact ⟨hon, rfl, rfl, id⟩

theorem engine_leave : (aeEngineLeaveChannel e channelId).1.connected = e.connected ∧
    (aeEngineLeaveChannel e channelId).1.channel.active = false ∧
    (aeEngineLeaveChannel e channelId).1.transmitting = false := by
  rw [← control_connected, ← control_channel, ← control_transmitting, control_leaveChannel]
  exact ⟨rfl, rfl, rfl⟩

theorem engine_start (hact : e.channel.active = true) :
    (aeEngineStartTransmit e channelId).1 =
      { e with channel := { e.channel with transmitting := true }, transmitting := true } := by
  unfold aeEngineStartTransmit
  rw [if_neg (by simp [hact])]

end Engine

/-- The engine keeps the whole name. -/
theorem take_cString (idx : ChannelIndex) :
    (cString (channelIds idx)).take (channelIdStrSize - 1) = cString (channelIds idx) := by
  revert idx
  decide

/-! ### One channel at a time -/

/-- The window and the engine agree with each other: at most the channel `o` is shown as
joined, and the engine is in it. -/
structure Gui.On (g : Gui L) (o : Option ChannelIndex) : Prop where
  ws : g.ws = true
  connected : g.engine.connected = true
  joined : ∀ idx, g.channelJoined idx = decide (o = some idx)
  transmitting : ∀ idx, g.transmitting idx = (decide (o = some idx) && g.engine.transmitting)
  active : g.engine.channel.active = o.isSome
  name : ∀ idx, o = some idx → g.engine.channel.channelIdStr = cString (channelIds idx)
  silent : o = none → g.engine.transmitting = false

variable {g : Gui L} {o : Option ChannelIndex} {idx idx' : ChannelIndex}

theorem Gui.On.sends (h : g.On o) (msg : ClientMessage) : g.sends msg = [msg] := by
  unfold Gui.sends
  rw [if_pos h.ws]

/-- A join, first or not, as the code for a channel that is not shown as joined has it. -/
theorem Gui.On.click_join (h : g.On o) (hidx : o ≠ some idx) : g.click (.join idx) =
    ({ g with
        engine := (aeEngineJoinChannel g.engine (cString (channelIds idx))).1
        channelJoined := Function.update g.channelJoined idx true },
      [.joinChannel (channelIds idx)]) := by
  show (if !true then _ else g.onJoin idx) = _
  unfold Gui.onJoin
  rw [h.sends, h.joined idx, h.ws, decide_eq_false hidx]
  rfl

/-- The first join enters the channel. -/
theorem Gui.On.enters (h : g.On none) (idx : ChannelIndex) :
    (g.click (.join idx)).1.On (some idx) ∧ (g.click (.join idx)).1.engine.transmitting = false := by
  obtain ⟨hconnected, hactive, hname, htx⟩ :=
    engine_join g.engine (cString (channelIds idx)) h.connected
  rw [h.click_join (by simp)]
  refine ⟨⟨h.ws, hconnected, fun i => ?_, fun i => ?_, hactive, ?_, fun hn => by cases hn⟩,
    htx (h.silent rfl)⟩
  · show Function.update g.channelJoined idx true i = _
    rw [Function.update_apply, h.joined i]
    by_cases hi : i = idx
    · simp [hi]
    · simp [hi, Ne.symm hi]
  · show g.transmitting i = (_ && (aeEngineJoinChannel g.engine _).1.transmitting)
    rw [h.transmitting i, htx (h.silent rfl), Bool.and_false]
    rfl
  · intro i hi
    obtain rfl := Option.some.inj hi
    exact hname.trans (take_cString _)

/-- Leaving the channel that is shown as joined. -/
theorem Gui.On.leaves (h : g.On (some idx)) :
    (g.click (.join idx)).2 = [.leaveChannel (channelIds idx)] ∧
      (g.click (.join idx)).1.On none ∧ (g.click (.join idx)).1.engine.transmitting = false := by
  obtain ⟨hconnected, hactive, htx⟩ := engine_leave g.engine (cString (channelIds idx))
  have hclick : g.click (.join idx) =
      ({ g with
          engine := (aeEngineLeaveChannel g.engine (cString (channelIds idx))).1
          channelJoined := Function.update g.channelJoined idx false
          transmitting := Function.update g.transmitting idx false
          channelMuted := Function.update g.channelMuted idx false },
        [.leaveChannel (channelIds idx)]) := by
    show (if !true then _ else g.onJoin idx) = _
    unfold Gui.onJoin
    rw [h.sends (.leaveChannel _), h.joined idx, decide_eq_true rfl]
    rfl
  rw [hclick]
  refine ⟨rfl, ⟨h.ws, hconnected.trans h.connected, fun i => ?_, fun i => ?_, hactive, ?_,
    fun _ => htx⟩, htx⟩
  · show Function.update g.channelJoined idx false i = _
    rw [Function.update_apply, h.joined i]
    by_cases hi : i = idx
    · simp [hi]
    · simp [hi, Ne.symm hi]
  · show Function.update g.transmitting idx false i = _
    rw [Function.update_apply, h.transmitting i]
    by_cases hi : i = idx
    · simp [hi]
    · simp [hi, Ne.symm hi]
  · exact fun i hi => by cases hi

/-- "Talk" on the channel that is shown as joined. -/
theorem Gui.On.starts (h : g.On (some idx)) (htx : g.engine.transmitting = false) :
    (g.click (.talk idx)).2 = [.startTransmit (channelIds idx)] ∧
      (g.click (.talk idx)).1.On (some idx) ∧ (g.click (.talk idx)).1.engine.transmitting = true := by
  have hclick : g.click (.talk idx) =
      ({ g with
          engine := { g.engine with
            channel := { g.engine.channel with transmitting := true }
            transmitting := true }
          transmitting := Function.update g.transmitting idx true },
        [.startTransmit (channelIds idx)]) := by
    show (if !g.channelJoined idx then _ else g.onTalk idx) = _
    unfold Gui.onTalk
    rw [h.sends, h.joined idx, decide_eq_true rfl, h.transmitting idx, htx, Bool.and_false,
      engine_start _ _ h.active]
    rfl
  rw [hclick]
  refine ⟨rfl, ⟨h.ws, h.connected, h.joined, fun i => ?_, h.active, h.name, fun hn => by cases hn⟩,
    rfl⟩
  show Function.update g.transmitting idx true i = _
  rw [Function.update_apply, h.transmitting i]
  by_cases hi : i = idx
  · simp [hi]
  · simp [hi, Ne.symm hi]

/-- "Stop TX" on the channel that is shown as joined. -/
theorem Gui.On.stops (h : g.On (some idx)) (htx : g.engine.transmitting = true) :
    (g.click (.talk idx)).2 = [.stopTransmit (channelIds idx)] ∧
      (g.click (.talk idx)).1.On (some idx) ∧ (g.click (.talk idx)).1.engine.transmitting = false := by
  have hclick : g.click (.talk idx) =
      ({ g with
          engine := (aeEngineStopTransmit g.engine (cString (channelIds idx))).1
          transmitting := Function.update g.transmitting idx false },
        [.stopTransmit (channelIds idx)]) := by
    show (if !g.channelJoined idx then _ else g.onTalk idx) = _
    unfold Gui.onTalk
    rw [h.sends (.stopTransmit _), h.joined idx, decide_eq_true rfl, h.transmitting idx, htx,
      decide_eq_true rfl]
    rfl
  rw [hclick]
  refine ⟨rfl, ⟨h.ws, h.connected, h.joined, fun i => ?_, h.active, h.name, fun hn => by cases hn⟩,
    rfl⟩
  show Function.update g.transmitting idx false i = _
  rw [Function.update_apply, h.transmitting i]
  by_cases hi : i = idx
  · simp [hi, aeEngineStopTransmit]
  · simp [hi, Ne.symm hi]

/-- The other buttons of a channel that is not shown as joined are disabled. -/
theorem Gui.On.disabled (h : g.On o) (hidx : o ≠ some idx) :
    g.click (.talk idx) = (g, []) ∧ g.click (.mute idx) = (g, []) := by
  have hoff : g.channelJoined idx = false := by rw [h.joined idx, decide_eq_false hidx]
  constructor
  · show (if !g.channelJoined idx then _ else g.onTalk idx) = _
    rw [hoff]
    rfl
  · show (if !g.channelJoined idx then _ else g.onMute idx) = _
    rw [hoff]
    rfl

theorem Gui.On.mutes (h : g.On (some idx)) : (g.click (.mute idx)).2 = [] ∧
    (g.click (.mute idx)).1.On (some idx) ∧
    (g.click (.mute idx)).1.engine.transmitting = g.engine.transmitting := by
  have hclick : g.click (.mute idx) = g.onMute idx := by
    show (if !g.channelJoined idx then _ else g.onMute idx) = _
    rw [h.joined idx, decide_eq_true rfl]
    rfl
  rw [hclick]
  exact ⟨rfl, ⟨h.ws, h.connected, h.joined, h.transmitting, h.active, h.name, h.silent⟩, rfl⟩

end AudioPlatform.Windows
