import AudioPlatform.Core.Steps

/-! What moves the mixer and the measurement of the round trip.

The mixer is moved by its own volume and by the mix, the measurement by pings and pongs; all
else in the engine goes by without them. -/
namespace AudioPlatform.Core
open Concurrency

variable {Frame : Type} {L : Library Frame}

/-- The mixer, the round trip as it was last measured, when the ping that measures it was sent, and
when a ping was last due. -/
structure Gauges where
  mixer : Mixer
  rttMs : ℚ
  pingSendTimeMs : BitVec 64
  lastPingMs : BitVec 64

def Engine.gauges (e : Engine L) : Gauges := ⟨e.mixer, e.rttMs, e.pingSendTimeMs, e.lastPingMs⟩

@[simp] theorem gauges_mixer (e : Engine L) : e.gauges.mixer = e.mixer := rfl

@[simp] theorem gauges_rttMs (e : Engine L) : e.gauges.rttMs = e.rttMs := rfl

@[simp] theorem gauges_pingSendTimeMs (e : Engine L) : e.gauges.pingSendTimeMs = e.pingSendTimeMs :=
  rfl

@[simp] theorem gauges_lastPingMs (e : Engine L) : e.gauges.lastPingMs = e.lastPingMs := rfl

theorem SameButStreams.gauges {e e' : Engine L} (h : SameButStreams e e') : e'.gauges = e.gauges := by
  obtain ⟨_, _, _, rfl⟩ := h
  rfl

theorem gauges_leaveChannel (e : Engine L) (channelId : CString) :
    (aeEngineLeaveChannel e channelId).1.gauges = e.gauges :=
  (sameButStreams_leaveChannel e channelId).gauges

/-- Of the commands, one turns the mixer. -/
def Call.turned : Call Frame → Mixer → Mixer
  | .setMasterVolume volume, mixer => aeMixerSetMasterVolume mixer (clampVolume volume)
  | _, mixer => mixer

/-- Connecting sets the clock of the pings. -/
theorem gauges_command (e : Engine L) {c : Call Frame} (hc : c.tick = none) : ∃ lastPingMs,
    (e.call c).1.gauges = { e.gauges with mixer := c.turned e.mixer, lastPingMs := lastPingMs } := by
  cases c with
  | process t => cases hc
  | connect outcome now =>
    show ∃ lastPingMs, (aeEngineConnect e outcome now).1.gauges = _
    unfold aeEngineConnect
    dsimp only
    split
    · exact ⟨e.lastPingMs, rfl⟩
    · exact ⟨now, rfl⟩
  | joinChannel channelId =>
    show ∃ lastPingMs, (aeEngineJoinChannel e channelId).1.gauges = _
    have henter : ∀ r : Engine L, (enterChannel r channelId).gauges = r.gauges := fun _ => rfl
    unfold aeEngineJoinChannel
    dsimp only
    split
    · exact ⟨e.lastPingMs, rfl⟩
    · rw [henter]
      split
      · exact ⟨e.lastPingMs, gauges_leaveChannel e e.channel.channelIdStr⟩
      · exact ⟨e.lastPingMs, rfl⟩
  | leaveChannel channelId => exact ⟨e.lastPingMs, gauges_leaveChannel e channelId⟩
  | leaveAllChannels =>
    show ∃ lastPingMs, (aeEngineLeaveAllChannels e).gauges = _
    unfold aeEngineLeaveAllChannels
    split
    · exact ⟨e.lastPingMs, gauges_leaveChannel e e.channel.channelIdStr⟩
    · exact ⟨e.lastPingMs, rfl⟩
  | startTransmit channelId =>
    show ∃ lastPingMs, (aeEngineStartTransmit e channelId).1.gauges = _
    unfold aeEngineStartTransmit
    split <;> exact ⟨e.lastPingMs, rfl⟩
  | writeCapture samples =>
    show ∃ lastPingMs, (aeEngineWriteCapture e samples).1.gauges = _
    unfold aeEngineWriteCapture
    split <;> exact ⟨e.lastPingMs, rfl⟩
  | _ => exact ⟨e.lastPingMs, rfl⟩

theorem gauges_transmit (e : Engine L) : (transmit e).1.gauges = e.gauges := by
  rcases transmit_outcomes e with h | ⟨-, h⟩ | ⟨-, _, _, -, h⟩ <;> rw [h] <;> rfl

theorem gauges_keepalive (e : Engine L) (now : BitVec 64) : (keepalive e now).1.gauges = e.gauges := by
  unfold keepalive
  dsimp only
  split <;> rfl

theorem gauges_acceptAudio (e : Engine L) (i : StreamIndex) (hdr : RtpHeader) (data : List Byte)
    (now : BitVec 64) : (acceptAudio e i hdr data now).1.gauges = e.gauges := by
  unfold acceptAudio
  dsimp only
  split <;> rfl

/-! ### Datagrams -/

def isPong (data : List Byte) : Bool :=
  (packetHeader data).any fun hdr => hdr.packetType = aeRtpTypePong

theorem receive_pong (e : Engine L) {a : Arrival} (h : isPong a.data = true) :
    receive e a = (handlePong (e.holding a) a.now, []) := by
  obtain ⟨hdr, hhdr, hpong⟩ := (Option.any_eq_true _ _).mp h
  show (handlePacket (e.holding a) a).value (a.memory e.recvBuf) = _
  unfold handlePacket
  rw [Reading.value_bind, Arrival.memory, value_parseHeader_overlay, hhdr]
  dsimp only
  rw [if_pos (of_decide_eq_true hpong)]
  rfl

/-- Of the datagrams, only pongs end a measurement. -/
theorem gauges_receive (e : Engine L) {a : Arrival} (h : isPong a.data = false) :
    (receive e a).1.gauges = e.gauges := by
  have hhold : (e.holding a).gauges = e.gauges := rfl
  rw [← hhold]
  show ((handlePacket (e.holding a) a).value (a.memory e.recvBuf)).1.gauges = _
  unfold handlePacket
  rw [Reading.value_bind, Arrival.memory, value_parseHeader_overlay]
  unfold isPong at h
  cases hhdr : packetHeader a.data with
  | none => rfl
  | some hdr =>
    rw [hhdr, Option.any_some, decide_eq_false_iff_not] at h
    dsimp only
    rw [if_neg h]
    split
    · rfl
    · split
      · rcases handleAudio_cases (e.holding a) a hdr (a.memory e.recvBuf) with
          hdrop | ⟨e', i, data, hs, -, -, -, -, haccept⟩
        · exact (congrArg (fun x => x.1.gauges) hdrop).trans (sameButStreams_dropping _ a hdr).gauges
        · have hsame : SameButStreams (e.holding a) (streamFor (e.holding a) hdr.clientId a.alloc).1 :=
            sameButStreams_streamFor
          rw [hs] at hsame
          exact (congrArg (fun x => x.1.gauges) haccept).trans
            ((gauges_acceptAudio e' i hdr data a.now).trans hsame.gauges)
      · rfl

/-! ### Mixing -/

theorem gauges_destroyStream (e : Engine L) (i : StreamIndex) :
    (destroyStream e i).gauges = e.gauges := (sameButStreams_destroyStream e i).gauges

theorem gauges_mixStream (nowMix : BitVec 64) (m : Mixing L) (i : StreamIndex) :
    (mixStream nowMix m i).engine.gauges = m.engine.gauges := by
  unfold mixStream
  dsimp only
  split
  · rfl
  · rfl
  · split
    · exact gauges_destroyStream m.engine i
    · split
      · rfl
      · split
        · rfl
        · split
          · rfl
          · split <;> rfl

/-- The mix loop, before the frames are mixed. -/
def Engine.mixLoop (e : Engine L) (nowMix : BitVec 64) : Mixing L :=
  (List.finRange aeMaxUsersPerCh).foldl (mixStream nowMix) ⟨e, []⟩

theorem gauges_mixLoop (e : Engine L) (nowMix : BitVec 64) :
    (e.mixLoop nowMix).engine.gauges = e.gauges := by
  unfold Engine.mixLoop
  exact foldl_mixStream (P := fun r => r.gauges = e.gauges)
    (fun m i hm => (gauges_mixStream nowMix m i).trans hm) (m := ⟨e, []⟩) rfl _

theorem aeMixerMix_nil (softLimit : ℚ → ℚ) (mixer : Mixer) (volumes : Option (Nat → ℚ)) :
    aeMixerMix softLimit mixer [] volumes = (mixer, fun _ => 0) := rfl

/-- The mixer mixes what the loop has chosen. -/
theorem gauges_mix (isConnected : Bool) (e : Engine L) (nowMix : BitVec 64) :
    (mix isConnected e nowMix).gauges =
      { e.gauges with mixer := (aeMixerMix L.tanhf e.mixer
          ((List.range (e.mixLoop nowMix).count).map fun k =>
            some ((e.mixLoop nowMix).engine.streamFrames k))
          (some fun k => (e.mixLoop nowMix).volumes.getD k 0)).1 } := by
  have hloop := gauges_mixLoop e nowMix
  unfold mix
  rw [← Engine.mixLoop]
  generalize e.mixLoop nowMix = m at hloop ⊢
  have hmixer : m.engine.mixer = e.mixer := congrArg Gauges.mixer hloop
  rw [← hloop, ← hmixer]
  dsimp only
  split
  · rfl
  · rename_i hnone
    rw [Nat.eq_zero_of_not_pos hnone, List.range_zero, List.map_nil, aeMixerMix_nil]
    split <;> rfl

end AudioPlatform.Core
