import AudioPlatform.Concurrency.Timer
import AudioPlatform.Core.Connection
import AudioPlatform.Core.Playback
import AudioPlatform.Core.RoundTrip

/-! Keepalives and pings.

A tick sends each of them when its interval has passed. A connect sends a keepalive of its own, and
both intervals begin with it. The socket may refuse them: a connect that fails closes it, and leaves an
engine that was connected as it is. -/
namespace AudioPlatform.Core
open Concurrency Timer

variable {Frame : Type} {L : Library Frame}

/-- The clock that a call reads first. -/
def Call.reading : Call Frame → Option (BitVec 64)
  | .connect _ now => some now
  | .process t => some t.now
  | _ => none

/-- A packet of this type is handed to the socket, whether or not it is open. -/
def Action.isOf (type : Byte) : Action Frame → Bool
  | .send packet _ => (packetHeader packet).any fun hdr => hdr.packetType == type
  | _ => false

/-- A packet of this type is sent: the socket is open. -/
def Action.isSent (type : Byte) : Action Frame → Bool
  | .send packet true => (packetHeader packet).any fun hdr => hdr.packetType == type
  | _ => false

/-- The call does such a thing; it is due if a tick does it. -/
def Engine.beats (does : Action Frame → Bool) (e : Engine L) (c : Call Frame) : List (Beat 64) :=
  if (e.call c).2.any does then (c.reading.map fun now => ⟨now, c.tick.isSome⟩).toList else []

/-! ### What sets the timers -/

/-- When a keepalive and a ping were last sent. -/
def Engine.timers (e : Engine L) : BitVec 64 × BitVec 64 := (e.lastKeepaliveMs, e.lastPingMs)

theorem SameButStreams.timers {e e' : Engine L} (h : SameButStreams e e') : e'.timers = e.timers := by
  obtain ⟨_, _, _, rfl⟩ := h
  rfl

theorem timers_transmit (e : Engine L) : (transmit e).1.timers = e.timers := by
  rcases transmit_outcomes e with h | ⟨-, h⟩ | ⟨-, _, _, -, h⟩ <;> rw [h] <;> rfl

theorem timers_receive (e : Engine L) (a : Arrival) : (receive e a).1.timers = e.timers := by
  have hpong : ∀ (e : Engine L) now, (handlePong e now).timers = e.timers := by
    intro e now
    unfold handlePong
    split <;> rfl
  have haccept : ∀ (e : Engine L) i hdr data now, (acceptAudio e i hdr data now).1.timers = e.timers := by
    intro e i hdr data now
    unfold acceptAudio
    dsimp only
    split <;> rfl
  rcases receive_outcomes e a with (h | h) | ⟨hdr, -, -, -, h⟩ | ⟨hdr, data, e', i, -, hs, h⟩
  · rw [h]
    rfl
  · rw [h]
    exact hpong ..
  · rw [h]
    exact (sameButStreams_dropping _ a hdr).timers
  · have hsame : (streamFor (e.holding a) hdr.clientId a.alloc).1.timers = e.timers :=
      sameButStreams_streamFor.timers
    rw [hs] at hsame
    rw [h]
    exact (haccept ..).trans hsame

theorem timers_receiveLoop (n : Nat) (arrivals : List Arrival) (e : Engine L) :
    (receiveLoop n arrivals e).1.timers = e.timers := by
  induction n generalizing arrivals e with
  | zero => rfl
  | succ n ih =>
    cases arrivals with
    | nil => rfl
    | cons a rest =>
      unfold receiveLoop
      split
      · rfl
      · exact (ih rest _).trans (timers_receive e a)

theorem timers_mixStream (nowMix : BitVec 64) (m : Mixing L) (i : StreamIndex) :
    (mixStream nowMix m i).engine.timers = m.engine.timers := by
  unfold mixStream
  dsimp only
  split
  · rfl
  · rfl
  · split
    · unfold destroyStream
      split <;> rfl
    · split
      · rfl
      · split
        · rfl
        · split
          · rfl
          · split <;> rfl

theorem timers_mix (isConnected : Bool) (e : Engine L) (nowMix : BitVec 64) :
    (mix isConnected e nowMix).timers = e.timers := by
  obtain ⟨_, _, h⟩ := mix_eq isConnected e nowMix
  have hloop := foldl_mixStream (P := fun r => r.timers = e.timers)
    (fun m i hm => (timers_mixStream nowMix m i).trans hm) (m := ⟨e, []⟩) rfl
    (List.finRange aeMaxUsersPerCh)
  generalize (List.finRange aeMaxUsersPerCh).foldl (mixStream nowMix) ⟨e, []⟩ = m at h hloop
  rw [h]
  exact hloop

/-- Nothing but a tick and a connect sets a timer or sends anything. -/
theorem timers_call (e : Engine L) {c : Call Frame} (hc : c.reading = none) :
    (e.call c).1.timers = e.timers ∧ (e.call c).2 = [] := by
  cases c with
  | connect outcome now => cases hc
  | process t => cases hc
  | joinChannel channelId =>
    have henter : ∀ r : Engine L, (enterChannel r channelId).timers = r.timers := fun _ => rfl
    refine ⟨?_, rfl⟩
    show (aeEngineJoinChannel e channelId).1.timers = _
    unfold aeEngineJoinChannel
    dsimp only
    split
    · rfl
    · rw [henter]
      split
      · exact (sameButStreams_leaveChannel e _).timers
      · rfl
  | leaveChannel channelId => exact ⟨(sameButStreams_leaveChannel e channelId).timers, rfl⟩
  | leaveAllChannels =>
    refine ⟨?_, rfl⟩
    show (aeEngineLeaveAllChannels e).timers = _
    unfold aeEngineLeaveAllChannels
    split
    · exact (sameButStreams_leaveChannel e _).timers
    · rfl
  | startTransmit channelId =>
    refine ⟨?_, rfl⟩
    show (aeEngineStartTransmit e channelId).1.timers = _
    unfold aeEngineStartTransmit
    split <;> rfl
  | writeCapture samples =>
    refine ⟨?_, rfl⟩
    show (aeEngineWriteCapture e samples).1.timers = _
    unfold aeEngineWriteCapture
    split <;> rfl
  | _ => exact ⟨rfl, rfl⟩

/-! ### What is sent -/

theorem isOf_send {hdr : RtpHeader} (type : Byte) (payload : List Byte) (sock : Bool) :
    (Action.send (serializeHeader hdr ++ payload) sock : Action Frame).isOf type = (hdr.packetType == type) := by
  simp only [Action.isOf, packetHeader_serialize, Option.any_some]

theorem isSent_send {hdr : RtpHeader} (type : Byte) (payload : List Byte) :
    (Action.send (serializeHeader hdr ++ payload) true : Action Frame).isSent type = (hdr.packetType == type) := by
  simp only [Action.isSent, packetHeader_serialize, Option.any_some]

theorem keepalive_cases (e : Engine L) (now : BitVec 64) :
    ¬ keepaliveIntervalMs ≤ now - e.lastKeepaliveMs ∧ keepalive e now = (e, []) ∨
    keepaliveIntervalMs ≤ now - e.lastKeepaliveMs ∧ ∃ hdr, hdr.packetType = aeRtpTypeKeepalive ∧
      keepalive e now =
        ({ e with lastKeepaliveMs := now }, [.send (serializeHeader hdr ++ []) e.network.sock]) := by
  have hbuild : ∀ channelId, aeRtpBuildKeepalive e.serverId channelId e.clientId aeRtpHeaderSize =
      some (serializeHeader ⟨e.serverId, channelId, e.clientId, aeRtpTypeKeepalive, 0, 0⟩ ++ []) := by
    intro channelId
    unfold aeRtpBuildKeepalive
    rw [aeRtpBuildPacket_eq_some]
    exact ⟨by decide, by decide, rfl⟩
  unfold keepalive
  dsimp only
  rw [hbuild]
  split
  · rename_i hdue
    refine .inr ⟨hdue, ⟨e.serverId, if e.channel.active then e.channel.channelIdNum else 0, e.clientId,
      aeRtpTypeKeepalive, 0, 0⟩, rfl, ?_⟩
    unfold aeNetSend
    dsimp only
    rw [if_neg (by simp [serializeHeader, writeU32Be, BigEndian.toBytes])]
  · rename_i hdue
    exact .inl ⟨hdue, rfl⟩

/-- What is sent of the audio is audio. -/
theorem transmit_isOf {type : Byte} (ht : type ≠ aeRtpTypeAudio) (e : Engine L) :
    (transmit e).2.any (Action.isOf type) = false := by
  rcases transmit_outcomes e with h | ⟨-, h⟩ | ⟨-, payload, packet, hp, h⟩
  · rw [h]
    rfl
  · rw [h]
    rfl
  · obtain ⟨encrypted, -, -, rfl⟩ := audioPacket_eq_some.mp hp
    rw [h, List.any_cons, List.any_eq_false.mpr fun act hact => ?_]
    · rfl
    · obtain rfl := mem_aeNetSend hact
      rw [isOf_send]
      simpa using fun h => ht h.symm

theorem receiveLoop_isOf (type : Byte) (n : Nat) (arrivals : List Arrival) (e : Engine L) :
    (receiveLoop n arrivals e).2.any (Action.isOf type) = false := by
  refine List.any_eq_false.mpr fun act hact => ?_
  obtain ⟨e', a, -, hact⟩ := mem_receiveLoop.mp hact
  cases act with
  | send packet sock => exact absurd (mem_receive hact).1 id
  | _ => exact Bool.false_ne_true

theorem ping_keepalive (e : Engine L) (now : BitVec 64) : (ping e now).1.lastKeepaliveMs = e.lastKeepaliveMs := by
  rcases ping_cases e now with ⟨-, h⟩ | ⟨-, _, -, h⟩ <;> rw [h]

theorem keepalive_ping (e : Engine L) (now : BitVec 64) : (keepalive e now).1.lastPingMs = e.lastPingMs := by
  rcases keepalive_cases e now with ⟨-, h⟩ | ⟨-, _, -, h⟩ <;> rw [h]

/-- Neither of them is taken for the other. -/
theorem keepalive_isOf {type : Byte} (ht : type ≠ aeRtpTypeKeepalive) (e : Engine L) (now : BitVec 64) :
    (keepalive e now).2.any (Action.isOf type) = false := by
  rcases keepalive_cases e now with ⟨-, h⟩ | ⟨-, hdr, htype, h⟩
  · rw [h]
    rfl
  · rw [h, List.any_cons, isOf_send, htype]
    simpa using fun h => ht h.symm

theorem ping_isOf {type : Byte} (ht : type ≠ aeRtpTypePing) (e : Engine L) (now : BitVec 64) :
    (ping e now).2.any (Action.isOf type) = false := by
  rcases ping_cases e now with ⟨-, h⟩ | ⟨-, packet, hping, h⟩
  · rw [h]
    rfl
  · obtain ⟨serverId, clientId, rfl⟩ := isPing_iff.mp hping
    rw [h, List.any_cons, isOf_send]
    simpa using fun h => ht h.symm

/-- The engine as a tick comes to the timers. -/
def Engine.received (e : Engine L) (t : Tick) : Engine L :=
  (receiveLoop maxRecvPerTick t.arrivals (transmit e).1).1

theorem timers_received (e : Engine L) (t : Tick) : (e.received t).timers = e.timers :=
  (timers_receiveLoop ..).trans (timers_transmit e)

theorem network_received (e : Engine L) (t : Tick) : (e.received t).network = e.network := by
  obtain ⟨_, _, _, htransmit⟩ := control_transmit e
  have hcontrol : (e.received t).control = (transmit e).1.control := control_receiveLoop ..
  rw [htransmit] at hcontrol
  exact congrArg Control.network hcontrol

theorem timers_process {e : Engine L} (hon : e.connected = true) (t : Tick) :
    (aeEngineProcess e t).1.timers = (ping (keepalive (e.received t) t.now).1 t.now).1.timers := by
  rw [process_eq, timers_mix]
  unfold Engine.toMix
  rw [if_pos hon]
  rfl

theorem timers_process_off {e : Engine L} (hoff : e.connected = false) (t : Tick) :
    (aeEngineProcess e t).1.timers = e.timers ∧ (aeEngineProcess e t).2 = [] := by
  constructor
  · rw [process_eq, timers_mix]
    unfold Engine.toMix
    rw [if_neg (by simp [hoff])]
  · unfold aeEngineProcess
    rw [if_neg (by simp [hoff])]

theorem process_isOf {type : Byte} (ht : type ≠ aeRtpTypeAudio) {e : Engine L} (hon : e.connected = true)
    (t : Tick) : (aeEngineProcess e t).2.any (Action.isOf type) =
      ((keepalive (e.received t) t.now).2.any (Action.isOf type) ||
        (ping (keepalive (e.received t) t.now).1 t.now).2.any (Action.isOf type)) := by
  unfold aeEngineProcess
  rw [if_pos hon]
  show ((_ ++ _ ++ _ ++ _ : List (Action Frame))).any _ = _
  rw [List.any_append, List.any_append, List.any_append, transmit_isOf ht, receiveLoop_isOf]
  rfl

/-- A tick of an engine that does not transmit sends no audio. -/
theorem silent_process {e : Engine L} (hoff : e.transmitting = false) (t : Tick) :
    (aeEngineProcess e t).2.any (Action.isOf aeRtpTypeAudio) = false := by
  cases hon : e.connected with
  | false =>
    rw [(timers_process_off hon t).2]
    rfl
  | true =>
    unfold aeEngineProcess
    rw [if_pos hon, transmit_silent hoff]
    show ((_ ++ _ ++ _ ++ _ : List (Action Frame))).any _ = _
    rw [List.any_append, List.any_append, List.any_append, receiveLoop_isOf, keepalive_isOf (by decide),
      ping_isOf (by decide)]
    rfl

/-! ### Two timers -/

section Beats
variable {does : Action Frame → Bool} {e : Engine L}

theorem beats_process (does : Action Frame → Bool) (e : Engine L) (t : Tick) : e.beats does (.process t) =
    if (aeEngineProcess e t).2.any does then [⟨t.now, true⟩] else [] := rfl

theorem beats_none {c : Call Frame} (h : (e.call c).2 = []) : e.beats does c = [] := by
  unfold Engine.beats
  rw [h]
  rfl

theorem mem_beats {c : Call Frame} {act : Action Frame} {now : BitVec 64} (hact : act ∈ (e.call c).2)
    (hdoes : does act = true) (hreading : c.reading = some now) : ⟨now, c.tick.isSome⟩ ∈ e.beats does c := by
  unfold Engine.beats
  rw [if_pos (List.any_eq_true.mpr ⟨act, hact, hdoes⟩), hreading]
  exact List.mem_singleton_self _

end Beats

/-- A connect that fails leaves no socket. One that succeeds sends a keepalive, and sets both timers. -/
theorem connect_cases (e : Engine L) (outcome : NetOutcome) (now : BitVec 64) :
    ((aeEngineConnect e outcome now).1.timers = e.timers ∧
      (aeEngineConnect e outcome now).1.network.sock = false ∧ (aeEngineConnect e outcome now).2.2 = []) ∨
    ((aeEngineConnect e outcome now).1.timers = (now, now) ∧ ∃ hdr, hdr.packetType = aeRtpTypeKeepalive ∧
      (aeEngineConnect e outcome now).2.2 = [.send (serializeHeader hdr ++ []) true]) := by
  have hbuild : aeRtpBuildKeepalive e.serverId 0 e.clientId aeRtpHeaderSize =
      some (serializeHeader ⟨e.serverId, 0, e.clientId, aeRtpTypeKeepalive, 0, 0⟩ ++ []) := by
    unfold aeRtpBuildKeepalive
    rw [aeRtpBuildPacket_eq_some]
    exact ⟨by decide, by decide, rfl⟩
  unfold aeEngineConnect
  dsimp only
  rcases aeNetConnect_cases e.network outcome with ⟨-, hnet⟩ | ⟨-, hsock, hok⟩
  · rw [hnet, hbuild]
    exact .inr ⟨rfl, ⟨e.serverId, 0, e.clientId, aeRtpTypeKeepalive, 0, 0⟩, rfl, rfl⟩
  · rw [hok]
    exact .inl ⟨rfl, hsock, rfl⟩

/-- An engine that does not transmit sends no audio, whatever is called. -/
theorem silent_call {e : Engine L} (hoff : e.transmitting = false) (c : Call Frame) :
    (e.call c).2.any (Action.isOf aeRtpTypeAudio) = false := by
  cases c with
  | connect outcome now =>
    show (aeEngineConnect e outcome now).2.2.any _ = false
    obtain ⟨-, -, hsent⟩ | ⟨-, hdr, htype, hsent⟩ := connect_cases e outcome now
    · rw [hsent]
      rfl
    · rw [hsent, List.any_cons, isOf_send, htype]
      rfl
  | process t => exact silent_process hoff t
  | _ => rfl

theorem keepalive_process {e : Engine L} (hon : e.connected = true) (t : Tick) :
    (aeEngineProcess e t).1.lastKeepaliveMs = (keepalive (e.received t) t.now).1.lastKeepaliveMs ∧
      (aeEngineProcess e t).2.any (Action.isOf aeRtpTypeKeepalive) =
        (keepalive (e.received t) t.now).2.any (Action.isOf aeRtpTypeKeepalive) := by
  constructor
  · exact (congrArg Prod.fst (timers_process hon t)).trans (ping_keepalive ..)
  · rw [process_isOf (by decide) hon, ping_isOf (by decide), Bool.or_false]

/-- A tick of a connected engine sends a keepalive, or it is not yet time. -/
theorem process_keeps {e : Engine L} (hon : e.connected = true) (t : Tick) :
    ¬ keepaliveIntervalMs ≤ t.now - e.lastKeepaliveMs ∧
        (aeEngineProcess e t).1.lastKeepaliveMs = e.lastKeepaliveMs ∧
        e.beats (Action.isOf aeRtpTypeKeepalive) (.process t) = [] ∨
    keepaliveIntervalMs ≤ t.now - e.lastKeepaliveMs ∧ (aeEngineProcess e t).1.lastKeepaliveMs = t.now ∧
        e.beats (Action.isOf aeRtpTypeKeepalive) (.process t) = [⟨t.now, true⟩] := by
  obtain ⟨hlast, hsent⟩ := keepalive_process hon t
  have hbefore : (e.received t).lastKeepaliveMs = e.lastKeepaliveMs := congrArg Prod.fst (timers_received e t)
  rw [beats_process, hlast, hsent]
  rcases keepalive_cases (e.received t) t.now with ⟨hdue, h⟩ | ⟨hdue, hdr, htype, h⟩
  · rw [hbefore] at hdue
    rw [h]
    exact .inl ⟨hdue, hbefore, rfl⟩
  · rw [hbefore] at hdue
    rw [h, if_pos (by rw [List.any_cons, isOf_send, htype]; rfl)]
    exact .inr ⟨hdue, rfl, rfl⟩

/-- Where the socket is open, the keepalive of a tick is sent. -/
theorem process_isSent {e : Engine L} (hon : e.connected = true) (hsock : e.network.sock = true) {t : Tick}
    (hdue : keepaliveIntervalMs ≤ t.now - e.lastKeepaliveMs) :
    ∃ act ∈ (aeEngineProcess e t).2, act.isSent aeRtpTypeKeepalive = true := by
  have hbefore : (e.received t).lastKeepaliveMs = e.lastKeepaliveMs := congrArg Prod.fst (timers_received e t)
  rcases keepalive_cases (e.received t) t.now with ⟨hnot, -⟩ | ⟨-, hdr, htype, h⟩
  · rw [hbefore] at hnot
    exact absurd hdue hnot
  · refine ⟨.send (serializeHeader hdr ++ []) true, ?_, by rw [isSent_send, htype]; rfl⟩
    have hkeepalive : Action.send (serializeHeader hdr ++ []) true ∈ (keepalive (e.received t) t.now).2 := by
      rw [h, network_received, hsock]
      exact List.mem_singleton_self _
    unfold aeEngineProcess
    rw [if_pos hon]
    exact List.mem_append_left _ (List.mem_append_right _ hkeepalive)

/-- Either timer, of what it does in a connected tick. -/
theorem turns_call {type : Byte} {period : BitVec 64} (timer : BitVec 64 × BitVec 64 → BitVec 64)
    (htimer : ∀ now, timer (now, now) = now) (e : Engine L) (c : Call Frame)
    (hprocess : ∀ t, e.connected = true → Turns period (timer e.timers) (timer (aeEngineProcess e t).1.timers)
      (some t.now) (e.beats (Action.isOf type) (.process t))) :
    Turns period (timer e.timers) (timer (e.call c).1.timers) c.reading (e.beats (Action.isOf type) c) := by
  have hrest : (e.call c).1.timers = e.timers → (e.call c).2 = [] →
      Turns period (timer e.timers) (timer (e.call c).1.timers) c.reading (e.beats (Action.isOf type) c) := by
    intro htimers hnone
    rw [beats_none hnone, htimers]
    exact .rest _
  cases hc : c.reading with
  | none =>
    rw [← hc]
    exact hrest (timers_call e hc).1 (timers_call e hc).2
  | some now =>
    rw [← hc]
    cases c with
    | connect outcome now =>
      rcases connect_cases e outcome now with ⟨h, -, hnone⟩ | ⟨h, -⟩
      · exact hrest h hnone
      · have hlast : timer (e.call (.connect outcome now)).1.timers = now := (congrArg timer h).trans (htimer now)
        rw [hlast]
        unfold Engine.beats
        split
        · exact .start now
        · exact .set now
    | process t =>
      cases hon : e.connected with
      | false => exact hrest (timers_process_off hon t).1 (timers_process_off hon t).2
      | true => exact hprocess t hon
    | _ => cases hc

theorem turns_keepalive (e : Engine L) (c : Call Frame) :
    Turns keepaliveIntervalMs e.lastKeepaliveMs (e.call c).1.lastKeepaliveMs c.reading
      (e.beats (Action.isOf aeRtpTypeKeepalive) c) := by
  refine turns_call Prod.fst (fun _ => rfl) e c fun t hon => ?_
  rcases process_keeps hon t with ⟨-, hlast, hbeat⟩ | ⟨hdue, hlast, hbeat⟩
  · rw [hbeat, show (aeEngineProcess e t).1.timers.1 = e.timers.1 from hlast]
    exact .rest _
  · rw [hbeat, show (aeEngineProcess e t).1.timers.1 = t.now from hlast]
    exact .beat t.now hdue

theorem turns_ping (e : Engine L) (c : Call Frame) :
    Turns pingIntervalMs e.lastPingMs (e.call c).1.lastPingMs c.reading
      (e.beats (Action.isOf aeRtpTypePing) c) := by
  refine turns_call Prod.snd (fun _ => rfl) e c fun t hon => ?_
  have hlast : (aeEngineProcess e t).1.timers.2 =
      (ping (keepalive (e.received t) t.now).1 t.now).1.lastPingMs :=
    congrArg Prod.snd (timers_process hon t)
  have hbefore : (keepalive (e.received t) t.now).1.lastPingMs = e.timers.2 :=
    (keepalive_ping ..).trans (congrArg Prod.snd (timers_received e t))
  rw [beats_process, process_isOf (by decide) hon, keepalive_isOf (by decide), Bool.false_or, hlast, ← hbefore]
  rcases ping_cases (keepalive (e.received t) t.now).1 t.now with ⟨-, h⟩ | ⟨hdue, packet, hping, h⟩
  · rw [h]
    exact .rest _
  · obtain ⟨serverId, clientId, rfl⟩ := isPing_iff.mp hping
    rw [h, if_pos (by rw [List.any_cons, isOf_send]; rfl)]
    exact .beat t.now hdue

/-! ### How far apart, and how late -/

/-- A connected engine with an open socket has sent a keepalive when its timer says so. -/
def Kept (e : Engine L) (sent : List (Beat 64)) : Prop :=
  e.connected = true → e.network.sock = true → ∃ k ∈ sent, k.time = e.lastKeepaliveMs

theorem Kept.call {e : Engine L} {sent : List (Beat 64)} (h : Kept e sent) (c : Call Frame) :
    Kept (e.call c).1 (sent ++ e.beats (Action.isSent aeRtpTypeKeepalive) c) := by
  have hstays : (e.call c).1.connected = e.connected → (e.call c).1.network = e.network →
      (e.call c).1.lastKeepaliveMs = e.lastKeepaliveMs →
      Kept (e.call c).1 (sent ++ e.beats (Action.isSent aeRtpTypeKeepalive) c) := by
    intro hconnected hnetwork hlast hon hsock
    rw [hconnected] at hon
    rw [hnetwork] at hsock
    obtain ⟨k, hk, htime⟩ := h hon hsock
    exact ⟨k, List.mem_append_left _ hk, htime.trans hlast.symm⟩
  have hrest : c.reading = none → ¬ c.Links →
      Kept (e.call c).1 (sent ++ e.beats (Action.isSent aeRtpTypeKeepalive) c) :=
    fun hreading hlinks => hstays (connection_call e hlinks).1 (connection_call e hlinks).2
      (congrArg Prod.fst (timers_call e hreading).1)
  cases c with
  | connect outcome now =>
    rcases connect_cases e outcome now with ⟨-, hsock, -⟩ | ⟨htimers, hdr, htype, hsent⟩
    · exact fun _ hopen => absurd (hsock.symm.trans hopen) Bool.false_ne_true
    · have hmem : Action.send (serializeHeader hdr ++ []) true ∈ (e.call (.connect outcome now)).2 := by
        show _ ∈ (aeEngineConnect e outcome now).2.2
        rw [hsent]
        exact List.mem_singleton_self _
      exact fun _ _ => ⟨⟨now, false⟩, List.mem_append_right _
        (mem_beats hmem (by rw [isSent_send, htype]; rfl) rfl), (congrArg Prod.fst htimers).symm⟩
  | disconnect => exact fun hon => absurd hon Bool.false_ne_true
  | process t =>
    obtain ⟨hconnected, hnetwork⟩ := connection_call e (c := .process t) id
    intro hon hsock
    have hbefore : e.connected = true ∧ e.network.sock = true := by
      rw [← hconnected, ← hnetwork]
      exact ⟨hon, hsock⟩
    rcases process_keeps hbefore.1 t with ⟨-, hlast, -⟩ | ⟨hdue, hlast, -⟩
    · exact hstays hconnected hnetwork hlast hon hsock
    · obtain ⟨act, hact, hsent⟩ := process_isSent hbefore.1 hbefore.2 hdue
      exact ⟨⟨t.now, true⟩, List.mem_append_right _ (mem_beats hact hsent rfl), hlast.symm⟩
  | _ => exact hrest rfl id

/-- The keepalives of a run keep time with its ticks. -/
theorem Kept.run {e : Engine L} {sent : List (Beat 64)} (h : Kept e sent) (calls : List (Call Frame)) :
    Kept (Machine.run Engine.call e calls)
      (sent ++ Machine.collect Engine.call (Engine.beats (Action.isSent aeRtpTypeKeepalive)) e calls) := by
  induction calls generalizing e sent with
  | nil =>
    show Kept e (sent ++ [])
    rwa [List.append_nil]
  | cons c rest ih =>
    have hrest := ih (h.call c)
    rwa [List.append_assoc] at hrest

/-- No ping but a tick's. -/
theorem beats_ping (e : Engine L) (c : Call Frame) :
    ∀ b ∈ e.beats (Action.isOf aeRtpTypePing) c, b.due = true := by
  intro b hb
  cases c with
  | connect outcome now =>
    have hnone : (e.call (.connect outcome now)).2.any (Action.isOf aeRtpTypePing) = false := by
      show (aeEngineConnect e outcome now).2.2.any _ = false
      rcases connect_cases e outcome now with ⟨-, -, h⟩ | ⟨-, hdr, htype, h⟩
      · rw [h]
        rfl
      · rw [h, List.any_cons, isOf_send, htype]
        rfl
    unfold Engine.beats at hb
    rw [hnone] at hb
    exact absurd hb List.not_mem_nil
  | process t =>
    rw [beats_process] at hb
    split at hb
    · obtain rfl := List.mem_singleton.mp hb
      rfl
    · exact absurd hb List.not_mem_nil
  | _ => exact absurd hb List.not_mem_nil

theorem timers_create [Zero Frame] {config : Option AeConfig} {e : Engine L}
    (h : aeEngineCreate L config = some e) : e.timers = (0, 0) := by
  unfold aeEngineCreate at h
  simp only [Option.bind_eq_bind, Option.bind_eq_some_iff, Option.pure_def, Option.some.injEq] at h
  obtain ⟨_, -, _, -, _, -, rfl⟩ := h
  rfl

/-- The calls read a clock that does not go back. -/
def Forward (calls : List (Call Frame)) : Prop := (calls.filterMap Call.reading).Pairwise (· ≤ ·)

instance (calls : List (Call Frame)) : Decidable (Forward calls) :=
  inferInstanceAs (Decidable (List.Pairwise ..))

/-- The calls that handed a packet of this type to the socket, and when. -/
def Engine.handed (type : Byte) (e : Engine L) (calls : List (Call Frame)) : List (Beat 64) :=
  Machine.collect Engine.call (Engine.beats (Action.isOf type)) e calls

/-- Those that found the socket open. -/
def Engine.sent (type : Byte) (e : Engine L) (calls : List (Call Frame)) : List (Beat 64) :=
  Machine.collect Engine.call (Engine.beats (Action.isSent type)) e calls

/-- A connected tick whose socket is open comes less than 5 s after a keepalive that was sent, its own or
an earlier one. -/
theorem keepalive_recent {e : Engine L} (hoff : e.connected = false) (hzero : e.lastKeepaliveMs = 0)
    {before : List (Call Frame)} {t : Tick} (hclock : Forward (before ++ [.process t]))
    (hon : (Machine.run Engine.call e before).connected = true)
    (hsock : (Machine.run Engine.call e before).network.sock = true) :
    ∃ k ∈ e.sent aeRtpTypeKeepalive (before ++ [.process t]), k.time ≤ t.now ∧ t.now.toNat < k.time.toNat + 5000 := by
  have hend : Machine.run Engine.call e (before ++ [.process t]) =
      (aeEngineProcess (Machine.run Engine.call e before) t).1 := Machine.run_append ..
  have hfirst : Kept e [] := fun h => absurd (hoff.symm.trans h) Bool.false_ne_true
  have hkept := hfirst.run (before ++ [.process t])
  obtain ⟨hconnected, hnetwork⟩ := connection_call (Machine.run Engine.call e before) (c := .process t) id
  obtain ⟨k, hk, htime⟩ := hkept (by rw [hend]; exact hconnected.trans hon)
    (by rw [hend]; exact (congrArg Net.sock hnetwork).trans hsock)
  refine ⟨k, hk, ?_⟩
  rw [htime, hend]
  rcases process_keeps hon t with ⟨hdue, hlast, -⟩ | ⟨-, hlast, -⟩
  · have hearlier : ∀ now ∈ before.filterMap Call.reading, now ≤ t.now := by
      unfold Forward at hclock
      rw [List.filterMap_append, List.pairwise_append] at hclock
      exact fun now hnow => hclock.2.2 now hnow t.now (List.mem_singleton_self _)
    have hstart : e.lastKeepaliveMs ≤ t.now := by
      rw [hzero]
      exact BitVec.le_def.mpr (Nat.zero_le _)
    have hle := last_le turns_keepalive hstart hearlier
    rw [hlast]
    rw [BitVec.le_def, BitVec.toNat_sub_of_le hle] at hdue
    have hinterval : keepaliveIntervalMs.toNat = 5000 := rfl
    exact ⟨hle, by omega⟩
  · rw [hlast]
    exact ⟨BitVec.le_refl _, by omega⟩

/-- A client that connects at 0 and ticks at 2 s and at 7 s. -/
def ticking : List (Call (ℚ × ℚ)) :=
  [.connect .connected 0, .process ⟨[], 2000, 2000⟩, .process ⟨[], 7000, 7000⟩]

end AudioPlatform.Core
