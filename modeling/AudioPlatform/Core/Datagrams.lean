import AudioPlatform.Core.Codecs
import AudioPlatform.Core.Isolation
import AudioPlatform.Core.KeyMap
import AudioPlatform.Core.Nonces

/-! What the engine hands to its socket.

Every datagram is one that the server takes for a packet of the client: an audio packet of the
channel that is joined, under the key of that channel, or a keepalive or a ping. -/
namespace AudioPlatform.Core
open AudioPlatform.Server Concurrency

variable {Frame : Type} {L : Library Frame}

/-! ### What is said -/

/-- A payload, and the client and the channel that it is sent for. -/
structure Utterance where
  clientId : BitVec 64
  channelId : BitVec 32
  payload : List Byte
  deriving DecidableEq

/-- What the encoder returns for the frame that the capture step reads, if it reads one. -/
def Engine.utterance (e : Engine L) : Option Utterance :=
  if e.transmitting && aeFrameSize ≤ aeRingbufAvailable e.captureRing then
    (L.encode e.encoder (e.captureRing.contents.take aeFrameSize) aeMaxPacketSize).2.map fun payload =>
      ⟨e.clientId, e.channel.channelIdNum, payload⟩
  else none

/-- An engine sends the payload in a packet, under the key that is derived for the channel. -/
def Utterance.SentAs (L : Library Frame) (u : Utterance) (packet : List Byte) : Prop :=
  ∃ e : Engine L, e.clientId = u.clientId ∧ e.channel.channelIdNum = u.channelId ∧
    findKey e.crypto u.channelId = some (deriveKeyFromChannel u.channelId) ∧
    audioPacket e u.payload = some packet

/-- The table holds derived keys only. -/
def Crypto.Derived (ctx : Crypto) : Prop :=
  ∀ n key, findKey ctx n = some key → key = deriveKeyFromChannel n

/-- What is on the air is in a channel, and the keys are derived from the channels' numbers. -/
structure Engine.Licensed (e : Engine L) : Prop where
  channel : e.transmitting = true → e.channel.active = true
  keys : e.crypto.Derived

/-- A datagram of the engine: the server reads a packet of the client in it, as long as it says. -/
structure Engine.Issues (e : Engine L) (packet : List Byte) (hdr : RoutingHeader) (t : PacketType) :
    Prop where
  header : RoutingHeader.parse packet = some hdr
  type : PacketType.fromU8 hdr.packetType = some t
  asked : t ≠ .pong
  clientId : hdr.clientId = e.clientId
  length : routingHeaderSize + hdr.length.toNat = packet.length
  fits : packet.length ≤ aeMaxPacketSize
  audio : t = .audio → e.connected = true ∧ e.channel.active = true ∧
    hdr.channelId = e.channel.channelIdNum ∧
    ∃ u, e.utterance = some u ∧ u.clientId = e.clientId ∧ u.channelId = e.channel.channelIdNum ∧
      u.SentAs L packet

variable {e : Engine L} {packet : List Byte}

/-! ### Packets -/

/-- A packet that is built is read by the server. -/
theorem issues_build {header : RtpHeader} {payload : List Byte} {outSize : Nat} {t : PacketType}
    (hb : aeRtpBuildPacket header payload outSize = some packet) (hout : outSize ≤ aeMaxPacketSize)
    (ht : PacketType.fromU8 header.packetType = some t) (hasked : t ≠ .pong) (hother : t ≠ .audio)
    (hid : header.clientId = e.clientId) : ∃ hdr, e.Issues packet hdr t := by
  obtain ⟨hsize, hmax, rfl⟩ := aeRtpBuildPacket_eq_some.mp hb
  have hlength : (BitVec.ofNat 16 payload.length).toNat = payload.length := by
    unfold aeRtpHeaderSize aeRtpMaxPacket at hmax
    rw [BitVec.toNat_ofNat, Nat.mod_eq_of_lt (by omega)]
  obtain ⟨hdr, hparse, hfields⟩ := Option.map_eq_some_iff.mp
    (parse_serializeHeader (header.withLength (BitVec.ofNat 16 payload.length)) payload)
  refine ⟨hdr, hparse, ?_, hasked, ?_, ?_, ?_, fun h => absurd h hother⟩
  · exact (congrArg (fun h => PacketType.fromU8 h.packetType) hfields).trans ht
  · exact (congrArg RtpHeader.clientId hfields).trans hid
  · have hlen : hdr.length = BitVec.ofNat 16 payload.length := congrArg RtpHeader.payloadLength hfields
    rw [hlen, hlength, List.length_append, length_serializeHeader]
    rfl
  · rw [List.length_append, length_serializeHeader]
    exact hsize.trans hout

/-- A packet that is sent for an utterance, as the server reads it. -/
theorem Utterance.SentAs.parse {u : Utterance} (h : u.SentAs L packet) : ∃ hdr,
    RoutingHeader.parse packet = some hdr ∧ hdr.packetType = PacketType.audio.toU8 ∧
      hdr.clientId = u.clientId ∧ hdr.channelId = u.channelId ∧
      routingHeaderSize + hdr.length.toNat = packet.length ∧ packet.length ≤ aeMaxPacketSize := by
  obtain ⟨e, hid, hchannel, -, hp⟩ := h
  obtain ⟨encrypted, -, hsize, rfl⟩ := audioPacket_eq_some.mp hp
  have hlength : (BitVec.ofNat 16 encrypted.length).toNat = encrypted.length := by
    unfold aeRtpHeaderSize aeMaxPacketSize at hsize
    rw [BitVec.toNat_ofNat, Nat.mod_eq_of_lt (by omega)]
  obtain ⟨hdr, hparse, hfields⟩ := Option.map_eq_some_iff.mp
    (parse_serializeHeader ((audioHeader e).withLength (BitVec.ofNat 16 encrypted.length)) encrypted)
  refine ⟨hdr, hparse, congrArg RtpHeader.packetType hfields, ?_, ?_, ?_, ?_⟩
  · exact (congrArg RtpHeader.clientId hfields).trans hid
  · exact (congrArg RtpHeader.channelId hfields).trans hchannel
  · have hlen : hdr.length = BitVec.ofNat 16 encrypted.length :=
      congrArg RtpHeader.payloadLength hfields
    rw [hlen, hlength, List.length_append, length_serializeHeader]
    rfl
  · rw [List.length_append, length_serializeHeader]
    exact hsize

/-! ### One call -/

theorem licensed_create [Zero Frame] {config : Option AeConfig} (h : aeEngineCreate L config = some e) :
    e.Licensed where
  channel htx := by
    rw [(fresh_create h).transmitting] at htx
    cases htx
  keys n key hkey := by
    rw [(fresh_create h).keys] at hkey
    cases hkey

theorem Crypto.Derived.call {c : Call Frame} (h : e.crypto.Derived) : (e.call c).1.crypto.Derived := by
  rcases crypto_call e c with hsame | ⟨channelId, -, -, hset⟩
  · rw [hsame]
    exact h
  · intro n key hkey
    rw [findKey_setChannelKey hset] at hkey
    by_cases hn : n = channelStrToId channelId
    · subst hn
      rw [Function.update_self] at hkey
      exact (Option.some.inj hkey).symm
    · rw [Function.update_of_ne hn] at hkey
      exact h n key hkey

/-- Leaving a channel in any way ends the transmission, and only a channel is transmitted on. -/
theorem channel_call (h : e.transmitting = true → e.channel.active = true) (c : Call Frame) :
    (e.call c).1.transmitting = true → (e.call c).1.channel.active = true := by
  by_cases htick : c.Ticks
  · cases c with
    | process t =>
      obtain ⟨_, _, _, hcontrol⟩ := control_tick e t
      show (aeEngineProcess e t).1.control.transmitting = true →
        (aeEngineProcess e t).1.control.channel.active = true
      rw [hcontrol]
      exact h
    | _ => exact absurd htick id
  · rw [← control_transmitting, ← control_channel, control_call e htick]
    cases c with
    | joinChannel channelId =>
      dsimp only [Control.after]
      split
      · exact fun _ => rfl
      · exact h
    | leaveAllChannels =>
      dsimp only [Control.after]
      split
      · exact fun htx => Bool.noConfusion htx
      · exact h
    | startTransmit channelId =>
      dsimp only [Control.after]
      split
      · rename_i hact
        exact fun _ => hact
      · exact h
    | disconnect => exact fun htx => Bool.noConfusion htx
    | leaveChannel channelId => exact fun htx => Bool.noConfusion htx
    | stopTransmit channelId => exact fun htx => Bool.noConfusion htx
    | _ => exact h

theorem Engine.Licensed.call (h : e.Licensed) (c : Call Frame) : (e.call c).1.Licensed :=
  ⟨channel_call h.channel c, h.keys.call⟩

/-- What is sent is the packet of a payload that the encoder has returned. -/
theorem send_sendAudio {encoded : Option (List Byte)} {sock : Bool}
    (hsend : Action.send packet sock ∈ (sendAudio e encoded).2) :
    ∃ payload, encoded = some payload ∧ audioPacket e payload = some packet := by
  cases encoded with
  | none => cases hsend
  | some payload =>
    unfold sendAudio at hsend
    dsimp only at hsend
    split at hsend
    · cases hsend
    · split at hsend
      · cases hsend
      · rename_i hp
        cases mem_aeNetSend hsend
        exact ⟨payload, rfl, hp⟩

/-- A packet that is built is built under the derived key. -/
theorem sentAs_audioPacket {payload : List Byte} (h : e.crypto.Derived)
    (hp : audioPacket e payload = some packet) :
    Utterance.SentAs L ⟨e.clientId, e.channel.channelIdNum, payload⟩ packet := by
  obtain ⟨encrypted, henc, -, -⟩ := audioPacket_eq_some.mp hp
  obtain ⟨-, key, hkey, -⟩ := aeCryptoEncrypt_eq_some.mp henc
  exact ⟨e, rfl, rfl, hkey.trans (congrArg some (h _ key hkey)), hp⟩

/-- The packet that the capture step sends carries what the encoder has said. -/
theorem send_transmit {sock : Bool} (h : e.Licensed)
    (hsend : Action.send packet sock ∈ (transmit e).2) : e.transmitting = true ∧
    ∃ u, e.utterance = some u ∧ u.clientId = e.clientId ∧ u.channelId = e.channel.channelIdNum ∧
      u.SentAs L packet := by
  rcases transmit_cases e with ⟨-, hidle⟩ | ⟨⟨htx, hfull⟩, hsent⟩
  · rw [hidle] at hsend
    cases hsend
  · rw [hsent _ rfl] at hsend
    rcases List.mem_cons.mp hsend with hsend | hsend
    · cases hsend
    · obtain ⟨payload, hencode, hp⟩ := send_sendAudio hsend
      refine ⟨htx, _, ?_, rfl, rfl, sentAs_audioPacket (e := e.encoding) h.keys hp⟩
      unfold Engine.utterance
      rw [if_pos (by simp [htx, hfull]), hencode]
      rfl

theorem issues_transmit {sock : Bool} (h : e.Licensed) (hon : e.connected = true)
    (hsend : Action.send packet sock ∈ (transmit e).2) : ∃ hdr t, e.Issues packet hdr t := by
  obtain ⟨htx, u, hutter, hid, hchannel, hsent⟩ := send_transmit h hsend
  obtain ⟨hdr, hparse, htype, hdrId, hdrChannel, hlength, hfits⟩ := hsent.parse
  refine ⟨hdr, .audio, hparse, ?_, by decide, hdrId.trans hid, hlength, hfits, fun _ =>
    ⟨hon, h.channel htx, hdrChannel.trans hchannel, u, hutter, hid, hchannel, hsent⟩⟩
  rw [htype]
  rfl

theorem issues_keepalive {r : Engine L} {now : BitVec 64} {sock : Bool} (hid : r.clientId = e.clientId)
    (hsend : Action.send packet sock ∈ (keepalive r now).2) : ∃ hdr t, e.Issues packet hdr t := by
  unfold keepalive at hsend
  dsimp only at hsend
  split at hsend
  · split at hsend
    · rename_i hb
      cases mem_aeNetSend hsend
      obtain ⟨hdr, hissues⟩ := issues_build (t := .keepalive) hb (by decide) rfl (by decide)
        (by decide) hid
      exact ⟨hdr, _, hissues⟩
    · cases hsend
  · cases hsend

theorem issues_ping {r : Engine L} {now : BitVec 64} {sock : Bool} (hid : r.clientId = e.clientId)
    (hsend : Action.send packet sock ∈ (ping r now).2) : ∃ hdr t, e.Issues packet hdr t := by
  unfold ping at hsend
  split at hsend
  · split at hsend
    · rename_i hb
      cases mem_aeNetSend hsend
      obtain ⟨hdr, hissues⟩ := issues_build (t := .ping) hb (by decide) rfl (by decide) (by decide) hid
      exact ⟨hdr, _, hissues⟩
    · cases hsend
  · cases hsend

/-- The engine is the same client all through a tick. -/
theorem clientId_receiveLoop (n : Nat) (arrivals : List Arrival) (e : Engine L) :
    (receiveLoop n arrivals e).1.clientId = e.clientId := by
  rw [← control_clientId, control_receiveLoop]
  rfl

theorem clientId_keepalive (e : Engine L) (now : BitVec 64) :
    (keepalive e now).1.clientId = e.clientId := by
  rw [← control_clientId, control_keepalive]
  rfl

theorem issues_process {t : Tick} {sock : Bool} (h : e.Licensed)
    (hsend : Action.send packet sock ∈ (aeEngineProcess e t).2) : ∃ hdr t, e.Issues packet hdr t := by
  unfold aeEngineProcess at hsend
  by_cases hon : e.connected = true
  · rw [if_pos hon] at hsend
    have hreceived := (clientId_receiveLoop maxRecvPerTick t.arrivals (transmit e).1).trans
      (clientId_transmit e)
    rcases List.mem_append.mp hsend with hsend | hsend
    · rcases List.mem_append.mp hsend with hsend | hsend
      · rcases List.mem_append.mp hsend with hsend | hsend
        · exact issues_transmit h hon hsend
        · obtain ⟨e', a, -, hact⟩ := mem_receiveLoop.mp hsend
          exact absurd (mem_receive hact).1 id
      · exact issues_keepalive hreceived hsend
    · exact issues_ping ((clientId_keepalive _ t.now).trans hreceived) hsend
  · rw [if_neg hon] at hsend
    cases hsend

theorem issues_connect {outcome : NetOutcome} {now : BitVec 64} {sock : Bool}
    (hsend : Action.send packet sock ∈ (aeEngineConnect e outcome now).2.2) :
    ∃ hdr, e.Issues packet hdr .keepalive := by
  unfold aeEngineConnect at hsend
  dsimp only at hsend
  split at hsend
  · cases hsend
  · split at hsend
    · rename_i hb
      cases mem_aeNetSend hsend
      exact issues_build (t := .keepalive) hb (by decide) rfl (by decide) (by decide) rfl
    · cases hsend

/-- Audio is sent by ticks only. -/
theorem issues_call {c : Call Frame} {sock : Bool} (h : e.Licensed)
    (hsend : Action.send packet sock ∈ (e.call c).2) :
    ∃ hdr t, e.Issues packet hdr t ∧ (t = .audio → ∃ tick, c = .process tick) := by
  cases c with
  | connect outcome now =>
    obtain ⟨hdr, hissues⟩ := issues_connect hsend
    exact ⟨hdr, _, hissues, nofun⟩
  | process t =>
    obtain ⟨hdr, type, hissues⟩ := issues_process h hsend
    exact ⟨hdr, type, hissues, fun _ => ⟨t, rfl⟩⟩
  | _ => cases hsend

/-! ### A run -/

theorem licensed_run (h : e.Licensed) (calls : List (Call Frame)) :
    (Machine.run Engine.call e calls).Licensed := by
  have hstep : ∀ (r : Engine L) (c : Call Frame), True → r.Licensed → (r.call c).1.Licensed :=
    fun _ c _ hr => hr.call c
  exact Machine.run_induction hstep h fun _ _ => trivial

/-- **Every datagram is a packet of the client.** Whatever is called in whatever order, the server
parses each datagram that is handed to the socket, finds the client's id and the length of the
payload in it, and takes it for audio, a keepalive or a ping. What it takes for audio is what the
encoder has said while the engine was connected and in the header's channel, under the key derived
from the channel's number. -/
theorem datagrams_issued [Zero Frame] {config : Option AeConfig} {e : Engine L}
    (hnew : aeEngineCreate L config = some e) (calls : List (Call Frame)) (c : Call Frame)
    {packet : List Byte} {sock : Bool}
    (hsend : Action.send packet sock ∈ ((Machine.run Engine.call e calls).call c).2) :
    ∃ hdr t, (Machine.run Engine.call e calls).Issues packet hdr t := by
  obtain ⟨hdr, t, hissues, -⟩ := issues_call (licensed_run (licensed_create hnew) calls) hsend
  exact ⟨hdr, t, hissues⟩

/-- A new client that connects sends a keepalive. -/
theorem datagrams_issued_connect : ∃ hdr t,
    (newEngine : Engine toneLibrary).Issues
      [0, 0, 0, 0, 0, 0, 0, 0, 0, 0, 0, 0, 0, 0, 0, 0, 1, 0, 0, 0] hdr t :=
  datagrams_issued create_newEngine [] (.connect .connected 0)
    (List.mem_cons_self .. : Action.send _ true ∈ _)

end AudioPlatform.Core
