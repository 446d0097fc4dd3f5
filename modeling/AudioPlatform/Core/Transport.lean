import AudioPlatform.Core.Streams

/-! Audio from one engine to another: the packet that is sent, and what a receiver
makes of it. -/
namespace AudioPlatform.Core

variable {Frame Frame' : Type} {L : Library Frame} {K : Library Frame'} {e e' : Engine L}

/-! ### The packet -/

/-- Zeroing the length in a serialised header. -/
theorem zeroPayloadLength_serializeHeader (h : RtpHeader) :
    zeroPayloadLength (serializeHeader h) = serializeHeader (h.withLength 0) := by
  have hlen : (writeU32Be h.serverId ++ writeU32Be h.channelId ++ writeU64Be h.clientId ++
      [h.packetType] ++ [h.flags]).length = 18 := by simp
  have hzero : ((writeU16Be h.payloadLength).set 0 0).set 1 0 = writeU16Be 0 := by
    show [(0 : Byte), 0] = writeU16Be 0
    decide
  unfold zeroPayloadLength serializeHeader
  rw [List.set_append_right _ _ (by rw [hlen]), List.set_append_right _ _ (by rw [hlen]; decide), hlen]
  show _ ++ ((writeU16Be h.payloadLength).set 0 0).set 1 0 = _
  rw [hzero]
  rfl

/-- A packet is the header with the length of the encrypted payload, and the payload,
which is authenticated by the header without its length. -/
theorem audioPacket_eq_some {encoded packet : List Byte} :
    audioPacket e encoded = some packet ↔ ∃ encrypted,
      aeCryptoEncrypt e.crypto e.channel.channelIdNum e.clientId e.txSequence
        (serializeHeader (audioHeader e)) encoded aeMaxPacketSize = some encrypted ∧
      aeRtpHeaderSize + encrypted.length ≤ aeMaxPacketSize ∧
      packet = serializeHeader ((audioHeader e).withLength (BitVec.ofNat 16 encrypted.length)) ++
        encrypted := by
  have hrouting : aeRtpBuildPacket (audioHeader e) [] aeRtpHeaderSize =
      some (serializeHeader (audioHeader e)) := by
    rw [aeRtpBuildPacket_eq_some]
    exact ⟨le_refl _, by decide, by rw [List.append_nil]; rfl⟩
  unfold audioPacket
  dsimp only
  rw [hrouting]
  dsimp only
  cases aeCryptoEncrypt e.crypto e.channel.channelIdNum e.clientId e.txSequence
    (serializeHeader (audioHeader e)) encoded aeMaxPacketSize with
  | none => simp
  | some encrypted =>
    dsimp only
    rw [aeRtpBuildPacket_eq_some]
    constructor
    · exact fun ⟨hsize, _, hp⟩ => ⟨encrypted, rfl, hsize, hp⟩
    · rintro ⟨_, he, hsize, hp⟩
      obtain rfl := Option.some.inj he
      exact ⟨hsize, le_trans hsize (by decide), hp⟩

/-- Every payload of at most 1352 bytes fits, once the sender has a key. -/
theorem audioPacket_isSome {key : Key} {encoded : List Byte}
    (hkey : findKey e.crypto e.channel.channelIdNum = some key) (hlen : encoded.length ≤ 1352) :
    ∃ packet, audioPacket e encoded = some packet := by
  have hsize : encoded.length + aeCryptoOverhead ≤ aeMaxPacketSize := by
    unfold aeCryptoOverhead aeCryptoIvSize aeCryptoTagSize aeMaxPacketSize
    omega
  obtain ⟨encrypted, henc⟩ : ∃ encrypted, aeCryptoEncrypt e.crypto e.channel.channelIdNum e.clientId
      e.txSequence (serializeHeader (audioHeader e)) encoded aeMaxPacketSize = some encrypted :=
    ⟨_, aeCryptoEncrypt_eq_some.mpr ⟨hsize, key, hkey, rfl⟩⟩
  refine ⟨_, audioPacket_eq_some.mpr ⟨encrypted, henc, ?_, rfl⟩⟩
  rw [length_encrypted henc]
  unfold aeCryptoOverhead aeCryptoIvSize aeCryptoTagSize aeMaxPacketSize aeRtpHeaderSize
  omega

/-! ### Sending -/

/-- The engine as it encodes the oldest captured frame. -/
def Engine.encoding (e : Engine L) : Engine L :=
  { e with
    captureRing := (aeRingbufRead e.captureRing aeFrameSize).1
    encoder := (L.encode e.encoder (e.captureRing.contents.take aeFrameSize) aeMaxPacketSize).1 }

theorem transmit_silent (h : e.transmitting = false) : transmit e = (e, []) := by
  unfold transmit
  rw [if_pos (by simp [h])]

/-- Nothing happens, or the oldest frame is encoded and what the encoder returns is sent. -/
theorem transmit_cases (e : Engine L) :
    ((e.transmitting = false ∨ aeRingbufAvailable e.captureRing < aeFrameSize) ∧
      transmit e = (e, [])) ∨
    ((e.transmitting = true ∧ aeFrameSize ≤ aeRingbufAvailable e.captureRing) ∧
      ∀ sent, sent = sendAudio e.encoding
        (L.encode e.encoder (e.captureRing.contents.take aeFrameSize) aeMaxPacketSize).2 →
      transmit e = (sent.1, .encode (e.captureRing.contents.take aeFrameSize) :: sent.2)) := by
  by_cases htx : e.transmitting = true
  · by_cases hfull : aeRingbufAvailable e.captureRing < aeFrameSize
    · left
      refine ⟨.inr hfull, ?_⟩
      unfold transmit
      rw [if_neg (by simp [htx]), if_pos hfull]
    · have hread := e.captureRing.read_snd aeFrameSize
      have hlen : (e.captureRing.contents.take aeFrameSize).length = aeFrameSize := by
        rw [List.length_take, RingBuffer.length_contents]
        omega
      right
      refine ⟨⟨htx, by omega⟩, ?_⟩
      rintro _ rfl
      unfold transmit
      rw [if_neg (by simp [htx]), if_neg hfull]
      dsimp only
      rw [hread, if_neg (not_not_intro hlen)]
      rfl
  · have hoff : e.transmitting = false := by simpa using htx
    exact .inl ⟨.inl hoff, transmit_silent hoff⟩

theorem sendAudio_packet {encoded packet : List Byte} (hne : encoded ≠ [])
    (hp : audioPacket e encoded = some packet) :
    sendAudio e (some encoded) =
      ({ e with txSequence := e.txSequence + 1, packetsSent := e.packetsSent + 1 },
        aeNetSend e.network packet) := by
  unfold sendAudio
  dsimp only
  rw [if_neg (by simpa using hne), hp]

/-- Either no packet is built and nothing changes, or one is handed to the socket. -/
theorem sendAudio_cases (e : Engine L) (encoded : Option (List Byte)) :
    sendAudio e encoded = (e, []) ∨ ∃ payload packet, audioPacket e payload = some packet ∧
      sendAudio e encoded =
        ({ e with txSequence := e.txSequence + 1, packetsSent := e.packetsSent + 1 },
          aeNetSend e.network packet) := by
  cases encoded with
  | none => exact .inl rfl
  | some payload =>
    by_cases hne : payload = []
    · subst hne
      exact .inl rfl
    · cases hp : audioPacket e payload with
      | none =>
        left
        unfold sendAudio
        dsimp only
        rw [if_neg (by simpa using hne), hp]
      | some packet => exact .inr ⟨payload, packet, hp, sendAudio_packet hne hp⟩

/-- The engine with a packet handed to the socket. -/
def Engine.counting (e : Engine L) : Engine L :=
  { e.encoding with txSequence := e.txSequence + 1, packetsSent := e.packetsSent + 1 }

/-- All that the capture step can do: nothing, encode a frame, or encode one and send it. -/
theorem transmit_outcomes (e : Engine L) :
    transmit e = (e, []) ∨
    e.transmitting = true ∧
      transmit e = (e.encoding, [.encode (e.captureRing.contents.take aeFrameSize)]) ∨
    e.transmitting = true ∧ ∃ payload packet, audioPacket e.encoding payload = some packet ∧
      transmit e = (e.counting,
        .encode (e.captureRing.contents.take aeFrameSize) :: aeNetSend e.network packet) := by
  rcases transmit_cases e with ⟨-, h⟩ | ⟨⟨htx, -⟩, h⟩
  · exact .inl h
  · rw [h _ rfl]
    rcases sendAudio_cases e.encoding
      (L.encode e.encoder (e.captureRing.contents.take aeFrameSize) aeMaxPacketSize).2 with
      hs | ⟨payload, packet, hp, hs⟩
    · rw [hs]
      exact .inr (.inl ⟨htx, rfl⟩)
    · rw [hs]
      exact .inr (.inr ⟨htx, payload, packet, hp, rfl⟩)

/-! ### Receiving -/

/-- The header that a datagram starts with; `none` if it is too short for one. -/
def packetHeader (data : List Byte) : Option RtpHeader :=
  (aeRtpParseHeader 0 data.length).value (overlay data fun _ => 0)

/-- Parsing looks at the datagram only, not at what else is in memory. -/
theorem value_parseHeader_overlay (data : List Byte) (rest : Nat → Byte) :
    (aeRtpParseHeader 0 data.length).value (overlay data rest) = packetHeader data := by
  unfold packetHeader aeRtpParseHeader
  split
  · rfl
  · rename_i hlen
    have hslice : ∀ start n, start + n ≤ aeRtpHeaderSize →
        (List.range' start n).map (overlay data rest) =
          (List.range' start n).map (overlay data fun _ => 0) := by
      intro start n hn
      rw [overlay_slice _ _ (by omega), overlay_slice _ _ (by omega)]
    simp only [readU16Be, readU32Be, readU64Be, readU8, Reading.value_bind, Reading.value_pure,
      Reading.value_slice]
    rw [hslice _ _ (by decide), hslice _ _ (by decide), hslice _ _ (by decide),
      hslice _ _ (by decide), hslice _ _ (by decide), hslice _ _ (by decide)]

theorem packetHeader_serialize (h : RtpHeader) (payload : List Byte) :
    packetHeader (serializeHeader h ++ payload) = some h :=
  value_parseHeader h payload _ (by simp)

/-- The engine as it handles the datagram. -/
def Engine.holding (e : Engine L) (a : Arrival) : Engine L :=
  { e with recvBuf := a.memory e.recvBuf, packetsReceived := e.packetsReceived + 1 }

@[simp] theorem streams_holding (e : Engine L) (a : Arrival) : (e.holding a).streams = e.streams := rfl

theorem receive_audio {a : Arrival} {hdr : RtpHeader} (hp : packetHeader a.data = some hdr)
    (ht : hdr.packetType = aeRtpTypeAudio) (hc : hdr.clientId ≠ e.clientId) :
    receive e a = (handleAudio (e.holding a) a hdr).value (a.memory e.recvBuf) := by
  have hpong : hdr.packetType ≠ aeRtpTypePong := by
    rw [ht]
    decide
  show (handlePacket (e.holding a) a).value (a.memory e.recvBuf) = _
  unfold handlePacket
  rw [Reading.value_bind, Arrival.memory, value_parseHeader_overlay, hp]
  dsimp only
  rw [if_neg hpong, if_neg (show ¬ hdr.clientId = (e.holding a).clientId from hc), if_pos ht]

/-- Only an audio packet of another client does more than answer a ping. -/
theorem receive_other {a : Arrival} (h : ∀ hdr, packetHeader a.data = some hdr →
      hdr.packetType = aeRtpTypeAudio → hdr.clientId = e.clientId) :
    receive e a = (e.holding a, []) ∨ receive e a = (handlePong (e.holding a) a.now, []) := by
  rw [show receive e a = (handlePacket (e.holding a) a).value (a.memory e.recvBuf) from rfl]
  unfold handlePacket
  rw [Reading.value_bind, Arrival.memory, value_parseHeader_overlay]
  cases hp : packetHeader a.data with
  | none => exact .inl rfl
  | some hdr =>
    dsimp only
    by_cases hpong : hdr.packetType = aeRtpTypePong
    · rw [if_pos hpong]
      exact .inr rfl
    · rw [if_neg hpong]
      by_cases hc : hdr.clientId = (e.holding a).clientId
      · rw [if_pos hc]
        exact .inl rfl
      · rw [if_neg hc, if_neg fun ht => hc (h hdr hp ht)]
        exact .inl rfl

/-- A packet that decrypts is accepted on the stream of its sender. -/
theorem handleAudio_accepts {a : Arrival} (hdr : RtpHeader) {m : Nat → Byte} {i : StreamIndex}
    {data : List Byte} (hlen : hdr.payloadLength ≠ 0) (hact : e.channel.active = true)
    (hs : streamFor e hdr.clientId a.alloc = (e', some i)) (hsize : aeRtpHeaderSize < a.data.length)
    (hdec : (aeCryptoDecrypt e'.crypto hdr.channelId
      (zeroPayloadLength ((Reading.slice 0 aeRtpHeaderSize).value m)) aeRtpHeaderSize
      hdr.payloadLength.toNat aeMaxPacketSize).value m = some data) (hne : data ≠ []) :
    (handleAudio e a hdr).value m = acceptAudio e' i hdr data a.now := by
  unfold handleAudio
  rw [if_neg (not_or_intro hlen (by simp [hact])), hs]
  dsimp only
  unfold aeRtpGetPayload
  rw [if_neg (by omega)]
  dsimp only
  rw [Nat.zero_add, Reading.value_bind, Reading.value_bind, hdec]
  show (if data.isEmpty then _ else _) = _
  rw [if_neg (by simpa using hne)]

/-- The decoder is handed the payload first. -/
theorem acceptAudio_decodes (e : Engine L) (i : StreamIndex) (hdr : RtpHeader) (data : List Byte)
    (now : BitVec 64) : ∃ pushed, (acceptAudio e i hdr data now).2 = .decode i data :: pushed ∧
      (pushed = [] ∨ ∃ frame seq, pushed = [.push hdr i frame seq]) := by
  unfold acceptAudio
  dsimp only
  split
  · exact ⟨_, rfl, .inr ⟨_, _, rfl⟩⟩
  · exact ⟨_, rfl, .inl rfl⟩

/-- What the decoder yields is pushed. -/
theorem push_acceptAudio (e : Engine L) (i : StreamIndex) (hdr : RtpHeader) (data : List Byte)
    (now : BitVec 64) (h : 0 < (aeOpusDecode (e.streams i).decoder data e.decodeFrame).2.1) :
    ∃ frame seq, .push hdr i frame seq ∈ (acceptAudio e i hdr data now).2 := by
  unfold acceptAudio
  dsimp only
  rw [if_pos h]
  exact ⟨_, _, List.mem_cons_of_mem _ (List.mem_singleton_self _)⟩

theorem clientId_acceptAudio (e : Engine L) (i j : StreamIndex) (hdr : RtpHeader)
    (data : List Byte) (now : BitVec 64) :
    ((acceptAudio e i hdr data now).1.streams j).clientId = (e.streams j).clientId := by
  unfold acceptAudio
  dsimp only
  have hupdate : ∀ s : RemoteStream L, s.clientId = (e.streams i).clientId →
      (Function.update e.streams i s j).clientId = (e.streams j).clientId := by
    intro s hs
    by_cases hj : j = i
    · subst hj
      rw [Function.update_self, hs]
    · rw [Function.update_of_ne hj]
  split
  · exact hupdate _ rfl
  · exact hupdate _ rfl

/-! ### End to end -/

/-- The length that the header of an audio packet claims. -/
def receivedLength (encoded : List Byte) : BitVec 16 :=
  BitVec.ofNat 16 (encoded.length + aeCryptoOverhead)

/-- What a receiver with the sender's key finds where an audio packet has arrived. -/
theorem audioPacket_arrives {r : Engine K} {a : Arrival} {encoded : List Byte}
    (hp : audioPacket e encoded = some a.data)
    (hkey : findKey r.crypto e.channel.channelIdNum = findKey e.crypto e.channel.channelIdNum) :
    packetHeader a.data = some ((audioHeader e).withLength (receivedLength encoded)) ∧
      (receivedLength encoded).toNat = encoded.length + aeCryptoOverhead ∧
      aeRtpHeaderSize < a.data.length ∧
      zeroPayloadLength ((Reading.slice 0 aeRtpHeaderSize).value (a.memory r.recvBuf)) =
        serializeHeader (audioHeader e) ∧
      (aeCryptoDecrypt r.crypto e.channel.channelIdNum (serializeHeader (audioHeader e))
        aeRtpHeaderSize (encoded.length + aeCryptoOverhead) aeMaxPacketSize).value
          (a.memory r.recvBuf) = some encoded := by
  obtain ⟨encrypted, henc, hsize, hdata⟩ := audioPacket_eq_some.mp hp
  have hlen : encrypted.length = encoded.length + aeCryptoOverhead := by
    rw [length_encrypted henc, Nat.add_comm]
  have hlong : aeRtpHeaderSize + encrypted.length = a.data.length := by
    rw [hdata, List.length_append, length_serializeHeader]
  refine ⟨?_, ?_, ?_, ?_, ?_⟩
  · rw [hdata, hlen]
    exact packetHeader_serialize _ _
  · unfold receivedLength
    rw [BitVec.toNat_ofNat]
    unfold aeMaxPacketSize at hsize
    omega
  · unfold aeCryptoOverhead aeCryptoIvSize at hlen
    omega
  · have hslice : (Reading.slice 0 aeRtpHeaderSize).value (a.memory r.recvBuf) =
        serializeHeader ((audioHeader e).withLength (BitVec.ofNat 16 encrypted.length)) := by
      show (List.range' 0 aeRtpHeaderSize).map (overlay a.data _) = _
      rw [overlay_slice _ _ (by omega), hdata, List.drop_zero, List.take_left' (by simp)]
    rw [hslice, zeroPayloadLength_serializeHeader]
    rfl
  · have hpayload : (List.range' aeRtpHeaderSize encrypted.length).map (a.memory r.recvBuf) =
        encrypted := by
      show (List.range' aeRtpHeaderSize encrypted.length).map (overlay a.data _) = _
      rw [overlay_slice _ _ (by omega), hdata, List.drop_left' (by simp), List.take_length]
    rw [← hlen]
    exact value_decrypt henc hkey hpayload (by unfold aeMaxPacketSize at *; omega)

/-- A receiver with the sender's key and a stream for the sender accepts an audio packet. -/
theorem receive_audioPacket {r : Engine K} {a : Arrival} {encoded : List Byte}
    (hp : audioPacket e encoded = some a.data) (hne : encoded ≠ []) (hact : r.channel.active = true)
    (hkey : findKey r.crypto e.channel.channelIdNum = findKey e.crypto e.channel.channelIdNum)
    (hc : e.clientId ≠ r.clientId)
    (hslot : (findStream r e.clientId).isSome ∨ ∃ i, (r.streams i).active = false) :
    ∃ slot, (streamFor (r.holding a) e.clientId a.alloc).2 = some slot ∧
      receive r a = acceptAudio (streamFor (r.holding a) e.clientId a.alloc).1 slot
        ((audioHeader e).withLength (receivedLength encoded)) encoded a.now := by
  obtain ⟨hheader, hlen, hlong, haad, hdec⟩ := audioPacket_arrives hp hkey
  obtain ⟨slot, hs⟩ := Option.isSome_iff_exists.mp
    ((streamFor_isSome (e := r.holding a) a.alloc hc).mpr hslot)
  have hsame : SameButStreams (r.holding a) (streamFor (r.holding a) e.clientId a.alloc).1 :=
    sameButStreams_streamFor
  have hcrypto : (streamFor (r.holding a) e.clientId a.alloc).1.crypto = r.crypto := by
    obtain ⟨_, _, _, h⟩ := hsame
    rw [h]
    rfl
  have hreceived : receivedLength encoded ≠ 0 := by
    intro h
    rw [h] at hlen
    exact absurd (List.length_pos_iff.mpr hne) (by
      have h0 : (0 : BitVec 16).toNat = 0 := rfl
      omega)
  refine ⟨slot, hs, ?_⟩
  rw [receive_audio hheader rfl hc]
  refine handleAudio_accepts _ hreceived hact (Prod.ext rfl hs) hlong ?_ hne
  rw [haad, hcrypto]
  exact hlen ▸ hdec

/-- **An audio packet survives the trip.** Whatever the header fields, the sequence
number and the payload of 1 to 1352 bytes, the packet that is built fits, and it is
what the sender hands to the socket once the encoder has returned the payload. A
receiver with the same key parses the same header with the length of the encrypted
payload, recovers the associated data, decrypts to the payload, and hands it to the
decoder of the sender's stream. -/
theorem packet_roundtrip (e : Engine L) {key : Key} {encoded : List Byte}
    (hkey : findKey e.crypto e.channel.channelIdNum = some key) (h1 : 1 ≤ encoded.length)
    (h1352 : encoded.length ≤ 1352) :
    ∃ packet, audioPacket e encoded = some packet ∧ packet.length ≤ aeMaxPacketSize ∧
      (e.transmitting = true → aeFrameSize ≤ aeRingbufAvailable e.captureRing →
        (L.encode e.encoder (e.captureRing.contents.take aeFrameSize) aeMaxPacketSize).2 =
          some encoded →
        (transmit e).2 =
          .encode (e.captureRing.contents.take aeFrameSize) :: aeNetSend e.network packet) ∧
      ∀ (r : Engine K) (a : Arrival), a.data = packet → r.channel.active = true →
        findKey r.crypto e.channel.channelIdNum = some key → e.clientId ≠ r.clientId →
        ((findStream r e.clientId).isSome ∨ ∃ i, (r.streams i).active = false) →
        let m := a.memory r.recvBuf
        let aad := zeroPayloadLength ((Reading.slice 0 aeRtpHeaderSize).value m)
        let received : BitVec 16 := BitVec.ofNat 16 (encoded.length + aeCryptoOverhead)
        (aeRtpParseHeader 0 a.data.length).value m =
            some ((audioHeader e).withLength received) ∧
          received.toNat = encoded.length + aeCryptoOverhead ∧
          aad = serializeHeader (audioHeader e) ∧
          (aeCryptoDecrypt r.crypto e.channel.channelIdNum aad aeRtpHeaderSize received.toNat
            aeMaxPacketSize).value m = some encoded ∧
          ∃ slot pushed, (receive r a).2 = .decode slot encoded :: pushed ∧
            ((receive r a).1.streams slot).clientId = e.clientId := by
  obtain ⟨packet, hpacket⟩ := audioPacket_isSome hkey h1352
  have hne : encoded ≠ [] := List.length_pos_iff.mp h1
  refine ⟨packet, hpacket, ?_, ?_, ?_⟩
  · obtain ⟨encrypted, -, hsize, rfl⟩ := audioPacket_eq_some.mp hpacket
    rw [List.length_append, length_serializeHeader]
    exact hsize
  · intro htx hfull hencode
    rcases transmit_cases e with ⟨hidle, -⟩ | ⟨-, hsent⟩
    · rcases hidle with h | h
      · rw [htx] at h
        cases h
      · omega
    · rw [hsent _ rfl, hencode, sendAudio_packet (e := e.encoding) hne hpacket]
      rfl
  · rintro r a rfl hact hkey' hc hslot m aad received
    have hsamekey := hkey'.trans hkey.symm
    obtain ⟨hheader, hlen, -, haad, hdec⟩ := audioPacket_arrives hpacket hsamekey
    refine ⟨(value_parseHeader_overlay a.data _).trans hheader, hlen, haad, ?_, ?_⟩
    · rw [show aad = _ from haad, show received.toNat = _ from hlen]
      exact hdec
    · obtain ⟨slot, hs, haccept⟩ := receive_audioPacket hpacket hne hact hsamekey hc hslot
      obtain ⟨pushed, hpushed, -⟩ := acceptAudio_decodes
        (streamFor (r.holding a) e.clientId a.alloc).1 slot
        ((audioHeader e).withLength (receivedLength encoded)) encoded a.now
      rw [haccept]
      refine ⟨slot, pushed, hpushed, ?_⟩
      rw [clientId_acceptAudio]
      exact (streamFor_some hs).2

/-- Client 7 sends three bytes to client 8. -/
theorem packet_roundtrip_pair : ∃ packet, audioPacket (listener 7) [1, 2, 3] = some packet ∧
    packet.length ≤ aeMaxPacketSize ∧ ∃ (fits : packet.length ≤ aeMaxPacketSize) (slot : StreamIndex)
      (pushed : List (Action (ℚ × ℚ))),
      (receive (listener 8) (arriving packet fits)).2 = .decode slot [1, 2, 3] :: pushed := by
  have hkey : findKey (listener 7).crypto (listener 7).channel.channelIdNum =
      some (deriveKeyFromChannel 1) := rfl
  have h1 : 1 ≤ ([1, 2, 3] : List Byte).length := by decide
  obtain ⟨packet, hp, hfits, -, hreceived⟩ := packet_roundtrip (K := toneLibrary) (listener 7) hkey h1
    (by decide)
  obtain ⟨-, -, -, -, slot, pushed, h, -⟩ := hreceived (listener 8) (arriving packet hfits) rfl rfl rfl
    (by decide) (.inr ⟨⟨0, by decide⟩, rfl⟩)
  exact ⟨packet, hp, hfits, hfits, slot, pushed, h⟩

end AudioPlatform.Core
