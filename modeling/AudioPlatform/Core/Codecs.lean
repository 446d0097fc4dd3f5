import AudioPlatform.Core.Transport
import AudioPlatform.Server.Protocol

/-! One header, three codecs.

The client builds packets and parses them, the server parses them again. The two parsers
agree on every byte string, both read back what is built, and what they read is built back
into the same bytes. -/
namespace AudioPlatform.Core
open AudioPlatform.Server

/-- The client's header with the server's fields. -/
def ofRoutingHeader (h : RoutingHeader) : RtpHeader :=
  { serverId := h.serverId
    channelId := h.channelId
    clientId := h.clientId
    packetType := h.packetType
    flags := h.flags
    payloadLength := h.length }

/-! ### Big-endian numbers -/

theorem writeU16Be_fromBe (a b : Byte) : writeU16Be (u16FromBeBytes a b) = [a, b] := by
  rw [← ofBytes_two]
  exact BigEndian.toBytes_ofBytes [a, b] (le_refl _)

theorem writeU32Be_fromBe (a b c d : Byte) :
    writeU32Be (u32FromBeBytes a b c d) = [a, b, c, d] := by
  rw [← ofBytes_four]
  exact BigEndian.toBytes_ofBytes [a, b, c, d] (le_refl _)

theorem writeU64Be_fromBe (a b c d e f g h : Byte) :
    writeU64Be (u64FromBeBytes a b c d e f g h) = [a, b, c, d, e, f, g, h] := by
  rw [← ofBytes_eight]
  exact BigEndian.toBytes_ofBytes [a, b, c, d, e, f, g, h] (le_refl _)

/-! ### Parsing -/

/-- The bytes of a datagram at a place, one by one. -/
theorem slice_getD (data : List Byte) (rest : Nat → Byte) {start n : Nat}
    (h : start + n ≤ data.length) : (List.range' start n).map (overlay data rest) =
      (List.range' start n).map fun i => data.getD i 0 := by
  apply List.map_congr_left
  intro i hi
  have hlt : i < data.length := by
    have := List.mem_range'_1.mp hi
    omega
  unfold overlay
  rw [List.getD_eq_getElem _ _ hlt, List.getD_eq_getElem _ _ hlt]

/-- The client's parser and the server's agree, whatever follows the datagram in memory. -/
theorem parseHeader_eq (data : List Byte) (rest : Nat → Byte) :
    (aeRtpParseHeader 0 data.length).value (overlay data rest) =
      (RoutingHeader.parse data).map ofRoutingHeader := by
  unfold aeRtpParseHeader RoutingHeader.parse
  by_cases hlen : data.length < aeRtpHeaderSize
  · rw [if_pos hlen, if_pos (show data.length < routingHeaderSize from hlen)]
    rfl
  · rw [if_neg hlen, if_neg (show ¬ data.length < routingHeaderSize from hlen)]
    have hslice : ∀ {start n : Nat}, start + n ≤ aeRtpHeaderSize →
        (List.range' start n).map (overlay data rest) =
          (List.range' start n).map fun i => data.getD i 0 :=
      fun hn => slice_getD data rest (by omega)
    simp only [readU16Be, readU32Be, readU64Be, readU8, Reading.value_bind, Reading.value_pure,
      Reading.value_slice]
    rw [hslice (by decide), hslice (by decide), hslice (by decide), hslice (by decide),
      hslice (by decide), hslice (by decide)]
    simp only [List.range'_succ, List.range'_zero, List.map_cons, List.map_nil, ofBytes_two,
      ofBytes_four, ofBytes_eight]
    rfl

theorem parse_serializeHeader (h : RtpHeader) (payload : List Byte) :
    (RoutingHeader.parse (serializeHeader h ++ payload)).map ofRoutingHeader = some h := by
  rw [← parseHeader_eq _ fun _ => 0]
  exact packetHeader_serialize h payload

/-! ### Building again -/

/-- A header is serialised into the bytes that it was parsed from. -/
theorem serializeHeader_parse {data : List Byte} {h : RoutingHeader}
    (hp : RoutingHeader.parse data = some h) :
    serializeHeader (ofRoutingHeader h) = data.take aeRtpHeaderSize := by
  unfold RoutingHeader.parse at hp
  split at hp
  · cases hp
  · rename_i hlen
    obtain rfl := Option.some.inj hp
    have hdata : data.take aeRtpHeaderSize = (List.range' 0 aeRtpHeaderSize).map fun i => data.getD i 0 := by
      have hle : 0 + aeRtpHeaderSize ≤ data.length := by
        unfold routingHeaderSize at hlen
        unfold aeRtpHeaderSize
        omega
      rw [← slice_getD data (fun _ => 0) hle, overlay_slice _ _ hle, List.drop_zero]
    rw [hdata]
    unfold serializeHeader ofRoutingHeader
    simp only [writeU32Be_fromBe, writeU64Be_fromBe, writeU16Be_fromBe]
    rfl

/-- The payload of a packet that is built is where it is looked for. -/
theorem getPayload_build (header : RtpHeader) {payload : List Byte} (hne : payload ≠ [])
    (rest : Nat → Byte) : ∃ p,
    aeRtpGetPayload 0 (serializeHeader header ++ payload).length = some p ∧
      (Reading.slice p payload.length).value (overlay (serializeHeader header ++ payload) rest) =
        payload := by
  have hpos := List.length_pos_of_ne_nil hne
  unfold aeRtpGetPayload
  rw [List.length_append, length_serializeHeader, if_neg (by omega)]
  refine ⟨_, rfl, ?_⟩
  rw [Reading.value_slice, overlay_slice _ _ (by simp), Nat.zero_add,
    List.drop_left' (length_serializeHeader header), List.take_length]

/-- What is built is read back, by both parsers. -/
theorem build_read (header : RtpHeader) (payload : List Byte) (rest : Nat → Byte) {outSize : Nat}
    (h : aeRtpHeaderSize + payload.length ≤ min outSize aeRtpMaxPacket) :
    ∃ packet length, length.toNat = payload.length ∧
      aeRtpBuildPacket header payload outSize = some packet ∧
      packet.length = aeRtpHeaderSize + payload.length ∧
      (aeRtpParseHeader 0 packet.length).value (overlay packet rest) =
        some (header.withLength length) ∧
      (RoutingHeader.parse packet).map ofRoutingHeader = some (header.withLength length) ∧
      (payload ≠ [] → ∃ p, aeRtpGetPayload 0 packet.length = some p ∧
        (Reading.slice p payload.length).value (overlay packet rest) = payload) := by
  obtain ⟨hout, hmax⟩ := le_min_iff.mp h
  have hlength : (BitVec.ofNat 16 payload.length).toNat = payload.length := by
    unfold aeRtpHeaderSize aeRtpMaxPacket at hmax
    rw [BitVec.toNat_ofNat, Nat.mod_eq_of_lt (by omega)]
  refine ⟨_, _, hlength, aeRtpBuildPacket_eq_some.mpr ⟨hout, hmax, rfl⟩, ?_, ?_, ?_, ?_⟩
  · rw [List.length_append, length_serializeHeader]
  · rw [parseHeader_eq, parse_serializeHeader]
  · exact parse_serializeHeader _ _
  · exact fun hne => getPayload_build _ hne rest

/-- What is read with the right length is built back into the same packet, if a packet of that
size can be built. -/
theorem read_build {data : List Byte} {rest : Nat → Byte} {header : RtpHeader}
    (hp : (aeRtpParseHeader 0 data.length).value (overlay data rest) = some header)
    (hlen : header.payloadLength.toNat = data.length - aeRtpHeaderSize) {outSize : Nat}
    (h : data.length ≤ min outSize aeRtpMaxPacket) :
    aeRtpBuildPacket header (data.drop aeRtpHeaderSize) outSize = some data := by
  rw [parseHeader_eq, Option.map_eq_some_iff] at hp
  obtain ⟨parsed, hp, rfl⟩ := hp
  have hlong : aeRtpHeaderSize ≤ data.length :=
    (RoutingHeader.parse_isSome data).mp (by rw [hp]; rfl)
  have hsize : aeRtpHeaderSize + (data.drop aeRtpHeaderSize).length = data.length := by
    rw [List.length_drop]
    omega
  obtain ⟨hout, hmax⟩ := le_min_iff.mp h
  have hsame : (ofRoutingHeader parsed).withLength
      (BitVec.ofNat 16 (data.drop aeRtpHeaderSize).length) = ofRoutingHeader parsed := by
    rw [List.length_drop, ← hlen, BitVec.ofNat_toNat, BitVec.setWidth_eq]
    rfl
  refine aeRtpBuildPacket_eq_some.mpr ⟨by rwa [hsize], by rwa [hsize], ?_⟩
  rw [hsame, serializeHeader_parse hp, List.take_append_drop]

/-- **One header, three codecs.** The two parsers agree on every byte string, refuse exactly those
that are shorter than a header, and read back every packet that is built; and what they read is
built back into the packet. -/
theorem header_codecs (outSize : Nat) (rest : Nat → Byte) :
    (∀ data : List Byte,
      (aeRtpParseHeader 0 data.length).value (overlay data rest) =
        (RoutingHeader.parse data).map ofRoutingHeader ∧
      (RoutingHeader.parse data = none ↔ data.length < aeRtpHeaderSize)) ∧
    (∀ (header : RtpHeader) (payload : List Byte),
      aeRtpHeaderSize + payload.length ≤ min outSize aeRtpMaxPacket →
      ∃ packet length, length.toNat = payload.length ∧
        aeRtpBuildPacket header payload outSize = some packet ∧
        packet.length = aeRtpHeaderSize + payload.length ∧
        (aeRtpParseHeader 0 packet.length).value (overlay packet rest) =
          some (header.withLength length) ∧
        (RoutingHeader.parse packet).map ofRoutingHeader = some (header.withLength length) ∧
        (payload ≠ [] → ∃ p, aeRtpGetPayload 0 packet.length = some p ∧
          (Reading.slice p payload.length).value (overlay packet rest) = payload)) ∧
    ∀ (data : List Byte) (header : RtpHeader),
      (aeRtpParseHeader 0 data.length).value (overlay data rest) = some header →
      header.payloadLength.toNat = data.length - aeRtpHeaderSize →
      data.length ≤ min outSize aeRtpMaxPacket →
      aeRtpBuildPacket header (data.drop aeRtpHeaderSize) outSize = some data := by
  refine ⟨fun data => ⟨parseHeader_eq data rest, ?_⟩, fun header payload h => ?_,
    fun data header hp hlen h => read_build hp hlen h⟩
  · rw [← Option.not_isSome_iff_eq_none, RoutingHeader.parse_isSome]
    exact not_le
  · exact build_read header payload rest h

/-- A keepalive packet is built back from what is read. -/
theorem header_codecs_keepalive : aeRtpBuildPacket
    { serverId := 0, channelId := 1, clientId := 7, packetType := aeRtpTypeKeepalive, flags := 0
      payloadLength := 0 } [] aeRtpHeaderSize =
      some [0, 0, 0, 0, 0, 0, 0, 1, 0, 0, 0, 0, 0, 0, 0, 7, 1, 0, 0, 0] :=
  (header_codecs aeRtpHeaderSize fun _ => 0).2.2
    [0, 0, 0, 0, 0, 0, 0, 1, 0, 0, 0, 0, 0, 0, 0, 7, 1, 0, 0, 0] _ rfl rfl (by decide)

end AudioPlatform.Core
