import AudioPlatform.Core.Transport

/-! Which bytes of the receive buffer handling a datagram reads. -/
namespace AudioPlatform.Core
open Reading (Within)

variable {Frame : Type} {L : Library Frame}

/-- Handling the datagram gets as far as decrypting it: an audio packet of another
client with a stream or room for one, for a channel whose key is known, that claims
a payload of a length decryption accepts. -/
structure Decrypts (e : Engine L) (a : Arrival) (hdr : RtpHeader) : Prop where
  header : packetHeader a.data = some hdr
  audio : hdr.packetType = aeRtpTypeAudio
  other : hdr.clientId ≠ e.clientId
  stream : (findStream e hdr.clientId).isSome ∨ ∃ i, (e.streams i).active = false
  payload : aeRtpHeaderSize < a.data.length
  least : aeCryptoOverhead ≤ hdr.payloadLength.toNat
  most : hdr.payloadLength.toNat - aeCryptoOverhead ≤ aeMaxPacketSize
  key : (findKey e.crypto hdr.channelId).isSome

/-- What handling an audio packet reads. -/
theorem within_handleAudio {e : Engine L} {a : Arrival} {hdr : RtpHeader} {m : Nat → Byte}
    (hact : e.channel.active = true) (hc : hdr.clientId ≠ e.clientId) :
    Within a.data.length (handleAudio e a hdr) m ↔
      (((findStream e hdr.clientId).isSome ∨ ∃ i, (e.streams i).active = false) →
        aeRtpHeaderSize < a.data.length → aeCryptoOverhead ≤ hdr.payloadLength.toNat →
        hdr.payloadLength.toNat - aeCryptoOverhead ≤ aeMaxPacketSize →
        (findKey e.crypto hdr.channelId).isSome →
        aeRtpHeaderSize + hdr.payloadLength.toNat ≤ a.data.length) := by
  unfold handleAudio
  split
  · rename_i h
    refine iff_of_true (Reading.within_pure _) fun _ _ hleast => ?_
    rcases h with h | h
    · rw [h] at hleast
      exact absurd hleast (by decide)
    · rw [hact] at h
      cases h
  · rw [← streamFor_isSome a.alloc hc]
    have hsame : SameButStreams e (streamFor e hdr.clientId a.alloc).1 := sameButStreams_streamFor
    have hcrypto : (streamFor e hdr.clientId a.alloc).1.crypto = e.crypto := by
      obtain ⟨_, _, _, h⟩ := hsame
      rw [h]
    rcases hs : streamFor e hdr.clientId a.alloc with ⟨e', _ | i⟩
    · exact iff_of_true (Reading.within_pure _) fun h => absurd h (by simp)
    · rw [hs] at hcrypto
      dsimp only at hcrypto ⊢
      unfold aeRtpGetPayload
      by_cases hsize : a.data.length ≤ aeRtpHeaderSize
      · rw [if_pos hsize]
        exact iff_of_true (Reading.within_pure _) fun _ h => absurd h (by omega)
      · rw [if_neg hsize]
        dsimp only
        rw [Reading.within_bind, Reading.within_bind, within_decrypt, hcrypto, Nat.zero_add,
          Reading.within_slice (by decide), Nat.zero_add]
        constructor
        · intro h _ _ hleast hmost hkey
          exact h.2.1 hleast hmost hkey
        · intro h
          refine ⟨by omega, h rfl (by omega), ?_⟩
          split
          · exact Reading.within_pure _
          · exact Reading.within_pure _

/-- Parsing stays inside, so what matters is what the audio branch reads. -/
theorem within_handlePacket {e : Engine L} {a : Arrival} {m : Nat → Byte} :
    Within a.data.length (handlePacket e a) (overlay a.data m) ↔
      ∀ hdr, packetHeader a.data = some hdr → hdr.packetType = aeRtpTypeAudio →
        hdr.clientId ≠ e.clientId →
        Within a.data.length (handleAudio e a hdr) (overlay a.data m) := by
  have hparse : Within a.data.length (aeRtpParseHeader 0 a.data.length) (overlay a.data m) :=
    within_parseHeader fun h => by omega
  unfold handlePacket
  rw [Reading.within_bind, value_parseHeader_overlay]
  cases hp : packetHeader a.data with
  | none => exact iff_of_true ⟨hparse, Reading.within_pure _⟩ fun hdr h => by cases h
  | some hdr =>
    dsimp only
    by_cases hpong : hdr.packetType = aeRtpTypePong
    · rw [if_pos hpong]
      refine iff_of_true ⟨hparse, Reading.within_pure _⟩ fun hdr' h ht => ?_
      obtain rfl := Option.some.inj h
      rw [hpong] at ht
      exact absurd ht (by decide)
    · rw [if_neg hpong]
      by_cases hc : hdr.clientId = e.clientId
      · rw [if_pos hc]
        refine iff_of_true ⟨hparse, Reading.within_pure _⟩ fun hdr' h _ hc' => ?_
        obtain rfl := Option.some.inj h
        exact absurd hc hc'
      · rw [if_neg hc]
        by_cases ht : hdr.packetType = aeRtpTypeAudio
        · rw [if_pos ht]
          constructor
          · intro h hdr' hp' _ _
            obtain rfl := Option.some.inj hp'
            exact h.2
          · exact fun h => ⟨hparse, h hdr rfl ht hc⟩
        · rw [if_neg ht]
          refine iff_of_true ⟨hparse, Reading.within_pure _⟩ fun hdr' h ht' => ?_
          obtain rfl := Option.some.inj h
          exact absurd ht' ht

/-- **Reading past the datagram.** While a channel is active, handling a datagram reads
no byte from its length on exactly if its header, should it get as far as being
decrypted, claims no more payload than follows it. -/
theorem datagram_within {e : Engine L} (hact : e.channel.active = true) (a : Arrival) :
    Within a.data.length (handlePacket (e.holding a) a) (a.memory e.recvBuf) ↔
      ∀ hdr, Decrypts e a hdr → aeRtpHeaderSize + hdr.payloadLength.toNat ≤ a.data.length := by
  unfold Arrival.memory
  rw [within_handlePacket]
  constructor
  · intro h hdr hd
    exact (within_handleAudio (e := e.holding a) hact hd.other).mp (h hdr hd.header hd.audio hd.other)
      hd.stream hd.payload hd.least hd.most hd.key
  · intro h hdr hp ht hc
    exact (within_handleAudio (e := e.holding a) hact hc).mpr fun hs hpay hleast hmost hkey =>
      h hdr ⟨hp, ht, hc, hs, hpay, hleast, hmost, hkey⟩

/-- An audio header of client 8 on channel 1 that claims 100 bytes. -/
def longClaim : RtpHeader :=
  { serverId := 0
    channelId := 1
    clientId := 8
    packetType := aeRtpTypeAudio
    flags := aeRtpFlagStereo
    payloadLength := 100 }

/-- The header with one byte behind it. -/
def longClaimDatagram : Arrival := arriving (serializeHeader longClaim ++ [0]) (by decide)

/-- A datagram with the 28 bytes that its header claims. -/
def fairClaimDatagram : Arrival :=
  arriving (serializeHeader (longClaim.withLength 28) ++ List.replicate 28 0) (by decide)

theorem datagram_within_fair :
    Within 48 (handlePacket ((listener 7).holding fairClaimDatagram) fairClaimDatagram)
      (fairClaimDatagram.memory (listener 7).recvBuf) := by
  refine (datagram_within (e := listener 7) rfl fairClaimDatagram).mpr fun hdr hd => ?_
  have hheader : packetHeader fairClaimDatagram.data = some (longClaim.withLength 28) :=
    packetHeader_serialize _ _
  obtain rfl := Option.some.inj (hd.header.symm.trans hheader)
  decide

/-- The 21 bytes make the engine read 120. -/
theorem reads_past_datagram :
    (listener 7).channel.active = true ∧ longClaimDatagram.data.length = 21 ∧
      ¬ Within 21 (handlePacket ((listener 7).holding longClaimDatagram) longClaimDatagram)
        (longClaimDatagram.memory (listener 7).recvBuf) := by
  have hheader : packetHeader longClaimDatagram.data = some longClaim :=
    packetHeader_serialize longClaim [0]
  refine ⟨rfl, rfl, fun h => ?_⟩
  have haudio := within_handlePacket.mp h longClaim hheader rfl (by decide)
  have := (within_handleAudio (e := (listener 7).holding longClaimDatagram) rfl (by decide)).mp haudio
    (.inr ⟨⟨0, by decide⟩, rfl⟩) (by decide) (by decide) (by decide) rfl
  exact absurd this (by decide)

end AudioPlatform.Core
