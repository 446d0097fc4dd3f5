import AudioPlatform.Core.Isolation
import AudioPlatform.Core.Steps

/-! What a datagram leaves that does not authenticate.

An audio datagram is decrypted after its sender's stream is looked up, and where there
is none it is created first. So a datagram that is then rejected leaves the stream table
as it was unless it came from a new sender with a slot free for it. -/
namespace AudioPlatform.Core
open Concurrency

variable {Frame : Type} {L : Library Frame}

/-- An audio datagram that is not accepted: the payload is missing, too short, without a key or
does not authenticate, or there is nothing in it. -/
structure Rejected (e : Engine L) (a : Arrival) (hdr : RtpHeader) : Prop where
  header : packetHeader a.data = some hdr
  audio : hdr.packetType = aeRtpTypeAudio
  refused : a.data.length ≤ aeRtpHeaderSize ∨ ∀ data, e.decrypted a hdr = some data → data = []

/-- The datagram does not get as far as a new stream: it claims no payload, nobody listens, it
is our own, its sender has a stream, or there is no room for one. -/
def Traceless (e : Engine L) (hdr : RtpHeader) : Prop :=
  hdr.payloadLength = 0 ∨ e.channel.active = false ∨ hdr.clientId = e.clientId ∨
    (findStream e hdr.clientId).isSome ∨ ∀ i, (e.streams i).active = true

/-! ### One datagram -/

theorem receive_rejected {e : Engine L} {a : Arrival} {hdr : RtpHeader} (h : Rejected e a hdr)
    (hc : hdr.clientId ≠ e.clientId) : receive e a = ((e.holding a).dropping a hdr, []) := by
  rw [receive_audio h.header h.audio hc]
  rcases handleAudio_cases (e.holding a) a hdr (a.memory e.recvBuf) with
    hdrop | ⟨e', i, data, -, -, hsize, hne, hdec, -⟩
  · exact hdrop
  · rcases h.refused with hmissing | hrefused
    · omega
    · exact absurd (hrefused data hdec) hne

theorem not_sameTable_opening {e : Engine L} {i : StreamIndex} (hi : (e.streams i).active = false)
    (c : BitVec 64) (alloc : Allocation) : ¬ SameTable e (e.opening c alloc i) := by
  intro h
  have hactive : ((e.opening c alloc i).streams i).active = true := by
    show (Function.update e.streams i _ i).active = true
    rw [Function.update_self]
    rfl
  rw [h.streams, hi] at hactive
  cases hactive

/-- What is not audio, or is our own, leaves the table alone. -/
theorem sameTable_other {e : Engine L} {a : Arrival} (h : ∀ hdr, packetHeader a.data = some hdr →
    hdr.packetType = aeRtpTypeAudio → hdr.clientId = e.clientId) :
    SameTable e (receive e a).1 := by
  rcases receive_other h with h | h
  · rw [h]
    exact sameTable_holding e a
  · rw [h]
    exact (sameTable_holding e a).trans (sameTable_handlePong _ _)

theorem sameTable_rejected_iff {e : Engine L} {a : Arrival} {hdr : RtpHeader}
    (h : Rejected e a hdr) : SameTable e (receive e a).1 ↔ Traceless e hdr := by
  by_cases hc : hdr.clientId = e.clientId
  · refine ⟨fun _ => .inr (.inr (.inl hc)), fun _ => sameTable_other fun hdr' hp _ => ?_⟩
    obtain rfl := Option.some.inj (h.header.symm.trans hp)
    exact hc
  · rw [receive_rejected h hc]
    rcases dropping_cases (e.holding a) a hdr with
      ⟨hdrop, hwhy⟩ | ⟨hlen, hact, hnone, -, i, hi, hopen⟩
    · rw [hdrop]
      refine ⟨fun _ => ?_, fun _ => sameTable_holding e a⟩
      rcases hwhy with hlen | hoff | hfound | hown | hfull
      · exact .inl hlen
      · exact .inr (.inl hoff)
      · exact .inr (.inr (.inr (.inl hfound)))
      · exact absurd hown hc
      · exact .inr (.inr (.inr (.inr hfull)))
    · rw [hopen]
      constructor
      · intro hsame
        exact absurd ⟨hsame.streams, hsame.streamCount, hsame.activeStreams⟩
          (not_sameTable_opening hi hdr.clientId a.alloc)
      · rintro (hzero | hoff | hown | hfound | hfull)
        · exact absurd hzero hlen
        · exact absurd (hoff.symm.trans hact) (by decide)
        · exact absurd hown hc
        · rw [← findStream_holding e a, hnone] at hfound
          cases hfound
        · exact absurd (hi.symm.trans (hfull i)) (by decide)

/-! ### Sequences -/

/-- The audio datagram that arrives, if one does, is rejected. -/
def AllRejected (e : Engine L) : EngineStep Frame → Prop
  | .arrive a => ∀ hdr, packetHeader a.data = some hdr → hdr.packetType = aeRtpTypeAudio →
      Rejected e a hdr
  | _ => True

/-- The step occupies no slot of the table, and a datagram does not touch it. -/
def OccupiesNone (e : Engine L) (s : EngineStep Frame) : Prop :=
  (∀ i, ((e.step s).1.streams i).active = true → (e.streams i).active = true) ∧
    ∀ a, s = .arrive a → SameTable e (e.step s).1

/-- The audio datagram that arrives, if one does, does not get as far as a new stream. -/
def AllTraceless (e : Engine L) : EngineStep Frame → Prop
  | .arrive a => ∀ hdr, packetHeader a.data = some hdr → hdr.packetType = aeRtpTypeAudio →
      Traceless e hdr
  | _ => True

theorem occupiesNone_of_sameTable {e : Engine L} {s : EngineStep Frame}
    (h : SameTable e (e.step s).1) : OccupiesNone e s := by
  refine ⟨fun i hi => ?_, fun _ _ => h⟩
  rwa [h.streams] at hi

theorem occupiesNone_iff {e : Engine L} {s : EngineStep Frame} (h : AllRejected e s) :
    OccupiesNone e s ↔ AllTraceless e s := by
  cases s with
  | arrive a =>
    constructor
    · exact fun hnone hdr hp ht => (sameTable_rejected_iff (h hdr hp ht)).mp (hnone.2 a rfl)
    · intro htraceless
      refine occupiesNone_of_sameTable ?_
      by_cases hother : ∀ hdr, packetHeader a.data = some hdr → hdr.packetType = aeRtpTypeAudio →
          hdr.clientId = e.clientId
      · exact sameTable_other hother
      · push Not at hother
        obtain ⟨hdr, hp, ht, -⟩ := hother
        exact (sameTable_rejected_iff (h hdr hp ht)).mpr (htraceless hdr hp ht)
  | command c hc =>
    refine ⟨fun _ => trivial, fun _ => ⟨fun i hi => ?_, fun a ha => by cases ha⟩⟩
    rcases streams_command e hc with hsame | hnone
    · exact congrArg (fun t => (t i).active) hsame ▸ hi
    · exact absurd (hi.symm.trans (hnone i)) (by decide)
  | capture => exact ⟨fun _ => trivial, fun _ => occupiesNone_of_sameTable (sameTable_transmit e)⟩
  | keepalive now =>
    exact ⟨fun _ => trivial, fun _ => occupiesNone_of_sameTable (sameTable_keepalive e now)⟩
  | ping now => exact ⟨fun _ => trivial, fun _ => occupiesNone_of_sameTable (sameTable_ping e now)⟩
  | mix isConnected nowMix =>
    refine ⟨fun _ => trivial, fun _ => ⟨fun i hi => ?_, fun a ha => by cases ha⟩⟩
    obtain ⟨decoder, hmix⟩ := streams_mix isConnected e nowMix i
    by_contra hoff
    rw [step_mix, hmix] at hi
    have := inactive_mixed (s := e.streams i) (by simpa using hoff) nowMix
    exact absurd (hi.symm.trans this) (by decide)

/-- **What is rejected leaves a trace.** In every state a rejected datagram leaves the stream
table and its counts as they were exactly if it does not get as far as a new stream. So a
sequence of rejected datagrams, with whatever else between them, occupies no slot exactly if
none of them does. -/
theorem rejected_iff (e : Engine L) :
    (∀ a hdr, Rejected e a hdr → (SameTable e (receive e a).1 ↔ Traceless e hdr)) ∧
    ∀ steps, Machine.Along Engine.step AllRejected e steps →
      (Machine.Along Engine.step OccupiesNone e steps ↔
        Machine.Along Engine.step AllTraceless e steps) :=
  ⟨fun _ _ h => sameTable_rejected_iff h,
    fun _ h => Machine.along_congr (fun _ _ hrejected => occupiesNone_iff hrejected) h⟩

/-! ### A byte of junk -/

/-- A datagram with a header and one byte, which is no payload of any key. -/
def junkHeader (payloadLength : BitVec 16) : RtpHeader :=
  { serverId := 0
    channelId := 1
    clientId := 8
    packetType := aeRtpTypeAudio
    flags := 0
    payloadLength }

def junk (payloadLength : BitVec 16) : Arrival :=
  arriving (serializeHeader (junkHeader payloadLength) ++ [0]) (by simp; decide)

theorem rejected_junk (e : Engine L) {payloadLength : BitVec 16} (h : payloadLength.toNat ≤ 1) :
    Rejected e (junk payloadLength) (junkHeader payloadLength) := by
  refine ⟨packetHeader_serialize _ _, rfl, .inr fun data hdec => ?_⟩
  unfold Engine.decrypted aeCryptoDecrypt at hdec
  dsimp only at hdec
  rw [if_pos] at hdec
  · cases hdec
  · show payloadLength.toNat < aeCryptoOverhead
    unfold aeCryptoOverhead aeCryptoIvSize aeCryptoTagSize
    omega

/-- The junk takes a slot of client 7's table. -/
theorem junk_occupies : Rejected (listener 7) (junk 1) (junkHeader 1) ∧
    ¬ SameTable (listener 7) (receive (listener 7) (junk 1)).1 := by
  have hrejected : Rejected (listener 7) (junk 1) (junkHeader 1) := rejected_junk _ (by decide)
  refine ⟨hrejected, fun h => ?_⟩
  rcases (sameTable_rejected_iff hrejected).mp h with hzero | hoff | hown | hfound | hfull
  · cases hzero
  · cases hoff
  · cases hown
  · obtain ⟨i, hi, -⟩ := findStream_isSome.mp hfound
    cases hi
  · cases hfull ⟨0, by decide⟩

/-- Junk that claims no payload is ignored. -/
theorem rejected_iff_junk :
    SameTable (listener 7) (receive (listener 7) (junk 0)).1 :=
  ((rejected_iff (listener 7)).1 _ _ (rejected_junk _ (by decide))).mpr (.inl rfl)

end AudioPlatform.Core
