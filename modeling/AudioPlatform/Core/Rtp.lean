import AudioPlatform.Wire.BigEndian
import AudioPlatform.Wire.Reading

/-! The client's packets: the routing header, building and parsing, and the
sequence tracker. -/
namespace AudioPlatform.Core

/-! ### Routing header -/

def aeRtpHeaderSize : Nat := 20
def aeRtpMaxPacket : Nat := 1500

def aeRtpTypeAudio : Byte := 0
def aeRtpTypeKeepalive : Byte := 1
def aeRtpTypePing : Byte := 2
def aeRtpTypePong : Byte := 3

def aeRtpFlagStereo : Byte := 0x01

structure RtpHeader where
  serverId : BitVec 32
  channelId : BitVec 32
  clientId : BitVec 64
  packetType : Byte
  flags : Byte
  payloadLength : BitVec 16
  deriving DecidableEq, Repr

def RtpHeader.withLength (h : RtpHeader) (payloadLength : BitVec 16) : RtpHeader :=
  { h with payloadLength }

def writeU16Be (v : BitVec 16) : List Byte := BigEndian.toBytes 2 v
def writeU32Be (v : BitVec 32) : List Byte := BigEndian.toBytes 4 v
def writeU64Be (v : BitVec 64) : List Byte := BigEndian.toBytes 8 v

def readU16Be (p : Nat) : Reading Byte (BitVec 16) := do
  return BigEndian.ofBytes 16 (← Reading.slice p 2)

def readU32Be (p : Nat) : Reading Byte (BitVec 32) := do
  return BigEndian.ofBytes 32 (← Reading.slice p 4)

def readU64Be (p : Nat) : Reading Byte (BitVec 64) := do
  return BigEndian.ofBytes 64 (← Reading.slice p 8)

def readU8 (p : Nat) : Reading Byte Byte := do
  return (← Reading.slice p 1).headD 0

def serializeHeader (h : RtpHeader) : List Byte :=
  writeU32Be h.serverId ++ writeU32Be h.channelId ++ writeU64Be h.clientId ++
    [h.packetType] ++ [h.flags] ++ writeU16Be h.payloadLength

/-! ### Building and parsing -/

/-- `none` for -1. The payload of a packet without one is empty. -/
def aeRtpBuildPacket (header : RtpHeader) (payload : List Byte) (outSize : Nat) :
    Option (List Byte) :=
  let total := aeRtpHeaderSize + payload.length
  if outSize < total ∨ aeRtpMaxPacket < total then none
  else
    let h := header.withLength (BitVec.ofNat 16 payload.length)
    some (serializeHeader h ++ payload)

/-- Parses the header at `data` of a packet of `dataLen` bytes; `none` for -1. -/
def aeRtpParseHeader (data dataLen : Nat) : Reading Byte (Option RtpHeader) :=
  if dataLen < aeRtpHeaderSize then pure none
  else do
    let serverId ← readU32Be (data + 0)
    let channelId ← readU32Be (data + 4)
    let clientId ← readU64Be (data + 8)
    let packetType ← readU8 (data + 16)
    let flags ← readU8 (data + 17)
    let payloadLength ← readU16Be (data + 18)
    return some { serverId, channelId, clientId, packetType, flags, payloadLength }

def aeRtpBuildKeepalive (serverId channelId : BitVec 32) (clientId : BitVec 64) (outSize : Nat) :
    Option (List Byte) :=
  aeRtpBuildPacket
    { serverId, channelId, clientId, packetType := aeRtpTypeKeepalive, flags := 0, payloadLength := 0 }
    [] outSize

def aeRtpBuildPing (serverId : BitVec 32) (clientId timestamp : BitVec 64) (outSize : Nat) :
    Option (List Byte) :=
  aeRtpBuildPacket
    { serverId, channelId := 0, clientId, packetType := aeRtpTypePing, flags := 0, payloadLength := 0 }
    (writeU64Be timestamp) outSize

/-- Where the payload of a packet of `dataLen` bytes at `data` starts; `none` for NULL. -/
def aeRtpGetPayload (data dataLen : Nat) : Option Nat :=
  if dataLen ≤ aeRtpHeaderSize then none else some (data + aeRtpHeaderSize)

@[simp] theorem length_writeU16Be (v : BitVec 16) : (writeU16Be v).length = 2 :=
  BigEndian.length_toBytes v

@[simp] theorem length_writeU32Be (v : BitVec 32) : (writeU32Be v).length = 4 :=
  BigEndian.length_toBytes v

@[simp] theorem length_writeU64Be (v : BitVec 64) : (writeU64Be v).length = 8 :=
  BigEndian.length_toBytes v

@[simp] theorem ofBytes_writeU16Be (v : BitVec 16) : BigEndian.ofBytes 16 (writeU16Be v) = v :=
  BigEndian.ofBytes_toBytes (n := 2) v

@[simp] theorem ofBytes_writeU32Be (v : BitVec 32) : BigEndian.ofBytes 32 (writeU32Be v) = v :=
  BigEndian.ofBytes_toBytes (n := 4) v

@[simp] theorem ofBytes_writeU64Be (v : BitVec 64) : BigEndian.ofBytes 64 (writeU64Be v) = v :=
  BigEndian.ofBytes_toBytes (n := 8) v

@[simp] theorem length_serializeHeader (h : RtpHeader) :
    (serializeHeader h).length = aeRtpHeaderSize := by
  simp [serializeHeader, aeRtpHeaderSize]

/-- A packet is its header, with the payload's length in it, and its payload. -/
theorem aeRtpBuildPacket_eq_some {header : RtpHeader} {payload packet : List Byte} {outSize : Nat} :
    aeRtpBuildPacket header payload outSize = some packet ↔
      aeRtpHeaderSize + payload.length ≤ outSize ∧ aeRtpHeaderSize + payload.length ≤ aeRtpMaxPacket ∧
        packet = serializeHeader (header.withLength (BitVec.ofNat 16 payload.length)) ++ payload := by
  unfold aeRtpBuildPacket
  dsimp only
  split
  · rename_i h
    simp only [reduceCtorEq, false_iff]
    omega
  · rename_i h
    rw [Option.some.injEq, eq_comm]
    constructor
    · rintro rfl
      exact ⟨by omega, by omega, rfl⟩
    · exact fun h => h.2.2

/-- Parsing reads the header and nothing else. -/
theorem within_parseHeader {data dataLen L : Nat} {m : Nat → Byte}
    (h : aeRtpHeaderSize ≤ dataLen → data + aeRtpHeaderSize ≤ L) :
    Reading.Within L (aeRtpParseHeader data dataLen) m := by
  unfold aeRtpParseHeader aeRtpHeaderSize at *
  split
  · exact Reading.within_pure none
  · have := h (by omega)
    simp only [readU16Be, readU32Be, readU64Be, readU8, Reading.within_bind, Reading.within_pure,
      Reading.within_slice (show 0 < 1 by omega), Reading.within_slice (show 0 < 2 by omega),
      Reading.within_slice (show 0 < 4 by omega), Reading.within_slice (show 0 < 8 by omega), and_true]
    omega

/-- A packet's header is what is parsed from it, whatever follows. -/
theorem value_parseHeader (h : RtpHeader) (payload : List Byte) (rest : Nat → Byte) {dataLen : Nat}
    (hlen : aeRtpHeaderSize ≤ dataLen) :
    (aeRtpParseHeader 0 dataLen).value (overlay (serializeHeader h ++ payload) rest) = some h := by
  have hslice : ∀ start n, start + n ≤ aeRtpHeaderSize →
      (List.range' start n).map (overlay (serializeHeader h ++ payload) rest) =
        ((serializeHeader h).drop start).take n := by
    intro start n hn
    rw [overlay_slice _ _ (by simp; omega), List.drop_append_of_le_length (by simp; omega),
      List.take_append_of_le_length (by simp; omega)]
  unfold aeRtpParseHeader
  rw [if_neg (by omega)]
  simp only [readU16Be, readU32Be, readU64Be, readU8, Reading.value_bind, Reading.value_pure,
    Reading.value_slice]
  rw [hslice _ _ (by decide), hslice _ _ (by decide), hslice _ _ (by decide), hslice _ _ (by decide),
    hslice _ _ (by decide), hslice _ _ (by decide)]
  simp [serializeHeader, List.drop_append, List.drop_eq_nil_of_le, List.take_of_length_le]

/-! ### Sequence tracker -/

structure RtpSeqTracker where
  nextSeq : BitVec 32
  maxSeq : BitVec 32
  received : BitVec 32
  lost : BitVec 32
  reordered : BitVec 32
  deriving DecidableEq, Repr

def aeRtpSeqInit : RtpSeqTracker := ⟨0, 0, 0, 0, 0⟩

/-- The tracker after `seq` has arrived, with 0 for in order, 1 for late and -1
for a duplicate. -/
def aeRtpSeqUpdate (tracker : RtpSeqTracker) (seq : BitVec 32) : RtpSeqTracker × Int :=
  let tracker := { tracker with received := tracker.received + 1 }
  if tracker.received = 1 then
    -- first packet
    ({ tracker with nextSeq := seq + 1, maxSeq := seq }, 0)
  else if seq = tracker.nextSeq then
    ({ tracker with
        nextSeq := seq + 1
        maxSeq := if tracker.maxSeq < seq then seq else tracker.maxSeq }, 0)
  else if tracker.nextSeq < seq then
    -- gap detected
    let gap := seq - tracker.nextSeq
    ({ tracker with lost := tracker.lost + gap, nextSeq := seq + 1, maxSeq := seq }, 0)
  else if tracker.maxSeq - 1000 < seq then
    -- late, within the recent window: one fewer lost
    ({ tracker with
        reordered := tracker.reordered + 1
        lost := if 0 < tracker.lost then tracker.lost - 1 else tracker.lost }, 1)
  else
    (tracker, -1)

end AudioPlatform.Core
