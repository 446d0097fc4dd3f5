import Mathlib.Data.Fin.Basic
import AudioPlatform.Core.Crypto
import AudioPlatform.Core.Mixer
import AudioPlatform.Core.RingBuffer

/-! The audio engine: its state and its API.

An engine is generic in the stereo frames it captures and in the `Library` that
encodes and decodes them. What a call hands to the codec, to the socket and to a
jitter buffer is told by the `Action`s it returns beside the new state. -/
namespace AudioPlatform.Core

def aeSampleRate : Int := 48000
def aeMaxPacketSize : Nat := 1400
def aeOpusBitrate : Int := 128000

def captureRingFrames : Nat := 64
def playbackRingFrames : Nat := 64

/-! ### Codec -/

/-- The codec and the mathematics library. `encode` returns `none` for an error and
the bytes written otherwise; `decode` and `decodePlc` write into the frame they are
given and return the samples per channel or an error. -/
structure Library (Frame : Type) where
  Encoder : Type
  Decoder : Type
  encoderCreate : Int → Int → Option Encoder
  encode : Encoder → List Frame → Nat → Encoder × Option (List Byte)
  decoderCreate : Decoder
  decode : Decoder → List Byte → Pcm → Decoder × Int × Pcm
  decodePlc : Decoder → Pcm → Decoder × Int × Pcm
  tanhf : ℚ → ℚ

variable {Frame : Type} {L : Library Frame}

def aeOpusEncoderCreate (L : Library Frame) (bitrate complexity : Int) : Option L.Encoder :=
  let bitrate := if bitrate ≤ 0 then aeOpusBitrate else bitrate
  let complexity := if complexity ≤ 0 ∨ 10 < complexity then 10 else complexity
  L.encoderCreate bitrate complexity

/-- A decoder that could not be allocated is NULL. -/
def aeOpusDecode (dec : Option L.Decoder) (data : List Byte) (pcm : Pcm) :
    Option L.Decoder × Int × Pcm :=
  match dec with
  | none => (none, -1, pcm)
  | some d =>
    if data.isEmpty then (some d, -1, pcm)
    else
      let (d, ret, pcm) := L.decode d data pcm
      (some d, ret, pcm)

def aeOpusDecodePlc (dec : L.Decoder) (pcm : Pcm) : L.Decoder × Int × Pcm := L.decodePlc dec pcm

/-! ### State -/

inductive AeError where
  | ok
  | invalidParam
  | network
  | full
  | notConnected
  deriving DecidableEq, Repr

structure AeConfig where
  sampleRate : Int
  channels : Int
  frameSize : Int
  opusBitrate : Int
  opusFec : Bool
  opusComplexity : Int
  jitterBufferFrames : Int
  deriving DecidableEq, Repr

structure RemoteStream (L : Library Frame) where
  clientId : BitVec 64
  active : Bool
  decoder : Option L.Decoder
  jitter : Option Jitter
  seqTracker : RtpSeqTracker
  volume : ℚ
  volumeTarget : ℚ
  lastRecvMs : BitVec 64

/-- A slot as the engine is allocated, all zero. -/
def RemoteStream.blank : RemoteStream L :=
  ⟨0, false, none, none, aeRtpSeqInit, 0, 0, 0⟩

/-- A string without its terminating NUL. -/
abbrev CString := List Byte

structure ChannelState where
  channelIdStr : CString
  channelIdNum : BitVec 32
  active : Bool
  transmitting : Bool
  volume : ℚ

/-- The UDP socket. -/
structure Net where
  sock : Bool
  connected : Bool
  deriving DecidableEq, Repr

abbrev StreamIndex := Fin aeMaxUsersPerCh

structure Engine (L : Library Frame) where
  config : AeConfig
  connected : Bool
  encoder : L.Encoder
  network : Net
  crypto : Crypto
  mixer : Mixer
  captureRing : RingBuffer Frame
  playbackRing : RingBuffer (ℚ × ℚ)
  streams : StreamIndex → RemoteStream L
  streamCount : Int
  channel : ChannelState
  transmitting : Bool
  txSequence : BitVec 32
  decodeFrame : Pcm
  /-- The receive buffer as earlier datagrams have left it. -/
  recvBuf : Nat → Byte
  streamFrames : Nat → Pcm
  packetsSent : BitVec 64
  packetsReceived : BitVec 64
  bufferUnderruns : BitVec 32
  activeStreams : Int
  rttMs : ℚ
  lastKeepaliveMs : BitVec 64
  lastPingMs : BitVec 64
  pingSendTimeMs : BitVec 64
  masterVolume : ℚ
  serverId : BitVec 32
  clientId : BitVec 64

/-- What the engine hands out. -/
inductive Action (Frame : Type) where
  /-- A captured frame, to the encoder. -/
  | encode (pcm : List Frame)
  /-- A packet, to the socket, which may not be open. -/
  | send (packet : List Byte) (sock : Bool)
  /-- A decrypted payload, to the decoder of a stream. -/
  | decode (slot : StreamIndex) (data : List Byte)
  /-- The frame decoded from a datagram with header `hdr`, to the jitter buffer of a stream. -/
  | push (hdr : RtpHeader) (slot : StreamIndex) (frame : Pcm) (seq : BitVec 32)

/-! ### Channel numbers -/

/-- What follows the last `c`. -/
def strrchr (c : Byte) : CString → Option CString
  | [] => none
  | b :: rest =>
    match strrchr c rest with
    | some tail => some tail
    | none => if b = c then some rest else none

def isDigit (b : Byte) : Bool := 0x30 ≤ b && b ≤ 0x39

/-- The number at the start of a string. C leaves open what comes of one that an `int` cannot hold, and its
libraries differ; here the caller takes it modulo `2 ^ 32`. -/
def atoi (str : CString) : Nat :=
  (str.takeWhile isDigit).foldl (fun n b => 10 * n + (b.toNat - 0x30)) 0

def channelHash (str : CString) : BitVec 32 :=
  str.foldl (fun h b => ((h <<< 5) + h) + b.signExtend 32) 5381

def channelStrToId (str : CString) : BitVec 32 :=
  match strrchr 0x2D str with
  | some (digit :: rest) =>
    if isDigit digit then BitVec.ofNat 32 (atoi (digit :: rest)) else channelHash str
  | _ => channelHash str

/-! ### Streams -/

/-- Whether the allocations of a new stream succeed, and when it is created. -/
structure Allocation where
  decoder : Bool
  jitter : Bool
  now : BitVec 64

def findStream (e : Engine L) (clientId : BitVec 64) : Option StreamIndex :=
  (List.finRange aeMaxUsersPerCh).find? fun i =>
    (e.streams i).active && (e.streams i).clientId = clientId

def newStream (e : Engine L) (clientId : BitVec 64) (alloc : Allocation) : RemoteStream L :=
  { clientId
    active := true
    decoder := if alloc.decoder then some L.decoderCreate else none
    jitter :=
      if alloc.jitter then
        some (aeJitterCreate
          (if 0 < e.config.jitterBufferFrames then e.config.jitterBufferFrames else 3)
          2 aeJitterBufFrames)
      else none
    seqTracker := aeRtpSeqInit
    volume := 1
    volumeTarget := 1
    lastRecvMs := alloc.now }

/-- `none` for NULL: the client is ourselves, or all slots are full. -/
def createStream (e : Engine L) (clientId : BitVec 64) (alloc : Allocation) :
    Engine L × Option StreamIndex :=
  if clientId = e.clientId then (e, none)
  else
    match findStream e clientId with
    | some i => (e, some i)
    | none =>
      match (List.finRange aeMaxUsersPerCh).find? fun i => !(e.streams i).active with
      | some i =>
        ({ e with
            streams := Function.update e.streams i (newStream e clientId alloc)
            streamCount := e.streamCount + 1
            activeStreams := e.streamCount + 1 }, some i)
      | none => (e, none)

def destroyStream (e : Engine L) (i : StreamIndex) : Engine L :=
  if !(e.streams i).active then e
  else
    { e with
      streams := Function.update e.streams i
        { e.streams i with active := false, decoder := none, jitter := none }
      streamCount := e.streamCount - 1
      activeStreams := e.streamCount - 1 }

/-! ### Lifecycle -/

def aeConfigDefault : AeConfig :=
  { sampleRate := aeSampleRate
    channels := aeChannels
    frameSize := aeFrameSize
    opusBitrate := aeOpusBitrate
    opusFec := true
    opusComplexity := 10
    jitterBufferFrames := aeJitterBufFrames }

/-- Defaults in place of zero fields. -/
def AeConfig.filled (config : AeConfig) : AeConfig :=
  { config with
    sampleRate := if config.sampleRate = 0 then aeSampleRate else config.sampleRate
    channels := if config.channels = 0 then aeChannels else config.channels
    frameSize := if config.frameSize = 0 then aeFrameSize else config.frameSize
    opusBitrate := if config.opusBitrate = 0 then aeOpusBitrate else config.opusBitrate
    opusComplexity := if config.opusComplexity = 0 then 10 else config.opusComplexity
    jitterBufferFrames :=
      if config.jitterBufferFrames = 0 then aeJitterBufFrames else config.jitterBufferFrames }

/-- `none` for NULL. The buffers that the engine is allocated with are zero. -/
def aeEngineCreate [Zero Frame] (L : Library Frame) (config : Option AeConfig) :
    Option (Engine L) := do
  let config := (config.getD aeConfigDefault).filled
  let encoder ← aeOpusEncoderCreate L config.opusBitrate config.opusComplexity
  let captureRing ← aeRingbufCreate ((captureRingFrames * aeFrameSize : Nat) : Int) aeChannels
  let playbackRing ← aeRingbufCreate ((playbackRingFrames * aeFrameSize : Nat) : Int) aeChannels
  return {
    config
    connected := false
    encoder
    network := ⟨false, false⟩
    crypto := aeCryptoInit
    mixer := aeMixerCreate aeMaxUsersPerCh
    captureRing
    playbackRing
    streams := fun _ => .blank
    streamCount := 0
    channel := ⟨[], 0, false, false, 0⟩
    transmitting := false
    txSequence := 0
    decodeFrame := fun _ => 0
    recvBuf := fun _ => 0
    streamFrames := fun _ _ => 0
    packetsSent := 0
    packetsReceived := 0
    bufferUnderruns := 0
    activeStreams := 0
    rttMs := 0
    lastKeepaliveMs := 0
    lastPingMs := 0
    pingSendTimeMs := 0
    masterVolume := 1
    serverId := 0
    clientId := 0 }

/-! ### Connection -/

/-- How far connecting a UDP socket gets. -/
inductive NetOutcome where
  | unresolved
  | noSocket
  | blocking
  | refused
  | connected
  deriving DecidableEq, Repr

/-- Returns whether the socket is connected. A socket still open is closed first. -/
def aeNetConnect (net : Net) (outcome : NetOutcome) : Net × Bool :=
  let net := if net.sock then ⟨false, false⟩ else net
  match outcome with
  | .unresolved => (net, false)
  | .noSocket => ({ net with sock := false }, false)
  | .blocking => ({ net with sock := false }, false)
  | .refused => ({ net with sock := false }, false)
  | .connected => (⟨true, true⟩, true)

def aeNetDisconnect (_net : Net) : Net := ⟨false, false⟩

def aeNetSend (net : Net) (packet : List Byte) : List (Action Frame) :=
  if packet.isEmpty then [] else [.send packet net.sock]

def aeEngineConnect (e : Engine L) (outcome : NetOutcome) (now : BitVec 64) :
    Engine L × AeError × List (Action Frame) :=
  let (network, ok) := aeNetConnect e.network outcome
  let e := { e with network }
  if !ok then (e, .network, [])
  else
    let sent :=
      match aeRtpBuildKeepalive e.serverId 0 e.clientId aeRtpHeaderSize with
      | some packet => aeNetSend e.network packet
      | none => []
    ({ e with connected := true, lastKeepaliveMs := now, lastPingMs := now }, .ok, sent)

def aeEngineDisconnect (e : Engine L) : Engine L :=
  { e with
    transmitting := false
    connected := false
    network := aeNetDisconnect e.network
    channel := { e.channel with active := false } }

def aeEngineIsConnected (e : Engine L) : Bool := e.connected

/-! ### Channel management -/

/-- The channel argument is only checked against NULL. -/
def aeEngineLeaveChannel (e : Engine L) (_channelId : CString) : Engine L × AeError :=
  let e := { e with transmitting := false, channel := { e.channel with transmitting := false } }
  let e := (List.finRange aeMaxUsersPerCh).foldl
    (fun e i => if (e.streams i).active then destroyStream e i else e) e
  ({ e with channel := { e.channel with active := false } }, .ok)

/-- The first 63 bytes fit into `channel_id_str`. -/
def channelIdStrSize : Nat := 64

/-- The end of a join: the state of the channel is set up, and its key. A key table that
is full keeps its keys; the result is not looked at. -/
def enterChannel (e : Engine L) (channelId : CString) : Engine L :=
  let channel : ChannelState :=
    { channelIdStr := channelId.take (channelIdStrSize - 1)
      channelIdNum := channelStrToId channelId
      active := true
      transmitting := false
      volume := 1 }
  { e with
    channel
    crypto := (aeCryptoSetChannelKey e.crypto channel.channelIdNum none).getD e.crypto }

def aeEngineJoinChannel (e : Engine L) (channelId : CString) : Engine L × AeError :=
  if !e.connected then (e, .notConnected)
  else
    let e := if e.channel.active then (aeEngineLeaveChannel e e.channel.channelIdStr).1 else e
    (enterChannel e channelId, .ok)

def aeEngineLeaveAllChannels (e : Engine L) : Engine L :=
  if e.channel.active then (aeEngineLeaveChannel e e.channel.channelIdStr).1 else e

/-! ### Transmit control -/

def aeEngineStartTransmit (e : Engine L) (_channelId : CString) : Engine L × AeError :=
  if !e.channel.active then (e, .notConnected)
  else
    ({ e with channel := { e.channel with transmitting := true }, transmitting := true }, .ok)

def aeEngineStopTransmit (e : Engine L) (_channelId : CString) : Engine L × AeError :=
  ({ e with channel := { e.channel with transmitting := false }, transmitting := false }, .ok)

/-! ### Volume -/

def aeEngineSetChannelVolume (e : Engine L) (_channelId : CString) (volume : ℚ) :
    Engine L × AeError :=
  ({ e with channel := { e.channel with volume := clampVolume volume } }, .ok)

def aeEngineSetMasterVolume (e : Engine L) (volume : ℚ) : Engine L :=
  { e with
    masterVolume := clampVolume volume
    mixer := aeMixerSetMasterVolume e.mixer (clampVolume volume) }

def aeEngineSetChannelMuted (e : Engine L) (_channelId : CString) (muted : Bool) :
    Engine L × AeError :=
  ({ e with channel := { e.channel with volume := if muted then 0 else 1 } }, .ok)

/-! ### Audio in and out -/

def aeEngineWriteCapture (e : Engine L) (samples : List Frame) : Engine L × AeError :=
  if samples.isEmpty then (e, .invalidParam)
  else
    let (captureRing, written) := aeRingbufWrite e.captureRing samples
    ({ e with captureRing }, if written = samples.length then .ok else .full)

/-- Silence stands for the frames that are missing. -/
def aeEngineReadPlayback (e : Engine L) (frameCount : Nat) : Engine L × List (ℚ × ℚ) :=
  let (playbackRing, frames) := aeRingbufRead e.playbackRing frameCount
  ({ e with playbackRing }, frames ++ List.replicate (frameCount - frames.length) (0, 0))

/-! ### Statistics -/

structure AeStats where
  rttMs : ℚ
  jitterMs : ℚ
  packetLossPct : ℚ
  bufferUnderruns : Int
  activeStreams : Int
  joinedChannels : Int
  packetsSent : BitVec 64
  packetsReceived : BitVec 64

/-- What the trackers of the active streams among some have counted: packets lost, and received. -/
def totals (e : Engine L) (slots : List StreamIndex) (total : BitVec 32 × BitVec 32) :
    BitVec 32 × BitVec 32 :=
  slots.foldl (fun (lost, received) i =>
    let s := e.streams i
    if s.active then (lost + s.seqTracker.lost, received + s.seqTracker.received)
    else (lost, received)) total

def aeEngineGetStats (e : Engine L) : AeStats :=
  let (totalLost, totalReceived) := totals e (List.finRange aeMaxUsersPerCh) (0, 0)
  { rttMs := e.rttMs
    jitterMs := 0
    packetLossPct :=
      if 0 < totalReceived then totalLost.toNat / (totalReceived + totalLost).toNat * 100 else 0
    bufferUnderruns := e.bufferUnderruns.toInt
    activeStreams := e.activeStreams
    joinedChannels := if e.channel.active then 1 else 0
    packetsSent := e.packetsSent
    packetsReceived := e.packetsReceived }

/-! ### Client identity -/

def aeEngineSetClientId (e : Engine L) (clientId : BitVec 64) : Engine L :=
  { e with clientId }

end AudioPlatform.Core
