import AudioPlatform.Core.Engine
import AudioPlatform.Numbers.SignificantBits

/-! One tick of the engine: capture and send, receive and decode, keepalive and
ping, mix; and the calls a client makes in any order. -/
namespace AudioPlatform.Core

variable {Frame : Type} {L : Library Frame}

def keepaliveIntervalMs : BitVec 64 := 5000
def pingIntervalMs : BitVec 64 := 2000
def maxRecvPerTick : Nat := 20
def streamTimeoutMs : BitVec 64 := 500
def streamDestroyMs : BitVec 64 := 5000

/-! ### Capture, encode, encrypt, send -/

def audioHeader (e : Engine L) : RtpHeader :=
  { serverId := e.serverId
    channelId := e.channel.channelIdNum
    clientId := e.clientId
    packetType := aeRtpTypeAudio
    flags := aeRtpFlagStereo
    payloadLength := 0 }

/-- The packet that carries an encoded payload. The routing header is serialised once
without a length, for authentication, and once more in the packet. -/
def audioPacket (e : Engine L) (encoded : List Byte) : Option (List Byte) :=
  let hdr := audioHeader e
  match aeRtpBuildPacket hdr [] aeRtpHeaderSize with
  | none => none
  | some routingHdr =>
    match aeCryptoEncrypt e.crypto e.channel.channelIdNum e.clientId e.txSequence routingHdr encoded
      aeMaxPacketSize with
    | none => none
    | some encrypted => aeRtpBuildPacket hdr encrypted aeMaxPacketSize

/-- Sends what the encoder has returned, if it is a payload. A send that fails counts. -/
def sendAudio (e : Engine L) (encoded : Option (List Byte)) : Engine L × List (Action Frame) :=
  match encoded with
  | none => (e, [])
  | some encoded =>
    if encoded.isEmpty then (e, [])
    else
      match audioPacket e encoded with
      | none => (e, [])
      | some packet =>
        ({ e with txSequence := e.txSequence + 1, packetsSent := e.packetsSent + 1 },
          aeNetSend e.network packet)

def transmit (e : Engine L) : Engine L × List (Action Frame) :=
  if !e.transmitting then (e, [])
  -- only a full frame is read
  else if aeRingbufAvailable e.captureRing < aeFrameSize then (e, [])
  else
    let (captureRing, pcm) := aeRingbufRead e.captureRing aeFrameSize
    if pcm.length ≠ aeFrameSize then ({ e with captureRing }, [])
    else
      let (encoder, encoded) := L.encode e.encoder pcm aeMaxPacketSize
      let (e, sent) := sendAudio { e with captureRing, encoder } encoded
      (e, .encode pcm :: sent)

/-! ### Receive, decrypt, decode -/

/-- A datagram that `ae_net_recv` returns, or an empty one where it returns 0 or an
error, with what the clock says and the allocations give while it is handled.
`beyond` is the memory behind the receive buffer. -/
structure Arrival where
  data : List Byte
  fits : data.length ≤ aeMaxPacketSize
  alloc : Allocation
  now : BitVec 64
  beyond : Nat → Byte

/-- The memory at the receive buffer once the datagram is in it. -/
def Arrival.memory (a : Arrival) (recvBuf : Nat → Byte) : Nat → Byte :=
  overlay a.data fun i => if i < aeMaxPacketSize then recvBuf i else a.beyond i

/-- A decrypted payload is decoded, and what the decoder yields is pushed. -/
def acceptAudio (e : Engine L) (i : StreamIndex) (hdr : RtpHeader) (data : List Byte)
    (now : BitVec 64) : Engine L × List (Action Frame) :=
  let s := e.streams i
  let (seqTracker, _) := aeRtpSeqUpdate s.seqTracker (s.seqTracker.maxSeq + 1)
  let (decoder, decoded, decodeFrame) := aeOpusDecode s.decoder data e.decodeFrame
  let s := { s with seqTracker, decoder }
  if 0 < decoded then
    let jitter := s.jitter.map fun jb => (aeJitterPush jb decodeFrame seqTracker.maxSeq).1
    let s := { s with jitter, lastRecvMs := now }
    ({ e with decodeFrame, streams := Function.update e.streams i s },
      [.decode i data, .push hdr i decodeFrame seqTracker.maxSeq])
  else
    ({ e with decodeFrame, streams := Function.update e.streams i s }, [.decode i data])

/-- The header as it was authenticated: the two bytes of the payload length are zeroed. -/
def zeroPayloadLength (routingHdr : List Byte) : List Byte :=
  (routingHdr.set 18 0).set 19 0

/-- The stream of a sender, found or created; the allocations are those of the datagram. -/
def streamFor (e : Engine L) (clientId : BitVec 64) (alloc : Allocation) :
    Engine L × Option StreamIndex :=
  match findStream e clientId with
  | some i => (e, some i)
  | none => createStream e clientId alloc

def handleAudio (e : Engine L) (a : Arrival) (hdr : RtpHeader) :
    Reading Byte (Engine L × List (Action Frame)) :=
  if hdr.payloadLength = 0 ∨ !e.channel.active then pure (e, [])
  else
    match streamFor e hdr.clientId a.alloc with
    | (e, none) => pure (e, [])
    | (e, some i) =>
      match aeRtpGetPayload 0 a.data.length with
      | none => pure (e, [])
      | some payload => do
        let aad ← Reading.slice 0 aeRtpHeaderSize
        let decrypted ← aeCryptoDecrypt e.crypto hdr.channelId (zeroPayloadLength aad) payload
          hdr.payloadLength.toNat aeMaxPacketSize
        match decrypted with
        | none => return (e, [])
        | some data => return if data.isEmpty then (e, []) else acceptAudio e i hdr data a.now

/-- A `uint64_t` as a `float`, which has 24 significant bits. -/
def floatOfU64 (x : BitVec 64) : ℚ := (Numbers.roundBits 24 x.toNat : ℕ)

def handlePong (e : Engine L) (now : BitVec 64) : Engine L :=
  if 0 < e.pingSendTimeMs then
    { e with rttMs := floatOfU64 (now - e.pingSendTimeMs), pingSendTimeMs := 0 }
  else e

/-- The body of the receive loop, on the datagram in the receive buffer. -/
def handlePacket (e : Engine L) (a : Arrival) : Reading Byte (Engine L × List (Action Frame)) := do
  match ← aeRtpParseHeader 0 a.data.length with
  | none => return (e, [])
  | some hdr =>
    -- a PONG carries our own client id
    if hdr.packetType = aeRtpTypePong then return (handlePong e a.now, [])
    else if hdr.clientId = e.clientId then return (e, [])
    else if hdr.packetType = aeRtpTypeAudio then handleAudio e a hdr
    else return (e, [])

def receive (e : Engine L) (a : Arrival) : Engine L × List (Action Frame) :=
  let memory := a.memory e.recvBuf
  let e := { e with recvBuf := memory, packetsReceived := e.packetsReceived + 1 }
  (handlePacket e a).value memory

/-- The receive loop, for `n` packets at most. -/
def receiveLoop : Nat → List Arrival → Engine L → Engine L × List (Action Frame)
  | 0, _, e => (e, [])
  | _, [], e => (e, [])
  | n + 1, a :: rest, e =>
    if a.data.isEmpty ∨ !e.network.sock then (e, [])
    else
      let (e, actions) := receive e a
      let (e, more) := receiveLoop n rest e
      (e, actions ++ more)

/-! ### Keepalive and ping -/

def keepalive (e : Engine L) (now : BitVec 64) : Engine L × List (Action Frame) :=
  if keepaliveIntervalMs ≤ now - e.lastKeepaliveMs then
    let channelId := if e.channel.active then e.channel.channelIdNum else 0
    let sent :=
      match aeRtpBuildKeepalive e.serverId channelId e.clientId aeRtpHeaderSize with
      | some packet => aeNetSend e.network packet
      | none => []
    ({ e with lastKeepaliveMs := now }, sent)
  else (e, [])

def ping (e : Engine L) (now : BitVec 64) : Engine L × List (Action Frame) :=
  if pingIntervalMs ≤ now - e.lastPingMs then
    match aeRtpBuildPing e.serverId e.clientId now (aeRtpHeaderSize + 8) with
    | some packet =>
      ({ e with pingSendTimeMs := now, lastPingMs := now }, aeNetSend e.network packet)
    | none => ({ e with lastPingMs := now }, [])
  else (e, [])

/-! ### Mix -/

/-- The streams chosen for mixing so far: how many, and their volumes. Their frames
are the first ones of `streamFrames`. -/
structure Mixing (L : Library Frame) where
  engine : Engine L
  volumes : List ℚ

def Mixing.count (m : Mixing L) : Nat := m.volumes.length

/-- The stream in slot `i` is mixed with the frame that is in its place. -/
def Mixing.add (m : Mixing L) (i : StreamIndex) : Mixing L :=
  { m with volumes := m.volumes ++ [(m.engine.streams i).volume * m.engine.channel.volume] }

/-- The mix loop's body for the stream in slot `i`. -/
def mixStream (nowMix : BitVec 64) (m : Mixing L) (i : StreamIndex) : Mixing L :=
  let e := m.engine
  let s := e.streams i
  match s.active, s.jitter with
  | false, _ => m
  | true, none => m
  | true, some jb =>
    let silenceMs := nowMix - s.lastRecvMs
    if streamDestroyMs < silenceMs then { m with engine := destroyStream e i }
    else if streamTimeoutMs < silenceMs then m
    else
      let (jb, popped) := aeJitterPop jb
      let s := { s with jitter := some jb }
      let e := { e with streams := Function.update e.streams i s }
      match popped with
      | some frame =>
        let e := { e with streamFrames := Function.update e.streamFrames m.count frame }
        { m with engine := e }.add i
      | none =>
        match s.decoder with
        | none => { m with engine := e }
        | some decoder =>
          if silenceMs < 200 then
            let (decoder, ret, frame) := aeOpusDecodePlc decoder (e.streamFrames m.count)
            let frame := if ret ≤ 0 then fun _ => 0 else frame
            let s := { s with decoder := some decoder }
            let e :=
              { e with
                streams := Function.update e.streams i s
                streamFrames := Function.update e.streamFrames m.count frame
                bufferUnderruns := e.bufferUnderruns + 1 }
            { m with engine := e }.add i
          else { m with engine := e }

/-- The interleaved samples of a frame, one pair for each sample time. -/
def interleaved (frame : Pcm) : List (ℚ × ℚ) :=
  List.ofFn fun i : Fin aeFrameSize =>
    (frame ⟨2 * i, by have := i.isLt; unfold aeJitterFrameSamples aeFrameSize aeChannels at *; omega⟩,
      frame ⟨2 * i + 1, by
        have := i.isLt; unfold aeJitterFrameSamples aeFrameSize aeChannels at *; omega⟩)

def mix (isConnected : Bool) (e : Engine L) (nowMix : BitVec 64) : Engine L :=
  let m := (List.finRange aeMaxUsersPerCh).foldl (mixStream nowMix) ⟨e, []⟩
  let e := m.engine
  if 0 < m.count then
    let inputs := (List.range m.count).map fun k => some (e.streamFrames k)
    let (mixer, output) :=
      aeMixerMix L.tanhf e.mixer inputs (some fun k => m.volumes.getD k 0)
    { e with mixer, playbackRing := (aeRingbufWrite e.playbackRing (interleaved output)).1 }
  else if isConnected && e.channel.active then
    { e with playbackRing := (aeRingbufWrite e.playbackRing (interleaved fun _ => 0)).1 }
  else e

/-! ### The tick -/

/-- What a tick meets: the datagrams waiting, and the clock when it looks. -/
structure Tick where
  arrivals : List Arrival
  now : BitVec 64
  nowMix : BitVec 64

def aeEngineProcess (e : Engine L) (t : Tick) : Engine L × List (Action Frame) :=
  if e.connected then
    let (e, captured) := transmit e
    let (e, received) := receiveLoop maxRecvPerTick t.arrivals e
    let (e, kept) := keepalive e t.now
    let (e, pinged) := ping e t.now
    (mix true e t.nowMix, captured ++ received ++ kept ++ pinged)
  else (mix false e t.nowMix, [])

/-! ### Calls in any order -/

/-- A call of the API. -/
inductive Call (Frame : Type) where
  | connect (outcome : NetOutcome) (now : BitVec 64)
  | disconnect
  | joinChannel (channelId : CString)
  | leaveChannel (channelId : CString)
  | leaveAllChannels
  | startTransmit (channelId : CString)
  | stopTransmit (channelId : CString)
  | setChannelVolume (channelId : CString) (volume : ℚ)
  | setMasterVolume (volume : ℚ)
  | setChannelMuted (channelId : CString) (muted : Bool)
  | writeCapture (samples : List Frame)
  | readPlayback (frameCount : Nat)
  | process (t : Tick)
  | setClientId (clientId : BitVec 64)

def Engine.call (e : Engine L) : Call Frame → Engine L × List (Action Frame)
  | .connect outcome now => let (e, _, sent) := aeEngineConnect e outcome now; (e, sent)
  | .disconnect => (aeEngineDisconnect e, [])
  | .joinChannel channelId => ((aeEngineJoinChannel e channelId).1, [])
  | .leaveChannel channelId => ((aeEngineLeaveChannel e channelId).1, [])
  | .leaveAllChannels => (aeEngineLeaveAllChannels e, [])
  | .startTransmit channelId => ((aeEngineStartTransmit e channelId).1, [])
  | .stopTransmit channelId => ((aeEngineStopTransmit e channelId).1, [])
  | .setChannelVolume channelId volume => ((aeEngineSetChannelVolume e channelId volume).1, [])
  | .setMasterVolume volume => (aeEngineSetMasterVolume e volume, [])
  | .setChannelMuted channelId muted => ((aeEngineSetChannelMuted e channelId muted).1, [])
  | .writeCapture samples => ((aeEngineWriteCapture e samples).1, [])
  | .readPlayback frameCount => ((aeEngineReadPlayback e frameCount).1, [])
  | .process t => aeEngineProcess e t
  | .setClientId clientId => (aeEngineSetClientId e clientId, [])

/-! ### A small engine -/

/-- A codec that encodes every frame as one byte and decodes every payload to silence. -/
def toneLibrary : Library (ℚ × ℚ) where
  Encoder := Unit
  Decoder := Unit
  encoderCreate _ _ := some ()
  encode _ _ _ := ((), some [1])
  decoderCreate := ()
  decode _ _ _ := ((), aeFrameSize, fun _ => 0)
  decodePlc _ _ := ((), aeFrameSize, fun _ => 0)
  tanhf x := x

/-- An engine as it is created. -/
def newEngine : Engine toneLibrary := (aeEngineCreate toneLibrary none).get rfl

theorem create_newEngine : aeEngineCreate toneLibrary none = some newEngine := (Option.some_get _).symm

/-- "channel-1" -/
def channelOne : CString := [0x63, 0x68, 0x61, 0x6E, 0x6E, 0x65, 0x6C, 0x2D, 0x31]

/-- "channel-2" -/
def channelTwo : CString := [0x63, 0x68, 0x61, 0x6E, 0x6E, 0x65, 0x6C, 0x2D, 0x32]

/-- The engine of a client that has connected and joined "channel-1". -/
def listener (clientId : BitVec 64) : Engine toneLibrary :=
  (aeEngineJoinChannel (aeEngineConnect (aeEngineSetClientId newEngine clientId) .connected 0).1
    channelOne).1

/-- A datagram that arrives with memory to spare. -/
def arriving (data : List Byte) (fits : data.length ≤ aeMaxPacketSize) : Arrival :=
  ⟨data, fits, ⟨true, true, 0⟩, 0, fun _ => 0⟩

example : (listener 7).channel.channelIdNum = 1 := rfl

end AudioPlatform.Core
