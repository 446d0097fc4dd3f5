import AudioPlatform.Concurrency.Machine
import AudioPlatform.Core.Transport

/-! What a call leaves as it was, and what each part of a tick hands out. -/
namespace AudioPlatform.Core
open Concurrency

variable {Frame : Type} {L : Library Frame}

/-! ### Control -/

/-- The part of the state that receiving and mixing do not touch. -/
structure Control (L : Library Frame) where
  connected : Bool
  encoder : L.Encoder
  network : Net
  crypto : Crypto
  captureRing : RingBuffer Frame
  channel : ChannelState
  transmitting : Bool
  txSequence : BitVec 32
  serverId : BitVec 32
  clientId : BitVec 64

def Engine.control (e : Engine L) : Control L :=
  { connected := e.connected
    encoder := e.encoder
    network := e.network
    crypto := e.crypto
    captureRing := e.captureRing
    channel := e.channel
    transmitting := e.transmitting
    txSequence := e.txSequence
    serverId := e.serverId
    clientId := e.clientId }

@[simp] theorem control_connected (e : Engine L) : e.control.connected = e.connected := rfl

@[simp] theorem control_network (e : Engine L) : e.control.network = e.network := rfl

@[simp] theorem control_crypto (e : Engine L) : e.control.crypto = e.crypto := rfl

@[simp] theorem control_captureRing (e : Engine L) : e.control.captureRing = e.captureRing := rfl

@[simp] theorem control_channel (e : Engine L) : e.control.channel = e.channel := rfl

@[simp] theorem control_transmitting (e : Engine L) : e.control.transmitting = e.transmitting := rfl

@[simp] theorem control_txSequence (e : Engine L) : e.control.txSequence = e.txSequence := rfl

@[simp] theorem control_clientId (e : Engine L) : e.control.clientId = e.clientId := rfl

theorem SameButStreams.control {e e' : Engine L} (h : SameButStreams e e') :
    e'.control = e.control := by
  obtain ⟨_, _, _, rfl⟩ := h
  rfl

theorem control_acceptAudio (e : Engine L) (i : StreamIndex) (hdr : RtpHeader) (data : List Byte)
    (now : BitVec 64) : (acceptAudio e i hdr data now).1.control = e.control := by
  unfold acceptAudio
  dsimp only
  split <;> rfl

/-- What an audio packet leaves that is dropped: by then its sender may have a stream. -/
def Engine.dropping (e : Engine L) (a : Arrival) (hdr : RtpHeader) : Engine L :=
  if hdr.payloadLength = 0 ∨ !e.channel.active then e else (streamFor e hdr.clientId a.alloc).1

theorem sameButStreams_dropping (e : Engine L) (a : Arrival) (hdr : RtpHeader) :
    SameButStreams e (e.dropping a hdr) := by
  unfold Engine.dropping
  split
  · exact .refl e
  · exact sameButStreams_streamFor

/-- An audio packet is dropped or accepted. -/
theorem handleAudio_cases (e : Engine L) (a : Arrival) (hdr : RtpHeader) (m : Nat → Byte) :
    (handleAudio e a hdr).value m = (e.dropping a hdr, []) ∨
    ∃ e' i data, streamFor e hdr.clientId a.alloc = (e', some i) ∧ e.channel.active = true ∧
      aeRtpHeaderSize < a.data.length ∧ data ≠ [] ∧
      (aeCryptoDecrypt e.crypto hdr.channelId
        (zeroPayloadLength ((Reading.slice 0 aeRtpHeaderSize).value m)) aeRtpHeaderSize
        hdr.payloadLength.toNat aeMaxPacketSize).value m = some data ∧
      (handleAudio e a hdr).value m = acceptAudio e' i hdr data a.now := by
  unfold handleAudio Engine.dropping
  split
  · exact .inl rfl
  · rename_i hskip
    have hact : e.channel.active = true := by
      have := (not_or.mp hskip).2
      simpa using this
    have hsame : SameButStreams e (streamFor e hdr.clientId a.alloc).1 := sameButStreams_streamFor
    rcases hs : streamFor e hdr.clientId a.alloc with ⟨e', _ | i⟩
    · exact .inl rfl
    · rw [hs] at hsame
      dsimp only at hsame ⊢
      unfold aeRtpGetPayload
      by_cases hsize : a.data.length ≤ aeRtpHeaderSize
      · rw [if_pos hsize]
        exact .inl rfl
      · have hcrypto : e'.crypto = e.crypto := congrArg Control.crypto hsame.control
        rw [if_neg hsize]
        dsimp only
        rw [Nat.zero_add, Reading.value_bind, Reading.value_bind, hcrypto]
        cases hdec : (aeCryptoDecrypt e.crypto hdr.channelId
            (zeroPayloadLength ((Reading.slice 0 aeRtpHeaderSize).value m)) aeRtpHeaderSize
            hdr.payloadLength.toNat aeMaxPacketSize).value m with
        | none => exact .inl rfl
        | some data =>
          show (if data.isEmpty then _ else _) = _ ∨ ∃ _ _ _, _ ∧ _ ∧ _ ∧ _ ∧ _ ∧
            (if data.isEmpty then _ else _) = _
          by_cases hne : data = []
          · rw [if_pos (by rw [hne]; rfl)]
            exact .inl rfl
          · rw [if_neg (by simpa using hne)]
            exact .inr ⟨e', i, data, rfl, hact, by omega, hne, rfl, rfl⟩

/-! ### Receiving -/

/-- What a datagram decrypts to where it arrives, under the key of its header's channel. -/
def Engine.decrypted (e : Engine L) (a : Arrival) (hdr : RtpHeader) : Option (List Byte) :=
  let m := a.memory e.recvBuf
  (aeCryptoDecrypt e.crypto hdr.channelId
    (zeroPayloadLength ((Reading.slice 0 aeRtpHeaderSize).value m)) aeRtpHeaderSize
    hdr.payloadLength.toNat aeMaxPacketSize).value m

/-- A datagram of another client that is let through to the decoder: it bears `hdr`,
finds a stream or room for one, and decrypts to `data`. -/
structure Accepts (e : Engine L) (a : Arrival) (hdr : RtpHeader) (data : List Byte) : Prop where
  header : packetHeader a.data = some hdr
  audio : hdr.packetType = aeRtpTypeAudio
  other : hdr.clientId ≠ e.clientId
  active : e.channel.active = true
  stream : (findStream e hdr.clientId).isSome ∨ ∃ i, (e.streams i).active = false
  payload : aeRtpHeaderSize < a.data.length
  decrypted : e.decrypted a hdr = some data
  nonempty : data ≠ []

/-- A receiver with the sender's key, and a stream or room for one, accepts an audio packet. -/
theorem accepts_audioPacket {Frame' : Type} {K : Library Frame'} {e : Engine L} {r : Engine K}
    {a : Arrival} {encoded : List Byte} (hp : audioPacket e encoded = some a.data)
    (hne : encoded ≠ []) (hact : r.channel.active = true)
    (hkey : findKey r.crypto e.channel.channelIdNum = findKey e.crypto e.channel.channelIdNum)
    (hc : e.clientId ≠ r.clientId)
    (hslot : (findStream r e.clientId).isSome ∨ ∃ i, (r.streams i).active = false) :
    Accepts r a ((audioHeader e).withLength (receivedLength encoded)) encoded := by
  obtain ⟨hheader, hlen, hlong, haad, hdec⟩ := audioPacket_arrives hp hkey
  refine ⟨hheader, rfl, hc, hact, hslot, hlong, ?_, hne⟩
  unfold Engine.decrypted
  dsimp only
  rw [haad]
  exact hlen ▸ hdec

/-- A datagram is no audio of another client, or it is dropped, or accepted on the stream of
its sender. -/
theorem receive_outcomes (e : Engine L) (a : Arrival) :
    (receive e a = (e.holding a, []) ∨ receive e a = (handlePong (e.holding a) a.now, [])) ∨
    (∃ hdr, packetHeader a.data = some hdr ∧ hdr.packetType = aeRtpTypeAudio ∧
      hdr.clientId ≠ e.clientId ∧ receive e a = ((e.holding a).dropping a hdr, [])) ∨
    ∃ hdr data e' i, Accepts e a hdr data ∧
      streamFor (e.holding a) hdr.clientId a.alloc = (e', some i) ∧
      receive e a = acceptAudio e' i hdr data a.now := by
  by_cases h : ∀ hdr, packetHeader a.data = some hdr → hdr.packetType = aeRtpTypeAudio →
      hdr.clientId = e.clientId
  · exact .inl (receive_other h)
  · push Not at h
    obtain ⟨hdr, hp, ht, hc⟩ := h
    rw [receive_audio hp ht hc]
    rcases handleAudio_cases (e.holding a) a hdr (a.memory e.recvBuf) with
      h | ⟨e', i, data, hs, hact, hsize, hne, hdec, h⟩
    · exact .inr (.inl ⟨hdr, hp, ht, hc, h⟩)
    · have hstream := (streamFor_isSome (e := e.holding a) a.alloc hc).mp (by rw [hs]; rfl)
      exact .inr (.inr ⟨hdr, data, e', i, ⟨hp, ht, hc, hact, hstream, hsize, hdec, hne⟩, hs, h⟩)

/-- A datagram hands out nothing, or it is accepted. -/
theorem receive_cases (e : Engine L) (a : Arrival) :
    ((receive e a).1.control = e.control ∧ (receive e a).2 = []) ∨
    ∃ hdr data e' i, Accepts e a hdr data ∧ SameButStreams (e.holding a) e' ∧
      receive e a = acceptAudio e' i hdr data a.now := by
  rcases receive_outcomes e a with (h | h) | ⟨hdr, -, -, -, h⟩ | ⟨hdr, data, e', i, hacc, hs, h⟩
  · left
    rw [h]
    exact ⟨rfl, rfl⟩
  · left
    rw [h]
    refine ⟨?_, rfl⟩
    show (handlePong (e.holding a) a.now).control = _
    unfold handlePong
    split <;> rfl
  · left
    rw [h]
    exact ⟨(sameButStreams_dropping (e.holding a) a hdr).control, rfl⟩
  · have hsame : SameButStreams (e.holding a) (streamFor (e.holding a) hdr.clientId a.alloc).1 :=
      sameButStreams_streamFor
    rw [hs] at hsame
    exact .inr ⟨hdr, data, e', i, hacc, hsame, h⟩

/-- An accepted datagram is handed to the decoder. -/
theorem decode_receive {e : Engine L} {a : Arrival} {hdr : RtpHeader} {data : List Byte}
    (h : Accepts e a hdr data) : ∃ slot, .decode slot data ∈ (receive e a).2 := by
  have hlen : hdr.payloadLength ≠ 0 := by
    intro hzero
    have hdec := h.decrypted
    unfold Engine.decrypted aeCryptoDecrypt at hdec
    dsimp only at hdec
    rw [hzero, if_pos (by decide)] at hdec
    cases hdec
  obtain ⟨slot, hs⟩ := Option.isSome_iff_exists.mp
    ((streamFor_isSome (e := e.holding a) a.alloc h.other).mpr h.stream)
  have hsame : SameButStreams (e.holding a) (streamFor (e.holding a) hdr.clientId a.alloc).1 :=
    sameButStreams_streamFor
  have hcrypto : (streamFor (e.holding a) hdr.clientId a.alloc).1.crypto = e.crypto :=
    congrArg Control.crypto hsame.control
  have hhandled := handleAudio_accepts hdr (m := a.memory e.recvBuf) hlen
    (show (e.holding a).channel.active = true from h.active) (Prod.ext rfl hs) h.payload
    (by rw [hcrypto]; exact h.decrypted) h.nonempty
  obtain ⟨pushed, hpushed, -⟩ := acceptAudio_decodes
    (streamFor (e.holding a) hdr.clientId a.alloc).1 slot hdr data a.now
  refine ⟨slot, ?_⟩
  rw [receive_audio h.header h.audio h.other, hhandled, hpushed]
  exact List.mem_cons_self ..

theorem control_receive (e : Engine L) (a : Arrival) : (receive e a).1.control = e.control := by
  rcases receive_cases e a with ⟨h, -⟩ | ⟨hdr, data, e', i, -, hsame, h⟩
  · exact h
  · rw [h, control_acceptAudio]
    exact hsame.control

/-- Received packets lead to decoders and to jitter buffers only. -/
def Action.Inbound : Action Frame → Prop
  | .decode .. => True
  | .push .. => True
  | _ => False

/-- What a datagram leads to, it leads to because it is accepted; it is pushed under its
own header. -/
theorem mem_receive {e : Engine L} {a : Arrival} {act : Action Frame} (h : act ∈ (receive e a).2) :
    act.Inbound ∧ ∃ hdr data, Accepts e a hdr data ∧
      ∀ hdr' slot frame seq, act = .push hdr' slot frame seq → hdr' = hdr := by
  rcases receive_cases e a with ⟨-, hnil⟩ | ⟨hdr, data, e', i, hacc, -, heq⟩
  · rw [hnil] at h
    cases h
  · obtain ⟨pushed, hpushed, hcases⟩ := acceptAudio_decodes e' i hdr data a.now
    rw [heq, hpushed] at h
    rcases List.mem_cons.mp h with rfl | h
    · exact ⟨trivial, hdr, data, hacc, fun _ _ _ _ h => by cases h⟩
    · rcases hcases with rfl | ⟨frame, seq, rfl⟩
      · cases h
      · obtain rfl := List.mem_singleton.mp h
        refine ⟨trivial, hdr, data, hacc, fun _ _ _ _ h => ?_⟩
        cases h
        rfl

theorem control_receiveLoop (n : Nat) (arrivals : List Arrival) (e : Engine L) :
    (receiveLoop n arrivals e).1.control = e.control := by
  induction n generalizing arrivals e with
  | zero => rfl
  | succ n ih =>
    cases arrivals with
    | nil => rfl
    | cons a rest =>
      unfold receiveLoop
      split
      · rfl
      · show (receiveLoop n rest (receive e a).1).1.control = _
        rw [ih, control_receive]

theorem receiveLoop_cons {e : Engine L} {a : Arrival} (hdata : a.data ≠ [])
    (hsock : e.network.sock = true) (n : Nat) (rest : List Arrival) :
    (receiveLoop (n + 1) (a :: rest) e).2 =
      (receive e a).2 ++ (receiveLoop n rest (receive e a).1).2 := by
  show (if _ then _ else _ : Engine L × List (Action Frame)).2 = _
  rw [if_neg (by simp [hdata, hsock])]

/-- The datagrams that the receive loop handles, each with the engine it comes to. -/
def handled : Nat → List Arrival → Engine L → List (Engine L × Arrival)
  | 0, _, _ => []
  | _, [], _ => []
  | n + 1, a :: rest, e =>
    if a.data.isEmpty ∨ !e.network.sock then []
    else (e, a) :: handled n rest (receive e a).1

theorem arrived_handled {n : Nat} {arrivals : List Arrival} {e e' : Engine L} {a : Arrival}
    (h : (e', a) ∈ handled n arrivals e) : a ∈ arrivals := by
  induction n generalizing arrivals e with
  | zero => cases h
  | succ n ih =>
    cases arrivals with
    | nil => cases h
    | cons b rest =>
      unfold handled at h
      split at h
      · cases h
      · rcases List.mem_cons.mp h with h | h
        · cases h
          exact List.mem_cons_self ..
        · exact List.mem_cons_of_mem _ (ih h)

theorem control_handled {n : Nat} {arrivals : List Arrival} {e e' : Engine L} {a : Arrival}
    (h : (e', a) ∈ handled n arrivals e) : e'.control = e.control := by
  induction n generalizing arrivals e with
  | zero => cases h
  | succ n ih =>
    cases arrivals with
    | nil => cases h
    | cons b rest =>
      unfold handled at h
      split at h
      · cases h
      · rcases List.mem_cons.mp h with h | h
        · cases h
          rfl
        · rw [ih h, control_receive]

/-- The receive loop hands out what the datagrams it handles lead to. -/
theorem receiveLoop_eq (n : Nat) (arrivals : List Arrival) (e : Engine L) :
    (receiveLoop n arrivals e).2 =
      (handled n arrivals e).flatMap fun (e', a) => (receive e' a).2 := by
  induction n generalizing arrivals e with
  | zero => rfl
  | succ n ih =>
    cases arrivals with
    | nil => rfl
    | cons a rest =>
      unfold receiveLoop handled
      split
      · rfl
      · rw [List.flatMap_cons, ← ih]

theorem mem_receiveLoop {n : Nat} {arrivals : List Arrival} {e : Engine L} {act : Action Frame} :
    act ∈ (receiveLoop n arrivals e).2 ↔
      ∃ e' a, (e', a) ∈ handled n arrivals e ∧ act ∈ (receive e' a).2 := by
  rw [receiveLoop_eq, List.mem_flatMap]
  constructor
  · rintro ⟨⟨e', a⟩, hmem, hact⟩
    exact ⟨e', a, hmem, hact⟩
  · rintro ⟨e', a, hmem, hact⟩
    exact ⟨(e', a), hmem, hact⟩

/-! ### Keepalive, ping, mix -/

theorem control_keepalive (e : Engine L) (now : BitVec 64) :
    (keepalive e now).1.control = e.control := by
  unfold keepalive
  dsimp only
  split <;> rfl

theorem control_ping (e : Engine L) (now : BitVec 64) : (ping e now).1.control = e.control := by
  unfold ping
  split
  · split <;> rfl
  · rfl

theorem control_destroyStream (e : Engine L) (i : StreamIndex) :
    (destroyStream e i).control = e.control := by
  unfold destroyStream
  split <;> rfl

theorem control_mixStream (nowMix : BitVec 64) (m : Mixing L) (i : StreamIndex) :
    (mixStream nowMix m i).engine.control = m.engine.control := by
  unfold mixStream
  dsimp only
  split
  · rfl
  · rfl
  · split
    · exact control_destroyStream _ _
    · split
      · rfl
      · split
        · rfl
        · split
          · rfl
          · split <;> rfl

theorem control_mixed (e : Engine L) (mixer : Mixer) (playbackRing : RingBuffer (ℚ × ℚ)) :
    ({ e with mixer, playbackRing } : Engine L).control = e.control := rfl

/-- What a turn of the mix loop preserves, the loop preserves. -/
theorem foldl_mixStream {P : Engine L → Prop} {nowMix : BitVec 64}
    (hP : ∀ m i, P m.engine → P (mixStream nowMix m i).engine) {m : Mixing L} (h : P m.engine)
    (slots : List StreamIndex) : P (slots.foldl (mixStream nowMix) m).engine := by
  induction slots generalizing m with
  | nil => exact h
  | cons i rest ih => exact ih (hP m i h)

/-- What is left of the engine to mixing the frames: the mixer and the playback ring. -/
theorem mix_eq (b : Bool) (e : Engine L) (nowMix : BitVec 64) : ∃ mixer playbackRing,
    mix b e nowMix = { ((List.finRange aeMaxUsersPerCh).foldl (mixStream nowMix) ⟨e, []⟩).engine with
      mixer := mixer, playbackRing := playbackRing } := by
  unfold mix
  generalize (List.finRange aeMaxUsersPerCh).foldl (mixStream nowMix) ⟨e, []⟩ = m
  dsimp only
  split
  · exact ⟨_, _, rfl⟩
  · split
    · exact ⟨m.engine.mixer, _, rfl⟩
    · exact ⟨m.engine.mixer, m.engine.playbackRing, rfl⟩

theorem control_mix (b : Bool) (e : Engine L) (nowMix : BitVec 64) :
    (mix b e nowMix).control = e.control := by
  obtain ⟨_, _, h⟩ := mix_eq b e nowMix
  rw [h, control_mixed]
  exact foldl_mixStream (P := fun r => r.control = e.control)
    (fun m i hm => (control_mixStream nowMix m i).trans hm) (m := ⟨e, []⟩) rfl _

/-! ### The tick -/

/-- A tick changes the control part as its first step does. -/
theorem control_process (e : Engine L) (t : Tick) : (aeEngineProcess e t).1.control =
    if e.connected then (transmit e).1.control else e.control := by
  unfold aeEngineProcess
  by_cases h : e.connected = true
  · rw [if_pos h, if_pos h]
    dsimp only
    rw [control_mix, control_ping, control_keepalive, control_receiveLoop]
  · rw [if_neg h, if_neg h]
    dsimp only
    rw [control_mix]

/-- Capturing leaves the control part as it is but for the encoder, the capture ring and the
numbering. -/
theorem control_transmit (e : Engine L) : ∃ encoder captureRing txSequence,
    (transmit e).1.control = { e.control with encoder, captureRing, txSequence } := by
  rcases transmit_outcomes e with h | ⟨-, h⟩ | ⟨-, _, _, -, h⟩
  · rw [h]
    exact ⟨e.encoder, e.captureRing, e.txSequence, rfl⟩
  · rw [h]
    exact ⟨_, _, _, rfl⟩
  · rw [h]
    exact ⟨_, _, _, rfl⟩

/-- So does a tick. -/
theorem control_tick (e : Engine L) (t : Tick) : ∃ encoder captureRing txSequence,
    (aeEngineProcess e t).1.control = { e.control with encoder, captureRing, txSequence } := by
  rw [control_process]
  split
  · exact control_transmit e
  · exact ⟨e.encoder, e.captureRing, e.txSequence, rfl⟩

theorem mem_aeNetSend {net : Net} {packet : List Byte} {act : Action Frame}
    (h : act ∈ aeNetSend net packet) : act = .send packet net.sock := by
  unfold aeNetSend at h
  split at h
  · cases h
  · exact List.mem_singleton.mp h

/-- What is captured leads to the encoder and to the socket only. -/
theorem mem_transmit {e : Engine L} {act : Action Frame} (h : act ∈ (transmit e).2) :
    (e.transmitting = true ∧ act = .encode (e.captureRing.contents.take aeFrameSize)) ∨
      ∃ packet sock, act = .send packet sock := by
  rcases transmit_outcomes e with heq | ⟨htx, heq⟩ | ⟨htx, _, _, -, heq⟩
  · rw [heq] at h
    cases h
  · rw [heq] at h
    exact .inl ⟨htx, List.mem_singleton.mp h⟩
  · rw [heq] at h
    rcases List.mem_cons.mp h with rfl | h
    · exact .inl ⟨htx, rfl⟩
    · exact .inr ⟨_, _, mem_aeNetSend h⟩

/-- A packet that is not audio. -/
def Action.Service : Action Frame → Prop
  | .send packet _ => ∃ hdr, packetHeader packet = some hdr ∧ hdr.packetType ≠ aeRtpTypeAudio
  | _ => False

theorem service_send {hdr : RtpHeader} {payload packet : List Byte} {outSize : Nat} {net : Net}
    {act : Action Frame} (hb : aeRtpBuildPacket hdr payload outSize = some packet)
    (ht : hdr.packetType ≠ aeRtpTypeAudio) (h : act ∈ aeNetSend net packet) : act.Service := by
  obtain ⟨-, -, rfl⟩ := aeRtpBuildPacket_eq_some.mp hb
  obtain rfl := mem_aeNetSend h
  exact ⟨_, packetHeader_serialize _ _, ht⟩

theorem service_keepalive {e : Engine L} {now : BitVec 64} {act : Action Frame}
    (h : act ∈ (keepalive e now).2) : act.Service := by
  unfold keepalive at h
  dsimp only at h
  split at h
  · split at h
    · rename_i hb
      exact service_send hb (show aeRtpTypeKeepalive ≠ aeRtpTypeAudio by decide) h
    · cases h
  · cases h

theorem service_ping {e : Engine L} {now : BitVec 64} {act : Action Frame}
    (h : act ∈ (ping e now).2) : act.Service := by
  unfold ping at h
  split at h
  · split at h
    · rename_i hb
      exact service_send hb (show aeRtpTypePing ≠ aeRtpTypeAudio by decide) h
    · cases h
  · cases h

/-- What a tick hands out: what it captured, what it received, and packets that are
not audio. -/
theorem process_cases (e : Engine L) (t : Tick) :
    (e.connected = false ∧ (aeEngineProcess e t).2 = []) ∨
    (e.connected = true ∧ ∃ service, (∀ act ∈ service, Action.Service act) ∧
      (aeEngineProcess e t).2 = (transmit e).2 ++
        (receiveLoop maxRecvPerTick t.arrivals (transmit e).1).2 ++ service) := by
  unfold aeEngineProcess
  by_cases h : e.connected = true
  · rw [if_pos h]
    refine .inr ⟨h, _, ?_, List.append_assoc ..⟩
    intro act hact
    rcases List.mem_append.mp hact with hact | hact
    · exact service_keepalive hact
    · exact service_ping hact
  · rw [if_neg h]
    exact .inl ⟨by simpa using h, rfl⟩

/-! ### The other calls -/

/-- Out of the channel. -/
def Control.hungUp (c : Control L) : Control L :=
  { c with
    transmitting := false
    channel := { c.channel with active := false, transmitting := false } }

/-- In a new channel. -/
def Control.entered (c : Control L) (channelId : CString) : Control L :=
  { c with
    channel :=
      { channelIdStr := channelId.take (channelIdStrSize - 1)
        channelIdNum := channelStrToId channelId
        active := true
        transmitting := false
        volume := 1 }
    crypto := (aeCryptoSetChannelKey c.crypto (channelStrToId channelId) none).getD c.crypto }

/-- What a call makes of the control part; a tick, which also looks at the codec, is not told
here. -/
def Control.after (c : Control L) : Call Frame → Control L
  | .connect outcome _ =>
    { c with
      network := (aeNetConnect c.network outcome).1
      connected := (aeNetConnect c.network outcome).2 || c.connected }
  | .disconnect =>
    { c with
      transmitting := false
      connected := false
      network := aeNetDisconnect c.network
      channel := { c.channel with active := false } }
  | .joinChannel channelId =>
    if c.connected then (if c.channel.active then c.hungUp else c).entered channelId else c
  | .leaveChannel _ => c.hungUp
  | .leaveAllChannels => if c.channel.active then c.hungUp else c
  | .startTransmit _ =>
    if c.channel.active then
      { c with channel := { c.channel with transmitting := true }, transmitting := true }
    else c
  | .stopTransmit _ =>
    { c with channel := { c.channel with transmitting := false }, transmitting := false }
  | .setChannelVolume _ volume => { c with channel := { c.channel with volume := clampVolume volume } }
  | .setChannelMuted _ muted =>
    { c with channel := { c.channel with volume := if muted then 0 else 1 } }
  | .writeCapture samples => { c with captureRing := (aeRingbufWrite c.captureRing samples).1 }
  | .setClientId clientId => { c with clientId }
  | .setMasterVolume _ => c
  | .readPlayback _ => c
  | .process _ => c

/-- The call is a tick. -/
def Call.Ticks : Call Frame → Prop
  | .process _ => True
  | _ => False

theorem control_leaveChannel (e : Engine L) (channelId : CString) :
    (aeEngineLeaveChannel e channelId).1.control = e.control.hungUp :=
  (sameButStreams_leaveChannel e channelId).control

theorem control_joinChannel (e : Engine L) (channelId : CString) :
    (aeEngineJoinChannel e channelId).1.control = e.control.after (.joinChannel channelId) := by
  show _ = if e.connected then (if e.channel.active then _ else _ : Control L).entered _ else _
  unfold aeEngineJoinChannel
  cases hon : e.connected with
  | false => rfl
  | true =>
    rw [if_neg (show ¬ (!true) = true by decide), if_pos rfl]
    show (if e.channel.active then _ else _ : Engine L).control.entered channelId = _
    split
    · rw [control_leaveChannel]
    · rfl

theorem aeRingbufWrite_nil (rb : RingBuffer Frame) : (aeRingbufWrite rb []).1 = rb := by
  unfold aeRingbufWrite
  simp

theorem control_writeCapture (e : Engine L) (samples : List Frame) :
    (aeEngineWriteCapture e samples).1.control = e.control.after (.writeCapture samples) := by
  unfold aeEngineWriteCapture
  cases samples with
  | nil =>
    show e.control = { e.control with captureRing := (aeRingbufWrite e.captureRing []).1 }
    rw [aeRingbufWrite_nil]
    rfl
  | cons sample rest => rfl

theorem control_call (e : Engine L) {c : Call Frame} (hc : ¬ c.Ticks) :
    (e.call c).1.control = e.control.after c := by
  cases c with
  | connect outcome now =>
    show (aeEngineConnect e outcome now).1.control = e.control.after (.connect outcome now)
    unfold aeEngineConnect Control.after
    dsimp only [control_network]
    rcases aeNetConnect e.network outcome with ⟨network, _ | _⟩
    · rfl
    · rfl
  | joinChannel channelId => exact control_joinChannel e channelId
  | leaveChannel channelId => exact control_leaveChannel e channelId
  | leaveAllChannels =>
    show (aeEngineLeaveAllChannels e).control = if e.channel.active then _ else _
    unfold aeEngineLeaveAllChannels
    split
    · exact control_leaveChannel e _
    · rfl
  | startTransmit channelId =>
    show (aeEngineStartTransmit e channelId).1.control = if e.channel.active then _ else _
    unfold aeEngineStartTransmit
    cases e.channel.active with
    | false => rfl
    | true => rfl
  | writeCapture samples => exact control_writeCapture e samples
  | process t => exact absurd trivial hc
  | _ => rfl

/-- Identity and numbering do not depend on the calls. -/
theorem identity_after (c : Control L) (d : Call Frame) :
    (c.after d).txSequence = c.txSequence ∧
      ((∀ clientId, d ≠ .setClientId clientId) → (c.after d).clientId = c.clientId) := by
  cases d with
  | joinChannel channelId =>
    dsimp only [Control.after]
    split
    · split
      · exact ⟨rfl, fun _ => rfl⟩
      · exact ⟨rfl, fun _ => rfl⟩
    · exact ⟨rfl, fun _ => rfl⟩
  | leaveAllChannels =>
    dsimp only [Control.after]
    split
    · exact ⟨rfl, fun _ => rfl⟩
    · exact ⟨rfl, fun _ => rfl⟩
  | startTransmit channelId =>
    dsimp only [Control.after]
    split
    · exact ⟨rfl, fun _ => rfl⟩
    · exact ⟨rfl, fun _ => rfl⟩
  | setClientId clientId => exact ⟨rfl, fun h => absurd rfl (h clientId)⟩
  | _ => exact ⟨rfl, fun _ => rfl⟩

/-- A call other than a tick hands out nothing but a keepalive. -/
theorem service_call (e : Engine L) {c : Call Frame} (hc : ¬ c.Ticks) {act : Action Frame}
    (h : act ∈ (e.call c).2) : act.Service := by
  cases c with
  | connect outcome now =>
    replace h : act ∈ (aeEngineConnect e outcome now).2.2 := h
    unfold aeEngineConnect at h
    dsimp only at h
    split at h
    · cases h
    · split at h
      · rename_i hb
        exact service_send hb (show aeRtpTypeKeepalive ≠ aeRtpTypeAudio by decide) h
      · cases h
  | process t => exact absurd trivial hc
  | _ => cases h

theorem writeCapture_eq (e : Engine L) {samples : List Frame} (h : samples ≠ []) :
    (aeEngineWriteCapture e samples).1 =
      { e with captureRing := (aeRingbufWrite e.captureRing samples).1 } := by
  unfold aeEngineWriteCapture
  rw [if_neg (by simpa using h)]

/-! ### A new engine -/

/-- The engine is off the air, knows no key and has no stream. -/
structure Fresh (e : Engine L) : Prop where
  transmitting : e.transmitting = false
  keys : e.crypto = aeCryptoInit
  streams : ∀ i, e.streams i = .blank

/-- The engine has no connection, is in no channel and counts no stream. -/
structure Idle (e : Engine L) : Prop where
  connected : e.connected = false
  network : e.network = ⟨false, false⟩
  channel : e.channel.active = false
  streamCount : e.streamCount = 0
  activeStreams : e.activeStreams = 0

theorem state_create [Zero Frame] {config : Option AeConfig} {e : Engine L}
    (h : aeEngineCreate L config = some e) : Fresh e ∧ Idle e := by
  unfold aeEngineCreate at h
  simp only [Option.bind_eq_bind, Option.bind_eq_some_iff, Option.pure_def, Option.some.injEq] at h
  obtain ⟨_, -, _, -, _, -, rfl⟩ := h
  exact ⟨⟨rfl, rfl, fun _ => rfl⟩, ⟨rfl, rfl, rfl, rfl, rfl⟩⟩

theorem fresh_create [Zero Frame] {config : Option AeConfig} {e : Engine L}
    (h : aeEngineCreate L config = some e) : Fresh e := (state_create h).1

theorem idle_create [Zero Frame] {config : Option AeConfig} {e : Engine L}
    (h : aeEngineCreate L config = some e) : Idle e := (state_create h).2

/-! ### A client that speaks -/

/-- A new client connects and joins "channel-1". -/
def tuneIn : List (Call (ℚ × ℚ)) :=
  [.setClientId 7, .connect .connected 0, .joinChannel channelOne]

/-- A frame of silence. -/
def silence : List (ℚ × ℚ) := List.replicate aeFrameSize (0, 0)

theorem length_silence : silence.length = aeFrameSize := List.length_replicate ..

/-- The client is on the air with some frames captured. -/
def speaker (clientId : BitVec 64) (frames : List (ℚ × ℚ)) : Engine toneLibrary :=
  let e := (aeEngineStartTransmit (listener clientId) channelOne).1
  { e with captureRing := (aeRingbufWrite e.captureRing frames).1 }

theorem contents_speaker (clientId : BitVec 64) {frames : List (ℚ × ℚ)}
    (hframes : frames.length = aeFrameSize) :
    (speaker clientId frames).captureRing.contents = frames := by
  have hring : (speaker clientId frames).captureRing =
      (aeRingbufWrite newEngine.captureRing frames).1 := rfl
  have hempty : newEngine.captureRing.contents = [] := rfl
  have hroom : min frames.length (aeRingbufFreeSpace newEngine.captureRing) = frames.length := by
    rw [hframes]
    rfl
  rw [hring, RingBuffer.contents_write, RingBuffer.write_snd, hempty, hroom, List.nil_append,
    List.take_length]

/-- A frame's worth of samples is encoded and sent in one packet. -/
theorem transmit_speaker (clientId : BitVec 64) {frames : List (ℚ × ℚ)}
    (hframes : frames.length = aeFrameSize) : ∃ packet,
    audioPacket (speaker clientId frames).encoding [1] = some packet ∧
      (transmit (speaker clientId frames)).2 =
        .encode frames :: aeNetSend (speaker clientId frames).network packet := by
  have hkey : findKey (speaker clientId frames).encoding.crypto
      (speaker clientId frames).encoding.channel.channelIdNum = some (deriveKeyFromChannel 1) := rfl
  obtain ⟨packet, hp⟩ := audioPacket_isSome hkey (show ([1] : List Byte).length ≤ 1352 by decide)
  have hcontents := contents_speaker clientId hframes
  have hfull : aeRingbufAvailable (speaker clientId frames).captureRing = aeFrameSize := by
    rw [← RingBuffer.length_contents, hcontents, hframes]
  refine ⟨packet, hp, ?_⟩
  rcases transmit_cases (speaker clientId frames) with ⟨hidle, -⟩ | ⟨-, h⟩
  · rcases hidle with h | h
    · cases h
    · omega
  · rw [h _ rfl, hcontents, ← hframes, List.take_length]
    show _ :: (sendAudio (speaker clientId frames).encoding (some [1])).2 = _
    rw [sendAudio_packet (by decide) hp]
    rfl

/-- A packet that client `c` sends to "channel-1" arrives at the other clients there. -/
theorem speaker_arrives (c now : BitVec 64) {encoded : List Byte} (hne : encoded ≠ [])
    (hlen : encoded.length ≤ 1352) : ∃ a : Arrival,
    a.data ≠ [] ∧ a.now = now ∧ a.alloc = ⟨true, true, 0⟩ ∧
    ∀ {Frame : Type} {L : Library Frame} (r : Engine L), r.channel.active = true →
      findKey r.crypto 1 = some (deriveKeyFromChannel 1) → c ≠ r.clientId →
      ((findStream r c).isSome ∨ ∃ i, (r.streams i).active = false) →
      ∃ hdr : RtpHeader, hdr.clientId = c ∧ Accepts r a hdr encoded := by
  have hkey : findKey (speaker c silence).encoding.crypto
      (speaker c silence).encoding.channel.channelIdNum = some (deriveKeyFromChannel 1) := rfl
  obtain ⟨packet, hp⟩ := audioPacket_isSome hkey hlen
  obtain ⟨encrypted, -, hsize, hpacket⟩ := audioPacket_eq_some.mp hp
  have hlength : packet.length = aeRtpHeaderSize + encrypted.length := by
    rw [hpacket, List.length_append, length_serializeHeader]
  have hpos : 0 < packet.length := by
    rw [hlength]
    unfold aeRtpHeaderSize
    omega
  refine ⟨⟨packet, hlength.trans_le hsize, ⟨true, true, 0⟩, now, fun _ => 0⟩,
    List.ne_nil_of_length_pos hpos, rfl, rfl, fun r hact hrkey hc hroom => ?_⟩
  exact ⟨_, rfl, accepts_audioPacket hp hne hact (hrkey.trans hkey.symm) hc hroom⟩

end AudioPlatform.Core
