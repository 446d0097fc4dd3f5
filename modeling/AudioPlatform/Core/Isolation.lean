import AudioPlatform.Core.Calls

/-! Which channel the audio that reaches the jitter buffers is for.

A datagram is decrypted with the key of the channel its header names, and the key of
every channel that was joined stays in the table. So the active channel's audio is kept
apart from another channel's only as far as the other's does not authenticate. -/
namespace AudioPlatform.Core
open Concurrency

variable {Frame : Type} {L : Library Frame}

/-! ### One tick -/

/-- No audio datagram for a channel other than the active one that gets as far as being
decrypted, of the ones the tick handles, decrypts to a payload. -/
def ForeignRejected (e : Engine L) : Call Frame → Prop
  | .process t => e.connected = true → ∀ e' a hdr,
      (e', a) ∈ handled maxRecvPerTick t.arrivals (transmit e).1 →
      packetHeader a.data = some hdr → hdr.packetType = aeRtpTypeAudio →
      hdr.clientId ≠ e'.clientId → e'.channel.active = true →
      ((findStream e' hdr.clientId).isSome ∨ ∃ i, (e'.streams i).active = false) →
      aeRtpHeaderSize < a.data.length → hdr.channelId ≠ e'.channel.channelIdNum →
      ∀ data, e'.decrypted a hdr = some data → data = []
  | _ => True

/-- What a tick decodes or pushes comes from a datagram that it accepts. -/
theorem inbound_process {e : Engine L} {t : Tick} {act : Action Frame}
    (hact : act ∈ (aeEngineProcess e t).2) (hin : act.Inbound) : e.connected = true ∧
    ∃ e' a hdr data, (e', a) ∈ handled maxRecvPerTick t.arrivals (transmit e).1 ∧ act ∈ (receive e' a).2 ∧
      Accepts e' a hdr data ∧ ∀ hdr' slot frame seq, act = .push hdr' slot frame seq → hdr' = hdr := by
  rcases process_cases e t with ⟨-, hnil⟩ | ⟨hon, service, hservice, hacts⟩
  · rw [hnil] at hact
    cases hact
  · refine ⟨hon, ?_⟩
    rw [hacts] at hact
    rcases List.mem_append.mp hact with hact | hact
    · rcases List.mem_append.mp hact with hact | hact
      · rcases mem_transmit hact with ⟨-, rfl⟩ | ⟨_, _, rfl⟩
        · exact absurd hin id
        · exact absurd hin id
      · obtain ⟨e', a, hmem, hact⟩ := mem_receiveLoop.mp hact
        obtain ⟨-, hdr, data, hacc, hhdr⟩ := mem_receive hact
        exact ⟨e', a, hdr, data, hmem, hact, hacc, hhdr⟩
    · have h := hservice act hact
      cases act with
      | send packet sock => exact absurd hin id
      | _ => exact absurd h id

/-- A tick that meets a foreign datagram that decrypts hands it to a decoder. -/
theorem decode_of_not_foreignRejected {e : Engine L} {t : Tick}
    (h : ¬ ForeignRejected e (.process t)) : ∃ e' a hdr slot data,
      (e', a) ∈ handled maxRecvPerTick t.arrivals (transmit e).1 ∧
      packetHeader a.data = some hdr ∧ .decode slot data ∈ (receive e' a).2 ∧
      .decode slot data ∈ (aeEngineProcess e t).2 ∧ e'.channel.active = true ∧
      hdr.channelId ≠ e'.channel.channelIdNum := by
  dsimp only [ForeignRejected] at h
  push Not at h
  obtain ⟨hon, e', a, hdr, hmem, hheader, haudio, hother, hact, hstream, hsize, hne, data, hdec,
    hdata⟩ := h
  obtain ⟨slot, hdecode⟩ := decode_receive ⟨hheader, haudio, hother, hact, hstream, hsize, hdec, hdata⟩
  refine ⟨e', a, hdr, slot, data, hmem, hheader, hdecode, ?_, hact, hne⟩
  rcases process_cases e t with ⟨hoff, -⟩ | ⟨-, service, -, hacts⟩
  · rw [hon] at hoff
    cases hoff
  · rw [hacts]
    exact List.mem_append_left _ (List.mem_append_right _ (mem_receiveLoop.mpr ⟨e', a, hmem, hdecode⟩))

/-! ### A run -/

/-- **Isolation.** In a run in which no tick meets a foreign datagram that decrypts, what
reaches a decoder or a jitter buffer comes from a datagram for the channel that is active
when it is handled. -/
theorem inbound_of_active_channel (e : Engine L) {before after : List (Call Frame)} {t : Tick}
    (hforeign : Machine.Along Engine.call ForeignRejected e (before ++ .process t :: after))
    {act : Action Frame}
    (hact : act ∈ (aeEngineProcess (Machine.run Engine.call e before) t).2) (hin : act.Inbound) :
    ∃ e' a hdr,
      (e', a) ∈ handled maxRecvPerTick t.arrivals (transmit (Machine.run Engine.call e before)).1 ∧
      act ∈ (receive e' a).2 ∧ packetHeader a.data = some hdr ∧
      (∀ hdr' slot frame seq, act = .push hdr' slot frame seq → hdr' = hdr) ∧
      e'.channel.active = true ∧ hdr.channelId = e'.channel.channelIdNum := by
  have htick : ForeignRejected (Machine.run Engine.call e before) (.process t) :=
    (Machine.along_append.mp hforeign).2.1
  obtain ⟨hon, e', a, hdr, data, hmem, hreceive, hacc, hhdr⟩ := inbound_process hact hin
  refine ⟨e', a, hdr, hmem, hreceive, hacc.header, hhdr, hacc.active, ?_⟩
  by_contra hne
  exact hacc.nonempty (htick hon e' a hdr hmem hacc.header hacc.audio hacc.other hacc.active
    hacc.stream hacc.payload hne data hacc.decrypted)

/-! ### Channels that were joined -/

/-- The numbers of the channels joined, a history beside the run. -/
def joined (e : Engine L) : Call Frame → List (BitVec 32) → List (BitVec 32)
  | .joinChannel channelId, numbers =>
    if e.connected then channelStrToId channelId :: numbers else numbers
  | _, numbers => numbers

/-- The key table holds keys of the numbered channels only. -/
def KeysOf (e : Engine L) (numbers : List (BitVec 32)) : Prop :=
  ∀ entry ∈ e.crypto.keys, entry.channelId ∈ numbers

theorem channelId_setChannelKey {ctx ctx' : Crypto} {channelId : BitVec 32} {key : Option Key}
    (h : aeCryptoSetChannelKey ctx channelId key = some ctx') {entry : ChannelKey}
    (hentry : entry ∈ ctx'.keys) : entry ∈ ctx.keys ∨ entry.channelId = channelId := by
  unfold aeCryptoSetChannelKey at h
  dsimp only at h
  split at h
  · obtain rfl := Option.some.inj h
    rcases List.mem_or_eq_of_mem_set hentry with h | rfl
    · exact .inl h
    · exact .inr rfl
  · split at h
    · obtain rfl := Option.some.inj h
      rcases List.mem_append.mp hentry with h | h
      · exact .inl h
      · obtain rfl := List.mem_singleton.mp h
        exact .inr rfl
    · cases h

theorem crypto_transmit (e : Engine L) : (transmit e).1.crypto = e.crypto := by
  rcases transmit_outcomes e with h | ⟨-, h⟩ | ⟨-, _, _, -, h⟩
  · rw [h]
  · rw [h]
    rfl
  · rw [h]
    rfl

/-- A call adds a key for the channel that it joins, if any. -/
theorem crypto_call (e : Engine L) (c : Call Frame) : (e.call c).1.crypto = e.crypto ∨
    ∃ channelId, c = .joinChannel channelId ∧ e.connected = true ∧
      aeCryptoSetChannelKey e.crypto (channelStrToId channelId) none = some (e.call c).1.crypto := by
  by_cases htick : c.Ticks
  · cases c with
    | process t =>
      left
      have h := congrArg Control.crypto (control_process e t)
      apply h.trans
      split
      · exact crypto_transmit e
      · rfl
    | _ => exact absurd htick id
  · rw [← control_crypto, control_call e htick]
    cases c with
    | joinChannel channelId =>
      dsimp only [Control.after]
      by_cases hon : e.control.connected = true
      · have hentered : ((if e.control.channel.active then e.control.hungUp else
            e.control).entered channelId).crypto =
              (aeCryptoSetChannelKey e.crypto (channelStrToId channelId) none).getD e.crypto := by
          split <;> rfl
        rw [if_pos hon, hentered]
        cases hkey : aeCryptoSetChannelKey e.crypto (channelStrToId channelId) none with
        | none => exact .inl rfl
        | some ctx => exact .inr ⟨channelId, rfl, hon, hkey⟩
      · rw [if_neg hon]
        exact .inl rfl
    | leaveAllChannels =>
      left
      dsimp only [Control.after]
      split <;> rfl
    | startTransmit channelId =>
      left
      dsimp only [Control.after]
      split <;> rfl
    | _ => exact .inl rfl

theorem keysOf_call (e : Engine L) (numbers : List (BitVec 32)) (c : Call Frame)
    (h : KeysOf e numbers) : KeysOf (e.call c).1 (joined e c numbers) := by
  have hgrow : ∀ n ∈ numbers, n ∈ joined e c numbers := by
    intro n hn
    cases c with
    | joinChannel channelId =>
      dsimp only [joined]
      split
      · exact List.mem_cons_of_mem _ hn
      · exact hn
    | _ => exact hn
  intro entry hentry
  rcases crypto_call e c with hsame | ⟨channelId, rfl, hon, hset⟩
  · rw [hsame] at hentry
    exact hgrow _ (h entry hentry)
  · rcases channelId_setChannelKey hset hentry with hold | hnew
    · exact hgrow _ (h entry hold)
    · rw [hnew]
      dsimp only [joined]
      rw [if_pos hon]
      exact List.mem_cons_self ..

theorem mem_of_findKey {e : Engine L} {numbers : List (BitVec 32)} (h : KeysOf e numbers)
    {n : BitVec 32} (hkey : (findKey e.crypto n).isSome) : n ∈ numbers := by
  unfold findKey at hkey
  rw [Option.isSome_map, List.find?_isSome] at hkey
  obtain ⟨entry, hentry, hfor⟩ := hkey
  have hn : entry.channelId = n := by
    have := (Bool.and_eq_true_iff.mp hfor).2
    simpa using this
  exact hn ▸ h entry hentry

/-- What decrypts, decrypts under a key. -/
theorem findKey_of_decrypted {e : Engine L} {a : Arrival} {hdr : RtpHeader} {data : List Byte}
    (h : e.decrypted a hdr = some data) : (findKey e.crypto hdr.channelId).isSome := by
  unfold Engine.decrypted aeCryptoDecrypt at h
  dsimp only at h
  split at h
  · cases h
  · split at h
    · cases h
    · cases hkey : findKey e.crypto hdr.channelId with
      | none =>
        rw [hkey] at h
        cases h
      | some key => rfl

/-- In every run of a new engine, what reaches a decoder or a jitter buffer comes from a
datagram for a channel that was joined before. -/
theorem inbound_of_joined [Zero Frame] {config : Option AeConfig} {e : Engine L}
    (hnew : aeEngineCreate L config = some e) (calls : List (Call Frame)) {t : Tick}
    {act : Action Frame} (hact : act ∈ (aeEngineProcess (Machine.run Engine.call e calls) t).2)
    (hin : act.Inbound) : ∃ e' a hdr,
      (e', a) ∈ handled maxRecvPerTick t.arrivals (transmit (Machine.run Engine.call e calls)).1 ∧
      act ∈ (receive e' a).2 ∧ packetHeader a.data = some hdr ∧
      (∀ hdr' slot frame seq, act = .push hdr' slot frame seq → hdr' = hdr) ∧
      hdr.channelId ∈ Machine.history Engine.call joined e [] calls := by
  have hempty : KeysOf e [] := by
    unfold KeysOf
    rw [(fresh_create hnew).keys]
    exact fun entry hentry => absurd hentry List.not_mem_nil
  have hkeys : KeysOf (Machine.run Engine.call e calls)
      (Machine.history Engine.call joined e [] calls) :=
    Machine.history_invariant (P := KeysOf) keysOf_call hempty calls
  obtain ⟨-, e', a, hdr, data, hmem, hreceive, hacc, hhdr⟩ := inbound_process hact hin
  refine ⟨e', a, hdr, hmem, hreceive, hacc.header, hhdr, mem_of_findKey hkeys ?_⟩
  have hcrypto : e'.crypto = (Machine.run Engine.call e calls).crypto :=
    (congrArg Control.crypto (control_handled hmem)).trans (crypto_transmit _)
  rw [← hcrypto]
  exact findKey_of_decrypted hacc.decrypted

/-! ### A late packet -/

/-- Client 7, connected and silent, with the key of channel 1. -/
structure Hears (r : Engine toneLibrary) : Prop where
  connected : r.connected = true
  sock : r.network.sock = true
  silent : r.transmitting = false
  active : r.channel.active = true
  key : findKey r.crypto 1 = some (deriveKeyFromChannel 1)
  clientId : r.clientId = 7
  streams : ∀ i, (r.streams i).active = false

/-- The header of a packet that client 8 sends on "channel-1". -/
def lateHeader : RtpHeader :=
  (audioHeader (speaker 8 silence).encoding).withLength (receivedLength [1])

/-- The packet arrives. -/
theorem late_packet : ∃ a : Arrival, audioPacket (speaker 8 silence).encoding [1] = some a.data ∧
    packetHeader a.data = some lateHeader ∧ a.data ≠ [] ∧ a.alloc = ⟨true, true, 0⟩ ∧ a.now = 0 := by
  obtain ⟨packet, hp, -⟩ := transmit_speaker 8 length_silence
  obtain ⟨encrypted, -, hsize, hpacket⟩ := audioPacket_eq_some.mp hp
  have hfits : packet.length ≤ aeMaxPacketSize := by
    rw [hpacket, List.length_append, length_serializeHeader]
    exact hsize
  obtain ⟨hheader, -, hlong, -⟩ :=
    audioPacket_arrives (r := (speaker 8 silence).encoding) (a := arriving packet hfits) hp rfl
  exact ⟨arriving packet hfits, hp, hheader, List.ne_nil_of_length_pos (by omega), rfl, rfl⟩

theorem push_receive {r : Engine toneLibrary} (hr : Hears r) {a : Arrival}
    (hp : audioPacket (speaker 8 silence).encoding [1] = some a.data)
    (hdecoder : a.alloc.decoder = true) :
    ∃ slot frame seq, .push lateHeader slot frame seq ∈ (receive r a).2 := by
  have hne : (speaker 8 silence).encoding.clientId ≠ r.clientId := by
    rw [hr.clientId]
    show (8 : BitVec 64) ≠ 7
    decide
  obtain ⟨slot, hs, hreceive⟩ := receive_audioPacket hp (by decide) hr.active hr.key hne
    (.inr ⟨⟨0, by decide⟩, hr.streams _⟩)
  have hnone : findStream (r.holding a) (speaker 8 silence).encoding.clientId = none := by
    refine Option.not_isSome_iff_eq_none.mp fun h => ?_
    obtain ⟨i, hi, -⟩ := findStream_isSome.mp h
    rw [streams_holding, hr.streams] at hi
    cases hi
  have hstream := streamFor_new hnone hs
  have hdecodes : ∀ pcm : Pcm, 0 < (aeOpusDecode (some toneLibrary.decoderCreate) [1] pcm).2.1 := by
    intro pcm
    show (0 : Int) < aeFrameSize
    decide
  rw [hreceive]
  obtain ⟨frame, seq, hpush⟩ := push_acceptAudio
    (streamFor (r.holding a) (speaker 8 silence).encoding.clientId a.alloc).1 slot lateHeader [1] a.now
    (by
      rw [hstream]
      unfold newStream
      rw [if_pos hdecoder]
      exact hdecodes _)
  exact ⟨slot, frame, seq, hpush⟩

theorem push_process {r : Engine toneLibrary} (hr : Hears r) {a : Arrival}
    (hp : audioPacket (speaker 8 silence).encoding [1] = some a.data) (hne : a.data ≠ [])
    (hdecoder : a.alloc.decoder = true) :
    ∃ slot frame seq, .push lateHeader slot frame seq ∈ (aeEngineProcess r ⟨[a], 0, 0⟩).2 := by
  obtain ⟨slot, frame, seq, hpush⟩ := push_receive hr hp hdecoder
  refine ⟨slot, frame, seq, ?_⟩
  rcases process_cases r ⟨[a], 0, 0⟩ with ⟨hoff, -⟩ | ⟨-, service, -, hacts⟩
  · rw [hr.connected] at hoff
    cases hoff
  · rw [hacts, transmit_silent hr.silent]
    refine List.mem_append_left _ (List.mem_append_right _ ?_)
    rw [show maxRecvPerTick = 19 + 1 from rfl, receiveLoop_cons hne hr.sock]
    exact List.mem_append_left _ hpush

theorem hears_listener : Hears (listener 7) := ⟨rfl, rfl, rfl, rfl, rfl, rfl, fun _ => rfl⟩

/-- On "channel-1" the packet is for the active channel. -/
theorem inbound_of_active_channel_listener :
    ∃ (t : Tick) (act : Action (ℚ × ℚ)) (e' : Engine toneLibrary) (a : Arrival) (hdr : RtpHeader),
      (e', a) ∈ handled maxRecvPerTick t.arrivals
        (transmit (Machine.run Engine.call newEngine tuneIn)).1 ∧
      act ∈ (receive e' a).2 ∧ packetHeader a.data = some hdr ∧
      (∀ hdr' slot frame seq, act = .push hdr' slot frame seq → hdr' = hdr) ∧
      e'.channel.active = true ∧ hdr.channelId = e'.channel.channelIdNum := by
  obtain ⟨a, hp, hheader, hne, halloc, -⟩ := late_packet
  obtain ⟨slot, frame, seq, hpush⟩ := push_process hears_listener hp hne (by rw [halloc])
  have htick : ForeignRejected (listener 7) (.process ⟨[a], 0, 0⟩) := by
    intro _ e' a' hdr hmem hhdr _ _ _ _ _ hforeign
    obtain rfl := List.mem_singleton.mp (arrived_handled hmem)
    obtain rfl := Option.some.inj (hheader.symm.trans hhdr)
    have hcontrol := control_handled hmem
    rw [transmit_silent hears_listener.silent] at hcontrol
    rw [← control_channel, hcontrol] at hforeign
    exact absurd rfl hforeign
  have hforeign : Machine.Along Engine.call ForeignRejected newEngine
      (tuneIn ++ [.process ⟨[a], 0, 0⟩]) := ⟨trivial, trivial, trivial, htick, trivial⟩
  exact ⟨⟨[a], 0, 0⟩, _, inbound_of_active_channel newEngine hforeign hpush trivial⟩

/-- The client has switched from "channel-1" to "channel-2". -/
def switched : Engine toneLibrary := (aeEngineJoinChannel (listener 7) channelTwo).1

theorem run_switched :
    Machine.run Engine.call newEngine (tuneIn ++ [.joinChannel channelTwo]) = switched := rfl

theorem control_switched : switched.control = (listener 7).control.hungUp.entered channelTwo := by
  unfold switched
  rw [control_joinChannel]
  rfl

theorem hears_switched : Hears switched where
  connected := by
    rw [← control_connected, control_switched]
    rfl
  sock := by
    rw [← control_network, control_switched]
    rfl
  silent := by
    rw [← control_transmitting, control_switched]
    rfl
  active := by
    rw [← control_channel, control_switched]
    rfl
  key := by
    rw [← control_crypto, control_switched]
    rfl
  clientId := by
    rw [← control_clientId, control_switched]
    rfl
  streams := by
    intro i
    unfold switched
    exact inactive_joinChannel (e := listener 7) rfl rfl channelTwo i

/-- On "channel-2" the packet is pushed as well. -/
theorem foreign_pushed : ∃ (a : Arrival) (hdr : RtpHeader) (slot : StreamIndex) (frame : Pcm)
    (seq : BitVec 32), packetHeader a.data = some hdr ∧
      .push hdr slot frame seq ∈ (aeEngineProcess
        (Machine.run Engine.call newEngine (tuneIn ++ [.joinChannel channelTwo])) ⟨[a], 0, 0⟩).2 ∧
      (Machine.run Engine.call newEngine (tuneIn ++ [.joinChannel channelTwo])).channel.active = true ∧
      hdr.channelId ≠
        (Machine.run Engine.call newEngine (tuneIn ++ [.joinChannel channelTwo])).channel.channelIdNum := by
  rw [run_switched]
  obtain ⟨a, hp, hheader, hne, halloc, -⟩ := late_packet
  obtain ⟨slot, frame, seq, hpush⟩ := push_process hears_switched hp hne (by rw [halloc])
  refine ⟨a, lateHeader, slot, frame, seq, hheader, hpush, hears_switched.active, ?_⟩
  rw [← control_channel, control_switched]
  show (1 : BitVec 32) ≠ 2
  decide

end AudioPlatform.Core
