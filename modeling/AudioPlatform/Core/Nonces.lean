import AudioPlatform.Core.Calls

/-! The nonces of the audio packets that a set of engines sends.

An engine numbers its audio packets one after the other, whatever is called in
between, so its nonces differ until the numbers have gone round. Nonces of two
engines differ if the low halves of their client ids do, and may be equal
otherwise. -/
namespace AudioPlatform.Core
open Concurrency

variable {Frame : Type} {L : Library Frame}

/-! ### Audio packets -/

/-- The audio packet that an action hands to the socket. -/
def Action.audio : Action Frame → Option (List Byte)
  | .send packet _ =>
    match packetHeader packet with
    | some hdr => if hdr.packetType = aeRtpTypeAudio then some packet else none
    | none => none
  | _ => none

def audioPackets (acts : List (Action Frame)) : List (List Byte) := acts.filterMap Action.audio

def packetChannel (packet : List Byte) : Option (BitVec 32) :=
  (packetHeader packet).map RtpHeader.channelId

/-- The twelve bytes after the header. -/
def packetIv (packet : List Byte) : List Byte :=
  (packet.drop aeRtpHeaderSize).take aeCryptoIvSize

@[simp] theorem audioPackets_append (a b : List (Action Frame)) :
    audioPackets (a ++ b) = audioPackets a ++ audioPackets b := List.filterMap_append

/-- The packet is for channel `n` and carries the nonce that client `c` builds for `n`
and the sequence number `q`. -/
def Bears (n : BitVec 32) (c : BitVec 64) (q : BitVec 32) (packet : List Byte) : Prop :=
  packetChannel packet = some n ∧ packetIv packet = buildNonce n c q

theorem Action.Service.audio {act : Action Frame} (h : act.Service) : act.audio = none := by
  cases act with
  | send packet sock =>
    obtain ⟨hdr, hp, ht⟩ := h
    simp [Action.audio, hp, ht]
  | _ => rfl

theorem Action.Inbound.audio {act : Action Frame} (h : act.Inbound) : act.audio = none := by
  cases act with
  | send packet sock => exact absurd h id
  | _ => rfl

theorem audioPackets_eq_nil {acts : List (Action Frame)} (h : ∀ act ∈ acts, act.audio = none) :
    audioPackets acts = [] :=
  List.filterMap_eq_nil_iff.mpr h

/-- A packet that is built goes out as one audio packet, with the engine's next number. -/
theorem audioPackets_send {e : Engine L} {payload packet : List Byte} (net : Net)
    (hp : audioPacket e payload = some packet) :
    audioPackets (aeNetSend net packet : List (Action Frame)) = [packet] ∧
      Bears e.channel.channelIdNum e.clientId e.txSequence packet := by
  obtain ⟨encrypted, henc, -, rfl⟩ := audioPacket_eq_some.mp hp
  obtain ⟨-, key, -, rfl⟩ := aeCryptoEncrypt_eq_some.mp henc
  have hheader := packetHeader_serialize ((audioHeader e).withLength (BitVec.ofNat 16
    (buildNonce e.channel.channelIdNum e.clientId e.txSequence ++
      xorStream key (buildNonce e.channel.channelIdNum e.clientId e.txSequence) payload ++
        computeTag key payload (serializeHeader (audioHeader e))).length))
    (buildNonce e.channel.channelIdNum e.clientId e.txSequence ++
      xorStream key (buildNonce e.channel.channelIdNum e.clientId e.txSequence) payload ++
        computeTag key payload (serializeHeader (audioHeader e)))
  constructor
  · unfold aeNetSend
    rw [if_neg (by simp [serializeHeader])]
    simp only [audioPackets, List.filterMap_cons, List.filterMap_nil, Action.audio, hheader]
    rfl
  · constructor
    · unfold packetChannel
      rw [hheader]
      rfl
    · unfold packetIv
      rw [List.drop_left' (by simp), List.append_assoc, List.take_left' (by simp)]

/-! ### One call -/

/-- What a call does to the numbering: no audio packet and no change, or one packet
with the number that the engine had, which is then one higher. -/
def NumbersOne (e e' : Engine L) (acts : List (Action Frame)) : Prop :=
  (audioPackets acts = [] ∧ e'.txSequence = e.txSequence) ∨
  ∃ packet, audioPackets acts = [packet] ∧
    Bears e.channel.channelIdNum e.clientId e.txSequence packet ∧
    e'.txSequence = e.txSequence + 1

theorem numbers_transmit (e : Engine L) : NumbersOne e (transmit e).1 (transmit e).2 := by
  rcases transmit_outcomes e with h | ⟨-, h⟩ | ⟨-, payload, packet, hp, h⟩
  · rw [h]
    exact .inl ⟨rfl, rfl⟩
  · rw [h]
    exact .inl ⟨rfl, rfl⟩
  · obtain ⟨hsent, hbears⟩ := audioPackets_send e.encoding.network hp
    rw [h]
    exact .inr ⟨packet, hsent, hbears, rfl⟩

theorem clientId_transmit (e : Engine L) : (transmit e).1.clientId = e.clientId := by
  rcases transmit_outcomes e with h | ⟨-, h⟩ | ⟨-, _, _, -, h⟩
  · rw [h]
  · rw [h]
    rfl
  · rw [h]
    rfl

/-- The audio packets of a tick are what it captures. -/
theorem audioPackets_process (e : Engine L) (t : Tick) : audioPackets (aeEngineProcess e t).2 =
    if e.connected then audioPackets (transmit e).2 else [] := by
  rcases process_cases e t with ⟨hoff, hnil⟩ | ⟨hon, service, hservice, hacts⟩
  · rw [hnil, if_neg (by simp [hoff])]
    rfl
  · have hreceived : audioPackets
        (receiveLoop maxRecvPerTick t.arrivals (transmit e).1).2 = [] :=
      audioPackets_eq_nil fun act hact => by
        obtain ⟨e', a, -, hact⟩ := mem_receiveLoop.mp hact
        exact (mem_receive hact).1.audio
    have hquiet : audioPackets service = [] :=
      audioPackets_eq_nil fun act hact => (hservice act hact).audio
    rw [hacts, audioPackets_append, audioPackets_append, hreceived, hquiet, List.append_nil,
      List.append_nil, if_pos hon]

/-- No other call sends audio. -/
theorem audioPackets_call (e : Engine L) {c : Call Frame} (hc : ¬ c.Ticks) :
    audioPackets (e.call c).2 = [] :=
  audioPackets_eq_nil fun _ hact => (service_call e hc hact).audio

theorem numbers_process (e : Engine L) (t : Tick) :
    NumbersOne e (aeEngineProcess e t).1 (aeEngineProcess e t).2 := by
  have hcontrol := control_process e t
  unfold NumbersOne
  rw [audioPackets_process]
  by_cases hon : e.connected = true
  · rw [if_pos hon] at hcontrol ⊢
    have htx : (aeEngineProcess e t).1.txSequence = (transmit e).1.txSequence :=
      congrArg Control.txSequence hcontrol
    rw [htx]
    exact numbers_transmit e
  · rw [if_neg hon] at hcontrol ⊢
    exact .inl ⟨rfl, congrArg Control.txSequence hcontrol⟩

/-- The call does not change who the engine is. -/
def Call.KeepsId : Call Frame → Prop
  | .setClientId _ => False
  | _ => True

theorem numbers_call (e : Engine L) {c : Call Frame} (hc : c.KeepsId) :
    NumbersOne e (e.call c).1 (e.call c).2 ∧ (e.call c).1.clientId = e.clientId := by
  by_cases htick : c.Ticks
  · cases c with
    | process t =>
      refine ⟨numbers_process e t, ?_⟩
      have h := congrArg Control.clientId (control_process e t)
      apply h.trans
      split
      · exact clientId_transmit e
      · rfl
    | _ => exact absurd htick id
  · obtain ⟨htx, hid⟩ := identity_after e.control c
    rw [← control_call e htick] at htx hid
    refine ⟨.inl ⟨audioPackets_call e htick, htx⟩, hid ?_⟩
    rintro clientId rfl
    exact hc

/-! ### A run of one engine -/

/-- Packets numbered one after the other from `q`. -/
def Numbered (c : BitVec 64) : BitVec 32 → List (List Byte) → Prop
  | _, [] => True
  | q, packet :: rest => (∃ n, Bears n c q packet) ∧ Numbered c (q + 1) rest

/-- The audio packets of a run carry the engine's numbers in order. -/
theorem numbered_run (e : Engine L) {calls : List (Call Frame)} (hcalls : ∀ c ∈ calls, c.KeepsId) :
    Numbered e.clientId e.txSequence (audioPackets (Machine.outputs Engine.call e calls)) := by
  induction calls generalizing e with
  | nil => trivial
  | cons c rest ih =>
    obtain ⟨hnum, hid⟩ := numbers_call e (hcalls c (List.mem_cons_self ..))
    have hrest := ih (e.call c).1 fun d hd => hcalls d (List.mem_cons_of_mem _ hd)
    rw [hid] at hrest
    show Numbered e.clientId e.txSequence
      (audioPackets ((e.call c).2 ++ Machine.outputs Engine.call (e.call c).1 rest))
    rw [audioPackets_append]
    rcases hnum with ⟨hnil, htx⟩ | ⟨packet, hone, hbears, htx⟩
    · rw [hnil, List.nil_append, ← htx]
      exact hrest
    · rw [hone]
      rw [htx] at hrest
      exact ⟨⟨_, hbears⟩, hrest⟩

theorem Numbered.bears {c : BitVec 64} {q : BitVec 32} {packets : List (List Byte)}
    (h : Numbered c q packets) {packet : List Byte} (hp : packet ∈ packets) :
    ∃ i < packets.length, ∃ n, Bears n c (q + BitVec.ofNat 32 i) packet := by
  induction packets generalizing q with
  | nil => cases hp
  | cons first rest ih =>
    rcases List.mem_cons.mp hp with rfl | hp
    · exact ⟨0, Nat.zero_lt_succ _, by simpa using h.1⟩
    · obtain ⟨i, hi, hb⟩ := ih h.2 hp
      refine ⟨i + 1, Nat.succ_lt_succ hi, ?_⟩
      rw [BitVec.ofNat_add, BitVec.add_comm (BitVec.ofNat 32 i), ← BitVec.add_assoc]
      exact hb

/-- Two packets for one channel have different nonces. -/
def DistinctIv (p p' : List Byte) : Prop :=
  packetChannel p = packetChannel p' → packetIv p ≠ packetIv p'

theorem Bears.distinct {n n' : BitVec 32} {c c' : BitVec 64} {q q' : BitVec 32}
    {p p' : List Byte} (h : Bears n c q p) (h' : Bears n' c' q' p')
    (hne : c.setWidth 32 ≠ c'.setWidth 32 ∨ q ≠ q') : DistinctIv p p' := by
  intro _ heq
  rw [h.2, h'.2, buildNonce_inj] at heq
  rcases hne with hne | hne
  · exact hne heq.2.1
  · exact hne heq.2.2

theorem Numbered.distinct {c : BitVec 64} {q : BitVec 32} {packets : List (List Byte)}
    (h : Numbered c q packets) (hlen : packets.length < 2 ^ 32) :
    packets.Pairwise DistinctIv := by
  induction packets generalizing q with
  | nil => exact .nil
  | cons first rest ih =>
    refine .cons (fun packet hp => ?_) (ih h.2 (lt_trans (Nat.lt_succ_self _) hlen))
    obtain ⟨n, hfirst⟩ := h.1
    obtain ⟨i, hi, _, hb⟩ := h.2.bears hp
    refine hfirst.distinct hb (.inr fun heq => ?_)
    have hlen' : rest.length + 1 < 2 ^ 32 := hlen
    have : (BitVec.ofNat 32 (i + 1)).toNat = 0 := by
      have h0 : q + 0#32 = q + BitVec.ofNat 32 (i + 1) := by
        rw [BitVec.add_zero, BitVec.ofNat_add, BitVec.add_comm (BitVec.ofNat 32 i),
          ← BitVec.add_assoc]
        exact heq
      rw [← (BitVec.add_right_inj q).mp h0]
      rfl
    rw [BitVec.toNat_ofNat, Nat.mod_eq_of_lt (by omega)] at this
    omega

/-! ### A family of engines -/

/-- The audio packets that a family of engines sends, in the order in which they are sent. -/
def sentAudio {ι : Type} [DecidableEq ι] (engines : ι → Engine L) (calls : List (ι × Call Frame)) :
    List (ι × List Byte) :=
  (Machine.familyOutputs Engine.call engines calls).filterMap fun x => x.2.audio.map (x.1, ·)

theorem own_sentAudio {ι : Type} [DecidableEq ι] (i : ι) (engines : ι → Engine L)
    (calls : List (ι × Call Frame)) : Machine.own i (sentAudio engines calls) =
      audioPackets (Machine.outputs Engine.call (engines i) (Machine.own i calls)) := by
  unfold sentAudio
  rw [Machine.own_filterMap, Machine.outputs_own]
  rfl

/-- **Nonces differ.** Whatever engines with distinct low halves of their client ids do, in
any order, no two of the audio packets that they hand to their sockets for one channel
carry the same nonce, as long as each engine hands out fewer than 2^32. -/
theorem nonces_distinct {ι : Type} [DecidableEq ι] {engines : ι → Engine L}
    {calls : List (ι × Call Frame)}
    (hids : ∀ i j, i ≠ j → (engines i).clientId.setWidth 32 ≠ (engines j).clientId.setWidth 32)
    (hkeeps : ∀ x ∈ calls, x.2.KeepsId)
    (hcount : ∀ i, (Machine.own i (sentAudio engines calls)).length < 2 ^ 32) :
    (sentAudio engines calls).Pairwise fun x y => DistinctIv x.2 y.2 := by
  have hnumbered : ∀ i, Numbered (engines i).clientId (engines i).txSequence
      (Machine.own i (sentAudio engines calls)) := by
    intro i
    rw [own_sentAudio]
    exact numbered_run (engines i) fun c hc => hkeeps (i, c) (Machine.mem_own.mp hc)
  refine Machine.pairwise_of_own (fun i => (hnumbered i).distinct (hcount i)) ?_
  rintro ⟨i, p⟩ hp ⟨j, p'⟩ hp' hij
  obtain ⟨_, -, _, hb⟩ := (hnumbered i).bears (Machine.mem_own.mpr hp)
  obtain ⟨_, -, _, hb'⟩ := (hnumbered j).bears (Machine.mem_own.mpr hp')
  exact hb.distinct hb' (.inl (hids i j hij))

/-! ### Two clients that speak -/

/-- A client starts to transmit on "channel-1", captures some frames and sends. -/
def talk (frames : List (ℚ × ℚ)) : List (Call (ℚ × ℚ)) :=
  [.startTransmit channelOne, .writeCapture frames, .process ⟨[], 0, 0⟩]

/-- A frame's worth of samples is sent in one packet. -/
theorem audioPackets_talk (clientId : BitVec 64) {frames : List (ℚ × ℚ)}
    (hframes : frames.length = aeFrameSize) : ∃ packet,
    audioPackets (Machine.outputs Engine.call (listener clientId) (talk frames)) = [packet] ∧
      Bears 1 clientId 0 packet := by
  have hne : frames ≠ [] := List.length_pos_iff.mp (by rw [hframes]; decide)
  have hwrite := writeCapture_eq (aeEngineStartTransmit (listener clientId) channelOne).1 hne
  have houtputs : Machine.outputs Engine.call (listener clientId) (talk frames) =
      (aeEngineProcess (speaker clientId frames) ⟨[], 0, 0⟩).2 := by
    show [] ++ ([] ++ ((aeEngineProcess (aeEngineWriteCapture
      (aeEngineStartTransmit (listener clientId) channelOne).1 frames).1 _).2 ++ [])) = _
    rw [hwrite, List.nil_append, List.nil_append, List.append_nil]
    rfl
  obtain ⟨packet, hp, hsent⟩ := transmit_speaker clientId hframes
  obtain ⟨hpacket, hbears⟩ :=
    audioPackets_send (speaker clientId frames).network hp
  refine ⟨packet, ?_, hbears⟩
  rcases process_cases (speaker clientId frames) ⟨[], 0, 0⟩ with
    ⟨hoff, -⟩ | ⟨-, service, hservice, h⟩
  · cases hoff
  · have hquiet : audioPackets service = [] :=
      audioPackets_eq_nil fun act hact => (hservice act hact).audio
    rw [houtputs, h, audioPackets_append, audioPackets_append, hquiet, hsent]
    show audioPackets (aeNetSend _ packet) ++ [] ++ [] = _
    rw [hpacket]
    rfl

/-- One client speaks after the other. -/
def conversation : List (Bool × Call (ℚ × ℚ)) :=
  (talk silence).map (false, ·) ++ (talk silence).map (true, ·)

theorem own_conversation (b : Bool) : Machine.own b conversation = talk silence := by
  unfold conversation
  rw [Machine.own_append]
  cases b with
  | false => rw [Machine.own_map_self, Machine.own_map_ne (by decide), List.append_nil]
  | true => rw [Machine.own_map_self, Machine.own_map_ne (by decide), List.nil_append]

theorem keepsId_conversation : ∀ x ∈ conversation, x.2.KeepsId := by
  rintro ⟨b, c⟩ hx
  have hc : c ∈ talk silence := by
    rw [← own_conversation b]
    exact Machine.mem_own.mpr hx
  rcases hc with _ | ⟨_, _ | ⟨_, _ | ⟨_, h⟩⟩⟩
  · trivial
  · trivial
  · trivial
  · cases h

theorem sentAudio_conversation (ids : Bool → BitVec 64) (b : Bool) : ∃ packet,
    Machine.own b (sentAudio (fun b => listener (ids b)) conversation) = [packet] ∧
      Bears 1 (ids b) 0 packet := by
  rw [own_sentAudio, own_conversation]
  exact audioPackets_talk (ids b) length_silence

theorem count_conversation (ids : Bool → BitVec 64) (b : Bool) :
    (Machine.own b (sentAudio (fun b => listener (ids b)) conversation)).length < 2 ^ 32 := by
  obtain ⟨packet, h, -⟩ := sentAudio_conversation ids b
  rw [h]
  exact Nat.one_lt_two_pow (by decide)

/-- The clients 1 and 2 speak one after the other. -/
theorem nonces_distinct_conversation :
    (sentAudio (fun b => listener (bif b then 2 else 1)) conversation).Pairwise
      fun x y => DistinctIv x.2 y.2 :=
  nonces_distinct (by decide) keepsId_conversation (count_conversation _)

/-- Two clients whose ids differ in the high half only. -/
def twin (b : Bool) : BitVec 64 := bif b then 0x100000001 else 1

/-- Twins send their first packets under one nonce. -/
theorem nonces_collide :
    (∀ i j, i ≠ j → (listener (twin i)).clientId ≠ (listener (twin j)).clientId) ∧
      (∀ x ∈ conversation, x.2.KeepsId) ∧
      (∀ b, (Machine.own b (sentAudio (fun b => listener (twin b)) conversation)).length < 2 ^ 32) ∧
      ¬ (sentAudio (fun b => listener (twin b)) conversation).Pairwise
        fun x y => DistinctIv x.2 y.2 := by
  refine ⟨?_, keepsId_conversation, count_conversation twin, fun hpair => ?_⟩
  · show ∀ i j, i ≠ j → twin i ≠ twin j
    decide
  · obtain ⟨p, hown, hchannel, hiv⟩ := sentAudio_conversation twin false
    obtain ⟨p', hown', hchannel', hiv'⟩ := sentAudio_conversation twin true
    have hmem : (false, p) ∈ sentAudio (fun b => listener (twin b)) conversation :=
      Machine.mem_own.mp (by rw [hown]; exact List.mem_singleton_self p)
    have hmem' : (true, p') ∈ sentAudio (fun b => listener (twin b)) conversation :=
      Machine.mem_own.mp (by rw [hown']; exact List.mem_singleton_self p')
    have hsymm : Std.Symm fun x y : Bool × List Byte => DistinctIv x.2 y.2 :=
      ⟨fun x y h hchannels => (h hchannels.symm).symm⟩
    have hne : (false, p) ≠ (true, p') := fun h => Bool.noConfusion (congrArg Prod.fst h)
    apply hpair.forall hmem hmem' hne (hchannel.trans hchannel'.symm)
    show packetIv p = packetIv p'
    rw [hiv, hiv', buildNonce_inj]
    decide

end AudioPlatform.Core
