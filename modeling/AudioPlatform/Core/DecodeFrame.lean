import AudioPlatform.Core.Steps

/-! The frame that packets are decoded into.

All streams share one frame. A packet that is decoded to fewer samples than the frame holds leaves
the rest of it as the packet before has left it, whosever that was, and the whole frame is pushed
into the jitter buffer. -/
namespace AudioPlatform.Core
open Concurrency

variable {Frame : Type} {L : Library Frame} {e : Engine L} {a : Arrival} {hdr : RtpHeader}
  {data : List Byte} {dec : L.Decoder} {d : Nat}

/-- The decoder that a client's packets are handed to: that of its stream, or that of a new one. -/
def Engine.decoderFor (e : Engine L) (c : BitVec 64) (alloc : Allocation) : Option L.Decoder :=
  (findStream e c).elim (if alloc.decoder then some L.decoderCreate else none) fun i =>
    (e.streams i).decoder

def Action.pushed : Action Frame → Option Pcm
  | .push _ _ frame _ => some frame
  | _ => none

/-- The frames that a datagram leads to. -/
def pushedFrames (e : Engine L) (a : Arrival) : List Pcm := (receive e a).2.filterMap Action.pushed

theorem decoder_streamFor {c : BitVec 64} {alloc : Allocation} {i : StreamIndex}
    (h : (streamFor e c alloc).2 = some i) :
    ((streamFor e c alloc).1.streams i).decoder = e.decoderFor c alloc := by
  unfold Engine.decoderFor
  rcases streamFor_cases e c alloc with ⟨j, hf, heq⟩ | ⟨-, -, heq⟩ | ⟨hf, -, j, -, heq⟩
  · rw [heq] at h ⊢
    obtain rfl := Option.some.inj h
    rw [hf]
    rfl
  · rw [heq] at h
    cases h
  · rw [heq] at h ⊢
    obtain rfl := Option.some.inj h
    rw [hf]
    show (Function.update e.streams j (newStream e c alloc) j).decoder = _
    rw [Function.update_self]
    rfl

/-- A packet is decoded into the shared frame, and the frame is pushed. -/
theorem receive_decodes (h : Accepts e a hdr data) :
    (receive e a).1.decodeFrame =
      (aeOpusDecode (e.decoderFor hdr.clientId a.alloc) data e.decodeFrame).2.2 ∧
    pushedFrames e a =
      if 0 < (aeOpusDecode (e.decoderFor hdr.clientId a.alloc) data e.decodeFrame).2.1 then
        [(aeOpusDecode (e.decoderFor hdr.clientId a.alloc) data e.decodeFrame).2.2]
      else [] := by
  obtain ⟨slot, hmem⟩ := decode_receive h
  have hnil : (receive e a).2 ≠ [] := List.ne_nil_of_mem hmem
  rcases receive_outcomes e a with (h' | h') | ⟨_, -, -, -, h'⟩ | ⟨hdr', data', e', i, hacc, hs, heq⟩
  · exact absurd (congrArg Prod.snd h') hnil
  · exact absurd (congrArg Prod.snd h') hnil
  · exact absurd (congrArg Prod.snd h') hnil
  · obtain rfl := Option.some.inj (h.header.symm.trans hacc.header)
    obtain rfl := Option.some.inj (h.decrypted.symm.trans hacc.decrypted)
    obtain ⟨_, _, _, hsame⟩ : SameButStreams (e.holding a)
        (streamFor (e.holding a) hdr.clientId a.alloc).1 := sameButStreams_streamFor
    have hfound : (streamFor (e.holding a) hdr.clientId a.alloc).2 = some i := by rw [hs]
    have hdecoder := decoder_streamFor hfound
    rw [hs] at hsame hdecoder
    dsimp only at hsame hdecoder
    have hframe : e'.decodeFrame = e.decodeFrame := by
      rw [hsame]
      rfl
    have hfor : (e.holding a).decoderFor hdr.clientId a.alloc = e.decoderFor hdr.clientId a.alloc := rfl
    unfold pushedFrames
    rw [heq, ← hframe, ← hfor, ← hdecoder]
    unfold acceptAudio
    dsimp only
    split <;> exact ⟨rfl, rfl⟩

/-! ### What the decoder leaves -/

/-- The decoder decodes the packet to `d` samples per channel: it writes exactly these, and they do not
depend on the frame that it is given. -/
structure Decodes (L : Library Frame) (dec : L.Decoder) (data : List Byte) (d : Nat) : Prop where
  pos : 1 ≤ d
  fits : d ≤ aeFrameSize
  returns : ∀ pcm, (L.decode dec data pcm).2.1 = d
  written : ∀ pcm pcm' k, k.val < aeChannels * d →
    (L.decode dec data pcm).2.2 k = (L.decode dec data pcm').2.2 k
  kept : ∀ pcm k, aeChannels * d ≤ k.val → (L.decode dec data pcm).2.2 k = pcm k

/-- An engine takes a packet in, on a stream with a decoder in a certain state. -/
structure Takes (e : Engine L) (a : Arrival) (hdr : RtpHeader) (data : List Byte) (dec : L.Decoder) :
    Prop where
  accepts : Accepts e a hdr data
  decoder : e.decoderFor hdr.clientId a.alloc = some dec

/-- The frame that is pushed is the decoder's work on what is left in the shared frame. -/
theorem Takes.pushedFrames (h : Takes e a hdr data dec) (hd : Decodes L dec data d) :
    pushedFrames e a = [(L.decode dec data e.decodeFrame).2.2] := by
  have hdecode : aeOpusDecode (some dec) data e.decodeFrame =
      (some (L.decode dec data e.decodeFrame).1, (L.decode dec data e.decodeFrame).2) := by
    unfold aeOpusDecode
    dsimp only
    rw [if_neg (by simpa using h.accepts.nonempty)]
  have hpos : (0 : Int) < d := by
    have := hd.pos
    omega
  rw [(receive_decodes h.accepts).2, h.decoder, hdecode]
  dsimp only
  rw [hd.returns, if_pos hpos]

theorem Decodes.eq_iff (hd : Decodes L dec data d) (pcm pcm' : Pcm) :
    (L.decode dec data pcm).2.2 = (L.decode dec data pcm').2.2 ↔
      ∀ k : Fin aeJitterFrameSamples, aeChannels * d ≤ k.val → pcm k = pcm' k := by
  constructor
  · intro h k hk
    rw [← hd.kept pcm k hk, h, hd.kept pcm' k hk]
  · intro h
    funext k
    by_cases hk : k.val < aeChannels * d
    · exact hd.written pcm pcm' k hk
    · rw [hd.kept pcm k (Nat.le_of_not_lt hk), hd.kept pcm' k (Nat.le_of_not_lt hk),
        h k (Nat.le_of_not_lt hk)]

/-- The frame as it was before has no part in what is taken in. -/
theorem Takes.relaid (h : Takes e a hdr data dec) (pcm : Pcm) :
    Takes { e with decodeFrame := pcm } a hdr data dec where
  accepts := ⟨h.accepts.header, h.accepts.audio, h.accepts.other, h.accepts.active, h.accepts.stream,
    h.accepts.payload, h.accepts.decrypted, h.accepts.nonempty⟩
  decoder := h.decoder

/-- Two engines push the same frame exactly if their shared frames agree from where the decoder stops
on. -/
theorem pushed_frame_pair {e' : Engine L} {a' : Arrival} {hdr' : RtpHeader} (hd : Decodes L dec data d)
    (h : Takes e a hdr data dec) (h' : Takes e' a' hdr' data dec) :
    pushedFrames e a = pushedFrames e' a' ↔
      ∀ k : Fin aeJitterFrameSamples, aeChannels * d ≤ k.val → e.decodeFrame k = e'.decodeFrame k := by
  rw [h.pushedFrames hd, h'.pushedFrames hd, List.cons.injEq, eq_self_iff_true, and_true, hd.eq_iff]

/-! ### Short frames -/

/-- A codec that decodes one packet to a full frame of ones, and any other to a single zero. -/
def shortLibrary : Library (ℚ × ℚ) where
  Encoder := Unit
  Decoder := Unit
  encoderCreate _ _ := some ()
  encode _ _ _ := ((), some [1])
  decoderCreate := ()
  decode _ data pcm :=
    if data = [1] then ((), aeFrameSize, fun _ => 1)
    else ((), 1, fun k => if k.val < aeChannels then 0 else pcm k)
  decodePlc _ _ := ((), aeFrameSize, fun _ => 0)
  tanhf x := x

theorem decodes_shortLibrary (data : List Byte) :
    Decodes shortLibrary () data (if data = [1] then aeFrameSize else 1) := by
  by_cases h : data = [1]
  · rw [if_pos h]
    have hdecode : ∀ pcm, shortLibrary.decode () data pcm = ((), (aeFrameSize : Int), fun _ => 1) :=
      fun pcm => if_pos h
    refine ⟨by decide, le_rfl, fun pcm => by rw [hdecode], fun pcm pcm' k _ => by rw [hdecode, hdecode],
      fun pcm k hk => ?_⟩
    have hk' := k.isLt
    unfold aeJitterFrameSamples at hk'
    rw [Nat.mul_comm] at hk
    exact absurd hk' (Nat.not_lt.mpr hk)
  · rw [if_neg h]
    have hdecode : ∀ pcm, shortLibrary.decode () data pcm =
        ((), 1, fun k => if k.val < aeChannels then 0 else pcm k) := fun pcm => if_neg h
    refine ⟨le_rfl, by decide, fun pcm => by rw [hdecode]; rfl, fun pcm pcm' k hk => ?_,
      fun pcm k hk => ?_⟩
    · rw [hdecode, hdecode]
      dsimp only
      rw [if_pos (by omega), if_pos (by omega)]
    · rw [hdecode]
      dsimp only
      rw [if_neg (by omega)]

/-- Client 7, with this codec, on "channel-1". -/
def shortListener : Engine shortLibrary :=
  (aeEngineJoinChannel (aeEngineConnect (aeEngineSetClientId
    ((aeEngineCreate shortLibrary none).get rfl) 7) .connected 0).1 channelOne).1

theorem inactive_shortListener (i : StreamIndex) : (shortListener.streams i).active = false := rfl

theorem findStream_shortListener (c : BitVec 64) : findStream shortListener c = none :=
  Option.not_isSome_iff_eq_none.mp fun hfound => by
    obtain ⟨i, hi, -⟩ := findStream_isSome.mp hfound
    cases (inactive_shortListener i).symm.trans hi

theorem free_shortListener : ∃ i, (shortListener.streams i).active = false := ⟨⟨0, by decide⟩, rfl⟩

theorem decoderFor_none {c : BitVec 64} {alloc : Allocation} (h : findStream e c = none)
    (hd : alloc.decoder = true) : e.decoderFor c alloc = some L.decoderCreate := by
  unfold Engine.decoderFor
  rw [h, Option.elim_none, if_pos hd]

/-- **On what a pushed frame depends.** Two engines that take a packet in on decoders in the same
state push the same frame exactly if their shared frames agree from where the decoder stops on; and
no matter what was there before, the frame is the same exactly if the packet fills it. -/
theorem pushed_frame_iff (hd : Decodes L dec data d) (h : Takes e a hdr data dec) :
    (∀ (e' : Engine L) (a' : Arrival) (hdr' : RtpHeader), Takes e' a' hdr' data dec →
      (pushedFrames e a = pushedFrames e' a' ↔
        ∀ k : Fin aeJitterFrameSamples, aeChannels * d ≤ k.val → e.decodeFrame k = e'.decodeFrame k)) ∧
    ((∀ (e' : Engine L) (a' : Arrival) (hdr' : RtpHeader), Takes e' a' hdr' data dec →
      pushedFrames e a = pushedFrames e' a') ↔ d = aeFrameSize) := by
  refine ⟨fun e' a' hdr' h' => pushed_frame_pair hd h h', fun hall => ?_, fun hfull e' a' hdr' h' =>
    (pushed_frame_pair hd h h').mpr fun k hk => ?_⟩
  · -- a frame whose last sample is another one
    by_contra hne
    have hshort : d < aeFrameSize := Nat.lt_of_le_of_ne hd.fits hne
    have hother := h.relaid fun k => e.decodeFrame k + 1
    have hlast := (pushed_frame_pair hd h hother).mp (hall _ a hdr hother)
      ⟨aeJitterFrameSamples - 1, by decide⟩ (by
        show aeChannels * d ≤ aeJitterFrameSamples - 1
        unfold aeJitterFrameSamples aeChannels
        unfold aeFrameSize at *
        omega)
    exact absurd hlast (lt_add_one _).ne
  · have hk' := k.isLt
    rw [hfull] at hk
    unfold aeJitterFrameSamples at hk'
    rw [Nat.mul_comm] at hk
    exact absurd hk' (Nat.not_lt.mpr hk)

/-- A packet that fills the frame is pushed alike by all. -/
theorem pushed_frame_iff_full : ∃ (a : Arrival) (hdr : RtpHeader), Takes shortListener a hdr [1] () ∧
    ∀ (e' : Engine shortLibrary) (a' : Arrival) (hdr' : RtpHeader), Takes e' a' hdr' [1] () →
      pushedFrames shortListener a = pushedFrames e' a' := by
  obtain ⟨a, -, -, halloc, hhears⟩ := speaker_arrives 8 0 (List.cons_ne_nil 1 []) (by decide)
  obtain ⟨hdr, -, hacc⟩ := hhears shortListener rfl rfl (show (8 : BitVec 64) ≠ 7 by decide)
    (.inr free_shortListener)
  have htakes : Takes shortListener a hdr [1] () :=
    ⟨hacc, decoderFor_none (findStream_shortListener _) (by rw [halloc])⟩
  exact ⟨a, hdr, htakes, (pushed_frame_iff (decodes_shortLibrary [1]) htakes).2.mpr (if_pos rfl)⟩

/-- A short packet of client 9 is pushed with the samples of a packet of client 8 behind it. -/
theorem frame_left_over : ¬ ∀ L : Library (ℚ × ℚ),
    (∀ dec data, ∃ d, Decodes L dec data d) →
    ∀ (e e' : Engine L) (a : Arrival) (hdr : RtpHeader) (data : List Byte) (dec : L.Decoder),
      Takes e a hdr data dec → Takes e' a hdr data dec → pushedFrames e a = pushedFrames e' a := by
  intro h
  obtain ⟨a, -, -, halloc, hahears⟩ := speaker_arrives 8 0 (List.cons_ne_nil 1 []) (by decide)
  obtain ⟨b, -, -, hballoc, hbhears⟩ := speaker_arrives 9 0 (List.cons_ne_nil 2 []) (by decide)
  have hfree := free_shortListener
  have hoff := findStream_shortListener
  obtain ⟨hdr, hid, hacc⟩ := hahears shortListener rfl rfl (show (8 : BitVec 64) ≠ 7 by decide) (.inr hfree)
  obtain ⟨hdr₁, hid₁, hacc₁⟩ := hbhears shortListener rfl rfl (show (9 : BitVec 64) ≠ 7 by decide)
    (.inr hfree)
  -- the packet of client 8 fills the frame and opens a stream of its own
  have hfilled : (receive shortListener a).1.decodeFrame = fun _ => 1 := by
    rw [(receive_decodes hacc).1, decoderFor_none (hoff _) (by rw [halloc])]
    rfl
  obtain ⟨i, -, hopened⟩ := receive_opens hacc (hoff _)
  have hcontrol := control_receive shortListener a
  generalize hr : (receive shortListener a).1 = r at hopened hcontrol hfilled
  have hnone : findStream r 9 = none := Option.not_isSome_iff_eq_none.mp fun hfound => by
    obtain ⟨j, hj, hclient⟩ := findStream_isSome.mp hfound
    rw [hopened] at hj hclient
    by_cases hji : j = i
    · subst hji
      rw [Function.update_self, RemoteStream.accepted_clientId] at hclient
      exact absurd (hid.symm.trans hclient) (by decide)
    · rw [Function.update_of_ne hji] at hj
      cases (inactive_shortListener j).symm.trans hj
  have hrfree : ∃ j, (r.streams j).active = false := by
    have hnontrivial : Nontrivial StreamIndex := Fin.nontrivial_iff_two_le.mpr (by decide)
    obtain ⟨j, hj⟩ := exists_ne i
    refine ⟨j, ?_⟩
    rw [hopened, Function.update_of_ne hj]
    rfl
  obtain ⟨hdr₂, hid₂, hacc₂⟩ := hbhears r (by rw [← control_channel, hcontrol]; rfl)
    (by rw [← control_crypto, hcontrol]; rfl)
    (by rw [← control_clientId, hcontrol]; exact (show (9 : BitVec 64) ≠ 7 by decide)) (.inr hrfree)
  obtain rfl := Option.some.inj (hacc₁.header.symm.trans hacc₂.header)
  have htakes : Takes shortListener b hdr₁ [2] () :=
    ⟨hacc₁, decoderFor_none (hoff _) (by rw [hballoc])⟩
  have htakes' : Takes r b hdr₁ [2] () :=
    ⟨hacc₂, decoderFor_none (by rw [hid₁]; exact hnone) (by rw [hballoc])⟩
  have hdecodes := decodes_shortLibrary [2]
  have hsame := h shortLibrary (fun _ data => ⟨_, decodes_shortLibrary data⟩) shortListener r b hdr₁ [2] ()
    htakes htakes'
  have hkept := ((pushed_frame_pair hdecodes htakes htakes').mp hsame) ⟨2, by decide⟩ (by decide)
  rw [hfilled] at hkept
  exact absurd hkept (by decide)

end AudioPlatform.Core
