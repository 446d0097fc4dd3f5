import AudioPlatform.Core.Eviction
import AudioPlatform.Core.Gauges
import AudioPlatform.Core.Ramps

/-! The gain of a stream from frame to frame.

The mixer keeps a volume for each position. In every tick the engine gives the positions from 0 on
to the streams that play, in the order of their slots. So a stream does not go on from its own
volume, but from that of whichever stream was last mixed at its position. -/
namespace AudioPlatform.Core
open Concurrency Numbers

variable {Frame : Type} {L : Library Frame}

/-! ### Positions -/

/-- The stream gives a frame to the mix: one of its buffer, or one that conceals a short gap. -/
def RemoteStream.Plays (nowMix : BitVec 64) (s : RemoteStream L) : Bool :=
  match s.active, s.jitter with
  | true, some jb =>
    !(streamDestroyMs < nowMix - s.lastRecvMs) && !(streamTimeoutMs < nowMix - s.lastRecvMs) &&
      ((aeJitterPop jb).2.isSome || s.decoder.isSome && nowMix - s.lastRecvMs < 200)
  | _, _ => false

/-- The streams that play, each at its position. -/
def Engine.playing (e : Engine L) (nowMix : BitVec 64) : List StreamIndex :=
  (List.finRange aeMaxUsersPerCh).filter fun i => (e.streams i).Plays nowMix

/-- The volume that a stream is mixed at. -/
def Engine.mixVolume (e : Engine L) (i : StreamIndex) : ℚ := (e.streams i).volume * e.channel.volume

section Loop
variable {nowMix : BitVec 64} {m : Mixing L} {i : StreamIndex}

/-- A stream takes the next position if it plays. -/
theorem volumes_mixStream (nowMix : BitVec 64) (m : Mixing L) (i : StreamIndex) :
    (mixStream nowMix m i).volumes =
      m.volumes ++ if (m.engine.streams i).Plays nowMix then [m.engine.mixVolume i] else [] := by
  unfold mixStream RemoteStream.Plays
  dsimp only
  split
  · rename_i h
    rw [h]
    simp
  · rename_i h hj
    rw [h, hj]
    simp
  · rename_i jb h hj
    rw [h, hj]
    dsimp only
    split
    · rename_i hstale
      simp [hstale]
    · rename_i hstale
      split
      · rename_i hsilent
        simp [hsilent]
      · rename_i hsilent
        split
        · rename_i frame hpop
          simp [hstale, hsilent, hpop, Mixing.add, Engine.mixVolume]
        · rename_i hpop
          split
          · rename_i hd
            simp [hpop, hd]
          · rename_i decoder hd
            split
            · rename_i hshort
              have hshort : nowMix - (m.engine.streams i).lastRecvMs < 200#64 := hshort
              simp [hstale, hsilent, hpop, hd, hshort, Mixing.add, Engine.mixVolume]
            · rename_i hshort
              have hshort : ¬ nowMix - (m.engine.streams i).lastRecvMs < 200#64 := hshort
              simp [hpop, hd, BitVec.not_lt.mp hshort]

theorem channel_mixStream (nowMix : BitVec 64) (m : Mixing L) (i : StreamIndex) :
    (mixStream nowMix m i).engine.channel = m.engine.channel :=
  congrArg Control.channel (control_mixStream nowMix m i)

/-- The streams that play take the positions in the order of their slots. -/
theorem volumes_loop (nowMix : BitVec 64) {slots : List StreamIndex} (hnodup : slots.Nodup)
    (m : Mixing L) : (slots.foldl (mixStream nowMix) m).volumes =
      m.volumes ++ (slots.filter fun i => (m.engine.streams i).Plays nowMix).map m.engine.mixVolume := by
  induction slots generalizing m with
  | nil => simp
  | cons i rest ih =>
    obtain ⟨hi, hrest⟩ := List.nodup_cons.mp hnodup
    obtain ⟨decoder, hstreams⟩ := streams_mixStream nowMix m i
    -- the turn at `i` leaves the streams in the slots to come as they are
    have hlater : ∀ j ∈ rest, (mixStream nowMix m i).engine.streams j = m.engine.streams j := by
      intro j hj
      have hji : j ≠ i := by
        rintro rfl
        exact hi hj
      rw [hstreams, Function.update_of_ne hji]
    have hplay : rest.filter (fun j => ((mixStream nowMix m i).engine.streams j).Plays nowMix) =
        rest.filter fun j => (m.engine.streams j).Plays nowMix :=
      List.filter_congr fun j hj => by rw [hlater j hj]
    have hvolume : ∀ j ∈ rest.filter (fun j => (m.engine.streams j).Plays nowMix),
        (mixStream nowMix m i).engine.mixVolume j = m.engine.mixVolume j := by
      intro j hj
      unfold Engine.mixVolume
      rw [channel_mixStream, hlater j (List.mem_of_mem_filter hj)]
    rw [List.foldl_cons, ih hrest, volumes_mixStream, hplay, List.map_congr_left hvolume,
      List.append_assoc, List.filter_cons]
    by_cases h : (m.engine.streams i).Plays nowMix = true
    · simp [h]
    · simp [h]

end Loop

theorem length_playing (e : Engine L) (nowMix : BitVec 64) :
    (e.playing nowMix).length ≤ aeMaxUsersPerCh := by
  have hle := List.length_filter_le (fun i => (e.streams i).Plays nowMix) (List.finRange aeMaxUsersPerCh)
  rwa [List.length_finRange] at hle

/-- The volumes that the streams that play are mixed at, by their positions. -/
def Engine.mixVolumes (e : Engine L) (nowMix : BitVec 64) (k : Nat) : ℚ :=
  ((e.playing nowMix).map e.mixVolume).getD k 0

theorem volumes_mixLoop (e : Engine L) (nowMix : BitVec 64) :
    (e.mixLoop nowMix).volumes = (e.playing nowMix).map e.mixVolume :=
  volumes_loop nowMix (List.nodup_finRange _) ⟨e, []⟩

/-- The frames that are mixed. -/
def Engine.mixedInputs (e : Engine L) (nowMix : BitVec 64) : List (Option Pcm) :=
  (List.range (e.playing nowMix).length).map fun k => some ((e.mixLoop nowMix).engine.streamFrames k)

/-- What a tick mixes, if a stream plays. -/
def Engine.mixedFrame (e : Engine L) (nowMix : BitVec 64) : MixedFrame :=
  e.mixer.mixedFrame (e.mixedInputs nowMix) (some (e.mixVolumes nowMix))

/-- The mixer mixes the streams that play, each at its position. -/
theorem mixer_mix (isConnected : Bool) (e : Engine L) (nowMix : BitVec 64) :
    (mix isConnected e nowMix).mixer =
      (aeMixerMix L.tanhf e.mixer (e.mixedInputs nowMix) (some (e.mixVolumes nowMix))).1 := by
  rw [← gauges_mixer, gauges_mix]
  unfold Engine.mixedInputs Engine.mixVolumes
  rw [← volumes_mixLoop, ← List.length_map e.mixVolume, ← volumes_mixLoop]
  generalize e.mixLoop nowMix = m
  rfl

/-! ### The mixer over a run -/

/-- What a step asks of the mixer. -/
def EngineStep.mixerCalls (e : Engine L) : EngineStep Frame → List MixerCall
  | .command (.setMasterVolume volume) _ => [.setMasterVolume (clampVolume volume)]
  | .mix _ nowMix => [.mix (e.mixedInputs nowMix) (some (e.mixVolumes nowMix))]
  | _ => []

/-- A step does to the mixer what it asks of it. -/
theorem mixer_step (e : Engine L) (s : EngineStep Frame) :
    (e.step s).1.mixer = Machine.run Mixer.call e.mixer (s.mixerCalls e) := by
  cases s with
  | command c hc =>
    obtain ⟨_, hcommand⟩ := gauges_command e hc
    rw [step_command, ← gauges_mixer, hcommand]
    cases c <;> rfl
  | capture =>
    rw [step_capture, ← gauges_mixer, gauges_transmit]
    rfl
  | arrive a =>
    rw [step_arrive]
    cases h : isPong a.data with
    | false =>
      rw [← gauges_mixer, gauges_receive e h]
      rfl
    | true =>
      rw [receive_pong e h]
      show (handlePong (e.holding a) a.now).mixer = e.mixer
      unfold handlePong
      split <;> rfl
  | keepalive now =>
    rw [step_keepalive, ← gauges_mixer, gauges_keepalive]
    rfl
  | ping now =>
    show (ping e now).1.mixer = e.mixer
    unfold ping
    split
    · split <;> rfl
    · rfl
  | mix isConnected nowMix =>
    rw [step_mix, mixer_mix]
    rcases eq_or_ne (e.mixedInputs nowMix) [] with h | h
    · show _ = (aeMixerMix id e.mixer _ _).1
      rw [h]
      rfl
    · rw [aeMixerMix_limited _ _ _ h]
      rfl

/-! ### Frame to frame -/

/-- What is remembered of the frames that were mixed: of each stream the gain of its last sample and
the volume it was mixed at, of each position the volume of the stream that was there last. -/
structure Heard where
  last : StreamIndex → ℚ
  own : StreamIndex → ℚ
  place : Nat → ℚ

def Heard.silent : Heard := ⟨fun _ => 0, fun _ => 0, fun _ => 0⟩

def Heard.mixed (e : Engine L) (nowMix : BitVec 64) (g : Heard) : Heard where
  last i := ((e.playing nowMix).idxOf? i).elim (g.last i) fun k =>
    (e.mixedFrame nowMix).gain k (aeJitterFrameSamples - 1)
  own i := if i ∈ e.playing nowMix then clampVolume (e.mixVolume i) else g.own i
  place k := (e.playing nowMix)[k]?.elim (g.place k) fun i => clampVolume (e.mixVolume i)

/-- A stream that is gone is forgotten. -/
def Heard.present (e : Engine L) (g : Heard) : Heard where
  last i := if (e.streams i).active then g.last i else 0
  own i := if (e.streams i).active then g.own i else 0
  place := g.place

def Heard.record (e : Engine L) (s : EngineStep Frame) (g : Heard) : Heard :=
  match s with
  | .mix _ nowMix => (g.mixed e nowMix).present (e.step s).1
  | _ => g.present (e.step s).1

/-- A run with what is remembered of it. -/
def hearStep (r : Engine L × Heard) (s : EngineStep Frame) : (Engine L × Heard) × List (Action Frame) :=
  (((r.1.step s).1, r.2.record r.1 s), (r.1.step s).2)

theorem hearStep_engine (r : Engine L × Heard) (s : EngineStep Frame) :
    (hearStep r s).1.1 = (r.1.step s).1 := rfl

theorem hearStep_heard (r : Engine L × Heard) (s : EngineStep Frame) :
    (hearStep r s).1.2 = r.2.record r.1 s := rfl

/-- Each stream that is mixed starts at the gain that it ended at. -/
def GoesOnSmoothly (r : Engine L × Heard) : EngineStep Frame → Prop
  | .mix _ nowMix => ∀ k i, (r.1.playing nowMix)[k]? = some i →
      |(r.1.mixedFrame nowMix).gain k 0 - r.2.last i| ≤ 1 / 1000000
  | _ => True

/-- The volume of a position before a stream is mixed there at a volume. -/
def startVolume (place volume : ℚ) : ℚ := if steady place volume then volume else place

/-- Each stream that is mixed gets a position that was left at the volume the stream was left at. -/
def TakesItsPlace (r : Engine L × Heard) : EngineStep Frame → Prop
  | .mix _ nowMix => ∀ k i, (r.1.playing nowMix)[k]? = some i →
      |startVolume (r.2.place k) (clampVolume (r.1.mixVolume i)) - r.2.own i| ≤ 1 / 1000000
  | _ => True

theorem frameGain_zero (prev target : ℚ) : frameGain prev target 0 = startVolume prev target := by
  unfold frameGain startVolume
  split
  · rfl
  · rw [rampVolume, if_pos (by decide)]
    simp

theorem frameGain_last (prev target : ℚ) : frameGain prev target (aeJitterFrameSamples - 1) = target := by
  unfold frameGain
  split
  · rfl
  · rw [rampVolume, if_neg (by decide)]

variable {e : Engine L} {nowMix : BitVec 64} {k : Nat} {i : StreamIndex}

theorem mixVolumes_playing (hk : (e.playing nowMix)[k]? = some i) :
    e.mixVolumes nowMix k = e.mixVolume i := by
  unfold Engine.mixVolumes
  rw [List.getD_eq_getElem?_getD, List.getElem?_map, hk]
  rfl

/-- A stream that plays goes from what is kept for its position to its own volume. -/
theorem gain_mixedFrame (hk : (e.playing nowMix)[k]? = some i) : (e.mixedFrame nowMix).gain k =
    frameGain (e.mixer.prevVolume k) (clampVolume (e.mixVolume i)) := by
  show frameGain _ (clampVolume (e.mixVolumes nowMix k)) = _
  rw [mixVolumes_playing hk]

/-- What the mixer keeps is what is remembered. -/
structure Remembers (r : Engine L × Heard) : Prop where
  sound : r.1.mixer.Sound
  room : r.1.mixer.maxInputs = aeMaxUsersPerCh
  place : ∀ k, r.1.mixer.prevVolume k = r.2.place k
  own : r.2.last = r.2.own

theorem Remembers.goesOnSmoothly_iff {r : Engine L × Heard} (h : Remembers r) (s : EngineStep Frame) :
    GoesOnSmoothly r s ↔ TakesItsPlace r s := by
  cases s with
  | mix isConnected nowMix =>
    refine forall_congr' fun k => forall_congr' fun i => forall_congr' fun hk => ?_
    rw [gain_mixedFrame hk, frameGain_zero, h.place, h.own]
  | _ => exact Iff.rfl

theorem maxInputs_call {mixer : Mixer} (h : mixer.Sound) (c : MixerCall) :
    (mixer.call c).1.maxInputs = mixer.maxInputs := by
  cases c with
  | setMasterVolume volume => rfl
  | mix inputs volumes =>
    rcases eq_or_ne inputs [] with rfl | hne
    · rfl
    · exact (mix_spec h volumes hne).2.2.1

theorem length_mixedInputs (e : Engine L) (nowMix : BitVec 64) :
    (e.mixedInputs nowMix).length = (e.playing nowMix).length := by
  unfold Engine.mixedInputs
  rw [List.length_map, List.length_range]

theorem inputAt_mixedInputs (e : Engine L) (nowMix : BitVec 64) (k : Nat) :
    (inputAt (e.mixedInputs nowMix) k).isSome = (e.playing nowMix)[k]?.isSome := by
  unfold inputAt Engine.mixedInputs
  by_cases hk : k < (e.playing nowMix).length
  · simp [hk]
  · simp [hk]

/-- A position that is taken is kept at the volume of the stream that takes it. -/
theorem prevVolume_mix (h : e.mixer.Sound) (hroom : e.mixer.maxInputs = aeMaxUsersPerCh)
    (isConnected : Bool) (nowMix : BitVec 64) (k : Nat) :
    (mix isConnected e nowMix).mixer.prevVolume k =
      (e.playing nowMix)[k]?.elim (e.mixer.prevVolume k) fun i => clampVolume (e.mixVolume i) := by
  have hstep := mixer_step e (.mix isConnected nowMix)
  have hlength := length_mixedInputs e nowMix
  have hall : (e.mixedInputs nowMix).take e.mixer.maxInputs = e.mixedInputs nowMix :=
    List.take_of_length_le (by rw [hlength, hroom]; exact length_playing e nowMix)
  rw [step_mix] at hstep
  rw [hstep]
  show (aeMixerMix id e.mixer (e.mixedInputs nowMix) (some (e.mixVolumes nowMix))).1.prevVolume k = _
  rcases eq_or_ne (e.mixedInputs nowMix) [] with hnone | hne
  · have hplaying : e.playing nowMix = [] := List.eq_nil_of_length_eq_zero (by rw [← hlength, hnone]; rfl)
    rw [hnone, hplaying]
    rfl
  · rw [(mix_spec h _ hne).2.1 k, hall, inputAt_mixedInputs]
    cases hk : (e.playing nowMix)[k]? with
    | none => rfl
    | some i =>
      show targetVolume (some (e.mixVolumes nowMix)) k = clampVolume (e.mixVolume i)
      unfold targetVolume
      rw [← mixVolumes_playing hk]
      rfl

/-- What a stream was left at is its own volume. -/
theorem last_mixed {g : Heard} (h : g.last = g.own) (e : Engine L) (nowMix : BitVec 64) :
    (g.mixed e nowMix).last = (g.mixed e nowMix).own := by
  funext i
  show ((e.playing nowMix).idxOf? i).elim _ _ = if _ then _ else _
  cases hk : (e.playing nowMix).idxOf? i with
  | none => rw [if_neg (List.idxOf?_eq_none_iff.mp hk), h, Option.elim_none]
  | some k =>
    obtain ⟨hlt, hi, -⟩ := List.idxOf?_eq_some_iff.mp hk
    have hplays : (e.playing nowMix)[k]? = some i := by rw [List.getElem?_eq_getElem hlt, hi]
    rw [if_pos (List.mem_of_getElem? hplays), Option.elim_some, gain_mixedFrame hplays, frameGain_last]

theorem remembers_step {r : Engine L × Heard} (h : Remembers r) (s : EngineStep Frame) :
    Remembers (hearStep r s).1 := by
  have hmixer : (hearStep r s).1.1.mixer = Machine.run Mixer.call r.1.mixer (s.mixerCalls r.1) :=
    mixer_step r.1 s
  have hkept : (hearStep r s).1.1.mixer.Sound ∧
      (hearStep r s).1.1.mixer.maxInputs = aeMaxUsersPerCh := by
    rw [hmixer]
    have hcall : ∀ (m : Mixer) c, True → m.Sound ∧ m.maxInputs = aeMaxUsersPerCh →
        (m.call c).1.Sound ∧ (m.call c).1.maxInputs = aeMaxUsersPerCh :=
      fun m c _ hm => ⟨sound_call hm.1 c, (maxInputs_call hm.1 c).trans hm.2⟩
    exact Machine.run_induction hcall ⟨h.sound, h.room⟩ fun _ _ => trivial
  refine ⟨hkept.1, hkept.2, ?_, ?_⟩
  · cases s with
    | mix isConnected nowMix =>
      intro k
      show (mix isConnected r.1 nowMix).mixer.prevVolume k = _
      rw [prevVolume_mix h.sound h.room, h.place]
      rfl
    | command c hc =>
      rw [hmixer]
      cases c <;> exact h.place
    | _ =>
      rw [hmixer]
      exact h.place
  · have hpresent : ∀ (e : Engine L) (g : Heard), g.last = g.own →
        (g.present e).last = (g.present e).own := by
      intro e g hg
      unfold Heard.present
      rw [hg]
    cases s with
    | mix isConnected nowMix => exact hpresent _ _ (last_mixed h.own r.1 nowMix)
    | _ => exact hpresent _ _ h.own

theorem remembers_create [Zero Frame] {config : Option AeConfig} (hnew : aeEngineCreate L config = some e) :
    Remembers (e, .silent) := by
  have hmixer : e.mixer = aeMixerCreate aeMaxUsersPerCh := by
    unfold aeEngineCreate at hnew
    simp only [Option.bind_eq_bind, Option.bind_eq_some_iff, Option.pure_def, Option.some.injEq] at hnew
    obtain ⟨_, -, _, -, _, -, rfl⟩ := hnew
    rfl
  constructor
  · exact hmixer ▸ sound_create aeMaxUsersPerCh
  · rw [hmixer]
    rfl
  · intro k
    rw [hmixer]
    unfold Mixer.prevVolume
    split <;> rfl
  · rfl

/-- **When the gain of a stream is continuous.** In every run of a new engine, every stream starts
each frame that is mixed at the gain at which it ended its last one, up to a millionth, exactly if
every stream always takes a position that was left at the volume that the stream was left at. -/
theorem gain_continuous_iff [Zero Frame] {config : Option AeConfig}
    (hnew : aeEngineCreate L config = some e) (calls : List (Call Frame)) :
    Machine.Along hearStep GoesOnSmoothly (e, .silent) (stepsOf e calls) ↔
      Machine.Along hearStep TakesItsPlace (e, .silent) (stepsOf e calls) := by
  have hstep : ∀ r s, Remembers r → True → TakesItsPlace r s → Remembers (hearStep (L := L) r s).1 :=
    fun r s h _ _ => remembers_step h s
  have hiff : ∀ r s, Remembers r → True → (GoesOnSmoothly (L := L) r s ↔ TakesItsPlace r s) :=
    fun r s h _ => h.goesOnSmoothly_iff s
  exact Machine.along_congr_of_invariant hstep hiff (remembers_create hnew)
    (Machine.along_of_forall (fun _ _ => trivial) _)

/-! ### A stream that comes after another one -/

/-- A packet that client `c` sends to "channel-1" arrives at client 7. -/
theorem packet_arrives {c : BitVec 64} (hc : c ≠ 7) (now : BitVec 64) : ∃ a : Arrival,
    a.data ≠ [] ∧ a.now = now ∧ a.alloc = ⟨true, true, 0⟩ ∧
    ∀ r : Engine toneLibrary, r.control = (listener 7).control → (∃ i, (r.streams i).active = false) →
      ∃ hdr : RtpHeader, hdr.clientId = c ∧ Accepts r a hdr [1] := by
  obtain ⟨a, hne, hnow, halloc, haccepts⟩ := speaker_arrives c now (List.cons_ne_nil 1 []) (by decide)
  refine ⟨a, hne, hnow, halloc, fun r hr hfree => haccepts r ?_ ?_ ?_ (.inr hfree)⟩
  · rw [← control_channel, hr]
    rfl
  · rw [← control_crypto, hr]
    rfl
  · rw [← control_clientId r, hr]
    exact hc

/-- A stream as its first packet leaves it. -/
structure JustHeard (c now : BitVec 64) (s : RemoteStream toneLibrary) : Prop where
  active : s.active = true
  clientId : s.clientId = c
  lastRecvMs : s.lastRecvMs = now
  volume : s.volume = 1
  decoder : s.decoder.isSome = true
  jitter : s.jitter.isSome = true

theorem justHeard_accepted (e : Engine toneLibrary) (c now : BitVec 64) (pcm : Pcm) :
    JustHeard c now ((newStream e c ⟨true, true, 0⟩).accepted [1] pcm now) :=
  ⟨rfl, rfl, rfl, rfl, rfl, rfl⟩

theorem JustHeard.plays {c now : BitVec 64} {s : RemoteStream toneLibrary} (h : JustHeard c now s) :
    s.Plays now = true := by
  obtain ⟨jb, hjb⟩ := Option.isSome_iff_exists.mp h.jitter
  unfold RemoteStream.Plays
  rw [h.active, hjb, h.lastRecvMs, BitVec.sub_self, h.decoder]
  dsimp only
  rw [Bool.true_and]
  cases (aeJitterPop jb).2 <;> rfl

/-- A stream that is not there, or has been silent for too long, does not play. -/
theorem plays_silent {s : RemoteStream L} (h : s.active = true → streamTimeoutMs < nowMix - s.lastRecvMs) :
    s.Plays nowMix = false := by
  unfold RemoteStream.Plays
  split
  · rename_i hact _
    simp [h hact]
  · rfl

/-- Client 7 is tuned in, no stream plays, and a stream that is not there is not remembered. -/
structure Hushed (now : BitVec 64) (r : Engine toneLibrary × Heard) : Prop where
  control : r.1.control = (listener 7).control
  silent : ∀ j, (r.1.streams j).active = true → streamTimeoutMs < now - (r.1.streams j).lastRecvMs
  free : ∃ j, (r.1.streams j).active = false
  forgotten : ∀ j, (r.1.streams j).active = false → r.2.own j = 0

theorem own_present {g : Heard} {j : StreamIndex} (h : g.own j = 0) (e : Engine L) :
    (g.present e).own j = 0 := by
  show (if (e.streams j).active then g.own j else 0) = 0
  rw [h]
  exact ite_self 0

theorem own_gone {s : EngineStep Frame} {g : Heard} {j : StreamIndex}
    (h : ((e.step s).1.streams j).active = false) : (g.record e s).own j = 0 := by
  have hgone : ∀ g : Heard, (g.present (e.step s).1).own j = 0 := fun g => by
    unfold Heard.present
    dsimp only
    rw [h]
    exact if_neg Bool.false_ne_true
  cases s <;> exact hgone _

/-- The steps of a tick up to the mix. -/
def upToMix (a : Arrival) (now : BitVec 64) : List (EngineStep (ℚ × ℚ)) :=
  [.capture, .arrive a, .keepalive now, .ping now]

/-- A first packet alone is mixed: its stream gets position 0. -/
structure Soloist (c now : BitVec 64) (r r' : Engine toneLibrary × Heard) (i : StreamIndex) : Prop where
  control : r'.1.control = (listener 7).control
  vacant : (r.1.streams i).active = false
  others : ∀ j, j ≠ i → r'.1.streams j = r.1.streams j
  heard : JustHeard c now (r'.1.streams i)
  place : r'.2.place = r.2.place
  own : r'.2.own i = 0

theorem hushed_hears {now c : BitVec 64} {r : Engine toneLibrary × Heard} (h : Hushed now r)
    (hnone : findStream r.1 c = none) {a : Arrival} {hdr : RtpHeader} (hid : hdr.clientId = c)
    (halloc : a.alloc = ⟨true, true, 0⟩) (hnow : a.now = now) (hacc : Accepts r.1 a hdr [1]) :
    ∃ i, Soloist c now r (Machine.run hearStep r (upToMix a now)) i := by
  have hsilent : (transmit r.1).1 = r.1 := by
    rw [transmit_silent]
    rw [← control_transmitting, h.control]
    rfl
  subst hid
  obtain ⟨i, hi, hopened⟩ := receive_opens hacc hnone
  have hend : (Machine.run hearStep r (upToMix a now)).1 =
      (ping (keepalive (receive r.1 a).1 now).1 now).1 := by
    show (ping (keepalive (receive (transmit r.1).1 a).1 now).1 now).1 = _
    rw [hsilent]
  have htable : (Machine.run hearStep r (upToMix a now)).1.streams = (receive r.1 a).1.streams := by
    rw [hend, (sameTable_ping _ _).streams, (sameTable_keepalive _ _).streams]
  refine ⟨i, ?_, hi, ?_, ?_, rfl, ?_⟩
  · rw [hend, control_ping, control_keepalive, control_receive, h.control]
  · intro j hj
    rw [htable, hopened, Function.update_of_ne hj]
  · rw [htable, hopened, Function.update_self, halloc, hnow]
    exact justHeard_accepted ..
  · exact own_present (own_present (own_present (own_present (h.forgotten i hi) _) _) _) _

/-- A stream that plays alone has position 0. -/
theorem Soloist.playing {now c : BitVec 64} {r r' : Engine toneLibrary × Heard} (h : Hushed now r)
    (hi : Soloist c now r r' i) : r'.1.playing now = [i] := by
  have honly : ∀ j, (r'.1.streams j).Plays now = (j == i) := by
    intro j
    by_cases hj : j = i
    · rw [hj, hi.heard.plays, beq_self_eq_true]
    · rw [hi.others j hj, plays_silent (h.silent j), beq_eq_false_iff_ne.mpr hj]
  unfold Engine.playing
  rw [List.filter_congr fun j _ => honly j, List.filter_beq,
    List.count_eq_one_of_mem (List.nodup_finRange _) (List.mem_finRange i)]
  rfl

/-- It is mixed at full volume. -/
theorem Soloist.volume {now c : BitVec 64} {r r' : Engine toneLibrary × Heard}
    (hi : Soloist c now r r' i) : clampVolume (r'.1.mixVolume i) = 1 := by
  have hchannel : r'.1.channel.volume = 1 := by
    rw [← control_channel, hi.control]
    rfl
  unfold Engine.mixVolume
  rw [hchannel, hi.heard.volume]
  norm_num [clampVolume]

theorem steps_upToMix {r : Engine toneLibrary} (hr : r.control = (listener 7).control) {a : Arrival}
    (hne : a.data ≠ []) (now : BitVec 64) :
    r.steps (.process ⟨[a], now, now⟩) = upToMix a now ++ [.mix true now] := by
  have hon : r.connected = true := by
    rw [← control_connected, hr]
    rfl
  have htaken : taken r ⟨[a], now, now⟩ = [a] := by
    refine taken_all (e := r) ?_ ?_ (show 1 ≤ maxRecvPerTick by decide)
      fun b hb => by rwa [List.mem_singleton.mp hb]
    · rw [← control_transmitting, hr]
      rfl
    · rw [← control_network, hr]
      rfl
  rw [steps_process, if_pos hon, htaken]
  rfl

theorem run_hearStep (r : Engine L × Heard) (steps : List (EngineStep Frame)) :
    (Machine.run hearStep r steps).1 = Machine.run Engine.step r.1 steps :=
  Machine.run_map (f := Prod.fst) (fun _ _ => rfl) r steps

/-- Once client 8 has been mixed, its position is left at full volume. -/
theorem hushed_mixed {r r' : Engine toneLibrary × Heard} (h : Hushed 0 r)
    (hnone : ∀ j, (r.1.streams j).active = false) (hi : Soloist 8 0 r r' i) :
    Hushed 600 (hearStep r' (.mix true 0)).1 ∧ (hearStep r' (.mix true 0)).1.2.place 0 = 1 ∧
      findStream (hearStep r' (.mix true 0)).1.1 9 = none := by
  have hengine : (hearStep r' (.mix true 0)).1.1 = mix true r'.1 0 := by
    rw [hearStep_engine, step_mix]
  have honly : ∀ j, ((hearStep r' (.mix true 0)).1.1.streams j).active = true →
      ((hearStep r' (.mix true 0)).1.1.streams j).clientId = 8 ∧
      ((hearStep r' (.mix true 0)).1.1.streams j).lastRecvMs = 0 ∧ j = i := by
    intro j hj
    obtain ⟨decoder, hstream⟩ := streams_mix true r'.1 0 j
    rw [hengine, hstream] at hj ⊢
    by_cases hji : j = i
    · subst hji
      have hrecent : ¬ (r'.1.streams j).Stale 0 := fun hstale => by
        have hlate := hstale.2.2
        rw [hi.heard.lastRecvMs] at hlate
        exact absurd hlate (by decide)
      have hgo := goesOn_mixed hrecent decoder
      exact ⟨hgo.clientId.trans hi.heard.clientId, hgo.heard.elim (·.trans hi.heard.lastRecvMs) id, rfl⟩
    · have hoff := hnone j
      rw [← hi.others j hji] at hoff
      cases (inactive_mixed hoff 0).symm.trans hj
  refine ⟨⟨?_, ?_, ?_, ?_⟩, ?_, ?_⟩
  · rw [hengine, control_mix, hi.control]
  · intro j hj
    rw [(honly j hj).2.1]
    decide
  · have hnontrivial : Nontrivial StreamIndex := Fin.nontrivial_iff_two_le.mpr (by decide)
    obtain ⟨j, hj⟩ := exists_ne i
    refine ⟨j, ?_⟩
    by_contra hon
    exact hj (honly j (by simpa using hon)).2.2
  · intro j hj
    rw [hearStep_engine] at hj
    rw [hearStep_heard]
    exact own_gone hj
  · show (r'.1.playing 0)[0]?.elim _ _ = (1 : ℚ)
    rw [hi.playing h]
    exact hi.volume
  · refine Option.not_isSome_iff_eq_none.mp fun hfound => ?_
    obtain ⟨j, hj, hid⟩ := findStream_isSome.mp hfound
    exact absurd (hid.symm.trans (honly j hj).1) (by decide)

/-- Client 7 once it has tuned in. -/
def tunedIn : Engine toneLibrary × Heard :=
  Machine.run hearStep (newEngine, .silent) (stepsOf newEngine tuneIn)

theorem tunedIn_engine : tunedIn.1 = listener 7 := by
  unfold tunedIn
  rw [run_hearStep, run_stepsOf]
  rfl

theorem inactive_tunedIn (j : StreamIndex) : (tunedIn.1.streams j).active = false := by
  rw [tunedIn_engine]
  rfl

theorem hushed_tunedIn : Hushed 0 tunedIn where
  control := by rw [tunedIn_engine]
  silent j hj := by cases (inactive_tunedIn j).symm.trans hj
  free := ⟨⟨0, by decide⟩, inactive_tunedIn _⟩
  forgotten _ _ := own_present (own_present (own_present rfl _) _) _

/-- The first packet that client 7 hears. -/
theorem first_soloist : ∃ a : Arrival, a.data ≠ [] ∧
    ∃ i, Soloist 8 0 tunedIn (Machine.run hearStep tunedIn (upToMix a 0)) i := by
  obtain ⟨a, hne, hnow, halloc, hhears⟩ := packet_arrives (c := 8) (by decide) 0
  obtain ⟨hdr, hid, hacc⟩ := hhears tunedIn.1 hushed_tunedIn.control hushed_tunedIn.free
  have hnone : findStream tunedIn.1 8 = none := by
    refine Option.not_isSome_iff_eq_none.mp fun hfound => ?_
    obtain ⟨j, hj, -⟩ := findStream_isSome.mp hfound
    cases (inactive_tunedIn j).symm.trans hj
  exact ⟨a, hne, hushed_hears hushed_tunedIn hnone hid halloc hnow hacc⟩

theorem stepsOf_first {a : Arrival} (hne : a.data ≠ []) (calls : List (Call (ℚ × ℚ))) :
    stepsOf newEngine (tuneIn ++ .process ⟨[a], 0, 0⟩ :: calls) =
      stepsOf newEngine tuneIn ++ (upToMix a 0 ++ [.mix true 0] ++
        stepsOf ((listener 7).call (.process ⟨[a], 0, 0⟩)).1 calls) := by
  have hrun : Machine.run Engine.call newEngine tuneIn = listener 7 := rfl
  unfold stepsOf
  rw [Machine.expansion_append, hrun]
  show _ ++ ((listener 7).steps (.process ⟨[a], 0, 0⟩) ++ _) = _
  rw [steps_upToMix rfl hne]

/-- A stream that nobody was mixed before starts from silence. -/
theorem gain_continuous_iff_first : ∃ t : Tick, Machine.Along hearStep GoesOnSmoothly
    (newEngine, .silent) (stepsOf newEngine (tuneIn ++ [.process t])) := by
  obtain ⟨a, hne, i, hi⟩ := first_soloist
  refine ⟨⟨[a], 0, 0⟩, (gain_continuous_iff create_newEngine _).mpr ?_⟩
  rw [stepsOf_first hne, Machine.along_append, Machine.along_append, Machine.along_append]
  refine ⟨⟨trivial, trivial, trivial, trivial⟩, ⟨⟨trivial, trivial, trivial, trivial, trivial⟩, ?_,
    trivial⟩, trivial⟩
  intro k j hk
  rw [← tunedIn] at hk ⊢
  rw [hi.playing hushed_tunedIn, List.getElem?_singleton] at hk
  obtain ⟨-, hij⟩ := Option.ite_none_right_eq_some.mp hk
  obtain rfl := Option.some.inj hij
  have hplace : tunedIn.2.place k = 0 := rfl
  rw [hi.volume, hi.own, hi.place, hplace]
  norm_num [startVolume, steady]

/-- Client 8 is mixed once; 600 ms later client 9, which has never been mixed, is at full volume from
its first sample on. -/
theorem gain_jumps : ∃ t t' : Tick, ¬ Machine.Along hearStep GoesOnSmoothly (newEngine, .silent)
    (stepsOf newEngine (tuneIn ++ [.process t, .process t'])) := by
  obtain ⟨a, hane, i, hi⟩ := first_soloist
  obtain ⟨b, hbne, hbnow, hballoc, hbhears⟩ := packet_arrives (c := 9) (by decide) 600
  refine ⟨⟨[a], 0, 0⟩, ⟨[b], 600, 600⟩, fun halong => ?_⟩
  generalize hr₁ : Machine.run hearStep tunedIn (upToMix a 0) = r₁ at hi
  obtain ⟨hhushed, hplace, hnone⟩ := hushed_mixed hushed_tunedIn inactive_tunedIn hi
  generalize hr₂ : (hearStep r₁ (.mix true 0)).1 = r₂ at hhushed hplace hnone
  obtain ⟨hdr, hid, hacc⟩ := hbhears r₂.1 hhushed.control hhushed.free
  obtain ⟨i', hi'⟩ := hushed_hears hhushed hnone hid hballoc hbnow hacc
  generalize hr₃ : Machine.run hearStep r₂ (upToMix b 600) = r₃ at hi'
  have hnext : ((listener 7).call (.process ⟨[a], 0, 0⟩)).1 = r₂.1 := by
    rw [← run_steps, steps_upToMix rfl hane, Machine.run_append, ← tunedIn_engine, ← run_hearStep,
      hr₁, ← hr₂, hearStep_engine]
    rfl
  have hsteps : stepsOf newEngine (tuneIn ++ [.process ⟨[a], 0, 0⟩, .process ⟨[b], 600, 600⟩]) =
      (stepsOf newEngine tuneIn ++ (upToMix a 0 ++ [.mix true 0] ++ upToMix b 600)) ++
        [.mix true 600] := by
    rw [stepsOf_first hane, hnext]
    show _ ++ (_ ++ (r₂.1.steps (.process ⟨[b], 600, 600⟩) ++ [])) = _
    rw [steps_upToMix hhushed.control hbne]
    simp only [List.append_assoc, List.append_nil]
  have hrun : Machine.run hearStep (newEngine, Heard.silent)
      (stepsOf newEngine tuneIn ++ (upToMix a 0 ++ [.mix true 0] ++ upToMix b 600)) = r₃ := by
    rw [Machine.run_append, ← tunedIn, Machine.run_append, Machine.run_append, hr₁, ← hr₃, ← hr₂]
    rfl
  have hstep : ∀ r s, True → Remembers r → Remembers (hearStep (L := toneLibrary) r s).1 :=
    fun r s _ h => remembers_step h s
  have hremembers : Remembers r₃ := by
    rw [← hrun]
    exact Machine.run_induction hstep (remembers_create create_newEngine) fun _ _ => trivial
  rw [hsteps, Machine.along_append, hrun] at halong
  have hbad := (hremembers.goesOnSmoothly_iff _).mp halong.2.1 0 i' (by rw [hi'.playing hhushed]; rfl)
  rw [hi'.volume, hi'.own, hi'.place, hplace] at hbad
  norm_num [startVolume, steady] at hbad

end AudioPlatform.Core
