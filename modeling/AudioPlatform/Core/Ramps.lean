import Mathlib.Algebra.BigOperators.Group.List.Basic
import Mathlib.Algebra.Order.BigOperators.Group.List
import AudioPlatform.Concurrency.Machine
import AudioPlatform.Core.Mixer
import AudioPlatform.Numbers.Ramp

/-! The gains of the mixer over a run.

The mixer keeps the volume that each of its positions was last mixed at, and the master volume. A
frame comes from what is kept and goes to the new volume, so that nothing jumps from frame to
frame, as far as the shortcuts for volumes that are almost equal allow. -/
namespace AudioPlatform.Core
open Concurrency Numbers

/-! ### One frame -/

/-- The volume that a position goes to. -/
def targetVolume (volumes : Option (Nat → ℚ)) (i : Nat) : ℚ := clampVolume (volumes.elim 1 (· i))

/-- The volume that a position comes from. -/
def Mixer.prevVolume (mixer : Mixer) (i : Nat) : ℚ :=
  if h : i < aeMixerMaxInputs then mixer.prevVolumes ⟨i, h⟩ else 0

/-- The gain of a frame that goes from one volume to another. -/
def frameGain (prev target : ℚ) (s : Nat) : ℚ :=
  if steady prev target then target else rampVolume prev target s

/-- The input at a position, unless it is NULL or there is none. -/
def inputAt (inputs : List (Option Pcm)) (i : Nat) : Option Pcm := inputs[i]?.join

theorem clampVolume_mem (volume : ℚ) : 0 ≤ clampVolume volume ∧ clampVolume volume ≤ 1 := by
  unfold clampVolume
  dsimp only
  split <;> split <;> constructor <;> linarith

theorem rampVolume_eq_line (prev target : ℚ) : rampVolume prev target = line rampLen prev target := rfl

theorem abs_le_of_steady {prev target : ℚ} (h : steady prev target = true) :
    |prev - target| ≤ 1 / 1000000 := (of_decide_eq_true h).le

/-- A frame comes from the one volume and goes to the other. -/
theorem ramped_frameGain {prev target : ℚ} (hprev : 0 ≤ prev ∧ prev ≤ 1)
    (htarget : 0 ≤ target ∧ target ≤ 1) :
    Ramped rampLen (1 / 1000000) 0 prev target (frameGain prev target) := by
  unfold frameGain
  split
  · rename_i h
    refine ramped_const htarget.1 htarget.2 ?_ (by simp)
    rw [abs_sub_comm]
    exact abs_le_of_steady h
  · rw [rampVolume_eq_line]
    obtain ⟨hstart, hstep, hsettled, hwithin⟩ := ramped_line (n := rampLen) (by decide) hprev htarget
    exact ⟨hstart.trans (by norm_num), hstep, hsettled, hwithin⟩

/-- Next to 1 the master volume is not applied. -/
theorem ramped_masterGain {mixer : Mixer} (hprev : 0 ≤ mixer.masterVolume ∧ mixer.masterVolume ≤ 1)
    (htarget : 0 ≤ mixer.masterVolumeTarget ∧ mixer.masterVolumeTarget ≤ 1) :
    Ramped rampLen (1 / 500000) (1 / 1000000) mixer.masterVolume mixer.masterVolumeTarget
      (masterGain mixer) := by
  unfold masterGain
  dsimp only
  split
  · rename_i h
    have hclose := abs_le_of_steady h
    split
    · refine ramped_const htarget.1 htarget.2 ?_ (by simp)
      rw [abs_sub_comm]
      exact hclose.trans (by norm_num)
    · rename_i hone
      have hnear : |mixer.masterVolumeTarget - 1| ≤ 1 / 1000000 := not_lt.mp hone
      refine ramped_const zero_le_one le_rfl ?_ (by rwa [abs_sub_comm])
      calc |1 - mixer.masterVolume|
          ≤ |1 - mixer.masterVolumeTarget| + |mixer.masterVolumeTarget - mixer.masterVolume| :=
            abs_sub_le ..
        _ ≤ 1 / 1000000 + 1 / 1000000 := by
          rw [abs_sub_comm] at hnear hclose
          exact add_le_add hnear hclose
        _ = 1 / 500000 := by norm_num
  · rw [rampVolume_eq_line]
    obtain ⟨hstart, hstep, hsettled, hwithin⟩ := ramped_line (n := rampLen) (by decide) hprev htarget
    exact ⟨hstart.trans (by norm_num), hstep, fun s hs => (hsettled s hs).trans (by norm_num), hwithin⟩

/-! ### The loop over the inputs -/

section Loop
variable (volumes : Option (Nat → ℚ)) (mixer : Mixer)

/-- An input at its gain; nothing for NULL. -/
def scaled (i : Nat) (input : Option Pcm) (s : Fin aeJitterFrameSamples) : ℚ :=
  input.elim 0 fun samples => samples s * frameGain (mixer.prevVolume i) (targetVolume volumes i) s

/-- What the positions from `i` on come to. -/
def mixed (i : Nat) : List (Option Pcm) → Pcm
  | [] => fun _ => 0
  | input :: inputs => fun s => scaled volumes mixer i input s + mixed (i + 1) inputs s

variable {volumes mixer}

theorem mixed_congr {mixer' : Mixer} {i : Nat} (h : ∀ k, i ≤ k → mixer'.prevVolume k = mixer.prevVolume k)
    (inputs : List (Option Pcm)) : mixed volumes mixer' i inputs = mixed volumes mixer i inputs := by
  induction inputs generalizing i with
  | nil => rfl
  | cons input inputs ih =>
    funext s
    rw [mixed, mixed, ih fun k hk => h k (Nat.le_of_succ_le hk)]
    unfold scaled
    rw [h i (Nat.le_refl i)]

theorem prevVolume_mixInput (output : Pcm) (i : Nat) (input : Pcm) (volume : ℚ) (k : Nat) :
    (mixInput mixer output i input volume).1.prevVolume k =
      if k = i ∧ k < aeMixerMaxInputs then clampVolume volume else mixer.prevVolume k := by
  unfold mixInput Mixer.prevVolume
  dsimp only
  by_cases hk : k < aeMixerMaxInputs
  · by_cases hki : k = i
    · subst hki
      simp [hk]
    · by_cases hi : i < aeMixerMaxInputs
      · simp [hk, hi, hki, Function.update_of_ne]
      · simp [hk, hi, hki]
  · simp [hk]

/-- Each position is mixed at a gain that the positions before it do not change, and is then kept at
the volume it went to. -/
theorem mixInputs_spec (volumes : Option (Nat → ℚ)) (mixer : Mixer) (inputs : List (Option Pcm))
    (i : Nat) (output : Pcm) (hroom : i + inputs.length ≤ aeMixerMaxInputs) :
    (mixInputs volumes i inputs (mixer, output)).2 =
      (fun s => output s + mixed volumes mixer i inputs s) ∧
    (∀ k, (mixInputs volumes i inputs (mixer, output)).1.prevVolume k =
      if i ≤ k ∧ (inputAt inputs (k - i)).isSome then targetVolume volumes k else mixer.prevVolume k) ∧
    (mixInputs volumes i inputs (mixer, output)).1.maxInputs = mixer.maxInputs ∧
    (mixInputs volumes i inputs (mixer, output)).1.masterVolume = mixer.masterVolume ∧
    (mixInputs volumes i inputs (mixer, output)).1.masterVolumeTarget = mixer.masterVolumeTarget := by
  induction inputs generalizing i mixer output with
  | nil => simp [mixInputs, mixed, inputAt]
  | cons input inputs ih =>
    have hnext : i + 1 + inputs.length ≤ aeMixerMaxInputs := by
      rw [List.length_cons] at hroom
      omega
    have hshift : ∀ k, i + 1 ≤ k → inputAt (input :: inputs) (k - i) = inputAt inputs (k - (i + 1)) := by
      intro k hk
      rw [show k - i = k - (i + 1) + 1 by omega]
      rfl
    cases input with
    | none =>
      obtain ⟨hout, hprev, hrest⟩ := ih mixer (i + 1) output hnext
      refine ⟨?_, fun k => ?_, hrest⟩
      · rw [mixInputs, hout]
        funext s
        simp [mixed, scaled]
      · rw [mixInputs, hprev]
        rcases lt_trichotomy k i with hk | rfl | hk
        · rw [if_neg (by omega), if_neg (by omega)]
        · rw [if_neg (by omega), if_neg (by simp [inputAt])]
        · simp only [hshift k hk, Nat.succ_le_of_lt hk, hk.le]
    | some samples =>
      obtain ⟨hout, hprev, hmax, hmaster, htarget⟩ := ih
        (mixInput mixer output i samples (volumes.elim 1 (· i))).1 (i + 1)
        (mixInput mixer output i samples (volumes.elim 1 (· i))).2 hnext
      have hkept : ∀ k, i + 1 ≤ k →
          (mixInput mixer output i samples (volumes.elim 1 (· i))).1.prevVolume k =
            mixer.prevVolume k := fun k hk => by
        rw [prevVolume_mixInput, if_neg (by omega)]
      refine ⟨?_, fun k => ?_, hmax, hmaster, htarget⟩
      · rw [mixInputs]
        refine hout.trans ?_
        funext s
        rw [mixed_congr hkept, mixed, ← add_assoc]
        rfl
      · rw [mixInputs]
        refine (hprev k).trans ?_
        rcases lt_trichotomy k i with hk | rfl | hk
        · rw [if_neg (by omega), if_neg (by omega), prevVolume_mixInput, if_neg (by omega)]
        · rw [if_neg (by omega), if_pos (by simp [inputAt]), prevVolume_mixInput,
            if_pos (by omega)]
          rfl
        · rw [hkept k hk]
          simp only [hshift k hk, Nat.succ_le_of_lt hk, hk.le]

end Loop

/-! ### A run -/

inductive MixerCall where
  | mix (inputs : List (Option Pcm)) (volumes : Option (Nat → ℚ))
  | setMasterVolume (volume : ℚ)

/-- A frame that is mixed: what is looked at, where each position's gain and the master gain go to,
the gains, and what comes out before the limiter. -/
structure MixedFrame where
  inputs : List (Option Pcm)
  target : Nat → ℚ
  gain : Nat → Nat → ℚ
  masterTarget : ℚ
  master : Nat → ℚ
  output : Pcm

def Mixer.mixedFrame (mixer : Mixer) (inputs : List (Option Pcm)) (volumes : Option (Nat → ℚ)) :
    MixedFrame where
  inputs := inputs.take mixer.maxInputs
  target := targetVolume volumes
  gain i := frameGain (mixer.prevVolume i) (targetVolume volumes i)
  masterTarget := mixer.masterVolumeTarget
  master := masterGain mixer
  output := (aeMixerMix id mixer inputs volumes).2

def Mixer.call (mixer : Mixer) : MixerCall → Mixer × List MixedFrame
  | .mix inputs volumes => ((aeMixerMix id mixer inputs volumes).1,
      if inputs.isEmpty then [] else [mixer.mixedFrame inputs volumes])
  | .setMasterVolume volume => (aeMixerSetMasterVolume mixer volume, [])

/-- The limiter is applied to what comes out. -/
theorem aeMixerMix_limited (softLimit : ℚ → ℚ) (mixer : Mixer) {inputs : List (Option Pcm)}
    (volumes : Option (Nat → ℚ)) (h : inputs ≠ []) :
    aeMixerMix softLimit mixer inputs volumes =
      ((aeMixerMix id mixer inputs volumes).1,
        fun s => softLimit ((aeMixerMix id mixer inputs volumes).2 s)) := by
  unfold aeMixerMix
  rw [if_neg (by simpa using h), if_neg (by simpa using h)]
  rfl

/-- The volumes that are kept are volumes, and no position has no place. -/
structure Mixer.Sound (mixer : Mixer) : Prop where
  room : mixer.maxInputs ≤ aeMixerMaxInputs
  prev : ∀ i, 0 ≤ mixer.prevVolume i ∧ mixer.prevVolume i ≤ 1
  master : 0 ≤ mixer.masterVolume ∧ mixer.masterVolume ≤ 1
  target : 0 ≤ mixer.masterVolumeTarget ∧ mixer.masterVolumeTarget ≤ 1

theorem sound_create (maxInputs : Int) : (aeMixerCreate maxInputs).Sound where
  room := by
    unfold aeMixerCreate
    dsimp only
    split <;> omega
  prev i := by
    unfold aeMixerCreate Mixer.prevVolume
    split <;> norm_num
  master := ⟨zero_le_one, le_rfl⟩
  target := ⟨zero_le_one, le_rfl⟩

variable {mixer : Mixer}

/-- A call that has inputs mixes each of them once. -/
theorem mix_spec (h : mixer.Sound) {inputs : List (Option Pcm)} (volumes : Option (Nat → ℚ))
    (hne : inputs ≠ []) :
    (mixer.mixedFrame inputs volumes).output = (fun s =>
      mixed volumes mixer 0 (inputs.take mixer.maxInputs) s * masterGain mixer s) ∧
    (∀ k, (aeMixerMix id mixer inputs volumes).1.prevVolume k =
      if (inputAt (inputs.take mixer.maxInputs) k).isSome then targetVolume volumes k
      else mixer.prevVolume k) ∧
    (aeMixerMix id mixer inputs volumes).1.maxInputs = mixer.maxInputs ∧
    (aeMixerMix id mixer inputs volumes).1.masterVolume = mixer.masterVolumeTarget ∧
    (aeMixerMix id mixer inputs volumes).1.masterVolumeTarget = mixer.masterVolumeTarget := by
  have hroom : 0 + (inputs.take mixer.maxInputs).length ≤ aeMixerMaxInputs := by
    rw [List.length_take]
    have := h.room
    omega
  obtain ⟨hout, hprev, hmax, hmaster, htarget⟩ := mixInputs_spec volumes mixer
    (inputs.take mixer.maxInputs) 0 (fun _ => 0) hroom
  have hmix : aeMixerMix id mixer inputs volumes =
      ({ (mixInputs volumes 0 (inputs.take mixer.maxInputs) (mixer, fun _ => 0)).1 with
          masterVolume := (mixInputs volumes 0 (inputs.take mixer.maxInputs)
            (mixer, fun _ => 0)).1.masterVolumeTarget },
        fun s => (mixInputs volumes 0 (inputs.take mixer.maxInputs) (mixer, fun _ => 0)).2 s *
          masterGain (mixInputs volumes 0 (inputs.take mixer.maxInputs) (mixer, fun _ => 0)).1 s) := by
    unfold aeMixerMix
    rw [if_neg (by simpa using hne)]
    rfl
  have hgain : masterGain (mixInputs volumes 0 (inputs.take mixer.maxInputs) (mixer, fun _ => 0)).1 =
      masterGain mixer := by
    funext s
    unfold masterGain
    rw [hmaster, htarget]
  refine ⟨?_, fun k => ?_, ?_, ?_, ?_⟩
  · show (aeMixerMix id mixer inputs volumes).2 = _
    rw [hmix, hgain, hout]
    simp only [zero_add]
  · rw [hmix]
    refine (hprev k).trans ?_
    simp
  · rw [hmix]
    exact hmax
  · rw [hmix]
    exact htarget
  · rw [hmix]
    exact htarget

theorem sound_call (h : mixer.Sound) (c : MixerCall) : (mixer.call c).1.Sound := by
  cases c with
  | setMasterVolume volume => exact ⟨h.room, h.prev, h.master, clampVolume_mem volume⟩
  | mix inputs volumes =>
    rcases eq_or_ne inputs [] with rfl | hne
    · exact h
    · obtain ⟨-, hprev, hmax, hmaster, htarget⟩ := mix_spec h volumes hne
      refine ⟨hmax.trans_le h.room, fun i => ?_, hmaster ▸ h.target, htarget ▸ h.target⟩
      have hkept : (mixer.call (.mix inputs volumes)).1.prevVolume i = _ := hprev i
      rw [hkept]
      split
      · exact clampVolume_mem _
      · exact h.prev i

/-- Each frame at which a position is mixed, with the volume it goes to and its gains. -/
def gainsAt (i : Nat) (frames : List MixedFrame) : List (ℚ × (Nat → ℚ)) :=
  (frames.filter fun f => (inputAt f.inputs i).isSome).map fun f => (f.target i, f.gain i)

def masterGains (frames : List MixedFrame) : List (ℚ × (Nat → ℚ)) :=
  frames.map fun f => (f.masterTarget, f.master)

/-- The gains of a position come from what is kept for it. -/
theorem glide_gainsAt (h : mixer.Sound) (calls : List MixerCall) (i : Nat) :
    Glide rampLen (1 / 1000000) 0 (mixer.prevVolume i)
      (gainsAt i (Machine.outputs Mixer.call mixer calls)) := by
  induction calls generalizing mixer with
  | nil => exact .nil _
  | cons c rest ih =>
    have hrest := ih (sound_call h c)
    cases c with
    | setMasterVolume volume => exact hrest
    | mix inputs volumes =>
      rcases eq_or_ne inputs [] with rfl | hne
      · exact hrest
      · obtain ⟨-, hprev, -⟩ := mix_spec h volumes hne
        have hframes : Machine.outputs Mixer.call mixer (.mix inputs volumes :: rest) =
            mixer.mixedFrame inputs volumes ::
              Machine.outputs Mixer.call (mixer.call (.mix inputs volumes)).1 rest := by
          rw [Machine.outputs, Mixer.call, if_neg (by simpa using hne)]
          rfl
        have hkept : (mixer.call (.mix inputs volumes)).1.prevVolume i = _ := hprev i
        rw [hkept] at hrest
        rw [hframes, gainsAt, List.filter_cons]
        split
        · rename_i hmixed
          rw [if_pos (show (inputAt (inputs.take mixer.maxInputs) i).isSome = true from hmixed)] at hrest
          exact .cons (ramped_frameGain (h.prev i) (clampVolume_mem _)) hrest
        · rename_i hmixed
          rwa [if_neg (show ¬ (inputAt (inputs.take mixer.maxInputs) i).isSome = true from hmixed)] at hrest

theorem glide_masterGains (h : mixer.Sound) (calls : List MixerCall) :
    Glide rampLen (1 / 500000) (1 / 1000000) mixer.masterVolume
      (masterGains (Machine.outputs Mixer.call mixer calls)) := by
  induction calls generalizing mixer with
  | nil => exact .nil _
  | cons c rest ih =>
    have hrest := ih (sound_call h c)
    cases c with
    | setMasterVolume volume => exact hrest
    | mix inputs volumes =>
      rcases eq_or_ne inputs [] with rfl | hne
      · exact hrest
      · obtain ⟨-, -, -, hmaster, -⟩ := mix_spec h volumes hne
        have hkept : (mixer.call (.mix inputs volumes)).1.masterVolume = _ := hmaster
        rw [hkept] at hrest
        rw [Machine.outputs, Mixer.call, if_neg (by simpa using hne)]
        exact .cons (ramped_masterGain h.master h.target) hrest

/-- What the positions that are mixed come to at their gains. -/
def MixedFrame.total (f : MixedFrame) (s : Fin aeJitterFrameSamples) : ℚ :=
  (f.inputs.zipIdx.map fun x => x.1.elim 0 fun samples => samples s * f.gain x.2 s).sum

/-- What the inputs come to, each counted at full gain whatever its sign. -/
def MixedFrame.magnitude (f : MixedFrame) (s : Fin aeJitterFrameSamples) : ℚ :=
  (f.inputs.map fun input => input.elim 0 fun samples => |samples s|).sum

theorem mixed_eq_sum (volumes : Option (Nat → ℚ)) (mixer : Mixer) (inputs : List (Option Pcm)) (i : Nat)
    (s : Fin aeJitterFrameSamples) : mixed volumes mixer i inputs s =
      ((inputs.zipIdx i).map fun x => scaled volumes mixer x.2 x.1 s).sum := by
  induction inputs generalizing i with
  | nil => rfl
  | cons input inputs ih =>
    rw [List.zipIdx_cons, List.map_cons, List.sum_cons, ← ih]
    rfl

/-- A frame of a run is mixed by a mixer that is sound. -/
theorem mem_frames (h : mixer.Sound) {calls : List MixerCall} {f : MixedFrame}
    (hf : f ∈ Machine.outputs Mixer.call mixer calls) : ∃ mixer' : Mixer, ∃ inputs volumes,
      mixer'.Sound ∧ inputs ≠ [] ∧ f = mixer'.mixedFrame inputs volumes := by
  induction calls generalizing mixer with
  | nil => cases hf
  | cons c rest ih =>
    rcases List.mem_append.mp hf with hf | hf
    · cases c with
      | setMasterVolume volume => cases hf
      | mix inputs volumes =>
        rcases eq_or_ne inputs [] with rfl | hne
        · cases hf
        · rw [Mixer.call, if_neg (by simpa using hne)] at hf
          exact ⟨mixer, inputs, volumes, h, hne, List.mem_singleton.mp hf⟩
    · exact ih (sound_call h c) hf

theorem abs_mixed_le (h : mixer.Sound) (volumes : Option (Nat → ℚ)) (inputs : List (Option Pcm))
    (i : Nat) (s : Fin aeJitterFrameSamples) : |mixed volumes mixer i inputs s| ≤
      (inputs.map fun input => input.elim 0 fun samples => |samples s|).sum := by
  induction inputs generalizing i with
  | nil => simp [mixed]
  | cons input inputs ih =>
    have hscaled : |scaled volumes mixer i input s| ≤ input.elim 0 fun samples => |samples s| := by
      cases input with
      | none => simp [scaled]
      | some samples =>
        exact (ramped_frameGain (h.prev i) (clampVolume_mem _)).abs_mul_le (samples s) s
    calc |mixed volumes mixer i (input :: inputs) s|
        ≤ |scaled volumes mixer i input s| + |mixed volumes mixer (i + 1) inputs s| := abs_add_le ..
      _ ≤ _ := by
        rw [List.map_cons, List.sum_cons]
        exact add_le_add hscaled (ih (i + 1))

/-- What comes out before the limiter. -/
theorem output_frame (h : mixer.Sound) {inputs : List (Option Pcm)} (volumes : Option (Nat → ℚ))
    (hne : inputs ≠ []) (s : Fin aeJitterFrameSamples) :
    (mixer.mixedFrame inputs volumes).output s =
      (mixer.mixedFrame inputs volumes).total s * (mixer.mixedFrame inputs volumes).master s ∧
    |(mixer.mixedFrame inputs volumes).output s| ≤ (mixer.mixedFrame inputs volumes).magnitude s := by
  rw [congrFun (mix_spec h volumes hne).1 s]
  constructor
  · rw [mixed_eq_sum]
    rfl
  · exact ((ramped_masterGain h.master h.target).abs_mul_le _ _).trans (abs_mixed_le h volumes _ 0 s)

/-- The sequence of the gains of some frames: it starts at `first`, up to a tolerance, stays between 0
and 1, changes by at most 1/480 from one sample to the next, and is where each frame goes to from
sample 480 of the frame on. -/
structure ClickFree (first tolerance : ℚ) (gains : List (ℚ × (Nat → ℚ))) : Prop where
  starts : ∀ g ∈ (samples aeJitterFrameSamples gains).head?, |g - first| ≤ tolerance
  within : ∀ g ∈ samples aeJitterFrameSamples gains, 0 ≤ g ∧ g ≤ 1
  smooth : (samples aeJitterFrameSamples gains).IsChain fun a b => |b - a| ≤ 1 / 480
  settled : ∀ x ∈ gains, ∀ s, 480 ≤ s → |x.2 s - x.1| ≤ 1 / 1000000

theorem clickFree_of_glide {p ε δ : ℚ} {gains : List (ℚ × (Nat → ℚ))} (h : Glide rampLen ε δ p gains)
    (hsum : ε + δ ≤ 1 / 480) (hδ : δ ≤ 1 / 1000000) : ClickFree p ε gains where
  starts := h.head (m := 1919)
  within := h.within
  smooth := h.smooth (m := 1919) (by decide) hsum
  settled x hx s hs := by
    obtain ⟨q, hq⟩ := h.ramped x hx
    exact (hq.settled s hs).trans hδ

/-- A master volume of 1 is gone from exactly. -/
theorem masterGain_zero (h : mixer.masterVolume = 1) : masterGain mixer 0 = 1 := by
  unfold masterGain
  dsimp only
  split
  · rename_i hsteady
    have hclose := abs_le_of_steady hsteady
    rw [h, abs_sub_comm] at hclose
    rw [if_neg (not_lt.mpr hclose)]
  · rw [h]
    simp [rampVolume, rampLen, aeRampSamples, aeChannels]

theorem masterGains_head (h : mixer.masterVolume = 1) (calls : List MixerCall) :
    ∀ g ∈ (samples aeJitterFrameSamples
      (masterGains (Machine.outputs Mixer.call mixer calls))).head?, g = 1 := by
  induction calls generalizing mixer with
  | nil => simp [Machine.outputs, masterGains, samples]
  | cons c rest ih =>
    cases c with
    | setMasterVolume volume => exact ih h
    | mix inputs volumes =>
      rcases eq_or_ne inputs [] with rfl | hne
      · exact ih h
      · intro g hg
        rw [Machine.outputs, Mixer.call, if_neg (by simpa using hne)] at hg
        obtain rfl := Option.some.inj ((head_samples (m := 1919) _).symm.trans hg)
        exact masterGain_zero h

/-- **The mixer does not click.** In every run of a new mixer, each position's gains and the master
gain are free of clicks, the one from 0 up to a tolerance of 1e-6, the other from 1; what comes out
before the limiter is the inputs at these gains, and no more than the inputs come to. -/
theorem mixer_click_free (maxInputs : Int) (calls : List MixerCall) :
    let frames := Machine.outputs Mixer.call (aeMixerCreate maxInputs) calls
    (∀ i, ClickFree 0 (1 / 1000000) (gainsAt i frames)) ∧
    ClickFree 1 0 (masterGains frames) ∧
    ∀ f ∈ frames, ∀ s, f.output s = f.total s * f.master s ∧ |f.output s| ≤ f.magnitude s := by
  have hsound := sound_create maxInputs
  refine ⟨fun i => ?_, ?_, fun f hf s => ?_⟩
  · have hglide := glide_gainsAt hsound calls i
    have hzero : (aeMixerCreate maxInputs).prevVolume i = 0 := by
      unfold aeMixerCreate Mixer.prevVolume
      split <;> rfl
    rw [hzero] at hglide
    exact clickFree_of_glide hglide (by norm_num) (by norm_num)
  · have hfree := clickFree_of_glide (glide_masterGains hsound calls) (by norm_num) le_rfl
    refine ⟨fun g hg => ?_, hfree.within, hfree.smooth, hfree.settled⟩
    rw [masterGains_head rfl calls g hg, sub_self, abs_zero]
  · obtain ⟨mixer, inputs, volumes, hmixer, hne, rfl⟩ := mem_frames hsound hf
    exact output_frame hmixer volumes hne s

/-- A first volume of half a millionth is not ramped to. -/
theorem mixer_starts_above_zero : ¬ ∀ (maxInputs : Int) (calls : List MixerCall) (i : Nat),
    ∀ g ∈ (samples aeJitterFrameSamples
      (gainsAt i (Machine.outputs Mixer.call (aeMixerCreate maxInputs) calls))).head?, g = 0 := by
  have hgain : frameGain 0 (targetVolume (some fun _ => 1 / 2000000) 0) 0 = 1 / 2000000 := by
    norm_num [frameGain, targetVolume, clampVolume, steady, abs_of_pos]
  have hframes : gainsAt 0 (Machine.outputs Mixer.call (aeMixerCreate 64)
      [.mix [some fun _ => 1] (some fun _ => 1 / 2000000)]) =
    [(targetVolume (some fun _ => 1 / 2000000) 0,
      frameGain 0 (targetVolume (some fun _ => 1 / 2000000) 0))] := rfl
  intro h
  have hfirst := h 64 [.mix [some fun _ => 1] (some fun _ => 1 / 2000000)] 0 (1 / 2000000)
  rw [hframes] at hfirst
  have hzero := hfirst ((head_samples (m := 1919) _).trans (congrArg some hgain))
  norm_num at hzero

end AudioPlatform.Core
