import AudioPlatform.Core.JitterBuffer

/-! The mixer: a sum of the inputs, each at its volume, at the master volume,
through a soft limiter. A volume that changes is ramped over the first samples
of the frame. -/
namespace AudioPlatform.Core

def aeRampSamples : Nat := 240
def aeMaxUsersPerCh : Nat := 64
def aeMixerMaxInputs : Nat := aeMaxUsersPerCh

structure Mixer where
  maxInputs : Nat
  masterVolume : ℚ
  masterVolumeTarget : ℚ
  prevVolumes : Fin aeMixerMaxInputs → ℚ

def aeMixerCreate (maxInputs : Int) : Mixer :=
  let maxInputs := if maxInputs ≤ 0 then (aeMixerMaxInputs : Int) else maxInputs
  let maxInputs := if maxInputs > aeMixerMaxInputs then (aeMixerMaxInputs : Int) else maxInputs
  { maxInputs := maxInputs.toNat
    masterVolume := 1
    masterVolumeTarget := 1
    prevVolumes := fun _ => 0 }

def clampVolume (volume : ℚ) : ℚ :=
  let volume := if volume < 0 then 0 else volume
  if 1 < volume then 1 else volume

/-- The volumes are close enough to need no ramp. -/
def steady (prev target : ℚ) : Bool := |prev - target| < 1 / 1000000

def rampLen : Nat := aeRampSamples * aeChannels

/-- The volume of a sample while the volume changes. -/
def rampVolume (prev target : ℚ) (s : Nat) : ℚ :=
  if s < rampLen then
    let t : ℚ := s / rampLen
    prev + (target - prev) * t
  else target

/-- Adds the `i`-th input to the output. -/
def mixInput (mixer : Mixer) (output : Pcm) (i : Nat) (input : Pcm) (volume : ℚ) : Mixer × Pcm :=
  let volPrev := if h : i < aeMixerMaxInputs then mixer.prevVolumes ⟨i, h⟩ else 0
  let volTarget := clampVolume volume
  let output : Pcm := fun s =>
    output s + input s * if steady volPrev volTarget then volTarget else rampVolume volPrev volTarget s
  let prevVolumes :=
    if h : i < aeMixerMaxInputs then Function.update mixer.prevVolumes ⟨i, h⟩ volTarget
    else mixer.prevVolumes
  ({ mixer with prevVolumes }, output)

/-- The loop over the inputs, from the `i`-th on; NULL inputs are passed over, and
without volumes each is 1. -/
def mixInputs (volumes : Option (Nat → ℚ)) :
    Nat → List (Option Pcm) → Mixer × Pcm → Mixer × Pcm
  | _, [], mixed => mixed
  | i, none :: inputs, mixed => mixInputs volumes (i + 1) inputs mixed
  | i, some input :: inputs, (mixer, output) =>
    mixInputs volumes (i + 1) inputs (mixInput mixer output i input (volumes.elim 1 (· i)))

def masterGain (mixer : Mixer) (s : Nat) : ℚ :=
  let prev := mixer.masterVolume
  let target := mixer.masterVolumeTarget
  if steady prev target then
    if 1 / 1000000 < |target - 1| then target else 1
  else rampVolume prev target s

/-- `softLimit` is applied to every sample of the mix; the mixer's state does not depend on it. -/
def aeMixerMix (softLimit : ℚ → ℚ) (mixer : Mixer) (inputs : List (Option Pcm))
    (volumes : Option (Nat → ℚ)) : Mixer × Pcm :=
  if inputs.isEmpty then (mixer, fun _ => 0)
  else
    let (mixer, output) := mixInputs volumes 0 (inputs.take mixer.maxInputs) (mixer, fun _ => 0)
    let output : Pcm := fun s => output s * masterGain mixer s
    ({ mixer with masterVolume := mixer.masterVolumeTarget }, fun s => softLimit (output s))

def aeMixerSetMasterVolume (mixer : Mixer) (volume : ℚ) : Mixer :=
  { mixer with masterVolumeTarget := clampVolume volume }

end AudioPlatform.Core
