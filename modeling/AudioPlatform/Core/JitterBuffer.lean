import Mathlib.Algebra.Order.Ring.Rat
import Mathlib.Logic.Function.Basic

/-! Decoded frames and the jitter buffer that holds them until they are mixed.

Samples are rational: what the source computes in floating point is computed
exactly here. -/
namespace AudioPlatform.Core

def aeFrameSize : Nat := 960
def aeChannels : Nat := 2
def aeJitterBufFrames : Int := 10
def aeJitterMaxCapacity : Nat := 50
def aeJitterFrameSamples : Nat := aeFrameSize * aeChannels

/-- A decoded frame, its channels interleaved. -/
abbrev Pcm := Fin aeJitterFrameSamples → ℚ

structure Jitter where
  frames : Fin aeJitterMaxCapacity → Pcm
  writePos : BitVec 32
  readPos : BitVec 32
  fillLevel : Int
  targetDepth : Int
  minDepth : Int
  maxDepth : Int
  needsPlc : Bool
  crossfadeBuf : Pcm
  crossfadePending : Bool
  lastSeq : BitVec 32
  totalPushed : BitVec 32
  totalPopped : BitVec 32
  underruns : BitVec 32

/-- Where a position points in the circular buffer. -/
def jitterSlot (pos : BitVec 32) : Fin aeJitterMaxCapacity :=
  ⟨pos.toNat % aeJitterMaxCapacity, Nat.mod_lt _ (by decide)⟩

def aeJitterCreate (targetDepthFrames minDepthFrames maxDepthFrames : Int) : Jitter :=
  let targetDepth := if targetDepthFrames ≤ 0 then 3 else targetDepthFrames
  let minDepth := if minDepthFrames ≤ 0 then 2 else minDepthFrames
  let maxDepth := if maxDepthFrames ≤ 0 then aeJitterBufFrames else maxDepthFrames
  let maxDepth := if maxDepth > aeJitterMaxCapacity then (aeJitterMaxCapacity : Int) else maxDepth
  { frames := fun _ _ => 0
    writePos := 0
    readPos := 0
    fillLevel := 0
    targetDepth
    minDepth
    maxDepth
    needsPlc := false
    crossfadeBuf := fun _ => 0
    crossfadePending := false
    lastSeq := 0
    totalPushed := 0
    totalPopped := 0
    underruns := 0 }

/-- Returns 0, or -1 if the buffer is full and the frame dropped. -/
def aeJitterPush (jb : Jitter) (frame : Pcm) (seq : BitVec 32) : Jitter × Int :=
  if jb.maxDepth ≤ jb.fillLevel then (jb, -1)
  else
    ({ jb with
        frames := Function.update jb.frames (jitterSlot jb.writePos) frame
        writePos := jb.writePos + 1
        fillLevel := jb.fillLevel + 1
        lastSeq := seq
        totalPushed := jb.totalPushed + 1
        needsPlc := false }, 0)

/-- One round of the catch-up loop; the last frame skipped is kept for the crossfade. -/
def Jitter.skipFrame (jb : Jitter) (last : Bool) : Jitter :=
  { jb with
    crossfadeBuf := if last then jb.frames (jitterSlot jb.readPos) else jb.crossfadeBuf
    crossfadePending := last || jb.crossfadePending
    readPos := jb.readPos + 1
    fillLevel := jb.fillLevel - 1 }

def Jitter.skip : Nat → Jitter → Jitter
  | 0, jb => jb
  | n + 1, jb => skip n (jb.skipFrame (n = 0))

/-- From one frame to the other over the length of a frame. -/
def crossfade (old new : Pcm) : Pcm := fun i =>
  let t : ℚ := i.val / aeJitterFrameSamples
  old i * (1 - t) + new i * t

/-- Returns the frame, or `none` for -1 if the buffer is empty. -/
def aeJitterPop (jb : Jitter) : Jitter × Option Pcm :=
  if jb.fillLevel ≤ 0 then
    ({ jb with needsPlc := true, underruns := jb.underruns + 1 }, none)
  else
    let src := jb.frames (jitterSlot jb.readPos)
    let frame := if jb.crossfadePending then crossfade jb.crossfadeBuf src else src
    let jb :=
      { jb with
        crossfadePending := false
        readPos := jb.readPos + 1
        fillLevel := jb.fillLevel - 1
        totalPopped := jb.totalPopped + 1 }
    let jb :=
      if jb.maxDepth < jb.fillLevel then jb.skip (jb.fillLevel - jb.targetDepth).toNat else jb
    (jb, some frame)

def aeJitterReset (jb : Jitter) : Jitter :=
  { jb with
    writePos := 0
    readPos := 0
    fillLevel := 0
    needsPlc := false
    crossfadePending := false
    totalPushed := 0
    totalPopped := 0
    underruns := 0 }

end AudioPlatform.Core
