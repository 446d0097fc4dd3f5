import AudioPlatform.Concurrency.Machine
import AudioPlatform.Core.JitterBuffer

/-! The jitter buffer as a queue.

Slots are positions modulo 50, and positions wrap at 2^32, of which 50 is no divisor:
at the wrap the slots jump by 46. Frames that are less than 46 positions apart never
share a slot, so a buffer of at most 46 frames is a queue however long it runs; and
one of more frames is not. -/
namespace AudioPlatform.Core
open Concurrency

def aeJitterLevel (jb : Jitter) : Int := if 0 < jb.fillLevel then jb.fillLevel else 0

inductive JitterCall where
  | push (frame : Pcm) (seq : BitVec 32)
  | pop
  | reset

inductive JitterReturn where
  | pushed (ret : Int)
  | popped (frame : Option Pcm)

def Jitter.call (jb : Jitter) : JitterCall → Jitter × List JitterReturn
  | .push frame seq => let (jb, ret) := aeJitterPush jb frame seq; (jb, [.pushed ret])
  | .pop => let (jb, frame) := aeJitterPop jb; (jb, [.popped frame])
  | .reset => (aeJitterReset jb, [])

/-! ### Queues -/

/-- A queue that holds at most `m` frames, oldest first. -/
def fifoCall (m : Nat) (queue : List Pcm) : JitterCall → List Pcm × List JitterReturn
  | .push frame _ =>
    if queue.length < m then (queue ++ [frame], [.pushed 0]) else (queue, [.pushed (-1)])
  | .pop => (queue.tail, [.popped queue.head?])
  | .reset => ([], [])

/-- The next pop would run the catch-up loop. -/
def Jitter.CatchesUp (jb : Jitter) : Prop := 0 < jb.fillLevel ∧ jb.maxDepth < jb.fillLevel - 1

/-- Whatever is called, the buffer returns what the queue does, its level is the queue's
length, and it neither crossfades nor catches up. -/
def BehavesAsFifo (m : Nat) (jb : Jitter) : Prop := ∀ calls : List JitterCall,
  let jb' := Machine.run Jitter.call jb calls
  Machine.outputs Jitter.call jb calls = Machine.outputs (fifoCall m) [] calls ∧
    aeJitterLevel jb' = (Machine.run (fifoCall m) [] calls).length ∧
    jb'.crossfadePending = false ∧ ¬ jb'.CatchesUp

/-- Every buffer that is created with maximal depth `m` behaves as a queue. -/
def GoodDepth (m : Nat) : Prop := ∀ targetDepth minDepth maxDepth : Int,
  let jb := aeJitterCreate targetDepth minDepth maxDepth
  jb.maxDepth = m → BehavesAsFifo m jb

/-- The frames of the queue are in the slots from the read position on. -/
structure Queues (m : Nat) (jb : Jitter) (queue : List Pcm) : Prop where
  max : jb.maxDepth = m
  fill : jb.fillLevel = queue.length
  room : queue.length ≤ m
  write : jb.writePos = jb.readPos + BitVec.ofNat 32 queue.length
  frames : ∀ i (h : i < queue.length),
    jb.frames (jitterSlot (jb.readPos + BitVec.ofNat 32 i)) = queue[i]
  calm : jb.crossfadePending = false

variable {m : Nat} {jb : Jitter} {queue : List Pcm}

/-- Positions less than 46 apart have different slots, also across the wrap. -/
theorem jitterSlot_ne {pos : BitVec 32} {d : Nat} (h0 : 0 < d) (h46 : d < 46) :
    jitterSlot pos ≠ jitterSlot (pos + BitVec.ofNat 32 d) := by
  intro h
  have hslot : pos.toNat % 50 = (pos + BitVec.ofNat 32 d).toNat % 50 := congrArg Fin.val h
  rw [BitVec.toNat_add, BitVec.toNat_ofNat, Nat.mod_eq_of_lt (show d < 2 ^ 32 by omega)] at hslot
  have hpos := pos.isLt
  rcases Nat.lt_or_ge (pos.toNat + d) (2 ^ 32) with hlow | hwrap
  · rw [Nat.mod_eq_of_lt hlow] at hslot
    omega
  · -- 2^32 is 46 modulo 50
    rw [Nat.mod_eq_sub_mod hwrap, Nat.mod_eq_of_lt (by omega)] at hslot
    omega

theorem Queues.push (h : Queues m jb queue) (hroom : queue.length < m) (h46 : queue.length < 46)
    (frame : Pcm) (seq : BitVec 32) :
    Queues m (aeJitterPush jb frame seq).1 (queue ++ [frame]) ∧ (aeJitterPush jb frame seq).2 = 0 := by
  have hopen : ¬ jb.maxDepth ≤ jb.fillLevel := by
    rw [h.max, h.fill]
    omega
  unfold aeJitterPush
  rw [if_neg hopen]
  refine ⟨⟨h.max, ?_, ?_, ?_, ?_, h.calm⟩, rfl⟩
  · show jb.fillLevel + 1 = _
    rw [h.fill, List.length_append]
    rfl
  · rw [List.length_append]
    exact hroom
  · show jb.writePos + 1 = jb.readPos + _
    rw [h.write, List.length_append, List.length_singleton, BitVec.ofNat_add, BitVec.add_assoc]
    rfl
  · intro i hi
    rw [List.length_append, List.length_singleton] at hi
    show Function.update jb.frames (jitterSlot jb.writePos) frame _ = _
    rw [h.write]
    by_cases hlast : i = queue.length
    · subst hlast
      rw [Function.update_self, List.getElem_append_right (Nat.le_refl _)]
      simp
    · have hold : i < queue.length := by omega
      have hne : jitterSlot (jb.readPos + BitVec.ofNat 32 i) ≠
          jitterSlot (jb.readPos + BitVec.ofNat 32 i + BitVec.ofNat 32 (queue.length - i)) :=
        jitterSlot_ne (by omega) (by omega)
      rw [BitVec.add_assoc, ← BitVec.ofNat_add, Nat.add_sub_cancel' hold.le] at hne
      rw [Function.update_of_ne hne, h.frames i hold, List.getElem_append_left]

theorem Queues.full (h : Queues m jb queue) (hfull : ¬ queue.length < m) (frame : Pcm)
    (seq : BitVec 32) : aeJitterPush jb frame seq = (jb, -1) := by
  unfold aeJitterPush
  rw [if_pos]
  rw [h.max, h.fill]
  omega

theorem Queues.pop (h : Queues m jb queue) :
    Queues m (aeJitterPop jb).1 queue.tail ∧ (aeJitterPop jb).2 = queue.head? ∧
      (aeJitterPop jb).1.readPos = jb.readPos + BitVec.ofNat 32 (min queue.length 1) := by
  unfold aeJitterPop
  cases queue with
  | nil =>
    rw [if_pos (by rw [h.fill]; exact Int.le_refl 0)]
    exact ⟨⟨h.max, h.fill, h.room, h.write, h.frames, h.calm⟩, rfl, (BitVec.add_zero _).symm⟩
  | cons frame rest =>
    have hlen : jb.fillLevel = rest.length + 1 := by
      rw [h.fill, List.length_cons]
      rfl
    have hroom := h.room
    rw [List.length_cons] at hroom
    have hfirst : jb.frames (jitterSlot jb.readPos) = frame := by
      have := h.frames 0 (Nat.succ_pos _)
      rwa [BitVec.add_zero] at this
    rw [if_neg (by omega), h.calm]
    dsimp only
    rw [if_neg (by rw [h.max]; omega), if_neg Bool.false_ne_true, hfirst]
    refine ⟨⟨h.max, ?_, by rw [List.tail_cons]; omega, ?_, ?_, rfl⟩, rfl, ?_⟩
    · show jb.fillLevel - 1 = _
      rw [hlen, List.tail_cons]
      omega
    · show jb.writePos = jb.readPos + 1 + _
      rw [h.write, List.length_cons, List.tail_cons, Nat.add_comm, BitVec.ofNat_add, BitVec.add_assoc]
      rfl
    · intro i hi
      rw [List.tail_cons] at hi
      have hpos : jb.readPos + BitVec.ofNat 32 (i + 1) = jb.readPos + 1 + BitVec.ofNat 32 i := by
        rw [Nat.add_comm, BitVec.ofNat_add, ← BitVec.add_assoc]
        rfl
      have := h.frames (i + 1) (Nat.succ_lt_succ hi)
      rw [hpos] at this
      exact this
    · rw [List.length_cons, Nat.min_eq_right (Nat.succ_le_succ (Nat.zero_le _))]
      rfl

theorem Queues.reset (h : Queues m jb queue) : Queues m (aeJitterReset jb) [] :=
  ⟨h.max, rfl, Nat.zero_le m, rfl, fun _ hi => absurd hi (Nat.not_lt_zero _), rfl⟩

/-- **Every call** on a queue that is not longer than 45 frames when it grows. -/
theorem Queues.call (h : Queues m jb queue) (c : JitterCall)
    (hshort : queue.length < m → queue.length < 46) :
    (jb.call c).2 = (fifoCall m queue c).2 ∧ Queues m (jb.call c).1 (fifoCall m queue c).1 := by
  cases c with
  | push frame seq =>
    by_cases hroom : queue.length < m
    · obtain ⟨hnext, hret⟩ := h.push hroom (hshort hroom) frame seq
      have hfifo : fifoCall m queue (.push frame seq) = (queue ++ [frame], [.pushed 0]) := if_pos hroom
      rw [hfifo]
      exact ⟨congrArg (fun ret => [JitterReturn.pushed ret]) hret, hnext⟩
    · have hfifo : fifoCall m queue (.push frame seq) = (queue, [.pushed (-1)]) := if_neg hroom
      have hfull := h.full hroom frame seq
      rw [hfifo]
      constructor
      · show [JitterReturn.pushed (aeJitterPush jb frame seq).2] = _
        rw [hfull]
      · show Queues m (aeJitterPush jb frame seq).1 queue
        rw [hfull]
        exact h
  | pop =>
    obtain ⟨hnext, hret, -⟩ := h.pop
    exact ⟨congrArg (fun frame => [JitterReturn.popped frame]) hret, hnext⟩
  | reset => exact ⟨rfl, h.reset⟩

theorem queues_create {targetDepth minDepth maxDepth : Int}
    (h : (aeJitterCreate targetDepth minDepth maxDepth).maxDepth = m) :
    Queues m (aeJitterCreate targetDepth minDepth maxDepth) [] :=
  ⟨h, rfl, Nat.zero_le m, rfl, fun _ hi => absurd hi (Nat.not_lt_zero _), rfl⟩

theorem Queues.level (h : Queues m jb queue) : aeJitterLevel jb = queue.length := by
  unfold aeJitterLevel
  rw [h.fill]
  split <;> omega

/-- A queue of at most 46 frames never has two of them in one slot. -/
theorem goodDepth_of_le (h46 : m ≤ 46) : GoodDepth m := by
  intro targetDepth minDepth maxDepth jb hmax calls
  have hcond : Machine.Along (fifoCall m) (fun queue _ => queue.length < m → queue.length < 46) []
      calls := Machine.along_of_forall (fun _ _ hroom => by omega) calls
  obtain ⟨hout, hrun⟩ : Machine.outputs Jitter.call jb calls = Machine.outputs (fifoCall m) [] calls ∧
      Queues m (Machine.run Jitter.call jb calls) (Machine.run (fifoCall m) [] calls) :=
    Machine.simulates (fun _ _ c hq hshort => hq.call c hshort) (queues_create hmax) hcond
  refine ⟨hout, hrun.level, hrun.calm, fun hcatch => ?_⟩
  have hroom := hrun.room
  have hlevel := hcatch.2
  rw [hrun.fill, hrun.max] at hlevel
  omega

/-! ### The wrap -/

def silentFrame : Pcm := fun _ => 0
def loudFrame : Pcm := fun _ => 1

/-- So many times, a frame is pushed and popped. -/
def cycles : Nat → List JitterCall
  | 0 => []
  | n + 1 => .push silentFrame 0 :: .pop :: cycles n

theorem readPos_push (jb : Jitter) (frame : Pcm) (seq : BitVec 32) :
    (aeJitterPush jb frame seq).1.readPos = jb.readPos := by
  unfold aeJitterPush
  split <;> rfl

theorem queues_cycles (h : Queues m jb []) (hm : 0 < m) (n : Nat) :
    Queues m (Machine.run Jitter.call jb (cycles n)) [] ∧
      (Machine.run Jitter.call jb (cycles n)).readPos = jb.readPos + BitVec.ofNat 32 n ∧
      Machine.run (fifoCall m) [] (cycles n) = [] := by
  induction n generalizing jb with
  | zero => exact ⟨h, (BitVec.add_zero _).symm, rfl⟩
  | succ n ih =>
    obtain ⟨hpush, -⟩ := h.push hm (by decide) silentFrame 0
    obtain ⟨hpop, -, hread⟩ := hpush.pop
    obtain ⟨hq, hpos, hfifo⟩ := ih hpop
    have hone : (fifoCall m [] (.push silentFrame 0)).1 = [silentFrame] := congrArg Prod.fst (if_pos hm)
    refine ⟨hq, hpos.trans ?_, ?_⟩
    · rw [hread, readPos_push, Nat.add_comm, BitVec.ofNat_add, ← BitVec.add_assoc]
      rfl
    · show Machine.run (fifoCall m) (fifoCall m [] (.push silentFrame 0)).1.tail (cycles n) = []
      rw [hone]
      exact hfifo

/-- A frame is pushed so many times. -/
def pushes (frame : Pcm) : Nat → List JitterCall
  | 0 => []
  | n + 1 => .push frame 0 :: pushes frame n

theorem queues_pushes (h : Queues m jb queue) (frame : Pcm) {n : Nat} (hm : queue.length + n ≤ m)
    (h46 : queue.length + n ≤ 46) :
    Queues m (Machine.run Jitter.call jb (pushes frame n)) (queue ++ List.replicate n frame) ∧
      (Machine.run Jitter.call jb (pushes frame n)).readPos = jb.readPos ∧
      Machine.run (fifoCall m) queue (pushes frame n) = queue ++ List.replicate n frame := by
  induction n generalizing jb queue with
  | zero =>
    rw [List.replicate_zero, List.append_nil]
    exact ⟨h, rfl, rfl⟩
  | succ n ih =>
    obtain ⟨hpush, -⟩ := h.push (by omega) (by omega) frame 0
    obtain ⟨hq, hpos, hfifo⟩ := ih hpush (by simp; omega) (by simp; omega)
    have hone : (fifoCall m queue (.push frame 0)).1 = queue ++ [frame] :=
      congrArg Prod.fst (if_pos (show queue.length < m by omega))
    rw [List.append_assoc] at hq hfifo
    refine ⟨hq, hpos.trans (readPos_push jb frame 0), ?_⟩
    show Machine.run (fifoCall m) (fifoCall m queue (.push frame 0)).1 (pushes frame n) = _
    rw [hone]
    exact hfifo

/-- The 47th frame from 46 positions before the wrap is stored over the first. -/
theorem pop_wrapped (h : Queues m jb queue) (hm : 46 < m) (hlen : queue.length = 46)
    (hpos : jb.readPos = 0xFFFFFFD2) (frame : Pcm) :
    (aeJitterPop (aeJitterPush jb frame 0).1).2 = some frame := by
  have hslot : jitterSlot jb.readPos = jitterSlot jb.writePos := by
    rw [h.write, hlen, hpos]
    decide
  have hpush : (aeJitterPush jb frame 0).1.frames (jitterSlot jb.readPos) = frame := by
    unfold aeJitterPush
    rw [if_neg (by rw [h.max, h.fill]; omega), hslot]
    exact Function.update_self ..
  have hfill : ¬ (aeJitterPush jb frame 0).1.fillLevel ≤ 0 := by
    unfold aeJitterPush
    rw [if_neg (by rw [h.max, h.fill]; omega)]
    show ¬ jb.fillLevel + 1 ≤ 0
    rw [h.fill]
    omega
  have hcalm : (aeJitterPush jb frame 0).1.crossfadePending = false := by
    unfold aeJitterPush
    split
    · exact h.calm
    · exact h.calm
  unfold aeJitterPop
  rw [if_neg hfill, hcalm, readPos_push, hpush]
  rfl

/-- A buffer that behaves as a queue does so from any state it comes to. -/
theorem BehavesAsFifo.after (h : BehavesAsFifo m jb) (before after : List JitterCall) :
    Machine.outputs Jitter.call (Machine.run Jitter.call jb before) after =
      Machine.outputs (fifoCall m) (Machine.run (fifoCall m) [] before) after := by
  have hwhole := (h (before ++ after)).1
  rw [Machine.outputs_append, Machine.outputs_append, (h before).1] at hwhole
  exact List.append_cancel_left hwhole

/-- So many frames are pushed and popped, then a loud frame and 45 silent ones are pushed. -/
def wrapping (n : Nat) : List JitterCall := cycles n ++ (pushes loudFrame 1 ++ pushes silentFrame 45)

theorem queues_wrapping (h : Queues m jb []) (hm : 46 < m) (n : Nat) :
    Queues m (Machine.run Jitter.call jb (wrapping n)) (loudFrame :: List.replicate 45 silentFrame) ∧
      (Machine.run Jitter.call jb (wrapping n)).readPos = jb.readPos + BitVec.ofNat 32 n ∧
      Machine.run (fifoCall m) [] (wrapping n) = loudFrame :: List.replicate 45 silentFrame := by
  obtain ⟨hq₀, hpos₀, hfifo₀⟩ := queues_cycles h (by omega) n
  obtain ⟨hq₁, hpos₁, hfifo₁⟩ := queues_pushes hq₀ loudFrame (n := 1) (by simp; omega) (by simp)
  obtain ⟨hq₂, hpos₂, hfifo₂⟩ := queues_pushes hq₁ silentFrame (n := 45) (by simp; omega) (by simp)
  unfold wrapping
  rw [Machine.run_append, Machine.run_append, Machine.run_append, Machine.run_append, hfifo₀, hfifo₁]
  exact ⟨hq₂, (hpos₂.trans hpos₁).trans hpos₀, hfifo₂⟩

theorem maxDepth_create (h1 : 1 ≤ m) (h50 : m ≤ 50) (targetDepth minDepth : Int) :
    (aeJitterCreate targetDepth minDepth m).maxDepth = m := by
  unfold aeJitterCreate aeJitterMaxCapacity
  dsimp only
  rw [if_neg (show ¬ (m : Int) ≤ 0 by omega), if_neg (by omega)]

/-- More than 46 frames share a slot once the positions wrap. -/
theorem not_goodDepth (h46 : 46 < m) (h50 : m ≤ 50) : ¬ GoodDepth m := by
  intro hgood
  have hmax : (aeJitterCreate 0 0 m).maxDepth = m := maxDepth_create (by omega) h50 0 0
  obtain ⟨n, hn⟩ : ∃ n, BitVec.ofNat 32 n = 0xFFFFFFD2 :=
    ⟨_, (BitVec.ofNat_toNat 32 0xFFFFFFD2).trans (BitVec.setWidth_eq _)⟩
  obtain ⟨hq, hpos, hfifo⟩ := queues_wrapping (queues_create hmax) h46 n
  have hread : (aeJitterCreate 0 0 m).readPos + BitVec.ofNat 32 n = 0xFFFFFFD2 := by
    rw [hn]
    exact BitVec.zero_add _
  have hout := (hgood 0 0 m hmax).after (wrapping n) [.push silentFrame 0, .pop]
  rw [hfifo] at hout
  generalize Machine.run Jitter.call (aeJitterCreate 0 0 m) (wrapping n) = jb at hq hpos hout
  have hpop := pop_wrapped hq h46 rfl (hpos.trans hread) silentFrame
  have hroom : fifoCall m (loudFrame :: List.replicate 45 silentFrame) (.push silentFrame 0) =
      (loudFrame :: List.replicate 45 silentFrame ++ [silentFrame], [.pushed 0]) := if_pos h46
  have hlast : JitterReturn.popped (aeJitterPop (aeJitterPush jb silentFrame 0).1).2 =
      .popped (some loudFrame) := by
    have := congrArg List.getLast? hout
    simp only [Machine.outputs, hroom] at this
    exact Option.some.inj this
  rw [hpop] at hlast
  have hsample : (0 : ℚ) = 1 :=
    congrFun (Option.some.inj (JitterReturn.popped.inj hlast)) ⟨0, by decide⟩
  exact absurd hsample (by decide)

/-- **Depths.** Of the maximal depths that a buffer can be created with, exactly those of at
most 46 frames make it a queue. -/
theorem goodDepth_iff (h1 : 1 ≤ m) (h50 : m ≤ 50) :
    (∃ targetDepth minDepth maxDepth, (aeJitterCreate targetDepth minDepth maxDepth).maxDepth = m) ∧
      (GoodDepth m ↔ m ≤ 46) := by
  refine ⟨⟨0, 0, m, maxDepth_create h1 h50 0 0⟩, fun hgood => ?_, goodDepth_of_le⟩
  exact Nat.le_of_not_lt fun h46 => not_goodDepth h46 h50 hgood

/-- The engine's buffers are queues of 10 frames. -/
theorem goodDepth_engine : GoodDepth 10 ∧
    ∀ targetDepth, (aeJitterCreate targetDepth 2 aeJitterBufFrames).maxDepth = (10 : Nat) :=
  ⟨(goodDepth_iff (by decide) (by decide)).2.mpr (by decide), fun _ => rfl⟩

end AudioPlatform.Core
