import Mathlib.Data.Fintype.Basic
import Mathlib.Data.List.Infix
import AudioPlatform.Concurrency.Interleaving
import AudioPlatform.Core.RingBuffer

/-! The ring of frames between two threads.

One producer writes and one consumer reads, and each load, each copy of a frame and
each store of a position is an action of its own. A write publishes its frames with
the store of the write position, a read gives its slots back with the store of the
read position; in between each party relies on a position of the other that may be
stale. Beside the ring the state keeps the history: what was copied in, accepted,
copied out and returned, and which frame each slot was last given. -/
namespace AudioPlatform.Core.SharedRing
open Concurrency

variable {Sample : Type} {channels : Nat}

/-! ### The shared state -/

inductive Party where
  | producer
  | consumer
  deriving DecidableEq

structure Shared (Sample : Type) (channels : Nat) where
  buffer : Nat → Sample
  writePos : BitVec 32
  readPos : BitVec 32
  /-- The frames of the completed writes and those that are being written. -/
  copied : List (Fin channels → Sample) := []
  accepted : List (Fin channels → Sample) := []
  /-- The frames of the completed reads and those that are being read. -/
  taken : List (Fin channels → Sample) := []
  returned : List (Fin channels → Sample) := []
  /-- The number of the frame that was last copied to a slot. -/
  holds : Nat → Option Nat := fun _ => none
  /-- The frames that were unread when a party last loaded the position of the other. -/
  seen : Party → Nat := fun _ => 0
  /-- A frame was copied over one that had not been read. -/
  overwrote : Bool := false
  /-- A frame was read from a slot that did not hold it. -/
  misread : Bool := false

inductive RingOp (Sample : Type) (channels : Nat) where
  | loadWritePos
  | loadReadPos
  | copyIn (idx : BitVec 32) (frame : Fin channels → Sample)
  | copyOut (idx : BitVec 32)
  | storeWritePos (pos : BitVec 32) (frames : List (Fin channels → Sample))
  | storeReadPos (pos : BitVec 32) (frames : List (Fin channels → Sample))

abbrev RingOp.Result : RingOp Sample channels → Type
  | .loadWritePos => BitVec 32
  | .loadReadPos => BitVec 32
  | .copyIn .. => Unit
  | .copyOut _ => Fin channels → Sample
  | .storeWritePos .. => Unit
  | .storeReadPos .. => Unit

/-- `idx * stride`, unsigned. -/
def slotStart (channels : Nat) (idx : BitVec 32) : Nat := (idx * BitVec.ofNat 32 channels).toNat

/-- The frame whose first sample is at `start`. -/
def frameAt (buffer : Nat → Sample) (start : Nat) : Fin channels → Sample :=
  fun i => buffer (start + i)

/-- The buffer with a frame copied to `start`. -/
def copyFrame (buffer : Nat → Sample) (start : Nat) (frame : Fin channels → Sample) :
    Nat → Sample :=
  fun i => if h : start ≤ i ∧ i - start < channels then frame ⟨i - start, h.2⟩ else buffer i

/-- The frames that were published and are not yet given back. -/
def Shared.unread (s : Shared Sample channels) : Nat := s.accepted.length - s.returned.length

def effect (p : Party) :
    Program.Effect (RingOp Sample channels) RingOp.Result (Shared Sample channels)
  | .loadWritePos, s =>
    some (s.writePos,
      if p = .consumer then { s with seen := Function.update s.seen .consumer s.unread } else s)
  | .loadReadPos, s =>
    some (s.readPos,
      if p = .producer then { s with seen := Function.update s.seen .producer s.unread } else s)
  | .copyIn idx frame, s =>
    some ((), { s with
      buffer := copyFrame s.buffer (slotStart channels idx) frame
      copied := s.copied ++ [frame]
      holds := Function.update s.holds idx.toNat (some s.copied.length)
      overwrote := s.overwrote || (s.holds idx.toNat).any fun n => s.taken.length ≤ n })
  | .copyOut idx, s =>
    let frame := frameAt s.buffer (slotStart channels idx)
    some (frame, { s with
      taken := s.taken ++ [frame]
      misread := s.misread || s.holds idx.toNat != some s.taken.length })
  | .storeWritePos pos frames, s =>
    some ((), { s with writePos := pos, accepted := s.accepted ++ frames })
  | .storeReadPos pos frames, s =>
    some ((), { s with readPos := pos, returned := s.returned ++ frames })

/-! ### The calls -/

abbrev RingProgram (Sample : Type) (channels : Nat) (α : Type) : Type :=
  Program (RingOp Sample channels) RingOp.Result α

abbrev perform (o : RingOp Sample channels) : RingProgram Sample channels o.Result :=
  Program.perform o

section Calls
variable (rb : RingBuffer (Fin channels → Sample))

def aeRingbufAvailable : RingProgram Sample channels Nat := do
  let w ← perform .loadWritePos
  let r ← perform .loadReadPos
  return ((w - r) &&& rb.mask).toNat

/-- One slot is reserved. -/
def aeRingbufFreeSpace : RingProgram Sample channels Nat := do
  let available ← aeRingbufAvailable rb
  return rb.capacity - 1 - available

/-- Copies the frames in, the first to the slot of position `w + i`. -/
def copyAllIn (w : BitVec 32) :
    Nat → List (Fin channels → Sample) → RingProgram Sample channels Unit
  | _, [] => .done ()
  | i, frame :: rest => do
    perform (.copyIn ((w + BitVec.ofNat 32 i) &&& rb.mask) frame)
    copyAllIn w (i + 1) rest

/-- Copies so many frames out, the first from the slot of position `r + i`. -/
def copyAllOut (r : BitVec 32) :
    Nat → Nat → RingProgram Sample channels (List (Fin channels → Sample))
  | _, 0 => .done []
  | i, frames + 1 => do
    let frame ← perform (.copyOut ((r + BitVec.ofNat 32 i) &&& rb.mask))
    let rest ← copyAllOut r (i + 1) frames
    return frame :: rest

/-- Returns the number of frames written. -/
def aeRingbufWrite (data : List (Fin channels → Sample)) : RingProgram Sample channels Nat :=
  if data.length = 0 then .done 0
  else do
    let avail ← aeRingbufFreeSpace rb
    let frames := if avail < data.length then avail else data.length
    if frames = 0 then
      return 0
    let w ← perform .loadWritePos
    copyAllIn rb w 0 (data.take frames)
    perform (.storeWritePos ((w + BitVec.ofNat 32 frames) &&& rb.mask) (data.take frames))
    return frames

/-- Returns the frames read. -/
def aeRingbufRead (frames : Nat) : RingProgram Sample channels (List (Fin channels → Sample)) :=
  if frames = 0 then .done []
  else do
    let avail ← aeRingbufAvailable rb
    let frames := if avail < frames then avail else frames
    if frames = 0 then
      return []
    let r ← perform .loadReadPos
    let data ← copyAllOut rb r 0 frames
    perform (.storeReadPos ((r + BitVec.ofNat 32 frames) &&& rb.mask) data)
    return data

end Calls

inductive RingPhase (Sample : Type) (channels : Nat) where
  | fresh
  | wrote (data : List (Fin channels → Sample)) (frames : Nat)
  | read (frames : Nat) (data : List (Fin channels → Sample))

/-- The producer writes whatever it likes, and the consumer reads as much as it likes. -/
inductive Starts (rb : RingBuffer (Fin channels → Sample)) :
    Party → RingProgram Sample channels (RingPhase Sample channels) → Prop where
  | write (data : List (Fin channels → Sample)) :
    Starts rb .producer (aeRingbufWrite rb data >>= fun frames => .done (.wrote data frames))
  | read (frames : Nat) :
    Starts rb .consumer (aeRingbufRead rb frames >>= fun data => .done (.read frames data))

def ringSystem (rb : RingBuffer (Fin channels → Sample)) :
    System Party (RingOp Sample channels) RingOp.Result (RingPhase Sample channels)
      (Shared Sample channels) where
  exec p o s r s' := effect p o s = some (r, s')
  starts p _ program := Starts rb p program

/-- The ring as it was created, and nothing under way. -/
def created [Zero Sample] (rb : RingBuffer (Fin channels → Sample)) :
    Config Party (RingOp Sample channels) RingOp.Result (RingPhase Sample channels)
      (Shared Sample channels) where
  shared := { buffer := fun _ => 0, writePos := rb.writePos, readPos := rb.readPos }
  tasks _ := .done .fresh

/-! ### Slots and positions -/

section Slots
variable (rb : RingBuffer (Fin channels → Sample))

/-- The product does not wrap. -/
theorem slotStart_eq (hfits : rb.capacity * channels < 2 ^ 31) {idx : BitVec 32}
    (hidx : idx.toNat < rb.capacity) : slotStart channels idx = idx.toNat * channels := by
  have hone : channels ≤ rb.capacity * channels :=
    Nat.le_mul_of_pos_left channels (lt_of_le_of_lt (Nat.zero_le _) hidx)
  have hprod : idx.toNat * channels ≤ rb.capacity * channels := Nat.mul_le_mul_right _ hidx.le
  unfold slotStart
  rw [BitVec.toNat_mul, BitVec.toNat_ofNat, Nat.mod_eq_of_lt (show channels < 2 ^ 32 by omega)]
  exact Nat.mod_eq_of_lt (by omega)

theorem frameAt_copyFrame_self (buffer : Nat → Sample) (start : Nat)
    (frame : Fin channels → Sample) : frameAt (copyFrame buffer start frame) start = frame := by
  funext i
  have hin : start ≤ start + i.val ∧ start + i.val - start < channels := by omega
  unfold frameAt copyFrame
  rw [dif_pos hin]
  exact congrArg frame (Fin.ext (by simp))

/-- Slots do not overlap. -/
theorem frameAt_copyFrame_of_ne (buffer : Nat → Sample) {i j : Nat} (h : i ≠ j)
    (frame : Fin channels → Sample) :
    (frameAt (copyFrame buffer (j * channels) frame) (i * channels) : Fin channels → Sample) =
      frameAt buffer (i * channels) := by
  funext k
  have hout : ¬ (j * channels ≤ i * channels + k.val ∧
      i * channels + k.val - j * channels < channels) := by
    rintro ⟨hlo, hhi⟩
    rcases Nat.lt_or_gt_of_ne h with hlt | hgt
    · have := Nat.mul_le_mul_right channels (Nat.succ_le_of_lt hlt)
      rw [Nat.succ_mul] at this
      omega
    · have := Nat.mul_le_mul_right channels (Nat.succ_le_of_lt hgt)
      rw [Nat.succ_mul] at this
      omega
  unfold frameAt copyFrame
  rw [dif_neg hout]

/-- The masked difference of two positions is that of what they count. -/
theorem masked_sub {w r : BitVec 32} {a b : Nat} (hw : w.toNat = a % rb.capacity)
    (hr : r.toNat = b % rb.capacity) (hba : b ≤ a) (hab : a < b + rb.capacity) :
    ((w - r) &&& rb.mask).toNat = a - b := by
  have hpos : 0 < rb.capacity := lt_of_le_of_lt (Nat.zero_le _) rb.readPos_lt
  let at' : RingBuffer (Fin channels → Sample) :=
    { rb with
      writePos := w
      readPos := r
      writePos_lt := hw ▸ Nat.mod_lt _ hpos
      readPos_lt := hr ▸ Nat.mod_lt _ hpos }
  have hadv : w.toNat = (r.toNat + ((w - r) &&& rb.mask).toNat) % rb.capacity := at'.writePos_eq
  rw [hw, hr, Nat.mod_add_mod] at hadv
  apply (rb.advance_inj (a := b) (rb.and_mask_lt _) (by omega)).mp
  rw [← hadv, Nat.add_sub_cancel' hba]

/-- The slot of a frame that follows another by less than a turn is another slot. -/
theorem slot_ne {i j : Nat} (hij : i < j) (hturn : j < i + rb.capacity) :
    i % rb.capacity ≠ j % rb.capacity := by
  intro h
  have := (rb.advance_inj (a := i) (i := 0) (j := j - i) (by omega) (by omega)).mp (by
    rw [Nat.add_zero, Nat.add_sub_cancel' hij.le]
    exact h)
  omega

end Slots

/-! ### The invariant -/

/-- Frames are copied in, accepted, copied out and returned in one order; the positions count
what was accepted and returned, and the frames that are not yet given back are in their slots. -/
structure Sound (rb : RingBuffer (Fin channels → Sample)) (s : Shared Sample channels) : Prop where
  accepted : s.accepted <+: s.copied
  taken : s.taken <+: s.accepted
  returned : s.returned <+: s.taken
  room : s.copied.length < s.returned.length + rb.capacity
  write : s.writePos.toNat = s.accepted.length % rb.capacity
  read : s.readPos.toNat = s.returned.length % rb.capacity
  slots : ∀ j (h : j < s.copied.length), s.returned.length ≤ j →
    s.holds (j % rb.capacity) = some j ∧ frameAt s.buffer (j % rb.capacity * channels) = s.copied[j]
  held : ∀ i j, s.holds i = some j → j < s.copied.length ∧ j % rb.capacity = i
  overwrote : s.overwrote = false
  misread : s.misread = false

/-- What an action of the producer leaves to the consumer. -/
structure KeepsReader (s s' : Shared Sample channels) : Prop where
  readPos : s'.readPos = s.readPos
  taken : s'.taken = s.taken
  returned : s'.returned = s.returned
  accepted : s.accepted <+: s'.accepted
  seen : s'.seen .consumer = s.seen .consumer

/-- What an action of the consumer leaves to the producer. -/
structure KeepsWriter (s s' : Shared Sample channels) : Prop where
  writePos : s'.writePos = s.writePos
  copied : s'.copied = s.copied
  accepted : s'.accepted = s.accepted
  returned : s.returned <+: s'.returned
  seen : s'.seen .producer = s.seen .producer

theorem KeepsReader.refl (s : Shared Sample channels) : KeepsReader s s :=
  ⟨rfl, rfl, rfl, List.prefix_refl _, rfl⟩

theorem KeepsWriter.refl (s : Shared Sample channels) : KeepsWriter s s :=
  ⟨rfl, rfl, rfl, List.prefix_refl _, rfl⟩

theorem KeepsReader.trans {s s' s'' : Shared Sample channels} (h : KeepsReader s s')
    (h' : KeepsReader s' s'') : KeepsReader s s'' :=
  ⟨h'.readPos.trans h.readPos, h'.taken.trans h.taken, h'.returned.trans h.returned,
    h.accepted.trans h'.accepted, h'.seen.trans h.seen⟩

theorem KeepsWriter.trans {s s' s'' : Shared Sample channels} (h : KeepsWriter s s')
    (h' : KeepsWriter s' s'') : KeepsWriter s s'' :=
  ⟨h'.writePos.trans h.writePos, h'.copied.trans h.copied, h'.accepted.trans h.accepted,
    h.returned.trans h'.returned, h'.seen.trans h.seen⟩

section Invariant
variable {rb : RingBuffer (Fin channels → Sample)} {s s' : Shared Sample channels}

theorem Sound.returned_le (h : Sound rb s) : s.returned.length ≤ s.accepted.length :=
  (h.returned.trans h.taken).length_le

/-- Counting does not touch the ring. -/
theorem Sound.see (h : Sound rb s) (seen : Party → Nat) : Sound rb { s with seen := seen } :=
  ⟨h.accepted, h.taken, h.returned, h.room, h.write, h.read, h.slots, h.held, h.overwrote,
    h.misread⟩

/-! ### Writing -/

/-- The producer has copied in the frames `part` of `data`, from position `w` on; when it
loaded the read position, `seen` frames were unread. -/
structure Writing (rb : RingBuffer (Fin channels → Sample)) (seen : Nat) (w : BitVec 32)
    (data part : List (Fin channels → Sample)) (s : Shared Sample channels) : Prop where
  copied : s.copied = s.accepted ++ part
  position : w.toNat = s.accepted.length % rb.capacity
  room : s.accepted.length + data.length < s.returned.length + rb.capacity
  seen : s.seen .producer = seen

variable {seen n : Nat} {w r : BitVec 32} {data part out : List (Fin channels → Sample)}
  {frame : Fin channels → Sample} {ret : Unit}

theorem Writing.stable (h : Writing rb seen w data part s) (hk : KeepsWriter s s') :
    Writing rb seen w data part s' where
  copied := by rw [hk.copied, hk.accepted, h.copied]
  position := by rw [hk.accepted, h.position]
  room := by
    have := hk.returned.length_le
    rw [hk.accepted]
    exact lt_of_lt_of_le h.room (Nat.add_le_add_right this _)
  seen := hk.seen.trans h.seen

/-- **A frame is copied in** over one that has been read. -/
theorem Sound.copyIn (h : Sound rb s) (hfits : rb.capacity * channels < 2 ^ 31)
    (hw : Writing rb seen w data part s) (hpart : part.length < data.length)
    (he : effect .producer (.copyIn ((w + BitVec.ofNat 32 part.length) &&& rb.mask) frame) s =
      some (ret, s')) :
    Sound rb s' ∧ KeepsReader s s' ∧ Writing rb seen w data (part ++ [frame]) s' := by
  cases he
  have hlen : s.copied.length = s.accepted.length + part.length := by
    rw [hw.copied, List.length_append]
  have hnext : s.copied.length + 1 < s.returned.length + rb.capacity := by
    have := hw.room
    omega
  have hidx : ((w + BitVec.ofNat 32 part.length) &&& rb.mask).toNat =
      s.copied.length % rb.capacity := by
    rw [rb.advance, hw.position, Nat.mod_add_mod, hlen]
  have hstart := slotStart_eq rb hfits (rb.and_mask_lt (w + BitVec.ofNat 32 part.length))
  rw [hidx] at hstart
  have hother : ∀ j, j < s.copied.length → s.returned.length ≤ j →
      j % rb.capacity ≠ s.copied.length % rb.capacity := fun j hj hr => slot_ne rb hj (by omega)
  refine ⟨⟨h.accepted.trans (List.prefix_append _ _), h.taken, h.returned, ?_, h.write, h.read, ?_,
    ?_, ?_, h.misread⟩, ⟨rfl, rfl, rfl, List.prefix_refl _, rfl⟩,
    ⟨?_, hw.position, hw.room, hw.seen⟩⟩
  · rw [List.length_append]
    exact hnext
  · intro j hj hr
    rw [List.length_append, List.length_singleton] at hj
    dsimp only
    rw [hstart, hidx]
    by_cases hlast : j = s.copied.length
    · subst hlast
      refine ⟨Function.update_self .., ?_⟩
      rw [frameAt_copyFrame_self, List.getElem_append_right (Nat.le_refl _)]
      simp
    · have hold : j < s.copied.length := by omega
      obtain ⟨hheld, hframe⟩ := h.slots j hold hr
      refine ⟨by rw [Function.update_of_ne (hother j hold hr), hheld], ?_⟩
      rw [frameAt_copyFrame_of_ne _ (hother j hold hr), hframe, List.getElem_append_left hold]
  · intro i j hij
    dsimp only at hij
    rw [hidx] at hij
    rw [List.length_append]
    by_cases hi : i = s.copied.length % rb.capacity
    · rw [hi, Function.update_self] at hij
      cases hij
      exact ⟨Nat.lt_succ_self _, hi.symm⟩
    · rw [Function.update_of_ne hi] at hij
      exact ⟨Nat.lt_succ_of_lt (h.held i j hij).1, (h.held i j hij).2⟩
  · -- what the slot held has been given back
    dsimp only
    rw [h.overwrote, Bool.false_or, hidx]
    cases hheld : s.holds (s.copied.length % rb.capacity) with
    | none => rfl
    | some j =>
      obtain ⟨hj, hslot⟩ := h.held _ _ hheld
      have hback : j < s.returned.length := by
        by_contra hr
        exact hother j hj (Nat.le_of_not_lt hr) hslot
      have htaken := h.returned.length_le
      simp only [Option.any_some, decide_eq_false_iff_not]
      omega
  · dsimp only
    rw [hw.copied, List.append_assoc]

/-- **The frames are published** once all of them are in. -/
theorem Sound.storeWritePos (h : Sound rb s) (hw : Writing rb seen w data data s)
    (hn : data.length = n)
    (he : effect .producer (.storeWritePos ((w + BitVec.ofNat 32 n) &&& rb.mask) data) s =
      some (ret, s')) :
    Sound rb s' ∧ KeepsReader s s' ∧ s'.copied = s'.accepted ∧ s'.accepted = s.accepted ++ data ∧
      s'.seen .producer = seen := by
  subst hn
  cases he
  have hkeep : s.accepted <+: s.accepted ++ data := List.prefix_append _ _
  refine ⟨⟨?_, h.taken.trans hkeep, h.returned, h.room, ?_, h.read, h.slots, h.held, h.overwrote,
    h.misread⟩, ⟨rfl, rfl, rfl, hkeep, rfl⟩, hw.copied, rfl, hw.seen⟩
  · exact hw.copied ▸ List.prefix_refl _
  · dsimp only
    rw [rb.advance, hw.position, Nat.mod_add_mod, List.length_append]

/-! ### Reading -/

/-- The consumer has copied out the frames `out` of the `n` it reads, from position `r` on; when
it loaded the write position, `seen` frames were unread. -/
structure Reading (rb : RingBuffer (Fin channels → Sample)) (seen : Nat) (r : BitVec 32) (n : Nat)
    (out : List (Fin channels → Sample)) (s : Shared Sample channels) : Prop where
  taken : s.taken = s.returned ++ out
  position : r.toNat = s.returned.length % rb.capacity
  present : s.returned.length + n ≤ s.accepted.length
  seen : s.seen .consumer = seen

theorem Reading.stable (h : Reading rb seen r n out s) (hk : KeepsReader s s') :
    Reading rb seen r n out s' where
  taken := by rw [hk.taken, hk.returned, h.taken]
  position := by rw [hk.returned, h.position]
  present := by
    rw [hk.returned]
    exact h.present.trans hk.accepted.length_le
  seen := hk.seen.trans h.seen

/-- **A frame is copied out** of the slot that holds it. -/
theorem Sound.copyOut (h : Sound rb s) (hfits : rb.capacity * channels < 2 ^ 31)
    (hr : Reading rb seen r n out s) (hout : out.length < n)
    (he : effect .consumer (.copyOut ((r + BitVec.ofNat 32 out.length) &&& rb.mask)) s =
      some (frame, s')) :
    Sound rb s' ∧ KeepsWriter s s' ∧ Reading rb seen r n (out ++ [frame]) s' := by
  have hlen : s.taken.length = s.returned.length + out.length := by
    rw [hr.taken, List.length_append]
  have hidx : ((r + BitVec.ofNat 32 out.length) &&& rb.mask).toNat =
      s.taken.length % rb.capacity := by
    rw [rb.advance, hr.position, Nat.mod_add_mod, hlen]
  have hstart := slotStart_eq rb hfits (rb.and_mask_lt (r + BitVec.ofNat 32 out.length))
  rw [hidx] at hstart
  have hpresent := hr.present
  have hnext : s.taken.length < s.accepted.length := by omega
  have hcopied : s.taken.length < s.copied.length := lt_of_lt_of_le hnext h.accepted.length_le
  obtain ⟨hheld, hframe⟩ := h.slots s.taken.length hcopied (by omega)
  have hsame : s.accepted[s.taken.length] =
      frameAt s.buffer (slotStart channels ((r + BitVec.ofNat 32 out.length) &&& rb.mask)) := by
    rw [hstart, hframe, h.accepted.getElem hnext]
  unfold effect at he
  dsimp only at he
  rw [← hsame, hidx, hheld] at he
  cases he
  refine ⟨⟨h.accepted, ?_, ?_, h.room, h.write, h.read, h.slots, h.held, h.overwrote, ?_⟩,
    ⟨rfl, rfl, rfl, List.prefix_refl _, rfl⟩, ⟨?_, hr.position, hr.present, hr.seen⟩⟩
  · exact List.concat_get_prefix h.taken hnext
  · exact h.returned.trans (List.prefix_append _ _)
  · dsimp only
    rw [h.misread, bne_self_eq_false, Bool.or_false]
  · dsimp only
    rw [← List.append_assoc, ← hr.taken]

/-- **The slots are given back** once all their frames are out. -/
theorem Sound.storeReadPos (h : Sound rb s) (hr : Reading rb seen r n out s)
    (hn : out.length = n)
    (he : effect .consumer (.storeReadPos ((r + BitVec.ofNat 32 n) &&& rb.mask) out) s =
      some (ret, s')) :
    Sound rb s' ∧ KeepsWriter s s' ∧ s'.taken = s'.returned ∧ s'.returned = s.returned ++ out ∧
      s'.seen .consumer = seen := by
  subst hn
  cases he
  have hkeep : s.returned <+: s.returned ++ out := List.prefix_append _ _
  refine ⟨⟨h.accepted, h.taken, ?_, ?_, h.write, ?_, ?_, h.held, h.overwrote, h.misread⟩,
    ⟨rfl, rfl, rfl, hkeep, rfl⟩, hr.taken, rfl, hr.seen⟩
  · exact hr.taken ▸ List.prefix_refl _
  · exact lt_of_lt_of_le h.room (Nat.add_le_add_right hkeep.length_le _)
  · dsimp only
    rw [rb.advance, hr.position, Nat.mod_add_mod, List.length_append]
  · exact fun j hj hback => h.slots j hj (hkeep.length_le.trans hback)

end Invariant

/-! ### Every interleaving -/

/-- What the return of a call says. -/
def Returns (rb : RingBuffer (Fin channels → Sample)) (s : Shared Sample channels) :
    RingPhase Sample channels → Prop
  | .fresh => True
  | .wrote data frames =>
    frames = min data.length (rb.capacity - 1 - s.seen .producer) ∧ data.take frames <:+ s.accepted
  | .read frames data => data.length = min frames (s.seen .consumer) ∧ data <:+ s.returned

/-- Each party keeps the invariant and what the other one relies on. -/
def ringOutline (rb : RingBuffer (Fin channels → Sample)) :
    Outline Party (RingPhase Sample channels) (Shared Sample channels) Unit where
  rely
    | .producer => KeepsWriter
    | .consumer => KeepsReader
  guar
    | .producer, _, s, _, s' => Sound rb s' ∧ KeepsReader s s'
    | .consumer, _, s, _, s' => Sound rb s' ∧ KeepsWriter s s'
  rest
    | .producer, φ, _, s => s.copied = s.accepted ∧ ∀ data n, φ = .wrote data n → Returns rb s φ
    | .consumer, φ, _, s => s.taken = s.returned ∧ ∀ n data, φ = .read n data → Returns rb s φ
  common _ s := Sound rb s
  inv := Sound rb
  rely_refl
    | .producer => KeepsWriter.refl
    | .consumer => KeepsReader.refl
  rely_trans
    | .producer => fun _ _ _ => KeepsWriter.trans
    | .consumer => fun _ _ _ => KeepsReader.trans
  common_inv _ _ h := h

section Outline
variable {rb : RingBuffer (Fin channels → Sample)} {s s' : Shared Sample channels}
  {w r : BitVec 32} {data part : List (Fin channels → Sample)} {seen : Nat}

theorem guar_inv (p : Party) (γ : Unit) (s : Shared Sample channels) (γ' : Unit)
    (s' : Shared Sample channels) (_ : Sound rb s) (h : (ringOutline rb).guar p γ s γ' s') :
    Sound rb s' := by
  cases p
  · exact h.1
  · exact h.1

theorem meets_copyAllIn (hfits : rb.capacity * channels < 2 ^ 31)
    (rest : List (Fin channels → Sample)) (hdata : data = part ++ rest)
    (hw : Writing rb seen w data part s) :
    (ringOutline rb).Meets (ringSystem rb) .producer (fun _ _ => Writing rb seen w data data)
      (copyAllIn rb w part.length rest) () s := by
  induction rest generalizing part s with
  | nil =>
    rw [List.append_nil] at hdata
    subst hdata
    exact fun s' hk _ => hw.stable hk
  | cons frame rest ih =>
    intro s₁ hk hs ret s₂ he
    have hpart : part.length < data.length := by simp [hdata]
    obtain ⟨hs₂, hkeep, hw₂⟩ := hs.copyIn hfits (hw.stable hk) hpart he
    refine ⟨(), ⟨hs₂, hkeep⟩, ?_⟩
    have hrest : data = part ++ [frame] ++ rest := by rw [hdata, List.append_assoc]; rfl
    have hnext := ih hrest hw₂
    rw [List.length_append, List.length_singleton] at hnext
    exact hnext

/-- The free space is what it was when the read position was loaded. -/
theorem meets_freeSpace (hidle : s.copied = s.accepted) :
    (ringOutline rb).Meets (ringSystem rb) .producer
      (fun avail _ s' => avail = rb.capacity - 1 - s'.seen .producer ∧ s'.copied = s'.accepted ∧
        s'.accepted.length + avail < s'.returned.length + rb.capacity)
      (aeRingbufFreeSpace rb) () s := by
  intro s₁ hk₁ hs₁ w s₁' he₁
  cases he₁
  refine ⟨(), ⟨hs₁, KeepsReader.refl _⟩, ?_⟩
  intro s₂ hk₂ hs₂ r s₂' he₂
  cases he₂
  refine ⟨(), ⟨hs₂.see _, ⟨rfl, rfl, rfl, List.prefix_refl _, rfl⟩⟩, ?_⟩
  intro s' hk hs
  have hk₂ : KeepsWriter s₁ s₂ := hk₂
  have hk : KeepsWriter { s₂ with seen := Function.update s₂.seen .producer s₂.unread } s' := hk
  have hle := hs₂.returned_le
  have hroom : s₂.accepted.length < s₂.returned.length + rb.capacity :=
    lt_of_le_of_lt hs₂.accepted.length_le hs₂.room
  have hdiff := masked_sub rb (w := s₁.writePos) (hk₂.writePos ▸ hs₂.write) hs₂.read hle hroom
  have hseen : s'.seen .producer = s₂.accepted.length - s₂.returned.length := hk.seen
  have hreturned : s₂.returned.length ≤ s'.returned.length := hk.returned.length_le
  refine ⟨?_, ?_, ?_⟩
  · rw [hseen, ← hdiff]
  · rw [hk.copied, hk.accepted]
    exact (hk₂.copied.trans (hk₁.copied.trans hidle)).trans (hk₂.accepted.trans hk₁.accepted).symm
  · rw [hk.accepted]
    show s₂.accepted.length + (rb.capacity - 1 - ((s₁.writePos - s₂.readPos) &&& rb.mask).toNat) < _
    rw [hdiff]
    omega

theorem meets_write (hfits : rb.capacity * channels < 2 ^ 31) (hs : Sound rb s)
    (hidle : s.copied = s.accepted) (data : List (Fin channels → Sample)) :
    (ringOutline rb).Meets (ringSystem rb) .producer
      (fun n _ s' => s'.copied = s'.accepted ∧ Returns rb s' (.wrote data n))
      (aeRingbufWrite rb data) () s := by
  have hkept : ∀ s', KeepsWriter s s' → s'.copied = s'.accepted := fun s' hk => by
    rw [hk.copied, hk.accepted, hidle]
  unfold aeRingbufWrite
  split
  · rename_i hnone
    refine fun s' hk _ => ⟨hkept s' hk, ?_, List.nil_suffix⟩
    rw [hnone, Nat.zero_min]
  · refine (meets_freeSpace hidle).bind hs guar_inv
      fun avail _ s₁ hs₁ ⟨havail, hidle₁, hroom₁⟩ => ?_
    have hmin : (if avail < data.length then avail else data.length) = min data.length avail := by
      split <;> omega
    dsimp only
    rw [hmin]
    split
    · rename_i hfull
      refine fun s' hk _ => ⟨by rw [hk.copied, hk.accepted, hidle₁], ?_, List.nil_suffix⟩
      rw [hk.seen, ← havail, hfull]
    · intro s₂ hk₂ hs₂ w s₂' he₂
      cases he₂
      refine ⟨(), ⟨hs₂, KeepsReader.refl _⟩, ?_⟩
      have hlen : (data.take (min data.length avail)).length = min data.length avail := by
        rw [List.length_take]
        omega
      have hreturned := hk₂.returned.length_le
      have hw : Writing rb (s₁.seen .producer) s₂.writePos
          (data.take (min data.length avail)) [] s₂ :=
        { copied := by rw [hk₂.copied, hk₂.accepted, hidle₁, List.append_nil]
          position := hs₂.write
          room := by
            rw [hlen, hk₂.accepted]
            omega
          seen := hk₂.seen }
      refine (meets_copyAllIn hfits _ (List.nil_append _).symm hw).bind hs₂ guar_inv
        fun _ _ s₃ hs₃ hw₃ => ?_
      intro s₄ hk₄ hs₄ ret s₄' he₄
      obtain ⟨hs₅, hkeep, hidle₅, haccepted, hseen⟩ := hs₄.storeWritePos (hw₃.stable hk₄) hlen he₄
      refine ⟨(), ⟨hs₅, hkeep⟩, fun s' hk _ => ⟨by rw [hk.copied, hk.accepted, hidle₅], ?_, ?_⟩⟩
      · rw [hk.seen, hseen, ← havail]
      · rw [hk.accepted, haccepted]
        exact List.suffix_append _ _

/-- What is available is what was unread when the write position was loaded. -/
theorem meets_available (hidle : s.taken = s.returned) :
    (ringOutline rb).Meets (ringSystem rb) .consumer
      (fun avail _ s' => avail = s'.seen .consumer ∧ s'.taken = s'.returned ∧
        s'.returned.length + avail ≤ s'.accepted.length)
      (aeRingbufAvailable rb) () s := by
  intro s₁ hk₁ hs₁ w s₁' he₁
  cases he₁
  refine ⟨(), ⟨hs₁.see _, ⟨rfl, rfl, rfl, List.prefix_refl _, rfl⟩⟩, ?_⟩
  intro s₂ hk₂ hs₂ r s₂' he₂
  cases he₂
  refine ⟨(), ⟨hs₂, KeepsWriter.refl _⟩, ?_⟩
  intro s' hk hs
  have hk₂ : KeepsReader { s₁ with seen := Function.update s₁.seen .consumer s₁.unread } s₂ := hk₂
  have hk : KeepsReader s₂ s' := hk
  have hle := hs₁.returned_le
  have hroom : s₁.accepted.length < s₁.returned.length + rb.capacity :=
    lt_of_le_of_lt hs₁.accepted.length_le hs₁.room
  have hread : s₂.readPos.toNat = s₁.returned.length % rb.capacity := hk₂.readPos ▸ hs₁.read
  have hdiff := masked_sub rb hs₁.write hread hle hroom
  have hseen : s'.seen .consumer = s₁.accepted.length - s₁.returned.length := hk.seen.trans hk₂.seen
  refine ⟨hdiff.trans hseen.symm, ?_, ?_⟩
  · rw [hk.taken, hk.returned]
    exact (hk₂.taken.trans (hk₁.taken.trans hidle)).trans (hk₂.returned.trans hk₁.returned).symm
  · have haccepted := (hk₂.accepted.trans hk.accepted).length_le
    rw [hk.returned, hk₂.returned]
    show s₁.returned.length + ((s₁.writePos - s₂.readPos) &&& rb.mask).toNat ≤ _
    rw [hdiff, Nat.add_sub_cancel' hle]
    exact haccepted

theorem meets_copyAllOut (hfits : rb.capacity * channels < 2 ^ 31) (frames : Nat)
    (hn : part.length + frames = n) (hr : Reading rb seen r n part s) (hs : Sound rb s) :
    (ringOutline rb).Meets (ringSystem rb) .consumer
      (fun rest _ s' => Reading rb seen r n (part ++ rest) s' ∧ rest.length = frames)
      (copyAllOut rb r part.length frames) () s := by
  induction frames generalizing part s with
  | zero =>
    refine fun s' hk _ => ⟨?_, rfl⟩
    rw [List.append_nil]
    exact hr.stable hk
  | succ frames ih =>
    intro s₁ hk hs₁ frame s₂ he
    obtain ⟨hs₂, hkeep, hr₂⟩ := hs₁.copyOut hfits (hr.stable hk) (by omega) he
    refine ⟨(), ⟨hs₂, hkeep⟩, ?_⟩
    have hlen : (part ++ [frame]).length = part.length + 1 := List.length_append
    have hnext := ih (by rw [hlen]; omega) hr₂ hs₂
    rw [hlen] at hnext
    refine hnext.bind hs₂ guar_inv fun rest _ s₃ hs₃ ⟨hr₃, hrest⟩ => ?_
    refine fun s' hk' _ => ⟨?_, congrArg (· + 1) hrest⟩
    rw [List.append_assoc] at hr₃
    exact hr₃.stable hk'

theorem meets_read (hfits : rb.capacity * channels < 2 ^ 31) (hs : Sound rb s)
    (hidle : s.taken = s.returned) (frames : Nat) :
    (ringOutline rb).Meets (ringSystem rb) .consumer
      (fun data _ s' => s'.taken = s'.returned ∧ Returns rb s' (.read frames data))
      (aeRingbufRead rb frames) () s := by
  have hkept : ∀ s', KeepsReader s s' → s'.taken = s'.returned := fun s' hk => by
    rw [hk.taken, hk.returned, hidle]
  unfold aeRingbufRead
  split
  · rename_i hnone
    refine fun s' hk _ => ⟨hkept s' hk, ?_, List.nil_suffix⟩
    rw [hnone, Nat.zero_min]
    rfl
  · refine (meets_available hidle).bind hs guar_inv
      fun avail _ s₁ hs₁ ⟨havail, hidle₁, hthere₁⟩ => ?_
    have hmin : (if avail < frames then avail else frames) = min frames avail := by
      split <;> omega
    dsimp only
    rw [hmin]
    split
    · rename_i hempty
      refine fun s' hk _ => ⟨by rw [hk.taken, hk.returned, hidle₁], ?_, List.nil_suffix⟩
      rw [hk.seen, ← havail, hempty]
      rfl
    · intro s₂ hk₂ hs₂ r s₂' he₂
      cases he₂
      refine ⟨(), ⟨hs₂, KeepsWriter.refl _⟩, ?_⟩
      have haccepted := hk₂.accepted.length_le
      have hr : Reading rb (s₁.seen .consumer) s₂.readPos (min frames avail) [] s₂ :=
        { taken := by rw [hk₂.taken, hk₂.returned, hidle₁, List.append_nil]
          position := hs₂.read
          present := by
            rw [hk₂.returned]
            omega
          seen := hk₂.seen }
      refine (meets_copyAllOut hfits _ (Nat.zero_add _) hr hs₂).bind hs₂ guar_inv
        fun data _ s₃ hs₃ ⟨hr₃, hlen⟩ => ?_
      rw [List.nil_append] at hr₃
      intro s₄ hk₄ hs₄ ret s₄' he₄
      obtain ⟨hs₅, hkeep, hidle₅, hreturned, hseen⟩ := hs₄.storeReadPos (hr₃.stable hk₄) hlen he₄
      refine ⟨(), ⟨hs₅, hkeep⟩, fun s' hk _ => ⟨by rw [hk.taken, hk.returned, hidle₅], ?_, ?_⟩⟩
      · rw [hk.seen, hseen, ← havail, hlen]
      · rw [hk.returned, hreturned]
        exact List.suffix_append _ _

/-! ### The whole system -/

theorem sound_created [Zero Sample] (hw : rb.writePos = 0) (hr : rb.readPos = 0) :
    (ringOutline rb).Holds (ringSystem rb) (created rb) fun _ => () where
  tasks
    | .producer => fun s' hk _ =>
      ⟨by rw [hk.copied, hk.accepted]; rfl, fun _ _ h => nomatch h⟩
    | .consumer => fun s' hk _ =>
      ⟨by rw [hk.taken, hk.returned]; rfl, fun _ _ h => nomatch h⟩
  common :=
    { accepted := List.prefix_refl _
      taken := List.prefix_refl _
      returned := List.prefix_refl _
      room := by
        show 0 < 0 + rb.capacity
        have := rb.readPos_lt
        omega
      write := congrArg BitVec.toNat hw
      read := congrArg BitVec.toNat hr
      slots := fun j h => absurd h (Nat.not_lt_zero j)
      held := fun _ _ h => nomatch h
      overwrote := rfl
      misread := rfl }

/-- **Every state that is reached** is sound, wherever the two parties are in their calls. -/
theorem holds_of_reaches [Zero Sample] (hfits : rb.capacity * channels < 2 ^ 31)
    (hw : rb.writePos = 0) (hr : rb.readPos = 0)
    {c : Config Party (RingOp Sample channels) RingOp.Result (RingPhase Sample channels)
      (Shared Sample channels)}
    (hc : Reaches (ringSystem rb) (fun _ _ => True) (created rb) c) :
    ∃ γ, (ringOutline rb).Holds (ringSystem rb) c γ := by
  refine Outline.invariant (S := ringSystem rb) (O := ringOutline rb) ?_ ?_ (sound_created hw hr) hc
  · intro p φ γ s program hs hrest hstart
    cases hstart with
    | write data =>
      refine (meets_write hfits hs hrest.1 data).bind hs guar_inv fun n _ s₁ hs₁ hpost => ?_
      refine fun s' hk _ => ⟨by rw [hk.copied, hk.accepted, hpost.1], fun _ _ h => ?_⟩
      cases h
      have := hpost.2
      unfold Returns at this ⊢
      rw [hk.seen, hk.accepted]
      exact this
    | read frames =>
      refine (meets_read hfits hs hrest.1 frames).bind hs guar_inv fun data _ s₁ hs₁ hpost => ?_
      refine fun s' hk _ => ⟨by rw [hk.taken, hk.returned, hpost.1], fun _ _ h => ?_⟩
      cases h
      have := hpost.2
      unfold Returns at this ⊢
      rw [hk.seen, hk.returned]
      exact this
  · intro c γ p o next r s' γ' hholds ht he _ hguar
    cases p with
    | producer =>
      refine ⟨fun q hq => ?_, hguar.1⟩
      cases q with
      | producer => exact absurd rfl hq
      | consumer => exact hguar.2
    | consumer =>
      refine ⟨fun q hq => ?_, hguar.1⟩
      cases q with
      | producer => exact hguar.2
      | consumer => exact absurd rfl hq

end Outline

/-! ### A call that nothing interrupts -/

section Alone
variable {rb : RingBuffer (Fin channels → Sample)} {s : Shared Sample channels}

/-- The ring that the state stands for while nothing is under way. -/
def Sound.ring (h : Sound rb s) : RingBuffer (Fin channels → Sample) :=
  have hpos := lt_of_le_of_lt (Nat.zero_le _) rb.readPos_lt
  { rb with
    buffer := fun i => frameAt s.buffer (i * channels)
    writePos := s.writePos
    readPos := s.readPos
    writePos_lt := h.write ▸ Nat.mod_lt _ hpos
    readPos_lt := h.read ▸ Nat.mod_lt _ hpos }

theorem Sound.available_ring (h : Sound rb s) : Core.aeRingbufAvailable h.ring = s.unread :=
  masked_sub rb h.write h.read h.returned_le (lt_of_le_of_lt h.accepted.length_le h.room)

/-- What a copy leaves as it is. -/
structure SamePositions (s s' : Shared Sample channels) : Prop where
  writePos : s'.writePos = s.writePos
  accepted : s'.accepted = s.accepted
  returned : s'.returned = s.returned

theorem alone_copyAllIn (rb : RingBuffer (Fin channels → Sample)) (w : BitVec 32) (i : Nat)
    (frames : List (Fin channels → Sample)) (s : Shared Sample channels) :
    ∃ s', (copyAllIn rb w i frames).alone (effect .producer) s = some ((), s') ∧
      SamePositions s s' := by
  induction frames generalizing i s with
  | nil => exact ⟨s, rfl, rfl, rfl, rfl⟩
  | cons frame rest ih =>
    obtain ⟨s', hrun, hsame⟩ := ih (i + 1) _
    exact ⟨s', hrun, hsame.writePos, hsame.accepted, hsame.returned⟩

/-- **Alone**, a write accepts what the serial one does. -/
theorem alone_write (h : Sound rb s) (data : List (Fin channels → Sample)) :
    ∃ s', (aeRingbufWrite rb data).alone (effect .producer) s =
        some ((Core.aeRingbufWrite h.ring data).2, s') ∧
      s'.accepted = s.accepted ++ data.take (Core.aeRingbufWrite h.ring data).2 ∧
      s'.returned = s.returned := by
  rw [RingBuffer.write_snd]
  have hfree : Core.aeRingbufFreeSpace h.ring =
    rb.capacity - 1 - ((s.writePos - s.readPos) &&& rb.mask).toNat := rfl
  rw [hfree]
  generalize hspace : rb.capacity - 1 - ((s.writePos - s.readPos) &&& rb.mask).toNat = space
  generalize hn : min data.length space = n
  unfold aeRingbufWrite
  split
  · rename_i hnone
    obtain rfl : n = 0 := by omega
    exact ⟨s, rfl, (List.append_nil _).symm, rfl⟩
  · have hmin : (if space < data.length then space else data.length) = n := by
      split <;> omega
    have hrun : (aeRingbufFreeSpace rb).alone (effect .producer) s =
        some (space, { s with seen := Function.update s.seen .producer s.unread }) := by
      rw [← hspace]
      rfl
    rw [Program.alone_bind_some hrun]
    dsimp only
    rw [hmin]
    split
    · rename_i hfull
      subst hfull
      exact ⟨_, rfl, (List.append_nil _).symm, rfl⟩
    · have hload : effect .producer .loadWritePos
          { s with seen := Function.update s.seen .producer s.unread } =
        some (s.writePos, { s with seen := Function.update s.seen .producer s.unread }) := rfl
      obtain ⟨s₁, hrun, hsame⟩ := alone_copyAllIn rb s.writePos 0 (data.take n)
        { s with seen := Function.update s.seen .producer s.unread }
      rw [Program.perform_bind, Program.alone_act hload, Program.alone_bind_some hrun]
      refine ⟨_, rfl, ?_, hsame.returned⟩
      dsimp only
      rw [hsame.accepted]

end Alone

/-! ### The ring between two threads -/

/-- **A queue between two threads.** Whatever the interleaving, what the completed reads have
returned is a prefix of what the completed writes have accepted; no frame is read before it
is in its slot or overwritten before it is read; each call moves as many frames as it is asked
for and as it saw room or frames for; and a ring at rest takes frames until `capacity - 1` are
unread. -/
theorem shared_ring_fifo [Zero Sample] {capacity channels : Int}
    {rb : RingBuffer (Fin channels.toNat → Sample)}
    (hcreate : aeRingbufCreate capacity channels = some rb)
    (hfits : rb.capacity * channels.toNat < 2 ^ 31)
    {c : Config Party (RingOp Sample channels.toNat) RingOp.Result
      (RingPhase Sample channels.toNat) (Shared Sample channels.toNat)}
    (hc : Reaches (ringSystem rb) (fun _ _ => True) (created rb) c) :
    c.shared.returned <+: c.shared.accepted ∧
      c.shared.misread = false ∧ c.shared.overwrote = false ∧
      (∀ data n, c.tasks .producer = .done (.wrote data n) →
        n = min data.length (rb.capacity - 1 - c.shared.seen .producer) ∧
          data.take n <:+ c.shared.accepted) ∧
      (∀ n data, c.tasks .consumer = .done (.read n data) →
        data.length = min n (c.shared.seen .consumer) ∧ data <:+ c.shared.returned) ∧
      c.shared.unread < rb.capacity ∧
      (c.AtRest .producer → c.AtRest .consumer → ∀ data,
        c.shared.unread + data.length = rb.capacity - 1 →
        ∃ s', (aeRingbufWrite rb data).alone (effect .producer) c.shared = some (data.length, s') ∧
          s'.accepted = c.shared.accepted ++ data ∧ s'.returned = c.shared.returned) := by
  obtain ⟨hw, hr⟩ : rb.writePos = 0 ∧ rb.readPos = 0 := by
    unfold aeRingbufCreate at hcreate
    split at hcreate
    · cases hcreate
    · split at hcreate
      · cases hcreate
        exact ⟨rfl, rfl⟩
      · cases hcreate
  obtain ⟨γ, h⟩ := holds_of_reaches hfits hw hr hc
  have hs : Sound rb c.shared := h.common
  refine ⟨hs.returned.trans hs.taken, hs.misread, hs.overwrote, ?_, ?_, ?_, ?_⟩
  · exact fun data n ht => (h.rest ht).2 data n rfl
  · exact fun n data ht => (h.rest ht).2 n data rfl
  · exact hs.available_ring ▸ hs.ring.available_lt
  · intro _ _ data hfill
    obtain ⟨s', hrun, haccepted, hreturned⟩ := alone_write hs data
    have hall : (Core.aeRingbufWrite hs.ring data).2 = data.length := by
      rw [RingBuffer.write_snd]
      show min data.length (rb.capacity - 1 - Core.aeRingbufAvailable hs.ring) = _
      rw [hs.available_ring]
      omega
    rw [hall] at hrun haccepted
    rw [List.take_length] at haccepted
    exact ⟨s', hrun, haccepted, hreturned⟩

/-! ### A schedule -/

abbrev RingConfig (Sample : Type) (channels : Nat) : Type :=
  Config Party (RingOp Sample channels) RingOp.Result (RingPhase Sample channels)
    (Shared Sample channels)

/-- A party starts a call or makes its next action. -/
inductive Move (Sample : Type) (channels : Nat) where
  | write (data : List (Fin channels → Sample))
  | read (frames : Nat)
  | act (p : Party)

section Schedule
variable (rb : RingBuffer (Fin channels → Sample))

def Move.run (c : RingConfig Sample channels) :
    Move Sample channels → Option (RingConfig Sample channels)
  | .write data =>
    match c.tasks .producer with
    | .done _ => some ⟨c.shared, Function.update c.tasks .producer
        (aeRingbufWrite rb data >>= fun frames => .done (.wrote data frames))⟩
    | .act .. => none
  | .read frames =>
    match c.tasks .consumer with
    | .done _ => some ⟨c.shared, Function.update c.tasks .consumer
        (aeRingbufRead rb frames >>= fun data => .done (.read frames data))⟩
    | .act .. => none
  | .act p =>
    match c.tasks p with
    | .done _ => none
    | .act o next =>
      (effect p o c.shared).map fun x => ⟨x.2, Function.update c.tasks p (next x.1)⟩

/-- The frames that the last call has moved, if it is over. -/
def moved : RingProgram Sample channels (RingPhase Sample channels) → Option Nat
  | .done .fresh => some 0
  | .done (.wrote _ frames) => some frames
  | .done (.read _ data) => some data.length
  | .act .. => none

variable {rb} {c c' : RingConfig Sample channels}

theorem step_run {m : Move Sample channels} (h : m.run rb c = some c') :
    Step (ringSystem rb) c c' := by
  unfold Move.run at h
  split at h
  · split at h
    · rename_i data _ φ ht
      cases h
      exact .start ht (.write data)
    · cases h
  · split at h
    · rename_i frames _ φ ht
      cases h
      exact .start ht (.read frames)
    · cases h
  · split at h
    · cases h
    · rename_i p _ o next ht
      obtain ⟨⟨r, s⟩, he, rfl⟩ := Option.map_eq_some_iff.mp h
      exact .act ht he

theorem atRest_of_moved {p : Party} {n : Nat} (h : moved (c.tasks p) = some n) : c.AtRest p := by
  unfold moved at h
  split at h
  · exact ⟨_, ‹_›⟩
  · exact ⟨_, ‹_›⟩
  · exact ⟨_, ‹_›⟩
  · cases h

/-- A schedule reaches where it ends. -/
theorem reaches_moves [Zero Sample] {moves : List (Move Sample channels)}
    (h : moves.foldlM (Move.run rb) c = some c')
    (hc : Reaches (ringSystem rb) (fun _ _ => True) (created rb) c) :
    Reaches (ringSystem rb) (fun _ _ => True) (created rb) c' := by
  induction moves generalizing c with
  | nil =>
    cases h
    exact hc
  | cons m rest ih =>
    rw [List.foldlM_cons] at h
    obtain ⟨c₁, hm, hrest⟩ := Option.bind_eq_some_iff.mp h
    exact ih hrest (hc.step (step_run hm) trivial)

end Schedule

/-- A frame of one sample. -/
def mono (n : Nat) : Fin (1 : Int).toNat → Nat := fun _ => n

/-- Two frames are written; then one is read while a third is written. -/
def turns : List (Move Nat (1 : Int).toNat) :=
  [.write [mono 1, mono 2], .act .producer, .act .producer, .act .producer, .act .producer,
    .act .producer, .act .producer, .read 1, .act .consumer, .write [mono 3], .act .producer,
    .act .consumer, .act .producer, .act .consumer, .act .producer, .act .consumer, .act .producer,
    .act .consumer, .act .producer]

/-- After these turns of both parties the first frame has been read, and the ring for three frames takes one
more. -/
theorem shared_ring_fifo_turns : ∃ (rb : RingBuffer (Fin (1 : Int).toNat → Nat)) (c : _) (s' : _),
    aeRingbufCreate 3 1 = some rb ∧ turns.foldlM (Move.run rb) (created rb) = some c ∧
      c.shared.accepted = [mono 1, mono 2, mono 3] ∧ c.shared.returned = [mono 1] ∧
      c.shared.misread = false ∧ c.shared.overwrote = false ∧
      (aeRingbufWrite rb [mono 4]).alone (effect .producer) c.shared = some (1, s') := by
  have hturns : ((aeRingbufCreate 3 1).bind fun rb =>
      (turns.foldlM (Move.run rb) (created rb)).map fun c => decide (rb.capacity = 4 ∧
        c.shared.accepted = [mono 1, mono 2, mono 3] ∧ c.shared.returned = [mono 1] ∧
        moved (c.tasks .producer) = some 1 ∧ moved (c.tasks .consumer) = some 1)) = some true := by
    decide +kernel
  obtain ⟨rb, hrb, hturns⟩ := Option.bind_eq_some_iff.mp hturns
  obtain ⟨c, hc, hobs⟩ := Option.map_eq_some_iff.mp hturns
  obtain ⟨hcapacity, haccepted, hreturned, hproducer, hconsumer⟩ := of_decide_eq_true hobs
  have h := shared_ring_fifo hrb (by rw [hcapacity]; decide) (reaches_moves hc .refl)
  obtain ⟨-, hmisread, hoverwrote, -, -, -, hfill⟩ := h
  have hroom : c.shared.unread + [mono 4].length = rb.capacity - 1 := by
    unfold Shared.unread
    rw [haccepted, hreturned, hcapacity]
    rfl
  obtain ⟨s', hrun, -⟩ := hfill (atRest_of_moved hproducer) (atRest_of_moved hconsumer) [mono 4] hroom
  exact ⟨rb, c, s', hrb, hc, haccepted, hreturned, hmisread, hoverwrote, hrun⟩

end AudioPlatform.Core.SharedRing
