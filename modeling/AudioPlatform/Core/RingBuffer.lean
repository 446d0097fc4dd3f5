import Mathlib.Data.Nat.Bitwise
import Mathlib.Data.Nat.ModEq
import Mathlib.Data.Int.Init
import Mathlib.Order.Bounds.Defs

/-! The single-producer single-consumer ring of frames.

Positions are reduced with a mask, the capacity being a power of two, and one
slot stays empty so that a full ring differs from an empty one. `contents` is
the queue the ring stands for: a write appends what fits and a read takes from
the front. -/
namespace AudioPlatform.Core

/-! ### Sizing -/

/-- The bits are spread downwards from the highest one. -/
def nextPowerOfTwo (v : BitVec 32) : BitVec 32 :=
  let v := v - 1
  let v := v ||| v.sshiftRight 1
  let v := v ||| v.sshiftRight 2
  let v := v ||| v.sshiftRight 4
  let v := v ||| v.sshiftRight 8
  let v := v ||| v.sshiftRight 16
  v + 1

/-- No bit above `t`, and the `d` bits from `t` down. -/
def Spread (t d : Nat) (v : BitVec 32) : Prop :=
  (∀ i, t < i → v.getLsbD i = false) ∧ ∀ i, i ≤ t → t < i + d → v.getLsbD i = true

theorem Spread.shift {t d : Nat} {v : BitVec 32} (ht : t < 31) (h : Spread t d v) :
    Spread t (d + d) (v ||| v.sshiftRight d) := by
  have hmsb : v.msb = false := by
    rw [BitVec.msb_eq_getLsbD_last]
    exact h.1 _ (by omega)
  have hshift : ∀ i, (v.sshiftRight d).getLsbD i = v.getLsbD (d + i) := by
    intro i
    rw [BitVec.sshiftRight_eq_of_msb_false hmsb, BitVec.getLsbD_ushiftRight]
  constructor
  · intro i hi
    rw [BitVec.getLsbD_or, hshift, h.1 i hi, h.1 (d + i) (by omega), Bool.or_false]
  · intro i hi hd
    rw [BitVec.getLsbD_or, hshift]
    rcases Nat.lt_or_ge t (i + d) with htop | hlow
    · rw [h.2 i hi htop, Bool.true_or]
    · rw [h.2 (d + i) (by omega) (by omega), Bool.or_true]

/-- All bits below the highest one. -/
def smear (v : BitVec 32) : BitVec 32 :=
  let v := v ||| v.sshiftRight 1
  let v := v ||| v.sshiftRight 2
  let v := v ||| v.sshiftRight 4
  let v := v ||| v.sshiftRight 8
  v ||| v.sshiftRight 16

theorem nextPowerOfTwo_eq (v : BitVec 32) : nextPowerOfTwo v = smear (v - 1) + 1 := rfl

theorem Spread.smear {t : Nat} {v : BitVec 32} (ht : t < 31) (h : Spread t 1 v) :
    Spread t 32 (smear v) :=
  ((((h.shift ht).shift ht).shift ht).shift ht).shift ht

theorem spread_log2 {v : BitVec 32} (h : v.toNat ≠ 0) : Spread v.toNat.log2 1 v := by
  constructor
  · intro i hi
    rw [BitVec.getLsbD]
    exact Nat.testBit_lt_two_pow (lt_of_lt_of_le Nat.lt_log2_self (Nat.pow_le_pow_right (by decide) hi))
  · intro i hi hd
    obtain rfl : i = v.toNat.log2 := by omega
    rw [BitVec.getLsbD]
    exact Nat.testBit_log2 h

theorem Spread.toNat_eq {t : Nat} {u : BitVec 32} (ht : t < 32) (h : Spread t 32 u) :
    u.toNat = 2 ^ (t + 1) - 1 := by
  apply Nat.eq_of_testBit_eq
  intro i
  rw [Nat.testBit_two_pow_sub_one]
  by_cases hi : i < t + 1
  · rw [decide_eq_true hi]
    exact h.2 i (by omega) (by omega)
  · rw [decide_eq_false hi]
    exact h.1 i (by omega)

/-- The bits below a power of two that is the least one above `v`. -/
theorem toNat_smear {v : BitVec 32} (h0 : v.toNat ≠ 0) (h30 : v.toNat < 2 ^ 30) :
    v.toNat.log2 < 30 ∧ (smear v).toNat = 2 ^ (v.toNat.log2 + 1) - 1 := by
  have ht : v.toNat.log2 < 30 := (Nat.log2_lt h0).mpr h30
  exact ⟨ht, ((spread_log2 h0).smear (by omega)).toNat_eq (by omega)⟩

/-- The least power of two that is not below `v`. -/
theorem nextPowerOfTwo_spec {v : BitVec 32} (h0 : 0 < v.toNat) (h30 : v.toNat ≤ 2 ^ 30) :
    ∃ k ≤ 30, (nextPowerOfTwo v).toNat = 2 ^ k ∧ v.toNat ≤ 2 ^ k ∧
      ∀ j, v.toNat ≤ 2 ^ j → k ≤ j := by
  have hpred : (v - 1).toNat = v.toNat - 1 := by bv_omega
  rcases Nat.eq_or_lt_of_le (show 1 ≤ v.toNat from h0) with h1 | h1
  · obtain rfl : v = 1 := by bv_omega
    exact ⟨0, Nat.zero_le 30, by decide, by decide, fun j _ => Nat.zero_le j⟩
  · have hne : (v - 1).toNat ≠ 0 := by omega
    have hlo := Nat.log2_self_le hne
    have hhi : (v - 1).toNat < 2 ^ ((v - 1).toNat.log2 + 1) := Nat.lt_log2_self
    obtain ⟨ht, hs⟩ := toNat_smear hne (by omega)
    generalize (v - 1).toNat.log2 = t at hlo hhi ht hs
    have hpow : 2 ^ (t + 1) ≤ 2 ^ 30 := Nat.pow_le_pow_right (by decide) ht
    refine ⟨t + 1, ht, ?_, by omega, ?_⟩
    · rw [nextPowerOfTwo_eq, BitVec.toNat_add, hs]
      show (2 ^ (t + 1) - 1 + 1) % 2 ^ 32 = 2 ^ (t + 1)
      omega
    · intro j hj
      rw [Nat.succ_le_iff, ← Nat.pow_lt_pow_iff_right (show 1 < 2 by decide)]
      omega

/-- No step of the rounding leaves the signed range. -/
theorem nextPowerOfTwo_exact {v : BitVec 32} (h0 : 1 < v.toNat) (h30 : v.toNat ≤ 2 ^ 30) :
    v.ssubOverflow 1 = false ∧ (smear (v - 1)).saddOverflow 1 = false := by
  have hpred : (v - 1).toNat = v.toNat - 1 := by bv_omega
  obtain ⟨ht, hs⟩ := toNat_smear (v := v - 1) (by omega) (by omega)
  have hpow : 2 ^ ((v - 1).toNat.log2 + 1) ≤ 2 ^ 30 := Nat.pow_le_pow_right (by decide) ht
  have hone : (1 : BitVec 32).toInt = 1 := by decide
  constructor
  · have hv : v.toInt = v.toNat := BitVec.toInt_eq_toNat_of_lt (by omega)
    simp only [BitVec.ssubOverflow, hv, hone, Bool.or_eq_false_iff, decide_eq_false_iff_not]
    omega
  · have hv : (smear (v - 1)).toInt = (smear (v - 1)).toNat :=
      BitVec.toInt_eq_toNat_of_lt (by omega)
    simp only [BitVec.saddOverflow, hv, hone, Bool.or_eq_false_iff, decide_eq_false_iff_not]
    omega

/-! ### The ring -/

structure RingBuffer (Frame : Type) where
  buffer : Nat → Frame
  capacity : Nat
  writePos : BitVec 32
  readPos : BitVec 32
  pow : ∃ k ≤ 30, capacity = 2 ^ k
  writePos_lt : writePos.toNat < capacity
  readPos_lt : readPos.toNat < capacity

variable {Frame : Type}

theorem RingBuffer.capacity_le (rb : RingBuffer Frame) : rb.capacity ≤ 2 ^ 30 := by
  obtain ⟨k, hk, hc⟩ := rb.pow
  rw [hc]
  exact Nat.pow_le_pow_right (by decide) hk

theorem RingBuffer.capacity_dvd (rb : RingBuffer Frame) : rb.capacity ∣ 2 ^ 32 := by
  obtain ⟨k, hk, hc⟩ := rb.pow
  rw [hc]
  exact Nat.pow_dvd_pow 2 (by omega)

def RingBuffer.mask (rb : RingBuffer Frame) : BitVec 32 := BitVec.ofNat 32 (rb.capacity - 1)

theorem RingBuffer.and_mask (rb : RingBuffer Frame) (v : BitVec 32) :
    (v &&& rb.mask).toNat = v.toNat % rb.capacity := by
  have hle := rb.capacity_le
  obtain ⟨k, hk, hc⟩ := rb.pow
  have hmod : (rb.capacity - 1) % 2 ^ 32 = rb.capacity - 1 := Nat.mod_eq_of_lt (by omega)
  rw [BitVec.toNat_and, RingBuffer.mask, BitVec.toNat_ofNat, hmod, hc, Nat.and_two_pow_sub_one_eq_mod]

theorem RingBuffer.and_mask_lt (rb : RingBuffer Frame) (v : BitVec 32) :
    (v &&& rb.mask).toNat < rb.capacity := by
  rw [rb.and_mask]
  exact Nat.mod_lt _ (lt_of_le_of_lt (Nat.zero_le _) rb.readPos_lt)

/-- `none` for NULL: a size that is not positive, or too large to be rounded up. -/
def aeRingbufCreate [Zero Frame] (capacity channels : Int) : Option (RingBuffer Frame) :=
  if capacity ≤ 0 ∨ channels ≤ 0 then none
  else if h : capacity + 1 ≤ 2 ^ 30 ∧ 0 < capacity then
    let actualCap := nextPowerOfTwo (BitVec.ofInt 32 (capacity + 1))
    have hv : (BitVec.ofInt 32 (capacity + 1)).toNat = (capacity + 1).toNat := by
      rw [BitVec.toNat_ofInt]
      omega
    have hspec := nextPowerOfTwo_spec (v := BitVec.ofInt 32 (capacity + 1)) (by omega) (by omega)
    some
      { buffer := fun _ => 0
        capacity := actualCap.toNat
        writePos := 0
        readPos := 0
        pow := by obtain ⟨k, hk, hc, -⟩ := hspec; exact ⟨k, hk, hc⟩
        writePos_lt := by obtain ⟨k, -, hc, -⟩ := hspec; simp [actualCap, hc, Nat.two_pow_pos]
        readPos_lt := by obtain ⟨k, -, hc, -⟩ := hspec; simp [actualCap, hc, Nat.two_pow_pos] }
  else none

def aeRingbufAvailable (rb : RingBuffer Frame) : Nat :=
  ((rb.writePos - rb.readPos) &&& rb.mask).toNat

/-- One slot is reserved. -/
def aeRingbufFreeSpace (rb : RingBuffer Frame) : Nat :=
  rb.capacity - 1 - aeRingbufAvailable rb

/-- Stores the frames at the slots from position `w` on. -/
def copyIn (mask : BitVec 32) (buffer : Nat → Frame) (w : BitVec 32) : List Frame → Nat → Frame
  | [] => buffer
  | frame :: rest => copyIn mask (Function.update buffer (w &&& mask).toNat frame) (w + 1) rest

/-- The ring once the frames are stored and the write position is past them. -/
def RingBuffer.store (rb : RingBuffer Frame) (data : List Frame) : RingBuffer Frame :=
  { rb with
    buffer := copyIn rb.mask rb.buffer rb.writePos data
    writePos := (rb.writePos + BitVec.ofNat 32 data.length) &&& rb.mask
    writePos_lt := rb.and_mask_lt _ }

/-- The ring once the read position is past so many frames. -/
def RingBuffer.discard (rb : RingBuffer Frame) (frames : Nat) : RingBuffer Frame :=
  { rb with
    readPos := (rb.readPos + BitVec.ofNat 32 frames) &&& rb.mask
    readPos_lt := rb.and_mask_lt _ }

/-- Returns the number of frames written. -/
def aeRingbufWrite (rb : RingBuffer Frame) (data : List Frame) : RingBuffer Frame × Nat :=
  let frames := min data.length (aeRingbufFreeSpace rb)
  if frames = 0 then (rb, 0)
  else (rb.store (data.take frames), frames)

/-- Returns the frames read. -/
def aeRingbufRead (rb : RingBuffer Frame) (frames : Nat) : RingBuffer Frame × List Frame :=
  let frames := min frames (aeRingbufAvailable rb)
  if frames = 0 then (rb, [])
  else
    (rb.discard frames,
      (List.range frames).map fun i => rb.buffer ((rb.readPos + BitVec.ofNat 32 i) &&& rb.mask).toNat)

/-! ### The ring as a queue -/

namespace RingBuffer

/-- The frames waiting to be read, oldest first. -/
def contents (rb : RingBuffer Frame) : List Frame :=
  (List.range (aeRingbufAvailable rb)).map fun i => rb.buffer ((rb.readPos.toNat + i) % rb.capacity)

@[simp] theorem length_contents (rb : RingBuffer Frame) :
    rb.contents.length = aeRingbufAvailable rb := by
  simp [contents]

theorem getElem_contents (rb : RingBuffer Frame) {i : Nat} (h : i < rb.contents.length) :
    rb.contents[i] = rb.buffer ((rb.readPos.toNat + i) % rb.capacity) := by
  simp only [contents, List.getElem_map, List.getElem_range]

variable (rb : RingBuffer Frame)

theorem available_eq : aeRingbufAvailable rb =
    if rb.readPos.toNat ≤ rb.writePos.toNat then rb.writePos.toNat - rb.readPos.toNat
    else rb.writePos.toNat + rb.capacity - rb.readPos.toNat := by
  have hw := rb.writePos_lt
  have hr := rb.readPos_lt
  have hc := rb.capacity_le
  unfold aeRingbufAvailable
  rw [rb.and_mask, BitVec.toNat_sub]
  split
  · rename_i h
    rw [show 2 ^ 32 - rb.readPos.toNat + rb.writePos.toNat =
      2 ^ 32 + (rb.writePos.toNat - rb.readPos.toNat) by omega, Nat.add_mod_left,
      Nat.mod_mod_of_dvd _ rb.capacity_dvd]
    exact Nat.mod_eq_of_lt (by omega)
  · rename_i h
    obtain ⟨q, hq⟩ := rb.capacity_dvd
    rw [Nat.mod_mod_of_dvd _ rb.capacity_dvd, show 2 ^ 32 - rb.readPos.toNat + rb.writePos.toNat =
      rb.capacity * (q - 1) + (rb.writePos.toNat + rb.capacity - rb.readPos.toNat) by
        have hmul : rb.capacity * (q - 1) = rb.capacity * q - rb.capacity := Nat.mul_sub_one ..
        omega, Nat.mul_add_mod]
    exact Nat.mod_eq_of_lt (by omega)

theorem available_lt : aeRingbufAvailable rb < rb.capacity := by
  exact rb.and_mask_lt _

/-- Reducing a position that has been advanced. -/
theorem advance (v : BitVec 32) (i : Nat) :
    ((v + BitVec.ofNat 32 i) &&& rb.mask).toNat = (v.toNat + i) % rb.capacity := by
  rw [rb.and_mask, BitVec.toNat_add, BitVec.toNat_ofNat, Nat.mod_mod_of_dvd _ rb.capacity_dvd,
    Nat.add_mod, Nat.mod_mod_of_dvd _ rb.capacity_dvd, ← Nat.add_mod]

/-- The write position is the read position advanced over the contents. -/
theorem writePos_eq :
    rb.writePos.toNat = (rb.readPos.toNat + aeRingbufAvailable rb) % rb.capacity := by
  have hw := rb.writePos_lt
  have hr := rb.readPos_lt
  rw [rb.available_eq]
  split
  · rename_i h
    rw [Nat.add_sub_cancel' h, Nat.mod_eq_of_lt hw]
  · rename_i h
    rw [show rb.readPos.toNat + (rb.writePos.toNat + rb.capacity - rb.readPos.toNat) =
      rb.capacity + rb.writePos.toNat by omega, Nat.add_mod_left, Nat.mod_eq_of_lt hw]

/-- Advancing by one and then by `j`. -/
theorem succ_advance (w : BitVec 32) (j : Nat) :
    ((w + 1).toNat + j) % rb.capacity = (w.toNat + (j + 1)) % rb.capacity := by
  have h1 := rb.advance w 1
  rw [rb.and_mask] at h1
  rw [Nat.add_mod, show w + 1 = w + BitVec.ofNat 32 1 from rfl, h1, ← Nat.add_mod, Nat.add_assoc,
    Nat.add_comm 1]

theorem copyIn_of_ne {data : List Frame} {buffer : Nat → Frame} {w : BitVec 32} {k : Nat}
    (h : ∀ j < data.length, k ≠ (w.toNat + j) % rb.capacity) :
    copyIn rb.mask buffer w data k = buffer k := by
  induction data generalizing buffer w with
  | nil => rfl
  | cons frame rest ih =>
    unfold copyIn
    rw [ih fun j hj => rb.succ_advance w j ▸ h (j + 1) (Nat.succ_lt_succ hj), Function.update_of_ne]
    rw [rb.and_mask]
    exact h 0 (Nat.zero_lt_succ _)

/-- Less than a whole turn leads elsewhere. -/
theorem advance_inj {a i j : Nat} (hi : i < rb.capacity) (hj : j < rb.capacity) :
    (a + i) % rb.capacity = (a + j) % rb.capacity ↔ i = j := by
  constructor
  · intro h
    have := Nat.ModEq.add_left_cancel' a (show a + i ≡ a + j [MOD rb.capacity] from h)
    rwa [Nat.ModEq, Nat.mod_eq_of_lt hi, Nat.mod_eq_of_lt hj] at this
  · rintro rfl
    rfl

theorem copyIn_at {data : List Frame} {buffer : Nat → Frame} {w : BitVec 32} {j : Nat}
    (hlen : data.length ≤ rb.capacity) (hj : j < data.length) :
    copyIn rb.mask buffer w data ((w.toNat + j) % rb.capacity) = data[j] := by
  induction data generalizing buffer w j with
  | nil => exact absurd hj (Nat.not_lt_zero j)
  | cons frame rest ih =>
    have hrest : rest.length < rb.capacity := hlen
    unfold copyIn
    cases j with
    | zero =>
      have hne : ∀ i < rest.length,
          (w.toNat + 0) % rb.capacity ≠ ((w + 1).toNat + i) % rb.capacity := by
        intro i hi
        rw [rb.succ_advance, Ne, rb.advance_inj (by omega) (by omega)]
        exact (Nat.succ_ne_zero i).symm
      rw [rb.copyIn_of_ne hne, Nat.add_zero, rb.and_mask, Function.update_self]
      rfl
    | succ j =>
      rw [← rb.succ_advance, ih hrest.le (Nat.lt_of_succ_lt_succ hj)]
      rfl

/-! ### Writing -/

theorem available_store {data : List Frame} (h : data.length ≤ aeRingbufFreeSpace rb) :
    aeRingbufAvailable (rb.store data) = aeRingbufAvailable rb + data.length := by
  have hav := rb.available_lt
  have hpos := (rb.store data).writePos_eq
  rw [show (rb.store data).writePos.toNat = (rb.writePos.toNat + data.length) % rb.capacity from
      rb.advance .., rb.writePos_eq, Nat.mod_add_mod, Nat.add_assoc] at hpos
  unfold aeRingbufFreeSpace at h
  exact ((rb.advance_inj (by omega) (rb.store data).available_lt).mp hpos).symm

theorem contents_store {data : List Frame} (h : data.length ≤ aeRingbufFreeSpace rb) :
    (rb.store data).contents = rb.contents ++ data := by
  have hav := rb.available_lt
  have hlen : aeRingbufAvailable rb + data.length < rb.capacity := by
    unfold aeRingbufFreeSpace at h
    omega
  apply List.ext_getElem
  · rw [length_contents, rb.available_store h, List.length_append, length_contents]
  · intro i h₁ h₂
    rw [getElem_contents]
    show copyIn rb.mask rb.buffer rb.writePos data ((rb.readPos.toNat + i) % rb.capacity) = _
    rw [length_contents, rb.available_store h] at h₁
    by_cases hold : i < aeRingbufAvailable rb
    · have hne : ∀ j < data.length, (rb.readPos.toNat + i) % rb.capacity ≠
          (rb.writePos.toNat + j) % rb.capacity := by
        intro j hj
        rw [rb.writePos_eq, Nat.mod_add_mod, Nat.add_assoc, Ne, rb.advance_inj (by omega) (by omega)]
        omega
      rw [rb.copyIn_of_ne hne, List.getElem_append_left (by simpa using hold), getElem_contents]
    · obtain ⟨j, rfl⟩ := Nat.exists_eq_add_of_le (Nat.le_of_not_lt hold)
      have hj : j < data.length := by omega
      have hslot : (rb.readPos.toNat + (aeRingbufAvailable rb + j)) % rb.capacity =
          (rb.writePos.toNat + j) % rb.capacity := by
        rw [rb.writePos_eq, Nat.mod_add_mod, Nat.add_assoc]
      rw [hslot, rb.copyIn_at (by omega) hj, List.getElem_append_right (by simp)]
      simp

theorem write_snd (data : List Frame) :
    (aeRingbufWrite rb data).2 = min data.length (aeRingbufFreeSpace rb) := by
  unfold aeRingbufWrite
  dsimp only
  split
  · rename_i h
    exact h.symm
  · rfl

/-- The frames that fit are appended. -/
theorem contents_write (data : List Frame) : (aeRingbufWrite rb data).1.contents =
    rb.contents ++ data.take (aeRingbufWrite rb data).2 := by
  rw [write_snd]
  unfold aeRingbufWrite
  dsimp only
  split
  · rename_i h
    rw [h, List.take_zero, List.append_nil]
  · exact rb.contents_store (by rw [List.length_take]; omega)

/-! ### Reading -/

theorem available_discard {n : Nat} (h : n ≤ aeRingbufAvailable rb) :
    aeRingbufAvailable (rb.discard n) = aeRingbufAvailable rb - n := by
  have hav := rb.available_lt
  have hpos := (rb.discard n).writePos_eq
  rw [show (rb.discard n).writePos = rb.writePos from rfl, rb.writePos_eq,
    show (rb.discard n).readPos.toNat = (rb.readPos.toNat + n) % rb.capacity from rb.advance ..,
    show (rb.discard n).capacity = rb.capacity from rfl, Nat.mod_add_mod] at hpos
  rw [show rb.readPos.toNat + aeRingbufAvailable rb =
    rb.readPos.toNat + n + (aeRingbufAvailable rb - n) by omega] at hpos
  exact ((rb.advance_inj (by omega) (rb.discard n).available_lt).mp hpos).symm

theorem contents_discard {n : Nat} (h : n ≤ aeRingbufAvailable rb) :
    (rb.discard n).contents = rb.contents.drop n := by
  have hrange : (List.range (aeRingbufAvailable rb)).drop n =
      (List.range (aeRingbufAvailable rb - n)).map (n + ·) := by
    obtain ⟨k, hk⟩ := Nat.exists_eq_add_of_le h
    rw [hk, List.range_add, List.drop_append_of_le_length (by simp), Nat.add_sub_cancel_left]
    simp
  unfold contents
  rw [rb.available_discard h, ← List.map_drop, hrange, List.map_map]
  apply List.map_congr_left
  intro i _
  show rb.buffer (((rb.discard n).readPos.toNat + i) % rb.capacity) =
    rb.buffer ((rb.readPos.toNat + (n + i)) % rb.capacity)
  rw [show (rb.discard n).readPos.toNat = (rb.readPos.toNat + n) % rb.capacity from rb.advance ..,
    Nat.mod_add_mod, Nat.add_assoc]

theorem take_min_contents (n : Nat) :
    rb.contents.take (min n (aeRingbufAvailable rb)) = rb.contents.take n := by
  rw [← length_contents, ← List.take_eq_take_min]

/-- What is read is the front of the queue. -/
theorem read_snd (n : Nat) : (aeRingbufRead rb n).2 = rb.contents.take n := by
  rw [← take_min_contents]
  unfold aeRingbufRead
  dsimp only
  split
  · rename_i h
    rw [h, List.take_zero]
  · unfold contents
    rw [← List.map_take, List.take_range, Nat.min_assoc, Nat.min_self]
    exact List.map_congr_left fun i _ => congrArg rb.buffer (rb.advance rb.readPos i)

/-- What is read leaves the queue. -/
theorem contents_read (n : Nat) : (aeRingbufRead rb n).1.contents = rb.contents.drop n := by
  unfold aeRingbufRead
  dsimp only
  split
  · rename_i h
    rcases Nat.min_eq_zero_iff.mp h with rfl | h
    · exact List.drop_zero.symm
    · have hnil : rb.contents = [] := List.eq_nil_of_length_eq_zero (by rw [length_contents, h])
      rw [hnil, List.drop_nil]
  · rw [rb.contents_discard (Nat.min_le_right ..)]
    rcases Nat.le_total n (aeRingbufAvailable rb) with h | h
    · rw [Nat.min_eq_left h]
    · rw [Nat.min_eq_right h, List.drop_of_length_le (by simp), List.drop_of_length_le (by simpa using h)]

/-! ### The buffer that is created -/

/-- The mask is the ones below the highest bit of the capacity. -/
theorem mask_ones : ∃ k ≤ 30, rb.capacity = 2 ^ k ∧ ∀ i, rb.mask.getLsbD i = decide (i < k) := by
  have hle := rb.capacity_le
  obtain ⟨k, hk, hc⟩ := rb.pow
  refine ⟨k, hk, hc, fun i => ?_⟩
  have hmod : (rb.capacity - 1) % 2 ^ 32 = 2 ^ k - 1 := by
    rw [← hc]
    exact Nat.mod_eq_of_lt (by omega)
  rw [BitVec.getLsbD, RingBuffer.mask, BitVec.toNat_ofNat, hmod, Nat.testBit_two_pow_sub_one]

/-- An empty buffer takes all it has room for. -/
theorem write_of_empty (hempty : rb.contents = []) {data : List Frame}
    (h : data.length < rb.capacity) :
    (aeRingbufWrite rb data).2 = data.length ∧ (aeRingbufWrite rb data).1.contents = data := by
  have hav : aeRingbufAvailable rb = 0 := by rw [← length_contents, hempty, List.length_nil]
  have hsnd : (aeRingbufWrite rb data).2 = data.length := by
    rw [write_snd, aeRingbufFreeSpace, hav]
    omega
  exact ⟨hsnd, by rw [contents_write, hsnd, hempty, List.take_length, List.nil_append]⟩

end RingBuffer

/-- The rounded size, as a number. -/
theorem toNat_ofInt_succ {c : Int} (h1 : 1 ≤ c) (hc : c ≤ 2 ^ 30 - 1) :
    ((BitVec.ofInt 32 (c + 1)).toNat : Int) = c + 1 := by
  rw [BitVec.toNat_ofInt]
  omega

/-- The rounding stays in the signed range and yields the least power of two; the mask of the
buffer that is created is all ones and reduces every difference of positions, and an empty
buffer takes what was asked for. -/
theorem ring_sizing [Zero Frame] {c channels : Int} (h1 : 1 ≤ c) (hc : c ≤ 2 ^ 30 - 1)
    (hch : 0 < channels) :
    (BitVec.ofInt 32 (c + 1)).toInt = c + 1 ∧
    (BitVec.ofInt 32 (c + 1)).ssubOverflow 1 = false ∧
    (smear (BitVec.ofInt 32 (c + 1) - 1)).saddOverflow 1 = false ∧
    IsLeast {p : Int | c + 1 ≤ p ∧ ∃ k : ℕ, p = 2 ^ k}
      (nextPowerOfTwo (BitVec.ofInt 32 (c + 1))).toInt ∧
    ∃ rb : RingBuffer Frame, aeRingbufCreate c channels = some rb ∧ rb.contents = [] ∧
      rb.capacity = (nextPowerOfTwo (BitVec.ofInt 32 (c + 1))).toInt ∧
      (∃ k ≤ 30, rb.capacity = 2 ^ k ∧ ∀ i, rb.mask.getLsbD i = decide (i < k)) ∧
      (∀ w r : BitVec 32, ((w - r) &&& rb.mask).toNat = (w - r).toNat % rb.capacity) ∧
      ∀ rb' : RingBuffer Frame, rb'.capacity = rb.capacity → rb'.contents = [] →
        c ≤ aeRingbufFreeSpace rb' ∧ ∀ data : List Frame, data.length ≤ c →
          (aeRingbufWrite rb' data).2 = data.length ∧
            (aeRingbufWrite rb' data).1.contents = data := by
  have hv := toNat_ofInt_succ h1 hc
  obtain ⟨hsub, hadd⟩ := nextPowerOfTwo_exact (v := BitVec.ofInt 32 (c + 1)) (by omega) (by omega)
  obtain ⟨k, hk, hpow, hle, hleast⟩ :=
    nextPowerOfTwo_spec (v := BitVec.ofInt 32 (c + 1)) (by omega) (by omega)
  have hpow30 : 2 ^ k ≤ 2 ^ 30 := Nat.pow_le_pow_right (by decide) hk
  have hint : (nextPowerOfTwo (BitVec.ofInt 32 (c + 1))).toInt = 2 ^ k := by
    rw [BitVec.toInt_eq_toNat_of_lt (by omega), hpow]
    exact Int.natCast_pow 2 k
  refine ⟨?_, hsub, hadd, ⟨?_, ?_⟩, ?_⟩
  · rw [BitVec.toInt_eq_toNat_of_lt (by omega), hv]
  · rw [hint]
    exact ⟨by exact_mod_cast hv ▸ (Int.ofNat_le.mpr hle), k, rfl⟩
  · rintro p ⟨hp, j, rfl⟩
    rw [hint]
    have hj : (BitVec.ofInt 32 (c + 1)).toNat ≤ 2 ^ j := by
      have : ((BitVec.ofInt 32 (c + 1)).toNat : Int) ≤ ((2 ^ j : ℕ) : Int) := by
        rw [hv]
        exact_mod_cast hp
      exact_mod_cast this
    have hmono : 2 ^ k ≤ 2 ^ j := Nat.pow_le_pow_right (by decide) (hleast j hj)
    exact_mod_cast hmono
  · unfold aeRingbufCreate
    rw [if_neg (by omega), dif_pos (by omega)]
    refine ⟨_, rfl, ?_, ?_, RingBuffer.mask_ones _, ?_, ?_⟩
    · apply List.eq_nil_of_length_eq_zero
      simp [aeRingbufAvailable]
    · rw [hint]
      exact_mod_cast hpow
    · intro w r
      exact RingBuffer.and_mask _ _
    · intro rb' hcap hempty
      have hroom : c + 1 ≤ rb'.capacity := by
        rw [hcap]
        show c + 1 ≤ ((nextPowerOfTwo (BitVec.ofInt 32 (c + 1))).toNat : Int)
        omega
      constructor
      · have hav : aeRingbufAvailable rb' = 0 := by
          rw [← RingBuffer.length_contents, hempty, List.length_nil]
        rw [aeRingbufFreeSpace, hav]
        omega
      · intro data hdata
        exact rb'.write_of_empty hempty (by omega)

/-- A request for a quarter of a second of stereo at 48 kHz. -/
theorem ring_sizing_12000 :
    (nextPowerOfTwo (BitVec.ofInt 32 ((12000 : Int) + 1))).toInt = 16384 ∧
    ∃ rb : RingBuffer Int, @aeRingbufCreate Int ⟨0⟩ 12000 2 = some rb ∧
      rb.capacity = (nextPowerOfTwo (BitVec.ofInt 32 ((12000 : Int) + 1))).toInt := by
  obtain ⟨-, -, -, -, rb, hrb, -, hcap, -⟩ :=
    @ring_sizing Int ⟨0⟩ 12000 2 (by decide) (by decide) (by decide)
  exact ⟨by decide, rb, hrb, hcap⟩

end AudioPlatform.Core
