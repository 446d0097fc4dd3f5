import Mathlib.Algebra.Group.Nat.Defs

/-! Numbers on the wire, most significant byte first. -/
namespace AudioPlatform

abbrev Byte := BitVec 8

end AudioPlatform

namespace AudioPlatform.BigEndian

variable {w n : Nat}

/-- The low `n` bytes of a number. -/
def toBytes : Nat → BitVec w → List Byte
  | 0, _ => []
  | n + 1, v => (v >>> (8 * n)).setWidth 8 :: toBytes n v

/-- The number that a byte string spells. -/
def ofBytes (w : Nat) : List Byte → BitVec w
  | [] => 0
  | b :: rest => b.setWidth w <<< (8 * rest.length) ||| ofBytes w rest

@[simp] theorem length_toBytes (v : BitVec w) : (toBytes n v).length = n := by
  induction n with
  | zero => rfl
  | succ n ih => rw [toBytes, List.length_cons, ih]

theorem getLsbD_ofBytes_toBytes (v : BitVec w) (i : Nat) :
    (ofBytes w (toBytes n v)).getLsbD i = (decide (i < 8 * n) && v.getLsbD i) := by
  induction n with
  | zero => simp [toBytes, ofBytes]
  | succ n ih =>
    rw [toBytes, ofBytes, BitVec.getLsbD_or, ih, length_toBytes]
    simp only [BitVec.getLsbD_shiftLeft, BitVec.getLsbD_setWidth, BitVec.getLsbD_ushiftRight]
    by_cases hlow : i < 8 * n
    · simp [hlow, show i < 8 * (n + 1) by omega]
    · have hi : 8 * n + (i - 8 * n) = i := by omega
      have hbyte : i - 8 * n < 8 ↔ i < 8 * (n + 1) := by omega
      rw [hi]
      by_cases hw : i < w
      · simp [hlow, hw, hbyte, show i - 8 * n < w by omega]
      · simp [hlow, hw, BitVec.getLsbD_of_ge v i (by omega)]

/-- Reading back what was written. -/
@[simp] theorem ofBytes_toBytes (v : BitVec (8 * n)) : ofBytes (8 * n) (toBytes n v) = v := by
  apply BitVec.eq_of_getLsbD_eq
  intro i hi
  rw [getLsbD_ofBytes_toBytes, decide_eq_true hi, Bool.true_and]

/-- Reading back what was written of a number that the bytes have room for. -/
theorem ofBytes_toBytes_of_lt {v : BitVec w} (h : v.toNat < 2 ^ (8 * n)) :
    ofBytes w (toBytes n v) = v := by
  apply BitVec.eq_of_getLsbD_eq
  intro i hi
  rw [getLsbD_ofBytes_toBytes]
  by_cases hlow : i < 8 * n
  · simp [hlow]
  · have hpow : 2 ^ (8 * n) ≤ 2 ^ i := Nat.pow_le_pow_right (by decide) (by omega)
    have hzero : v.getLsbD i = false := Nat.testBit_lt_two_pow (Nat.lt_of_lt_of_le h hpow)
    simp [hzero]

theorem toBytes_injective : Function.Injective (toBytes n : BitVec (8 * n) → List Byte) :=
  Function.LeftInverse.injective ofBytes_toBytes

/-- The same number, built up byte by byte. -/
theorem foldl_ofBytes (bytes : List Byte) (acc : BitVec w) :
    bytes.foldl (fun (id : BitVec w) b => id <<< 8 ||| b.setWidth w) acc =
      acc <<< (8 * bytes.length) ||| ofBytes w bytes := by
  induction bytes generalizing acc with
  | nil => simp [ofBytes]
  | cons b rest ih =>
    have hlen : 8 * (rest.length + 1) = 8 + 8 * rest.length := by omega
    rw [List.foldl_cons, ih, ofBytes, List.length_cons, BitVec.shiftLeft_or_distrib,
      ← BitVec.shiftLeft_add, ← hlen, BitVec.or_assoc]

theorem foldl_zero (bytes : List Byte) :
    bytes.foldl (fun (id : BitVec w) b => id <<< 8 ||| b.setWidth w) 0 = ofBytes w bytes := by
  rw [foldl_ofBytes]
  simp

/-! ### Writing back what was read -/

theorem getLsbD_ofBytes_of_ge (bytes : List Byte) {i : Nat} (h : 8 * bytes.length ≤ i) :
    (ofBytes w bytes).getLsbD i = false := by
  induction bytes with
  | nil => exact BitVec.getLsbD_zero
  | cons b rest ih =>
    rw [List.length_cons] at h
    rw [ofBytes, BitVec.getLsbD_or, ih (by omega), BitVec.getLsbD_shiftLeft, BitVec.getLsbD_setWidth,
      BitVec.getLsbD_of_ge b _ (by omega)]
    simp

/-- The low bytes depend on the low bits only. -/
theorem toBytes_congr {v v' : BitVec w} (h : ∀ i < 8 * n, v.getLsbD i = v'.getLsbD i) :
    toBytes n v = toBytes n v' := by
  induction n with
  | zero => rfl
  | succ n ih =>
    rw [toBytes, toBytes, ih fun i hi => h i (by omega)]
    congr 1
    apply BitVec.eq_of_getLsbD_eq
    intro i hi
    rw [BitVec.getLsbD_setWidth, BitVec.getLsbD_setWidth, BitVec.getLsbD_ushiftRight,
      BitVec.getLsbD_ushiftRight, h _ (by omega)]

/-- A number that has room for a byte string is written back as that string. -/
theorem toBytes_ofBytes (bytes : List Byte) (h : 8 * bytes.length ≤ w) :
    toBytes bytes.length (ofBytes w bytes) = bytes := by
  induction bytes with
  | nil => rfl
  | cons b rest ih =>
    rw [List.length_cons] at h
    have hlow : ∀ i < 8 * rest.length,
        (ofBytes w (b :: rest)).getLsbD i = (ofBytes w rest).getLsbD i := by
      intro i hi
      rw [ofBytes, BitVec.getLsbD_or, BitVec.getLsbD_shiftLeft]
      simp [hi]
    rw [List.length_cons, toBytes, toBytes_congr hlow, ih (by omega)]
    congr 1
    apply BitVec.eq_of_getLsbD_eq
    intro i hi
    rw [BitVec.getLsbD_setWidth, BitVec.getLsbD_ushiftRight, ofBytes, BitVec.getLsbD_or,
      getLsbD_ofBytes_of_ge rest (by omega), BitVec.getLsbD_shiftLeft, BitVec.getLsbD_setWidth]
    simp [hi, show ¬ 8 * rest.length + i < 8 * rest.length by omega,
      show 8 * rest.length + i < w by omega, show i < w by omega]

end AudioPlatform.BigEndian
