import Mathlib.Data.Int.GCD
import Mathlib.RingTheory.Coprime.Lemmas
import Mathlib.Tactic.LinearCombination
import AudioPlatform.Core.Crypto
import AudioPlatform.Numbers.Congruential

/-! The keys that are derived from channel numbers.

The bytes of a key are bits 16 to 23 of the states of a generator modulo 2^32. Bits 24 to 31 of the
channel number are never among them; the lower ones can be told from the first four bytes. -/
namespace AudioPlatform.Core
open Numbers

/-! ### The generator -/

/-- `nextSeed` on numbers. -/
def seedStep : ℕ → ℕ := advance (2 ^ 32) 1103515245 12345

theorem toNat_nextSeed (seed : BitVec 32) : (nextSeed seed).toNat = seedStep seed.toNat := by
  rw [nextSeed, BitVec.toNat_add, BitVec.toNat_mul, Nat.mod_add_mod]
  rfl

theorem toNat_nextSeed_iterate (seed : BitVec 32) (n : ℕ) :
    (nextSeed^[n] seed).toNat = seedStep^[n] seed.toNat := by
  induction n generalizing seed with
  | zero => rfl
  | succ n ih => rw [Function.iterate_succ_apply, Function.iterate_succ_apply, ih, toNat_nextSeed]

/-- The state that the first byte is taken from. -/
def firstSeed (channelId : BitVec 32) : ℕ := seedStep (channelId ^^^ 0xDEADBEEF).toNat

/-- A byte of the key is the leading part of a state modulo 2^24. -/
theorem toNat_deriveKey (channelId : BitVec 32) (i : Fin aeCryptoKeySize) :
    (deriveKeyFromChannel channelId i).toNat =
      seedStep^[i.val] (firstSeed channelId) % 2 ^ 24 / 2 ^ 16 := by
  have hbyte : ∀ seed : BitVec 32, (((seed >>> 16) &&& 0xFF).setWidth 8).toNat =
      seed.toNat % 2 ^ 24 / 2 ^ 16 := by
    intro seed
    have hmask : (0xFF : BitVec 32).toNat = 2 ^ 8 - 1 := rfl
    rw [BitVec.toNat_setWidth, BitVec.toNat_and, BitVec.toNat_ushiftRight, hmask,
      Nat.and_two_pow_sub_one_eq_mod, Nat.mod_mod, Nat.shiftRight_eq_div_pow]
    omega
  rw [deriveKeyFromChannel, hbyte, Function.iterate_succ_apply, toNat_nextSeed_iterate,
    toNat_nextSeed]
  rfl

/-! ### What the key does not show -/

theorem low_modEq {n n' : BitVec 32} :
    n.setWidth 24 = n'.setWidth 24 ↔
      (n ^^^ 0xDEADBEEF).toNat ≡ (n' ^^^ 0xDEADBEEF).toNat [MOD 2 ^ 24] := by
  have hmod : ∀ u v : BitVec 32, u.setWidth 24 = v.setWidth 24 ↔ u.toNat ≡ v.toNat [MOD 2 ^ 24] := by
    intro u v
    rw [← BitVec.toNat_inj, BitVec.toNat_setWidth, BitVec.toNat_setWidth]
    rfl
  rw [← hmod, BitVec.setWidth_xor, BitVec.setWidth_xor, BitVec.xor_left_inj]

theorem deriveKey_of_low {n n' : BitVec 32} (h : n.setWidth 24 = n'.setWidth 24) :
    deriveKeyFromChannel n = deriveKeyFromChannel n' := by
  funext i
  have hseed := iterate_modEq (a := 1103515245) (c := 12345) (show 2 ^ 24 ∣ 2 ^ 32 by decide)
    (low_modEq.mp h) (i.val + 1)
  apply BitVec.eq_of_toNat_eq
  rw [toNat_deriveKey, toNat_deriveKey, firstSeed, firstSeed, ← Function.iterate_succ_apply,
    ← Function.iterate_succ_apply]
  exact congrArg (· / 2 ^ 16) hseed

/-! ### What it does -/

/-- How far apart two seeds are, `i` steps after the first byte, in the bits that matter. -/
def gap (n n' : BitVec 32) (i : Fin 4) : ℤ :=
  ((seedStep^[i.val] (firstSeed n) % 2 ^ 24 : ℕ) : ℤ) - (seedStep^[i.val] (firstSeed n') % 2 ^ 24 : ℕ)

theorem gap_modEq (n n' : BitVec 32) (i : Fin 4) :
    gap n n' i ≡ (1103515245 : ℕ) ^ i.val * ((firstSeed n : ℤ) - firstSeed n') [ZMOD (2 ^ 24 : ℕ)] := by
  have hmod : ∀ z : ℕ, ((z % 2 ^ 24 : ℕ) : ℤ) ≡ z [ZMOD (2 ^ 24 : ℕ)] :=
    fun z => Int.natCast_modEq_iff.mpr (Nat.mod_modEq z _)
  exact ((hmod _).sub (hmod _)).trans (sub_iterate (show 2 ^ 24 ∣ 2 ^ 32 by decide) ..)

/-- Relations between the first four powers of the multiplier modulo 2^24. -/
def relations : Fin 4 → Fin 4 → ℤ :=
  ![![4, -15, 31, 8], ![-45, 11, 26, 4], ![-8, -64, -25, 5], ![-9, -25, 31, -133]]

theorem relations_hold (k : Fin 4) :
    ((2 ^ 24 : ℕ) : ℤ) ∣ ∑ i, relations k i * (1103515245 : ℕ) ^ i.val := by
  revert k
  decide +kernel

theorem relations_small (k : Fin 4) :
    (∑ i, |relations k i|) * (2 ^ 16 : ℕ) ≤ (2 ^ 24 : ℕ) ∧ relations k 0 ≠ 0 := by
  revert k
  decide +kernel

theorem gap_lt {n n' : BitVec 32} (h : deriveKeyFromChannel n = deriveKeyFromChannel n') (i : Fin 4) :
    |gap n n' i| < (2 ^ 16 : ℕ) := by
  have hbyte := congrArg BitVec.toNat (congrFun h (i.castLE (by decide)))
  rw [toNat_deriveKey, toNat_deriveKey, Fin.val_castLE] at hbyte
  exact abs_sub_lt (by decide) hbyte

/-- They have no solution but zero. -/
theorem relations_solve {d : Fin 4 → ℤ} (h : ∀ k, ∑ i, relations k i * d i = 0) : d 0 = 0 := by
  have h0 := h 0
  have h1 := h 1
  have h2 := h 2
  have h3 := h 3
  simp only [relations, Fin.sum_univ_four, Matrix.cons_val] at h0 h1 h2 h3
  have hdet : 16777216 * d 0 = 0 := by
    linear_combination 200128 * h0 - 336169 * h1 - 103911 * h2 - 1979 * h3
  exact (mul_eq_zero.mp hdet).resolve_left (by decide)

/-- The gaps are small where the bytes agree, so they solve the relations. -/
theorem gap_eq_zero {n n' : BitVec 32} (h : deriveKeyFromChannel n = deriveKeyFromChannel n') :
    gap n n' 0 = 0 :=
  relations_solve fun k => relation_exact (gap_modEq n n') (gap_lt h) (relations k)
    (relations_hold k) (relations_small k).1 ⟨0, (relations_small k).2⟩

/-- The first four bytes tell the numbers apart in their low 24 bits. -/
theorem low_of_deriveKey {n n' : BitVec 32} (h : deriveKeyFromChannel n = deriveKeyFromChannel n') :
    n.setWidth 24 = n'.setWidth 24 := by
  have hgap := gap_eq_zero h
  have hfirst : (firstSeed n : ℤ) - firstSeed n' ≡ 0 [ZMOD (2 ^ 24 : ℕ)] := by
    have hmod := gap_modEq n n' 0
    rw [hgap, Fin.val_zero, pow_zero, one_mul] at hmod
    exact hmod.symm
  have hstep := (sub_advance (a := 1103515245) (c := 12345) (show 2 ^ 24 ∣ 2 ^ 32 by decide)
    (n ^^^ 0xDEADBEEF).toNat (n' ^^^ 0xDEADBEEF).toNat).symm.trans hfirst
  have hcoprime : IsCoprime ((2 ^ 24 : ℕ) : ℤ) (1103515245 : ℕ) := by
    rw [Nat.isCoprime_iff_coprime]
    decide
  have hdvd := hcoprime.dvd_of_dvd_mul_left (Int.modEq_zero_iff_dvd.mp hstep)
  rw [low_modEq, ← Int.natCast_modEq_iff]
  exact (Int.modEq_iff_dvd.mpr hdvd).symm

/-- **Keys of channels.** Two channel numbers have different keys exactly if they differ in their
low 24 bits. -/
theorem derived_keys_differ_iff (n n' : BitVec 32) :
    deriveKeyFromChannel n ≠ deriveKeyFromChannel n' ↔ n.setWidth 24 ≠ n'.setWidth 24 :=
  not_congr ⟨low_of_deriveKey, deriveKey_of_low⟩

/-- "channel-1" and "channel-16777217" share a key. -/
theorem derived_keys_collide : ¬ ∀ n n' : BitVec 32, n ≠ n' →
    deriveKeyFromChannel n ≠ deriveKeyFromChannel n' := by
  intro h
  exact h 1 16777217 (by decide) (deriveKey_of_low (by decide))

end AudioPlatform.Core
