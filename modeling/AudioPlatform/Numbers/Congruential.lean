import Mathlib.Algebra.BigOperators.Fin
import Mathlib.Algebra.BigOperators.Ring.Finset
import Mathlib.Algebra.Order.BigOperators.Group.Finset
import Mathlib.Algebra.Order.Ring.Abs
import Mathlib.Data.Int.ModEq
import Mathlib.Tactic.Ring

/-! Linear congruential generators of which a part of the state is shown.

The state modulo a divisor `m` of the modulus goes its own way. Two states with the same leading
part modulo `m` are close there, and states that stay close satisfy every relation between the
powers of the multiplier that has small coefficients, exactly and not only modulo `m`. -/
namespace AudioPlatform.Numbers

/-- One step of the generator with modulus `M`, multiplier `a` and increment `c`. -/
def advance (M a c x : ℕ) : ℕ := (x * a + c) % M

variable {M a c m : ℕ}

theorem advance_modEq (hm : m ∣ M) {x y : ℕ} (h : x ≡ y [MOD m]) :
    advance M a c x ≡ advance M a c y [MOD m] := by
  have hmod : ∀ z, z % M ≡ z [MOD m] := fun z => (Nat.mod_modEq z M).of_dvd hm
  exact ((hmod _).trans ((h.mul_right a).add_right c)).trans (hmod _).symm

/-- The state modulo a divisor depends on the state modulo that divisor. -/
theorem iterate_modEq (hm : m ∣ M) {x y : ℕ} (h : x ≡ y [MOD m]) (n : ℕ) :
    (advance M a c)^[n] x ≡ (advance M a c)^[n] y [MOD m] := by
  induction n generalizing x y with
  | zero => exact h
  | succ n ih => exact ih (advance_modEq hm h)

/-- A difference of states is multiplied at each step. -/
theorem sub_advance (hm : m ∣ M) (x y : ℕ) :
    (advance M a c x : ℤ) - advance M a c y ≡ a * (x - y) [ZMOD m] := by
  have hmod : ∀ z : ℕ, ((advance M a c z : ℕ) : ℤ) ≡ z * a + c [ZMOD m] := fun z => by
    have := (Int.natCast_modEq_iff).mpr ((Nat.mod_modEq (z * a + c) M).of_dvd hm)
    exact_mod_cast this
  calc (advance M a c x : ℤ) - advance M a c y
      ≡ (x * a + c) - (y * a + c) [ZMOD m] := (hmod x).sub (hmod y)
    _ = a * (x - y) := by ring

theorem sub_iterate (hm : m ∣ M) (x y n : ℕ) :
    ((advance M a c)^[n] x : ℤ) - (advance M a c)^[n] y ≡ a ^ n * (x - y) [ZMOD m] := by
  induction n generalizing x y with
  | zero => simp
  | succ n ih =>
    calc ((advance M a c)^[n + 1] x : ℤ) - (advance M a c)^[n + 1] y
        ≡ a ^ n * ((advance M a c x : ℤ) - advance M a c y) [ZMOD m] := ih _ _
      _ ≡ a ^ n * (a * (x - y)) [ZMOD m] := (sub_advance hm x y).mul_left _
      _ = a ^ (n + 1) * (x - y) := by ring

/-- Numbers with the same leading part differ by less than the weight of that part. -/
theorem abs_sub_lt {w x y : ℕ} (hw : 0 < w) (h : x / w = y / w) : |(x : ℤ) - y| < w := by
  have hx := Nat.div_add_mod x w
  have hy := Nat.div_add_mod y w
  have hxw := Nat.mod_lt x hw
  have hyw := Nat.mod_lt y hw
  rw [h] at hx
  rw [abs_lt]
  omega

/-- **Small relations are exact.** Numbers below `w` that are the multiples of one number by the
powers of `a`, modulo `m`, satisfy each relation of these powers whose coefficients come to no
more than `m / w`. -/
theorem relation_exact {n w : ℕ} {d : Fin n → ℤ} {r : ℤ} (hd : ∀ i, d i ≡ a ^ i.val * r [ZMOD m])
    (hw : ∀ i, |d i| < w) (coeff : Fin n → ℤ) (hrel : (m : ℤ) ∣ ∑ i, coeff i * a ^ i.val)
    (hsmall : (∑ i, |coeff i|) * w ≤ m) (hne : ∃ i, coeff i ≠ 0) : ∑ i, coeff i * d i = 0 := by
  apply Int.eq_zero_of_abs_lt_dvd (m := m)
  · have hsum : (m : ℤ) ∣ (∑ i, coeff i * a ^ i.val) * r - ∑ i, coeff i * d i := by
      rw [Finset.sum_mul, ← Finset.sum_sub_distrib]
      refine Finset.dvd_sum fun i _ => ?_
      rw [mul_assoc, ← mul_sub]
      exact (hd i).dvd.mul_left _
    exact (dvd_sub_right (hrel.mul_right r)).mp hsum
  · obtain ⟨j, hj⟩ := hne
    calc |∑ i, coeff i * d i|
        ≤ ∑ i, |coeff i * d i| := Finset.abs_sum_le_sum_abs ..
      _ = ∑ i, |coeff i| * |d i| := Finset.sum_congr rfl fun i _ => abs_mul ..
      _ < ∑ i, |coeff i| * w := by
        refine Finset.sum_lt_sum (fun i _ => ?_) ⟨j, Finset.mem_univ j, ?_⟩
        · exact mul_le_mul_of_nonneg_left (hw i).le (abs_nonneg _)
        · exact mul_lt_mul_of_pos_left (hw j) (abs_pos.mpr hj)
      _ = (∑ i, |coeff i|) * w := (Finset.sum_mul ..).symm
      _ ≤ m := hsmall

end AudioPlatform.Numbers
