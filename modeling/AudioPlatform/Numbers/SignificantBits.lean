import Mathlib.Algebra.Order.Ring.Nat
import Mathlib.Data.Nat.Size

/-! Rounding to so many significant bits.

A natural number that has more of them goes to the nearest one that has not, and to the even
one of two that are as near. -/
namespace AudioPlatform.Numbers

/-- The multiple of `m` next to `n`, of two the even one. -/
def nearestMultiple (m n : ℕ) : ℕ :=
  if 2 * (n % m) < m ∨ 2 * (n % m) = m ∧ n / m % 2 = 0 then n / m * m else (n / m + 1) * m

/-- `n` rounded to `p` significant bits. -/
def roundBits (p n : ℕ) : ℕ := nearestMultiple (2 ^ (n.size - p)) n

theorem dvd_nearestMultiple (m n : ℕ) : m ∣ nearestMultiple m n := by
  unfold nearestMultiple
  split
  · exact Nat.dvd_mul_left ..
  · exact Nat.dvd_mul_left ..

/-- The multiples stay where they are. -/
theorem nearestMultiple_eq_self_iff {m n : ℕ} (hm : 0 < m) : nearestMultiple m n = n ↔ m ∣ n := by
  constructor
  · intro h
    rw [← h]
    exact dvd_nearestMultiple m n
  · intro h
    have hmod : n % m = 0 := Nat.mod_eq_zero_of_dvd h
    unfold nearestMultiple
    rw [hmod, if_pos (.inl hm)]
    exact Nat.div_mul_cancel h

theorem roundBits_eq_self_iff {p n : ℕ} : roundBits p n = n ↔ 2 ^ (n.size - p) ∣ n :=
  nearestMultiple_eq_self_iff (Nat.two_pow_pos _)

/-- A number of `p` bits has no more significant ones. -/
theorem dvd_of_lt {p n : ℕ} (h : n < 2 ^ p) : 2 ^ (n.size - p) ∣ n := by
  rw [Nat.sub_eq_zero_of_le (Nat.size_le.mpr h), Nat.pow_zero]
  exact Nat.one_dvd n

example : roundBits 24 (2 ^ 24 + 1) = 2 ^ 24 := by decide

end AudioPlatform.Numbers
