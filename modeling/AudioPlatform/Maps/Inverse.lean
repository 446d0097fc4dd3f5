import Mathlib.Logic.Function.Basic

/-! A map and a map back.

`f` gives some keys a value, and two keys may have the same one; `g` leads from a
value back to one key that has it. When a key that shares its value with no other
gives it up, the entry of the value goes with it and `g` still leads back from every
value. When another key has the value too, removing the entry loses that key. -/
namespace AudioPlatform.Maps

variable {K A : Type}

/-- `g` leads from every value of `f` back to a key that has it, and from no other value. -/
structure IsInverse (f : K → Option A) (g : A → Option K) : Prop where
  named : ∀ a k, g a = some k → f k = some a
  listed : ∀ k a, f k = some a → ∃ k', g a = some k' ∧ f k' = some a

/-- Another key has the value of `k`. -/
def Shares (f : K → Option A) (k : K) : Prop := ∃ j a, j ≠ k ∧ f j = some a ∧ f k = some a

variable {f f' : K → Option A} {g g' : A → Option K} {k : K}

theorem not_shares_of_none (h : f k = none) : ¬ Shares f k := by
  rintro ⟨j, a, -, -, hk⟩
  cases h.symm.trans hk

/-- If the entry of a shared value is gone, the other key is lost. -/
theorem not_isInverse (hs : Shares f k) (hf : ∀ j, j ≠ k → f' j = f j)
    (hg : ∀ a, f k = some a → g' a = none) : ¬ IsInverse f' g' := by
  obtain ⟨j, a, hjk, hj, hk⟩ := hs
  intro h
  obtain ⟨k', hk', -⟩ := h.listed j a ((hf j hjk).trans hj)
  cases (hg a hk).symm.trans hk'

variable [DecidableEq K] [DecidableEq A]

/-- The map without the entry of a value, if there is one. -/
def clear (g : A → Option K) : Option A → A → Option K
  | none => g
  | some a => Function.update g a none

/-- A key gives up a value that no other key has. -/
theorem IsInverse.leave (h : IsInverse f g) (hk : ¬ Shares f k) :
    IsInverse (Function.update f k none) (clear g (f k)) := by
  have hne : ∀ j a, j ≠ k → f j = some a → f k ≠ some a := fun j a hj ha hka =>
    hk ⟨j, a, hj, ha, hka⟩
  cases hv : f k with
  | none => rwa [← hv, Function.update_eq_self, hv]
  | some v =>
    show IsInverse _ (Function.update g v none)
    constructor
    · intro a j hg
      by_cases hav : a = v
      · subst hav
        rw [Function.update_self] at hg
        cases hg
      · rw [Function.update_of_ne hav] at hg
        have hjk : j ≠ k := by
          rintro rfl
          exact hav (Option.some.inj ((h.named a j hg).symm.trans hv))
        rw [Function.update_of_ne hjk]
        exact h.named a j hg
    · intro j a hj
      have hjk : j ≠ k := by
        rintro rfl
        rw [Function.update_self] at hj
        cases hj
      rw [Function.update_of_ne hjk] at hj
      have hav : a ≠ v := fun he => hne j a hjk hj (he ▸ hv)
      obtain ⟨k', hg, hf⟩ := h.listed j a hj
      have hk' : k' ≠ k := by
        rintro rfl
        exact hav (Option.some.inj (hf.symm.trans hv))
      exact ⟨k', by rw [Function.update_of_ne hav, hg], by rw [Function.update_of_ne hk', hf]⟩

/-- A key without a value takes one, whoever else has it. -/
theorem IsInverse.arrive (h : IsInverse f g) (hk : f k = none) (v : A) :
    IsInverse (Function.update f k (some v)) (Function.update g v (some k)) := by
  have hne : ∀ j a, f j = some a → j ≠ k := by
    rintro j a hj rfl
    cases hk.symm.trans hj
  constructor
  · intro a j hj
    by_cases hav : a = v
    · subst hav
      rw [Function.update_self] at hj
      cases hj
      exact Function.update_self ..
    · rw [Function.update_of_ne hav] at hj
      have hf := h.named a j hj
      rw [Function.update_of_ne (hne j a hf), hf]
  · intro j a hj
    by_cases hav : a = v
    · subst hav
      exact ⟨k, Function.update_self .., Function.update_self ..⟩
    · have hjk : j ≠ k := by
        rintro rfl
        rw [Function.update_self] at hj
        exact hav (Option.some.inj hj).symm
      rw [Function.update_of_ne hjk] at hj
      obtain ⟨k', hg, hf⟩ := h.listed j a hj
      exact ⟨k', by rw [Function.update_of_ne hav, hg],
        by rw [Function.update_of_ne (hne k' a hf), hf]⟩

/-- A key exchanges a value that no other key has for another one. -/
theorem IsInverse.move (h : IsInverse f g) (hk : ¬ Shares f k) (v : A) :
    IsInverse (Function.update f k (some v)) (Function.update (clear g (f k)) v (some k)) := by
  have := (h.leave hk).arrive (Function.update_self k none f) v
  rwa [Function.update_idem] at this

end AudioPlatform.Maps
