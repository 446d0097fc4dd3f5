import Mathlib.Data.Fintype.Card
import Mathlib.Logic.Function.Basic

/-! Slots, each empty or held under a key.

An empty slot takes a key that no slot is held under, and a slot that is held is
emptied. No key has two slots then, and a number that is counted up and down with the
slots is the number of those that are held. -/
namespace AudioPlatform.Maps

variable {S K : Type}

/-- No key has two slots. -/
def Distinct (f : S → Option K) : Prop := ∀ i j k, f i = some k → f j = some k → i = j

theorem distinct_of_none {f : S → Option K} (h : ∀ i, f i = none) : Distinct f := by
  intro i j k hi
  rw [h i] at hi
  cases hi

section Held
variable [Fintype S]

/-- The slots that are held. -/
def held (f : S → Option K) : Finset S := Finset.univ.filter fun i => (f i).isSome

variable {f : S → Option K} {i : S} {k : K}

@[simp] theorem mem_held : i ∈ held f ↔ (f i).isSome = true := by simp [held]

theorem held_eq_empty (h : ∀ i, f i = none) : held f = ∅ := by
  ext i
  simp [h i]

theorem card_held_le (f : S → Option K) : (held f).card ≤ Fintype.card S := Finset.card_le_univ _

variable [DecidableEq S]

theorem held_take (f : S → Option K) (i : S) (k : K) :
    held (Function.update f i (some k)) = insert i (held f) := by
  ext j
  by_cases hj : j = i
  · subst hj
    simp
  · simp [hj]

theorem held_clear (f : S → Option K) (i : S) :
    held (Function.update f i none) = (held f).erase i := by
  ext j
  by_cases hj : j = i
  · subst hj
    simp
  · simp [hj]

/-- An empty slot that takes a key is one more. -/
theorem card_held_take (hi : f i = none) (k : K) :
    (held (Function.update f i (some k))).card = (held f).card + 1 := by
  rw [held_take, Finset.card_insert_of_notMem (by simp [hi])]

/-- A held slot that is emptied is one less. -/
theorem card_held_clear (hi : f i = some k) :
    (held (Function.update f i none)).card + 1 = (held f).card := by
  rw [held_clear, Finset.card_erase_add_one (by simp [hi])]

end Held

variable [DecidableEq S] {f : S → Option K}

/-- A slot takes a key that no slot is held under. -/
theorem Distinct.take (h : Distinct f) {k : K} (hk : ∀ j, f j ≠ some k) (i : S) :
    Distinct (Function.update f i (some k)) := by
  intro j j' k' hj hj'
  by_cases hji : j = i
  · subst hji
    rw [Function.update_self] at hj
    cases hj
    by_contra hne
    rw [Function.update_of_ne (Ne.symm hne)] at hj'
    exact hk j' hj'
  · rw [Function.update_of_ne hji] at hj
    by_cases hji' : j' = i
    · subst hji'
      rw [Function.update_self] at hj'
      cases hj'
      exact absurd hj (hk j)
    · rw [Function.update_of_ne hji'] at hj'
      exact h j j' k' hj hj'

theorem Distinct.clear (h : Distinct f) (i : S) : Distinct (Function.update f i none) := by
  have hold : ∀ j k, Function.update f i none j = some k → f j = some k := by
    intro j k hj
    by_cases hji : j = i
    · subst hji
      rw [Function.update_self] at hj
      cases hj
    · rwa [Function.update_of_ne hji] at hj
  intro j j' k hj hj'
  exact h j j' k (hold j k hj) (hold j' k hj')

end AudioPlatform.Maps
