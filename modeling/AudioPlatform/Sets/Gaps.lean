import Mathlib.Order.Lattice.Nat

/-! The numbers missing from a set.

A source numbers what it sends from `first` on. Of the numbers up to the largest that has
arrived, the gaps are those that have not: an arrival above the largest opens gaps, an
arrival below it closes one, and a second arrival of a number does neither. -/
namespace AudioPlatform.Sets

/-- The largest number of a set; zero if there is none. -/
def largest (s : Finset ℕ) : ℕ := s.sup id

/-- The numbers from `first` to the largest that are not in the set. -/
def gaps (first : ℕ) (s : Finset ℕ) : Finset ℕ := Finset.Icc first (largest s) \ s

variable {first a : ℕ} {s : Finset ℕ}

@[simp] theorem largest_singleton (a : ℕ) : largest {a} = a := Finset.sup_singleton ..

theorem le_largest (h : a ∈ s) : a ≤ largest s := Finset.le_sup (f := id) h

@[simp] theorem largest_insert (a : ℕ) (s : Finset ℕ) : largest (insert a s) = max a (largest s) :=
  Finset.sup_insert ..

theorem largest_mem (h : s.Nonempty) : largest s ∈ s := by
  obtain ⟨a, ha, heq⟩ := Finset.exists_mem_eq_sup s h id
  unfold largest
  rw [heq]
  exact ha

theorem mem_gaps : a ∈ gaps first s ↔ (first ≤ a ∧ a ≤ largest s) ∧ a ∉ s := by
  simp [gaps]

@[simp] theorem gaps_singleton (a : ℕ) : gaps a {a} = ∅ := by
  ext b
  rw [mem_gaps, largest_singleton, Finset.mem_singleton]
  simp only [Finset.notMem_empty, iff_false]
  omega

/-- An arrival above the largest number opens the numbers between them. -/
theorem card_gaps_above (hfirst : first ≤ largest s) (ha : largest s < a) :
    (gaps first (insert a s)).card = (gaps first s).card + (a - (largest s + 1)) := by
  have hsplit : gaps first (insert a s) = gaps first s ∪ Finset.Ico (largest s + 1) a := by
    ext b
    have hle : b ∈ s → b ≤ largest s := le_largest
    rw [Finset.mem_union, Finset.mem_Ico, mem_gaps, mem_gaps, largest_insert, Finset.mem_insert]
    by_cases hb : b ∈ s
    · have := hle hb
      simp only [hb, or_true, not_true_eq_false, and_false, false_or, false_iff]
      omega
    · simp only [hb, or_false, not_false_eq_true, and_true]
      omega
  have hdisjoint : Disjoint (gaps first s) (Finset.Ico (largest s + 1) a) := by
    rw [Finset.disjoint_left]
    intro b hb hb'
    rw [mem_gaps] at hb
    rw [Finset.mem_Ico] at hb'
    omega
  rw [hsplit, Finset.card_union_of_disjoint hdisjoint, Nat.card_Ico]

/-- A first arrival below the largest number closes its own gap. -/
theorem card_gaps_below (hfirst : first ≤ a) (ha : a < largest s) (hnew : a ∉ s) :
    (gaps first (insert a s)).card + 1 = (gaps first s).card := by
  have herase : gaps first (insert a s) = (gaps first s).erase a := by
    ext b
    rw [Finset.mem_erase, mem_gaps, mem_gaps, largest_insert, Finset.mem_insert,
      max_eq_right (le_of_lt ha), not_or]
    exact ⟨fun h => ⟨h.2.1, h.1, h.2.2⟩, fun h => ⟨h.2.1, h.1, h.2.2⟩⟩
  rw [herase]
  exact Finset.card_erase_add_one (mem_gaps.mpr ⟨⟨hfirst, le_of_lt ha⟩, hnew⟩)

/-- There are fewer gaps than the largest number is big, since it is none itself. -/
theorem card_gaps_le (hs : s.Nonempty) : (gaps first s).card ≤ largest s := by
  have hsub : gaps first s ⊆ Finset.range (largest s) := by
    intro b hb
    obtain ⟨⟨-, hle⟩, hnot⟩ := mem_gaps.mp hb
    rw [Finset.mem_range]
    refine lt_of_le_of_ne hle fun heq => hnot ?_
    rw [heq]
    exact largest_mem hs
  simpa using Finset.card_le_card hsub

end AudioPlatform.Sets
