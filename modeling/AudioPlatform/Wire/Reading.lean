import Mathlib.Data.List.Basic

/-! Computations that read a memory, with the cells they read.

A `Reading` computes a value from a memory and leaves the list of the cells it
has looked at. `Within L` says that from a given memory it looks at no cell from
`L` on. -/
namespace AudioPlatform

/-- A computation over a memory of `Cell`s: its value, and the cells read in order. -/
def Reading (Cell α : Type) : Type := (Nat → Cell) → α × List Nat

namespace Reading
variable {Cell α β : Type} {L : Nat} {m : Nat → Cell}

def value (p : Reading Cell α) (m : Nat → Cell) : α := (p m).1

def cells (p : Reading Cell α) (m : Nat → Cell) : List Nat := (p m).2

instance : Monad (Reading Cell) where
  pure a := fun _ => (a, [])
  bind p f := fun m => ((f (p m).1 m).1, (p m).2 ++ (f (p m).1 m).2)

/-- The `n` cells from `start` on. -/
def slice (start n : Nat) : Reading Cell (List Cell) :=
  fun m => ((List.range' start n).map m, List.range' start n)

@[simp] theorem value_pure (a : α) : (pure a : Reading Cell α).value m = a := rfl

@[simp] theorem cells_pure (a : α) : (pure a : Reading Cell α).cells m = [] := rfl

@[simp] theorem value_bind (p : Reading Cell α) (f : α → Reading Cell β) :
    (p >>= f).value m = (f (p.value m)).value m := rfl

@[simp] theorem cells_bind (p : Reading Cell α) (f : α → Reading Cell β) :
    (p >>= f).cells m = p.cells m ++ (f (p.value m)).cells m := rfl

@[simp] theorem value_slice (start n : Nat) :
    (slice start n : Reading Cell (List Cell)).value m = (List.range' start n).map m := rfl

@[simp] theorem cells_slice (start n : Nat) :
    (slice start n : Reading Cell (List Cell)).cells m = List.range' start n := rfl

/-! ### Staying inside -/

/-- From `m` no cell at `L` or beyond is read. -/
def Within (L : Nat) (p : Reading Cell α) (m : Nat → Cell) : Prop := ∀ i ∈ p.cells m, i < L

@[simp] theorem within_pure (a : α) : Within L (pure a : Reading Cell α) m := by
  intro i hi
  cases hi

@[simp] theorem within_bind (p : Reading Cell α) (f : α → Reading Cell β) :
    Within L (p >>= f) m ↔ Within L p m ∧ Within L (f (p.value m)) m := by
  unfold Within
  rw [cells_bind]
  exact List.forall_mem_append

/-- A slice stays inside exactly if it ends inside. -/
theorem within_slice {start n : Nat} (hn : 0 < n) :
    Within L (slice start n : Reading Cell (List Cell)) m ↔ start + n ≤ L := by
  unfold Within
  rw [cells_slice]
  constructor
  · intro h
    have := h (start + n - 1) (List.mem_range'_1.mpr (by omega))
    omega
  · intro h i hi
    have := List.mem_range'_1.mp hi
    omega

end Reading

/-! ### Memories -/

/-- A memory that starts with a byte string and continues with `rest`. -/
def overlay {Cell : Type} (cells : List Cell) (rest : Nat → Cell) : Nat → Cell :=
  fun i => cells.getD i (rest i)

theorem overlay_slice {Cell : Type} (cells : List Cell) (rest : Nat → Cell) {start n : Nat}
    (h : start + n ≤ cells.length) :
    (List.range' start n).map (overlay cells rest) = (cells.drop start).take n := by
  apply List.ext_getElem
  · simp
    omega
  · intro i h₁ h₂
    have hi : i < n := by simpa using h₁
    simp [overlay, List.getElem_range', show start + i < cells.length by omega]

/-- A slice of a slice. -/
theorem slice_of_slice {Cell : Type} {m : Nat → Cell} {cells : List Cell} {start n i k : Nat}
    (h : (List.range' start n).map m = cells) (hik : i + k ≤ n) :
    (List.range' (start + i) k).map m = (cells.drop i).take k := by
  obtain ⟨rest, rfl⟩ := Nat.exists_eq_add_of_le hik
  rw [← h, ← List.range'_append_1, ← List.range'_append_1, List.map_append, List.map_append,
    List.append_assoc, List.drop_append_of_le_length (by simp), List.drop_of_length_le (by simp),
    List.nil_append, List.take_append_of_le_length (by simp), List.take_of_length_le (by simp)]

end AudioPlatform
