import Mathlib.Data.Set.Card
import AudioPlatform.Concurrency.Machine

/-! Maps with room for so many keys.

A write to a key that is there replaces its value; a new key needs room. What is under a key is
what was last written there, whatever was refused in between. -/
namespace AudioPlatform.Maps
open Concurrency

/-- A map with at most so many keys. -/
structure Bounded (K V : Type) (room : ℕ) where
  get : K → Option V
  finite : {k | (get k).isSome = true}.Finite
  within : {k | (get k).isSome = true}.ncard ≤ room

namespace Bounded

variable {K V : Type} {room : ℕ}

def keys (m : Bounded K V room) : Set K := {k | (m.get k).isSome = true}

theorem notMem_keys {m : Bounded K V room} {k : K} : k ∉ m.keys ↔ m.get k = none :=
  Option.not_isSome_iff_eq_none

def empty (K V : Type) (room : ℕ) : Bounded K V room :=
  ⟨fun _ => none, by simp, by simp⟩

variable [DecidableEq K]

theorem keys_update (f : K → Option V) (k : K) (v : V) :
    {j | (Function.update f k (some v) j).isSome = true} = insert k {j | (f j).isSome = true} := by
  ext j
  by_cases h : j = k
  · subst h
    simp
  · simp [h]

open Classical in
/-- `none` if the key is new and there is no room. -/
noncomputable def write (m : Bounded K V room) (k : K) (v : V) : Option (Bounded K V room) :=
  if h : k ∈ m.keys ∨ m.keys.ncard < room then
    some
      { get := Function.update m.get k (some v)
        finite := by rw [keys_update]; exact m.finite.insert k
        within := by
          rw [keys_update]
          rcases h with h | h
          · exact (Set.insert_eq_of_mem h).symm ▸ m.within
          · exact (Set.ncard_insert_le k _).trans h }
  else none

variable {m m' : Bounded K V room} {k : K} {v : V}

theorem write_eq_none : m.write k v = none ↔ m.get k = none ∧ m.keys.ncard = room := by
  have hwithin : m.keys.ncard ≤ room := m.within
  classical
  unfold write
  rw [dite_eq_right_iff, ← notMem_keys]
  constructor
  · intro h
    have hno : ¬ (k ∈ m.keys ∨ m.keys.ncard < room) := fun hroom => by cases h hroom
    push Not at hno
    exact ⟨hno.1, le_antisymm hwithin hno.2⟩
  · rintro ⟨hnot, hfull⟩ hroom
    rcases hroom with hold | hroom
    · exact absurd hold hnot
    · omega

theorem get_write (h : m.write k v = some m') : m'.get = Function.update m.get k (some v) := by
  unfold write at h
  split at h
  · exact congrArg get (Option.some.inj h).symm
  · cases h

/-- The writes that are accepted are put out. -/
noncomputable def put (m : Bounded K V room) (w : K × V) : Bounded K V room × List (K × V) :=
  match m.write w.1 w.2 with
  | some m' => (m', [w])
  | none => (m, [])

end Bounded

/-- What is under each key after some writes. -/
def written {K V : Type} [DecidableEq K] (f : K → Option V) (ws : List (K × V)) : K → Option V :=
  ws.foldl (fun f w => Function.update f w.1 (some w.2)) f

variable {K V : Type} [DecidableEq K] {room : ℕ}

theorem written_append (f : K → Option V) (a b : List (K × V)) :
    written f (a ++ b) = written (written f a) b := List.foldl_append ..

theorem Bounded.get_put (m : Bounded K V room) (w : K × V) :
    (m.put w).1.get = written m.get (m.put w).2 := by
  unfold put
  cases h : m.write w.1 w.2 with
  | some m' => exact get_write h
  | none => rfl

/-- Each key has what was last written under it. -/
theorem Bounded.get_run {I : Type} (f : I → K × V) (m : Bounded K V room) (is : List I) :
    (Machine.run (fun m i => m.put (f i)) m is).get =
      written m.get (Machine.outputs (fun m i => m.put (f i)) m is) := by
  induction is generalizing m with
  | nil => rfl
  | cons i rest ih =>
    rw [Machine.outputs, written_append, ← get_put]
    exact ih _

end AudioPlatform.Maps
