import Mathlib.Algebra.Order.Ring.Nat
import AudioPlatform.Concurrency.Machine

/-! Reservoirs of a machine.

An input pours an amount in, and what has no room spills; then it draws an amount out, or what there is.
A run that pours more than it draws fills the reservoir, and from then on the excess spills; one that
draws after each pouring what may have been poured keeps it where it was, or lower. -/
namespace AudioPlatform.Concurrency.Reservoir

variable {σ I O : Type}

section Total
variable (step : σ → I → σ × List O) (amount : σ → I → Nat)

/-- An amount, summed along a run. -/
def total (s : σ) : List I → Nat
  | [] => 0
  | i :: rest => amount s i + total (step s i).1 rest

end Total

variable {step : σ → I → σ × List O} {amount : σ → I → Nat} {s : σ} {is : List I}

theorem length_collect {α : Type} {view : σ → I → List α} :
    (Machine.collect step view s is).length = total step (fun s i => (view s i).length) s is := by
  induction is generalizing s with
  | nil => rfl
  | cons i rest ih =>
    show (view s i ++ Machine.collect step view (step s i).1 rest).length = _
    rw [List.length_append, ih]
    rfl

/-- An amount that depends on the input alone. -/
theorem total_eq_sum {f : I → Nat} (is : List I) : total step (fun _ i => f i) s is = (is.map f).sum := by
  induction is generalizing s with
  | nil => rfl
  | cons i rest ih =>
    show f i + total step (fun _ i => f i) (step s i).1 rest = _
    rw [ih, List.map_cons, List.sum_cons]

theorem total_congr {amount' : σ → I → Nat} {C : σ → I → Prop} (hC : ∀ s i, C s i → amount s i = amount' s i)
    (h : Machine.Along step C s is) : total step amount s is = total step amount' s is := by
  induction is generalizing s with
  | nil => rfl
  | cons i rest ih =>
    show amount s i + _ = amount' s i + _
    rw [hC s i h.1, ih h.2]

theorem total_le {amount' : σ → I → Nat} (h : ∀ s i, amount s i ≤ amount' s i) (is : List I) :
    total step amount s is ≤ total step amount' s is := by
  induction is generalizing s with
  | nil => exact Nat.le_refl _
  | cons i rest ih => exact Nat.add_le_add (h s i) ih

/-- How a level moves: up to the room there is, and down as far as it goes. -/
structure Fills (step : σ → I → σ × List O) (level room : σ → Nat) (poured drawn : σ → I → Nat) : Prop where
  level_le : ∀ s, level s ≤ room s
  room_eq : ∀ s i, room (step s i).1 = room s
  step_eq : ∀ s i, level (step s i).1 = min (room s) (level s + poured s i) - drawn s i

/-- What an input spills. -/
def spilled (level room : σ → Nat) (poured : σ → I → Nat) (s : σ) (i : I) : Nat := level s + poured s i - room s

/-- What an input draws. -/
def taken (level room : σ → Nat) (poured drawn : σ → I → Nat) (s : σ) (i : I) : Nat :=
  min (drawn s i) (min (room s) (level s + poured s i))

variable {level room : σ → Nat} {poured drawn : σ → I → Nat}

/-- What was poured waits, was drawn, or has spilled. -/
theorem Fills.balance (h : Fills step level room poured drawn) (is : List I) :
    level s + total step poured s is = level (Machine.run step s is) + total step (taken level room poured drawn) s is +
      total step (spilled level room poured) s is := by
  induction is generalizing s with
  | nil => rfl
  | cons i rest ih =>
    have hrest := ih (s := (step s i).1)
    have hstep := h.step_eq s i
    show level s + (poured s i + total step poured (step s i).1 rest) =
      level (Machine.run step (step s i).1 rest) +
        (min (drawn s i) (min (room s) (level s + poured s i)) +
          total step (taken level room poured drawn) (step s i).1 rest) +
        (level s + poured s i - room s + total step (spilled level room poured) (step s i).1 rest)
    omega

theorem Fills.room_run (h : Fills step level room poured drawn) (is : List I) :
    room (Machine.run step s is) = room s := by
  induction is generalizing s with
  | nil => rfl
  | cons i rest ih => exact ih.trans (h.room_eq s i)

/-! ### Amounts that depend on the input alone -/

/-- The level that an input leaves. -/
def after (room : Nat) (pour draw : I → Nat) (w : Nat) (i : I) : Nat := min room (w + pour i) - draw i

variable {pour draw : I → Nat}

/-- The level stays below the one that the most that may be poured leads to. -/
theorem Fills.level_run_le (h : Fills step level room poured drawn) (hpour : ∀ s i, poured s i ≤ pour i)
    (hdraw : ∀ s i, drawn s i = draw i) {w : Nat} (hw : level s ≤ w) :
    level (Machine.run step s is) ≤ is.foldl (after (room s) pour draw) w := by
  induction is generalizing s w with
  | nil => exact hw
  | cons i rest ih =>
    have hfirst : level (step s i).1 ≤ after (room s) pour draw w i := by
      have hmost := hpour s i
      rw [h.step_eq, hdraw s i]
      unfold after
      omega
    have hrest := ih hfirst
    rwa [h.room_eq] at hrest

/-- Inputs that neither pour nor draw do not count. -/
theorem foldl_after_filter {r : Nat} {p : I → Bool} (hp : ∀ i, p i = false → pour i = 0 ∧ draw i = 0) (is : List I)
    {w : Nat} (hw : w ≤ r) : is.foldl (after r pour draw) w = (is.filter p).foldl (after r pour draw) w := by
  have hle : ∀ w i, after r pour draw w i ≤ r := fun w i => by
    unfold after
    omega
  induction is generalizing w with
  | nil => rfl
  | cons i rest ih =>
    cases hi : p i with
    | true =>
      rw [List.filter_cons_of_pos hi]
      exact ih (hle w i)
    | false =>
      have hsame : after r pour draw w i = w := by
        unfold after
        rw [(hp i hi).1, (hp i hi).2]
        omega
      rw [List.filter_cons_of_neg (by simp [hi]), List.foldl_cons, hsame]
      exact ih hw

/-- Nor do they in a sum. -/
theorem sum_filter {p : I → Bool} {f : I → Nat} (hp : ∀ i, p i = false → f i = 0) (is : List I) :
    (is.map f).sum = ((is.filter p).map f).sum := by
  induction is with
  | nil => rfl
  | cons i rest ih =>
    cases hi : p i with
    | true => rw [List.filter_cons_of_pos hi, List.map_cons, List.map_cons, List.sum_cons, List.sum_cons, ih]
    | false => rw [List.filter_cons_of_neg (by simp [hi]), List.map_cons, List.sum_cons, hp i hi, ih, Nat.zero_add]

end AudioPlatform.Concurrency.Reservoir
