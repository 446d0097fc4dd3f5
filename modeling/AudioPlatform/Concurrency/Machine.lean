import Mathlib.Data.List.Pairwise
import Mathlib.Logic.Function.Basic

/-! Machines that take inputs one at a time, and families of them.

A machine is a function from a state and an input to a new state and outputs.
`run` and `outputs` follow it over a list of inputs; `Along` says that each input
meets a condition in the state it is taken in, `simulates` compares two machines,
`expansion` resolves a run into the small steps of another machine, and
`history_induction` is the rule for what holds of every run that meets a condition and
of what was recorded of it, `collect_queue` the one for what passes through a queue. In a
family each input goes to one member; `outputs_own` says that a member's outputs
are those of the member alone. -/
namespace AudioPlatform.Concurrency.Machine

variable {σ I O : Type} (step : σ → I → σ × List O)

def run (s : σ) : List I → σ
  | [] => s
  | i :: rest => run (step s i).1 rest

def outputs (s : σ) : List I → List O
  | [] => []
  | i :: rest => (step s i).2 ++ outputs (step s i).1 rest

theorem run_append (s : σ) (a b : List I) : run step s (a ++ b) = run step (run step s a) b := by
  induction a generalizing s with
  | nil => rfl
  | cons i rest ih => exact ih _

theorem outputs_append (s : σ) (a b : List I) :
    outputs step s (a ++ b) = outputs step s a ++ outputs step (run step s a) b := by
  induction a generalizing s with
  | nil => rfl
  | cons i rest ih =>
    show (step s i).2 ++ outputs step (step s i).1 (rest ++ b) = _
    rw [ih, ← List.append_assoc]
    rfl

/-- Every input meets the condition in the state it is taken in. -/
def Along (C : σ → I → Prop) (s : σ) : List I → Prop
  | [] => True
  | i :: rest => C s i ∧ Along C (step s i).1 rest

variable {step} {C : σ → I → Prop} {s : σ}

/-- Inputs without outputs. -/
theorem outputs_eq_nil {is : List I} (h : ∀ i ∈ is, ∀ s, (step s i).2 = []) :
    outputs step s is = [] := by
  induction is generalizing s with
  | nil => rfl
  | cons i rest ih =>
    show (step s i).2 ++ outputs step (step s i).1 rest = []
    rw [h i (List.mem_cons_self ..), ih (fun j hj => h j (List.mem_cons_of_mem i hj))]
    rfl

/-- An output is handed out at one of the inputs. -/
theorem exists_of_mem_outputs {is : List I} {o : O} (h : o ∈ outputs step s is) : ∃ before i after,
    is = before ++ i :: after ∧ o ∈ (step (run step s before) i).2 := by
  induction is generalizing s with
  | nil => cases h
  | cons i rest ih =>
    obtain h | h := List.mem_append.mp h
    · exact ⟨[], i, rest, rfl, h⟩
    · obtain ⟨before, j, after, rfl, hmem⟩ := ih h
      exact ⟨i :: before, j, after, rfl, hmem⟩

theorem along_append {a b : List I} :
    Along step C s (a ++ b) ↔ Along step C s a ∧ Along step C (run step s a) b := by
  induction a generalizing s with
  | nil =>
    show _ ↔ True ∧ _
    rw [true_and]
    rfl
  | cons i rest ih =>
    show C s i ∧ Along step C (step s i).1 (rest ++ b) ↔ _
    rw [ih]
    exact and_assoc.symm

/-- If not every input meets the condition, there is a first one that does not. -/
theorem exists_of_not_along {is : List I} (h : ¬ Along step C s is) : ∃ before i after,
    is = before ++ i :: after ∧ Along step C s before ∧ ¬ C (run step s before) i := by
  induction is generalizing s with
  | nil => exact absurd trivial h
  | cons i rest ih =>
    by_cases hi : C s i
    · obtain ⟨before, j, after, rfl, hbefore, hj⟩ := ih fun hrest => h ⟨hi, hrest⟩
      exact ⟨i :: before, j, after, rfl, ⟨hi, hbefore⟩, hj⟩
    · exact ⟨[], i, rest, rfl, trivial, hi⟩

/-- Every input meets the condition if it does after whatever comes before it. -/
theorem along_of_split {is : List I}
    (h : ∀ before i after, is = before ++ i :: after → C (run step s before) i) :
    Along step C s is := by
  by_contra hnot
  obtain ⟨before, i, after, heq, -, hi⟩ := exists_of_not_along hnot
  exact hi (h before i after heq)

instance [∀ s i, Decidable (C s i)] : ∀ (s : σ) (is : List I), Decidable (Along step C s is)
  | _, [] => inferInstanceAs (Decidable True)
  | s, i :: rest =>
    have := instDecidableAlong (step s i).1 rest
    inferInstanceAs (Decidable (C s i ∧ Along step C (step s i).1 rest))

theorem along_of_forall (h : ∀ s i, C s i) (is : List I) : Along step C s is := by
  induction is generalizing s with
  | nil => trivial
  | cons i rest ih => exact ⟨h s i, ih⟩

/-- Two conditions that agree wherever a third one holds, agree along a run where it holds. -/
theorem along_congr {A D : σ → I → Prop} (hCD : ∀ s i, A s i → (C s i ↔ D s i)) {is : List I}
    (h : Along step A s is) : Along step C s is ↔ Along step D s is := by
  induction is generalizing s with
  | nil => exact Iff.rfl
  | cons i rest ih => exact and_congr (hCD s i h.1) (ih h.2)

theorem run_eq_foldl {f : σ → I → σ} {g : σ → I → List O} (is : List I) :
    run (fun s i => (f s i, g s i)) s is = is.foldl f s := by
  induction is generalizing s with
  | nil => rfl
  | cons i rest ih => exact ih

/-- A machine that does to a part of its states what another machine does to them, runs there as that one
does. -/
theorem run_map {τ P : Type} {step' : τ → I → τ × List P} {f : τ → σ}
    (hf : ∀ t i, f (step' t i).1 = (step (f t) i).1) (t : τ) (is : List I) :
    f (run step' t is) = run step (f t) is := by
  induction is generalizing t with
  | nil => rfl
  | cons i rest ih =>
    show f (run step' (step' t i).1 rest) = run step (step (f t) i).1 rest
    rw [ih, hf]

/-! ### Invariants -/

theorem run_induction {Inv : σ → Prop} {P : I → Prop} (hstep : ∀ s i, P i → Inv s → Inv (step s i).1)
    (hs : Inv s) {is : List I} (hP : ∀ i ∈ is, P i) : Inv (run step s is) := by
  induction is generalizing s with
  | nil => exact hs
  | cons i rest ih =>
    exact ih (hstep s i (hP i (List.mem_cons_self ..)) hs) fun j hj => hP j (List.mem_cons_of_mem i hj)

/-- What every input that meets the condition preserves, a run that meets it preserves. -/
theorem inv_of_along {Inv : σ → Prop} (hstep : ∀ s i, Inv s → C s i → Inv (step s i).1) (hs : Inv s)
    {is : List I} (h : Along step C s is) : Inv (run step s is) := by
  induction is generalizing s with
  | nil => exact hs
  | cons i rest ih => exact ih (hstep s i hs h.1) h.2

/-- What the invariant and the condition together give at one input, they give all along. -/
theorem along_of_invariant {Inv : σ → Prop} {D : σ → I → Prop}
    (hstep : ∀ s i, Inv s → C s i → Inv (step s i).1) (hD : ∀ s i, Inv s → C s i → D s i)
    (hs : Inv s) {is : List I} (h : Along step C s is) : Along step D s is := by
  induction is generalizing s with
  | nil => trivial
  | cons i rest ih => exact ⟨hD s i hs h.1, ih (hstep s i hs h.1) h.2⟩

/-- Two conditions agree along a run if they agree at every input where the invariant and a third
condition hold, and the inputs that meet both keep the invariant. -/
theorem along_congr_of_invariant {Inv : σ → Prop} {A D : σ → I → Prop}
    (hstep : ∀ s i, Inv s → A s i → D s i → Inv (step s i).1)
    (hCD : ∀ s i, Inv s → A s i → (C s i ↔ D s i)) (hs : Inv s) {is : List I}
    (h : Along step A s is) : Along step C s is ↔ Along step D s is := by
  induction is generalizing s with
  | nil => exact Iff.rfl
  | cons i rest ih =>
    have hi := hCD s i hs h.1
    constructor
    · intro hC
      have hD := hi.mp hC.1
      exact ⟨hD, (ih (hstep s i hs h.1 hD) h.2).mp hC.2⟩
    · intro hD
      exact ⟨hi.mpr hD.1, (ih (hstep s i hs h.1 hD.1) h.2).mpr hD.2⟩

/-- **When a promise is kept.** Suppose that an input keeps the invariant if it meets the
condition, and breaks the promise if it does not. Then the promise is kept all along a run
exactly if every input meets the condition. -/
theorem kept_iff_along {Inv Good : σ → Prop} {P : I → Prop} (hgood : ∀ s, Inv s → Good s)
    (hstep : ∀ s i, P i → Inv s → C s i → Inv (step s i).1)
    (hbreak : ∀ s i, P i → Inv s → ¬ C s i → ¬ Good (step s i).1) (hs : Inv s) {is : List I}
    (hP : ∀ i ∈ is, P i) :
    (∀ done, done <+: is → Good (run step s done)) ↔ Along step C s is := by
  induction is generalizing s with
  | nil =>
    refine ⟨fun _ => trivial, fun _ done hdone => ?_⟩
    rw [List.prefix_nil.mp hdone]
    exact hgood s hs
  | cons i rest ih =>
    have hi := hP i (List.mem_cons_self ..)
    have hrest : ∀ j ∈ rest, P j := fun j hj => hP j (List.mem_cons_of_mem i hj)
    constructor
    · intro h
      have hC : C s i := by
        by_contra hC
        exact hbreak s i hi hs hC (h [i] (List.prefix_append [i] rest))
      refine ⟨hC, (ih (hstep s i hi hs hC) hrest).mp fun done hdone => ?_⟩
      exact h (i :: done) (List.cons_prefix_cons.mpr ⟨rfl, hdone⟩)
    · rintro ⟨hC, hall⟩ done hdone
      cases done with
      | nil => exact hgood s hs
      | cons j done =>
        obtain ⟨hji, hd⟩ := List.cons_prefix_cons.mp hdone
        subst hji
        exact (ih (hstep s j hi hs hC) hrest).mpr hall done hd

/-! ### Simulation -/

/-- Two machines that give the same outputs step by step, as long as the inputs meet a
condition in the second, give the same outputs. -/
theorem simulates {τ : Type} {step' : τ → I → τ × List O} {C' : τ → I → Prop} {R : σ → τ → Prop}
    {t : τ} (hstep : ∀ s t i, R s t → C' t i →
      (step s i).2 = (step' t i).2 ∧ R (step s i).1 (step' t i).1)
    (hR : R s t) {is : List I} (h : Along step' C' t is) :
    outputs step s is = outputs step' t is ∧ R (run step s is) (run step' t is) := by
  induction is generalizing s t with
  | nil => exact ⟨rfl, hR⟩
  | cons i rest ih =>
    obtain ⟨hout, hnext⟩ := hstep s t i hR h.1
    obtain ⟨houts, hrun⟩ := ih hnext h.2
    refine ⟨?_, hrun⟩
    show (step s i).2 ++ _ = (step' t i).2 ++ _
    rw [hout, houts]

/-- Where a second machine follows the first and tells which inputs give good outputs, a run gives
good outputs exactly if its inputs are such. -/
theorem outputs_iff_along {τ P : Type} {step' : τ → I → τ × List P} {C' : τ → I → Prop}
    {R : σ → τ → Prop} {Good : O → Prop} {t : τ}
    (hstep : ∀ s t i, R s t → R (step s i).1 (step' t i).1 ∧
      ((∀ o ∈ (step s i).2, Good o) ↔ C' t i))
    (hR : R s t) (is : List I) : (∀ o ∈ outputs step s is, Good o) ↔ Along step' C' t is := by
  induction is generalizing s t with
  | nil => exact iff_of_true (fun _ h => absurd h List.not_mem_nil) trivial
  | cons i rest ih =>
    obtain ⟨hnext, hgood⟩ := hstep s t i hR
    show (∀ o ∈ (step s i).2 ++ outputs step (step s i).1 rest, Good o) ↔
      C' t i ∧ Along step' C' (step' t i).1 rest
    rw [List.forall_mem_append, hgood, ih hnext]

/-! ### Refinement -/

section Refinement
variable {J : Type} (step) {step' : σ → J → σ × List O} (expand : σ → I → List J)

/-- The small steps that a run takes, input by input. -/
def expansion (s : σ) : List I → List J
  | [] => []
  | i :: rest => expand s i ++ expansion (step s i).1 rest

variable {step expand}

theorem expansion_append (a b : List I) :
    expansion step expand s (a ++ b) =
      expansion step expand s a ++ expansion step expand (run step s a) b := by
  induction a generalizing s with
  | nil => rfl
  | cons i rest ih =>
    show expand s i ++ expansion step expand (step s i).1 (rest ++ b) = _
    rw [ih, ← List.append_assoc]
    rfl

section View
variable {τ : Type} {step' : τ → J → τ × List O} (view : σ → τ)

/-- A run whose every input is taken in small steps of another machine takes that machine to where the
run is seen to be. -/
theorem run_view (h : ∀ s i, run step' (view s) (expand s i) = view (step s i).1) (is : List I) :
    run step' (view s) (expansion step expand s is) = view (run step s is) := by
  induction is generalizing s with
  | nil => rfl
  | cons i rest ih =>
    show run step' (view s) (expand s i ++ expansion step expand (step s i).1 rest) = _
    rw [run_append, h, ih]
    rfl

theorem outputs_view (h : ∀ s i, run step' (view s) (expand s i) = view (step s i).1)
    (hout : ∀ s i, outputs step' (view s) (expand s i) = (step s i).2) (is : List I) :
    outputs step' (view s) (expansion step expand s is) = outputs step s is := by
  induction is generalizing s with
  | nil => rfl
  | cons i rest ih =>
    show outputs step' (view s) (expand s i ++ expansion step expand (step s i).1 rest) = _
    rw [outputs_append, h, hout, ih]
    rfl

end View

/-- A run whose every input is taken in small steps comes to where the small steps come. -/
theorem run_expansion (h : ∀ s i, run step' s (expand s i) = (step s i).1) (is : List I) :
    run step' s (expansion step expand s is) = run step s is :=
  run_view id h is

theorem outputs_expansion (h : ∀ s i, run step' s (expand s i) = (step s i).1)
    (hout : ∀ s i, outputs step' s (expand s i) = (step s i).2) (is : List I) :
    outputs step' s (expansion step expand s is) = outputs step s is :=
  outputs_view id h hout is

end Refinement

/-! ### History -/

section History
variable {γ : Type} (step) (record : σ → I → γ → γ)

/-- A history beside the run, which no step sees; `record` says what an input adds to it. -/
def history (s : σ) (g : γ) : List I → γ
  | [] => g
  | i :: rest => history (step s i).1 (record s i g) rest

variable {step record}

theorem history_append (g : γ) (a b : List I) : history step record s g (a ++ b) =
    history step record (run step s a) (history step record s g a) b := by
  induction a generalizing s g with
  | nil => rfl
  | cons i rest ih => exact ih _

/-- What one input preserves under the condition, a run that meets the condition preserves. -/
theorem history_induction {P : σ → γ → Prop} {g : γ}
    (hstep : ∀ s g i, P s g → C s i → P (step s i).1 (record s i g)) (hs : P s g) {is : List I}
    (h : Along step C s is) : P (run step s is) (history step record s g is) := by
  induction is generalizing s g with
  | nil => exact hs
  | cons i rest ih => exact ih (hstep s g i hs h.1) h.2

/-- What every input preserves, a run preserves. -/
theorem history_invariant {P : σ → γ → Prop} {g : γ}
    (hstep : ∀ s g i, P s g → P (step s i).1 (record s i g)) (hs : P s g) (is : List I) :
    P (run step s is) (history step record s g is) :=
  history_induction (C := fun _ _ => True) (fun s g i h _ => hstep s g i h) hs
    (along_of_forall (fun _ _ => trivial) is)

end History

/-! ### Queues -/

section Queue
variable {α : Type} (step) (view : σ → I → List α)

/-- What the inputs bring, each in the state that takes it. -/
def collect (s : σ) : List I → List α
  | [] => []
  | i :: rest => view s i ++ collect (step s i).1 rest

variable {step view}

/-- What a queue gives is what it is given, in order, up to what waits in it. -/
theorem collect_queue {contents : σ → List α} {put got : σ → I → List α}
    (h : ∀ s i, contents s ++ put s i = got s i ++ contents (step s i).1) (is : List I) :
    contents s ++ collect step put s is = collect step got s is ++ contents (run step s is) := by
  induction is generalizing s with
  | nil => exact List.append_nil _
  | cons i rest ih =>
    calc contents s ++ (put s i ++ collect step put (step s i).1 rest)
        = got s i ++ (contents (step s i).1 ++ collect step put (step s i).1 rest) := by
          rw [← List.append_assoc, h, List.append_assoc]
      _ = got s i ++ (collect step got (step s i).1 rest ++ contents (run step (step s i).1 rest)) := by
          rw [ih]
      _ = _ := (List.append_assoc ..).symm

theorem collect_eq_nil {is : List I} (h : Along step (fun s i => view s i = []) s is) :
    collect step view s is = [] := by
  induction is generalizing s with
  | nil => rfl
  | cons i rest ih =>
    show view s i ++ collect step view (step s i).1 rest = []
    rw [h.1, ih h.2, List.append_nil]

theorem mem_collect {P : α → Prop} (h : ∀ s i, ∀ a ∈ view s i, P a) {is : List I} :
    ∀ a ∈ collect step view s is, P a := by
  induction is generalizing s with
  | nil => exact fun _ ha => absurd ha List.not_mem_nil
  | cons i rest ih => exact List.forall_mem_append.mpr ⟨h s i, ih⟩

end Queue

/-! ### Families -/

section Family
variable {ι : Type} [DecidableEq ι] (step)

/-- The outputs of a family, each with the member that gave it. -/
def familyOutputs (s : ι → σ) : List (ι × I) → List (ι × O)
  | [] => []
  | (m, i) :: rest =>
    (step (s m) i).2.map (m, ·) ++ familyOutputs (Function.update s m (step (s m) i).1) rest

/-- What belongs to one member. -/
def own {α : Type} (m : ι) (l : List (ι × α)) : List α :=
  l.filterMap fun x => if x.1 = m then some x.2 else none

@[simp] theorem own_append {α : Type} (m : ι) (a b : List (ι × α)) :
    own m (a ++ b) = own m a ++ own m b := List.filterMap_append

theorem own_map_self {α : Type} (m : ι) (l : List α) : own m (l.map (m, ·)) = l := by
  induction l with
  | nil => rfl
  | cons a rest ih => simpa [own] using ih

theorem own_map_ne {α : Type} {m n : ι} (h : n ≠ m) (l : List α) : own m (l.map (n, ·)) = [] := by
  simp [own, h]

/-- What belongs to one member of what is chosen from a list. -/
theorem own_filterMap {α β : Type} (m : ι) (f : α → Option β) (l : List (ι × α)) :
    own m (l.filterMap fun x => (f x.2).map (x.1, ·)) = (own m l).filterMap f := by
  induction l with
  | nil => rfl
  | cons x rest ih =>
    obtain ⟨n, a⟩ := x
    unfold own at ih ⊢
    by_cases h : n = m
    · cases hf : f a with
      | none => simp [hf, h, ih]
      | some b => simp [hf, h, ih]
    · cases hf : f a with
      | none => simp [hf, h, ih]
      | some b => simp [hf, h, ih]

theorem mem_own {α : Type} {m : ι} {a : α} {l : List (ι × α)} : a ∈ own m l ↔ (m, a) ∈ l := by
  simp [own, List.mem_filterMap]

theorem own_cons_self {α : Type} (m : ι) (a : α) (l : List (ι × α)) :
    own m ((m, a) :: l) = a :: own m l := List.filterMap_cons_some (if_pos rfl)

theorem own_cons_of_ne {α : Type} {m n : ι} (h : n ≠ m) (a : α) (l : List (ι × α)) :
    own m ((n, a) :: l) = own m l := List.filterMap_cons_none (if_neg h)

theorem own_erase_self {α : Type} [DecidableEq α] (m : ι) (a : α) (l : List (ι × α)) :
    own m (l.erase (m, a)) = (own m l).erase a := by
  induction l with
  | nil => rfl
  | cons x rest ih =>
    obtain ⟨n, b⟩ := x
    rw [List.erase_cons]
    by_cases h : n = m
    · subst h
      rw [own_cons_self, List.erase_cons]
      by_cases hab : b = a
      · simp [hab]
      · rw [if_neg (by simp [hab]), if_neg (by simp [hab]), own_cons_self, ih]
    · rw [if_neg (by simp [h]), own_cons_of_ne h, own_cons_of_ne h, ih]

theorem own_erase_of_ne {α : Type} [DecidableEq α] {m n : ι} (h : n ≠ m) (a : α) (l : List (ι × α)) :
    own m (l.erase (n, a)) = own m l := by
  induction l with
  | nil => rfl
  | cons x rest ih =>
    obtain ⟨k, b⟩ := x
    rw [List.erase_cons]
    split
    · rename_i heq
      obtain ⟨rfl, -⟩ := Prod.mk.inj (beq_iff_eq.mp heq)
      rw [own_cons_of_ne h]
    · unfold own at ih ⊢
      rw [List.filterMap_cons, List.filterMap_cons, ih]

/-- A member of a family gives the outputs that it would give alone. -/
theorem outputs_own (m : ι) (s : ι → σ) (l : List (ι × I)) :
    own m (familyOutputs step s l) = outputs step (s m) (own m l) := by
  induction l generalizing s with
  | nil => rfl
  | cons x rest ih =>
    obtain ⟨n, i⟩ := x
    rw [familyOutputs, own_append, ih]
    by_cases h : n = m
    · subst h
      rw [own_map_self, Function.update_self]
      simp [own, outputs]
    · rw [own_map_ne h, Function.update_of_ne (Ne.symm h), List.nil_append]
      simp [own, h]

/-- What holds between any two outputs of one member, and between outputs of two
members, holds between any two outputs. -/
theorem pairwise_of_own {α : Type} {R : ι × α → ι × α → Prop} {l : List (ι × α)}
    (hown : ∀ m, (own m l).Pairwise fun a b => R (m, a) (m, b))
    (hother : ∀ x ∈ l, ∀ y ∈ l, x.1 ≠ y.1 → R x y) : l.Pairwise R := by
  induction l with
  | nil => exact .nil
  | cons x rest ih =>
    obtain ⟨m, a⟩ := x
    refine .cons ?_ (ih ?_ ?_)
    · rintro ⟨n, b⟩ hb
      by_cases h : m = n
      · subst h
        have := hown m
        rw [own_cons_self] at this
        refine List.rel_of_pairwise_cons this (List.mem_filterMap.mpr ⟨(m, b), hb, ?_⟩)
        exact if_pos rfl
      · exact hother _ (List.mem_cons_self ..) _ (List.mem_cons_of_mem _ hb) h
    · intro n
      have hsub : (own n rest).Sublist (own n ((m, a) :: rest)) :=
        (List.sublist_cons_self ..).filterMap _
      exact (hown n).sublist hsub
    · exact fun x hx y hy => hother x (List.mem_cons_of_mem _ hx) y (List.mem_cons_of_mem _ hy)

end Family

end AudioPlatform.Concurrency.Machine
