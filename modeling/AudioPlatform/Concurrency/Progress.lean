import Mathlib.Data.Finset.Insert
import Mathlib.Logic.Hydra
import AudioPlatform.Concurrency.Interleaving

/-! Tasks that finish what they have begun.

A program is a finite tree, so a finite number of tasks can take only so many actions before all of
them are at rest (`acc_acts`). They get there if none of them waits forever: where each takes its
locks in the order of their ranks, one of them can always go on (`exists_unblocked`). `Expects` is the
discipline of a program that relies on what its actions return. -/
namespace AudioPlatform.Concurrency

variable {Task Op Phase σ α β : Type} {Result : Op → Type}

/-! ### Locks in order -/

/-- Of the tasks that take locks in the order of their ranks, one is not blocked. -/
theorem exists_unblocked {Lock : Type} (rank : Lock → Nat) (bound : Nat) (active : Task → Prop)
    (needs holds : Task → Lock → Prop) (conflicts : Lock → Lock → Prop)
    (hbound : ∀ k, rank k ≤ bound) (hrank : ∀ k h, conflicts k h → rank k = rank h)
    (hactive : ∀ t h, holds t h → active t)
    (horder : ∀ t k h, needs t k → holds t h → rank h < rank k) {t : Task} (ht : active t) :
    ∃ u, active u ∧ ∀ k h v, needs u k → holds v h → ¬ conflicts k h := by
  by_contra hblocked
  push Not at hblocked
  -- Who is blocked waits for one that is blocked at a higher rank.
  have hclimbs : ∀ n, ∃ k h v, holds v h ∧ conflicts k h ∧ n ≤ rank k := by
    intro n
    induction n with
    | zero =>
      obtain ⟨k, h, v, -, hh, hconflict⟩ := hblocked t ht
      exact ⟨k, h, v, hh, hconflict, Nat.zero_le _⟩
    | succ n ih =>
      obtain ⟨k, h, v, hh, hconflict, hn⟩ := ih
      obtain ⟨k', h', v', hk', hh', hconflict'⟩ := hblocked v (hactive v h hh)
      have hless := horder v k' h hk' hh
      rw [← hrank k h hconflict] at hless
      exact ⟨k', h', v', hh', hconflict', Nat.lt_of_le_of_lt hn hless⟩
  obtain ⟨k, -, -, -, -, hk⟩ := hclimbs (bound + 1)
  exact absurd (hbound k) (Nat.not_le.mpr hk)

/-! ### Actions come to an end -/

/-- What is left of a program after an action. -/
inductive Program.Remains : Program Op Result α → Program Op Result α → Prop where
  | intro (o : Op) (next : Result o → Program Op Result α) (r : Result o) : Remains (next r) (.act o next)

theorem Program.acc_remains (p : Program Op Result α) : Acc Program.Remains p := by
  induction p with
  | done a => exact ⟨_, fun _ h => nomatch h⟩
  | act o next ih =>
    refine ⟨_, fun q h => ?_⟩
    cases h with
    | intro _ _ r => exact ih r

section Acts
variable [DecidableEq Task] (S : System Task Op Result Phase σ)

/-- A step of the system that starts nothing new. -/
inductive Acts : Config Task Op Result Phase σ → Config Task Op Result Phase σ → Prop where
  | act {c : Config Task Op Result Phase σ} {t : Task} {o : Op}
      {next : Result o → Program Op Result Phase} {r : Result o} {s' : σ} :
      c.tasks t = .act o next → S.exec t o c.shared r s' →
      Acts c ⟨s', Function.update c.tasks t (next r)⟩

variable {S} {c c' : Config Task Op Result Phase σ}

theorem Acts.step (h : Acts S c c') : Step S c c' := by
  cases h with
  | act ht he => exact .act ht he

theorem Acts.mono {S' : System Task Op Result Phase σ}
    (hexec : ∀ t o s r s', S.exec t o s r s' → S'.exec t o s r s') (h : Acts S c c') : Acts S' c c' := by
  cases h with
  | act ht he => exact .act ht (hexec _ _ _ _ _ he)

/-- The tasks outside are at rest. -/
def Config.Within (c : Config Task Op Result Phase σ) (T : Finset Task) : Prop := ∀ t, t ∉ T → c.AtRest t

/-- The programs that are left. -/
def Config.programs (c : Config Task Op Result Phase σ) (T : Finset Task) :
    Multiset (Program Op Result Phase) := T.val.map c.tasks

theorem Acts.within {T : Finset Task} (h : Acts S c c') (hT : c.Within T) : c'.Within T ∧
    Relation.CutExpand Program.Remains (c'.programs T) (c.programs T) := by
  cases h with
  | @act t o next r s' ht he =>
    have hmem : t ∈ T := by
      by_contra hout
      obtain ⟨φ, hφ⟩ := hT t hout
      cases ht.symm.trans hφ
    constructor
    · intro u hu
      obtain ⟨φ, hφ⟩ := hT u hu
      refine ⟨φ, ?_⟩
      show Function.update c.tasks t (next r) u = _
      rw [Function.update_of_ne fun he : u = t => hu (he ▸ hmem)]
      exact hφ
    · have hothers : (T.val.erase t).map (Function.update c.tasks t (next r)) =
          (T.val.erase t).map c.tasks := by
        refine Multiset.map_congr rfl fun u hu => Function.update_of_ne ?_ _ _
        rintro rfl
        exact T.nodup.notMem_erase hu
      refine ⟨{next r}, .act o next, ?_, ?_⟩
      · intro q hq
        rw [Multiset.mem_singleton.mp hq]
        exact .intro o next r
      · unfold Config.programs
        show T.val.map (Function.update c.tasks t (next r)) + {Program.act o next} =
          T.val.map c.tasks + {next r}
        rw [← Multiset.cons_erase hmem, Multiset.map_cons, Multiset.map_cons, hothers,
          Function.update_self, ht, Multiset.cons_add, Multiset.cons_add, add_comm _ {_},
          add_comm _ {_}, Multiset.singleton_add, Multiset.singleton_add, Multiset.cons_swap]

/-- **There is no endless run of actions.** -/
theorem acc_acts {T : Finset Task} (hT : c.Within T) : Acc (fun a b => Acts S b a) c := by
  have hwf : WellFounded (Relation.CutExpand fun p q : Program Op Result Phase => p.Remains q) :=
    WellFounded.cutExpand ⟨Program.acc_remains⟩
  generalize hm : c.programs T = m
  induction hwf.apply m generalizing c with
  | intro m _ ih =>
    subst hm
    refine ⟨_, fun c' h => ?_⟩
    obtain ⟨hT', hcut⟩ := Acts.within h hT
    exact ih _ hcut hT' rfl

theorem within_step {T : Finset Task} (h : Step S c c') (hT : c.Within T) :
    ∃ T' : Finset Task, c'.Within T' := by
  cases h with
  | act ht he => exact ⟨T, ((Acts.act ht he : Acts S c _).within hT).1⟩
  | @start t φ p ht hp =>
    refine ⟨insert t T, fun u hu => ?_⟩
    obtain ⟨hut, hu⟩ := not_or.mp fun h => hu (Finset.mem_insert.mpr h)
    obtain ⟨ψ, hψ⟩ := hT u hu
    exact ⟨ψ, (Function.update_of_ne hut ..).trans hψ⟩

/-- Only so many tasks are in the middle of a program. -/
theorem exists_within {P : Config Task Op Result Phase σ → Config Task Op Result Phase σ → Prop}
    {c₀ : Config Task Op Result Phase σ} (h₀ : ∀ t, c₀.AtRest t) (h : Reaches S P c₀ c) :
    ∃ T : Finset Task, c.Within T := by
  induction h with
  | refl => exact ⟨∅, fun t _ => h₀ t⟩
  | step _ hs _ ih =>
    obtain ⟨T, hT⟩ := ih
    exact within_step hs hT

end Acts

/-! ### What a program expects -/

namespace Program
variable {G : Type} {may : G → Op → Prop} {gives : G → (o : Op) → Result o → Prop}
  {after : G → (o : Op) → Result o → G} {mid : α → G → Prop} {fin : β → G → Prop} {g : G}

/-- The program keeps a discipline from `g` on, as long as its actions return what `gives` says. -/
def Expects (may : G → Op → Prop) (gives : G → (o : Op) → Result o → Prop)
    (after : G → (o : Op) → Result o → G) (fin : α → G → Prop) : Program Op Result α → G → Prop
  | .done a, g => fin a g
  | .act o next, g => may g o ∧ ∀ r, gives g o r → Expects may gives after fin (next r) (after g o r)

theorem Expects.bind {p : Program Op Result α} {f : α → Program Op Result β}
    (hp : Expects may gives after mid p g) (hf : ∀ a g, mid a g → Expects may gives after fin (f a) g) :
    Expects may gives after fin (p >>= f) g := by
  induction p generalizing g with
  | done a => exact hf a g hp
  | act o next ih => exact ⟨hp.1, fun r hr => ih r (hp.2 r hr)⟩

end Program

end AudioPlatform.Concurrency
