import AudioPlatform.Concurrency.Program

/-! Tasks that interleave at their actions, and proof outlines for them.

A `System` says what one action of a task does to the shared state and what a
task at rest may start. Between two actions of a task any other task may act.

An `Outline` is what one proves of such a system task by task. `rely t` is what
the other tasks may do to the state while `t` waits, `guar t` what one action of
`t` does, `rest t` what holds of `t` at rest. Each task carries a ghost value
that its actions may change, so that a guarantee can say what the task still
owes. `Outline.Meets` is the judgement on a program; it is closed under the rely
by definition, so a program needs no separate stability proof. `invariant` is
the rule for the whole system: if every program a task can start meets the
outline and every guarantee is within every other task's rely, then the outline
holds in every state reached. -/
namespace AudioPlatform.Concurrency

variable {Task Op Phase σ Γ α β : Type} {Result : Op → Type}

structure System (Task Op : Type) (Result : Op → Type) (Phase σ : Type) where
  /-- `exec t o s r s'`: in `s` task `t` performs `o`, which returns `r` and leaves `s'`. -/
  exec : Task → (o : Op) → σ → Result o → σ → Prop
  /-- What a task at rest may start. -/
  starts : Task → Phase → Program Op Result Phase → Prop

structure Config (Task Op : Type) (Result : Op → Type) (Phase σ : Type) where
  shared : σ
  tasks : Task → Program Op Result Phase

/-- The task has no program in progress. -/
def Config.AtRest (c : Config Task Op Result Phase σ) (t : Task) : Prop :=
  ∃ φ, c.tasks t = .done φ

section Steps
variable [DecidableEq Task] (S : System Task Op Result Phase σ)

inductive Step : Config Task Op Result Phase σ → Config Task Op Result Phase σ → Prop where
  | act {c : Config Task Op Result Phase σ} {t : Task} {o : Op}
      {next : Result o → Program Op Result Phase} {r : Result o} {s' : σ} :
      c.tasks t = .act o next → S.exec t o c.shared r s' →
      Step c ⟨s', Function.update c.tasks t (next r)⟩
  | start {c : Config Task Op Result Phase σ} {t : Task} {φ : Phase}
      {p : Program Op Result Phase} :
      c.tasks t = .done φ → S.starts t φ p → Step c ⟨c.shared, Function.update c.tasks t p⟩

/-- Reached from `c₀` by steps that all satisfy `P`. -/
inductive Reaches (P : Config Task Op Result Phase σ → Config Task Op Result Phase σ → Prop)
    (c₀ : Config Task Op Result Phase σ) : Config Task Op Result Phase σ → Prop where
  | refl : Reaches P c₀ c₀
  | step {c c' : Config Task Op Result Phase σ} :
      Reaches P c₀ c → Step S c c' → P c c' → Reaches P c₀ c'

variable {S}

theorem Reaches.mono {P Q : Config Task Op Result Phase σ → Config Task Op Result Phase σ → Prop}
    {c₀ c : Config Task Op Result Phase σ} (hPQ : ∀ c c', P c c' → Q c c')
    (h : Reaches S P c₀ c) : Reaches S Q c₀ c := by
  induction h with
  | refl => exact .refl
  | step _ hs hp ih => exact .step ih hs (hPQ _ _ hp)

end Steps

/-- What is proved of each task: see the head of the file. `common` relates the
ghost values of all tasks to the state; `inv` is the part of it a program may use. -/
structure Outline (Task Phase σ Γ : Type) where
  rely : Task → σ → σ → Prop
  guar : Task → Γ → σ → Γ → σ → Prop
  rest : Task → Phase → Γ → σ → Prop
  common : (Task → Γ) → σ → Prop
  inv : σ → Prop
  rely_refl : ∀ t s, rely t s s
  rely_trans : ∀ t s s' s'', rely t s s' → rely t s' s'' → rely t s s''
  common_inv : ∀ γ s, common γ s → inv s

namespace Outline
variable (S : System Task Op Result Phase σ) (O : Outline Task Phase σ Γ)

/-- From ghost `γ` and state `s`, whatever the others do in between, every action
of the program is within the guarantee and the program ends in `post`. -/
def Meets (t : Task) (post : α → Γ → σ → Prop) : Program Op Result α → Γ → σ → Prop
  | .done a, γ, s => ∀ s', O.rely t s s' → O.inv s' → post a γ s'
  | .act o next, γ, s => ∀ s', O.rely t s s' → O.inv s' → ∀ r s'', S.exec t o s' r s'' →
      ∃ γ', O.guar t γ s' γ' s'' ∧ Meets t post (next r) γ' s''

variable {S O} {t : Task} {post : α → Γ → σ → Prop} {p : Program Op Result α} {γ : Γ} {s s' : σ}

/-- The judgement survives what the others do. -/
theorem Meets.stable (h : O.Meets S t post p γ s) (hr : O.rely t s s') :
    O.Meets S t post p γ s' := by
  cases p with
  | done a => exact fun u hu => h u (O.rely_trans t s s' u hr hu)
  | act o next => exact fun u hu => h u (O.rely_trans t s s' u hr hu)

theorem Meets.mono {post' : α → Γ → σ → Prop} (h : O.Meets S t post p γ s)
    (hpost : ∀ a γ s, O.inv s → post a γ s → post' a γ s) : O.Meets S t post' p γ s := by
  induction p generalizing γ s with
  | done a => exact fun s' hr hi => hpost a γ s' hi (h s' hr hi)
  | act o next ih =>
    intro s' hr hi r s'' he
    obtain ⟨γ', hg, hm⟩ := h s' hr hi r s'' he
    exact ⟨γ', hg, ih r hm⟩

/-- Two programs in sequence. -/
theorem Meets.bind {f : α → Program Op Result β} {post' : β → Γ → σ → Prop}
    (h : O.Meets S t post p γ s) (hi : O.inv s)
    (hinv : ∀ u γ s γ' s', O.inv s → O.guar u γ s γ' s' → O.inv s')
    (hf : ∀ a γ s, O.inv s → post a γ s → O.Meets S t post' (f a) γ s) :
    O.Meets S t post' (p >>= f) γ s := by
  induction p generalizing γ s with
  | done a => exact hf a γ s hi (h s (O.rely_refl t s) hi)
  | act o next ih =>
    intro s' hr hi' r s'' he
    obtain ⟨γ', hg, hm⟩ := h s' hr hi' r s'' he
    exact ⟨γ', hg, ih r hm (hinv t γ s' γ' s'' hi' hg)⟩

variable (S O)

/-- Every task meets the outline with its ghost value, and the ghosts agree with the state. -/
structure Holds (c : Config Task Op Result Phase σ) (γ : Task → Γ) : Prop where
  tasks : ∀ t, O.Meets S t (O.rest t) (c.tasks t) (γ t) c.shared
  common : O.common γ c.shared

variable {S O}

/-- A task at rest satisfies its assertion at rest. -/
theorem Holds.rest {c : Config Task Op Result Phase σ} {γ : Task → Γ} (h : O.Holds S c γ)
    {t : Task} {φ : Phase} (ht : c.tasks t = .done φ) : O.rest t φ (γ t) c.shared := by
  have := h.tasks t
  rw [ht] at this
  exact this c.shared (O.rely_refl t c.shared) (O.common_inv γ c.shared h.common)

/-- **The rule for the whole system.** -/
theorem invariant [DecidableEq Task]
    {P : Config Task Op Result Phase σ → Config Task Op Result Phase σ → Prop}
    (hstart : ∀ t φ γ s p, O.inv s → O.rest t φ γ s → S.starts t φ p → O.Meets S t (O.rest t) p γ s)
    (hcompat : ∀ c γ t o next r s' γ', O.Holds S c γ → c.tasks t = .act o next →
      S.exec t o c.shared r s' → P c ⟨s', Function.update c.tasks t (next r)⟩ →
      O.guar t (γ t) c.shared γ' s' →
      (∀ u, u ≠ t → O.rely u c.shared s') ∧ O.common (Function.update γ t γ') s')
    {c₀ c : Config Task Op Result Phase σ} {γ₀ : Task → Γ} (h₀ : O.Holds S c₀ γ₀)
    (hc : Reaches S P c₀ c) : ∃ γ, O.Holds S c γ := by
  induction hc with
  | refl => exact ⟨γ₀, h₀⟩
  | step _ hs hP ih =>
    obtain ⟨γ, h⟩ := ih
    cases hs with
    | @act t o next r s' ht he =>
      have hm := h.tasks t
      rw [ht] at hm
      obtain ⟨γ', hg, hnext⟩ := hm _ (O.rely_refl t _) (O.common_inv γ _ h.common) r s' he
      obtain ⟨hrely, hcommon⟩ := hcompat _ γ t o next r s' γ' h ht he hP hg
      refine ⟨Function.update γ t γ', fun u => ?_, hcommon⟩
      by_cases hu : u = t
      · subst hu
        simpa only [Function.update_self] using hnext
      · simpa only [Function.update_of_ne hu] using (h.tasks u).stable (hrely u hu)
    | @start t φ p ht hp =>
      refine ⟨γ, fun u => ?_, h.common⟩
      by_cases hu : u = t
      · subst hu
        simpa only [Function.update_self] using
          hstart u φ (γ u) _ p (O.common_inv γ _ h.common) (h.rest ht) hp
      · simpa only [Function.update_of_ne hu] using h.tasks u

end Outline

end AudioPlatform.Concurrency
