import Mathlib.Data.List.Infix
import AudioPlatform.Concurrency.Machine

/-! Two parties and a queue.

The near party takes inputs; what it puts out goes into a queue, in order and without
loss, and the far party takes one message at a time, whenever it likes. What the two
have in common can be seen when the queue is empty. If each input, followed by the
messages it gives rise to, keeps an invariant, then the invariant holds whenever the
queue is empty (`inv_of_reaches`), however the inputs and the messages interleave. -/
namespace AudioPlatform.Concurrency.Queued

variable {σ I M ρ : Type} (step : σ → I → σ × List M) (take : ρ → M → ρ → Prop)

/-- What taking the messages one after the other may leave. -/
def TakesAll : List M → ρ → ρ → Prop
  | [], r, r' => r = r'
  | m :: rest, r, r'' => ∃ r', take r m r' ∧ TakesAll rest r' r''

structure State (σ M ρ : Type) where
  near : σ
  queue : List M
  far : ρ

/-- What can be reached with these inputs. -/
inductive Reaches (s : σ) (r : ρ) : List I → State σ M ρ → Prop where
  | start : Reaches s r [] ⟨s, [], r⟩
  | input {is : List I} {c : State σ M ρ} (i : I) : Reaches s r is c →
    Reaches s r (is ++ [i]) ⟨(step c.near i).1, c.queue ++ (step c.near i).2, c.far⟩
  | take {is : List I} {s' : σ} {m : M} {rest : List M} {r₁ r₂ : ρ} :
    Reaches s r is ⟨s', m :: rest, r₁⟩ → take r₁ m r₂ → Reaches s r is ⟨s', rest, r₂⟩

variable {step take} {s : σ} {r : ρ} {is : List I} {c : State σ M ρ}

theorem takesAll_append {a b : List M} {r r'' : ρ} :
    TakesAll take (a ++ b) r r'' ↔ ∃ r', TakesAll take a r r' ∧ TakesAll take b r' r'' := by
  induction a generalizing r with
  | nil => exact ⟨fun h => ⟨r, rfl, h⟩, fun ⟨_, h, h'⟩ => h ▸ h'⟩
  | cons m rest ih =>
    constructor
    · rintro ⟨r₁, hm, h⟩
      obtain ⟨r', h, h'⟩ := ih.mp h
      exact ⟨r', ⟨r₁, hm, h⟩, h'⟩
    · rintro ⟨r', ⟨r₁, hm, h⟩, h'⟩
      exact ⟨r₁, hm, ih.mpr ⟨r', h, h'⟩⟩

/-- The near party does not see the queue. -/
theorem near_of_reaches (h : Reaches step take s r is c) : c.near = Machine.run step s is := by
  induction h with
  | start => rfl
  | input i _ ih =>
    rw [Machine.run_append, ← ih]
    rfl
  | take _ _ ih => exact ih

/-! ### Safety -/

variable {C : σ → I → Prop} {Inv : σ → ρ → Prop}

/-- The invariant is there once the queue has been taken. -/
theorem inv_takesAll (hstep : ∀ s i r r', Inv s r → C s i → TakesAll take (step s i).2 r r' →
      Inv (step s i).1 r') (hinv : Inv s r) (h : Reaches step take s r is c)
    (hC : Machine.Along step C s is) : ∀ r', TakesAll take c.queue c.far r' → Inv c.near r' := by
  induction h with
  | start =>
    rintro r' rfl
    exact hinv
  | @input is c i h ih =>
    intro r'' hr
    obtain ⟨hbefore, hi, -⟩ := Machine.along_append.mp hC
    obtain ⟨r', hr, hr'⟩ := takesAll_append.mp hr
    rw [← near_of_reaches h] at hi
    exact hstep c.near i r' r'' (ih hbefore r' hr) hi hr'
  | take _ hm ih => exact fun r' hr => ih hC r' ⟨_, hm, hr⟩

theorem inv_of_reaches (hstep : ∀ s i r r', Inv s r → C s i → TakesAll take (step s i).2 r r' →
      Inv (step s i).1 r') (hinv : Inv s r) (h : Reaches step take s r is c)
    (hC : Machine.Along step C s is) (hempty : c.queue = []) : Inv c.near c.far :=
  inv_takesAll hstep hinv h hC c.far (by rw [hempty]; rfl)

/-! ### Every queue can be taken -/

theorem reaches_takesAll {s' : σ} {q : List M} {r₁ r₂ : ρ} (h : Reaches step take s r is ⟨s', q, r₁⟩)
    (hq : TakesAll take q r₁ r₂) : Reaches step take s r is ⟨s', [], r₂⟩ := by
  induction q generalizing r₁ with
  | nil => exact hq ▸ h
  | cons m rest ih =>
    obtain ⟨r', hm, hq⟩ := hq
    exact ih (h.take hm) hq

section Live
variable {Ready : ρ → Prop}

theorem exists_takesAll (hlive : ∀ r m, Ready r → ∃ r', take r m r' ∧ Ready r') (q : List M)
    (hr : Ready r) : ∃ r', TakesAll take q r r' ∧ Ready r' := by
  induction q generalizing r with
  | nil => exact ⟨r, rfl, hr⟩
  | cons m rest ih =>
    obtain ⟨r₁, hm, hr₁⟩ := hlive r m hr
    obtain ⟨r', hq, hr'⟩ := ih hr₁
    exact ⟨r', ⟨r₁, hm, hq⟩, hr'⟩

/-- Any inputs can be followed by as many messages as it takes to empty the queue. -/
theorem exists_reaches (hlive : ∀ r m, Ready r → ∃ r', take r m r' ∧ Ready r') (s : σ) (hr : Ready r)
    (is : List I) :
    ∃ r', Reaches step take s r is ⟨Machine.run step s is, [], r'⟩ ∧ Ready r' := by
  induction is using List.reverseRecOn with
  | nil => exact ⟨r, .start, hr⟩
  | append_singleton is i ih =>
    obtain ⟨r₁, h, hr₁⟩ := ih
    obtain ⟨r', hq, hr'⟩ := exists_takesAll hlive (step (Machine.run step s is) i).2 hr₁
    refine ⟨r', ?_, hr'⟩
    rw [Machine.run_append]
    exact reaches_takesAll (h.input i) hq

/-- **When the two agree.** Suppose that an input keeps the invariant if it meets the condition,
and breaks what the invariant promises if it does not. Then what is promised holds whenever
the queue is empty exactly if every input meets the condition. -/
theorem promise_iff_along {Good : σ → ρ → Prop}
    (hlive : ∀ r m, Ready r → ∃ r', take r m r' ∧ Ready r') (hr : Ready r) (hinv : Inv s r)
    (hgood : ∀ s r, Inv s r → Good s r)
    (hstep : ∀ s i r r', Inv s r → C s i → TakesAll take (step s i).2 r r' → Inv (step s i).1 r')
    (hbreak : ∀ s i r r', Inv s r → ¬ C s i → TakesAll take (step s i).2 r r' →
      ¬ Good (step s i).1 r') :
    (∀ done c, done <+: is → Reaches step take s r done c → c.queue = [] → Good c.near c.far) ↔
      Machine.Along step C s is := by
  constructor
  · intro h
    by_contra hC
    obtain ⟨before, i, after, rfl, hbefore, hi⟩ := Machine.exists_of_not_along hC
    obtain ⟨r₁, hreach, hr₁⟩ : ∃ r₁, Reaches step take s r before
        ⟨Machine.run step s before, [], r₁⟩ ∧ Ready r₁ := exists_reaches hlive s hr before
    obtain ⟨r', hq, -⟩ := exists_takesAll hlive (step (Machine.run step s before) i).2 hr₁
    have hreach' := reaches_takesAll (hreach.input i) hq
    apply hbreak _ i r₁ r' (inv_of_reaches hstep hinv hreach hbefore rfl) hi hq
    exact h (before ++ [i]) _ ⟨after, by simp⟩ hreach' rfl
  · rintro hC done c ⟨rest, rfl⟩ hreach hempty
    exact hgood _ _ (inv_of_reaches hstep hinv hreach (Machine.along_append.mp hC).1 hempty)

end Live

end AudioPlatform.Concurrency.Queued
