import Mathlib.Logic.Relation
import Mathlib.Logic.Function.Basic

/-! Programs as trees of atomic actions.

A task is a finite tree: it has finished with a value, or it performs one atomic
action and continues with what the action returned. The tree is written once, in
the order of the source, and read twice: `Program.alone` runs it to the end with
nothing in between, and `Interleaving` lets any other task act between any two of
its actions. -/
namespace AudioPlatform.Concurrency

/-- A program over the actions `Op`, where `o : Op` returns a `Result o`. -/
inductive Program (Op : Type) (Result : Op → Type) (α : Type) : Type where
  | done (a : α)
  | act (o : Op) (next : Result o → Program Op Result α)

namespace Program
variable {Op : Type} {Result : Op → Type} {α β σ : Type}

def bind : Program Op Result α → (α → Program Op Result β) → Program Op Result β
  | .done a, f => f a
  | .act o next, f => .act o fun r => (next r).bind f

instance : Monad (Program Op Result) where
  pure := .done
  bind := Program.bind

/-- One action, returning what it returns. -/
def perform (o : Op) : Program Op Result (Result o) := .act o .done

@[simp] theorem pure_eq (a : α) : (pure a : Program Op Result α) = .done a := rfl

@[simp] theorem done_bind (a : α) (f : α → Program Op Result β) : (.done a >>= f) = f a := rfl

@[simp] theorem act_bind (o : Op) (next : Result o → Program Op Result α)
    (f : α → Program Op Result β) : (.act o next >>= f) = .act o fun r => next r >>= f := rfl

@[simp] theorem perform_bind (o : Op) (f : Result o → Program Op Result β) :
    (perform o >>= f) = .act o f := rfl

theorem bind_assoc {γ : Type} (p : Program Op Result α) (f : α → Program Op Result β)
    (g : β → Program Op Result γ) : (p >>= f >>= g) = p >>= fun a => f a >>= g := by
  induction p with
  | done a => rfl
  | act o next ih => exact congrArg (Program.act o) (funext ih)

/-! ### Every action -/

/-- Every action of the program satisfies `Q`, whatever the actions before it returned. -/
def All (Q : Op → Prop) : Program Op Result α → Prop
  | .done _ => True
  | .act o next => Q o ∧ ∀ r, (next r).All Q

theorem All.bind {Q : Op → Prop} {p : Program Op Result α} {f : α → Program Op Result β}
    (hp : p.All Q) (hf : ∀ a, (f a).All Q) : (p >>= f).All Q := by
  induction p with
  | done a => exact hf a
  | act o next ih => exact ⟨hp.1, fun r => ih r (hp.2 r)⟩

theorem All.mono {Q Q' : Op → Prop} {p : Program Op Result α} (h : ∀ o, Q o → Q' o)
    (hp : p.All Q) : p.All Q' := by
  induction p with
  | done a => trivial
  | act o next ih => exact ⟨h o hp.1, fun r => ih r (hp.2 r)⟩

/-! ### Disciplines -/

section Obeys
variable {G : Type} {may may' : G → Op → Prop} {after : G → (o : Op) → Result o → G}
  {mid fin' : α → G → Prop} {fin : β → G → Prop} {g : G}

/-- The program keeps a discipline from `g` on: `may g o` says that `o` is allowed at `g`,
`after g o r` where the program is once `o` has returned `r`, and `fin` where it may end. -/
def Obeys (may : G → Op → Prop) (after : G → (o : Op) → Result o → G) (fin : α → G → Prop) :
    Program Op Result α → G → Prop
  | .done a, g => fin a g
  | .act o next, g => may g o ∧ ∀ r, Obeys may after fin (next r) (after g o r)

theorem Obeys.bind {p : Program Op Result α} {f : α → Program Op Result β}
    (hp : Obeys may after mid p g) (hf : ∀ a g, mid a g → Obeys may after fin (f a) g) :
    Obeys may after fin (p >>= f) g := by
  induction p generalizing g with
  | done a => exact hf a g hp
  | act o next ih => exact ⟨hp.1, fun r => ih r (hp.2 r)⟩

/-- A discipline that allows less, as seen through a relation of the places in the two. -/
theorem Obeys.simulates {G' : Type} {may' : G' → Op → Prop}
    {after' : G' → (o : Op) → Result o → G'} {fin' : α → G' → Prop} {R : G → G' → Prop} {g' : G'}
    {p : Program Op Result α} (hp : Obeys may after mid p g) (hR : R g g')
    (hmay : ∀ g g' o, R g g' → may g o → may' g' o ∧ ∀ r, R (after g o r) (after' g' o r))
    (hfin : ∀ a g g', R g g' → mid a g → fin' a g') : Obeys may' after' fin' p g' := by
  induction p generalizing g g' with
  | done a => exact hfin a g g' hR hp
  | act o next ih =>
    obtain ⟨ho, hnext⟩ := hmay g g' o hR hp.1
    exact ⟨ho, fun r => ih r (hp.2 r) (hnext r)⟩

theorem Obeys.mono {p : Program Op Result α} (hp : Obeys may after mid p g)
    (hmay : ∀ g o, may g o → may' g o) (hfin : ∀ a g, mid a g → fin' a g) :
    Obeys may' after fin' p g := by
  refine hp.simulates (R := Eq) rfl ?_ ?_
  · rintro g _ o rfl ho
    exact ⟨hmay g o ho, fun _ => rfl⟩
  · rintro a g _ rfl ha
    exact hfin a g ha

theorem Obeys.all {Q : Op → Prop} {p : Program Op Result α} (hp : Obeys may after mid p g)
    (hQ : ∀ g o, may g o → Q o) : p.All Q := by
  induction p generalizing g with
  | done a => trivial
  | act o next ih => exact ⟨hQ g o hp.1, fun r => ih r (hp.2 r)⟩

end Obeys

/-! ### Running alone -/

/-- What an action does to the state and returns; `none` where it cannot proceed. -/
abbrev Effect (Op : Type) (Result : Op → Type) (σ : Type) : Type :=
  (o : Op) → σ → Option (Result o × σ)

/-- The program run to its end with nothing in between. -/
def alone (effect : Effect Op Result σ) : Program Op Result α → σ → Option (α × σ)
  | .done a, s => some (a, s)
  | .act o next, s => (effect o s).bind fun (r, s') => (next r).alone effect s'

@[simp] theorem alone_done (effect : Effect Op Result σ) (a : α) (s : σ) :
    alone effect (.done a) s = some (a, s) := rfl

theorem alone_act {effect : Effect Op Result σ} {o : Op} {next : Result o → Program Op Result α}
    {s s' : σ} {r : Result o} (h : effect o s = some (r, s')) :
    alone effect (.act o next) s = alone effect (next r) s' := by
  simp only [alone, h, Option.bind_some]

theorem alone_bind (effect : Effect Op Result σ) (p : Program Op Result α)
    (f : α → Program Op Result β) (s : σ) :
    alone effect (p >>= f) s = (alone effect p s).bind fun (a, s') => alone effect (f a) s' := by
  induction p generalizing s with
  | done a => rfl
  | act o next ih =>
    simp only [act_bind, alone]
    cases effect o s with
    | none => rfl
    | some rs => exact ih rs.1 rs.2

/-- A program followed by another, once the first is known to end. -/
theorem alone_bind_some {effect : Effect Op Result σ} {p : Program Op Result α}
    {f : α → Program Op Result β} {s s' : σ} {a : α} (h : alone effect p s = some (a, s')) :
    alone effect (p >>= f) s = alone effect (f a) s' := by
  rw [alone_bind, h]
  rfl

end Program

end AudioPlatform.Concurrency
