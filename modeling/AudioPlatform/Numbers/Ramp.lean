import Mathlib.Algebra.Order.Field.Basic
import Mathlib.Data.List.Range
import Mathlib.Tactic.FieldSimp
import Mathlib.Tactic.Linarith
import Mathlib.Tactic.Positivity
import Mathlib.Tactic.Ring

/-! Gains that change without a jump.

Gains come in frames. A frame comes from one value and goes to another, which it reaches after `n`
samples; a run of frames each of which comes from where the one before it went has no jump between
two samples, in a frame or across. -/
namespace AudioPlatform.Numbers

variable {K : Type} [Field K] [LinearOrder K] [IsStrictOrderedRing K]

/-- A frame of gains between 0 and 1 from `p` to `t`: up to `ε` it starts at `p`, and up to `δ` it is
at `t` from sample `n` on. -/
structure Ramped (n : ℕ) (ε δ p t : K) (g : ℕ → K) : Prop where
  start : |g 0 - p| ≤ ε
  step : ∀ s, |g (s + 1) - g s| ≤ 1 / n
  settled : ∀ s, n ≤ s → |g s - t| ≤ δ
  within : ∀ s, 0 ≤ g s ∧ g s ≤ 1

variable {n : ℕ} {ε δ p t : K}

theorem ramped_const {c : K} (h0 : 0 ≤ c) (h1 : c ≤ 1) (hp : |c - p| ≤ ε) (ht : |c - t| ≤ δ) :
    Ramped n ε δ p t fun _ => c where
  start := hp
  step _ := by
    rw [sub_self, abs_zero]
    positivity
  settled _ _ := ht
  within _ := ⟨h0, h1⟩

/-- No sample is louder at a gain. -/
theorem Ramped.abs_mul_le {g : ℕ → K} (h : Ramped n ε δ p t g) (x : K) (s : ℕ) : |x * g s| ≤ |x| := by
  rw [abs_mul, abs_of_nonneg (h.within s).1]
  exact mul_le_of_le_one_right (abs_nonneg x) (h.within s).2

/-- The straight line from `p` to `t` in `n` samples. -/
def line (n : ℕ) (p t : K) (s : ℕ) : K := if s < n then p + (t - p) * (s / n) else t

/-- The line is a mean of its ends. -/
theorem line_eq (n : ℕ) (p t : K) (s : ℕ) :
    ∃ w : K, 0 ≤ w ∧ w ≤ 1 ∧ line n p t s = p + (t - p) * w := by
  unfold line
  split
  · rename_i hs
    have hn : (0 : K) < n := by exact_mod_cast (Nat.zero_le s).trans_lt hs
    refine ⟨s / n, by positivity, ?_, rfl⟩
    rw [div_le_one hn]
    exact_mod_cast hs.le
  · exact ⟨1, zero_le_one, le_refl 1, by ring⟩

theorem line_step (hn : 0 < n) (p t : K) (s : ℕ) :
    line n p t (s + 1) - line n p t s = if s < n then (t - p) * (1 / n) else 0 := by
  have hn' : (n : K) ≠ 0 := by exact_mod_cast hn.ne'
  unfold line
  rcases lt_trichotomy (s + 1) n with hs | hs | hs
  · rw [if_pos hs, if_pos (by omega), if_pos (by omega)]
    push_cast
    field_simp
    ring
  · rw [if_neg (by omega), if_pos (by omega), if_pos (by omega)]
    have hcast : (s : K) = n - 1 := by
      rw [← hs]
      push_cast
      ring
    rw [hcast]
    field_simp
    ring
  · rw [if_neg (by omega), if_neg (by omega), if_neg (by omega), sub_self]

theorem ramped_line (hn : 0 < n) (hp : 0 ≤ p ∧ p ≤ 1) (ht : 0 ≤ t ∧ t ≤ 1) :
    Ramped n 0 0 p t (line n p t) where
  start := by simp [line, hn]
  step s := by
    rw [line_step hn]
    have habs : |t - p| ≤ 1 := by
      rw [abs_le]
      constructor <;> linarith [hp.1, hp.2, ht.1, ht.2]
    split
    · rw [abs_mul, abs_of_nonneg (show (0 : K) ≤ 1 / n by positivity)]
      exact mul_le_of_le_one_left (by positivity) habs
    · rw [abs_zero]
      positivity
  settled s hs := by simp [line, Nat.not_lt.mpr hs]
  within s := by
    obtain ⟨w, hw0, hw1, heq⟩ := line_eq n p t s
    rw [heq]
    constructor
    · nlinarith [hp.1, ht.1]
    · nlinarith [hp.2, ht.2]

/-! ### Runs of frames -/

/-- Frames of gains, each with the value it goes to and from which the next one comes. -/
inductive Glide (n : ℕ) (ε δ : K) : K → List (K × (ℕ → K)) → Prop
  | nil (p : K) : Glide n ε δ p []
  | cons {p t : K} {g : ℕ → K} {rest : List (K × (ℕ → K))} :
      Ramped n ε δ p t g → Glide n ε δ t rest → Glide n ε δ p ((t, g) :: rest)

/-- The gains of the first `len` samples of each frame. -/
def samples (len : ℕ) (gains : List (K × (ℕ → K))) : List K :=
  gains.flatMap fun x => (List.range len).map x.2

variable {m : ℕ} {gains : List (K × (ℕ → K))}

omit [Field K] [LinearOrder K] [IsStrictOrderedRing K] in
theorem head_samples (x : K × (ℕ → K)) : (samples (m + 1) (x :: gains)).head? = some (x.2 0) := by
  rw [samples, List.flatMap_cons, List.range_succ_eq_map]
  rfl

omit [IsStrictOrderedRing K] in
theorem Glide.ramped (h : Glide n ε δ p gains) : ∀ x ∈ gains, ∃ q, Ramped n ε δ q x.1 x.2 := by
  induction h with
  | nil => simp
  | cons hg _ ih => exact List.forall_mem_cons.mpr ⟨⟨_, hg⟩, ih⟩

omit [IsStrictOrderedRing K] in
theorem Glide.within (h : Glide n ε δ p gains) : ∀ g ∈ samples m gains, 0 ≤ g ∧ g ≤ 1 := by
  intro g hg
  obtain ⟨x, hx, hg⟩ := List.mem_flatMap.mp hg
  obtain ⟨s, -, rfl⟩ := List.mem_map.mp hg
  obtain ⟨q, hq⟩ := h.ramped x hx
  exact hq.within s

omit [IsStrictOrderedRing K] in
theorem Glide.head (h : Glide n ε δ p gains) :
    ∀ g ∈ (samples (m + 1) gains).head?, |g - p| ≤ ε := by
  cases h with
  | nil => simp [samples]
  | cons hg hrest =>
    intro g hmem
    rw [head_samples] at hmem
    obtain rfl := Option.some.inj hmem
    exact hg.start

/-- No two samples that follow each other are further apart than a step of the line. -/
theorem Glide.smooth (h : Glide n ε δ p gains) (hm : n ≤ m) (hsum : ε + δ ≤ 1 / n) :
    (samples (m + 1) gains).IsChain fun a b => |b - a| ≤ 1 / (n : K) := by
  induction h with
  | nil => exact List.isChain_nil
  | @cons p t g rest hg hrest ih =>
    have hframe : ((List.range (m + 1)).map g).IsChain fun a b => |b - a| ≤ 1 / (n : K) := by
      rw [List.isChain_map, List.isChain_range_succ]
      exact fun s _ => hg.step s
    rw [samples, List.flatMap_cons]
    refine hframe.append ih fun x hx y hy => ?_
    have hlast : x = g m := by
      rw [List.range_succ, List.map_append] at hx
      simpa using hx.symm
    calc |y - x| = |(y - t) - (g m - t)| := by rw [hlast, sub_sub_sub_cancel_right]
      _ ≤ |y - t| + |g m - t| := abs_sub _ _
      _ ≤ ε + δ := add_le_add (hrest.head y hy) (hg.settled m hm)
      _ ≤ 1 / n := hsum

end AudioPlatform.Numbers
