import Mathlib.Tactic.IntervalCases
import AudioPlatform.Wire.BigEndian

/-! Base64.

Three bytes are four digits of six bits. One or two bytes at the end are two or three digits, and
padding fills the four. -/
namespace AudioPlatform.Wire.Base64

/-- Which byte each digit is written as, and what is put in place of missing ones. -/
structure Alphabet where
  char : BitVec 6 → Byte
  digit : Byte → Option (BitVec 6)
  pad : Byte
  digit_char : ∀ d, digit (char d) = some d
  digit_pad : digit pad = none

variable (A : Alphabet)

/-- The bytes of a group, high ones first. -/
def group (a b c : Byte) : BitVec 32 := a.setWidth 32 <<< 16 ||| b.setWidth 32 <<< 8 ||| c.setWidth 32

def encode : List Byte → List Byte
  | a :: b :: c :: rest =>
    let n := group a b c
    A.char ((n >>> 18).setWidth 6) :: A.char ((n >>> 12).setWidth 6) :: A.char ((n >>> 6).setWidth 6) ::
      A.char (n.setWidth 6) :: encode rest
  | [a, b] =>
    let n := group a b 0
    [A.char ((n >>> 18).setWidth 6), A.char ((n >>> 12).setWidth 6), A.char ((n >>> 6).setWidth 6), A.pad]
  | [a] =>
    let n := group a 0 0
    [A.char ((n >>> 18).setWidth 6), A.char ((n >>> 12).setWidth 6), A.pad, A.pad]
  | [] => []

/-- The digits of a group, high ones first. -/
def ungroup (d₀ d₁ d₂ d₃ : BitVec 6) : List Byte :=
  let n : BitVec 32 := d₀.setWidth 32 <<< 18 ||| d₁.setWidth 32 <<< 12 ||| d₂.setWidth 32 <<< 6 ||| d₃.setWidth 32
  [(n >>> 16).setWidth 8, (n >>> 8).setWidth 8, n.setWidth 8]

/-- Padding ends the text; nothing where a byte is no digit. -/
def decode : List Byte → Option (List Byte)
  | c₀ :: c₁ :: c₂ :: c₃ :: rest => do
    let d₀ ← A.digit c₀
    let d₁ ← A.digit c₁
    if c₂ = A.pad ∧ c₃ = A.pad ∧ rest = [] then return (ungroup d₀ d₁ 0 0).take 1
    else
      let d₂ ← A.digit c₂
      if c₃ = A.pad ∧ rest = [] then return (ungroup d₀ d₁ d₂ 0).take 2
      else
        let d₃ ← A.digit c₃
        let more ← decode rest
        return ungroup d₀ d₁ d₂ d₃ ++ more
  | [] => some []
  | _ => none

variable {A}

theorem Alphabet.char_ne_pad (d : BitVec 6) : A.char d ≠ A.pad := by
  intro h
  have hd := A.digit_char d
  rw [h, A.digit_pad] at hd
  cases hd

theorem ungroup_group (a b c : Byte) :
    ungroup ((group a b c >>> 18).setWidth 6) ((group a b c >>> 12).setWidth 6)
      ((group a b c >>> 6).setWidth 6) ((group a b c).setWidth 6) = [a, b, c] := by
  unfold ungroup group
  simp only [List.cons.injEq, and_true]
  refine ⟨?_, ?_, ?_⟩
  all_goals
    apply BitVec.eq_of_getLsbD_eq
    intro i hi
    interval_cases i <;> simp

/-- The digits that padding stands for are 0. -/
theorem group_low (a b : Byte) : (group a b 0).setWidth 6 = 0 ∧ (group a 0 0 >>> 6).setWidth 6 = 0 := by
  unfold group
  constructor
  all_goals
    apply BitVec.eq_of_getLsbD_eq
    intro i hi
    interval_cases i <;> simp

/-- What is encoded is decoded. -/
theorem decode_encode (data : List Byte) : decode A (encode A data) = some data := by
  fun_induction encode A data with
  | case1 a b c rest n ih => simp [decode, A.digit_char, Alphabet.char_ne_pad, ih, n, ungroup_group]
  | case2 a b n =>
    have hgroup := ungroup_group a b 0
    rw [(group_low a b).1] at hgroup
    simp [decode, A.digit_char, Alphabet.char_ne_pad, n]
    exact congrArg (List.take 2) hgroup
  | case3 a n =>
    have hgroup := ungroup_group a 0 0
    rw [(group_low a 0).1, (group_low a 0).2] at hgroup
    simp [decode, A.digit_char, n]
    exact congrArg (List.take 1) hgroup
  | case4 => rfl

theorem length_encode (data : List Byte) : (encode A data).length = (data.length + 2) / 3 * 4 := by
  fun_induction encode A data with
  | case1 a b c rest n ih =>
    simp only [List.length_cons, ih]
    omega
  | case2 | case3 | case4 => simp

end AudioPlatform.Wire.Base64
