import Mathlib.Data.List.TakeWhile
import Mathlib.Data.Nat.Digits.Lemmas
import AudioPlatform.Wire.BigEndian

/-! Texts as byte strings: searching, and decimal numbers.

`find` gives the first position, as string classes do. For proofs `Finds` says what a search
comes to in terms of what is left of the text: a text that is cut into pieces by a mark is
passed piece by piece until a marked piece is the one searched for. -/
namespace AudioPlatform.Wire

/-- A string as its bytes. -/
def utf8 (s : String) : List Byte := s.toUTF8.data.toList.map UInt8.toBitVec

theorem utf8EncodeChar_ascii {c : Char} (h : c.toNat < 0x80) :
    (String.utf8EncodeChar c).map UInt8.toBitVec = [BitVec.ofNat 8 c.toNat] := by
  have hle : c.val.toNat ≤ 0x7f := Nat.le_of_lt_succ h
  unfold String.utf8EncodeChar
  simp only [hle, ↓reduceIte]
  rfl

/-- A text of ASCII characters has one byte for each. -/
theorem utf8_ofList {chars : List Char} (h : ∀ c ∈ chars, c.toNat < 0x80) :
    utf8 (String.ofList chars) = chars.map fun c => BitVec.ofNat 8 c.toNat := by
  unfold utf8
  rw [String.toUTF8_eq_toByteArray, String.toByteArray_ofList, List.utf8Encode,
    List.toList_data_toByteArray]
  induction chars with
  | nil => rfl
  | cons c cs ih =>
    rw [List.flatMap_cons, List.map_append, utf8EncodeChar_ascii (h c (List.mem_cons_self ..)),
      ih fun d hd => h d (List.mem_cons_of_mem c hd)]
    rfl

/-- A marked piece begins with a marked key exactly if it is the key. -/
theorem marked_prefix_iff {α : Type} {mark : α} {key piece text : List α} (hkey : mark ∉ key)
    (hpiece : mark ∉ piece) :
    key ++ [mark] <+: piece ++ mark :: text ↔ key = piece := by
  induction key generalizing piece with
  | nil =>
    cases piece with
    | nil => simp
    | cons d ds =>
      have hne : mark ≠ d := fun h => hpiece (h ▸ List.mem_cons_self ..)
      simp [hne]
  | cons k ks ih =>
    have hk : k ≠ mark := fun h => hkey (h ▸ List.mem_cons_self ..)
    have hks : mark ∉ ks := fun h => hkey (List.mem_cons_of_mem k h)
    cases piece with
    | nil => simp [hk]
    | cons d ds =>
      have hds : mark ∉ ds := fun h => hpiece (List.mem_cons_of_mem d h)
      rw [List.cons_append, List.cons_append, List.cons_prefix_cons, ih hks hds,
        List.cons.injEq]

section Search
variable {α : Type} [DecidableEq α]

/-- The first position at which the text has the needle. -/
def find (needle : List α) : List α → Option Nat
  | [] => if needle = [] then some 0 else none
  | c :: rest => if needle <+: c :: rest then some 0 else (find needle rest).map (· + 1)

/-- The first such position that is not before `pos`. -/
def findFrom (needle text : List α) (pos : Nat) : Option Nat :=
  (find needle (text.drop pos)).map (· + pos)

/-- The first occurrence of the needle ends where `rest` begins. -/
def Finds (needle text rest : List α) : Prop :=
  ∃ pos, find needle text = some pos ∧ text.drop (pos + needle.length) = rest

variable {needle text rest piece : List α} {c mark : α}

theorem find_of_prefix (h : needle <+: text) : find needle text = some 0 := by
  cases text with
  | nil => rw [List.prefix_nil.mp h, find, if_pos rfl]
  | cons c rest => rw [find, if_pos h]

theorem Finds.here (needle rest : List α) : Finds needle (needle ++ rest) rest :=
  ⟨0, find_of_prefix (List.prefix_append ..), by simp⟩

theorem Finds.cons (h : Finds needle text rest) (hnot : ¬ needle <+: c :: text) :
    Finds needle (c :: text) rest := by
  obtain ⟨pos, hfind, hdrop⟩ := h
  refine ⟨pos + 1, ?_, ?_⟩
  · rw [find, if_neg hnot, hfind]
    rfl
  · rw [Nat.add_right_comm]
    exact hdrop

/-- What does not have the needle's first byte is passed. -/
theorem Finds.skip (h : Finds (c :: needle) text rest) (piece : List α) (hpiece : c ∉ piece) :
    Finds (c :: needle) (piece ++ text) rest := by
  induction piece with
  | nil => exact h
  | cons d ds ih =>
    refine Finds.cons (ih fun hc => hpiece (List.mem_cons_of_mem d hc)) fun hpre => hpiece ?_
    rw [(List.cons_prefix_cons.mp hpre).1]
    exact List.mem_cons_self ..

/-- A piece between two marks is passed if it is not the one searched for. -/
theorem Finds.pass {key : List α} (h : Finds (mark :: (key ++ [mark])) (mark :: text) rest)
    (hkey : mark ∉ key) (hpiece : mark ∉ piece) (hne : key ≠ piece) :
    Finds (mark :: (key ++ [mark])) (mark :: (piece ++ mark :: text)) rest := by
  refine Finds.cons (h.skip piece hpiece) fun hpre => hne ?_
  exact (marked_prefix_iff hkey hpiece).mp (List.cons_prefix_cons.mp hpre).2

/-! ### From a position on -/

theorem findFrom_of_finds (text : List α) (pos : Nat) (h : Finds needle (text.drop pos) rest) :
    ∃ pos', findFrom needle text pos = some pos' ∧ text.drop (pos' + needle.length) = rest := by
  obtain ⟨n, hfind, hdrop⟩ := h
  refine ⟨n + pos, ?_, ?_⟩
  · rw [findFrom, hfind]
    rfl
  · rw [← hdrop, List.drop_drop]
    congr 1
    omega

/-- The first mark is where the piece before it ends. -/
theorem findFrom_mark {pos : Nat} (piece : List α) (h : text.drop pos = piece ++ mark :: rest)
    (hpiece : mark ∉ piece) : findFrom [mark] text pos = some (piece.length + pos) := by
  have hfind : find [mark] (piece ++ mark :: rest) = some piece.length := by
    clear h
    induction piece with
    | nil => exact find_of_prefix ⟨rest, rfl⟩
    | cons d ds ih =>
      have hne : mark ≠ d := fun h => hpiece (h ▸ List.mem_cons_self ..)
      have hds : mark ∉ ds := fun h => hpiece (List.mem_cons_of_mem d h)
      rw [List.cons_append, find, if_neg (by simp [hne]), ih hds]
      rfl
  rw [findFrom, h, hfind]
  rfl

end Search

/-! ### Decimal numbers -/

def digitByte (d : Nat) : Byte := BitVec.ofNat 8 (0x30 + d)

def isDigit (b : Byte) : Bool := 0x30 ≤ b && b ≤ 0x39

def digitValue (b : Byte) : Nat := b.toNat - 0x30

/-- A number in decimal, with no leading zeros. -/
def decimal (n : Nat) : List Byte := if n = 0 then [0x30] else (Nat.digits 10 n).reverse.map digitByte

/-- The number that digits spell. -/
def readDigits (digits : List Byte) : Nat := digits.foldl (fun n b => 10 * n + digitValue b) 0

theorem digitByte_spec {d : Nat} (h : d < 10) :
    isDigit (digitByte d) = true ∧ digitValue (digitByte d) = d := by
  revert d
  decide

theorem isDigit_decimal (n : Nat) : ∀ b ∈ decimal n, isDigit b = true := by
  intro b hb
  unfold decimal at hb
  split at hb
  · rw [List.mem_singleton.mp hb]
    rfl
  · obtain ⟨d, hd, rfl⟩ := List.mem_map.mp hb
    exact (digitByte_spec (Nat.digits_lt_base (by decide) (List.mem_reverse.mp hd))).1

theorem decimal_ne_nil (n : Nat) : decimal n ≠ [] := by
  unfold decimal
  split
  · simp
  · rename_i h
    simp [Nat.digits_ne_nil_iff_ne_zero, h]

theorem length_decimal {n : Nat} (h : n < 2 ^ 64) : (decimal n).length ≤ 20 := by
  unfold decimal
  split
  · decide
  · rw [List.length_map, List.length_reverse]
    exact (Nat.digits_length_le_iff (by decide) n).mpr (h.trans (by decide))

/-- A number in decimal is read back. -/
theorem readDigits_decimal (n : Nat) : readDigits (decimal n) = n := by
  unfold decimal readDigits
  split
  · rename_i h
    rw [h]
    rfl
  · rw [List.foldl_map, List.foldl_reverse]
    have hfold : ∀ ds : List Nat, (∀ d ∈ ds, d < 10) →
        ds.foldr (fun d n => 10 * n + digitValue (digitByte d)) 0 = Nat.ofDigits 10 ds := by
      intro ds hds
      induction ds with
      | nil => rfl
      | cons d ds ih =>
        rw [List.foldr_cons, ih fun e he => hds e (List.mem_cons_of_mem d he), Nat.ofDigits_cons,
          (digitByte_spec (hds d (List.mem_cons_self ..))).2]
        omega
    rw [hfold _ fun d hd => Nat.digits_lt_base (by decide) hd, Nat.ofDigits_digits]

end AudioPlatform.Wire
