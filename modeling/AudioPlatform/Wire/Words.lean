import Mathlib.Data.List.Forall2
import Mathlib.Data.List.GetD
import Mathlib.Data.List.TakeWhile

/-! Lines and words of a text.

A line is read up to its end or until the buffer is full, and the words of a line up to a width each. A text
of lines that fit is read line by line, and a line of words that fit word by word. -/
namespace AudioPlatform.Wire

variable {α : Type}

/-! ### Words -/

section Words
variable (space : α → Bool)

/-- A conversion `%Ns`: the next word, of at most the width, and the rest. -/
def scanWord (width : Nat) (text : List α) : List α × List α :=
  let text := text.dropWhile space
  let word := (text.takeWhile fun b => !space b).take width
  (word, text.drop word.length)

/-- One conversion after the other; where the text has ended, there is no word. -/
def scanWords : List Nat → List α → List (List α)
  | [], _ => []
  | width :: widths, text => (scanWord space width text).1 :: scanWords widths (scanWord space width text).2

/-- A word that fits. -/
structure IsWord (width : Nat) (word : List α) : Prop where
  ne_nil : word ≠ []
  solid : ∀ b ∈ word, space b = false
  fits : word.length ≤ width

/-- A text of words with spaces between them. -/
inductive Spaced : List (List α) → List α → Prop
  | nil {spaces} (h : ∀ b ∈ spaces, space b = true) : Spaced [] spaces
  | cons {spaces word words rest} (h : ∀ b ∈ spaces, space b = true)
      (hend : ∀ b ∈ rest.head?, space b = true) (hrest : Spaced words rest) :
      Spaced (word :: words) (spaces ++ (word ++ rest))

variable {space} {width : Nat} {spaces word rest : List α}

theorem IsWord.dropWhile (h : IsWord space width word) : (word ++ rest).dropWhile space = word ++ rest := by
  obtain ⟨b, word, rfl⟩ := List.exists_cons_of_ne_nil h.ne_nil
  exact List.dropWhile_cons_of_neg (by simp [h.solid b (List.mem_cons_self ..)])

/-- The word ends where a space comes or the text ends. -/
theorem IsWord.takeWhile (h : IsWord space width word) (hend : ∀ b ∈ rest.head?, space b = true) :
    (word ++ rest).takeWhile (fun b => !space b) = word := by
  have hrest : rest.takeWhile (fun b => !space b) = [] := by
    cases rest with
    | nil => rfl
    | cons b rest => exact List.takeWhile_cons_of_neg (by simp [hend b (by simp)])
  rw [List.takeWhile_append_of_pos (by simpa using h.solid), hrest, List.append_nil]

theorem scanWord_spaced (hspaces : ∀ b ∈ spaces, space b = true) (hword : IsWord space width word)
    (hend : ∀ b ∈ rest.head?, space b = true) :
    scanWord space width (spaces ++ (word ++ rest)) = (word, rest) := by
  unfold scanWord
  dsimp only
  rw [List.dropWhile_append_of_pos hspaces, hword.dropWhile, hword.takeWhile hend,
    List.take_of_length_le hword.fits, List.drop_left]

theorem scanWord_spaces (h : ∀ b ∈ spaces, space b = true) : scanWord space width spaces = ([], []) := by
  have hdrop : spaces.dropWhile space = [] := List.dropWhile_eq_nil_iff.mpr h
  simp [scanWord, hdrop]

theorem scanWords_spaces (h : ∀ b ∈ spaces, space b = true) (widths : List Nat) :
    scanWords space widths spaces = List.replicate widths.length [] := by
  induction widths generalizing spaces with
  | nil => rfl
  | cons width widths ih =>
    rw [scanWords, scanWord_spaces h, ih fun b hb => absurd hb List.not_mem_nil]
    rfl

/-- Words that fit are read back, and the conversions that are left get nothing. -/
theorem scanWords_spaced {words : List (List α)} {text : List α} {widths : List Nat}
    (h : Spaced space words text)
    (hfit : List.Forall₂ (IsWord space) (widths.take words.length) words) :
    scanWords space widths text = words ++ List.replicate (widths.length - words.length) [] := by
  induction h generalizing widths with
  | nil hspaces => exact scanWords_spaces hspaces widths
  | cons hspaces hend _ ih =>
    cases widths with
    | nil => cases hfit
    | cons width widths =>
      obtain ⟨hword, hwords⟩ := List.forall₂_cons.mp hfit
      rw [scanWords, scanWord_spaced hspaces hword hend, ih hwords, List.length_cons, List.length_cons,
        Nat.add_sub_add_right]
      rfl

theorem Spaced.ne_nil {words : List (List α)} {text : List α} (h : Spaced space (word :: words) text)
    (hword : word ≠ []) : text ≠ [] := by
  cases h with
  | cons => simp [hword]

/-- A space at the end of a text makes no word. -/
theorem Spaced.dropLast {words : List (List α)} {text : List α} {b : α} {widths : List Nat}
    (h : Spaced space words (text ++ [b])) (hb : space b = true)
    (hfit : List.Forall₂ (IsWord space) widths words) : Spaced space words text := by
  generalize htext : text ++ [b] = full at h
  induction h generalizing text widths with
  | nil hspaces =>
    subst htext
    exact .nil fun c hc => hspaces c (List.mem_append_left _ hc)
  | @cons spaces word words rest hspaces hend hrest ih =>
    cases hfit with
    | cons hword hwords =>
      -- the space is not the end of the word, so it is the end of what follows
      obtain rfl | ⟨rest, c, rfl⟩ := List.eq_nil_or_concat rest
      · obtain ⟨word, d, rfl⟩ := (List.eq_nil_or_concat word).resolve_left hword.ne_nil
        rw [List.concat_eq_append, List.append_nil, ← List.append_assoc] at htext
        obtain ⟨-, rfl⟩ := List.append_singleton_inj.mp htext
        simp [hword.solid b (by simp)] at hb
      · rw [List.concat_eq_append] at hrest hend ih htext
        rw [← List.append_assoc, ← List.append_assoc] at htext
        obtain ⟨rfl, rfl⟩ := List.append_singleton_inj.mp htext
        rw [List.append_assoc]
        refine .cons hspaces (fun d hd => ?_) (ih hwords rfl)
        exact hend d (List.mem_head?_append_of_mem_head? hd)

/-- A conversion that got nothing reads as a word that is not there. -/
theorem getD_scanned (words : List (List α)) (missing n : Nat) :
    (words ++ List.replicate missing []).getD n [] = words.getD n [] := by
  by_cases h : n < words.length
  · exact List.getD_append _ _ _ _ h
  · have hend : words.length ≤ n := Nat.le_of_not_lt h
    rw [List.getD_append_right _ _ _ _ hend, List.getD_eq_default _ _ hend, List.getD_eq_getElem?_getD,
      List.getElem?_replicate]
    split
    · rfl
    · rfl

end Words

/-! ### Lines -/

section Lines
variable [DecidableEq α] (eol : α)

/-- What `fgets` reads with this much room: up to and with the end of the line. -/
def readLine : Nat → List α → List α × List α
  | 0, text => ([], text)
  | _ + 1, [] => ([], [])
  | room + 1, b :: text =>
    if b = eol then ([b], text)
    else (b :: (readLine room text).1, (readLine room text).2)

theorem readLine_append (room : Nat) (text : List α) :
    (readLine eol room text).1 ++ (readLine eol room text).2 = text := by
  fun_induction readLine eol room text with
  | case1 => rfl
  | case2 => rfl
  | case3 => rfl
  | case4 room b text h ih => exact congrArg (b :: ·) ih

theorem length_readLine (room : Nat) (b : α) (text : List α) :
    (readLine eol (room + 1) (b :: text)).2.length ≤ text.length := by
  have h := congrArg List.length (readLine_append eol room text)
  rw [List.length_append] at h
  unfold readLine
  split
  · exact Nat.le_refl _
  · show (readLine eol room text).2.length ≤ _
    omega

/-- What is read line by line until the text ends, with room for one byte more than `room`. -/
def lines (room : Nat) : List α → List (List α)
  | [] => []
  | b :: text => (readLine eol (room + 1) (b :: text)).1 :: lines room (readLine eol (room + 1) (b :: text)).2
termination_by text => text.length
decreasing_by exact Nat.lt_succ_of_le (length_readLine eol room b text)

variable {eol} {room : Nat}

theorem readLine_line {line rest : List α} (hline : ∀ b ∈ line, b ≠ eol) (hfit : line.length < room) :
    readLine eol room (line ++ eol :: rest) = (line ++ [eol], rest) := by
  induction line generalizing room with
  | nil =>
    cases room with
    | zero => exact absurd hfit (Nat.not_lt_zero _)
    | succ room => exact if_pos rfl
  | cons b line ih =>
    cases room with
    | zero => exact absurd hfit (Nat.not_lt_zero _)
    | succ room =>
      have hrest := ih (fun c hc => hline c (List.mem_cons_of_mem b hc)) (Nat.lt_of_succ_lt_succ hfit)
      rw [List.cons_append, readLine, if_neg (hline b (List.mem_cons_self ..)), hrest]
      rfl

/-- Lines that fit are read back. -/
theorem lines_flatMap {ls : List (List α)} (h : ∀ l ∈ ls, (∀ b ∈ l, b ≠ eol) ∧ l.length ≤ room) :
    lines eol room (ls.flatMap fun l => l ++ [eol]) = ls.map fun l => l ++ [eol] := by
  induction ls with
  | nil =>
    show lines eol room [] = []
    rw [lines]
  | cons l ls ih =>
    obtain ⟨hline, hfit⟩ := h l (List.mem_cons_self ..)
    have hread : readLine eol (room + 1) (l ++ eol :: ls.flatMap fun l => l ++ [eol]) = _ :=
      readLine_line hline (Nat.lt_succ_of_le hfit)
    rw [List.flatMap_cons, List.append_assoc, List.singleton_append, List.map_cons,
      ← ih fun l' hl' => h l' (List.mem_cons_of_mem l hl')]
    generalize hrest : ls.flatMap (fun l => l ++ [eol]) = rest at hread ⊢
    generalize htext : l ++ eol :: rest = text at hread ⊢
    cases text with
    | nil => simp at htext
    | cons b text => rw [lines, hread]

end Lines

end AudioPlatform.Wire
