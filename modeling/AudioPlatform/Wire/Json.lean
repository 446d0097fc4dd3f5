import AudioPlatform.Wire.Text

/-! Writing JSON, compactly: no blanks, fields in the order given.

In a string the quote, the backslash and the control characters are escaped, and nothing
else. A text that needs no escape is written as it is. -/
namespace AudioPlatform.Wire.Json

def quote : Byte := 0x22
def backslash : Byte := 0x5c
def colon : Byte := 0x3a
def comma : Byte := 0x2c

def hexDigit (d : Nat) : Byte := BitVec.ofNat 8 (if d < 10 then 0x30 + d else 0x57 + d)

/-- A byte inside a string. -/
def escapeByte (b : Byte) : List Byte :=
  if b = quote then [backslash, quote]
  else if b = backslash then [backslash, backslash]
  else if b = 0x08 then [backslash, 0x62]
  else if b = 0x09 then [backslash, 0x74]
  else if b = 0x0a then [backslash, 0x6e]
  else if b = 0x0c then [backslash, 0x66]
  else if b = 0x0d then [backslash, 0x72]
  else if b < 0x20 then
    [backslash, 0x75, 0x30, 0x30, hexDigit (b.toNat / 16), hexDigit (b.toNat % 16)]
  else [b]

def escape (s : List Byte) : List Byte := s.flatMap escapeByte

inductive Value where
  | string (s : List Byte)
  | number (n : Nat)
  | bool (b : Bool)
  | array (items : List Value)
  | object (fields : List (List Byte × Value))

def writeString (s : List Byte) : List Byte := quote :: (escape s ++ [quote])

mutual

def Value.write : Value → List Byte
  | .string s => writeString s
  | .number n => decimal n
  | .bool b => utf8 (if b then "true" else "false")
  | .array items => 0x5b :: (writeItems [] items ++ [0x5d])
  | .object fields => 0x7b :: (writeFields [] fields ++ [0x7d])

/-- The items, the first one after `separator` and the others after a comma. -/
def writeItems (separator : List Byte) : List Value → List Byte
  | [] => []
  | v :: rest => separator ++ v.write ++ writeItems [comma] rest

def writeFields (separator : List Byte) : List (List Byte × Value) → List Byte
  | [] => []
  | (name, v) :: rest =>
    separator ++ writeString name ++ colon :: v.write ++ writeFields [comma] rest

end

/-! ### Escapes -/

/-- No byte of the text needs an escape. -/
def Plain (s : List Byte) : Prop := ∀ b ∈ s, b ≠ quote ∧ b ≠ backslash ∧ ¬ b < 0x20

instance (s : List Byte) : Decidable (Plain s) :=
  decidable_of_iff
    ((s.all fun b => !(b.toNat == 0x22) && !(b.toNat == 0x5c) && Nat.ble 0x20 b.toNat) = true)
    (by simp [Plain, quote, backslash, BitVec.lt_def, ← BitVec.toNat_inj, and_assoc])

theorem escapeByte_plain {b : Byte} (h : b ≠ quote ∧ b ≠ backslash ∧ ¬ b < 0x20) :
    escapeByte b = [b] := by
  revert b
  decide

/-- An escape is longer than the byte, and has the quote in it only for the quote itself. -/
theorem escapeByte_special {b : Byte} (h : ¬ (b ≠ quote ∧ b ≠ backslash ∧ ¬ b < 0x20)) :
    1 < (escapeByte b).length ∧ (b ≠ quote → quote ∉ escapeByte b) := by
  revert b
  decide

theorem escape_plain {s : List Byte} (h : Plain s) : escape s = s := by
  induction s with
  | nil => rfl
  | cons b rest ih =>
    unfold escape at ih ⊢
    rw [List.flatMap_cons, escapeByte_plain (h b (List.mem_cons_self ..)),
      ih fun c hc => h c (List.mem_cons_of_mem b hc)]
    rfl

theorem Plain.quote_notMem {s : List Byte} (h : Plain s) : quote ∉ s := fun hq => (h _ hq).1 rfl

/-- What stands between the quotes for a reader that takes the first quote for the end. -/
def seen (s : List Byte) : List Byte := (escape s).takeWhile (· ≠ quote)

theorem quote_notMem_seen (s : List Byte) : quote ∉ seen s := fun h => by
  simpa using List.mem_takeWhile_imp h

/-- After what is seen comes a quote, be it the end or one that is escaped. -/
theorem escape_seen (s tail : List Byte) : ∃ rest, escape s ++ quote :: tail =
    seen s ++ quote :: rest := by
  unfold seen
  induction escape s with
  | nil => exact ⟨tail, rfl⟩
  | cons c cs ih =>
    by_cases hc : c = quote
    · exact ⟨cs ++ quote :: tail, by simp [hc]⟩
    · obtain ⟨rest, hrest⟩ := ih
      refine ⟨rest, ?_⟩
      rw [List.cons_append, hrest, List.takeWhile_cons_of_pos (by simp [hc])]
      rfl

theorem quote_notMem_escape {s : List Byte} (h : quote ∉ s) : quote ∉ escape s := by
  intro hmem
  obtain ⟨b, hb, hq⟩ := List.mem_flatMap.mp hmem
  have hne : b ≠ quote := fun he => h (he ▸ hb)
  by_cases hplain : b ≠ quote ∧ b ≠ backslash ∧ ¬ b < 0x20
  · rw [escapeByte_plain hplain] at hq
    exact hne (List.mem_singleton.mp hq).symm
  · exact (escapeByte_special hplain).2 hne hq

theorem length_le_escapeByte (b : Byte) : 1 ≤ (escapeByte b).length := by
  revert b
  decide

theorem length_le_escape (s : List Byte) : s.length ≤ (escape s).length := by
  induction s with
  | nil => exact le_refl _
  | cons b rest ih =>
    have := length_le_escapeByte b
    unfold escape at ih ⊢
    rw [List.flatMap_cons, List.length_append, List.length_cons]
    omega

/-- A text that needs an escape is longer when it is written. -/
theorem length_lt_escape {s : List Byte} (h : ¬ Plain s) : s.length < (escape s).length := by
  induction s with
  | nil => exact absurd (fun _ hb => absurd hb List.not_mem_nil) h
  | cons b rest ih =>
    have hrest := length_le_escape rest
    have hb := length_le_escapeByte b
    unfold escape at ih hrest ⊢
    rw [List.flatMap_cons, List.length_append, List.length_cons]
    by_cases hplain : b ≠ quote ∧ b ≠ backslash ∧ ¬ b < 0x20
    · have := ih fun hr => h fun c hc => by
        rcases List.mem_cons.mp hc with rfl | hc
        · exact hplain
        · exact hr c hc
      omega
    · have := (escapeByte_special hplain).1
      omega

/-- A reader that takes the first quote for the end sees the text exactly if nothing in it
needs an escape. -/
theorem seen_eq_iff (s : List Byte) : seen s = s ↔ Plain s := by
  constructor
  · intro h
    by_contra hplain
    have hq : quote ∉ s := by
      rw [← h]
      exact quote_notMem_seen s
    have hall : seen s = escape s := by
      refine List.takeWhile_eq_self_iff.mpr fun b hb => ?_
      have hne : b ≠ quote := fun he => quote_notMem_escape hq (he ▸ hb)
      simp [hne]
    have := length_lt_escape hplain
    rw [← hall, h] at this
    exact absurd this (lt_irrefl _)
  · intro h
    rw [seen, escape_plain h]
    refine List.takeWhile_eq_self_iff.mpr fun b hb => ?_
    simp [(h b hb).1]

/-! ### Looking for a field -/

/-- A name of lower-case letters and underscores. -/
def Identifier (name : List Byte) : Prop := ∀ b ∈ name, b = 0x5f ∨ (0x61 ≤ b ∧ b ≤ 0x7a)

-- tested on numbers, which the kernel compares at once
instance (name : List Byte) : Decidable (Identifier name) :=
  decidable_of_iff
    ((name.all fun b =>
      b.toNat == 0x5f || (Nat.ble 0x61 b.toNat && Nat.ble b.toNat 0x7a)) = true)
    (by simp [Identifier, BitVec.le_def, ← BitVec.toNat_inj])

theorem Identifier.plain {name : List Byte} (h : Identifier name) : Plain name := by
  have hbyte : ∀ b : Byte, (b = 0x5f ∨ (0x61 ≤ b ∧ b ≤ 0x7a)) →
      b ≠ quote ∧ b ≠ backslash ∧ ¬ b < 0x20 := by decide
  exact fun b hb => hbyte b (h b hb)

theorem Identifier.ne_of_mem {name piece : List Byte} (h : Identifier name)
    (hpiece : colon ∈ piece ∨ comma ∈ piece) : name ≠ piece := by
  rintro rfl
  rcases hpiece with hmem | hmem
  · exact absurd (h _ hmem) (by decide)
  · exact absurd (h _ hmem) (by decide)

/-- A search for the name passes this field: neither its name nor its value looks like it. -/
def Passed (name : List Byte) : List Byte × Value → Prop
  | (other, .string s) => Identifier other ∧ name ≠ other ∧ Plain s ∧ name ≠ s
  | (other, .number _) => Identifier other ∧ name ≠ other
  | _ => False

/-- A text that needs no escape and cannot be taken for a name. -/
def Inert (s : List Byte) : Prop := Plain s ∧ ¬ Identifier s

instance (s : List Byte) : Decidable (Inert s) :=
  inferInstanceAs (Decidable (Plain s ∧ ¬ Identifier s))

theorem Inert.passed {name other s : List Byte} (h : Inert s) (hname : Identifier name)
    (hother : Identifier other) (hne : name ≠ other) : Passed name (other, .string s) :=
  ⟨hother, hne, h.1, fun heq => h.2 (heq ▸ hname)⟩

/-- What is searched for to find a field. -/
def needle (name : List Byte) : List Byte := quote :: (name ++ [quote])

theorem writeString_plain {s : List Byte} (h : Plain s) :
    writeString s = quote :: (s ++ [quote]) := by
  rw [writeString, escape_plain h]

theorem writeFields_comma (fields : List (List Byte × Value)) (hne : fields ≠ []) :
    writeFields [comma] fields = comma :: writeFields [] fields := by
  cases fields with
  | nil => exact absurd rfl hne
  | cons f rest => simp [writeFields]

theorem writeFields_quote (fields : List (List Byte × Value)) (hne : fields ≠ []) :
    ∃ text, writeFields [] fields = quote :: text := by
  cases fields with
  | nil => exact absurd rfl hne
  | cons f rest => simp [writeFields, writeString]

theorem quote_notMem_decimal (n : Nat) : quote ∉ decimal n := fun h =>
  absurd (isDigit_decimal n _ h) (by decide)

section Fields
variable {name : List Byte} {v : Value} {after : List (List Byte × Value)} {close : List Byte}

theorem finds_fields (hname : Identifier name) (before : List (List Byte × Value))
    (hpassed : ∀ f ∈ before, Passed name f) :
    Finds (needle name) (writeFields [] (before ++ (name, v) :: after) ++ close)
      (colon :: (v.write ++ writeFields [comma] after ++ close)) := by
  have hq := hname.plain.quote_notMem
  induction before with
  | nil =>
    have htext : writeFields [] ((name, v) :: after) ++ close =
        needle name ++ colon :: (v.write ++ writeFields [comma] after ++ close) := by
      simp [writeFields, writeString_plain hname.plain, needle]
    rw [List.nil_append, htext]
    exact Finds.here ..
  | cons f rest ih =>
    have hrest := ih fun g hg => hpassed g (List.mem_cons_of_mem f hg)
    have hne : rest ++ (name, v) :: after ≠ [] := by simp
    obtain ⟨text, htext⟩ := writeFields_quote _ hne
    rw [htext] at hrest
    obtain ⟨other, w⟩ := f
    have hf := hpassed _ (List.mem_cons_self ..)
    cases w with
    | string s =>
      obtain ⟨hother, hne', hs, hsne⟩ := hf
      -- the pieces: the other name, a colon, its value, a comma
      have hcut : writeFields [] ((other, .string s) :: rest ++ (name, v) :: after) ++ close =
          quote :: (other ++ quote :: ([colon] ++ quote :: (s ++ quote :: ([comma] ++
            quote :: (text ++ close))))) := by
        rw [List.cons_append, writeFields, writeFields_comma _ hne, htext, Value.write,
          writeString_plain hother.plain, writeString_plain hs]
        simp
      rw [hcut]
      refine Finds.pass (Finds.pass (Finds.pass (Finds.pass hrest hq (by decide) ?_) hq
        hs.quote_notMem hsne) hq (by decide) ?_) hq hother.plain.quote_notMem hne'
      · exact hname.ne_of_mem (.inr (List.mem_cons_self ..))
      · exact hname.ne_of_mem (.inl (List.mem_cons_self ..))
    | number n =>
      obtain ⟨hother, hne'⟩ := hf
      have hcut : writeFields [] ((other, .number n) :: rest ++ (name, v) :: after) ++ close =
          quote :: (other ++ quote :: ((colon :: (decimal n ++ [comma])) ++
            quote :: (text ++ close))) := by
        rw [List.cons_append, writeFields, writeFields_comma _ hne, htext, Value.write,
          writeString_plain hother.plain]
        simp
      have hpiece : quote ∉ colon :: (decimal n ++ [comma]) := by
        have := quote_notMem_decimal n
        simp [this]
        decide
      rw [hcut]
      refine Finds.pass (Finds.pass hrest hq hpiece ?_) hq hother.plain.quote_notMem hne'
      exact hname.ne_of_mem (.inl (List.mem_cons_self ..))
    | bool | array | object => exact absurd hf id

/-- A search for a field's name in an object ends at the field's colon, if it passes the
fields before it. -/
theorem finds_name (v : Value) (after : List (List Byte × Value)) (hname : Identifier name)
    (before : List (List Byte × Value)) (hpassed : ∀ f ∈ before, Passed name f) :
    Finds (needle name) (Value.object (before ++ (name, v) :: after)).write
      (colon :: (v.write ++ writeFields [comma] after ++ [0x7d])) := by
  rw [Value.write]
  exact (finds_fields hname before hpassed).skip [0x7b] (by decide)

end Fields

end AudioPlatform.Wire.Json
