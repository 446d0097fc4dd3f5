import AudioPlatform.Windows.Console

/-! What is typed is read.

A session's text is cut into lines, a line into words, and its first word is looked up. A text of lines that
each spell a command, with any white space around the words, gives these commands and their arguments. A
carriage return is white space, so either end of line will do. -/
namespace AudioPlatform.Windows
open AudioPlatform.Core Wire

/-- The words of the ports and the token; the usual ones need not be given. -/
inductive Given : Int → Int → CString → List CString → Prop
  | nothing : Given 10000 8080 (utf8 "test-token") []
  | udpPort {udpPort : Nat} (h : udpPort ≤ 2147483647) :
    Given udpPort 8080 (utf8 "test-token") [decimal udpPort]
  | ports {udpPort wsPort : Nat} (h : udpPort ≤ 2147483647) (hws : wsPort ≤ 2147483647) :
    Given udpPort wsPort (utf8 "test-token") [decimal udpPort, decimal wsPort]
  | token {udpPort wsPort : Nat} {token} (h : udpPort ≤ 2147483647) (hws : wsPort ≤ 2147483647)
      (htoken : IsWord isSpace 255 token) :
    Given udpPort wsPort token [decimal udpPort, decimal wsPort, token]

/-- The words of a command. -/
inductive Spelled : Command → List CString → Prop
  | quit {name} (h : name ∈ [utf8 "quit", utf8 "exit", utf8 "q"]) : Spelled .quit [name]
  | connect {host udpPort wsPort token args} (h : IsWord isSpace 255 host)
      (hargs : Given udpPort wsPort token args) :
    Spelled (.connect host udpPort wsPort token) (utf8 "connect" :: host :: args)
  | disconnect : Spelled .disconnect [utf8 "disconnect"]
  | join (idx : ChannelIndex) : Spelled (.join idx) [utf8 "join", decimal (idx + 1)]
  | leave (idx : ChannelIndex) : Spelled (.leave idx) [utf8 "leave", decimal (idx + 1)]
  | talk (idx : ChannelIndex) : Spelled (.talk idx) [utf8 "talk", decimal (idx + 1)]
  | stop (idx : ChannelIndex) : Spelled (.stop idx) [utf8 "stop", decimal (idx + 1)]
  | vol {vol} (h : vol ≤ 100) : Spelled (.vol vol) [utf8 "vol", decimal vol]
  | chvol (idx : ChannelIndex) {vol} (h : vol ≤ 100) :
    Spelled (.chvol idx vol) [utf8 "chvol", decimal (idx + 1), decimal vol]
  | mute (idx : ChannelIndex) : Spelled (.mute idx) [utf8 "mute", decimal (idx + 1)]

/-- A line that spells the command, short enough for the buffer that it is read into. -/
def Typed (command : Command) (line : List Byte) : Prop :=
  ∃ words, Spelled command words ∧ Spaced isSpace words line ∧ line.length ≤ 510 ∧
    ∀ b ∈ line, b ≠ 0 ∧ b ≠ 0x0A

/-! ### Numbers -/

/-- A digit is no space and no sign. -/
theorem digit_plain : ∀ b : Byte, Wire.isDigit b = true → isSpace b = false ∧ b ≠ 0x2D ∧ b ≠ 0x2B := by
  decide

theorem toInt_decimal {n : Nat} (h : n ≤ 2147483647) : toInt (decimal n) = n := by
  have hread := readDigits_decimal n
  have hdigits := isDigit_decimal n
  obtain ⟨d, ds, hds⟩ := List.exists_cons_of_ne_nil (decimal_ne_nil n)
  rw [hds] at hread hdigits ⊢
  obtain ⟨hspace, hminus, hplus⟩ := digit_plain d (hdigits d (List.mem_cons_self ..))
  have hdrop : (d :: ds).dropWhile isSpace = d :: ds := List.dropWhile_cons_of_neg (by simp [hspace])
  have htake : (d :: ds).takeWhile Wire.isDigit = d :: ds := List.takeWhile_eq_self_iff.mpr hdigits
  unfold toInt
  simp only [hdrop, List.head?_cons, Option.some.injEq, hminus, hplus, or_self, if_false, htake, hread]
  omega

theorem channelArg_decimal (idx : ChannelIndex) : channelArg (decimal (idx + 1)) = some idx := by
  have hidx := idx.isLt
  have hread : toInt (decimal (idx + 1)) = idx + 1 := by
    rw [toInt_decimal (by omega)]
    rfl
  unfold channelArg
  simp only [hread]
  rw [dif_pos (by omega)]
  simp

theorem volumeArg_decimal {vol : Nat} (h : vol ≤ 100) : volumeArg (decimal vol) = some vol := by
  unfold volumeArg
  simp only [toInt_decimal (show vol ≤ 2147483647 by omega)]
  rw [if_pos (by omega)]
  rfl

theorem isWord_decimal {n : Nat} (h : n ≤ 2147483647) : IsWord isSpace 255 (decimal n) where
  ne_nil := decimal_ne_nil n
  solid b hb := (digit_plain b (isDigit_decimal n b hb)).1
  fits := (length_decimal (by omega)).trans (by decide)

theorem portArg_decimal {port : Nat} (h : port ≤ 2147483647) (usual : Int) :
    portArg (decimal port) usual = port := by
  unfold portArg
  rw [if_neg (by simpa using decimal_ne_nil port), toInt_decimal h]

/-! ### Commands -/

theorem forChannel_decimal (command : ChannelIndex → Command) (idx : ChannelIndex) :
    forChannel (decimal (idx + 1)) command = command idx := by
  rw [forChannel, channelArg_decimal]
  rfl

theorem tokenArg_word {token : CString} (h : IsWord isSpace 255 token) : tokenArg token = token :=
  if_neg (by simpa using h.ne_nil)

theorem Given.args {udpPort wsPort : Int} {token : CString} {args : List CString}
    (h : Given udpPort wsPort token args) :
    portArg (args.getD 0 []) 10000 = udpPort ∧ portArg (args.getD 1 []) 8080 = wsPort ∧
      tokenArg (args.getD 2 []) = token := by
  cases h with
  | nothing => exact ⟨rfl, rfl, rfl⟩
  | udpPort h => exact ⟨portArg_decimal h _, rfl, rfl⟩
  | ports h hws => exact ⟨portArg_decimal h _, portArg_decimal hws _, rfl⟩
  | token h hws htoken => exact ⟨portArg_decimal h _, portArg_decimal hws _, tokenArg_word htoken⟩

theorem Given.fits {udpPort wsPort : Int} {token : CString} {args : List CString}
    (h : Given udpPort wsPort token args) :
    List.Forall₂ (IsWord isSpace) ([255, 255, 255].take args.length) args := by
  cases h with
  | nothing => exact .nil
  | udpPort h => exact .cons (isWord_decimal h) .nil
  | ports h hws => exact .cons (isWord_decimal h) (.cons (isWord_decimal hws) .nil)
  | token h hws htoken =>
    exact .cons (isWord_decimal h) (.cons (isWord_decimal hws) (.cons htoken .nil))

theorem Spelled.dispatch {command : Command} {words : List CString} (h : Spelled command words) :
    Windows.dispatch (words.getD 0 []) (words.getD 1 []) (words.getD 2 []) (words.getD 3 [])
      (words.getD 4 []) = command := by
  cases h with
  | quit h =>
    simp only [List.mem_cons, List.not_mem_nil, or_false] at h
    exact if_pos h
  | @connect host udpPort wsPort token args h hargs =>
    obtain ⟨hudp, hws, htoken⟩ := hargs.args
    show (if host.isEmpty then Command.nothing
      else .connect host (portArg (args.getD 0 []) 10000) (portArg (args.getD 1 []) 8080)
        (tokenArg (args.getD 2 []))) = _
    rw [if_neg (by simpa using h.ne_nil), hudp, hws, htoken]
  | disconnect => rfl
  | join idx => exact forChannel_decimal .join idx
  | leave idx => exact forChannel_decimal .leave idx
  | talk idx => exact forChannel_decimal .talk idx
  | stop idx => exact forChannel_decimal .stop idx
  | vol h =>
    rename_i vol
    show (volumeArg (decimal vol)).elim Command.nothing .vol = _
    rw [volumeArg_decimal h]
    rfl
  | chvol idx h =>
    rename_i vol
    show forChannel (decimal (idx + 1)) (fun idx => (volumeArg (decimal vol)).elim .nothing (.chvol idx)) = _
    rw [forChannel_decimal, volumeArg_decimal h]
    rfl
  | mute idx => exact forChannel_decimal .mute idx

/-- The words fit into the buffers that they are read into. -/
theorem Spelled.fits {command : Command} {words : List CString} (h : Spelled command words) :
    List.Forall₂ (IsWord isSpace) (widths.take words.length) words := by
  have hname : ∀ name ∈ [utf8 "quit", utf8 "exit", utf8 "q", utf8 "connect", utf8 "disconnect", utf8 "join",
      utf8 "leave", utf8 "talk", utf8 "stop", utf8 "vol", utf8 "chvol", utf8 "mute"], IsWord isSpace 63 name := by
    intro name hname
    have hall : name ≠ [] ∧ (∀ b ∈ name, isSpace b = false) ∧ name.length ≤ 63 := by
      revert name
      decide +kernel
    exact ⟨hall.1, hall.2.1, hall.2.2⟩
  have hidx : ∀ idx : ChannelIndex, IsWord isSpace 255 (decimal (idx + 1)) := fun idx =>
    isWord_decimal (by omega)
  have hvol : ∀ {vol : Nat}, vol ≤ 100 → IsWord isSpace 255 (decimal vol) := fun h =>
    isWord_decimal (by omega)
  cases h with
  | quit h => exact .cons (hname _ (List.mem_append_left [_, _, _, _, _, _, _, _, _] h)) .nil
  | connect h hargs => exact .cons (hname _ (by simp)) (.cons h hargs.fits)
  | disconnect => exact .cons (hname _ (by simp)) .nil
  | vol h => exact .cons (hname _ (by simp)) (.cons (hvol h) .nil)
  | chvol idx h => exact .cons (hname _ (by simp)) (.cons (hidx idx) (.cons (hvol h) .nil))
  | _ idx => exact .cons (hname _ (by simp)) (.cons (hidx idx) .nil)

/-! ### Lines -/

/-- The end of the line goes, with a carriage return before it. -/
theorem stripNewline_lf {line : List Byte} (h : ∀ b ∈ line, b ≠ 0) :
    stripNewline (line ++ [0x0A]) = if line.getLast? = some 0x0D then line.dropLast else line := by
  have hwhole : (line ++ [0x0A]).takeWhile (· ≠ 0) = line ++ [0x0A] := by
    refine List.takeWhile_eq_self_iff.mpr fun b hb => ?_
    obtain hb | hb := List.mem_append.mp hb
    · simpa using h b hb
    · rw [List.mem_singleton.mp hb]
      decide
  unfold stripNewline
  rw [hwhole]
  dsimp only
  obtain rfl | ⟨text, b, rfl⟩ := List.eq_nil_or_concat line
  · decide
  · rw [List.concat_eq_append]
    have hlen : (text ++ [b] ++ [0x0A]).length - 2 = text.length := by simp
    have hlast : (text ++ [b] ++ [0x0A])[text.length]? = some b := by simp
    have hlong : 1 < (text ++ [b] ++ [0x0A]).length := by simp
    simp only [hlen, hlast, hlong, true_and, List.getLast?_concat, List.dropLast_concat, Option.some.injEq]
    split
    · rw [List.append_assoc, List.take_left]
    · exact if_pos trivial

theorem parse_typed {command : Command} {line : List Byte} (h : Typed command line) :
    parse (line ++ [0x0A]) = command := by
  obtain ⟨words, hspelled, hspaced, -, hplain⟩ := h
  have hfits := hspelled.fits
  have hstrip : Spaced isSpace words (stripNewline (line ++ [0x0A])) := by
    rw [stripNewline_lf fun b hb => (hplain b hb).1]
    split
    · rename_i hcr
      rw [← List.dropLast_append_getLast? _ hcr] at hspaced
      exact hspaced.dropLast (by decide) hfits
    · exact hspaced
  have hwords : scanWords isSpace widths (stripNewline (line ++ [0x0A])) =
      words ++ List.replicate (widths.length - words.length) [] := scanWords_spaced hstrip hfits
  have htext : stripNewline (line ++ [0x0A]) ≠ [] := by
    cases hspelled <;> exact hstrip.ne_nil (List.forall₂_cons.mp hfits).1.ne_nil
  unfold parse
  simp only [hwords, getD_scanned]
  rw [if_neg (by simpa using htext)]
  exact hspelled.dispatch

/-- **What is typed is read.** A text of lines that each spell a command, whatever white space stands around the
words, is read as these commands with their arguments, each once and in order. -/
theorem typed_is_read {typed : List (Command × List Byte)} (h : ∀ t ∈ typed, Typed t.1 t.2) :
    (lines 0x0A 510 (typed.flatMap fun t => t.2 ++ [0x0A])).map parse = typed.map Prod.fst := by
  have hlines : ∀ l ∈ typed.map Prod.snd, (∀ b ∈ l, b ≠ 0x0A) ∧ l.length ≤ 510 := by
    intro l hl
    obtain ⟨t, ht, rfl⟩ := List.mem_map.mp hl
    obtain ⟨words, -, -, hlen, hplain⟩ := h t ht
    exact ⟨fun b hb => (hplain b hb).2, hlen⟩
  rw [← List.flatMap_map Prod.snd (fun l => l ++ [0x0A]), lines_flatMap hlines, List.map_map, List.map_map]
  exact List.map_congr_left fun t ht => parse_typed (h t ht)

/-- "connect host 10001 81 key", "vol 50" with a carriage return, and "q" after a space. -/
def session : List (Command × List Byte) :=
  [(.connect (utf8 "host") 10001 81 (utf8 "key"), utf8 "connect host 10001 81 key"),
    (.vol 50, utf8 "vol 50" ++ [0x0D]), (.quit, utf8 " q")]

theorem typed_is_read_session :
    (lines 0x0A 510 (session.flatMap fun t => t.2 ++ [0x0A])).map parse =
      [.connect (utf8 "host") 10001 81 (utf8 "key"), .vol 50, .quit] := by
  refine typed_is_read fun t ht => ?_
  simp only [session, List.mem_cons, List.not_mem_nil, or_false] at ht
  obtain rfl | rfl | rfl := ht
  · have hgiven : Given 10001 81 (utf8 "key") _ :=
      @Given.token 10001 81 _ (by decide) (by decide) ⟨by decide, by decide, by decide⟩
    refine ⟨_, .connect ⟨by decide, by decide, by decide⟩ hgiven, ?_, by decide, by decide⟩
    show Spaced isSpace _ ([] ++ (utf8 "connect" ++ ([0x20] ++ (utf8 "host" ++ ([0x20] ++ (decimal 10001 ++
      ([0x20] ++ (decimal 81 ++ ([0x20] ++ (utf8 "key" ++ []))))))))))
    exact .cons (by decide) (by decide) (.cons (by decide) (by decide) (.cons (by decide) (by decide)
      (.cons (by decide) (by decide) (.cons (by decide) (by decide) (.nil (by decide))))))
  · refine ⟨_, .vol (by decide), ?_, by decide, by decide⟩
    show Spaced isSpace _ ([] ++ (utf8 "vol" ++ ([0x20] ++ (decimal 50 ++ [0x0D]))))
    exact .cons (by decide) (by decide) (.cons (by decide) (by decide) (.nil (by decide)))
  · refine ⟨[utf8 "q"], .quit (by decide), ?_, by decide, by decide⟩
    show Spaced isSpace _ ([0x20] ++ (utf8 "q" ++ []))
    exact .cons (by decide) (by decide) (.nil (by decide))

end AudioPlatform.Windows
