import AudioPlatform.Wire.Json

/-! The Windows client's reading of signaling texts.

A JSON text is not parsed but searched: for the first occurrence of the key between quotes,
then for the next colon, then for the next quotes or digits. Nothing knows of nesting or of
escapes. -/
namespace AudioPlatform.Windows
open Wire Wire.Json

abbrev Text := List Byte

/-! ### JSON helpers -/

/-- The text between the first two quotes after the colon after the key; empty if there
is none. -/
def jsonGetString (json : Text) (key : Text) : Text :=
  let needle := quote :: (key ++ [quote])
  match findFrom needle json 0 with
  | none => []
  | some pos =>
  match findFrom [colon] json (pos + needle.length) with
  | none => []
  | some pos =>
  match findFrom [quote] json (pos + 1) with
  | none => []
  | some pos =>
  match findFrom [quote] json (pos + 1) with
  | none => []
  | some end_ => (json.drop (pos + 1)).take (end_ - pos - 1)

def isSpace (b : Byte) : Bool := b == 0x20 || (0x09 ≤ b && b ≤ 0x0d)

/-- The number at the start of a text in base 10, after blanks and a sign. A number that is
too large is the largest one; a minus sign negates. -/
def strtoull (str : Text) : BitVec 64 :=
  let str := str.dropWhile isSpace
  let negative := str.head? == some 0x2d
  let str := if negative || str.head? == some 0x2b then str.tail else str
  let n := readDigits (str.takeWhile isDigit)
  if 2 ^ 64 ≤ n then BitVec.allOnes 64
  else if negative then -BitVec.ofNat 64 n
  else BitVec.ofNat 64 n

/-- The number after the colon after the key; 0 if there is none. -/
def jsonGetUint64 (json : Text) (key : Text) : BitVec 64 :=
  let needle := quote :: (key ++ [quote])
  match findFrom needle json 0 with
  | none => 0
  | some pos =>
  match findFrom [colon] json (pos + needle.length) with
  | none => 0
  | some pos =>
    strtoull ((json.drop (pos + 1)).dropWhile fun b => b == 0x20 || b == 0x09)

structure WsEvent where
  type : Text
  clientId : Text
  channelId : Text
  userName : Text
  message : Text
  udpPort : BitVec 16
  timestamp : BitVec 64
  serverTime : BitVec 64
  deriving DecidableEq, Repr

/-- The event that the callback gets. -/
def parseAndDispatch (json : Text) : WsEvent :=
  { type := jsonGetString json (utf8 "type")
    clientId := jsonGetString json (utf8 "client_id")
    channelId := jsonGetString json (utf8 "channel_id")
    userName := jsonGetString json (utf8 "user_name")
    message := jsonGetString json (utf8 "message")
    udpPort := (jsonGetUint64 json (utf8 "udp_port")).setWidth 16
    timestamp := jsonGetUint64 json (utf8 "timestamp")
    serverTime := jsonGetUint64 json (utf8 "server_time") }

/-! ### The numeric id -/

/-- The value of a hexadecimal digit; nothing for any other character. -/
def nibble (c : Byte) : Option Byte :=
  if 0x30 ≤ c && c ≤ 0x39 then some (c - 0x30)
  else if 0x61 ≤ c && c ≤ 0x66 then some (10 + (c - 0x61))
  else if 0x41 ≤ c && c ≤ 0x46 then some (10 + (c - 0x41))
  else none

/-- The first 16 digits of a text, paired into bytes; `bi` digits have been taken before. -/
def pairNibbles : Text → List Byte → Nat → List Byte
  | [], bytes, _ => bytes
  | c :: rest, bytes, bi =>
    if bi < 16 then
      match nibble c with
      | none => pairNibbles rest bytes bi
      | some n =>
        if bi % 2 = 0 then pairNibbles rest (bytes.set (bi / 2) (n <<< 4)) (bi + 1)
        else pairNibbles rest (bytes.set (bi / 2) (bytes.getD (bi / 2) 0 ||| n)) (bi + 1)
    else bytes

def deriveUdpId (uuidStr : Text) : BitVec 64 :=
  let bytes := pairNibbles uuidStr (List.replicate 16 0) 0
  (List.range 8).foldl (fun id i => id <<< 8 ||| (bytes.getD i 0).setWidth 64) 0

/-! ### What the helpers read -/

section Read
variable {json key rest : Text}

/-- After the key the search goes on at the colon. -/
theorem findFrom_key (h : Finds (needle key) json (colon :: rest)) : ∃ pos pos',
    findFrom (quote :: (key ++ [quote])) json 0 = some pos ∧
      findFrom [colon] json (pos + (quote :: (key ++ [quote])).length) = some pos' ∧
      json.drop (pos' + 1) = rest := by
  obtain ⟨pos, hkey, hdrop⟩ := findFrom_of_finds json 0 h
  have hcolon := findFrom_mark [] hdrop List.not_mem_nil
  rw [List.length_nil, Nat.zero_add] at hcolon
  refine ⟨pos, _, hkey, hcolon, ?_⟩
  rw [← List.drop_drop, hdrop]
  rfl

/-- The string after the key is read up to the next quote. -/
theorem jsonGetString_eq {s : Text} (rest : Text)
    (h : Finds (needle key) json (colon :: quote :: (s ++ quote :: rest)))
    (hs : quote ∉ s) : jsonGetString json key = s := by
  obtain ⟨pos, pos', hkey, hcolon, hdrop⟩ := findFrom_key h
  have hopen := findFrom_mark [] hdrop List.not_mem_nil
  rw [List.length_nil, Nat.zero_add] at hopen
  have hbody : json.drop (pos' + 1 + 1) = s ++ quote :: rest := by
    rw [← List.drop_drop, hdrop]
    rfl
  have hclose := findFrom_mark s hbody hs
  unfold jsonGetString
  simp only [hkey, hcolon, hopen, hclose, hbody]
  rw [show s.length + (pos' + 1 + 1) - (pos' + 1) - 1 = s.length by omega]
  exact List.take_left

theorem strtoull_digits {digits : Text} {c : Byte} (hne : digits ≠ [])
    (hdigits : ∀ b ∈ digits, isDigit b = true) (hc : isDigit c = false)
    (hlt : readDigits digits < 2 ^ 64) :
    strtoull (digits ++ c :: rest) = BitVec.ofNat 64 (readDigits digits) := by
  have hbyte : ∀ b : Byte, isDigit b = true → isSpace b = false ∧
      (some b == some 0x2d) = false ∧ (some b == some 0x2b) = false := by decide
  have htake : (digits ++ c :: rest).takeWhile isDigit = digits := by
    rw [List.takeWhile_append_of_pos hdigits, List.takeWhile_cons_of_neg (by simp [hc]),
      List.append_nil]
  obtain ⟨d, ds, rfl⟩ := List.exists_cons_of_ne_nil hne
  obtain ⟨hspace, hminus, hplus⟩ := hbyte d (hdigits d (List.mem_cons_self ..))
  have hdrop : (d :: ds ++ c :: rest).dropWhile isSpace = d :: ds ++ c :: rest :=
    List.dropWhile_cons_of_neg (by simp [hspace])
  have hhead : (d :: ds ++ c :: rest).head? = some d := rfl
  unfold strtoull
  simp only [hdrop, hhead, hminus, hplus, Bool.or_self, Bool.false_eq_true, if_false, htake]
  rw [if_neg (Nat.not_le.mpr hlt)]

/-- The number after the key is read up to the first byte that is no digit. -/
theorem jsonGetUint64_eq {n : Nat} {c : Byte} (rest : Text)
    (h : Finds (needle key) json (colon :: (decimal n ++ c :: rest))) (hc : isDigit c = false)
    (hlt : n < 2 ^ 64) : jsonGetUint64 json key = BitVec.ofNat 64 n := by
  obtain ⟨pos, pos', hkey, hcolon, hdrop⟩ := findFrom_key h
  have hblank : (decimal n ++ c :: rest).dropWhile (fun b => b == 0x20 || b == 0x09) =
      decimal n ++ c :: rest := by
    have hbyte : ∀ b : Byte, isDigit b = true → ¬ (b == 0x20 || b == 0x09) = true := by decide
    obtain ⟨d, ds, heq⟩ := List.exists_cons_of_ne_nil (decimal_ne_nil n)
    rw [heq, List.cons_append]
    refine List.dropWhile_cons_of_neg (hbyte d (isDigit_decimal n d ?_))
    rw [heq]
    exact List.mem_cons_self ..
  unfold jsonGetUint64
  simp only [hkey, hcolon, hdrop, hblank]
  rw [strtoull_digits (decimal_ne_nil n) (isDigit_decimal n) hc, readDigits_decimal]
  rw [readDigits_decimal]
  exact hlt

end Read

/-! ### Fields of an object -/

section Fields
variable {name : Text} {after : List (Text × Value)}

/-- A string field of an object is read as what is seen of it, if the search for its name passes
the fields before it. -/
theorem jsonGetString_field {s : Text} (before : List (Text × Value)) (hname : Identifier name)
    (hpassed : ∀ f ∈ before, Passed name f) :
    jsonGetString (Value.object (before ++ (name, .string s) :: after)).write name = seen s := by
  have hfinds := finds_name (.string s) after hname before hpassed
  obtain ⟨rest, hrest⟩ := escape_seen s (writeFields [comma] after ++ [0x7d])
  refine jsonGetString_eq rest ?_ (quote_notMem_seen s)
  rw [← hrest]
  rw [Value.write, writeString] at hfinds
  simpa using hfinds

/-- A number field is read as it is. -/
theorem jsonGetUint64_field {n : Nat} (before : List (Text × Value)) (hname : Identifier name)
    (hpassed : ∀ f ∈ before, Passed name f) (hlt : n < 2 ^ 64) :
    jsonGetUint64 (Value.object (before ++ (name, .number n) :: after)).write name =
      BitVec.ofNat 64 n := by
  have hfinds := finds_name (.number n) after hname before hpassed
  rw [Value.write] at hfinds
  -- the number ends at a comma or at the closing brace
  have hend : ∃ c rest, writeFields [comma] after ++ [0x7d] = c :: rest ∧ isDigit c = false := by
    cases after with
    | nil => exact ⟨0x7d, [], rfl, rfl⟩
    | cons f rest =>
      rw [writeFields_comma _ (List.cons_ne_nil f rest)]
      exact ⟨comma, _, rfl, rfl⟩
  obtain ⟨c, rest, hend, hc⟩ := hend
  refine jsonGetUint64_eq rest ?_ hc hlt
  rw [← hend]
  simpa using hfinds

end Fields

end AudioPlatform.Windows
