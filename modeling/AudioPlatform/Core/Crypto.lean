import Mathlib.Logic.Function.Iterate
import AudioPlatform.Core.Rtp

/-! Encryption of audio payloads: the key table and the XOR backend.

An encrypted payload is the nonce, the ciphertext and the tag. The ciphertext is
the payload combined with a 32-byte stream made of key and nonce; the tag folds
key, payload and associated data into 16 bytes. -/
namespace AudioPlatform.Core

def aeCryptoKeySize : Nat := 32
def aeCryptoIvSize : Nat := 12
def aeCryptoTagSize : Nat := 16
def aeCryptoOverhead : Nat := aeCryptoIvSize + aeCryptoTagSize
def maxChannelKeys : Nat := 64

/-! ### Keys -/

abbrev Key := Fin aeCryptoKeySize → Byte

structure ChannelKey where
  channelId : BitVec 32
  key : Key
  active : Bool

/-- The first `num_keys` entries of the key table. -/
structure Crypto where
  keys : List ChannelKey
  bounded : keys.length ≤ maxChannelKeys

def aeCryptoInit : Crypto := ⟨[], Nat.zero_le _⟩

/-- The entry is in use for the channel. -/
def ChannelKey.isFor (entry : ChannelKey) (channelId : BitVec 32) : Bool :=
  entry.active && entry.channelId = channelId

def findKey (ctx : Crypto) (channelId : BitVec 32) : Option Key :=
  (ctx.keys.find? (·.isFor channelId)).map ChannelKey.key

/-- One step of the mixing in `deriveKeyFromChannel`. -/
def nextSeed (seed : BitVec 32) : BitVec 32 := seed * 1103515245 + 12345

def deriveKeyFromChannel (channelId : BitVec 32) : Key := fun i =>
  let seed := nextSeed^[i.val + 1] (channelId ^^^ 0xDEADBEEF)
  ((seed >>> 16) &&& 0xFF).setWidth 8

/-- `none` for -1, when the table is full; it is then unchanged. -/
def aeCryptoSetChannelKey (ctx : Crypto) (channelId : BitVec 32) (key : Option Key) :
    Option Crypto :=
  let entry : ChannelKey := ⟨channelId, key.getD (deriveKeyFromChannel channelId), true⟩
  match ctx.keys.findIdx? (·.isFor channelId) with
  | some slot => some ⟨ctx.keys.set slot entry, by simpa using ctx.bounded⟩
  | none =>
    if h : ctx.keys.length < maxChannelKeys then
      some ⟨ctx.keys ++ [entry], by rw [List.length_append]; exact h⟩
    else none

/-! ### The XOR backend -/

def buildNonce (channelId : BitVec 32) (clientId : BitVec 64) (sequence : BitVec 32) : List Byte :=
  let cidLow : BitVec 32 := (clientId &&& 0xFFFFFFFF).setWidth 32
  BigEndian.toBytes 4 channelId ++ BigEndian.toBytes 4 cidLow ++ BigEndian.toBytes 4 sequence

def streamKey (key : Key) (nonce : List Byte) : Key := fun i =>
  key i ^^^ nonce.getD (i % aeCryptoIvSize) 0

def xorStream (key : Key) (nonce input : List Byte) : List Byte :=
  input.mapIdx fun i b => b ^^^ streamKey key nonce ⟨i % aeCryptoKeySize, Nat.mod_lt i (by decide)⟩

/-- Folds the bytes into the tag, starting at its first byte and going round. -/
def mixInto (tag data : List Byte) : List Byte :=
  data.zipIdx.foldl (fun tag x => tag.modify (x.2 % aeCryptoTagSize) (· ^^^ x.1)) tag

/-- The last pass: from the end, each byte is added to the one before it. -/
def finalMix : List Byte → List Byte
  | [] => []
  | b :: rest =>
    match finalMix rest with
    | [] => [b]
    | c :: rest => (b ^^^ c) :: c :: rest

def computeTag (key : Key) (data aad : List Byte) : List Byte :=
  let tag := List.replicate aeCryptoTagSize 0
  let tag := mixInto tag (List.ofFn key)
  let tag := mixInto tag data
  let tag := mixInto tag aad
  finalMix tag

/-- The bits in which two tags differ, collected in one byte. -/
def tagDiff (tag expected : List Byte) : Byte :=
  (List.zipWith (· ^^^ ·) tag expected).foldl (· ||| ·) 0

/-- `none` for -1. -/
def aeCryptoEncrypt (ctx : Crypto) (channelId : BitVec 32) (clientId : BitVec 64)
    (sequence : BitVec 32) (aad plaintext : List Byte) (outputSize : Nat) : Option (List Byte) :=
  let needed := plaintext.length + aeCryptoOverhead
  if outputSize < needed then none
  else
    match findKey ctx channelId with
    | none => none
    | some key =>
      let nonce := buildNonce channelId clientId sequence
      some (nonce ++ xorStream key nonce plaintext ++ computeTag key plaintext aad)

/-- The decrypted payload; `none` if the tag is not the expected one. -/
def verified (key : Key) (aad iv ciphertext tag : List Byte) : Option (List Byte) :=
  let output := xorStream key iv ciphertext
  let expectedTag := computeTag key output aad
  if tagDiff tag expectedTag ≠ 0 then none else some output

/-- Decrypts the `inputLen` bytes at `input`; `none` for -1. -/
def aeCryptoDecrypt (ctx : Crypto) (channelId : BitVec 32) (aad : List Byte)
    (input inputLen outputSize : Nat) : Reading Byte (Option (List Byte)) :=
  if inputLen < aeCryptoOverhead then pure none
  else
    let ciphertextLen := inputLen - aeCryptoOverhead
    if outputSize < ciphertextLen then pure none
    else
      match findKey ctx channelId with
      | none => pure none
      | some key => do
        let iv ← Reading.slice input aeCryptoIvSize
        let ciphertext ← Reading.slice (input + aeCryptoIvSize) ciphertextLen
        let tag ← Reading.slice (input + aeCryptoIvSize + ciphertextLen) aeCryptoTagSize
        return verified key aad iv ciphertext tag

/-! ### Nonces -/

@[simp] theorem length_buildNonce (channelId : BitVec 32) (clientId : BitVec 64)
    (sequence : BitVec 32) : (buildNonce channelId clientId sequence).length = aeCryptoIvSize := by
  simp [buildNonce, aeCryptoIvSize]

/-- A nonce determines its channel, the low half of its client id and its sequence number. -/
theorem buildNonce_inj {n n' : BitVec 32} {c c' : BitVec 64} {q q' : BitVec 32} :
    buildNonce n c q = buildNonce n' c' q' ↔ n = n' ∧ c.setWidth 32 = c'.setWidth 32 ∧ q = q' := by
  have hlow : ∀ c : BitVec 64, (c &&& 0xFFFFFFFF).setWidth 32 = c.setWidth 32 := by
    intro c
    rw [BitVec.setWidth_and, show (0xFFFFFFFF : BitVec 64).setWidth 32 = BitVec.allOnes 32 by decide,
      BitVec.and_allOnes]
  unfold buildNonce
  dsimp only
  rw [hlow, hlow]
  constructor
  · intro h
    obtain ⟨h, hq⟩ := List.append_inj' h (by simp)
    obtain ⟨hn, hc⟩ := List.append_inj' h (by simp)
    exact ⟨BigEndian.toBytes_injective (n := 4) hn, BigEndian.toBytes_injective (n := 4) hc,
      BigEndian.toBytes_injective (n := 4) hq⟩
  · rintro ⟨rfl, hc, rfl⟩
    rw [hc]

/-! ### Decrypting what was encrypted -/

@[simp] theorem length_xorStream (key : Key) (nonce input : List Byte) :
    (xorStream key nonce input).length = input.length := by
  simp [xorStream]

/-- The stream applied twice is the input. -/
theorem xorStream_xorStream (key : Key) (nonce input : List Byte) :
    xorStream key nonce (xorStream key nonce input) = input := by
  apply List.ext_getElem
  · simp
  · intro i h₁ h₂
    simp [xorStream, BitVec.xor_assoc]

@[simp] theorem length_mixInto (tag data : List Byte) : (mixInto tag data).length = tag.length := by
  unfold mixInto
  generalize data.zipIdx = steps
  induction steps generalizing tag with
  | nil => rfl
  | cons x rest ih => rw [List.foldl_cons, ih, List.length_modify]

@[simp] theorem length_finalMix (tag : List Byte) : (finalMix tag).length = tag.length := by
  induction tag with
  | nil => rfl
  | cons b rest ih =>
    unfold finalMix
    split
    · rename_i h
      rw [h] at ih
      simp [← ih]
    · rename_i h
      rw [h] at ih
      simp [← ih]

@[simp] theorem length_computeTag (key : Key) (data aad : List Byte) :
    (computeTag key data aad).length = aeCryptoTagSize := by
  simp [computeTag]

@[simp] theorem tagDiff_self (tag : List Byte) : tagDiff tag tag = 0 := by
  unfold tagDiff
  induction tag with
  | nil => rfl
  | cons b rest ih => simpa using ih

theorem verified_xorStream (key : Key) (aad nonce plaintext : List Byte) :
    verified key aad nonce (xorStream key nonce plaintext) (computeTag key plaintext aad) =
      some plaintext := by
  unfold verified
  dsimp only
  rw [xorStream_xorStream, tagDiff_self, if_neg (not_not_intro rfl)]

/-- An encrypted payload is the nonce, the ciphertext and the tag. -/
theorem aeCryptoEncrypt_eq_some {ctx : Crypto} {channelId : BitVec 32} {clientId : BitVec 64}
    {sequence : BitVec 32} {aad plaintext encrypted : List Byte} {outputSize : Nat} :
    aeCryptoEncrypt ctx channelId clientId sequence aad plaintext outputSize = some encrypted ↔
      plaintext.length + aeCryptoOverhead ≤ outputSize ∧ ∃ key, findKey ctx channelId = some key ∧
        encrypted = buildNonce channelId clientId sequence ++
          xorStream key (buildNonce channelId clientId sequence) plaintext ++
            computeTag key plaintext aad := by
  unfold aeCryptoEncrypt
  dsimp only
  split
  · rename_i h
    simp only [reduceCtorEq, false_iff]
    omega
  · rename_i h
    cases findKey ctx channelId with
    | none => simp
    | some key =>
      simp only [Option.some.injEq, exists_eq_left']
      exact ⟨fun h' => ⟨Nat.le_of_not_lt h, h'.symm⟩, fun h' => h'.2.symm⟩

theorem length_encrypted {ctx : Crypto} {channelId : BitVec 32} {clientId : BitVec 64}
    {sequence : BitVec 32} {aad plaintext encrypted : List Byte} {outputSize : Nat}
    (he : aeCryptoEncrypt ctx channelId clientId sequence aad plaintext outputSize = some encrypted) :
    encrypted.length = aeCryptoOverhead + plaintext.length := by
  obtain ⟨-, key, -, rfl⟩ := aeCryptoEncrypt_eq_some.mp he
  simp [aeCryptoOverhead]
  omega

/-- The three parts of a payload in memory are what is verified. -/
theorem value_decrypt_parts {ctx : Crypto} {channelId : BitVec 32} {key : Key}
    {aad iv ciphertext tag : List Byte} {input outputSize : Nat} {m : Nat → Byte}
    (hkey : findKey ctx channelId = some key) (hiv : iv.length = aeCryptoIvSize)
    (htag : tag.length = aeCryptoTagSize) (hout : ciphertext.length ≤ outputSize)
    (hm : (List.range' input (aeCryptoOverhead + ciphertext.length)).map m = iv ++ ciphertext ++ tag) :
    (aeCryptoDecrypt ctx channelId aad input (aeCryptoOverhead + ciphertext.length) outputSize).value m =
      verified key aad iv ciphertext tag := by
  have hslice := fun i k hik => slice_of_slice (i := i) (k := k) hm hik
  have hread := hslice 0 aeCryptoIvSize (by unfold aeCryptoOverhead; omega)
  have hct := hslice aeCryptoIvSize ciphertext.length (by unfold aeCryptoOverhead; omega)
  have htagread := hslice (aeCryptoIvSize + ciphertext.length) aeCryptoTagSize
    (by unfold aeCryptoOverhead; omega)
  rw [Nat.add_zero, List.drop_zero, List.append_assoc, List.take_left' hiv] at hread
  rw [List.append_assoc, List.drop_left' hiv, List.take_left' rfl] at hct
  rw [← Nat.add_assoc, List.drop_left' (by simp [hiv]), List.take_of_length_le (Nat.le_of_eq htag)] at htagread
  unfold aeCryptoDecrypt
  rw [if_neg (by omega), Nat.add_sub_cancel_left, if_neg (by omega), hkey]
  show verified key aad ((List.range' input aeCryptoIvSize).map m)
    ((List.range' (input + aeCryptoIvSize) ciphertext.length).map m)
    ((List.range' (input + aeCryptoIvSize + ciphertext.length) aeCryptoTagSize).map m) = _
  rw [hread, hct, htagread]

/-- A payload in memory is decrypted to what was encrypted, under the same key and
associated data. -/
theorem value_decrypt {ctx ctx' : Crypto} {channelId : BitVec 32} {clientId : BitVec 64}
    {sequence : BitVec 32} {aad plaintext encrypted : List Byte} {outputSize input outputSize' : Nat}
    {m : Nat → Byte}
    (he : aeCryptoEncrypt ctx channelId clientId sequence aad plaintext outputSize = some encrypted)
    (hkey : findKey ctx' channelId = findKey ctx channelId)
    (hm : (List.range' input encrypted.length).map m = encrypted)
    (hout : plaintext.length ≤ outputSize') :
    (aeCryptoDecrypt ctx' channelId aad input encrypted.length outputSize').value m =
      some plaintext := by
  have hlen := length_encrypted he
  obtain ⟨-, key, hfind, rfl⟩ := aeCryptoEncrypt_eq_some.mp he
  rw [hlen, ← length_xorStream key (buildNonce channelId clientId sequence) plaintext] at hm ⊢
  rw [value_decrypt_parts (hkey.trans hfind) (by simp) (by simp) (by simpa using hout) hm,
    verified_xorStream]

/-! ### What decryption reads -/

/-- Decryption that gets as far as the payload reads it to its end. -/
theorem within_decrypt {ctx : Crypto} {channelId : BitVec 32} {aad : List Byte}
    {input inputLen outputSize L : Nat} {m : Nat → Byte} :
    Reading.Within L (aeCryptoDecrypt ctx channelId aad input inputLen outputSize) m ↔
      (aeCryptoOverhead ≤ inputLen → inputLen - aeCryptoOverhead ≤ outputSize →
        (findKey ctx channelId).isSome → input + inputLen ≤ L) := by
  unfold aeCryptoDecrypt
  split
  · exact iff_of_true (Reading.within_pure none) fun h => absurd h (by omega)
  · rename_i hlen
    dsimp only
    split
    · exact iff_of_true (Reading.within_pure none) fun _ h => absurd h (by omega)
    · rename_i hout
      cases findKey ctx channelId with
      | none => exact iff_of_true (Reading.within_pure none) fun _ _ h => absurd h (by decide)
      | some key =>
        have hlast : input + aeCryptoIvSize + (inputLen - aeCryptoOverhead) + aeCryptoTagSize =
            input + inputLen := by
          unfold aeCryptoOverhead at *
          omega
        have hct : input + inputLen ≤ L →
            Reading.Within L (Reading.slice (input + aeCryptoIvSize) (inputLen - aeCryptoOverhead)) m := by
          intro h i hi
          have := List.mem_range'_1.mp hi
          unfold aeCryptoOverhead at *
          omega
        simp only [Reading.within_bind, Reading.within_pure, and_true,
          Reading.within_slice (show 0 < aeCryptoIvSize by decide),
          Reading.within_slice (show 0 < aeCryptoTagSize by decide), hlast]
        constructor
        · exact fun h _ _ _ => h.2.2
        · intro h
          have hL := h (by omega) (by omega) rfl
          exact ⟨by unfold aeCryptoOverhead at *; omega, hct hL, hL⟩

end AudioPlatform.Core
