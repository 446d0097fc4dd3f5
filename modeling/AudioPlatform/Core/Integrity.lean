import Mathlib.Data.Int.CardIntervalMod
import AudioPlatform.Core.Crypto

/-! What the tag of the XOR backend notices.

The tag is taken over the key, the payload and the associated data, not over the nonce. A change
of the nonce shows only in the payload that is decrypted with it, at every place where the stream
uses the changed byte, and the changes of an even number of bytes that are folded together cancel. -/
namespace AudioPlatform.Core

/-! ### Folding -/

/-- The bytes at some positions are changed, all by the same difference. -/
def disturb (P : ℕ → Prop) [DecidablePred P] (δ : Byte) (data : List Byte) : List Byte :=
  data.mapIdx fun i b => if P i then b ^^^ δ else b

/-- The difference, if it is folded in an odd number of times. -/
def ifOdd (n : ℕ) (δ : Byte) : Byte := if n % 2 = 1 then δ else 0

section Disturb
variable (P : ℕ → Prop) [DecidablePred P] (δ : Byte)

@[simp] theorem length_disturb (data : List Byte) : (disturb P δ data).length = data.length := by
  simp [disturb]

theorem getElem_disturb {data : List Byte} {i : ℕ} (h : i < (disturb P δ data).length)
    (hi : i < data.length) : (disturb P δ data)[i] = if P i then data[i] ^^^ δ else data[i] := by
  simp [disturb]

theorem disturb_concat (data : List Byte) (b : Byte) : disturb P δ (data ++ [b]) =
    disturb P δ data ++ [if P data.length then b ^^^ δ else b] := by
  simp [disturb, List.mapIdx_append]

theorem ifOdd_succ (n : ℕ) : ifOdd (n + 1) δ = ifOdd n δ ^^^ δ := by
  rcases Nat.mod_two_eq_zero_or_one n with h | h
  · simp [ifOdd, h, Nat.succ_mod_two_eq_one_iff.mpr h]
  · simp [ifOdd, h, Nat.succ_mod_two_eq_zero_iff.mpr h]

theorem mixInto_concat (tag data : List Byte) (b : Byte) : mixInto tag (data ++ [b]) =
    (mixInto tag data).modify (data.length % aeCryptoTagSize) (· ^^^ b) := by
  simp [mixInto, List.zipIdx_append]

theorem getD_modify (tag : List Byte) (b : Byte) {s t : ℕ} (hs : s < tag.length) :
    (tag.modify s (· ^^^ b)).getD t 0 = tag.getD t 0 ^^^ (if s = t then b else 0) := by
  rw [List.getD_eq_getElem?_getD, List.getElem?_modify, List.getD_eq_getElem?_getD]
  by_cases h : s = t
  · subst h
    simp [hs]
  · simp [h]

/-- A byte of the tag is changed if an odd number of the changed bytes is folded into it. -/
theorem mixInto_disturb {tag tag' : List Byte} (htag : tag.length = aeCryptoTagSize)
    (htag' : tag'.length = aeCryptoTagSize) {d : ℕ → Byte}
    (hd : ∀ t, tag'.getD t 0 = tag.getD t 0 ^^^ d t) (data : List Byte) (t : ℕ) :
    (mixInto tag' (disturb P δ data)).getD t 0 = (mixInto tag data).getD t 0 ^^^
      (d t ^^^ ifOdd (data.length.count fun i => P i ∧ i % aeCryptoTagSize = t) δ) := by
  induction data using List.reverseRecOn with
  | nil => simpa [disturb, mixInto, ifOdd] using hd t
  | append_singleton data b ih =>
    have hslot : data.length % aeCryptoTagSize < aeCryptoTagSize := Nat.mod_lt _ (by decide)
    rw [disturb_concat, mixInto_concat, mixInto_concat, length_disturb,
      getD_modify _ _ (by simp [htag', hslot]), getD_modify _ _ (by simp [htag, hslot]), ih,
      List.length_append, List.length_singleton, Nat.count_succ]
    by_cases hp : P data.length <;> by_cases ht : data.length % aeCryptoTagSize = t
    · simp only [hp, ht, ↓reduceIte, and_self, ifOdd_succ]
      ac_rfl
    · simp [hp, ht]
    · simp only [hp, ht, ↓reduceIte, false_and, Nat.add_zero]
      ac_rfl
    · simp [hp, ht]

end Disturb

theorem disturb_false (δ : Byte) (data : List Byte) : disturb (fun _ => False) δ data = data :=
  List.ext_getElem (by simp) fun _ _ _ => by simp [disturb]

/-- A byte that is replaced is changed by its difference from the new one. -/
theorem set_eq_disturb {data : List Byte} {k : ℕ} (hk : k < data.length) (b : Byte) :
    data.set k b = disturb (· = k) (data[k] ^^^ b) data := by
  apply List.ext_getElem
  · simp
  · intro i h₁ h₂
    by_cases hi : i = k
    · subst hi
      simp [disturb, ← BitVec.xor_assoc]
    · simp [disturb, hi, Ne.symm hi]

/-! ### The tag -/

theorem finalMix_cons (b : Byte) (rest : List Byte) :
    finalMix (b :: rest) = (b ^^^ (finalMix rest).headD 0) :: finalMix rest := by
  rw [finalMix]
  cases finalMix rest with
  | nil => simp
  | cons c cs => rfl

theorem finalMix_injective {tag tag' : List Byte} (h : finalMix tag = finalMix tag') : tag = tag' := by
  have hlen := congrArg List.length h
  rw [length_finalMix, length_finalMix] at hlen
  induction tag generalizing tag' with
  | nil => exact (List.eq_nil_of_length_eq_zero hlen.symm).symm
  | cons b rest ih =>
    cases tag' with
    | nil => cases hlen
    | cons b' rest' =>
      rw [finalMix_cons, finalMix_cons, List.cons.injEq] at h
      have hrest := ih h.2 (Nat.succ.inj hlen)
      rw [hrest] at h
      rw [hrest, (BitVec.xor_left_inj _).mp h.1]

theorem foldl_or_eq_zero (bytes : List Byte) (b : Byte) :
    bytes.foldl (· ||| ·) b = 0 ↔ b = 0 ∧ ∀ c ∈ bytes, c = 0 := by
  induction bytes generalizing b with
  | nil => simp
  | cons c rest ih =>
    rw [List.foldl_cons, ih, List.forall_mem_cons, ← and_assoc]
    exact and_congr_left' BitVec.or_eq_zero_iff

/-- The difference that is collected is none exactly if the tags are the same. -/
theorem tagDiff_eq_zero {tag expected : List Byte} (h : tag.length = expected.length) :
    tagDiff tag expected = 0 ↔ tag = expected := by
  unfold tagDiff
  rw [foldl_or_eq_zero]
  simp only [true_and]
  induction tag generalizing expected with
  | nil => simp [List.eq_nil_of_length_eq_zero h.symm]
  | cons b rest ih =>
    cases expected with
    | nil => cases h
    | cons b' rest' =>
      rw [List.zipWith_cons_cons, List.forall_mem_cons, ih (Nat.succ.inj h), List.cons.injEq]
      exact and_congr_left' BitVec.xor_eq_zero_iff

theorem verified_eq_none {key : Key} {aad iv ciphertext tag : List Byte}
    (h : tag.length = aeCryptoTagSize) : verified key aad iv ciphertext tag = none ↔
      tag ≠ computeTag key (xorStream key iv ciphertext) aad := by
  have hdiff : tagDiff tag (computeTag key (xorStream key iv ciphertext) aad) = 0 ↔
      tag = computeTag key (xorStream key iv ciphertext) aad :=
    tagDiff_eq_zero (by rw [h, length_computeTag])
  refine Iff.trans ?_ (not_congr hdiff)
  unfold verified
  dsimp only
  split
  · rename_i hne
    exact iff_of_true rfl hne
  · rename_i heq
    exact iff_of_false (fun h => nomatch h) heq

theorem eq_iff_getD {tag tag' : List Byte} (h : tag.length = tag'.length) :
    tag = tag' ↔ ∀ t < tag.length, tag.getD t 0 = tag'.getD t 0 := by
  refine ⟨fun heq _ _ => heq ▸ rfl, fun hget => List.ext_getElem h fun i h₁ h₂ => ?_⟩
  simpa [h₁, h₂] using hget i h₁

/-- **What the tag notices.** If bytes of the payload and of the associated data are changed, the
tag stays the same exactly if the changes that are folded together cancel everywhere. -/
theorem computeTag_disturb (key : Key) (data aad : List Byte) (P Q : ℕ → Prop) [DecidablePred P]
    [DecidablePred Q] (δ ε : Byte) :
    computeTag key data aad = computeTag key (disturb P δ data) (disturb Q ε aad) ↔
      ∀ t < aeCryptoTagSize,
        ifOdd (data.length.count fun i => P i ∧ i % aeCryptoTagSize = t) δ ^^^
          ifOdd (aad.length.count fun i => Q i ∧ i % aeCryptoTagSize = t) ε = 0 := by
  have hkey : (mixInto (List.replicate aeCryptoTagSize 0) (List.ofFn key)).length =
      aeCryptoTagSize := by simp
  have hdata := mixInto_disturb P δ hkey hkey (d := fun _ => 0) (fun t => by simp) data
  have haad := mixInto_disturb Q ε (by simp) (by simp) hdata aad
  have hlen : ∀ data aad, (mixInto (mixInto (mixInto (List.replicate aeCryptoTagSize 0)
      (List.ofFn key)) data) aad).length = aeCryptoTagSize := by simp
  unfold computeTag
  dsimp only
  rw [show ∀ a b, finalMix a = finalMix b ↔ a = b from
    fun a b => ⟨finalMix_injective, fun h => h ▸ rfl⟩, eq_iff_getD (by rw [hlen, hlen]), hlen]
  refine forall_congr' fun t => forall_congr' fun _ => ?_
  rw [haad, ← BitVec.xor_eq_zero_iff, ← BitVec.xor_assoc]
  simp

/-! ### Counting -/

/-- A changed byte in one place is folded in once. -/
theorem count_eq_singleton {L k : ℕ} (hk : k < L) (t : ℕ) :
    (L.count fun i => i = k ∧ i % aeCryptoTagSize = t) = if k % aeCryptoTagSize = t then 1 else 0 := by
  have hone : (L.count fun i => i = k) = 1 := by
    rw [Nat.count_eq_card_filter_range, Finset.filter_eq', if_pos (Finset.mem_range.mpr hk),
      Finset.card_singleton]
  split
  · rename_i ht
    rw [← hone]
    congr 1
    funext i
    exact propext ⟨fun h => h.1, fun h => ⟨h, h ▸ ht⟩⟩
  · rename_i ht
    rw [Nat.count_eq_card_filter_range, Finset.card_eq_zero, Finset.filter_eq_empty_iff]
    rintro i - ⟨rfl, h⟩
    exact ht h

/-- Position `i` of a payload is decrypted with byte `j` of the nonce. -/
def Uses (j i : ℕ) : Prop := i % aeCryptoKeySize % aeCryptoIvSize = j

instance (j : ℕ) : DecidablePred (Uses j) := fun _ => inferInstanceAs (Decidable (_ = j))

/-- The positions that use byte `j` are those of three residues, which are folded into three
different bytes of the tag. -/
theorem count_uses {j r : ℕ} (hr : r < aeCryptoKeySize) (hj : r % aeCryptoIvSize = j) (L : ℕ) :
    (L.count fun i => Uses j i ∧ i % aeCryptoTagSize = r % aeCryptoTagSize) =
      L / 32 + if r < L % 32 then 1 else 0 := by
  unfold aeCryptoKeySize at hr
  have hsame : (fun i => Uses j i ∧ i % aeCryptoTagSize = r % aeCryptoTagSize) =
      fun i => i ≡ r [MOD 32] := by
    funext i
    unfold Uses aeCryptoKeySize aeCryptoIvSize aeCryptoTagSize Nat.ModEq at *
    apply propext
    omega
  have hcount := Nat.count_modEq_card L (show 0 < 32 by decide) r
  rw [Nat.mod_eq_of_lt hr] at hcount
  rw [← hcount]
  congr 1

/-- The uses of byte `j` of the nonce in so many bytes of payload do not cancel. -/
def Shown (L j : ℕ) : Prop := j < L % 64 ∧ L % 64 ≤ if j < 8 then j + 56 else j + 44

theorem cancels_iff {j : ℕ} (hj : j < aeCryptoIvSize) (L : ℕ) :
    (∀ t < aeCryptoTagSize, (L.count fun i => Uses j i ∧ i % aeCryptoTagSize = t) % 2 = 0) ↔
      ¬ Shown L j := by
  unfold aeCryptoIvSize at hj
  have hcount : ∀ r < 32, r % 12 = j →
      ((L.count fun i => Uses j i ∧ i % aeCryptoTagSize = r % aeCryptoTagSize) % 2 = 0 ↔
        (L / 32 + if r < L % 32 then 1 else 0) % 2 = 0) := fun r hr hrj => by rw [count_uses hr hrj]
  constructor
  · rintro heven ⟨hlow, hhigh⟩
    have hr : ∀ r < 32, r % 12 = j → (L / 32 + if r < L % 32 then 1 else 0) % 2 = 0 :=
      fun r hr hrj => (hcount r hr hrj).mp (heven _ (Nat.mod_lt _ (by decide)))
    -- the residue that is one use ahead of its next half
    rcases Nat.lt_or_ge (j + 32) (L % 64) with h32 | h32
    · rcases Nat.lt_or_ge (j + 44) (L % 64) with h44 | h44
      · split at hhigh
        · have h24 := hr (j + 24) (by omega) (by omega)
          split at h24 <;> omega
        · omega
      · have h12 := hr (j + 12) (by omega) (by omega)
        split at h12 <;> omega
    · have h0 := hr j (by omega) (by omega)
      split at h0 <;> omega
  · intro hnot t ht
    by_cases h : ∃ i, Uses j i ∧ i % aeCryptoTagSize = t
    · obtain ⟨i, hi, rfl⟩ := h
      have hr : i % 32 < 32 := Nat.mod_lt _ (by decide)
      have hslot : i % 32 % aeCryptoTagSize = i % aeCryptoTagSize :=
        Nat.mod_mod_of_dvd i (by decide)
      rw [← hslot, hcount _ hr hi]
      have hres : i % 32 = j ∨ i % 32 = j + 12 ∨ i % 32 = j + 24 ∧ j < 8 := by
        unfold Uses aeCryptoKeySize aeCryptoIvSize at hi
        omega
      unfold Shown at hnot
      rcases hres with hres | hres | ⟨hres, hj8⟩
      · rw [hres]
        split <;> split at hnot <;> omega
      · rw [hres]
        split <;> split at hnot <;> omega
      · rw [hres]
        rw [if_pos hj8] at hnot
        split <;> omega
    · rw [Nat.count_eq_card_filter_range, Finset.filter_eq_empty_iff.mpr fun i _ hi => h ⟨i, hi⟩]
      rfl

/-! ### The stream -/

/-- A changed byte of the nonce changes the payload wherever it is used. -/
theorem xorStream_disturb_nonce (key : Key) {nonce : List Byte} (hnonce : nonce.length = aeCryptoIvSize)
    (j : ℕ) (δ : Byte) (data : List Byte) :
    xorStream key (disturb (· = j) δ nonce) data = disturb (Uses j) δ (xorStream key nonce data) := by
  have hbyte : ∀ i, i < aeCryptoIvSize → (disturb (· = j) δ nonce).getD i 0 =
      if i = j then nonce.getD i 0 ^^^ δ else nonce.getD i 0 := by
    intro i hi
    rw [← hnonce] at hi
    simp [disturb, hi]
  apply List.ext_getElem
  · simp
  · intro i h₁ h₂
    have hi : i % aeCryptoKeySize % aeCryptoIvSize < aeCryptoIvSize := Nat.mod_lt _ (by decide)
    rw [getElem_disturb _ _ h₂ (by simpa using h₂)]
    simp only [xorStream, streamKey, List.getElem_mapIdx, hbyte _ hi, Uses]
    split
    · simp only [BitVec.xor_assoc]
    · rfl

theorem xorStream_disturb (key : Key) (nonce : List Byte) (P : ℕ → Prop) [DecidablePred P] (δ : Byte)
    (data : List Byte) :
    xorStream key nonce (disturb P δ data) = disturb P δ (xorStream key nonce data) := by
  apply List.ext_getElem
  · simp
  · intro i h₁ h₂
    rw [getElem_disturb _ _ h₂ (by simpa using h₂)]
    simp only [xorStream, List.getElem_mapIdx, getElem_disturb P δ (by simpa using h₂) (by simpa using h₂)]
    split
    · ac_rfl
    · rfl

/-! ### One byte -/

/-- A byte of the encrypted payload or of the associated data is replaced. -/
inductive Tampering where
  | payload (i : ℕ) (b : Byte)
  | aad (i : ℕ) (b : Byte)

namespace Tampering

/-- There is such a byte, and it was another one. -/
def Changes (encrypted aad : List Byte) : Tampering → Prop
  | .payload i b => ∃ h : i < encrypted.length, encrypted[i] ≠ b
  | .aad i b => ∃ h : i < aad.length, aad[i] ≠ b

def onPayload (encrypted : List Byte) : Tampering → List Byte
  | .payload i b => encrypted.set i b
  | .aad _ _ => encrypted

def onAad (aad : List Byte) : Tampering → List Byte
  | .payload _ _ => aad
  | .aad i b => aad.set i b

/-- It is not in the nonce, or its uses in so many bytes of payload do not cancel. -/
def Noticed (L : ℕ) : Tampering → Prop
  | .payload i _ => i < aeCryptoIvSize → Shown L i
  | .aad _ _ => True

end Tampering

theorem ifOdd_eq_zero {δ : Byte} (hδ : δ ≠ 0) (n : ℕ) : ifOdd n δ = 0 ↔ n % 2 = 0 := by
  unfold ifOdd
  split <;> simp_all

/-- A payload that is changed everywhere that byte `j` of the nonce is used has another tag exactly
if the uses do not cancel. -/
theorem computeTag_uses (key : Key) (data aad : List Byte) {δ : Byte} (hδ : δ ≠ 0) {j : ℕ}
    (hj : j < aeCryptoIvSize) :
    computeTag key data aad ≠ computeTag key (disturb (Uses j) δ data) aad ↔ Shown data.length j := by
  have htag := computeTag_disturb key data aad (Uses j) (fun _ => False) δ 0
  rw [disturb_false] at htag
  refine (not_congr htag).trans (Iff.trans (not_congr ?_) not_not)
  rw [← cancels_iff hj]
  have hzero : ∀ n, ifOdd n (0 : Byte) = 0 := by simp [ifOdd]
  refine forall_congr' fun t => forall_congr' fun _ => ?_
  rw [hzero, ← ifOdd_eq_zero hδ]
  simp

/-- A single changed byte is not folded with another one. -/
theorem odd_of_singleton {L k : ℕ} (hk : k < L) {δ : Byte} (hδ : δ ≠ 0) :
    ifOdd (L.count fun i => i = k ∧ i % aeCryptoTagSize = k % aeCryptoTagSize) δ ≠ 0 := by
  rw [count_eq_singleton hk, if_pos rfl]
  exact hδ

theorem computeTag_set (key : Key) {data : List Byte} (aad : List Byte) {k : ℕ} (hk : k < data.length)
    {δ : Byte} (hδ : δ ≠ 0) :
    computeTag key data aad ≠ computeTag key (disturb (· = k) δ data) aad := by
  have htag := computeTag_disturb key data aad (· = k) (fun _ => False) δ 0
  rw [disturb_false] at htag
  intro h
  refine odd_of_singleton hk hδ ?_
  simpa [ifOdd] using htag.mp h (k % aeCryptoTagSize) (Nat.mod_lt _ (by decide))

theorem computeTag_set_aad (key : Key) (data : List Byte) {aad : List Byte} {k : ℕ}
    (hk : k < aad.length) {δ : Byte} (hδ : δ ≠ 0) :
    computeTag key data aad ≠ computeTag key data (disturb (· = k) δ aad) := by
  have htag := computeTag_disturb key data aad (fun _ => False) (· = k) 0 δ
  rw [disturb_false] at htag
  intro h
  refine odd_of_singleton hk hδ ?_
  simpa [ifOdd] using htag.mp h (k % aeCryptoTagSize) (Nat.mod_lt _ (by decide))

/-- A byte that is replaced is in one of three parts. -/
theorem set_parts {α : Type} {a b z : List α} {k : ℕ} {v : α} (hk : k < (a ++ b ++ z).length)
    (hv : (a ++ b ++ z)[k] ≠ v) :
    (∃ h : k < a.length, a[k] ≠ v ∧ (a ++ b ++ z).set k v = a.set k v ++ b ++ z) ∨
    (a.length ≤ k ∧ ∃ h : k - a.length < b.length, b[k - a.length] ≠ v ∧
      (a ++ b ++ z).set k v = a ++ b.set (k - a.length) v ++ z) ∨
    (a.length ≤ k ∧ ∃ i, ∃ h : i < z.length, z[i] ≠ v ∧
      (a ++ b ++ z).set k v = a ++ b ++ z.set i v) := by
  rcases Nat.lt_or_ge k (a ++ b).length with hab | hab
  · rw [List.getElem_append_left hab] at hv
    rcases Nat.lt_or_ge k a.length with ha | ha
    · rw [List.getElem_append_left ha] at hv
      exact .inl ⟨ha, hv, by rw [List.set_append_left _ _ hab, List.set_append_left _ _ ha]⟩
    · rw [List.getElem_append_right ha] at hv
      rw [List.length_append] at hab
      exact .inr (.inl ⟨ha, by omega, hv, by
        rw [List.set_append_left _ _ (by simpa using hab), List.set_append_right _ _ ha]⟩)
  · rw [List.getElem_append_right hab] at hv
    rw [List.length_append] at hk
    exact .inr (.inr ⟨by rw [List.length_append] at hab; omega, k - (a ++ b).length, by omega, hv,
      List.set_append_right _ _ hab⟩)

theorem set_ne {α : Type} {data : List α} {i : ℕ} {v : α} (hi : i < data.length)
    (hv : data[i] ≠ v) : data.set i v ≠ data := by
  intro h
  have hat := congrArg (fun l => l[i]?) h
  simp only [List.getElem?_set_self hi, List.getElem?_eq_getElem hi, Option.some.injEq] at hat
  exact hv hat.symm

/-- **Integrity.** A payload or associated data in which one byte is replaced is rejected exactly if
the byte is not in the nonce, or its uses in the payload do not cancel. -/
theorem tampering_rejected_iff {ctx ctx' : Crypto} {channelId : BitVec 32} {clientId : BitVec 64}
    {sequence : BitVec 32} {aad plaintext encrypted : List Byte} {outputSize input outputSize' : ℕ}
    {m : ℕ → Byte} {t : Tampering}
    (he : aeCryptoEncrypt ctx channelId clientId sequence aad plaintext outputSize = some encrypted)
    (hkey : findKey ctx' channelId = findKey ctx channelId) (ht : t.Changes encrypted aad)
    (hm : (List.range' input encrypted.length).map m = t.onPayload encrypted)
    (hout : plaintext.length ≤ outputSize') :
    (aeCryptoDecrypt ctx' channelId (t.onAad aad) input encrypted.length outputSize').value m = none ↔
      t.Noticed plaintext.length := by
  have hlen := length_encrypted he
  obtain ⟨-, key, hfind, hparts⟩ := aeCryptoEncrypt_eq_some.mp he
  have hnonce := length_buildNonce channelId clientId sequence
  generalize buildNonce channelId clientId sequence = nonce at hparts hnonce
  have hct := length_xorStream key nonce plaintext
  have hplain := xorStream_xorStream key nonce plaintext
  generalize xorStream key nonce plaintext = ct at hparts hct hplain
  have htag := length_computeTag key plaintext aad
  have hverify : ∀ {iv' ct' tag' aad' : List Byte}, iv'.length = aeCryptoIvSize →
      ct'.length = ct.length → tag'.length = aeCryptoTagSize →
      t.onPayload encrypted = iv' ++ ct' ++ tag' →
      ((aeCryptoDecrypt ctx' channelId aad' input encrypted.length outputSize').value m = none ↔
        tag' ≠ computeTag key (xorStream key iv' ct') aad') := by
    intro iv' ct' tag' aad' hiv' hct' htag' hsplit
    rw [hlen, hsplit, ← hct, ← hct'] at hm
    rw [hlen, ← hct, ← hct', value_decrypt_parts (hkey.trans hfind) hiv' htag' (by omega) hm,
      verified_eq_none htag']
  cases t with
  | aad k b =>
    obtain ⟨hk, hb⟩ := ht
    rw [hverify hnonce rfl htag hparts, hplain, Tampering.onAad, set_eq_disturb hk]
    exact iff_of_true (computeTag_set_aad key plaintext hk (mt BitVec.xor_eq_zero_iff.mp hb)) trivial
  | payload k b =>
    obtain ⟨hk, hb⟩ := ht
    subst hparts
    rcases set_parts hk hb with ⟨hi, hv, hset⟩ | ⟨hle, hi, hv, hset⟩ | ⟨hle, i, hi, hv, hset⟩
    · rw [hnonce] at hi
      rw [hverify (by simpa using hnonce) rfl htag hset, set_eq_disturb (by omega),
        xorStream_disturb_nonce key hnonce, hplain, Tampering.onAad,
        computeTag_uses _ _ _ (mt BitVec.xor_eq_zero_iff.mp hv) hi]
      exact ⟨fun h _ => h, fun h => h hi⟩
    · refine iff_of_true ?_ fun h => absurd h (by omega)
      rw [hverify hnonce (by simp) htag hset, set_eq_disturb hi, xorStream_disturb, hplain]
      exact computeTag_set key aad (by omega) (mt BitVec.xor_eq_zero_iff.mp hv)
    · refine iff_of_true ?_ fun h => absurd h (by omega)
      rw [hverify hnonce rfl (by simp) hset, hplain]
      exact set_ne hi hv

/-! ### One channel -/

/-- A table with a key for channel 1. -/
def oneKey : Crypto := ⟨[⟨1, deriveKeyFromChannel 1, true⟩], by decide⟩

/-- So many zeros, encrypted for channel 1. -/
def zeros (L : ℕ) : List Byte :=
  buildNonce 1 7 0 ++ xorStream (deriveKeyFromChannel 1) (buildNonce 1 7 0) (List.replicate L 0) ++
    computeTag (deriveKeyFromChannel 1) (List.replicate L 0) (List.replicate 20 0)

theorem encrypt_zeros (L : ℕ) : aeCryptoEncrypt oneKey 1 7 0 (List.replicate 20 0) (List.replicate L 0)
    (L + aeCryptoOverhead) = some (zeros L) :=
  aeCryptoEncrypt_eq_some.mpr ⟨by simp, deriveKeyFromChannel 1, rfl, rfl⟩

/-- A byte of the nonce that 20 bytes of payload use is missed. -/
theorem tampering_rejected_iff_zeros :
    (aeCryptoDecrypt oneKey 1 (List.replicate 20 0) 0 (zeros 20).length 20).value
      (overlay ((zeros 20).set 5 1) fun _ => 0) = none := by
  refine (tampering_rejected_iff (t := .payload 5 1) (encrypt_zeros 20) rfl
    ⟨by decide +kernel, by decide +kernel⟩ ?_ (by simp)).mpr fun _ => ⟨by decide, by decide⟩
  have hlen : 0 + (zeros 20).length ≤ ((zeros 20).set 5 1).length := by simp
  rw [overlay_slice _ _ hlen, List.drop_zero, ← List.length_set, List.take_length]
  rfl

/-- In 64 bytes of payload the uses of the first byte of the nonce cancel: other bytes than were
encrypted are accepted. -/
theorem tampering_unnoticed : ∃ output,
    aeCryptoEncrypt oneKey 1 7 0 (List.replicate 20 0) (List.replicate 64 0) (64 + aeCryptoOverhead) =
      some (zeros 64) ∧
    (Tampering.payload 0 1).Changes (zeros 64) (List.replicate 20 0) ∧
    (aeCryptoDecrypt oneKey 1 (List.replicate 20 0) 0 (zeros 64).length 64).value
      (overlay ((zeros 64).set 0 1) fun _ => 0) = some output ∧
    output ≠ List.replicate 64 0 := by
  refine ⟨disturb (Uses 0) 1 (List.replicate 64 0), encrypt_zeros 64,
    ⟨by decide +kernel, by decide +kernel⟩, by decide +kernel, by decide⟩

end AudioPlatform.Core
