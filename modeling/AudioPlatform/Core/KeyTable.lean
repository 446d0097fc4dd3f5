import Mathlib.Data.Finset.Card
import AudioPlatform.Core.Isolation

/-! The key table over a run.

A join asks for a key of its channel's number and does not look at the answer. The table
holds one key for each number, for 64 numbers, and never gives one up: the 65th number that
is joined goes without. -/
namespace AudioPlatform.Core
open Concurrency

variable {Frame : Type} {L : Library Frame}

/-! ### Tables -/

/-- The channel numbers that the table has entries for. -/
def Crypto.numbers (ctx : Crypto) : List (BitVec 32) := ctx.keys.map ChannelKey.channelId

/-- Every entry is in use, and no number has two. -/
structure Crypto.Tidy (ctx : Crypto) : Prop where
  active : ∀ entry ∈ ctx.keys, entry.active = true
  nodup : ctx.numbers.Nodup

theorem tidy_init : aeCryptoInit.Tidy :=
  ⟨fun _ h => absurd h List.not_mem_nil, List.nodup_nil⟩

@[simp] theorem length_numbers (ctx : Crypto) : ctx.numbers.length = ctx.keys.length :=
  List.length_map ..

variable {ctx : Crypto} {n : BitVec 32}

theorem Crypto.Tidy.isFor (h : ctx.Tidy) {entry : ChannelKey} (hentry : entry ∈ ctx.keys) :
    entry.isFor n = true ↔ entry.channelId = n := by
  unfold ChannelKey.isFor
  simp [h.active entry hentry]

theorem findKey_isSome (h : ctx.Tidy) : (findKey ctx n).isSome ↔ n ∈ ctx.numbers := by
  unfold findKey Crypto.numbers
  rw [Option.isSome_map, List.find?_isSome, List.mem_map]
  constructor
  · rintro ⟨entry, hentry, hfor⟩
    exact ⟨entry, hentry, (h.isFor hentry).mp hfor⟩
  · rintro ⟨entry, hentry, hid⟩
    exact ⟨entry, hentry, (h.isFor hentry).mpr hid⟩

/-- The entry of a number is set again. -/
theorem Crypto.Tidy.set (h : ctx.Tidy) {slot : Nat} (hlt : slot < ctx.keys.length)
    (hid : ctx.keys[slot].channelId = n) {ctx' : Crypto} {key : Key}
    (hkeys : ctx'.keys = ctx.keys.set slot ⟨n, key, true⟩) :
    ctx'.Tidy ∧ ctx'.numbers = ctx.numbers := by
  have hsame : ctx'.numbers = ctx.numbers := by
    unfold Crypto.numbers
    rw [hkeys, List.map_set]
    apply List.ext_getElem (List.length_set ..)
    intro i hi hi'
    rw [List.getElem_set]
    split
    · rename_i heq
      subst heq
      rw [List.getElem_map, hid]
    · rfl
  refine ⟨⟨?_, hsame ▸ h.nodup⟩, hsame⟩
  intro entry hentry
  rw [hkeys] at hentry
  rcases List.mem_or_eq_of_mem_set hentry with hentry | rfl
  · exact h.active entry hentry
  · rfl

/-- A number without an entry gets one. -/
theorem Crypto.Tidy.append (h : ctx.Tidy) (hnot : n ∉ ctx.numbers) {ctx' : Crypto} {key : Key}
    (hkeys : ctx'.keys = ctx.keys ++ [⟨n, key, true⟩]) :
    ctx'.Tidy ∧ ctx'.numbers = ctx.numbers ++ [n] := by
  have hnumbers : ctx'.numbers = ctx.numbers ++ [n] := by
    unfold Crypto.numbers
    rw [hkeys, List.map_append]
    rfl
  refine ⟨⟨?_, ?_⟩, hnumbers⟩
  · intro entry hentry
    rw [hkeys] at hentry
    rcases List.mem_append.mp hentry with hentry | hentry
    · exact h.active entry hentry
    · obtain rfl := List.mem_singleton.mp hentry
      rfl
  · rw [hnumbers]
    refine List.nodup_append.mpr ⟨h.nodup, List.nodup_singleton _, fun m hm m' hm' heq => hnot ?_⟩
    obtain rfl := List.mem_singleton.mp hm'
    exact heq ▸ hm

/-- A key is set in the entry of its number, or in a new one, or there is no room for one. -/
theorem setChannelKey_cases (h : ctx.Tidy) (n : BitVec 32) (key : Option Key) :
    (n ∈ ctx.numbers ∧ ∃ ctx', aeCryptoSetChannelKey ctx n key = some ctx' ∧ ctx'.Tidy ∧
      ctx'.numbers = ctx.numbers) ∨
    (n ∉ ctx.numbers ∧ ctx.numbers.length < maxChannelKeys ∧ ∃ ctx',
      aeCryptoSetChannelKey ctx n key = some ctx' ∧ ctx'.Tidy ∧ ctx'.numbers = ctx.numbers ++ [n]) ∨
    (n ∉ ctx.numbers ∧ maxChannelKeys ≤ ctx.numbers.length ∧
      aeCryptoSetChannelKey ctx n key = none) := by
  unfold aeCryptoSetChannelKey
  dsimp only
  cases hslot : ctx.keys.findIdx? (·.isFor n) with
  | some slot =>
    obtain ⟨hlt, hfor, -⟩ := List.findIdx?_eq_some_iff_getElem.mp hslot
    have hid : ctx.keys[slot].channelId = n := (h.isFor (List.getElem_mem hlt)).mp hfor
    exact .inl ⟨List.mem_map.mpr ⟨_, List.getElem_mem hlt, hid⟩, _, rfl, h.set hlt hid rfl⟩
  | none =>
    have hnot : n ∉ ctx.numbers := by
      intro hmem
      obtain ⟨entry, hentry, hid⟩ := List.mem_map.mp hmem
      have := List.findIdx?_eq_none_iff.mp hslot entry hentry
      rw [(h.isFor hentry).mpr hid] at this
      cases this
    rw [length_numbers]
    right
    dsimp only
    split
    · rename_i hroom
      exact .inl ⟨hnot, hroom, _, rfl, h.append hnot rfl⟩
    · rename_i hfull
      exact .inr ⟨hnot, Nat.le_of_not_lt hfull, rfl⟩

/-- A table that holds a key for each of some numbers is asked for one more: it has the key then
exactly if there is room for all of them. -/
theorem Crypto.Tidy.asked (h : ctx.Tidy) {numbers : Finset (BitVec 32)}
    (hexact : ctx.numbers.toFinset = numbers) (hroom : numbers.card ≤ maxChannelKeys)
    (n : BitVec 32) :
    let ctx' := (aeCryptoSetChannelKey ctx n none).getD ctx
    ctx'.Tidy ∧
      ((insert n numbers).card ≤ maxChannelKeys → ctx'.numbers.toFinset = insert n numbers) ∧
      ((findKey ctx' n).isSome ↔ (insert n numbers).card ≤ maxChannelKeys) := by
  have hcard : numbers.card = ctx.numbers.length := by
    rw [← hexact, List.toFinset_card_of_nodup h.nodup]
  have hmem : n ∈ ctx.numbers ↔ n ∈ numbers := by rw [← hexact, List.mem_toFinset]
  dsimp only
  rcases setChannelKey_cases h n none with
    ⟨hold, ctx', hset, htidy, hnumbers⟩ | ⟨hnew, hfree, ctx', hset, htidy, hnumbers⟩ |
    ⟨hnew, hfull, hset⟩
  · rw [hset, Option.getD_some, Finset.insert_eq_of_mem (hmem.mp hold), hnumbers]
    refine ⟨htidy, fun _ => hexact, iff_of_true ?_ hroom⟩
    rw [findKey_isSome htidy, hnumbers]
    exact hold
  · rw [hset, Option.getD_some, hnumbers]
    refine ⟨htidy, fun _ => ?_, iff_of_true ?_ ?_⟩
    · rw [← hexact, List.toFinset_append, List.toFinset_cons, List.toFinset_nil, insert_empty_eq,
        Finset.union_comm, ← Finset.insert_eq]
    · rw [findKey_isSome htidy, hnumbers]
      exact List.mem_append_right _ (List.mem_singleton_self _)
    · rw [Finset.card_insert_of_notMem (mt hmem.mpr hnew), hcard]
      exact hfree
  · have hover : ¬ (insert n numbers).card ≤ maxChannelKeys := by
      rw [Finset.card_insert_of_notMem (mt hmem.mpr hnew), hcard]
      omega
    rw [hset, Option.getD_none]
    refine ⟨h, fun hall => absurd hall hover, iff_of_false ?_ hover⟩
    rw [findKey_isSome h]
    exact hnew

/-! ### Joins -/

/-- The channel numbers that a run joins. -/
def numbersJoined (e : Engine L) (calls : List (Call Frame)) : Finset (BitVec 32) :=
  (Machine.history Engine.call joined e [] calls).toFinset

/-- A join that succeeds leaves a key for the channel. -/
def GivesKey (e : Engine L) : Call Frame → Prop
  | .joinChannel channelId => (aeEngineJoinChannel e channelId).2 = .ok →
      (findKey (aeEngineJoinChannel e channelId).1.crypto (channelStrToId channelId)).isSome
  | _ => True

/-- The table is tidy, and is about the numbers joined as long as it has room for them all. -/
structure Keyed (e : Engine L) (numbers : List (BitVec 32)) : Prop where
  tidy : e.crypto.Tidy
  exact : numbers.toFinset.card ≤ maxChannelKeys → e.crypto.numbers.toFinset = numbers.toFinset

theorem crypto_joinChannel {e : Engine L} (hon : e.connected = true) (channelId : CString) :
    (aeEngineJoinChannel e channelId).2 = .ok ∧ (aeEngineJoinChannel e channelId).1.crypto =
      (aeCryptoSetChannelKey e.crypto (channelStrToId channelId) none).getD e.crypto := by
  constructor
  · unfold aeEngineJoinChannel
    rw [if_neg (by simp [hon])]
  · rw [← control_crypto, control_joinChannel]
    dsimp only [Control.after]
    rw [if_pos (show e.control.connected = true from hon)]
    split <;> rfl

theorem card_le_joined (e : Engine L) (c : Call Frame) (numbers : List (BitVec 32)) :
    numbers.toFinset.card ≤ (joined e c numbers).toFinset.card := by
  unfold joined
  split
  · split
    · rw [List.toFinset_cons]
      exact Finset.card_le_card (Finset.subset_insert ..)
    · exact le_refl _
  · exact le_refl _

theorem card_le_history (e : Engine L) (numbers : List (BitVec 32)) (calls : List (Call Frame)) :
    numbers.toFinset.card ≤ (Machine.history Engine.call joined e numbers calls).toFinset.card := by
  induction calls generalizing e numbers with
  | nil => exact le_refl _
  | cons c rest ih => exact le_trans (card_le_joined e c numbers) (ih _ _)

/-- As long as there has been room for all, a call keeps the table as it should be, and a join
gives a key exactly if there is room for its number too. -/
theorem Keyed.call {e : Engine L} {numbers : List (BitVec 32)} (h : Keyed e numbers)
    (hroom : numbers.toFinset.card ≤ maxChannelKeys) (c : Call Frame) :
    Keyed (e.call c).1 (joined e c numbers) ∧
      (GivesKey e c ↔ (joined e c numbers).toFinset.card ≤ maxChannelKeys) := by
  have hsame : (e.call c).1.crypto = e.crypto → joined e c numbers = numbers → GivesKey e c →
      Keyed (e.call c).1 (joined e c numbers) ∧
        (GivesKey e c ↔ (joined e c numbers).toFinset.card ≤ maxChannelKeys) := by
    intro hcrypto hjoined hgives
    rw [hjoined]
    refine ⟨⟨hcrypto ▸ h.tidy, fun hroom => ?_⟩, iff_of_true hgives hroom⟩
    rw [hcrypto]
    exact h.exact hroom
  cases c with
  | joinChannel channelId =>
    by_cases hon : e.connected = true
    · obtain ⟨hok, hcrypto⟩ := crypto_joinChannel hon channelId
      have hgives : GivesKey e (.joinChannel channelId) ↔
          (findKey (aeEngineJoinChannel e channelId).1.crypto (channelStrToId channelId)).isSome :=
        ⟨fun hg => hg hok, fun hkey _ => hkey⟩
      have hjoined : (joined e (.joinChannel channelId) numbers).toFinset =
          insert (channelStrToId channelId) numbers.toFinset := by
        unfold joined
        dsimp only
        rw [if_pos hon, List.toFinset_cons]
      obtain ⟨htidy, hnumbers, hkey⟩ := h.tidy.asked (h.exact hroom) hroom (channelStrToId channelId)
      rw [← hcrypto] at htidy hnumbers hkey
      rw [hgives, hjoined]
      refine ⟨⟨htidy, ?_⟩, hkey⟩
      rw [hjoined]
      exact hnumbers
    · have hoff : aeEngineJoinChannel e channelId = (e, .notConnected) := by
        unfold aeEngineJoinChannel
        rw [if_pos (by simpa using hon)]
      refine hsame ?_ (if_neg hon) ?_
      · show (aeEngineJoinChannel e channelId).1.crypto = _
        rw [hoff]
      · intro hok
        rw [hoff] at hok
        cases hok
  | _ =>
    rcases crypto_call e _ with hcrypto | ⟨_, hc, -⟩
    · exact hsame hcrypto rfl trivial
    · cases hc

/-! ### A run -/

theorem givesKey_iff {e : Engine L} {numbers : List (BitVec 32)} (h : Keyed e numbers)
    (hroom : numbers.toFinset.card ≤ maxChannelKeys) (calls : List (Call Frame)) :
    Machine.Along Engine.call GivesKey e calls ↔
      (Machine.history Engine.call joined e numbers calls).toFinset.card ≤ maxChannelKeys := by
  induction calls generalizing e numbers with
  | nil => exact iff_of_true trivial hroom
  | cons c rest ih =>
    obtain ⟨hnext, hgives⟩ := h.call hroom c
    show GivesKey e c ∧ Machine.Along Engine.call GivesKey (e.call c).1 rest ↔ (Machine.history
      Engine.call joined (e.call c).1 (joined e c numbers) rest).toFinset.card ≤ maxChannelKeys
    rw [hgives]
    by_cases hstill : (joined e c numbers).toFinset.card ≤ maxChannelKeys
    · rw [ih hnext hstill]
      exact and_iff_right hstill
    · refine iff_of_false (fun hboth => hstill hboth.1) fun hall => hstill ?_
      exact le_trans (card_le_history _ _ rest) hall

theorem keyed_create [Zero Frame] {config : Option AeConfig} {e : Engine L}
    (hnew : aeEngineCreate L config = some e) : Keyed e [] := by
  have hkeys := (fresh_create hnew).keys
  refine ⟨hkeys ▸ tidy_init, fun _ => ?_⟩
  rw [hkeys]
  rfl

/-- **Joining gives a key**, every time that it succeeds in a run of a new engine, exactly if the
channels joined in the run have 64 numbers at most. -/
theorem joins_give_keys_iff [Zero Frame] {config : Option AeConfig} {e : Engine L}
    (hnew : aeEngineCreate L config = some e) (calls : List (Call Frame)) :
    Machine.Along Engine.call GivesKey e calls ↔
      (numbersJoined e calls).card ≤ maxChannelKeys :=
  givesKey_iff (keyed_create hnew) (Nat.zero_le _) calls

/-! ### Many channels -/

/-- "channel-N" -/
def channelNumbered (n : Nat) : CString :=
  [0x63, 0x68, 0x61, 0x6E, 0x6E, 0x65, 0x6C, 0x2D] ++
    (Nat.toDigits 10 n).map fun digit => BitVec.ofNat 8 digit.toNat

/-- A client connects and joins so many channels, one after the other. -/
def touring (count : Nat) : List (Call (ℚ × ℚ)) :=
  .connect .connected 0 :: (List.range count).map fun n => .joinChannel (channelNumbered n)

theorem joins_give_keys_iff_touring : Machine.Along Engine.call GivesKey newEngine (touring 3) :=
  (joins_give_keys_iff create_newEngine (touring 3)).mpr (by decide +kernel)

/-- The 65th channel that a client joins is without a key. -/
theorem keyless_channel : ¬ Machine.Along Engine.call GivesKey newEngine (touring 65) := by
  rw [givesKey_iff (keyed_create create_newEngine) (Nat.zero_le _)]
  decide +kernel

end AudioPlatform.Core
