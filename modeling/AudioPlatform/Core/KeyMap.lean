import AudioPlatform.Core.KeyTable
import AudioPlatform.Maps.Bounded

/-! The key table as a map.

The table stands for a map with room for 64 channels: a key is looked up where it was last
set. -/
namespace AudioPlatform.Core
open Concurrency Maps

/-! ### Looking up -/

/-- The entry of a channel is overwritten where it is. -/
theorem find?_set {entries : List ChannelKey} {n : BitVec 32} {slot : Nat}
    (h : entries.findIdx? (·.isFor n) = some slot) (key : Key) (m : BitVec 32) :
    (entries.set slot ⟨n, key, true⟩).find? (·.isFor m) =
      if n = m then some ⟨n, key, true⟩ else entries.find? (·.isFor m) := by
  induction entries generalizing slot with
  | nil => cases h
  | cons entry rest ih =>
    rw [List.findIdx?_cons] at h
    split at h
    · rename_i hfor
      obtain rfl := Option.some.inj h
      have hid : entry.channelId = n := of_decide_eq_true (Bool.and_eq_true_iff.mp hfor).2
      by_cases hm : n = m
      · simp [ChannelKey.isFor, hm]
      · simp [ChannelKey.isFor, hm, hid]
    · rename_i hfor
      obtain ⟨slot, hslot, rfl⟩ := Option.map_eq_some_iff.mp h
      by_cases hm : n = m
      · subst hm
        simp [hfor, ih hslot]
      · simp [hm, List.find?_cons, ih hslot]

/-- A key that is set is looked up under its channel, and no other channel's key is touched. -/
theorem findKey_setChannelKey {ctx ctx' : Crypto} {n : BitVec 32} {key : Option Key}
    (h : aeCryptoSetChannelKey ctx n key = some ctx') :
    findKey ctx' = Function.update (findKey ctx) n (some (key.getD (deriveKeyFromChannel n))) := by
  funext m
  unfold aeCryptoSetChannelKey at h
  dsimp only at h
  cases hslot : ctx.keys.findIdx? (·.isFor n) with
  | some slot =>
    rw [hslot] at h
    obtain rfl := Option.some.inj h
    unfold findKey
    rw [find?_set hslot]
    by_cases hm : n = m
    · subst hm
      simp
    · simp [hm, Function.update_of_ne (Ne.symm hm)]
  | none =>
    rw [hslot] at h
    dsimp only at h
    split at h
    · obtain rfl := Option.some.inj h
      have hnone : ctx.keys.find? (·.isFor n) = none :=
        List.find?_eq_none.mpr fun entry hentry => by
          simp [List.findIdx?_eq_none_iff.mp hslot entry hentry]
      unfold findKey
      rw [List.find?_append]
      by_cases hm : n = m
      · subst hm
        rw [hnone, Option.none_or]
        simp [ChannelKey.isFor]
      · simp [hm, ChannelKey.isFor, Function.update_of_ne (Ne.symm hm)]
    · cases h

/-- No two entries in use are for one channel. -/
theorem Crypto.Tidy.entry_inj {ctx : Crypto} (h : ctx.Tidy) {n : BitVec 32} {i j : Nat}
    (hi : i < ctx.keys.length) (hj : j < ctx.keys.length) (hni : ctx.keys[i].isFor n = true)
    (hnj : ctx.keys[j].isFor n = true) : i = j := by
  have hidi := (h.isFor (List.getElem_mem hi)).mp hni
  have hidj := (h.isFor (List.getElem_mem hj)).mp hnj
  have hi' : i < ctx.numbers.length := by simpa using hi
  have hj' : j < ctx.numbers.length := by simpa using hj
  have hinj : ctx.numbers[i] = ctx.numbers[j] ↔ i = j := h.nodup.getElem_inj_iff
  exact hinj.mp (by simp [Crypto.numbers, hidi, hidj])

/-! ### The map -/

/-- The table holds what the map does. -/
structure Holds (ctx : Crypto) (m : Bounded (BitVec 32) Key maxChannelKeys) : Prop where
  tidy : ctx.Tidy
  get : findKey ctx = m.get

theorem holds_init : Holds aeCryptoInit (.empty _ _ _) := ⟨tidy_init, rfl⟩

/-- What a call asks to be written. -/
def writeOf (c : BitVec 32 × Option Key) : BitVec 32 × Key :=
  (c.1, c.2.getD (deriveKeyFromChannel c.1))

/-- A call; the writes that succeed are put out. -/
def Crypto.setKey (ctx : Crypto) (c : BitVec 32 × Option Key) :
    Crypto × List (BitVec 32 × Key) :=
  match aeCryptoSetChannelKey ctx c.1 c.2 with
  | some ctx' => (ctx', [writeOf c])
  | none => (ctx, [])

variable {ctx : Crypto} {m : Bounded (BitVec 32) Key maxChannelKeys}

theorem Holds.keys (h : Holds ctx m) : m.keys = {n | (findKey ctx n).isSome = true} := by
  rw [Bounded.keys, h.get]

theorem Holds.ncard (h : Holds ctx m) : m.keys.ncard = ctx.numbers.length := by
  have hset : m.keys = (ctx.numbers.toFinset : Set (BitVec 32)) := by
    ext n
    rw [h.keys, Finset.mem_coe, List.mem_toFinset]
    exact findKey_isSome h.tidy
  rw [hset, Set.ncard_coe_finset, List.toFinset_card_of_nodup h.tidy.nodup]

/-- The table has no room for a key exactly when the map has none. -/
theorem Holds.full_iff (h : Holds ctx m) (n : BitVec 32) (key : Option Key) :
    aeCryptoSetChannelKey ctx n key = none ↔
      findKey ctx n = none ∧ m.keys.ncard = maxChannelKeys := by
  have hnone : findKey ctx n = none ↔ n ∉ ctx.numbers := by
    rw [← findKey_isSome h.tidy, Option.not_isSome_iff_eq_none]
  have hbound : ctx.numbers.length ≤ maxChannelKeys := by
    rw [length_numbers]
    exact ctx.bounded
  rw [hnone, h.ncard]
  rcases setChannelKey_cases h.tidy n key with
    ⟨hold, ctx', hset, -⟩ | ⟨-, hfree, ctx', hset, -⟩ | ⟨hnew, hfull, hset⟩
  · simp [hset, hold]
  · exact iff_of_false (by simp [hset]) fun hfull => hfree.ne hfull.2
  · exact iff_of_true hset ⟨hnew, le_antisymm hbound hfull⟩

/-- A call does to the table what the write does to the map. -/
theorem holds_setKey (h : Holds ctx m) (c : BitVec 32 × Option Key) :
    (ctx.setKey c).2 = (m.put (writeOf c)).2 ∧ Holds (ctx.setKey c).1 (m.put (writeOf c)).1 := by
  have hfull := h.full_iff c.1 c.2
  unfold Crypto.setKey Bounded.put
  rw [h.get, ← Bounded.write_eq_none (v := (writeOf c).2)] at hfull
  cases hset : aeCryptoSetChannelKey ctx c.1 c.2 with
  | none =>
    rw [show m.write (writeOf c).1 (writeOf c).2 = none from hfull.mp hset]
    exact ⟨rfl, h⟩
  | some ctx' =>
    have hroom : m.write (writeOf c).1 (writeOf c).2 ≠ none := fun hno => by
      rw [hfull.mpr hno] at hset
      cases hset
    obtain ⟨m', hm'⟩ := Option.ne_none_iff_exists'.mp hroom
    rw [hm']
    refine ⟨rfl, ?_, ?_⟩
    · rcases setChannelKey_cases h.tidy c.1 c.2 with
        ⟨-, ctx'', hset', htidy, -⟩ | ⟨-, -, ctx'', hset', htidy, -⟩ | ⟨-, -, hnone⟩
      · obtain rfl := Option.some.inj (hset.symm.trans hset')
        exact htidy
      · obtain rfl := Option.some.inj (hset.symm.trans hset')
        exact htidy
      · cases hset.symm.trans hnone
    · rw [findKey_setChannelKey hset, Bounded.get_write hm', h.get]
      rfl

/-! ### A run -/

/-- **The key table is a bounded map.** After any calls, a channel's key is what was last set for
it, and no channel has two entries. A call fails exactly if its channel has no key and 64 channels
have one, and then changes nothing; otherwise it changes the key of its channel alone. -/
theorem key_table_is_map (calls : List (BitVec 32 × Option Key)) :
    let ctx := Machine.run Crypto.setKey aeCryptoInit calls
    findKey ctx = written (fun _ => none) (Machine.outputs Crypto.setKey aeCryptoInit calls) ∧
    (∀ (n : BitVec 32) (i j : Nat) (hi : i < ctx.keys.length) (hj : j < ctx.keys.length),
      ctx.keys[i].isFor n = true → ctx.keys[j].isFor n = true → i = j) ∧
    ∀ n key,
      (aeCryptoSetChannelKey ctx n key = none ↔
        findKey ctx n = none ∧ {m | (findKey ctx m).isSome = true}.ncard = 64) ∧
      (aeCryptoSetChannelKey ctx n key = none → ctx.setKey (n, key) = (ctx, [])) ∧
      ∀ ctx', aeCryptoSetChannelKey ctx n key = some ctx' →
        findKey ctx' n = some (key.getD (deriveKeyFromChannel n)) ∧
          ∀ m ≠ n, findKey ctx' m = findKey ctx m := by
  have hall : Machine.Along (fun (m : Bounded (BitVec 32) Key maxChannelKeys) c => m.put (writeOf c))
      (fun _ _ => True) (.empty _ _ _) calls := Machine.along_of_forall (fun _ _ => trivial) calls
  obtain ⟨houts, hholds⟩ := Machine.simulates (R := Holds) (fun _ _ c h _ => holds_setKey h c)
    holds_init hall
  refine ⟨?_, fun n i j hi hj => hholds.tidy.entry_inj hi hj, fun n key => ⟨?_, ?_, ?_⟩⟩
  · rw [hholds.get, houts]
    exact Bounded.get_run writeOf (.empty _ _ _) calls
  · rw [hholds.full_iff, hholds.keys]
    rfl
  · intro hnone
    rw [Crypto.setKey, hnone]
  · intro ctx' hset
    rw [findKey_setChannelKey hset]
    exact ⟨Function.update_self .., fun m hm => Function.update_of_ne hm ..⟩

/-- A key that is set twice. -/
example : findKey (Machine.run Crypto.setKey aeCryptoInit
    [(1, none), (2, none), (1, some fun _ => 7)]) 1 = some fun _ => 7 := rfl

end AudioPlatform.Core
