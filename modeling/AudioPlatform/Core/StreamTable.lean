import AudioPlatform.Maps.Slots
import AudioPlatform.Core.Steps

/-! The stream table.

A client that is heard holds a slot of the table until it has been silent for more than
five seconds or the channel is left. The engine counts the slots that are held beside the
table, twice; here the counts are shown to be right in every state, and no client to hold
two slots (`stream_table`). -/
namespace AudioPlatform.Core
open Concurrency Maps

variable {Frame : Type} {L : Library Frame}

def RemoteStream.holder (s : RemoteStream L) : Option (BitVec 64) :=
  if s.active then some s.clientId else none

/-- The client that holds each slot. -/
def Engine.holders (e : Engine L) : StreamIndex → Option (BitVec 64) := fun i => (e.streams i).holder

/-- The counts are the number of held slots, no client holds two, and each has its buffer. -/
structure Tabled (e : Engine L) : Prop where
  streamCount : e.streamCount = (held e.holders).card
  activeStreams : e.activeStreams = (held e.holders).card
  distinct : Distinct e.holders
  buffered : ∀ i, (e.streams i).active = true → (e.streams i).jitter.isSome = true

theorem holders_eq_some {e : Engine L} {i : StreamIndex} {c : BitVec 64} :
    e.holders i = some c ↔ (e.streams i).active = true ∧ (e.streams i).clientId = c := by
  simp [Engine.holders, RemoteStream.holder]

theorem holders_eq_none {e : Engine L} {i : StreamIndex} :
    e.holders i = none ↔ (e.streams i).active = false := by
  simp [Engine.holders, RemoteStream.holder]

theorem findStream_eq_none {e : Engine L} {c : BitVec 64} :
    findStream e c = none ↔ ∀ i, e.holders i ≠ some c := by
  rw [← Option.not_isSome_iff_eq_none, findStream_isSome]
  simp only [ne_eq, holders_eq_some, not_exists]

theorem Tabled.bounds {e : Engine L} (h : Tabled e) :
    0 ≤ e.streamCount ∧ e.streamCount ≤ aeMaxUsersPerCh := by
  have hle := card_held_le e.holders
  rw [Fintype.card_fin] at hle
  have hcount := h.streamCount
  omega

/-! ### What happens to the table -/

theorem SameTable.holders {e e' : Engine L} (h : SameTable e e') : e'.holders = e.holders := by
  funext i
  rw [Engine.holders, Engine.holders, h.streams]

theorem SameTable.tabled {e e' : Engine L} (h : SameTable e e') (ht : Tabled e) : Tabled e' where
  streamCount := by rw [h.streamCount, h.holders, ht.streamCount]
  activeStreams := by rw [h.activeStreams, h.holders, ht.activeStreams]
  distinct := by
    rw [h.holders]
    exact ht.distinct
  buffered := by
    rw [h.streams]
    exact ht.buffered

theorem holders_update {e e' : Engine L} {i : StreamIndex} {s : RemoteStream L}
    (h : e'.streams = Function.update e.streams i s) :
    e'.holders = Function.update e.holders i s.holder := by
  funext j
  rw [Engine.holders, h]
  by_cases hj : j = i
  · subst hj
    rw [Function.update_self, Function.update_self]
  · rw [Function.update_of_ne hj, Function.update_of_ne hj]
    rfl

theorem holders_opening (e : Engine L) (c : BitVec 64) (alloc : Allocation) (i : StreamIndex) :
    (e.opening c alloc i).holders = Function.update e.holders i (some c) := by
  have hstreams : (e.opening c alloc i).streams = Function.update e.streams i (newStream e c alloc) :=
    rfl
  exact holders_update hstreams

/-- A client without a slot takes a free one. -/
theorem tabled_opening {e : Engine L} {c : BitVec 64} {alloc : Allocation} {i : StreamIndex}
    (ht : Tabled e) (hf : findStream e c = none) (hi : (e.streams i).active = false)
    (halloc : alloc.jitter = true) : Tabled (e.opening c alloc i) := by
  have hcard : (held (e.opening c alloc i).holders).card = (held e.holders).card + 1 := by
    rw [holders_opening, card_held_take (holders_eq_none.mpr hi)]
  have hcount : (e.opening c alloc i).streamCount = (held e.holders).card + 1 := by
    rw [← ht.streamCount]
    rfl
  constructor
  · rw [hcard, hcount, Nat.cast_succ]
  · rw [hcard, Nat.cast_succ, ← hcount]
    rfl
  · rw [holders_opening]
    exact ht.distinct.take (findStream_eq_none.mp hf) i
  · intro j hj
    show (Function.update e.streams i _ j).jitter.isSome = true
    replace hj : (Function.update e.streams i (newStream e c alloc) j).active = true := hj
    by_cases hji : j = i
    · subst hji
      rw [Function.update_self]
      simp [newStream, halloc]
    · rw [Function.update_of_ne hji] at hj ⊢
      exact ht.buffered j hj

theorem streams_destroyStream {e : Engine L} {i : StreamIndex} (hi : (e.streams i).active = true) :
    (destroyStream e i).streams = Function.update e.streams i
      { e.streams i with active := false, decoder := none, jitter := none } := by
  unfold destroyStream
  rw [if_neg (by simp [hi])]

theorem holders_destroyStream {e : Engine L} {i : StreamIndex} (hi : (e.streams i).active = true) :
    (destroyStream e i).holders = Function.update e.holders i none :=
  holders_update (streams_destroyStream hi)

/-- A stream that is destroyed gives up its slot. -/
theorem tabled_destroyStream {e : Engine L} (ht : Tabled e) (i : StreamIndex) :
    Tabled (destroyStream e i) := by
  by_cases hi : (e.streams i).active = true
  · have hcard : (held (destroyStream e i).holders).card + 1 = (held e.holders).card := by
      rw [holders_destroyStream hi]
      exact card_held_clear (holders_eq_some.mpr ⟨hi, rfl⟩)
    have hcount := ht.streamCount
    have hstream : (destroyStream e i).streamCount = e.streamCount - 1 := by
      unfold destroyStream
      rw [if_neg (by simp [hi])]
    have hactive : (destroyStream e i).activeStreams = e.streamCount - 1 := by
      unfold destroyStream
      rw [if_neg (by simp [hi])]
    constructor
    · omega
    · omega
    · rw [holders_destroyStream hi]
      exact ht.distinct.clear i
    · intro j hj
      rw [streams_destroyStream hi] at hj ⊢
      by_cases hji : j = i
      · subst hji
        rw [Function.update_self] at hj
        cases hj
      · rw [Function.update_of_ne hji] at hj ⊢
        exact ht.buffered j hj
  · have hsame : destroyStream e i = e := by
      unfold destroyStream
      rw [if_pos (by simpa using hi)]
    rwa [hsame]

/-- The stream goes on with its client and its buffer, and may be heard. -/
structure GoesOn (now : BitVec 64) (s s' : RemoteStream L) : Prop where
  active : s'.active = s.active
  clientId : s'.clientId = s.clientId
  buffered : s'.jitter.isSome = s.jitter.isSome
  heard : s'.lastRecvMs = s.lastRecvMs ∨ s'.lastRecvMs = now

/-- The stream in one slot goes on, and no other changes. -/
structure Continues (now : BitVec 64) (i : StreamIndex) (e e' : Engine L) : Prop where
  streamCount : e'.streamCount = e.streamCount
  activeStreams : e'.activeStreams = e.activeStreams
  others : ∀ j, j ≠ i → e'.streams j = e.streams j
  goesOn : GoesOn now (e.streams i) (e'.streams i)

section Continues
variable {now : BitVec 64} {i : StreamIndex} {e e' : Engine L}

theorem GoesOn.refl (now : BitVec 64) (s : RemoteStream L) : GoesOn now s s :=
  ⟨rfl, rfl, rfl, .inl rfl⟩

theorem SameTable.continues (h : SameTable e e') (now : BitVec 64) (i : StreamIndex) :
    Continues now i e e' := by
  refine ⟨h.streamCount, h.activeStreams, fun j _ => by rw [h.streams], ?_⟩
  rw [h.streams]
  exact .refl now _

theorem Continues.each (h : Continues now i e e') (j : StreamIndex) :
    GoesOn now (e.streams j) (e'.streams j) := by
  by_cases hj : j = i
  · rw [hj]
    exact h.goesOn
  · rw [h.others j hj]
    exact .refl now _

theorem Continues.holders (h : Continues now i e e') : e'.holders = e.holders := by
  funext j
  rw [Engine.holders, Engine.holders, RemoteStream.holder, RemoteStream.holder, (h.each j).active,
    (h.each j).clientId]

theorem Continues.tabled (h : Continues now i e e') (ht : Tabled e) : Tabled e' where
  streamCount := by rw [h.streamCount, h.holders, ht.streamCount]
  activeStreams := by rw [h.activeStreams, h.holders, ht.activeStreams]
  distinct := by
    rw [h.holders]
    exact ht.distinct
  buffered := by
    intro j hj
    rw [(h.each j).buffered]
    rw [(h.each j).active] at hj
    exact ht.buffered j hj

end Continues

/-! ### Commands -/

theorem tabled_leaveChannel {e : Engine L} (ht : Tabled e) (channelId : CString) :
    Tabled (aeEngineLeaveChannel e channelId).1 := by
  have hstart : SameTable e
      { e with transmitting := false, channel := { e.channel with transmitting := false } } :=
    ⟨rfl, rfl, rfl⟩
  have hend := foldl_destroyStream (P := Tabled) (fun _ i h => tabled_destroyStream h i)
    (hstart.tabled ht) (List.finRange aeMaxUsersPerCh)
  unfold aeEngineLeaveChannel
  dsimp only at hend ⊢
  generalize List.foldl _ _ _ = left at hend ⊢
  exact SameTable.tabled (e := left) ⟨rfl, rfl, rfl⟩ hend

theorem tabled_command {e : Engine L} (ht : Tabled e) {c : Call Frame} (hc : c.tick = none) :
    Tabled (e.call c).1 := by
  rcases table_command e hc with h | ⟨channelId, h⟩
  · exact h.tabled ht
  · exact h.tabled (tabled_leaveChannel ht channelId)

/-! ### Datagrams -/

theorem goesOn_accepted (s : RemoteStream L) (data : List Byte) (pcm : Pcm) (now : BitVec 64) :
    GoesOn now s (s.accepted data pcm now) := by
  refine ⟨s.accepted_active data pcm now, s.accepted_clientId data pcm now, ?_,
    (s.accepted_lastRecvMs data pcm now).symm⟩
  unfold RemoteStream.accepted
  dsimp only
  split
  · exact Option.isSome_map ..
  · rfl

theorem continues_acceptAudio (e : Engine L) (i : StreamIndex) (hdr : RtpHeader) (data : List Byte)
    (now : BitVec 64) : Continues now i e (acceptAudio e i hdr data now).1 := by
  have hstreams := streams_acceptAudio e i hdr data now
  refine ⟨?_, ?_, fun j hj => by rw [hstreams, Function.update_of_ne hj], ?_⟩
  · unfold acceptAudio
    dsimp only
    split <;> rfl
  · unfold acceptAudio
    dsimp only
    split <;> rfl
  · rw [hstreams, Function.update_self]
    exact goesOn_accepted ..

/-- The slot of a sender: the one it holds, or a free one that it takes. -/
inductive Seats (e : Engine L) (c : BitVec 64) (alloc : Allocation) (i : StreamIndex) :
    Engine L → Prop where
  | found {e' : Engine L} (hf : findStream e c = some i) (h : SameTable e e') :
      Seats e c alloc i e'
  | opened {e' : Engine L} (hf : findStream e c = none) (hi : (e.streams i).active = false)
      (h : SameTable (e.opening c alloc i) e') : Seats e c alloc i e'

/-- A datagram leaves the table as it is, or its sender has a slot then, and only the stream
there goes on. -/
theorem receive_seats (e : Engine L) (a : Arrival) : SameTable e (receive e a).1 ∨
    ∃ hdr i e', packetHeader a.data = some hdr ∧ Seats e hdr.clientId a.alloc i e' ∧
      Continues a.now i e' (receive e a).1 := by
  rcases receive_outcomes e a with (h | h) | ⟨hdr, hp, -, -, h⟩ | ⟨hdr, data, e', i, hacc, hs, h⟩
  · rw [h]
    exact .inl (sameTable_holding e a)
  · rw [h]
    exact .inl ((sameTable_holding e a).trans (sameTable_handlePong _ _))
  · rw [h]
    rcases dropping_cases (e.holding a) a hdr with ⟨hdrop, -⟩ | ⟨-, -, hf, -, i, hi, hdrop⟩
    · rw [hdrop]
      exact .inl (sameTable_holding e a)
    · rw [hdrop]
      exact .inr ⟨hdr, i, (e.holding a).opening hdr.clientId a.alloc i, hp,
        .opened hf hi ⟨rfl, rfl, rfl⟩, (SameTable.refl _).continues a.now i⟩
  · rw [h]
    refine .inr ⟨hdr, i, e', hacc.header, ?_, continues_acceptAudio e' i hdr data a.now⟩
    rcases streamFor_cases (e.holding a) hdr.clientId a.alloc with
      ⟨j, hf, heq⟩ | ⟨-, -, heq⟩ | ⟨hf, -, j, hj, heq⟩
    · rw [hs] at heq
      cases heq
      exact .found hf (sameTable_holding e a)
    · rw [hs] at heq
      cases heq
    · rw [hs] at heq
      cases heq
      exact .opened hf hj ⟨rfl, rfl, rfl⟩

theorem Seats.tabled {e e' : Engine L} {c : BitVec 64} {alloc : Allocation} {i : StreamIndex}
    (h : Seats e c alloc i e') (halloc : alloc.jitter = true) (ht : Tabled e) : Tabled e' := by
  cases h with
  | found hf h => exact h.tabled ht
  | opened hf hi h => exact h.tabled (tabled_opening ht hf hi halloc)

theorem tabled_receive {e : Engine L} {a : Arrival} (ht : Tabled e) (halloc : a.alloc.jitter = true) :
    Tabled (receive e a).1 := by
  rcases receive_seats e a with h | ⟨hdr, i, e', -, hseat, hnext⟩
  · exact h.tabled ht
  · exact hnext.tabled (hseat.tabled halloc ht)

/-- What a datagram may do to the table: it changes no slot but the one that its sender holds
then, which is the one that it held before if it held any; without a free slot, a client that
holds none changes nothing. -/
structure OneSlot (e : Engine L) (a : Arrival) : Prop where
  own : ∀ hdr, packetHeader a.data = some hdr → ∃ i,
    (∀ j, j ≠ i → (receive e a).1.streams j = e.streams j) ∧
    ((receive e a).1.streams i ≠ e.streams i → (receive e a).1.holders i = some hdr.clientId ∧
      ∀ j, e.holders j = some hdr.clientId → j = i)
  full : ∀ hdr, packetHeader a.data = some hdr → findStream e hdr.clientId = none →
    (∀ i, (e.streams i).active = true) → SameTable e (receive e a).1

theorem Seats.holds {e e' : Engine L} {c : BitVec 64} {alloc : Allocation} {i : StreamIndex}
    (h : Seats e c alloc i e') : e'.holders i = some c := by
  cases h with
  | found hf h =>
    rw [h.holders]
    exact holders_eq_some.mpr (findStream_some hf)
  | opened hf hi h => rw [h.holders, holders_opening, Function.update_self]

theorem Seats.others {e e' : Engine L} {c : BitVec 64} {alloc : Allocation} {i j : StreamIndex}
    (h : Seats e c alloc i e') (hj : j ≠ i) : e'.streams j = e.streams j := by
  cases h with
  | found hf h => rw [h.streams]
  | opened hf hi h =>
    rw [h.streams]
    exact Function.update_of_ne hj ..

/-- The sender held no other slot. -/
theorem Seats.only {e e' : Engine L} {c : BitVec 64} {alloc : Allocation} {i j : StreamIndex}
    (h : Seats e c alloc i e') (ht : Tabled e) (hj : e.holders j = some c) : j = i := by
  cases h with
  | found hf h => exact ht.distinct j i c hj (holders_eq_some.mpr (findStream_some hf))
  | opened hf hi h => exact absurd hj (findStream_eq_none.mp hf j)

theorem oneSlot {e : Engine L} (ht : Tabled e) (a : Arrival) : OneSlot e a := by
  rcases receive_seats e a with h | ⟨hdr, i, e', hp, hseat, hnext⟩
  · refine ⟨fun hdr _ => ⟨⟨0, by decide⟩, fun j _ => by rw [h.streams], fun hne => ?_⟩,
      fun _ _ _ _ => h⟩
    exact absurd (by rw [h.streams]) hne
  · constructor
    · intro hdr' hp'
      obtain rfl := Option.some.inj (hp.symm.trans hp')
      refine ⟨i, fun j hj => (hnext.others j hj).trans (hseat.others hj), fun _ => ⟨?_, ?_⟩⟩
      · rw [hnext.holders]
        exact hseat.holds
      · exact fun j hj => hseat.only ht hj
    · intro hdr' hp' hnone hfull
      obtain rfl := Option.some.inj (hp.symm.trans hp')
      cases hseat with
      | found hf h => cases hnone.symm.trans hf
      | opened hf hi h => cases (hfull i).symm.trans hi

end AudioPlatform.Core
