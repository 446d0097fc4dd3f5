import AudioPlatform.Core.Eviction

/-! The moves of the stream table.

Whatever the engine does, its table is opened a slot, has a stream destroyed, or goes on in a slot.
What these moves keep, every run keeps (`TableInvariant.run`). -/
namespace AudioPlatform.Core
open Concurrency Maps

variable {Frame : Type} {L : Library Frame}

/-- The stream in one slot goes on with its decoder, and its tracker with the next number if at all;
a slot that is free does not change. -/
structure Turn (now : BitVec 64) (i : StreamIndex) (e e' : Engine L) : Prop where
  continues : Continues now i e e'
  free : (e.streams i).active = false → e'.streams i = e.streams i
  decoder : (e'.streams i).decoder.isSome = (e.streams i).decoder.isSome
  tracker : (e'.streams i).seqTracker = (e.streams i).seqTracker ∨
    (e'.streams i).seqTracker =
      (aeRtpSeqUpdate (e.streams i).seqTracker ((e.streams i).seqTracker.maxSeq + 1)).1

/-- What every move of the table keeps. -/
structure TableInvariant (P : Engine L → Prop) : Prop where
  same : ∀ {e e'}, SameTable e e' → P e → P e'
  opening : ∀ {e c i} (alloc : Allocation), findStream e c = none → (e.streams i).active = false →
    P e → P (e.opening c alloc i)
  destroy : ∀ {e i}, (e.streams i).active = true → P e → P (destroyStream e i)
  turn : ∀ {now i e e'}, Turn now i e e' → P e → P e'

/-! ### Turns -/

theorem decoder_aeOpusDecode (dec : Option L.Decoder) (data : List Byte) (pcm : Pcm) :
    (aeOpusDecode dec data pcm).1.isSome = dec.isSome := by
  unfold aeOpusDecode
  cases dec with
  | none => rfl
  | some d =>
    dsimp only
    split <;> rfl

theorem RemoteStream.accepted_decoder (s : RemoteStream L) (data : List Byte) (pcm : Pcm)
    (now : BitVec 64) : (s.accepted data pcm now).decoder.isSome = s.decoder.isSome := by
  have h := decoder_aeOpusDecode s.decoder data pcm
  unfold accepted
  dsimp only
  split <;> exact h

theorem turn_acceptAudio {e : Engine L} {i : StreamIndex} (hi : (e.streams i).active = true)
    (hdr : RtpHeader) (data : List Byte) (now : BitVec 64) :
    Turn now i e (acceptAudio e i hdr data now).1 := by
  have hstreams := streams_acceptAudio e i hdr data now
  have hslot : (acceptAudio e i hdr data now).1.streams i =
      (e.streams i).accepted data e.decodeFrame now := by
    rw [hstreams, Function.update_self]
  refine ⟨continues_acceptAudio e i hdr data now, ?_, ?_, ?_⟩
  · intro hoff
    cases hi.symm.trans hoff
  · rw [hslot, RemoteStream.accepted_decoder]
  · rw [hslot, RemoteStream.accepted_seqTracker]
    exact .inr rfl

section Loop
variable {nowMix : BitVec 64} {m : Mixing L} {i : StreamIndex}

theorem mixStream_inactive (h : (m.engine.streams i).active = false) : mixStream nowMix m i = m := by
  unfold mixStream
  dsimp only
  rw [h]

theorem mixed_seqTracker (nowMix : BitVec 64) (s : RemoteStream L) :
    (s.mixed nowMix).seqTracker = s.seqTracker := by
  unfold RemoteStream.mixed
  split
  · split
    · rfl
    · split <;> rfl
  · rfl

/-- A stream that stays keeps its decoder, or the one that has concealed a gap. -/
theorem decoder_mixStream (h : ¬ (m.engine.streams i).Stale nowMix) :
    ((mixStream nowMix m i).engine.streams i).decoder.isSome =
      (m.engine.streams i).decoder.isSome := by
  unfold mixStream
  dsimp only
  split
  · rfl
  · rfl
  · rename_i jb hact hjb
    rw [if_neg fun hsilent => h ⟨hact, by rw [hjb]; rfl, hsilent⟩]
    split
    · rfl
    · split
      · simp [Mixing.add]
      · split
        · rename_i hd
          simp [hd]
        · rename_i decoder hd
          split
          · simp [Mixing.add, hd]
          · simp

theorem turn_mixStream (h : ¬ (m.engine.streams i).Stale nowMix) :
    Turn nowMix i m.engine (mixStream nowMix m i).engine := by
  refine ⟨continues_mixStream h, fun hoff => by rw [mixStream_inactive hoff], decoder_mixStream h, ?_⟩
  obtain ⟨decoder, hstreams⟩ := streams_mixStream nowMix m i
  rw [hstreams, Function.update_self]
  exact .inl (mixed_seqTracker nowMix _)

end Loop

/-! ### Steps -/

namespace TableInvariant
variable {P : Engine L → Prop} (h : TableInvariant P)
include h

theorem leaveChannel {e : Engine L} (he : P e) (channelId : CString) :
    P (aeEngineLeaveChannel e channelId).1 := by
  have hdestroy : ∀ e i, P e → P (destroyStream e i) := by
    intro e i he
    by_cases hi : (e.streams i).active = true
    · exact h.destroy hi he
    · unfold destroyStream
      rw [if_pos (by simpa using hi)]
      exact he
  have hstart : P { e with transmitting := false, channel := { e.channel with transmitting := false } } :=
    h.same (e := e) ⟨rfl, rfl, rfl⟩ he
  have hend := foldl_destroyStream hdestroy hstart (List.finRange aeMaxUsersPerCh)
  unfold aeEngineLeaveChannel
  dsimp only at hend ⊢
  generalize List.foldl _ _ _ = left at hend ⊢
  exact h.same (e := left) ⟨rfl, rfl, rfl⟩ hend

theorem command {e : Engine L} (he : P e) {c : Call Frame} (hc : c.tick = none) : P (e.call c).1 := by
  rcases table_command e hc with hsame | ⟨channelId, hsame⟩
  · exact h.same hsame he
  · exact h.same hsame (h.leaveChannel he channelId)

theorem streamFor {e e' : Engine L} {c : BitVec 64} {alloc : Allocation} {i : StreamIndex}
    (hs : streamFor e c alloc = (e', some i)) (he : P e) : P e' ∧ (e'.streams i).active = true := by
  rcases streamFor_cases e c alloc with ⟨j, hf, heq⟩ | ⟨-, -, heq⟩ | ⟨hf, -, j, hj, heq⟩
  · rw [hs] at heq
    cases heq
    exact ⟨he, (findStream_some hf).1⟩
  · rw [hs] at heq
    cases heq
  · rw [hs] at heq
    cases heq
    refine ⟨h.opening alloc hf hj he, ?_⟩
    show (Function.update e.streams i _ i).active = true
    rw [Function.update_self]
    rfl

theorem receive {e : Engine L} (he : P e) (a : Arrival) : P (receive e a).1 := by
  have hhold : P (e.holding a) := h.same (sameTable_holding e a) he
  rcases receive_outcomes e a with (hr | hr) | ⟨hdr, -, -, -, hr⟩ | ⟨hdr, data, e', i, -, hs, hr⟩
  · rw [hr]
    exact hhold
  · rw [hr]
    exact h.same (sameTable_handlePong _ _) hhold
  · rw [hr]
    rcases dropping_cases (e.holding a) a hdr with ⟨hdrop, -⟩ | ⟨-, -, hf, -, i, hi, hdrop⟩
    · rw [hdrop]
      exact hhold
    · rw [hdrop]
      exact h.opening a.alloc hf hi hhold
  · obtain ⟨he', hi⟩ := h.streamFor hs hhold
    rw [hr]
    exact h.turn (turn_acceptAudio hi hdr data a.now) he'

theorem mixStream {m : Mixing L} (hm : P m.engine) (nowMix : BitVec 64) (i : StreamIndex) :
    P (mixStream nowMix m i).engine := by
  by_cases hstale : (m.engine.streams i).Stale nowMix
  · rw [mixStream_stale hstale]
    exact h.destroy hstale.1 hm
  · exact h.turn (turn_mixStream hstale) hm

theorem mix {e : Engine L} (he : P e) (isConnected : Bool) (nowMix : BitVec 64) :
    P (mix isConnected e nowMix) := by
  obtain ⟨_, _, hmix⟩ := mix_eq isConnected e nowMix
  have hend : P ((List.finRange aeMaxUsersPerCh).foldl (Core.mixStream nowMix) ⟨e, []⟩).engine :=
    foldl_mixStream (fun _ i hm => h.mixStream hm nowMix i) he _
  rw [hmix]
  generalize (List.finRange aeMaxUsersPerCh).foldl (Core.mixStream nowMix) ⟨e, []⟩ = m at hend ⊢
  exact h.same (e := m.engine) ⟨rfl, rfl, rfl⟩ hend

/-- A step is made of the moves. -/
theorem step {e : Engine L} (he : P e) (s : EngineStep Frame) : P (e.step s).1 := by
  cases s with
  | command c hc => exact h.command he hc
  | capture => exact h.same (sameTable_transmit e) he
  | arrive a => exact h.receive he a
  | keepalive now => exact h.same (sameTable_keepalive e now) he
  | ping now => exact h.same (sameTable_ping e now) he
  | mix isConnected nowMix =>
    rw [step_mix]
    exact h.mix he isConnected nowMix

theorem run {e : Engine L} (he : P e) (calls : List (Call Frame)) : P (Machine.run Engine.call e calls) := by
  have hstep : ∀ (e : Engine L) s, True → P e → P (e.step s).1 := fun _ s _ he => h.step he s
  rw [← run_stepsOf]
  exact Machine.run_induction hstep he fun _ _ => trivial

end TableInvariant

end AudioPlatform.Core
