import AudioPlatform.Concurrency.Reservoir
import AudioPlatform.Core.Connection
import AudioPlatform.Core.Playback

/-! What waits to be played.

The playback ring fills as ticks mix and empties as the audio thread reads. In a channel every tick mixes a
whole frame, whoever speaks, so a device that reads less than a frame for each tick falls behind until the
ring is full, and then loses the difference. -/
namespace AudioPlatform.Core
open Concurrency Reservoir

variable {Frame : Type} {L : Library Frame}

/-- The samples that wait in the playback ring. -/
def Engine.waiting (e : Engine L) : Nat := aeRingbufAvailable e.playbackRing

/-- The samples that it can hold. -/
def Engine.room (e : Engine L) : Nat := e.playbackRing.capacity - 1

/-- What a call asks of it. -/
def Call.asked : Call Frame → Nat
  | .readPlayback frameCount => frameCount
  | _ => 0

/-- The mixed samples that a call finds no room for. -/
def Engine.lost (e : Engine L) (c : Call Frame) : List (ℚ × ℚ) :=
  (e.offered c).drop (aeRingbufFreeSpace e.playbackRing)

theorem waiting_le (e : Engine L) : e.waiting ≤ e.room := by
  have h := e.playbackRing.available_lt
  unfold Engine.waiting Engine.room
  omega

theorem waiting_call (e : Engine L) (c : Call Frame) :
    (e.call c).1.waiting = min e.room (e.waiting + (e.offered c).length) - c.asked := by
  have hle := waiting_le e
  have hother : c.tick = none → (∀ n, c ≠ .readPlayback n) → (e.offered c).length = 0 → c.asked = 0 →
      (e.call c).1.waiting = min e.room (e.waiting + (e.offered c).length) - c.asked := by
    intro hc hread hoffered hasked
    have hsame : (e.call c).1.waiting = e.waiting := congrArg aeRingbufAvailable (playbackRing_call e hc hread)
    rw [hsame, hoffered, hasked]
    omega
  cases c with
  | process t =>
    show aeRingbufAvailable (aeEngineProcess e t).1.playbackRing = _ - 0
    rw [playbackRing_process, ← RingBuffer.length_contents, RingBuffer.contents_write, RingBuffer.write_snd,
      List.length_append, List.length_take, RingBuffer.length_contents]
    unfold Engine.room Engine.waiting at *
    unfold aeRingbufFreeSpace
    omega
  | readPlayback n =>
    show aeRingbufAvailable (aeRingbufRead e.playbackRing n).1 = min e.room (e.waiting + 0) - n
    rw [← RingBuffer.length_contents, RingBuffer.contents_read, List.length_drop, RingBuffer.length_contents]
    unfold Engine.waiting at *
    omega
  | _ => exact hother rfl nofun rfl rfl

theorem fills : Fills (Engine.call (L := L)) Engine.waiting Engine.room (fun e c => (e.offered c).length)
    (fun _ c => c.asked) where
  level_le := waiting_le
  room_eq e c := congrArg (· - 1) (capacity_call e c)
  step_eq := waiting_call

/-- Samples are lost only by a call that leaves the ring full. -/
theorem full_of_lost {e : Engine L} {c : Call Frame} (h : e.lost c ≠ []) : (e.call c).1.waiting = e.room := by
  have hmore : aeRingbufFreeSpace e.playbackRing < (e.offered c).length := by
    by_contra hle
    exact h (List.drop_eq_nil_of_le (by omega))
  have hasked : c.asked = 0 := by
    cases c with
    | readPlayback n => exact absurd hmore (Nat.not_lt_zero _)
    | _ => rfl
  have hlt := e.playbackRing.available_lt
  rw [waiting_call, hasked]
  unfold aeRingbufFreeSpace at hmore
  unfold Engine.waiting Engine.room
  omega

theorem spilled_eq (e : Engine L) (c : Call Frame) :
    spilled Engine.waiting Engine.room (fun e c => (e.offered c).length) e c = (e.lost c).length := by
  have h := e.playbackRing.available_lt
  show e.waiting + (e.offered c).length - e.room = ((e.offered c).drop _).length
  rw [List.length_drop]
  unfold Engine.waiting Engine.room aeRingbufFreeSpace
  omega

/-! ### In a channel -/

/-- A tick finds the engine connected and in a channel. -/
def Listening (e : Engine L) (c : Call Frame) : Prop :=
  c.tick.isSome = true → e.connected = true ∧ e.channel.active = true

theorem channel_process (e : Engine L) (t : Tick) : (aeEngineProcess e t).1.connected = e.connected ∧
    (aeEngineProcess e t).1.channel = e.channel := by
  obtain ⟨_, _, _, htick⟩ := control_tick e t
  exact ⟨congrArg Control.connected htick, congrArg Control.channel htick⟩

theorem channel_toMix (e : Engine L) (t : Tick) : (e.toMix t).channel = e.channel := by
  have hmix : (aeEngineProcess e t).1.control = (e.toMix t).control := by
    rw [process_eq]
    exact control_mix ..
  exact (congrArg Control.channel hmix.symm).trans (channel_process e t).2

theorem length_mixed {e : Engine L} (hchannel : e.channel.active = true) (nowMix : BitVec 64) :
    (e.mixed true nowMix).length = aeFrameSize := by
  have hturn : ∀ (m : Mixing L) i, m.engine.channel.active = true →
      (mixStream nowMix m i).engine.channel.active = true :=
    fun m i hm => (congrArg (fun c => c.channel.active) (control_mixStream nowMix m i)).trans hm
  have hactive := foldl_mixStream (P := fun r => r.channel.active = true) hturn (m := ⟨e, []⟩) hchannel
    (List.finRange aeMaxUsersPerCh)
  unfold Engine.mixed
  dsimp only
  split
  · exact length_interleaved _
  · rw [Bool.true_and, if_pos hactive]
    exact length_interleaved _

/-- The samples that a call mixes in a channel. -/
def Call.mixes (c : Call Frame) : Nat := if c.tick.isSome then aeFrameSize else 0

/-- A tick mixes a whole frame or nothing. -/
theorem length_offered_le (e : Engine L) (c : Call Frame) : (e.offered c).length ≤ c.mixes := by
  cases c with
  | process t =>
    show ((e.toMix t).mixed e.connected t.nowMix).length ≤ aeFrameSize
    unfold Engine.mixed
    dsimp only
    split
    · exact (length_interleaved _).le
    · split
      · exact (length_interleaved _).le
      · exact Nat.zero_le _
  | _ => exact Nat.le_refl 0

/-- In a channel every tick mixes a whole frame. -/
theorem length_offered_listening {e : Engine L} {c : Call Frame} (h : Listening e c) :
    (e.offered c).length = c.mixes := by
  cases c with
  | process t =>
    obtain ⟨hconnected, hchannel⟩ := h rfl
    show ((e.toMix t).mixed e.connected t.nowMix).length = aeFrameSize
    rw [hconnected]
    exact length_mixed ((congrArg ChannelState.active (channel_toMix e t)).trans hchannel) _
  | _ => rfl

/-! ### The audio thread -/

/-- The calls that the audio thread makes; the others are made by the main thread. -/
def Call.ofAudio : Call Frame → Bool
  | .writeCapture _ => true
  | .process _ => true
  | .readPlayback _ => true
  | _ => false

theorem mixes_main {c : Call Frame} (hc : c.ofAudio = false) : c.mixes = 0 ∧ c.asked = 0 := by
  cases c with
  | process t => cases hc
  | readPlayback n => cases hc
  | _ => exact ⟨rfl, rfl⟩

section Thread
variable {e : Engine L} {calls : List (Call Frame)}

/-- What waits is bounded by what the calls of the audio thread mix at most. -/
theorem waiting_run_le (e : Engine L) (calls : List (Call Frame)) {w : Nat} (hw : e.waiting ≤ w)
    (hroom : w ≤ e.room) : (Machine.run Engine.call e calls).waiting ≤
      (calls.filter Call.ofAudio).foldl (after e.room Call.mixes Call.asked) w := by
  rw [← foldl_after_filter (fun _ => mixes_main) calls hroom]
  exact fills.level_run_le length_offered_le (fun _ _ => rfl) hw

/-- The main thread leaves it as it is. -/
theorem waiting_main (h : ∀ c ∈ calls, c.ofAudio = false) :
    (Machine.run Engine.call e calls).waiting = e.waiting := by
  induction calls generalizing e with
  | nil => rfl
  | cons c rest ih =>
    obtain ⟨hmixes, hasked⟩ := mixes_main (h c (List.mem_cons_self ..))
    have hnone : (e.offered c).length = 0 := Nat.le_zero.mp (hmixes ▸ length_offered_le e c)
    have hle := waiting_le e
    show (Machine.run Engine.call (e.call c).1 rest).waiting = _
    rw [ih fun c' hc' => h c' (List.mem_cons_of_mem c hc'), waiting_call, hnone, hasked]
    omega

theorem total_mixed (h : Machine.Along Engine.call Listening e calls) :
    total Engine.call (fun e c => (e.offered c).length) e calls = ((calls.filter Call.ofAudio).map Call.mixes).sum := by
  rw [total_congr (fun _ _ => length_offered_listening) h, total_eq_sum]
  exact sum_filter (fun c hc => (mixes_main hc).1) calls

theorem total_asked : total Engine.call (fun (_ : Engine L) c => c.asked) e calls =
    ((calls.filter Call.ofAudio).map Call.asked).sum := by
  rw [total_eq_sum]
  exact sum_filter (fun c hc => (mixes_main hc).2) calls

/-- The samples that a call takes from the ring. -/
def Engine.takes (e : Engine L) (c : Call Frame) : Nat :=
  Reservoir.taken Engine.waiting Engine.room (fun e c => (e.offered c).length) (fun _ c => c.asked) e c

theorem total_takes_le : total Engine.call Engine.takes e calls ≤
    ((calls.filter Call.ofAudio).map Call.asked).sum := by
  rw [← total_asked (e := e)]
  exact total_le (fun _ _ => Nat.min_le_left ..) calls

/-- What a run in a channel mixes waits, was taken, or found no room. -/
theorem waiting_balance (h : Machine.Along Engine.call Listening e calls) :
    e.waiting + ((calls.filter Call.ofAudio).map Call.mixes).sum =
      (Machine.run Engine.call e calls).waiting + total Engine.call Engine.takes e calls +
        (Machine.collect Engine.call Engine.lost e calls).length := by
  have hlost : total Engine.call (spilled Engine.waiting Engine.room fun e c => (e.offered c).length) e calls =
      total Engine.call (fun e c => (e.lost c).length) e calls :=
    total_congr (C := fun _ _ => True) (fun e c _ => spilled_eq e c)
      (Machine.along_of_forall (fun _ _ => trivial) calls)
  have hbalance := fills.balance (s := e) calls
  rwa [total_mixed h, hlost, ← length_collect] at hbalance

end Thread

theorem room_run [Zero Frame] {config : Option AeConfig} {e : Engine L} (h : aeEngineCreate L config = some e)
    (calls : List (Call Frame)) : (Machine.run Engine.call e calls).room = 65535 :=
  (fills.room_run calls).trans (congrArg (· - 1) (playbackRing_create h).2)

end AudioPlatform.Core
