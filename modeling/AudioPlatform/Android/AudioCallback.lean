import AudioPlatform.Core.Backlog

/-! The audio callback of the Android client.

The output stream asks for its samples, a frame at a time: the callback hands over what was captured, ticks
once and reads. So it reads all that it mixes, and nothing is left over. -/
namespace AudioPlatform.Android
open AudioPlatform.Core Concurrency Reservoir

variable {Frame : Type} {L : Library Frame}

/-- What a callback meets; the input stream is read without waiting, and may have nothing. -/
structure Callback (Frame : Type) where
  numFrames : Nat
  captured : List Frame
  fits : captured.length ≤ numFrames
  tick : Tick

/-- The calls of `onAudioReady` for the output stream. -/
def Callback.calls (cb : Callback Frame) : List (Call Frame) :=
  (if 0 < cb.captured.length then [.writeCapture cb.captured] else []) ++
    [.process cb.tick, .readPlayback cb.numFrames]

/-! ### The level of the ring -/

section Level
variable {room : Nat}

theorem after_tick (t : Tick) (w : Nat) :
    after room (Call.mixes : Call Frame → Nat) Call.asked w (.process t) = min room (w + aeFrameSize) := rfl

theorem foldl_capture (cb : Callback Frame) {w : Nat} (hw : w ≤ room) :
    (if 0 < cb.captured.length then [Call.writeCapture cb.captured] else []).foldl
      (after room Call.mixes Call.asked) w = w := by
  split
  · exact Nat.min_eq_right hw
  · rfl

/-- A callback leaves the level as it found it. -/
theorem foldl_callback {cb : Callback Frame} (hframes : cb.numFrames = aeFrameSize) {w : Nat}
    (hw : w + aeFrameSize ≤ room) : cb.calls.foldl (after room Call.mixes Call.asked) w = w := by
  unfold Callback.calls
  rw [List.foldl_append, foldl_capture cb (by omega), List.foldl_cons, List.foldl_cons, after_tick, List.foldl_nil,
    hframes]
  show min room (min room (w + aeFrameSize) + 0) - aeFrameSize = w
  omega

theorem foldl_callbacks {callbacks : List (Callback Frame)} (hframes : ∀ cb ∈ callbacks, cb.numFrames = aeFrameSize)
    {w : Nat} (hw : w + aeFrameSize ≤ room) :
    (callbacks.flatMap Callback.calls).foldl (after room Call.mixes Call.asked) w = w := by
  induction callbacks with
  | nil => rfl
  | cons cb rest ih =>
    rw [List.flatMap_cons, List.foldl_append, foldl_callback (hframes cb (List.mem_cons_self ..)) hw]
    exact ih fun cb' h => hframes cb' (List.mem_cons_of_mem cb h)

/-- Before its tick a callback has only handed over what was captured. -/
theorem foldl_before_tick {cb : Callback Frame} {w : Nat} (hw : w ≤ room) {done rest : List (Call Frame)} {t : Tick}
    (h : cb.calls = done ++ .process t :: rest) : done.foldl (after room Call.mixes Call.asked) w = w := by
  have hcapture := foldl_capture cb hw
  unfold Callback.calls at h
  split at h
  · rename_i hcaptured
    rw [if_pos hcaptured] at hcapture
    match done, h with
    | [], h => cases h
    | [_], h =>
      obtain ⟨rfl, -⟩ := List.cons.inj h
      exact hcapture
    | [_, _], h => cases h
    | _ :: _ :: _ :: done, h => exact absurd (congrArg List.length h) (by simp)
  · match done, h with
    | [], _ => rfl
    | [_], h => cases h
    | _ :: _ :: done, h => exact absurd (congrArg List.length h) (by simp)

/-- Whenever a callback ticks, the level is that of the beginning. -/
theorem level_before_tick {callbacks : List (Callback Frame)} (hframes : ∀ cb ∈ callbacks, cb.numFrames = aeFrameSize)
    {w : Nat} (hw : w + aeFrameSize ≤ room) {done rest : List (Call Frame)} {t : Tick}
    (h : callbacks.flatMap Callback.calls = done ++ .process t :: rest) :
    done.foldl (after room Call.mixes Call.asked) w = w := by
  induction callbacks generalizing done with
  | nil => exact absurd h (by simp)
  | cons cb others ih =>
    have hcb := foldl_callback (hframes cb (List.mem_cons_self ..)) hw
    have hothers := fun cb' h => hframes cb' (List.mem_cons_of_mem cb h)
    rw [List.flatMap_cons] at h
    rcases List.append_eq_append_iff.mp h with ⟨later, rfl, hlater⟩ | ⟨left, hleft, hrest⟩
    · rw [List.foldl_append, hcb]
      exact ih hothers hlater
    · cases left with
      | nil =>
        rw [List.append_nil] at hleft
        rwa [hleft] at hcb
      | cons c left =>
        obtain ⟨rfl, -⟩ := List.cons.inj hrest
        exact foldl_before_tick (by omega) hleft

end Level

/-! ### Keeping up -/

section Run
variable {e : Engine L} {calls : List (Call Frame)} {callbacks : List (Callback Frame)}

/-- What the audio thread calls is a frame's worth of reads. -/
theorem frame_of_read (hthread : calls.filter Call.ofAudio = callbacks.flatMap Callback.calls)
    (hframes : ∀ cb ∈ callbacks, cb.numFrames = aeFrameSize) {n : Nat} (hn : .readPlayback n ∈ calls) :
    n = aeFrameSize := by
  have hmem : Call.readPlayback n ∈ callbacks.flatMap Callback.calls := by
    rw [← hthread]
    exact List.mem_filter.mpr ⟨hn, rfl⟩
  obtain ⟨cb, hcb, hread⟩ := List.mem_flatMap.mp hmem
  unfold Callback.calls at hread
  rcases List.mem_append.mp hread with hread | hread
  · split at hread
    · cases List.mem_singleton.mp hread
    · exact absurd hread List.not_mem_nil
  · rcases List.mem_cons.mp hread with hread | hread
    · cases hread
    · cases List.mem_singleton.mp hread
      exact hframes cb hcb

/-- A tick in a channel leaves a frame in the ring. -/
theorem frame_after_tick (hroom : e.room = 65535) {t : Tick} (hon : e.connected = true)
    (hchannel : e.channel.active = true) : aeFrameSize ≤ (e.call (.process t)).1.waiting := by
  have hmixed : (e.offered (.process t)).length = aeFrameSize := length_offered_listening fun _ => ⟨hon, hchannel⟩
  rw [waiting_call, hmixed, hroom]
  show aeFrameSize ≤ min 65535 (e.waiting + aeFrameSize) - 0
  unfold aeFrameSize
  omega

/-- Where a tick finds an empty ring, nothing is lost. -/
theorem lost_eq_nil (hroom : e.room = 65535) {c : Call Frame} (hempty : c.tick.isSome = true → e.waiting = 0) :
    e.lost c = [] := by
  by_contra hlost
  have hfull := full_of_lost hlost
  rw [waiting_call, hroom] at hfull
  have hmost := length_offered_le e c
  cases c with
  | process t =>
    rw [hempty rfl] at hfull
    change (e.offered (.process t)).length ≤ 960 at hmost
    omega
  | _ => exact hlost List.drop_nil

/-- **The callback keeps up.** In every run of a new engine whose audio thread makes whole callbacks of a
frame each, whatever the main thread calls in between: no sample that is mixed is lost, after the callbacks
none waits, and a callback whose tick finds the engine connected and in a channel reads a whole frame of
what was mixed. -/
theorem onAudioReady_keeps_up [Zero Frame] {config : Option AeConfig} (hnew : aeEngineCreate L config = some e)
    (hthread : calls.filter Call.ofAudio = callbacks.flatMap Callback.calls)
    (hframes : ∀ cb ∈ callbacks, cb.numFrames = aeFrameSize) :
    (∀ before t between n rest, calls = before ++ .process t :: (between ++ .readPlayback n :: rest) →
      (∀ c ∈ between, c.ofAudio = false) → (Machine.run Engine.call e before).connected = true →
      (Machine.run Engine.call e before).channel.active = true →
      (aeRingbufRead (Machine.run Engine.call e (before ++ .process t :: between)).playbackRing n).2.length = n) ∧
    (Machine.run Engine.call e calls).waiting = 0 ∧ Machine.collect Engine.call Engine.lost e calls = [] := by
  have hstart : e.waiting = 0 := by
    unfold Engine.waiting
    rw [← RingBuffer.length_contents, (playbackRing_create hnew).1]
    rfl
  have hsize : ∀ done, (Machine.run Engine.call e done).room = 65535 := room_run hnew
  have hwhole : e.room = 65535 := hsize []
  have hroom : 0 + aeFrameSize ≤ e.room := by
    rw [hwhole]
    decide
  refine ⟨?reads, ?waits, ?loses⟩
  case reads =>
    rintro before t between n rest rfl hmain hon hchannel
    have hn := frame_of_read hthread hframes (n := n) (by simp)
    have hframe := frame_after_tick (hsize before) (t := t) hon hchannel
    rw [Machine.run_append, RingBuffer.read_snd, List.length_take, RingBuffer.length_contents]
    refine Nat.min_eq_left ?_
    show n ≤ (Machine.run Engine.call ((Machine.run Engine.call e before).call (.process t)).1 between).waiting
    rw [waiting_main hmain, hn]
    exact hframe
  case waits =>
    have hle := waiting_run_le e calls hstart.le (Nat.zero_le _)
    rw [hthread, foldl_callbacks hframes hroom] at hle
    exact Nat.le_zero.mp hle
  case loses =>
    refine Machine.collect_eq_nil (Machine.along_of_split ?_)
    rintro done c rest rfl
    refine lost_eq_nil (hsize done) fun htick => ?_
    cases c with
    | process t =>
      have hle := waiting_run_le e done hstart.le (Nat.zero_le _)
      rw [List.filter_append, List.filter_cons_of_pos rfl] at hthread
      rw [level_before_tick hframes hroom hthread.symm] at hle
      exact Nat.le_zero.mp hle
    | _ => cases htick

end Run

/-- A callback with nothing captured. -/
def quietCallback : Callback (ℚ × ℚ) := ⟨960, [], by decide, ⟨[], 0, 0⟩⟩

/-- The client has joined, and the output stream has called back. -/
def calledBack : List (Call (ℚ × ℚ)) := tuneIn ++ [.process ⟨[], 0, 0⟩, .readPlayback 960]

theorem listening_calledBack : (Machine.run Engine.call newEngine calledBack).connected = true ∧
    (Machine.run Engine.call newEngine calledBack).channel.active = true := by
  have hcallback : ∀ e : Engine toneLibrary,
      (Machine.run Engine.call e [.process ⟨[], 0, 0⟩, .readPlayback 960]).connected = e.connected ∧
        (Machine.run Engine.call e [.process ⟨[], 0, 0⟩, .readPlayback 960]).channel = e.channel :=
    fun e => channel_process e ⟨[], 0, 0⟩
  rw [calledBack, Machine.run_append, (hcallback _).1, (hcallback _).2]
  exact ⟨rfl, rfl⟩

/-- It calls back again, and the volume is changed meanwhile. -/
theorem onAudioReady_keeps_up_callbacks : (aeRingbufRead (Machine.run Engine.call newEngine
    (calledBack ++ [.process ⟨[], 0, 0⟩, .setMasterVolume 1])).playbackRing 960).2.length = 960 := by
  have hthread : (calledBack ++ [Call.process ⟨[], 0, 0⟩, .setMasterVolume 1, .readPlayback 960]).filter Call.ofAudio =
      [quietCallback, quietCallback].flatMap Callback.calls := rfl
  have hframes : ∀ cb ∈ [quietCallback, quietCallback], cb.numFrames = aeFrameSize := by
    intro cb h
    simp only [List.mem_cons, List.not_mem_nil, or_false, or_self] at h
    rw [h]
    rfl
  obtain ⟨hon, hchannel⟩ := listening_calledBack
  exact (onAudioReady_keeps_up create_newEngine hthread hframes).1 calledBack ⟨[], 0, 0⟩ [.setMasterVolume 1] 960 []
    rfl (by simp [Call.ofAudio]) hon hchannel

end AudioPlatform.Android
