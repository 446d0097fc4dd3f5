import AudioPlatform.Core.Calls

/-! What has been captured when a frame is encoded.

The capture ring fills whether or not the engine transmits, and starting to
transmit does not empty it. So what is encoded was captured since the start if the
ring was empty at the start. -/
namespace AudioPlatform.Core
open Concurrency

variable {Frame : Type} {L : Library Frame}

/-! ### One call -/

/-- What is encoded is the oldest frame in the ring of an engine that transmits. -/
theorem encode_process {e : Engine L} {t : Tick} {pcm : List Frame}
    (h : Action.encode pcm ∈ (aeEngineProcess e t).2) :
    e.transmitting = true ∧ pcm = e.captureRing.contents.take aeFrameSize := by
  rcases process_cases e t with ⟨-, hnil⟩ | ⟨-, service, hservice, hacts⟩
  · rw [hnil] at h
    cases h
  · rw [hacts] at h
    rcases List.mem_append.mp h with h | h
    · rcases List.mem_append.mp h with h | h
      · rcases mem_transmit h with ⟨htx, heq⟩ | ⟨_, _, heq⟩
        · cases heq
          exact ⟨htx, rfl⟩
        · cases heq
      · obtain ⟨e', a, -, h⟩ := mem_receiveLoop.mp h
        exact absurd (mem_receive h).1 id
    · exact absurd (hservice _ h) id

/-- A tick takes from the ring only. -/
theorem captureRing_process (e : Engine L) (t : Tick) :
    (aeEngineProcess e t).1.transmitting = e.transmitting ∧
      (aeEngineProcess e t).1.captureRing.contents.Sublist e.captureRing.contents := by
  have hcontrol := control_process e t
  rw [← control_transmitting, ← control_captureRing, hcontrol]
  split
  · have hread : e.encoding.captureRing.contents.Sublist e.captureRing.contents := by
      show (aeRingbufRead e.captureRing aeFrameSize).1.contents.Sublist _
      rw [RingBuffer.contents_read]
      exact List.drop_sublist ..
    rcases transmit_outcomes e with h | ⟨-, h⟩ | ⟨-, _, _, -, h⟩
    · rw [h]
      exact ⟨rfl, .refl _⟩
    · rw [h]
      exact ⟨rfl, hread⟩
    · rw [h]
      exact ⟨rfl, hread⟩
  · exact ⟨rfl, .refl _⟩

/-- The call does not start to transmit, and does not capture or encode. -/
def Call.Quiet : Call Frame → Prop
  | .startTransmit _ | .writeCapture _ | .process _ => False
  | _ => True

theorem Call.Quiet.not_ticks {c : Call Frame} (hc : c.Quiet) : ¬ c.Ticks := by
  cases c with
  | process t => exact absurd hc id
  | _ => exact id

/-- A quiet call leaves the ring alone and may only end a transmission. -/
theorem captureRing_call (e : Engine L) {c : Call Frame} (hc : c.Quiet) :
    (e.call c).1.captureRing = e.captureRing ∧
      ((e.call c).1.transmitting = true → e.transmitting = true) := by
  rw [← control_captureRing, ← control_transmitting, control_call e hc.not_ticks]
  cases c with
  | disconnect => exact ⟨rfl, fun h => Bool.noConfusion h⟩
  | joinChannel channelId =>
    dsimp only [Control.after]
    split
    · split
      · exact ⟨rfl, fun h => Bool.noConfusion h⟩
      · exact ⟨rfl, id⟩
    · exact ⟨rfl, id⟩
  | leaveChannel channelId => exact ⟨rfl, fun h => Bool.noConfusion h⟩
  | leaveAllChannels =>
    dsimp only [Control.after]
    split
    · exact ⟨rfl, fun h => Bool.noConfusion h⟩
    · exact ⟨rfl, id⟩
  | stopTransmit channelId => exact ⟨rfl, fun h => Bool.noConfusion h⟩
  | startTransmit channelId => exact absurd hc id
  | writeCapture samples => exact absurd hc id
  | process t => exact absurd hc id
  | _ => exact ⟨rfl, id⟩

/-! ### A run -/

/-- The samples captured on the air since the last call of `startTransmit` that counts,
a history beside the run. -/
def onAir (counts : Engine L → Bool) (e : Engine L) : Call Frame → List Frame → List Frame
  | .startTransmit _, since => if counts e then [] else since
  | .writeCapture samples, since => if e.transmitting then since ++ samples else since
  | _, since => since

/-- A call of `startTransmit` that counts finds the capture ring empty. -/
def EmptyAt (counts : Engine L → Bool) (e : Engine L) : Call Frame → Prop
  | .startTransmit _ => counts e → e.captureRing.contents = []
  | _ => True

/-- While the engine transmits, the ring holds what was captured on the air. -/
def Confined (e : Engine L) (since : List Frame) : Prop :=
  e.transmitting → e.captureRing.contents.Sublist since

theorem confined_call {counts : Engine L → Bool}
    (hcounts : ∀ e, e.channel.active = true → e.transmitting = false → counts e = true)
    (e : Engine L) (since : List Frame) (c : Call Frame) (h : Confined e since)
    (hempty : EmptyAt counts e c) : Confined (e.call c).1 (onAir counts e c since) := by
  have hquiet : c.Quiet → Confined (e.call c).1 since := by
    intro hc htx
    obtain ⟨hring, hstill⟩ := captureRing_call e hc
    rw [hring]
    exact h (hstill htx)
  cases c with
  | startTransmit channelId =>
    intro htx
    have hcontrol := control_call e (c := .startTransmit channelId) id
    have hring : (e.call (.startTransmit channelId)).1.captureRing = e.captureRing := by
      rw [← control_captureRing, hcontrol]
      dsimp only [Control.after]
      split <;> rfl
    show (e.call (.startTransmit channelId)).1.captureRing.contents.Sublist
      (if counts e then [] else since)
    by_cases hcount : counts e = true
    · rw [if_pos hcount, hring, hempty hcount]
    · rw [if_neg hcount, hring]
      apply h
      rw [← control_transmitting, hcontrol] at htx
      dsimp only [Control.after] at htx
      by_cases hact : e.control.channel.active = true
      · have hon : e.transmitting ≠ false := fun hoff => hcount (hcounts e hact hoff)
        simpa using hon
      · rw [if_neg hact] at htx
        exact htx
  | writeCapture samples =>
    intro htx
    have hcontrol := control_writeCapture e samples
    have hon : e.transmitting = true := (congrArg Control.transmitting hcontrol).symm.trans htx
    have hring : (aeEngineWriteCapture e samples).1.captureRing =
        (aeRingbufWrite e.captureRing samples).1 := congrArg Control.captureRing hcontrol
    show (aeEngineWriteCapture e samples).1.captureRing.contents.Sublist
      (if e.transmitting then since ++ samples else since)
    rw [if_pos hon, hring, RingBuffer.contents_write]
    exact (h hon).append (List.take_sublist ..)
  | process t =>
    obtain ⟨htx, hring⟩ := captureRing_process e t
    intro hon
    exact hring.trans (h (htx ▸ hon))
  | _ => exact hquiet trivial

/-- Every successful start counts. -/
def everyStart (e : Engine L) : Bool := e.channel.active

/-- Only the starts that raise the flag count. -/
def firstStart (e : Engine L) : Bool := e.channel.active && !e.transmitting

theorem sublist_onAir {counts : Engine L → Bool}
    (hcounts : ∀ e, e.channel.active = true → e.transmitting = false → counts e = true)
    {e : Engine L} (hoff : e.transmitting = false) {calls : List (Call Frame)}
    (hempty : Machine.Along Engine.call (EmptyAt counts) e calls) {t : Tick} {pcm : List Frame}
    (h : Action.encode pcm ∈ (aeEngineProcess (Machine.run Engine.call e calls) t).2) :
    pcm.Sublist (Machine.history Engine.call (onAir counts) e [] calls) := by
  have hconfined : Confined (Machine.run Engine.call e calls)
      (Machine.history Engine.call (onAir counts) e [] calls) :=
    Machine.history_induction (P := Confined) (confined_call hcounts)
      (fun htx => absurd htx (by simp [hoff])) hempty
  obtain ⟨hon, rfl⟩ := encode_process h
  exact (List.take_sublist ..).trans (hconfined hon)

/-- **Confinement to the talk.** In a run in which every successful start finds the capture
ring empty, a frame that is encoded consists of samples captured on the air since the most
recent start, in order; and of samples captured on the air since the flag went up, if
the starts that raise it find the ring empty. -/
theorem encoded_on_air [Zero Frame] {config : Option AeConfig} {e : Engine L}
    (hnew : aeEngineCreate L config = some e) (calls : List (Call Frame)) (t : Tick)
    {pcm : List Frame}
    (h : Action.encode pcm ∈ (aeEngineProcess (Machine.run Engine.call e calls) t).2) :
    (Machine.Along Engine.call (EmptyAt everyStart) e calls →
      pcm.Sublist (Machine.history Engine.call (onAir everyStart) e [] calls)) ∧
    (Machine.Along Engine.call (EmptyAt firstStart) e calls →
      pcm.Sublist (Machine.history Engine.call (onAir firstStart) e [] calls)) := by
  have hoff := (fresh_create hnew).transmitting
  constructor
  · intro hempty
    exact sublist_onAir (fun _ hact _ => hact) hoff hempty h
  · intro hempty
    exact sublist_onAir (fun _ hact htx => by simp [firstStart, hact, htx]) hoff hempty h

/-! ### A frame of silence -/

theorem encode_speaker : Action.encode silence ∈ (aeEngineProcess (speaker 7 silence) ⟨[], 0, 0⟩).2 := by
  obtain ⟨packet, -, hsent⟩ := transmit_speaker 7 length_silence
  rcases process_cases (speaker 7 silence) ⟨[], 0, 0⟩ with ⟨hoff, -⟩ | ⟨-, service, -, h⟩
  · cases hoff
  · rw [h, hsent]
    exact List.mem_append_left _ (List.mem_append_left _ (List.mem_cons_self ..))

/-- The frames are captured after the start. -/
def speaks (frames : List (ℚ × ℚ)) : List (Call (ℚ × ℚ)) :=
  tuneIn ++ [.startTransmit channelOne, .writeCapture frames]

/-- The frames are captured before the start. -/
def overheard (frames : List (ℚ × ℚ)) : List (Call (ℚ × ℚ)) :=
  tuneIn ++ [.writeCapture frames, .startTransmit channelOne]

theorem run_speaks {frames : List (ℚ × ℚ)} (hne : frames ≠ []) :
    Machine.run Engine.call newEngine (speaks frames) = speaker 7 frames := by
  show (aeEngineWriteCapture (aeEngineStartTransmit (listener 7) channelOne).1 frames).1 = _
  rw [writeCapture_eq _ hne]
  rfl

theorem run_overheard {frames : List (ℚ × ℚ)} (hne : frames ≠ []) :
    Machine.run Engine.call newEngine (overheard frames) = speaker 7 frames := by
  show (aeEngineStartTransmit (aeEngineWriteCapture (listener 7) frames).1 channelOne).1 = _
  rw [writeCapture_eq _ hne]
  rfl

theorem silence_ne_nil : silence ≠ [] := List.length_pos_iff.mp (by rw [length_silence]; decide)

theorem emptyAt_speaks (counts : Engine toneLibrary → Bool) (frames : List (ℚ × ℚ)) :
    Machine.Along Engine.call (EmptyAt counts) newEngine (speaks frames) :=
  ⟨trivial, trivial, trivial, fun _ => rfl, trivial, trivial⟩

/-- A frame captured after the start is encoded. -/
theorem encoded_on_air_speaks :
    silence.Sublist (Machine.history Engine.call (onAir everyStart) newEngine [] (speaks silence)) ∧
      silence.Sublist
        (Machine.history Engine.call (onAir firstStart) newEngine [] (speaks silence)) := by
  have hencode : Action.encode silence ∈
      (aeEngineProcess (Machine.run Engine.call newEngine (speaks silence)) ⟨[], 0, 0⟩).2 := by
    rw [run_speaks silence_ne_nil]
    exact encode_speaker
  have h := encoded_on_air create_newEngine (speaks silence) ⟨[], 0, 0⟩ hencode
  exact ⟨h.1 (emptyAt_speaks ..), h.2 (emptyAt_speaks ..)⟩

theorem onAir_overheard (counts : Engine toneLibrary → Bool) (frames : List (ℚ × ℚ)) :
    Machine.history Engine.call (onAir counts) newEngine [] (overheard frames) = [] := by
  show (if counts (aeEngineWriteCapture (listener 7) frames).1 then [] else []) = []
  exact ite_self []

/-- A frame captured before the start is encoded. -/
theorem encoded_before_start : ∃ pcm,
    Action.encode pcm ∈
        (aeEngineProcess (Machine.run Engine.call newEngine (overheard silence)) ⟨[], 0, 0⟩).2 ∧
      ∃ sample ∈ pcm,
        sample ∉ Machine.history Engine.call (onAir everyStart) newEngine [] (overheard silence) ∧
        sample ∉ Machine.history Engine.call (onAir firstStart) newEngine [] (overheard silence) := by
  refine ⟨silence, ?_, (0, 0), List.mem_replicate.mpr ⟨by decide, rfl⟩, ?_⟩
  · rw [run_overheard silence_ne_nil]
    exact encode_speaker
  · rw [onAir_overheard, onAir_overheard]
    exact ⟨List.not_mem_nil, List.not_mem_nil⟩

end AudioPlatform.Core
