import AudioPlatform.Core.Backlog

/-! The audio thread of the Windows client.

A turn of the loop hands what was captured to the engine, ticks once, fills what buffers the render device
grants, and sleeps for 5 ms. The engine mixes 20 ms in every tick. -/
namespace AudioPlatform.Windows
open AudioPlatform.Core Concurrency Reservoir

variable {Frame : Type} {L : Library Frame}

/-- A packet of the capture device; a silent one holds no samples that count. -/
structure CapturePacket (Frame : Type) where
  data : List Frame
  silent : Bool

/-- What a turn of the loop meets. -/
structure Turn (Frame : Type) where
  packets : List (CapturePacket Frame)
  tick : Tick
  framesAvailable : Nat
  granted : Nat → Bool

/-- Silence is written in chunks of a frame. -/
def writeSilence [Zero Frame] (remaining : Nat) : List (Call Frame) :=
  if 0 < remaining then
    let chunk := if remaining < aeFrameSize then remaining else aeFrameSize
    .writeCapture (List.replicate chunk 0) :: writeSilence (remaining - chunk)
  else []
termination_by remaining
decreasing_by
  unfold aeFrameSize
  split <;> omega

def CapturePacket.calls [Zero Frame] (packet : CapturePacket Frame) : List (Call Frame) :=
  if packet.silent then writeSilence packet.data.length else [.writeCapture packet.data]

/-- The buffers that are filled, from the `k`th on. -/
def render (granted : Nat → Bool) (k framesAvailable : Nat) : List (Call Frame) :=
  if aeFrameSize ≤ framesAvailable then
    if granted k then .readPlayback aeFrameSize :: render granted (k + 1) (framesAvailable - aeFrameSize)
    else []
  else []
termination_by framesAvailable
decreasing_by
  unfold aeFrameSize at *
  omega

def Turn.rendered (t : Turn Frame) : List (Call Frame) := render t.granted 0 t.framesAvailable

/-- The calls of a turn of `audioLoop`. -/
def Turn.calls [Zero Frame] (t : Turn Frame) : List (Call Frame) :=
  t.packets.flatMap CapturePacket.calls ++ .process t.tick :: t.rendered

/-! ### What a turn mixes and asks for -/

/-- The call neither ticks nor reads. -/
def Captures (c : Call Frame) : Prop := c.mixes = 0 ∧ c.asked = 0

theorem captures_writeSilence [Zero Frame] (remaining : Nat) :
    ∀ c ∈ (writeSilence remaining : List (Call Frame)), Captures c := by
  fun_induction @writeSilence Frame _ remaining with
  | case1 remaining h chunk ih =>
    intro c hc
    rcases List.mem_cons.mp hc with rfl | hc
    · exact ⟨rfl, rfl⟩
    · exact ih c hc
  | case2 => exact fun c hc => absurd hc List.not_mem_nil

theorem captures_packets [Zero Frame] (packets : List (CapturePacket Frame)) :
    ∀ c ∈ packets.flatMap CapturePacket.calls, Captures c := by
  intro c hc
  obtain ⟨packet, -, hc⟩ := List.mem_flatMap.mp hc
  unfold CapturePacket.calls at hc
  split at hc
  · exact captures_writeSilence _ c hc
  · obtain rfl := List.mem_singleton.mp hc
    exact ⟨rfl, rfl⟩

theorem sum_captures {f : Call Frame → Nat} {calls : List (Call Frame)} (h : ∀ c ∈ calls, f c = 0) :
    (calls.map f).sum = 0 :=
  List.sum_eq_zero_iff_forall_eq_nat.mpr fun n hn => by
    obtain ⟨c, hc, rfl⟩ := List.mem_map.mp hn
    exact h c hc

theorem sum_render {granted : Nat → Bool} {k framesAvailable : Nat} :
    ((render granted k framesAvailable : List (Call Frame)).map Call.mixes).sum = 0 ∧
    ((render granted k framesAvailable : List (Call Frame)).map Call.asked).sum =
      aeFrameSize * (render granted k framesAvailable : List (Call Frame)).length := by
  fun_induction @render Frame granted k framesAvailable with
  | case1 k framesAvailable _ _ ih =>
    rw [List.map_cons, List.sum_cons, ih.1, List.map_cons, List.sum_cons, ih.2, List.length_cons, Nat.mul_succ]
    exact ⟨rfl, Nat.add_comm ..⟩
  | case2 => exact ⟨rfl, rfl⟩
  | case3 => exact ⟨rfl, rfl⟩

theorem sum_turn [Zero Frame] (t : Turn Frame) : (t.calls.map Call.mixes).sum = aeFrameSize ∧
    (t.calls.map Call.asked).sum = aeFrameSize * t.rendered.length := by
  have hcaptured := captures_packets t.packets
  obtain ⟨hmixes, hasked⟩ : ((t.rendered).map Call.mixes).sum = 0 ∧
      ((t.rendered).map Call.asked).sum = aeFrameSize * t.rendered.length := sum_render
  unfold Turn.calls
  rw [List.map_append, List.sum_append, List.map_cons, List.sum_cons, hmixes,
    sum_captures fun c hc => (hcaptured c hc).1, List.map_append, List.sum_append, List.map_cons, List.sum_cons, hasked,
    sum_captures fun c hc => (hcaptured c hc).2]
  exact ⟨rfl, (Nat.zero_add _).trans (Nat.zero_add _)⟩

theorem sum_turns [Zero Frame] (turns : List (Turn Frame)) :
    ((turns.flatMap Turn.calls).map Call.mixes).sum = aeFrameSize * turns.length ∧
    ((turns.flatMap Turn.calls).map Call.asked).sum = aeFrameSize * (turns.map fun t => t.rendered.length).sum := by
  induction turns with
  | nil => exact ⟨rfl, rfl⟩
  | cons t rest ih =>
    obtain ⟨hmixes, hasked⟩ := sum_turn t
    rw [List.flatMap_cons, List.map_append, List.sum_append, hmixes, ih.1, List.map_append,
      List.sum_append, hasked, ih.2,
      List.length_cons, Nat.mul_succ, List.map_cons, List.sum_cons, Nat.mul_add]
    exact ⟨Nat.add_comm .., rfl⟩

/-! ### Falling behind -/

/-- **The loop falls behind.** While the client is in a channel, whatever the main thread calls in between:
what waited and what the turns have mixed is at the end still waiting, or the device has taken it, or it is
lost. The ring holds 65535 samples, and only a tick that leaves it full loses any. -/
theorem audioLoop_backlog [Zero Frame] {config : Option AeConfig} {e : Engine L}
    (hnew : aeEngineCreate L config = some e) (earlier : List (Call Frame)) {calls : List (Call Frame)}
    {turns : List (Turn Frame)} (hthread : calls.filter Call.ofAudio = turns.flatMap Turn.calls)
    (hlisten : Machine.Along Engine.call Listening (Machine.run Engine.call e earlier) calls) :
    (Machine.run Engine.call e earlier).waiting + 960 * turns.length ≤
      (Machine.run Engine.call e (earlier ++ calls)).waiting + 960 * (turns.map fun t => t.rendered.length).sum +
        (Machine.collect Engine.call Engine.lost (Machine.run Engine.call e earlier) calls).length ∧
    (Machine.run Engine.call e (earlier ++ calls)).waiting ≤ 65535 ∧
    ∀ done c rest, calls = done ++ c :: rest → (Machine.run Engine.call e (earlier ++ done)).lost c ≠ [] →
      (Machine.run Engine.call e (earlier ++ (done ++ [c]))).waiting = 65535 := by
  have hfull := waiting_le (Machine.run Engine.call e (earlier ++ calls))
  have htaken : total Engine.call Engine.takes (Machine.run Engine.call e earlier) calls ≤ _ := total_takes_le
  have hbalance := waiting_balance hlisten
  rw [room_run hnew] at hfull
  rw [hthread, (sum_turns turns).2] at htaken
  rw [hthread, (sum_turns turns).1, ← Machine.run_append] at hbalance
  have hsize : aeFrameSize = 960 := rfl
  rw [hsize] at hbalance htaken
  refine ⟨by omega, hfull, fun done c rest _ hlost => ?_⟩
  have hend : Machine.run Engine.call e (earlier ++ (done ++ [c])) =
      ((Machine.run Engine.call e (earlier ++ done)).call c).1 := by
    rw [← List.append_assoc, Machine.run_append]
    rfl
  rw [hend, full_of_lost hlost, room_run hnew]

/-- A turn that has captured nothing, and fills a buffer if the device has room for one. -/
def quietTurn (framesAvailable : Nat) : Turn (ℚ × ℚ) := ⟨[], ⟨[], 0, 0⟩, framesAvailable, fun _ => true⟩

theorem rendered_quietTurn : (quietTurn 500).rendered = [] ∧ (quietTurn 1000).rendered = [.readPlayback 960] := by
  constructor
  · show render (fun _ => true) 0 500 = _
    rw [render, if_neg (by decide)]
  · show render (fun _ => true) 0 1000 = _
    rw [render, if_pos (by decide), if_pos rfl, render, if_neg (by decide)]
    rfl

/-- Two turns after joining, while the volume is changed; the device has room for one buffer. -/
def twoTurns : List (Call (ℚ × ℚ)) :=
  [.process ⟨[], 0, 0⟩, .setMasterVolume 1, .process ⟨[], 0, 0⟩, .readPlayback 960]

set_option maxRecDepth 4000 in
/-- A frame is left over. -/
theorem audioLoop_backlog_turns :
    960 ≤ (Machine.run Engine.call newEngine (tuneIn ++ twoTurns)).waiting := by
  have hthread : twoTurns.filter Call.ofAudio = [quietTurn 500, quietTurn 1000].flatMap Turn.calls := by
    rw [List.flatMap_cons, List.flatMap_cons, Turn.calls, Turn.calls, rendered_quietTurn.1, rendered_quietTurn.2]
    rfl
  have hsum : ([quietTurn 500, quietTurn 1000].map fun t => t.rendered.length).sum = 1 := by
    rw [List.map_cons, List.map_singleton, rendered_quietTurn.1, rendered_quietTurn.2]
    rfl
  have hlost : (Machine.collect Engine.call Engine.lost (Machine.run Engine.call newEngine tuneIn) twoTurns).length =
      0 := by decide +kernel
  have hnext : ∀ e : Engine toneLibrary,
      ((e.call (.process ⟨[], 0, 0⟩)).1.call (.setMasterVolume 1)).1.connected = e.connected ∧
        ((e.call (.process ⟨[], 0, 0⟩)).1.call (.setMasterVolume 1)).1.channel = e.channel :=
    fun e => channel_process e ⟨[], 0, 0⟩
  have hlisten : Machine.Along Engine.call Listening (Machine.run Engine.call newEngine tuneIn) twoTurns := by
    refine ⟨fun _ => ⟨rfl, rfl⟩, nofun, fun _ => ?_, nofun, trivial⟩
    rw [(hnext _).1, (hnext _).2]
    exact ⟨rfl, rfl⟩
  have hbalance := (audioLoop_backlog create_newEngine tuneIn hthread hlisten).1
  rw [hsum, hlost, List.length_cons, List.length_singleton] at hbalance
  omega

end AudioPlatform.Windows
