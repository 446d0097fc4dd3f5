import AudioPlatform.Core.Isolation
import AudioPlatform.Core.Steps

/-! Out of a channel nobody is heard.

Leaving a channel destroys the streams that were received in it, and so does switching to
another one. A disconnect also ends the channel, but leaves its streams to their timeouts. -/
namespace AudioPlatform.Core
open Concurrency

variable {Frame : Type} {L : Library Frame}

/-- In no channel nothing is sent, and nobody has a stream. -/
def Vacated (e : Engine L) : Prop :=
  e.channel.active = false → e.transmitting = false ∧ ∀ i, (e.streams i).active = false

/-- What was heard in a channel is not heard after it: a tick in no channel plays nothing,
and a channel is entered with no stream. -/
def Forgets (e : Engine L) (c : Call Frame) : Prop :=
  (∀ t, c = .process t → e.channel.active = false → (e.call c).1.playbackRing = e.playbackRing) ∧
  ∀ channelId, c = .joinChannel channelId → e.connected = true →
    ∀ i, ((e.call c).1.streams i).active = false

/-- A disconnect comes when no stream is active. -/
def HangsUpAlone (e : Engine L) : Call Frame → Prop
  | .disconnect => ∀ i, (e.streams i).active = false
  | _ => True

/-! ### Commands -/

theorem vacated_command {e : Engine L} {c : Call Frame} (hc : c.tick = none) (h : Vacated e)
    (halone : HangsUpAlone e c) : Vacated (e.call c).1 := by
  have hcontrol := control_call e (Call.not_ticks hc)
  cases c with
  | connect outcome now =>
    intro hoff
    rw [← control_channel, hcontrol] at hoff
    obtain ⟨htx, hstreams⟩ := h hoff
    refine ⟨?_, ?_⟩
    · rw [← control_transmitting, hcontrol]
      exact htx
    · rcases streams_command e hc with hsame | hnone
      · rwa [hsame]
      · exact hnone
  | disconnect => exact fun _ => ⟨rfl, halone⟩
  | joinChannel channelId =>
    intro hoff
    by_cases hon : e.connected = true
    · rw [← control_channel, hcontrol] at hoff
      dsimp only [Control.after] at hoff
      rw [if_pos (show e.control.connected = true from hon)] at hoff
      cases hoff
    · have hsame : (e.call (.joinChannel channelId)).1 = e := by
        show (aeEngineJoinChannel e channelId).1 = e
        unfold aeEngineJoinChannel
        rw [if_pos (by simpa using hon)]
      rw [hsame] at hoff ⊢
      exact h hoff
  | leaveChannel channelId =>
    refine fun _ => ⟨?_, fun i => inactive_leaveChannel e channelId i⟩
    rw [← control_transmitting, hcontrol]
    rfl
  | leaveAllChannels =>
    show Vacated (aeEngineLeaveAllChannels e)
    unfold aeEngineLeaveAllChannels
    split
    · refine fun _ => ⟨?_, fun i => inactive_leaveChannel e _ i⟩
      rw [← control_transmitting, control_leaveChannel]
      rfl
    · exact h
  | startTransmit channelId =>
    show Vacated (aeEngineStartTransmit e channelId).1
    unfold aeEngineStartTransmit
    cases hact : e.channel.active with
    | false => exact h
    | true => exact fun hoff => absurd (hact.symm.trans hoff) (by decide)
  | writeCapture samples =>
    show Vacated (aeEngineWriteCapture e samples).1
    unfold aeEngineWriteCapture
    split
    · exact h
    · exact h
  | stopTransmit channelId => exact fun hoff => ⟨rfl, (h hoff).2⟩
  | process t => cases hc
  | _ => exact h

/-! ### Ticks -/

/-- In no channel a datagram finds no stream, and opens none. -/
theorem sameTable_receive {e : Engine L} (hoff : e.channel.active = false) (a : Arrival) :
    SameTable e (receive e a).1 := by
  rcases receive_outcomes e a with (h | h) | ⟨hdr, -, -, -, h⟩ | ⟨hdr, data, e', i, hacc, -⟩
  · rw [h]
    exact sameTable_holding e a
  · rw [h]
    exact (sameTable_holding e a).trans (sameTable_handlePong _ _)
  · rw [h]
    rcases dropping_cases (e.holding a) a hdr with ⟨hdrop, -⟩ | ⟨-, hact, -⟩
    · rw [hdrop]
      exact sameTable_holding e a
    · exact absurd (hoff.symm.trans hact) (by decide)
  · exact absurd (hoff.symm.trans hacc.active) (by decide)

/-- A step that is no command stays in its channel, and on or off the air. -/
theorem channel_step (e : Engine L) {s : EngineStep Frame} (hs : ∀ c hc, s ≠ .command c hc) :
    (e.step s).1.control.channel = e.control.channel ∧
      (e.step s).1.control.transmitting = e.control.transmitting := by
  cases s with
  | command c hc => exact absurd rfl (hs c hc)
  | capture =>
    show (transmit e).1.control.channel = _ ∧ (transmit e).1.control.transmitting = _
    rcases transmit_outcomes e with h | ⟨-, h⟩ | ⟨-, _, _, -, h⟩
    · rw [h]
      exact ⟨rfl, rfl⟩
    · rw [h]
      exact ⟨rfl, rfl⟩
    · rw [h]
      exact ⟨rfl, rfl⟩
  | arrive a =>
    show (receive e a).1.control.channel = _ ∧ (receive e a).1.control.transmitting = _
    rw [control_receive]
    exact ⟨rfl, rfl⟩
  | keepalive now =>
    show (keepalive e now).1.control.channel = _ ∧ (keepalive e now).1.control.transmitting = _
    rw [control_keepalive]
    exact ⟨rfl, rfl⟩
  | ping now =>
    show (ping e now).1.control.channel = _ ∧ (ping e now).1.control.transmitting = _
    rw [control_ping]
    exact ⟨rfl, rfl⟩
  | mix isConnected nowMix =>
    rw [step_mix, control_mix]
    exact ⟨rfl, rfl⟩

/-- In no channel no step but a command makes a stream active. -/
theorem inactive_step {e : Engine L} {s : EngineStep Frame} (hs : ∀ c hc, s ≠ .command c hc)
    (hoff : e.channel.active = false) {i : StreamIndex} (h : (e.streams i).active = false) :
    ((e.step s).1.streams i).active = false := by
  have hsame : ∀ e' : Engine L, SameTable e e' → (e'.streams i).active = false := by
    intro e' htable
    rw [htable.streams]
    exact h
  cases s with
  | command c hc => exact absurd rfl (hs c hc)
  | capture => exact hsame _ (sameTable_transmit e)
  | arrive a => exact hsame _ (sameTable_receive hoff a)
  | keepalive now => exact hsame _ (sameTable_keepalive e now)
  | ping now => exact hsame _ (sameTable_ping e now)
  | mix isConnected nowMix =>
    obtain ⟨decoder, hmix⟩ := streams_mix isConnected e nowMix i
    rw [step_mix, hmix]
    exact inactive_mixed h nowMix

theorem vacated_step {e : Engine L} {s : EngineStep Frame} (hs : ∀ c hc, s ≠ .command c hc)
    (h : Vacated e) : Vacated (e.step s).1 := by
  obtain ⟨hchannel, htransmitting⟩ := channel_step e hs
  intro hoff
  rw [← control_channel, hchannel] at hoff
  obtain ⟨htx, hstreams⟩ := h hoff
  exact ⟨htransmitting.trans htx, fun i => inactive_step hs hoff (hstreams i)⟩

theorem vacated_call {e : Engine L} {c : Call Frame} (h : Vacated e) (halone : HangsUpAlone e c) :
    Vacated (e.call c).1 := by
  cases hc : c.tick with
  | none => exact vacated_command hc h halone
  | some t =>
    cases c with
    | process t =>
      rw [← run_steps]
      exact Machine.run_induction
        (fun (_ : Engine L) s (hs : ∀ c hc, s ≠ .command c hc) hv => vacated_step hs hv) h
        fun s hs => ne_command hs
    | _ => cases hc

/-! ### Nothing is played -/

theorem playbackRing_receive (e : Engine L) (a : Arrival) :
    (receive e a).1.playbackRing = e.playbackRing := by
  have hsame : ∀ e' : Engine L, SameButStreams (e.holding a) e' → e'.playbackRing = e.playbackRing := by
    rintro _ ⟨_, _, _, rfl⟩
    rfl
  rcases receive_outcomes e a with (h | h) | ⟨hdr, -, -, -, h⟩ | ⟨hdr, data, e', i, -, hs, h⟩
  · rw [h]
    rfl
  · rw [h]
    show (handlePong (e.holding a) a.now).playbackRing = _
    unfold handlePong
    split <;> rfl
  · rw [h]
    exact hsame _ (sameButStreams_dropping (e.holding a) a hdr)
  · have hstream : SameButStreams (e.holding a) (streamFor (e.holding a) hdr.clientId a.alloc).1 :=
      sameButStreams_streamFor
    rw [hs] at hstream
    rw [h, ← hsame e' hstream]
    unfold acceptAudio
    dsimp only
    split <;> rfl

/-- In no channel and without streams, nothing is mixed. -/
theorem mix_vacant {e : Engine L} (hoff : e.channel.active = false)
    (hstreams : ∀ i, (e.streams i).active = false) (isConnected : Bool) (nowMix : BitVec 64) :
    mix isConnected e nowMix = e := by
  have hloop : ∀ slots : List StreamIndex, slots.foldl (mixStream nowMix) ⟨e, []⟩ = ⟨e, []⟩ := by
    intro slots
    induction slots with
    | nil => rfl
    | cons i rest ih =>
      have hbody : mixStream nowMix ⟨e, []⟩ i = ⟨e, []⟩ := by
        unfold mixStream
        dsimp only
        rw [hstreams i]
      rw [List.foldl_cons, hbody, ih]
  have hnone : ¬ 0 < (⟨e, []⟩ : Mixing L).count := Nat.lt_irrefl 0
  unfold mix
  rw [hloop]
  dsimp only
  rw [if_neg hnone, if_neg (by simp [hoff])]

/-- In no channel, without streams, and with this in the playback ring. -/
structure Quiet (ring : RingBuffer (ℚ × ℚ)) (e : Engine L) : Prop where
  off : e.channel.active = false
  streams : ∀ i, (e.streams i).active = false
  ring : e.playbackRing = ring

theorem quiet_step {ring : RingBuffer (ℚ × ℚ)} {e : Engine L} {s : EngineStep Frame}
    (hs : ∀ c hc, s ≠ .command c hc) (h : Quiet ring e) : Quiet ring (e.step s).1 := by
  refine ⟨?_, fun i => inactive_step hs h.off (h.streams i), ?_⟩
  · rw [← control_channel, (channel_step e hs).1]
    exact h.off
  · rw [← h.ring]
    cases s with
    | command c hc => exact absurd rfl (hs c hc)
    | capture =>
      show (transmit e).1.playbackRing = _
      rcases transmit_outcomes e with h | ⟨-, h⟩ | ⟨-, _, _, -, h⟩
      · rw [h]
      · rw [h]
        rfl
      · rw [h]
        rfl
    | arrive a => exact playbackRing_receive e a
    | keepalive now =>
      show (keepalive e now).1.playbackRing = _
      unfold keepalive
      dsimp only
      split <;> rfl
    | ping now =>
      show (ping e now).1.playbackRing = _
      unfold ping
      split
      · split <;> rfl
      · rfl
    | mix isConnected nowMix => rw [step_mix, mix_vacant h.off h.streams]

theorem forgets_call {e : Engine L} (h : Vacated e) (c : Call Frame) : Forgets e c := by
  constructor
  · rintro t rfl hoff
    have hquiet : Quiet e.playbackRing (Machine.run Engine.step e (e.steps (.process t))) :=
      Machine.run_induction
        (fun (_ : Engine L) s (hs : ∀ c hc, s ≠ .command c hc) hq => quiet_step hs hq)
        ⟨hoff, (h hoff).2, rfl⟩ fun s hs => ne_command hs
    rw [← run_steps]
    exact hquiet.ring
  · rintro channelId rfl hon i
    by_cases hact : e.channel.active = true
    · exact inactive_joinChannel hon hact channelId i
    · show ((aeEngineJoinChannel e channelId).1.streams i).active = false
      unfold aeEngineJoinChannel
      rw [if_neg (by simp [hon])]
      dsimp only
      rw [if_neg hact, streams_enterChannel]
      exact (h (by simpa using hact)).2 i

/-! ### A run -/

theorem vacated_create [Zero Frame] {config : Option AeConfig} {e : Engine L}
    (hnew : aeEngineCreate L config = some e) : Vacated e := by
  have hfresh := fresh_create hnew
  refine fun _ => ⟨hfresh.transmitting, fun i => ?_⟩
  rw [hfresh.streams i]
  rfl

/-- **No channel, no streams.** In a run of a new engine the engine is silent in every state
in which it is in no channel, and forgets what it heard there, exactly if it is never
disconnected with a stream still active. -/
theorem vacated_iff [Zero Frame] {config : Option AeConfig} {e : Engine L}
    (hnew : aeEngineCreate L config = some e) (calls : List (Call Frame)) :
    ((∀ done, done <+: calls → Vacated (Machine.run Engine.call e done)) ∧
      Machine.Along Engine.call Forgets e calls) ↔
      Machine.Along Engine.call HangsUpAlone e calls := by
  have hkept : (∀ done, done <+: calls → Vacated (Machine.run Engine.call e done)) ↔
      Machine.Along Engine.call HangsUpAlone e calls := by
    refine Machine.kept_iff_along (P := fun _ => True) (fun e h => h)
      (fun e c _ h halone => vacated_call h halone) ?_ (vacated_create hnew) fun _ _ => trivial
    intro e c _ _ hcrowd hvacated
    cases c with
    | disconnect => exact hcrowd (hvacated rfl).2
    | _ => exact hcrowd trivial
  constructor
  · exact fun h => hkept.mp h.1
  · intro h
    refine ⟨hkept.mpr h, ?_⟩
    exact Machine.along_of_invariant (fun e c hv halone => vacated_call hv halone)
      (fun e c hv _ => forgets_call hv c) (vacated_create hnew) h

/-! ### Hanging up on a speaker -/

/-- The listener hears client 8, whose stream is then active. -/
theorem active_process {r : Engine toneLibrary} (hr : Hears r) {a : Arrival}
    (hp : audioPacket (speaker 8 silence).encoding [1] = some a.data) (hne : a.data ≠ [])
    (halloc : a.alloc = ⟨true, true, 0⟩) (hnow : a.now = 0) :
    ∃ i, ((aeEngineProcess r ⟨[a], 0, 0⟩).1.streams i).active = true := by
  obtain ⟨slot, frame, seq, hpush⟩ := push_receive hr hp (by rw [halloc])
  obtain ⟨-, hdr, data, hacc, -⟩ := mem_receive hpush
  obtain ⟨i, hs, hstreams, -⟩ := streams_receive hacc
  have hnone : findStream (r.holding a) hdr.clientId = none := by
    refine Option.not_isSome_iff_eq_none.mp fun h => ?_
    obtain ⟨i, hi, -⟩ := findStream_isSome.mp h
    rw [streams_holding, hr.streams] at hi
    cases hi
  have hnew := streamFor_new hnone hs
  have htaken : taken r ⟨[a], 0, 0⟩ = [a] :=
    taken_all hr.silent hr.sock (show 1 ≤ maxRecvPerTick by decide) fun b hb => by rwa [List.mem_singleton.mp hb]
  have hrun : (aeEngineProcess r ⟨[a], 0, 0⟩).1 =
      mix true (ping (keepalive (receive r a).1 0).1 0).1 0 := by
    rw [show (aeEngineProcess r ⟨[a], 0, 0⟩).1 = (r.call (.process ⟨[a], 0, 0⟩)).1 from rfl,
      ← run_steps, steps_process, if_pos hr.connected, htaken]
    simp only [List.map_cons, List.map_nil, List.cons_append, List.nil_append, Machine.run,
      step_capture, step_arrive, step_keepalive, step_ping, step_mix, transmit_silent hr.silent]
  have hbefore : (ping (keepalive (receive r a).1 0).1 0).1.streams i =
      (newStream (r.holding a) hdr.clientId a.alloc).accepted data r.decodeFrame a.now := by
    rw [(sameTable_ping _ _).streams, (sameTable_keepalive _ _).streams, hstreams,
      Function.update_self, hnew]
  obtain ⟨decoder, hmix⟩ := streams_mix true (ping (keepalive (receive r a).1 0).1 0).1 0 i
  refine ⟨i, ?_⟩
  rw [hrun, hmix, hbefore]
  apply active_mixed
  · exact RemoteStream.accepted_active ..
  · have hlast : ((newStream (r.holding a) hdr.clientId a.alloc).accepted data r.decodeFrame
        a.now).lastRecvMs = 0 := by
      rcases RemoteStream.accepted_lastRecvMs (newStream (r.holding a) hdr.clientId a.alloc) data
        r.decodeFrame a.now with h | h
      · rw [h, hnow]
      · rw [h]
        unfold newStream
        rw [halloc]
    rw [hlast]
    decide

theorem run_tuneIn : Machine.run Engine.call newEngine tuneIn = listener 7 := rfl

theorem run_hangUp (t : Tick) :
    Machine.run Engine.call newEngine (tuneIn ++ [.process t, .disconnect]) =
      aeEngineDisconnect (aeEngineProcess (listener 7) t).1 := by
  rw [Machine.run_append, run_tuneIn]
  simp only [Machine.run, Engine.call]

/-- The listener is disconnected while client 8 is heard, and the stream stays. -/
theorem stream_outlives_channel : ∃ t, ¬ Vacated
    (Machine.run Engine.call newEngine (tuneIn ++ [.process t, .disconnect])) := by
  obtain ⟨a, hp, -, hne, halloc, hnow⟩ := late_packet
  obtain ⟨i, hactive⟩ := active_process hears_listener hp hne halloc hnow
  refine ⟨⟨[a], 0, 0⟩, fun h => ?_⟩
  rw [run_hangUp] at h
  generalize (aeEngineProcess (listener 7) ⟨[a], 0, 0⟩).1 = e at hactive h
  have hgone : (e.streams i).active = false := (h rfl).2 i
  rw [hactive] at hgone
  cases hgone

/-- A client that hears client 8 leaves the channel before it hangs up. -/
theorem vacated_iff_heard : ∃ t,
    (∃ i, ((Machine.run Engine.call newEngine (tuneIn ++ [.process t])).streams i).active = true) ∧
    Vacated (Machine.run Engine.call newEngine
      (tuneIn ++ [.process t, .leaveChannel channelOne, .disconnect])) := by
  obtain ⟨a, hp, -, hne, halloc, hnow⟩ := late_packet
  obtain ⟨i, hactive⟩ := active_process hears_listener hp hne halloc hnow
  have halone : Machine.Along Engine.call HangsUpAlone newEngine
      (tuneIn ++ [.process ⟨[a], 0, 0⟩, .leaveChannel channelOne, .disconnect]) := by
    rw [Machine.along_append, run_tuneIn]
    simp only [Machine.Along, Engine.call]
    exact ⟨⟨trivial, trivial, trivial, trivial⟩, trivial, trivial,
      fun i => inactive_leaveChannel (aeEngineProcess (listener 7) ⟨[a], 0, 0⟩).1 channelOne i, trivial⟩
  refine ⟨⟨[a], 0, 0⟩, ⟨i, ?_⟩, ((vacated_iff create_newEngine _).mpr halone).1 _ (List.prefix_refl _)⟩
  rw [Machine.run_append, run_tuneIn]
  simp only [Machine.run, Engine.call]
  exact hactive

end AudioPlatform.Core
