import AudioPlatform.Core.Ramps
import AudioPlatform.Core.TableMoves
import AudioPlatform.Core.Vacancy

/-! What the listener hears.

A tick mixes into the playback ring, and the audio thread reads from it. No other call touches the
ring: leaving a channel does not empty it. -/
namespace AudioPlatform.Core
open Concurrency

variable {Frame : Type} {L : Library Frame}

/-- The frames that the streams are mixed to, or silence in a channel without streams. -/
def Engine.mixed (e : Engine L) (isConnected : Bool) (nowMix : BitVec 64) : List (ℚ × ℚ) :=
  let m := (List.finRange aeMaxUsersPerCh).foldl (mixStream nowMix) ⟨e, []⟩
  if 0 < m.count then
    interleaved (aeMixerMix L.tanhf m.engine.mixer
      ((List.range m.count).map fun k => some (m.engine.streamFrames k))
      (some fun k => m.volumes.getD k 0)).2
  else if isConnected && m.engine.channel.active then interleaved fun _ => 0
  else []

/-- The engine as a tick comes to mix. -/
def Engine.toMix (e : Engine L) (t : Tick) : Engine L :=
  if e.connected then
    (ping (keepalive (receiveLoop maxRecvPerTick t.arrivals (transmit e).1).1 t.now).1 t.now).1
  else e

/-- What a call mixes. -/
def Engine.offered (e : Engine L) : Call Frame → List (ℚ × ℚ)
  | .process t => (e.toMix t).mixed e.connected t.nowMix
  | _ => []

/-- What the playback ring takes of it. -/
def Engine.queued (e : Engine L) (c : Call Frame) : List (ℚ × ℚ) :=
  (e.offered c).take (aeRingbufFreeSpace e.playbackRing)

/-- What a call reads from the ring; behind it the listener hears silence. -/
def Engine.played (e : Engine L) : Call Frame → List (ℚ × ℚ)
  | .readPlayback frameCount => (aeRingbufRead e.playbackRing frameCount).2
  | _ => []

/-! ### The ring in a call -/

theorem playbackRing_destroyStream (e : Engine L) (i : StreamIndex) :
    (destroyStream e i).playbackRing = e.playbackRing := by
  unfold destroyStream
  split <;> rfl

theorem SameButStreams.playbackRing {e e' : Engine L} (h : SameButStreams e e') :
    e'.playbackRing = e.playbackRing := by
  obtain ⟨_, _, _, rfl⟩ := h
  rfl

theorem playbackRing_leaveChannel (e : Engine L) (channelId : CString) :
    (aeEngineLeaveChannel e channelId).1.playbackRing = e.playbackRing :=
  (sameButStreams_leaveChannel e channelId).playbackRing

theorem playbackRing_transmit (e : Engine L) : (transmit e).1.playbackRing = e.playbackRing := by
  rcases transmit_outcomes e with h | ⟨-, h⟩ | ⟨-, _, _, -, h⟩
  · rw [h]
  · rw [h]
    rfl
  · rw [h]
    rfl

theorem playbackRing_receiveLoop (n : Nat) (arrivals : List Arrival) (e : Engine L) :
    (receiveLoop n arrivals e).1.playbackRing = e.playbackRing := by
  induction n generalizing arrivals e with
  | zero => rfl
  | succ n ih =>
    cases arrivals with
    | nil => rfl
    | cons a rest =>
      unfold receiveLoop
      split
      · rfl
      · exact (ih rest _).trans (playbackRing_receive e a)

theorem playbackRing_toMix (e : Engine L) (t : Tick) : (e.toMix t).playbackRing = e.playbackRing := by
  have hkeepalive : ∀ (e : Engine L) now, (keepalive e now).1.playbackRing = e.playbackRing := by
    intro e now
    unfold keepalive
    dsimp only
    split <;> rfl
  have hping : ∀ (e : Engine L) now, (ping e now).1.playbackRing = e.playbackRing := by
    intro e now
    unfold ping
    split
    · split <;> rfl
    · rfl
  unfold Engine.toMix
  split
  · rw [hping, hkeepalive, playbackRing_receiveLoop, playbackRing_transmit]
  · rfl

theorem playbackRing_mixStream (nowMix : BitVec 64) (m : Mixing L) (i : StreamIndex) :
    (mixStream nowMix m i).engine.playbackRing = m.engine.playbackRing := by
  unfold mixStream
  dsimp only
  split
  · rfl
  · rfl
  · split
    · exact playbackRing_destroyStream _ _
    · split
      · rfl
      · split
        · rfl
        · split
          · rfl
          · split <;> rfl

/-- Mixing writes what is mixed. -/
theorem playbackRing_mix (isConnected : Bool) (e : Engine L) (nowMix : BitVec 64) :
    (mix isConnected e nowMix).playbackRing =
      (aeRingbufWrite e.playbackRing (e.mixed isConnected nowMix)).1 := by
  have hloop := foldl_mixStream (P := fun r => r.playbackRing = e.playbackRing)
    (fun m i hm => (playbackRing_mixStream nowMix m i).trans hm) (m := ⟨e, []⟩) rfl
    (List.finRange aeMaxUsersPerCh)
  unfold mix Engine.mixed
  generalize (List.finRange aeMaxUsersPerCh).foldl (mixStream nowMix) ⟨e, []⟩ = m at hloop ⊢
  dsimp only
  rw [← hloop]
  split
  · dsimp only
  · split
    · dsimp only
    · exact (aeRingbufWrite_nil _).symm

theorem process_eq (e : Engine L) (t : Tick) :
    (aeEngineProcess e t).1 = mix e.connected (e.toMix t) t.nowMix := by
  unfold aeEngineProcess Engine.toMix
  by_cases hon : e.connected = true
  · rw [if_pos hon, if_pos hon, hon]
  · rw [if_neg hon, if_neg hon, Bool.eq_false_iff.mpr hon]

theorem playbackRing_process (e : Engine L) (t : Tick) : (aeEngineProcess e t).1.playbackRing =
    (aeRingbufWrite e.playbackRing (e.offered (.process t))).1 := by
  rw [process_eq, playbackRing_mix, playbackRing_toMix]
  rfl

/-- A call that neither mixes nor reads leaves the ring alone. -/
theorem playbackRing_call (e : Engine L) {c : Call Frame} (hc : c.tick = none)
    (hread : ∀ n, c ≠ .readPlayback n) : (e.call c).1.playbackRing = e.playbackRing := by
  cases c with
  | connect outcome now =>
    show (aeEngineConnect e outcome now).1.playbackRing = _
    unfold aeEngineConnect
    dsimp only
    split <;> rfl
  | joinChannel channelId =>
    have henter : ∀ e : Engine L, (enterChannel e channelId).playbackRing = e.playbackRing := fun _ => rfl
    show (aeEngineJoinChannel e channelId).1.playbackRing = _
    unfold aeEngineJoinChannel
    dsimp only
    split
    · rfl
    · split
      · exact (henter _).trans (playbackRing_leaveChannel e _)
      · exact henter e
  | leaveChannel channelId => exact playbackRing_leaveChannel e channelId
  | leaveAllChannels =>
    show (aeEngineLeaveAllChannels e).playbackRing = _
    unfold aeEngineLeaveAllChannels
    split
    · exact playbackRing_leaveChannel e _
    · rfl
  | startTransmit channelId =>
    show (aeEngineStartTransmit e channelId).1.playbackRing = _
    unfold aeEngineStartTransmit
    split <;> rfl
  | writeCapture samples =>
    show (aeEngineWriteCapture e samples).1.playbackRing = _
    unfold aeEngineWriteCapture
    split <;> rfl
  | readPlayback n => exact absurd rfl (hread n)
  | process t => cases hc
  | _ => rfl

/-- The ring is a queue: a call adds to it what it mixes, and takes from it what it plays. -/
theorem playback_call (e : Engine L) (c : Call Frame) :
    e.playbackRing.contents ++ e.queued c = e.played c ++ (e.call c).1.playbackRing.contents := by
  have hother : c.tick = none → (∀ n, c ≠ .readPlayback n) → e.queued c = [] → e.played c = [] →
      e.playbackRing.contents ++ e.queued c = e.played c ++ (e.call c).1.playbackRing.contents := by
    intro hc hread hqueued hplayed
    rw [hqueued, hplayed, playbackRing_call e hc hread]
    exact List.append_nil _
  cases c with
  | process t =>
    show _ = (aeEngineProcess e t).1.playbackRing.contents
    rw [playbackRing_process, RingBuffer.contents_write, RingBuffer.write_snd, Nat.min_comm, ← List.take_eq_take_min]
    rfl
  | readPlayback n =>
    show _ ++ List.take _ [] = (aeRingbufRead e.playbackRing n).2 ++ (aeRingbufRead e.playbackRing n).1.contents
    rw [List.take_nil, RingBuffer.read_snd, RingBuffer.contents_read, List.take_append_drop, List.append_nil]
  | _ => exact hother rfl nofun List.take_nil rfl

/-! ### Loudness -/

/-- No sample is beyond full scale. -/
def Unclipped (x : ℚ × ℚ) : Prop := |x.1| ≤ 1 ∧ |x.2| ≤ 1

theorem unclipped_silence : Unclipped (0, 0) := by
  unfold Unclipped
  simp

theorem unclipped_interleaved {frame : Pcm} (h : ∀ s, |frame s| ≤ 1) : ∀ x ∈ interleaved frame, Unclipped x := by
  intro x hx
  obtain ⟨i, rfl⟩ := List.mem_ofFn.mp hx
  exact ⟨h _, h _⟩

theorem abs_aeMixerMix {softLimit : ℚ → ℚ} (hlimit : ∀ x, |softLimit x| ≤ 1) (mixer : Mixer)
    (inputs : List (Option Pcm)) (volumes : Option (Nat → ℚ)) (s : Fin aeJitterFrameSamples) :
    |(aeMixerMix softLimit mixer inputs volumes).2 s| ≤ 1 := by
  unfold aeMixerMix
  split
  · simp
  · exact hlimit _

theorem unclipped_offered (hlimit : ∀ x, |L.tanhf x| ≤ 1) (e : Engine L) (c : Call Frame) :
    ∀ x ∈ e.offered c, Unclipped x := by
  cases c with
  | process t =>
    show ∀ x ∈ (e.toMix t).mixed e.connected t.nowMix, Unclipped x
    unfold Engine.mixed
    dsimp only
    split
    · exact unclipped_interleaved (abs_aeMixerMix hlimit _ _ _)
    · split
      · exact unclipped_interleaved fun _ => by simp
      · exact fun _ h => absurd h List.not_mem_nil
  | _ => exact fun _ h => absurd h List.not_mem_nil

theorem unclipped_queued (hlimit : ∀ x, |L.tanhf x| ≤ 1) (e : Engine L) (c : Call Frame) :
    ∀ x ∈ e.queued c, Unclipped x := fun x hx =>
  unclipped_offered hlimit e c x (List.mem_of_mem_take hx)

/-! ### Room -/

theorem capacity_write {A : Type} (rb : RingBuffer A) (data : List A) :
    (aeRingbufWrite rb data).1.capacity = rb.capacity := by
  unfold aeRingbufWrite
  dsimp only
  split <;> rfl

theorem capacity_read {A : Type} (rb : RingBuffer A) (n : Nat) :
    (aeRingbufRead rb n).1.capacity = rb.capacity := by
  unfold aeRingbufRead
  dsimp only
  split <;> rfl

theorem capacity_call (e : Engine L) (c : Call Frame) :
    (e.call c).1.playbackRing.capacity = e.playbackRing.capacity := by
  cases c with
  | process t =>
    show (aeEngineProcess e t).1.playbackRing.capacity = _
    rw [playbackRing_process, capacity_write]
  | readPlayback n => exact capacity_read _ n
  | _ => exact congrArg RingBuffer.capacity (playbackRing_call e rfl nofun)

/-- A new ring is empty, and its size is rounded up. -/
theorem aeRingbufCreate_eq_some {A : Type} [Zero A] {capacity channels : Int} {rb : RingBuffer A}
    (h : aeRingbufCreate capacity channels = some rb) :
    rb.contents = [] ∧ rb.capacity = (nextPowerOfTwo (BitVec.ofInt 32 (capacity + 1))).toNat := by
  unfold aeRingbufCreate at h
  split at h
  · cases h
  · split at h
    · obtain rfl := Option.some.inj h
      refine ⟨List.eq_nil_of_length_eq_zero ?_, rfl⟩
      simp [aeRingbufAvailable]
    · cases h

theorem playbackRing_create [Zero Frame] {config : Option AeConfig} {e : Engine L}
    (h : aeEngineCreate L config = some e) :
    e.playbackRing.contents = [] ∧ e.playbackRing.capacity = 65536 := by
  unfold aeEngineCreate at h
  simp only [Option.bind_eq_bind, Option.bind_eq_some_iff, Option.pure_def, Option.some.injEq] at h
  obtain ⟨_, -, _, -, rb, hrb, rfl⟩ := h
  obtain ⟨hempty, hcap⟩ := aeRingbufCreate_eq_some hrb
  exact ⟨hempty, hcap.trans (by decide)⟩

theorem length_interleaved (frame : Pcm) : (interleaved frame).length = aeFrameSize := List.length_ofFn

theorem length_offered (e : Engine L) (c : Call Frame) : (e.offered c).length ≤ aeFrameSize := by
  cases c with
  | process t =>
    show ((e.toMix t).mixed e.connected t.nowMix).length ≤ _
    unfold Engine.mixed
    dsimp only
    split
    · rw [length_interleaved]
    · split
      · rw [length_interleaved]
      · exact Nat.zero_le _
  | _ => exact Nat.zero_le _

/-- **Playback keeps the order and the scale.** In every run of a new engine, what has been read is what
was mixed, in order and each frame once, up to what waits in the ring; no sample that is read is beyond
full scale; and what a tick mixes is cut short only where the ring is nearly full. -/
theorem playback_in_order [Zero Frame] {config : Option AeConfig} {e : Engine L}
    (hnew : aeEngineCreate L config = some e) (hlimit : ∀ x, |L.tanhf x| ≤ 1) (calls : List (Call Frame)) :
    Machine.collect Engine.call Engine.played e calls ++
        (Machine.run Engine.call e calls).playbackRing.contents =
      Machine.collect Engine.call Engine.queued e calls ∧
    (∀ n, ∀ x ∈ (aeEngineReadPlayback (Machine.run Engine.call e calls) n).2, |x.1| ≤ 1 ∧ |x.2| ≤ 1) ∧
    ((Machine.run Engine.call e calls).playbackRing.contents.length + aeFrameSize < 65536 →
      ∀ c, (Machine.run Engine.call e calls).queued c = (Machine.run Engine.call e calls).offered c) := by
  obtain ⟨hempty, hcap⟩ := playbackRing_create hnew
  have hqueue := Machine.collect_queue playback_call (s := e) calls
  rw [hempty, List.nil_append] at hqueue
  have hcapacity : (Machine.run Engine.call e calls).playbackRing.capacity = 65536 := by
    have hstep : ∀ (s : Engine L) c, True → s.playbackRing.capacity = 65536 →
        (s.call c).1.playbackRing.capacity = 65536 := fun s c _ h => (capacity_call s c).trans h
    exact Machine.run_induction hstep hcap fun _ _ => trivial
  generalize hrun : Machine.run Engine.call e calls = last at hqueue hcapacity ⊢
  have hqueued : ∀ x ∈ last.playbackRing.contents, Unclipped x := fun x hx =>
    Machine.mem_collect (unclipped_queued hlimit) x (hqueue ▸ List.mem_append_right _ hx)
  refine ⟨hqueue.symm, fun n x hx => ?_, fun hroom c => ?_⟩
  · have hx : x ∈ (aeRingbufRead last.playbackRing n).2 ++ List.replicate _ (0, 0) := hx
    rcases List.mem_append.mp hx with hx | hx
    · rw [RingBuffer.read_snd] at hx
      exact hqueued x (List.mem_of_mem_take hx)
    · rw [List.eq_of_mem_replicate hx]
      exact unclipped_silence
  · refine List.take_of_length_le ((length_offered last c).trans ?_)
    rw [RingBuffer.length_contents] at hroom
    unfold aeRingbufFreeSpace
    omega

/-- `toneLibrary` with a limiter that is exact at 0. -/
def limitedLibrary : Library (ℚ × ℚ) :=
  { toneLibrary with tanhf := fun x => max (-1) (min x 1) }

theorem limited_tanhf (x : ℚ) : |limitedLibrary.tanhf x| ≤ 1 := by
  show |max (-1) (min x 1)| ≤ 1
  rw [abs_le]
  exact ⟨le_max_left _ _, max_le (by decide) (min_le_right _ _)⟩

/-- A client listens for a tick to a channel where nobody speaks. -/
theorem playback_in_order_listening : ∃ e, aeEngineCreate limitedLibrary none = some e ∧
    Machine.collect Engine.call Engine.played e (tuneIn ++ [.process ⟨[], 0, 0⟩, .readPlayback 480]) ++
        (Machine.run Engine.call e (tuneIn ++ [.process ⟨[], 0, 0⟩, .readPlayback 480])).playbackRing.contents =
      Machine.collect Engine.call Engine.queued e (tuneIn ++ [.process ⟨[], 0, 0⟩, .readPlayback 480]) := by
  obtain ⟨e, he⟩ := Option.isSome_iff_exists.mp
    (show (aeEngineCreate limitedLibrary none).isSome = true from rfl)
  exact ⟨e, he, (playback_in_order he limited_tanhf _).1⟩

/-! ### After leaving -/

/-- The engine is in no channel and has no stream. -/
structure Off (e : Engine L) : Prop where
  channel : e.channel.active = false
  transmitting : e.transmitting = false
  streams : ∀ i, (e.streams i).active = false

theorem off_leaveChannel (e : Engine L) (channelId : CString) : Off (aeEngineLeaveChannel e channelId).1 := by
  refine ⟨?_, ?_, inactive_leaveChannel e channelId⟩
  · rw [← control_channel, control_leaveChannel]
    rfl
  · rw [← control_transmitting, control_leaveChannel]
    rfl

theorem Off.same {e e' : Engine L} (h : Off e) (hcontrol : e'.control = e.control)
    (hstreams : e'.streams = e.streams) : Off e' := by
  refine ⟨?_, ?_, fun i => ?_⟩
  · rw [← control_channel, hcontrol]
    exact h.channel
  · rw [← control_transmitting, hcontrol]
    exact h.transmitting
  · rw [hstreams]
    exact h.streams i

/-- Datagrams are dropped. -/
theorem Off.receive {e : Engine L} (h : Off e) (a : Arrival) :
    Off (receive e a).1 ∧ (Core.receive e a).2 = [] := by
  have hcontrol := control_receive e a
  rcases receive_outcomes e a with (hr | hr) | ⟨hdr, -, -, -, hr⟩ | ⟨hdr, data, e', i, hacc, -, -⟩
  · rw [hr] at hcontrol ⊢
    exact ⟨h.same hcontrol rfl, rfl⟩
  · rw [hr] at hcontrol ⊢
    exact ⟨h.same hcontrol (sameTable_handlePong _ _).streams, rfl⟩
  · rcases dropping_cases (e.holding a) a hdr with ⟨hdrop, -⟩ | ⟨-, hact, -⟩
    · rw [hr, hdrop] at hcontrol ⊢
      exact ⟨h.same hcontrol rfl, rfl⟩
    · cases h.channel.symm.trans hact
  · cases h.channel.symm.trans hacc.active

theorem Off.receiveLoop {e : Engine L} (h : Off e) (n : Nat) (arrivals : List Arrival) :
    Off (receiveLoop n arrivals e).1 ∧ (Core.receiveLoop n arrivals e).2 = [] := by
  induction n generalizing arrivals e with
  | zero => exact ⟨h, rfl⟩
  | succ n ih =>
    cases arrivals with
    | nil => exact ⟨h, rfl⟩
    | cons a rest =>
      unfold Core.receiveLoop
      split
      · exact ⟨h, rfl⟩
      · obtain ⟨hnext, hnone⟩ := h.receive a
        obtain ⟨hend, hrest⟩ := ih hnext rest
        refine ⟨hend, ?_⟩
        show (Core.receive e a).2 ++ (Core.receiveLoop n rest (Core.receive e a).1).2 = []
        rw [hnone, hrest]
        rfl

theorem Off.foldl_mixStream {e : Engine L} (h : Off e) (nowMix : BitVec 64) (slots : List StreamIndex) :
    slots.foldl (mixStream nowMix) ⟨e, []⟩ = ⟨e, []⟩ := by
  induction slots with
  | nil => rfl
  | cons i rest ih => rw [List.foldl_cons, mixStream_inactive (h.streams i), ih]

theorem Off.mixed {e : Engine L} (h : Off e) (isConnected : Bool) (nowMix : BitVec 64) :
    e.mixed isConnected nowMix = [] := by
  unfold Engine.mixed
  rw [h.foldl_mixStream]
  simp [Mixing.count, h.channel]

theorem Off.toMix {e : Engine L} (h : Off e) (t : Tick) : Off (e.toMix t) := by
  unfold Engine.toMix
  split
  · rw [transmit_silent h.transmitting]
    have hloop := (h.receiveLoop maxRecvPerTick t.arrivals).1
    generalize (Core.receiveLoop maxRecvPerTick t.arrivals e).1 = e' at hloop ⊢
    have hkept := hloop.same (control_keepalive e' t.now) (sameTable_keepalive e' t.now).streams
    exact hkept.same (control_ping _ t.now) (sameTable_ping _ t.now).streams
  · exact h

theorem Off.mix {e : Engine L} (h : Off e) (isConnected : Bool) (nowMix : BitVec 64) :
    Off (mix isConnected e nowMix) := by
  rw [mix_vacant h.channel h.streams]
  exact h

theorem Off.process {e : Engine L} (h : Off e) (t : Tick) :
    Off (aeEngineProcess e t).1 ∧ ∀ act ∈ (aeEngineProcess e t).2, act.Service := by
  rw [process_eq]
  refine ⟨(h.toMix t).mix _ _, fun act hact => ?_⟩
  rcases process_cases e t with ⟨-, hnil⟩ | ⟨-, service, hservice, hacts⟩
  · rw [hnil] at hact
    cases hact
  · rw [hacts, transmit_silent h.transmitting, (h.receiveLoop _ _).2] at hact
    exact hservice act hact

theorem off_after {c : Control L} (hchannel : c.channel.active = false) (htx : c.transmitting = false)
    {d : Call Frame} (hstay : ∀ n, d ≠ .joinChannel n) :
    (c.after d).channel.active = false ∧ (c.after d).transmitting = false := by
  cases d with
  | joinChannel n => exact absurd rfl (hstay n)
  | leaveAllChannels =>
    dsimp only [Control.after]
    split
    · exact ⟨rfl, rfl⟩
    · exact ⟨hchannel, htx⟩
  | startTransmit n =>
    dsimp only [Control.after]
    rw [if_neg (by simp [hchannel])]
    exact ⟨hchannel, htx⟩
  | disconnect => exact ⟨rfl, rfl⟩
  | leaveChannel n => exact ⟨rfl, rfl⟩
  | stopTransmit n => exact ⟨hchannel, rfl⟩
  | _ => exact ⟨hchannel, htx⟩

/-- Out of a channel, the engine hands out no audio, decodes none and mixes none, and only a join takes
it into one. -/
theorem Off.call {e : Engine L} (h : Off e) {c : Call Frame} (hstay : ∀ n, c ≠ .joinChannel n) :
    Off (e.call c).1 ∧ (∀ act ∈ (e.call c).2, act.Service) ∧ e.queued c = [] := by
  cases hc : c.tick with
  | some t =>
    cases c with
    | process t' =>
      obtain ⟨hnext, hservice⟩ := h.process t'
      refine ⟨hnext, hservice, ?_⟩
      show List.take _ ((e.toMix t').mixed e.connected t'.nowMix) = []
      rw [(h.toMix t').mixed, List.take_nil]
    | _ => cases hc
  | none =>
    have hticks := Call.not_ticks hc
    obtain ⟨hchannel, htx⟩ := off_after (c := e.control) h.channel h.transmitting hstay
    rw [← control_call e hticks] at hchannel htx
    refine ⟨⟨hchannel, htx, fun i => ?_⟩, fun act hact => service_call e hticks hact, ?_⟩
    · rcases streams_command e hc with hs | hs
      · rw [hs]
        exact h.streams i
      · exact hs i
    · have hnone : e.offered c = [] := by
        cases c with
        | process t => cases hc
        | _ => rfl
      unfold Engine.queued
      rw [hnone, List.take_nil]

/-- **Leaving ends it.** Whatever the network delivers and whatever is called after a channel is left,
until the next join the engine sends no audio, decodes none, and plays only what waited in the ring when
it left. -/
theorem left_plays_backlog (e : Engine L) (channelId : CString) {calls : List (Call Frame)}
    (hstay : ∀ c ∈ calls, ∀ n, c ≠ .joinChannel n) :
    (∀ act ∈ Machine.outputs Engine.call (aeEngineLeaveChannel e channelId).1 calls, act.Service) ∧
    Machine.collect Engine.call Engine.played (aeEngineLeaveChannel e channelId).1 calls <+:
      e.playbackRing.contents := by
  have hrun : ∀ {left : Engine L}, Off left →
      (∀ act ∈ Machine.outputs Engine.call left calls, act.Service) ∧
        Machine.collect Engine.call Engine.queued left calls = [] := by
    induction calls with
    | nil => exact fun _ => ⟨fun _ h => absurd h List.not_mem_nil, rfl⟩
    | cons c rest ih =>
      intro left hleft
      obtain ⟨hnext, hservice, hqueued⟩ := hleft.call (hstay c (List.mem_cons_self ..))
      obtain ⟨hrest, hnone⟩ := ih (fun d hd => hstay d (List.mem_cons_of_mem c hd)) hnext
      refine ⟨List.forall_mem_append.mpr ⟨hservice, hrest⟩, ?_⟩
      show left.queued c ++ Machine.collect Engine.call Engine.queued (left.call c).1 rest = []
      rw [hqueued, hnone]
      rfl
  obtain ⟨hservice, hnone⟩ := hrun (off_leaveChannel e channelId)
  have hqueue := Machine.collect_queue playback_call (s := (aeEngineLeaveChannel e channelId).1) calls
  rw [hnone, List.append_nil, playbackRing_leaveChannel] at hqueue
  exact ⟨hservice, _, hqueue.symm⟩

/-- The client leaves with a frame in the ring, and a packet of client 8 comes after that. -/
theorem left_plays_backlog_packet : ∃ a : Arrival, packetHeader a.data = some lateHeader ∧
    aeRingbufAvailable (aeEngineProcess (listener 7) ⟨[], 0, 0⟩).1.playbackRing = 960 ∧
    (∀ act ∈ Machine.outputs Engine.call
      (aeEngineLeaveChannel (aeEngineProcess (listener 7) ⟨[], 0, 0⟩).1 channelOne).1
      [.process ⟨[a], 0, 0⟩, .startTransmit channelOne, .readPlayback 480], act.Service) ∧
    Machine.collect Engine.call Engine.played
      (aeEngineLeaveChannel (aeEngineProcess (listener 7) ⟨[], 0, 0⟩).1 channelOne).1
      [.process ⟨[a], 0, 0⟩, .startTransmit channelOne, .readPlayback 480] <+:
        (aeEngineProcess (listener 7) ⟨[], 0, 0⟩).1.playbackRing.contents := by
  obtain ⟨a, -, hheader, -⟩ := late_packet
  have hwaiting : aeRingbufAvailable (aeEngineProcess (listener 7) ⟨[], 0, 0⟩).1.playbackRing = 960 := by
    decide +kernel
  exact ⟨a, hheader, hwaiting, left_plays_backlog _ channelOne (by simp)⟩

end AudioPlatform.Core
