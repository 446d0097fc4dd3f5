import AudioPlatform.Core.Calls

/-! Calls in steps.

A tick captures, takes in one datagram after the other, keeps alive, pings and mixes.
Here each of these is a step of its own, and so is any other call; a run of calls is a
run of its steps (`run_steps`). Of each step it is told what it does to the stream table. -/
namespace AudioPlatform.Core
open Concurrency

variable {Frame : Type} {L : Library Frame}

def Call.tick : Call Frame → Option Tick
  | .process t => some t
  | _ => none

theorem Call.not_ticks {c : Call Frame} (h : c.tick = none) : ¬ c.Ticks := by
  cases c with
  | process t => cases h
  | _ => exact id

inductive EngineStep (Frame : Type) where
  /-- A call other than a tick. -/
  | command (c : Call Frame) (h : c.tick = none)
  | capture
  | arrive (a : Arrival)
  | keepalive (now : BitVec 64)
  | ping (now : BitVec 64)
  | mix (isConnected : Bool) (nowMix : BitVec 64)

def Engine.step (e : Engine L) : EngineStep Frame → Engine L × List (Action Frame)
  | .command c _ => e.call c
  | .capture => transmit e
  | .arrive a => receive e a
  | .keepalive now => keepalive e now
  | .ping now => ping e now
  | .mix isConnected nowMix => (mix isConnected e nowMix, [])

theorem step_command (e : Engine L) (c : Call Frame) (hc : c.tick = none) :
    e.step (.command c hc) = e.call c := rfl

theorem step_capture (e : Engine L) : e.step .capture = transmit e := rfl

theorem step_arrive (e : Engine L) (a : Arrival) : e.step (.arrive a) = receive e a := rfl

theorem step_keepalive (e : Engine L) (now : BitVec 64) : e.step (.keepalive now) = keepalive e now :=
  rfl

theorem step_ping (e : Engine L) (now : BitVec 64) : e.step (.ping now) = ping e now := rfl

theorem step_mix (e : Engine L) (isConnected : Bool) (nowMix : BitVec 64) :
    (e.step (.mix isConnected nowMix)).1 = mix isConnected e nowMix := by
  rw [Engine.step]

/-- The datagrams that a tick takes in, in order. -/
def taken (e : Engine L) (t : Tick) : List Arrival :=
  (handled maxRecvPerTick t.arrivals (transmit e).1).map (·.2)

theorem arrive_taken (e : Engine L) (t : Tick) :
    ((taken e t).map .arrive : List (EngineStep Frame)) =
      (handled maxRecvPerTick t.arrivals (transmit e).1).map fun x => .arrive x.2 := by
  rw [taken, List.map_map]
  rfl

theorem handled_all {n : Nat} {arrivals : List Arrival} {e : Engine L}
    (hn : arrivals.length ≤ n) (hdata : ∀ a ∈ arrivals, a.data ≠ []) (hsock : e.network.sock = true) :
    (handled n arrivals e).map (·.2) = arrivals := by
  induction n generalizing arrivals e with
  | zero =>
    rw [List.eq_nil_of_length_eq_zero (Nat.le_zero.mp hn)]
    rfl
  | succ n ih =>
    cases arrivals with
    | nil => rfl
    | cons a rest =>
      have hnet : (receive e a).1.network.sock = true := by
        rw [← control_network, control_receive]
        exact hsock
      have htail := ih (Nat.le_of_succ_le_succ hn) (fun b hb => hdata b (List.mem_cons_of_mem a hb)) hnet
      unfold handled
      rw [if_neg (by simp [hdata a (List.mem_cons_self ..), hsock]), List.map_cons, htail]

/-- An engine that does not transmit takes in all that waits, up to twenty datagrams. -/
theorem taken_all {e : Engine L} {t : Tick} (hsilent : e.transmitting = false)
    (hsock : e.network.sock = true) (hn : t.arrivals.length ≤ maxRecvPerTick)
    (hdata : ∀ a ∈ t.arrivals, a.data ≠ []) : taken e t = t.arrivals := by
  unfold taken
  rw [transmit_silent hsilent]
  exact handled_all hn hdata hsock

/-- The steps that a call takes. -/
def Engine.steps (e : Engine L) (c : Call Frame) : List (EngineStep Frame) :=
  match h : c.tick with
  | none => [.command c h]
  | some t =>
    if e.connected then
      .capture :: (taken e t).map .arrive ++ [.keepalive t.now, .ping t.now, .mix true t.nowMix]
    else [.mix false t.nowMix]

theorem steps_process (e : Engine L) (t : Tick) : e.steps (.process t) =
    if e.connected then
      .capture :: (taken e t).map .arrive ++ [.keepalive t.now, .ping t.now, .mix true t.nowMix]
    else [.mix false t.nowMix] := rfl

/-- No step of a tick is a command. -/
theorem ne_command {e : Engine L} {t : Tick} {s : EngineStep Frame} (h : s ∈ e.steps (.process t))
    (c : Call Frame) (hc : c.tick = none) : s ≠ .command c hc := by
  rintro rfl
  rw [steps_process] at h
  split at h
  · simp at h
  · simp at h

/-! ### Refinement -/

theorem run_handled (n : Nat) (arrivals : List Arrival) (e : Engine L) :
    Machine.run Engine.step e ((handled n arrivals e).map fun x => .arrive x.2) =
      (receiveLoop n arrivals e).1 := by
  induction n generalizing arrivals e with
  | zero => rfl
  | succ n ih =>
    cases arrivals with
    | nil => rfl
    | cons a rest =>
      unfold receiveLoop handled
      split
      · rfl
      · exact ih rest (receive e a).1

theorem outputs_handled (n : Nat) (arrivals : List Arrival) (e : Engine L) :
    Machine.outputs Engine.step e ((handled n arrivals e).map fun x => .arrive x.2) =
      (receiveLoop n arrivals e).2 := by
  induction n generalizing arrivals e with
  | zero => rfl
  | succ n ih =>
    cases arrivals with
    | nil => rfl
    | cons a rest =>
      unfold receiveLoop handled
      split
      · rfl
      · exact congrArg ((receive e a).2 ++ ·) (ih rest (receive e a).1)

/-- **A call comes to where its steps come.** -/
theorem run_steps (e : Engine L) (c : Call Frame) :
    Machine.run Engine.step e (e.steps c) = (e.call c).1 := by
  cases c with
  | process t =>
    show _ = (aeEngineProcess e t).1
    rw [steps_process]
    unfold aeEngineProcess
    by_cases hon : e.connected = true
    · rw [if_pos hon, if_pos hon, arrive_taken, List.cons_append]
      show Machine.run Engine.step (transmit e).1 _ = _
      rw [Machine.run_append, run_handled]
      rfl
    · rw [if_neg hon, if_neg hon]
      rfl
  | _ => rfl

/-- A call hands out what its steps hand out. -/
theorem outputs_steps (e : Engine L) (c : Call Frame) :
    Machine.outputs Engine.step e (e.steps c) = (e.call c).2 := by
  cases c with
  | process t =>
    show _ = (aeEngineProcess e t).2
    rw [steps_process]
    unfold aeEngineProcess
    by_cases hon : e.connected = true
    · rw [if_pos hon, if_pos hon, arrive_taken, List.cons_append]
      show (transmit e).2 ++ Machine.outputs Engine.step (transmit e).1 _ = _
      rw [Machine.outputs_append, run_handled, outputs_handled]
      simp [Machine.outputs, Engine.step]
    · rw [if_neg hon, if_neg hon]
      rfl
  | _ => exact List.append_nil _

/-- All the steps of a run. -/
def stepsOf (e : Engine L) (calls : List (Call Frame)) : List (EngineStep Frame) :=
  Machine.expansion Engine.call Engine.steps e calls

theorem run_stepsOf (e : Engine L) (calls : List (Call Frame)) :
    Machine.run Engine.step e (stepsOf e calls) = Machine.run Engine.call e calls :=
  Machine.run_expansion run_steps calls

theorem outputs_stepsOf (e : Engine L) (calls : List (Call Frame)) :
    Machine.outputs Engine.step e (stepsOf e calls) = Machine.outputs Engine.call e calls :=
  Machine.outputs_expansion run_steps outputs_steps calls

/-! ### The stream table -/

/-- The stream table and its counts are the same. -/
structure SameTable (e e' : Engine L) : Prop where
  streams : e'.streams = e.streams
  streamCount : e'.streamCount = e.streamCount
  activeStreams : e'.activeStreams = e.activeStreams

theorem SameTable.refl (e : Engine L) : SameTable e e := ⟨rfl, rfl, rfl⟩

theorem SameTable.trans {e e' e'' : Engine L} (h : SameTable e e') (h' : SameTable e' e'') :
    SameTable e e'' :=
  ⟨h'.streams.trans h.streams, h'.streamCount.trans h.streamCount,
    h'.activeStreams.trans h.activeStreams⟩

theorem sameTable_transmit (e : Engine L) : SameTable e (transmit e).1 := by
  rcases transmit_outcomes e with h | ⟨-, h⟩ | ⟨-, _, _, -, h⟩
  · rw [h]
    exact .refl e
  · rw [h]
    exact ⟨rfl, rfl, rfl⟩
  · rw [h]
    exact ⟨rfl, rfl, rfl⟩

theorem sameTable_keepalive (e : Engine L) (now : BitVec 64) : SameTable e (keepalive e now).1 := by
  unfold keepalive
  dsimp only
  split
  · exact ⟨rfl, rfl, rfl⟩
  · exact .refl e

theorem sameTable_ping (e : Engine L) (now : BitVec 64) : SameTable e (ping e now).1 := by
  unfold ping
  split
  · split
    · exact ⟨rfl, rfl, rfl⟩
    · exact ⟨rfl, rfl, rfl⟩
  · exact .refl e

/-- A command leaves the table as it is, or as leaving a channel leaves it. -/
theorem table_command (e : Engine L) {c : Call Frame} (hc : c.tick = none) :
    SameTable e (e.call c).1 ∨
      ∃ channelId, SameTable (aeEngineLeaveChannel e channelId).1 (e.call c).1 := by
  cases c with
  | connect outcome now =>
    left
    show SameTable e (aeEngineConnect e outcome now).1
    unfold aeEngineConnect
    dsimp only
    split
    · exact ⟨rfl, rfl, rfl⟩
    · exact ⟨rfl, rfl, rfl⟩
  | joinChannel channelId =>
    show SameTable e (aeEngineJoinChannel e channelId).1 ∨
      ∃ b, SameTable (aeEngineLeaveChannel e b).1 (aeEngineJoinChannel e channelId).1
    have henter : ∀ e' : Engine L, SameTable e' (enterChannel e' channelId) :=
      fun _ => ⟨rfl, rfl, rfl⟩
    unfold aeEngineJoinChannel
    dsimp only
    split
    · exact .inl (.refl e)
    · split
      · exact .inr ⟨e.channel.channelIdStr, henter _⟩
      · exact .inl (henter e)
  | leaveChannel channelId => exact .inr ⟨channelId, .refl _⟩
  | leaveAllChannels =>
    show SameTable e (aeEngineLeaveAllChannels e) ∨
      ∃ b, SameTable (aeEngineLeaveChannel e b).1 (aeEngineLeaveAllChannels e)
    unfold aeEngineLeaveAllChannels
    split
    · exact .inr ⟨_, .refl _⟩
    · exact .inl (.refl e)
  | startTransmit channelId =>
    left
    show SameTable e (aeEngineStartTransmit e channelId).1
    unfold aeEngineStartTransmit
    split
    · exact .refl e
    · exact ⟨rfl, rfl, rfl⟩
  | writeCapture samples =>
    left
    show SameTable e (aeEngineWriteCapture e samples).1
    unfold aeEngineWriteCapture
    split
    · exact .refl e
    · exact ⟨rfl, rfl, rfl⟩
  | process t => cases hc
  | _ => exact .inl ⟨rfl, rfl, rfl⟩

/-- A command leaves the streams as they are, or destroys them all. -/
theorem streams_command (e : Engine L) {c : Call Frame} (hc : c.tick = none) :
    (e.call c).1.streams = e.streams ∨ ∀ i, ((e.call c).1.streams i).active = false := by
  rcases table_command e hc with h | ⟨channelId, h⟩
  · exact .inl h.streams
  · right
    rw [h.streams]
    exact inactive_leaveChannel e channelId

/-! ### Datagrams -/

theorem sameTable_holding (e : Engine L) (a : Arrival) : SameTable e (e.holding a) := ⟨rfl, rfl, rfl⟩

theorem sameTable_handlePong (e : Engine L) (now : BitVec 64) : SameTable e (handlePong e now) := by
  unfold handlePong
  split
  · exact ⟨rfl, rfl, rfl⟩
  · exact .refl e

theorem findStream_holding (e : Engine L) (a : Arrival) (c : BitVec 64) :
    findStream (e.holding a) c = findStream e c := rfl

/-- A packet that is dropped leaves the table as it is, or leaves a new stream. -/
theorem dropping_cases (e : Engine L) (a : Arrival) (hdr : RtpHeader) :
    e.dropping a hdr = e ∧ (hdr.payloadLength = 0 ∨ e.channel.active = false ∨
      (findStream e hdr.clientId).isSome ∨ hdr.clientId = e.clientId ∨
      ∀ i, (e.streams i).active = true) ∨
    hdr.payloadLength ≠ 0 ∧ e.channel.active = true ∧ findStream e hdr.clientId = none ∧
      hdr.clientId ≠ e.clientId ∧ ∃ i, (e.streams i).active = false ∧
        e.dropping a hdr = e.opening hdr.clientId a.alloc i := by
  unfold Engine.dropping
  by_cases hskip : hdr.payloadLength = 0 ∨ (!e.channel.active) = true
  · rw [if_pos hskip]
    rcases hskip with h | h
    · exact .inl ⟨rfl, .inl h⟩
    · exact .inl ⟨rfl, .inr (.inl (by simpa using h))⟩
  · rw [if_neg hskip]
    obtain ⟨hlen, hact⟩ := not_or.mp hskip
    rcases streamFor_cases e hdr.clientId a.alloc with
      ⟨i, hf, h⟩ | ⟨hf, hfull, h⟩ | ⟨hf, hc, i, hi, h⟩
    · rw [h, hf]
      exact .inl ⟨rfl, .inr (.inr (.inl rfl))⟩
    · rw [h]
      exact .inl ⟨rfl, .inr (.inr (.inr hfull))⟩
    · rw [h]
      exact .inr ⟨hlen, by simpa using hact, hf, hc, i, hi, rfl⟩

/-- The stream once a payload is decoded. -/
def RemoteStream.accepted (s : RemoteStream L) (data : List Byte) (pcm : Pcm) (now : BitVec 64) :
    RemoteStream L :=
  let (seqTracker, _) := aeRtpSeqUpdate s.seqTracker (s.seqTracker.maxSeq + 1)
  let (decoder, decoded, frame) := aeOpusDecode s.decoder data pcm
  let s := { s with seqTracker, decoder }
  if 0 < decoded then
    let jitter := s.jitter.map fun jb => (aeJitterPush jb frame seqTracker.maxSeq).1
    { s with jitter, lastRecvMs := now }
  else s

theorem streams_acceptAudio (e : Engine L) (i : StreamIndex) (hdr : RtpHeader) (data : List Byte)
    (now : BitVec 64) : (acceptAudio e i hdr data now).1.streams =
      Function.update e.streams i ((e.streams i).accepted data e.decodeFrame now) := by
  unfold acceptAudio RemoteStream.accepted
  dsimp only
  split
  · rfl
  · rfl

@[simp] theorem RemoteStream.accepted_active (s : RemoteStream L) (data : List Byte) (pcm : Pcm)
    (now : BitVec 64) : (s.accepted data pcm now).active = s.active := by
  unfold accepted
  dsimp only
  split <;> rfl

@[simp] theorem RemoteStream.accepted_clientId (s : RemoteStream L) (data : List Byte) (pcm : Pcm)
    (now : BitVec 64) : (s.accepted data pcm now).clientId = s.clientId := by
  unfold accepted
  dsimp only
  split <;> rfl

@[simp] theorem RemoteStream.accepted_seqTracker (s : RemoteStream L) (data : List Byte) (pcm : Pcm)
    (now : BitVec 64) : (s.accepted data pcm now).seqTracker =
      (aeRtpSeqUpdate s.seqTracker (s.seqTracker.maxSeq + 1)).1 := by
  unfold accepted
  dsimp only
  split <;> rfl

theorem RemoteStream.accepted_lastRecvMs (s : RemoteStream L) (data : List Byte) (pcm : Pcm)
    (now : BitVec 64) : (s.accepted data pcm now).lastRecvMs = now ∨
      (s.accepted data pcm now).lastRecvMs = s.lastRecvMs := by
  unfold accepted
  dsimp only
  split
  · exact .inl rfl
  · exact .inr rfl

/-- What decoding a payload hands out. -/
def RemoteStream.handsOut (s : RemoteStream L) (i : StreamIndex) (hdr : RtpHeader) (data : List Byte)
    (pcm : Pcm) : List (Action Frame) :=
  let (seqTracker, _) := aeRtpSeqUpdate s.seqTracker (s.seqTracker.maxSeq + 1)
  let (_, decoded, frame) := aeOpusDecode s.decoder data pcm
  if 0 < decoded then [.decode i data, .push hdr i frame seqTracker.maxSeq] else [.decode i data]

theorem actions_acceptAudio (e : Engine L) (i : StreamIndex) (hdr : RtpHeader) (data : List Byte)
    (now : BitVec 64) : (acceptAudio e i hdr data now).2 =
      (e.streams i).handsOut i hdr data e.decodeFrame := by
  unfold acceptAudio RemoteStream.handsOut
  dsimp only
  split
  · rfl
  · rfl

/-- An accepted datagram is taken in on its sender's stream, which it may have opened. -/
theorem streams_receive {e : Engine L} {a : Arrival} {hdr : RtpHeader} {data : List Byte}
    (h : Accepts e a hdr data) : ∃ i, (streamFor (e.holding a) hdr.clientId a.alloc).2 = some i ∧
      (receive e a).1.streams =
        Function.update (streamFor (e.holding a) hdr.clientId a.alloc).1.streams i
          (((streamFor (e.holding a) hdr.clientId a.alloc).1.streams i).accepted data e.decodeFrame
            a.now) ∧
      (receive e a).2 = ((streamFor (e.holding a) hdr.clientId a.alloc).1.streams i).handsOut i hdr
        data e.decodeFrame := by
  obtain ⟨slot, hmem⟩ := decode_receive h
  have hnil : (receive e a).2 ≠ [] := List.ne_nil_of_mem hmem
  rcases receive_outcomes e a with (h | h) | ⟨_, -, -, -, h⟩ | ⟨hdr', data', e', i, hacc, hs, heq⟩
  · exact absurd (congrArg Prod.snd h) hnil
  · exact absurd (congrArg Prod.snd h) hnil
  · exact absurd (congrArg Prod.snd h) hnil
  · obtain rfl := Option.some.inj (h.header.symm.trans hacc.header)
    obtain rfl := Option.some.inj (h.decrypted.symm.trans hacc.decrypted)
    obtain ⟨_, _, _, hsame⟩ : SameButStreams (e.holding a)
        (streamFor (e.holding a) hdr.clientId a.alloc).1 := sameButStreams_streamFor
    rw [hs] at hsame
    have hframe : e'.decodeFrame = (e.holding a).decodeFrame := by
      dsimp only at hsame
      rw [hsame]
    refine ⟨i, by rw [hs], ?_, ?_⟩
    · rw [heq, streams_acceptAudio, hs, hframe]
      rfl
    · rw [heq, actions_acceptAudio, hs, hframe]
      rfl

/-- The first packet of a client opens its stream. -/
theorem receive_opens {e : Engine L} {a : Arrival} {hdr : RtpHeader} {data : List Byte}
    (h : Accepts e a hdr data) (hnone : findStream e hdr.clientId = none) :
    ∃ i, (e.streams i).active = false ∧ (receive e a).1.streams = Function.update e.streams i
      ((newStream (e.holding a) hdr.clientId a.alloc).accepted data e.decodeFrame a.now) := by
  obtain ⟨i, hs, hstreams, -⟩ := streams_receive h
  rcases streamFor_cases (e.holding a) hdr.clientId a.alloc with
    ⟨j, hf, -⟩ | ⟨-, -, heq⟩ | ⟨-, -, j, hj, heq⟩
  · cases hf.symm.trans hnone
  · rw [heq] at hs
    cases hs
  · rw [heq] at hs hstreams
    obtain rfl := Option.some.inj hs
    refine ⟨j, hj, hstreams.trans ?_⟩
    show Function.update (Function.update e.streams j _) j _ = _
    rw [Function.update_idem]
    show Function.update e.streams j ((Function.update e.streams j _ j).accepted _ _ _) = _
    rw [Function.update_self]

/-! ### Mixing -/

/-- What the mix loop makes of a stream, its decoder apart. -/
def RemoteStream.mixed (nowMix : BitVec 64) (s : RemoteStream L) : RemoteStream L :=
  match s.active, s.jitter with
  | true, some jb =>
    if streamDestroyMs < nowMix - s.lastRecvMs then
      { s with active := false, decoder := none, jitter := none }
    else if streamTimeoutMs < nowMix - s.lastRecvMs then s
    else { s with jitter := some (aeJitterPop jb).1 }
  | _, _ => s

theorem inactive_mixed {s : RemoteStream L} (h : s.active = false) (nowMix : BitVec 64) :
    (s.mixed nowMix).active = false := by
  unfold RemoteStream.mixed
  rw [h]
  cases s.jitter with
  | none => exact h
  | some jb => exact h

/-- A stream that has been heard lately is not destroyed. -/
theorem active_mixed {s : RemoteStream L} {nowMix : BitVec 64} (h : s.active = true)
    (hrecent : ¬ streamDestroyMs < nowMix - s.lastRecvMs) : (s.mixed nowMix).active = true := by
  unfold RemoteStream.mixed
  rw [h]
  split
  · rw [if_neg hrecent]
    split
    · exact h
    · rfl
  · exact h

/-- The frame that the mix loop pops from a stream. -/
def RemoteStream.popped (nowMix : BitVec 64) (s : RemoteStream L) : Option Pcm :=
  match s.active, s.jitter with
  | true, some jb =>
    if streamDestroyMs < nowMix - s.lastRecvMs then none
    else if streamTimeoutMs < nowMix - s.lastRecvMs then none
    else (aeJitterPop jb).2
  | _, _ => none

/-- A stream that is not destroyed is passed over, or its next frame is popped. -/
theorem mixed_cases {s : RemoteStream L} {nowMix : BitVec 64} (h : (s.mixed nowMix).active = true) :
    (s.mixed nowMix = s ∧ s.popped nowMix = none) ∨ ∃ jb, s.jitter = some jb ∧
      s.mixed nowMix = { s with jitter := some (aeJitterPop jb).1 } ∧
      s.popped nowMix = (aeJitterPop jb).2 := by
  have hact : s.active = true := by
    by_contra hoff
    have := inactive_mixed (s := s) (by simpa using hoff) nowMix
    exact absurd (h.symm.trans this) (by decide)
  unfold RemoteStream.mixed at h ⊢
  unfold RemoteStream.popped
  rw [hact] at h ⊢
  cases hj : s.jitter with
  | none => exact .inl ⟨rfl, rfl⟩
  | some jb =>
    rw [hj] at h
    dsimp only at h ⊢
    by_cases hdestroyed : streamDestroyMs < nowMix - s.lastRecvMs
    · rw [if_pos hdestroyed] at h
      cases h
    · rw [if_neg hdestroyed, if_neg hdestroyed]
      by_cases htimeout : streamTimeoutMs < nowMix - s.lastRecvMs
      · rw [if_pos htimeout, if_pos htimeout]
        exact .inl ⟨rfl, rfl⟩
      · rw [if_neg htimeout, if_neg htimeout]
        exact .inr ⟨jb, rfl, rfl, rfl⟩

/-- The mix loop's body changes the stream in its slot only. -/
theorem streams_mixStream (nowMix : BitVec 64) (m : Mixing L) (i : StreamIndex) :
    ∃ decoder, (mixStream nowMix m i).engine.streams = Function.update m.engine.streams i
      { (m.engine.streams i).mixed nowMix with decoder := decoder } := by
  have hself : Function.update m.engine.streams i (m.engine.streams i) = m.engine.streams :=
    Function.update_eq_self i _
  unfold mixStream RemoteStream.mixed
  dsimp only
  split
  · rename_i h
    rw [h]
    exact ⟨(m.engine.streams i).decoder, hself.symm⟩
  · rename_i h hj
    rw [h, hj]
    exact ⟨(m.engine.streams i).decoder, hself.symm⟩
  · rename_i jb h hj
    rw [h, hj]
    dsimp only
    split
    · refine ⟨none, ?_⟩
      unfold destroyStream
      rw [if_neg (by simp [h])]
    · split
      · exact ⟨(m.engine.streams i).decoder, hself.symm⟩
      · split
        · exact ⟨(m.engine.streams i).decoder, rfl⟩
        · split
          · rename_i hd
            exact ⟨none, by rw [← hd]⟩
          · split
            · exact ⟨_, Function.update_idem ..⟩
            · exact ⟨(m.engine.streams i).decoder, rfl⟩

theorem streams_mix (isConnected : Bool) (e : Engine L) (nowMix : BitVec 64) (i : StreamIndex) :
    ∃ decoder, (mix isConnected e nowMix).streams i =
      { (e.streams i).mixed nowMix with decoder := decoder } := by
  have hloop : ∀ (slots : List StreamIndex) (m : Mixing L), slots.Nodup → ∃ decoder,
      (slots.foldl (mixStream nowMix) m).engine.streams i =
        if i ∈ slots then { (m.engine.streams i).mixed nowMix with decoder := decoder }
        else m.engine.streams i := by
    intro slots
    induction slots with
    | nil => exact fun m _ => ⟨none, (if_neg List.not_mem_nil).symm⟩
    | cons j rest ih =>
      intro m hnodup
      obtain ⟨hj, hrest⟩ := List.nodup_cons.mp hnodup
      obtain ⟨decoder, hbody⟩ := streams_mixStream nowMix m j
      obtain ⟨decoder', htail⟩ := ih (mixStream nowMix m j) hrest
      rw [List.foldl_cons, htail, hbody]
      by_cases hij : i = j
      · subst hij
        refine ⟨decoder, ?_⟩
        rw [if_neg hj, if_pos (List.mem_cons_self ..), Function.update_self]
      · refine ⟨decoder', ?_⟩
        rw [Function.update_of_ne hij]
        simp [hij]
  obtain ⟨decoder, h⟩ := hloop (List.finRange aeMaxUsersPerCh) ⟨e, []⟩ (List.nodup_finRange _)
  rw [if_pos (List.mem_finRange i)] at h
  obtain ⟨_, _, hmix⟩ := mix_eq isConnected e nowMix
  refine ⟨decoder, Eq.trans ?_ h⟩
  rw [hmix]

end AudioPlatform.Core
