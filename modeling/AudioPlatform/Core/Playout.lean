import AudioPlatform.Core.StreamLog

/-! The order in which packets are played.

A jitter buffer is told the sequence number that the tracker made up, and does not look at
it. So packets are played in the order in which they were accepted, whatever numbers they
carry, and one that is delivered twice is played twice: also if the stream of its sender has
ended meanwhile and another one has been opened. -/
namespace AudioPlatform.Core
open Concurrency

variable {Frame : Type} {L : Library Frame} {e : Engine L} {c : BitVec 64} {i : StreamIndex}

/-- The number that the sender has given a packet. -/
def packetSequence (packet : List Byte) : BitVec 32 :=
  BigEndian.ofBytes 32 ((packetIv packet).drop 8)

theorem Bears.sequence {n q : BitVec 32} {packet : List Byte} (h : Bears n c q packet) :
    packetSequence packet = q := by
  have hdrop : (buildNonce n c q).drop 8 = BigEndian.toBytes 4 q := by
    unfold buildNonce
    dsimp only
    exact List.drop_left' (by simp)
  unfold packetSequence
  rw [h.2, hdrop]
  exact BigEndian.ofBytes_toBytes (n := 4) q

/-- Each packet has a greater number than those before it. -/
def Ascending (packets : List DecodedPacket) : Prop :=
  packets.Pairwise fun p p' => packetSequence p.1 < packetSequence p'.1

/-- The log after some calls. -/
def logAfter (c : BitVec 64) (e : Engine L) (calls : List (Call Frame)) : Log :=
  logOf c e (stepsOf e calls)

theorem logAfter_append (c : BitVec 64) (e : Engine L) (a b : List (Call Frame)) :
    logAfter c e (a ++ b) = Machine.history Engine.step (Log.record c) (Machine.run Engine.call e a)
      (logAfter c e a) (stepsOf (Machine.run Engine.call e a) b) := by
  unfold logAfter logOf
  rw [← run_stepsOf, ← Machine.history_append]
  unfold stepsOf
  rw [Machine.expansion_append, ← run_stepsOf e a]
  rfl

/-! ### Ticks without datagrams -/

theorem taken_none {t : Tick} (ht : t.arrivals = []) : taken e t = [] := by
  unfold taken
  rw [ht]
  rfl

theorem ne_arrive {t : Tick} (ht : t.arrivals = []) {s : EngineStep Frame}
    (h : s ∈ e.steps (.process t)) (a : Arrival) : s ≠ .arrive a := by
  rintro rfl
  rw [steps_process, taken_none ht] at h
  split at h
  · simp at h
  · simp at h

/-- Without datagrams frames are popped, but none comes or goes. -/
theorem Follows.kept_history {log : Log} (h : Follows c e log) {steps : List (EngineStep Frame)}
    (hsteps : ∀ s ∈ steps, ∀ a, s ≠ .arrive a) :
    (Machine.history Engine.step (Log.record c) e log steps).kept = log.kept := by
  induction steps generalizing e log with
  | nil => rfl
  | cons s rest ih =>
    show (Machine.history Engine.step (Log.record c) (e.step s).1 (Log.record c e s log) rest).kept = _
    rw [ih (follows_step h s) fun s' hs' => hsteps s' (List.mem_cons_of_mem s hs')]
    cases s with
    | arrive a => exact absurd rfl (hsteps _ (List.mem_cons_self ..) a)
    | mix isConnected nowMix =>
      unfold Log.record
      dsimp only
      cases hf : AudioPlatform.Core.findStream e c with
      | none => rfl
      | some i => exact (h.logged i (findStream_some hf)).kept_pop nowMix
    | _ => rfl

theorem ne_arrive_ticks {ticks : List Tick} (h : ∀ t ∈ ticks, t.arrivals = []) :
    ∀ s ∈ stepsOf e (ticks.map .process), ∀ a, s ≠ .arrive a := by
  induction ticks generalizing e with
  | nil => exact fun s hs => absurd hs List.not_mem_nil
  | cons t rest ih =>
    intro s hs
    rcases List.mem_append.mp hs with hs | hs
    · exact fun a => ne_arrive (h t (List.mem_cons_self ..)) hs a
    · exact ih (fun t' ht' => h t' (List.mem_cons_of_mem t ht')) s hs

/-! ### Draining -/

/-- The engine as a tick without datagrams comes to mix. -/
def Engine.mixing (e : Engine L) (t : Tick) : Engine L :=
  if e.connected then (ping (keepalive (transmit e).1 t.now).1 t.now).1 else e

theorem streams_mixing (e : Engine L) (t : Tick) : (e.mixing t).streams = e.streams := by
  unfold Engine.mixing
  split
  · rw [(sameTable_ping _ _).streams, (sameTable_keepalive _ _).streams, (sameTable_transmit _).streams]
  · rfl

theorem run_tick {t : Tick} (ht : t.arrivals = []) :
    (e.call (.process t)).1 = mix e.connected (e.mixing t) t.nowMix := by
  rw [← run_steps, steps_process, taken_none ht]
  unfold Engine.mixing
  by_cases hon : e.connected = true
  · rw [if_pos hon, if_pos hon, hon]
    simp only [List.map_nil, List.cons_append, List.nil_append, Machine.run, step_capture,
      step_keepalive, step_ping, step_mix]
  · rw [if_neg hon, if_neg hon, show e.connected = false by simpa using hon]
    simp only [Machine.run, step_mix]

theorem history_tick {t : Tick} (ht : t.arrivals = []) (log : Log) :
    Machine.history Engine.step (Log.record c) e log (e.steps (.process t)) =
      Log.record c (e.mixing t) (.mix e.connected t.nowMix) log := by
  rw [steps_process, taken_none ht]
  unfold Engine.mixing
  by_cases hon : e.connected = true
  · rw [if_pos hon, if_pos hon, hon]
    rfl
  · rw [if_neg hon, if_neg hon, show e.connected = false by simpa using hon]
    rfl

/-- A tick without datagrams pops a frame, if there is one. -/
theorem tick_pops {log : Log} (h : Follows c e log) (hi : Owns e c i) {t : Tick}
    (ht : t.arrivals = []) :
    Machine.history Engine.step (Log.record c) e log (e.steps (.process t)) =
      log.pop (e.streams i) t.nowMix ∧
    ∃ decoder, (e.call (.process t)).1.streams i =
      { (e.streams i).mixed t.nowMix with decoder := decoder } := by
  have hmixing : Follows c (e.mixing t) log := h.of_eq (streams_mixing e t)
  have hown : Owns (e.mixing t) c i := by
    unfold Owns
    rw [streams_mixing]
    exact hi
  rw [history_tick ht, record_mix hmixing hown, run_tick ht]
  have hmix := streams_mix e.connected (e.mixing t) t.nowMix i
  rw [streams_mixing] at hmix ⊢
  exact ⟨rfl, hmix⟩

/-- A frame that is there is popped at once if the clock has not moved since the last packet. -/
theorem popped_fresh {s : RemoteStream L} {jb : Jitter} (hact : s.active = true)
    (hjb : s.jitter = some jb) : s.popped s.lastRecvMs = (aeJitterPop jb).2 ∧
      s.mixed s.lastRecvMs = { s with jitter := some (aeJitterPop jb).1 } := by
  unfold RemoteStream.popped RemoteStream.mixed
  rw [hact, hjb, BitVec.sub_self]
  dsimp only
  rw [if_neg (by decide), if_neg (by decide), if_neg (by decide), if_neg (by decide)]
  exact ⟨rfl, rfl⟩

/-- As many ticks as there are frames in the buffer play them all. -/
theorem drain {log : Log} (h : Follows c e log) (hi : Owns e c i) : ∃ ticks : List Tick,
    (∀ t ∈ ticks, t.arrivals = []) ∧
    (Machine.history Engine.step (Log.record c) e log (stepsOf e (ticks.map .process))).played =
      log.kept := by
  induction hb : log.buffered generalizing e log with
  | nil =>
    refine ⟨[], fun t ht => absurd ht List.not_mem_nil, ?_⟩
    show log.played = log.played ++ log.buffered
    rw [hb, List.append_nil]
  | cons first rest ih =>
    have hlogged := h.logged i hi
    obtain ⟨jb, hjb⟩ : ∃ jb, (e.streams i).jitter = some jb := by
      refine Option.ne_none_iff_exists'.mp fun hnone => ?_
      rw [hlogged.absent hnone] at hb
      cases hb
    obtain ⟨hpopped, hmixed⟩ := popped_fresh hi.1 hjb
    have hhead := (hlogged.jitter jb hjb).pop.2.1
    rw [hb] at hhead
    have hpop : log.pop (e.streams i) (e.streams i).lastRecvMs =
        { log with buffered := rest, played := log.played ++ [first] } := by
      unfold Log.pop
      rw [hpopped, hhead, hb]
      rfl
    obtain ⟨hhistory, decoder, hstream⟩ :=
      tick_pops h hi (show (⟨[], 0, (e.streams i).lastRecvMs⟩ : Tick).arrivals = [] from rfl)
    have hrun := h.run (e.steps (.process ⟨[], 0, (e.streams i).lastRecvMs⟩))
    rw [run_steps, hhistory, hpop] at hrun
    rw [hmixed] at hstream
    have hown : Owns (e.call (.process ⟨[], 0, (e.streams i).lastRecvMs⟩)).1 c i := by
      unfold Owns
      rw [hstream]
      exact hi
    obtain ⟨ticks, hticks, hplayed⟩ := ih hrun hown rfl
    refine ⟨⟨[], 0, (e.streams i).lastRecvMs⟩ :: ticks, ?_, ?_⟩
    · intro t ht
      rcases List.mem_cons.mp ht with rfl | ht
      · rfl
      · exact hticks t ht
    · show (Machine.history Engine.step (Log.record c) e log (_ ++ stepsOf _ _)).played = _
      rw [Machine.history_append, hhistory, hpop, run_steps, hplayed, ← hpop]
      exact hlogged.kept_pop _

/-! ### Playout -/

theorem Ascending.sublist {a b : List DecodedPacket} (h : Ascending b) (hab : a.Sublist b) :
    Ascending a := List.Pairwise.sublist hab h

theorem played_of_kept (log : Log) : log.played <+: log.kept := List.prefix_append ..

/-- Unless what was played and what waits is in ascending order, further ticks show it. -/
theorem ascending_ticks_iff {log : Log} (h : Follows c e log) (hi : Owns e c i) :
    (∀ ticks : List Tick, (∀ t ∈ ticks, t.arrivals = []) → Ascending
      (Machine.history Engine.step (Log.record c) e log (stepsOf e (ticks.map .process))).played) ↔
      Ascending log.kept := by
  constructor
  · intro hall
    obtain ⟨ticks, hticks, hplayed⟩ := drain h hi
    rw [← hplayed]
    exact hall ticks hticks
  · intro hkept ticks hticks
    rw [← h.kept_history (ne_arrive_ticks hticks)] at hkept
    exact hkept.sublist (played_of_kept _).sublist

/-- **Playout order.** In every run of a new engine, after every step: the frames of client `c`
that were popped, and those that wait, entered its jitter buffers in that order, over all
the streams that it has had. So they are played in ascending order of the sender's numbers
if they came so, and what went unplayed with its buffer does not count. And as long as there
is a stream, they are played so however the ticks go on exactly if the others came so. -/
theorem playout_order_iff [Zero Frame] {config : Option AeConfig}
    (hnew : aeEngineCreate L config = some e) (c : BitVec 64) (calls : List (Call Frame)) :
    (∀ done, done <+: stepsOf e calls →
      (logOf c e done).played <+: (logOf c e done).kept ∧
      (logOf c e done).kept.Sublist (logOf c e done).pushed ∧
      (Ascending (logOf c e done).pushed → Ascending (logOf c e done).kept) ∧
      (Ascending (logOf c e done).kept → Ascending (logOf c e done).played)) ∧
    ∀ i, Owns (Machine.run Engine.call e calls) c i →
      ((∀ ticks : List Tick, (∀ t ∈ ticks, t.arrivals = []) →
          Ascending (logAfter c e (calls ++ ticks.map .process)).played) ↔
        Ascending (logAfter c e calls).kept) := by
  constructor
  · intro done _
    have hfifo := (follows_run hnew c done).fifo
    have hplayed := played_of_kept (logOf c e done)
    exact ⟨hplayed, hfifo, fun hpushed => hpushed.sublist hfifo,
      fun hkept => hkept.sublist hplayed.sublist⟩
  · intro i hi
    have hfollows := follows_run hnew c (stepsOf e calls)
    rw [run_stepsOf] at hfollows
    simp only [logAfter_append]
    exact ascending_ticks_iff hfollows hi

/-! ### A packet that comes twice -/

/-- The stream can decode and buffer. -/
def Sounds (s : RemoteStream toneLibrary) : Prop := s.decoder.isSome ∧ s.jitter.isSome

theorem Sounds.handsOut {s : RemoteStream toneLibrary} (h : Sounds s) (i : StreamIndex)
    (hdr : RtpHeader) (pcm : Pcm) : ∃ frame seq,
      s.handsOut i hdr [1] pcm = [.decode i [1], .push hdr i frame seq] := by
  obtain ⟨decoder, hdecoder⟩ := Option.isSome_iff_exists.mp h.1
  unfold RemoteStream.handsOut
  rw [hdecoder]
  exact ⟨_, _, if_pos (show (0 : Int) < aeFrameSize by decide)⟩

theorem Sounds.accepted {s : RemoteStream toneLibrary} (h : Sounds s) (pcm : Pcm) (now : BitVec 64) :
    Sounds (s.accepted [1] pcm now) := by
  obtain ⟨decoder, hdecoder⟩ := Option.isSome_iff_exists.mp h.1
  unfold RemoteStream.accepted
  rw [hdecoder]
  dsimp only
  split
  · exact ⟨rfl, by rw [Option.isSome_map]; exact h.2⟩
  · exact ⟨rfl, h.2⟩

/-- A tone that client 7 hears enters the jitter buffer of client 8's stream. -/
theorem pushes_tone {r : Engine toneLibrary} {log : Log} (hfollows : Follows 8 r log)
    (hsounds : ∀ i, Owns r 8 i → Sounds (r.streams i)) (hr : r.control = (listener 7).control)
    {q : BitVec 32} {a : Arrival} (hp : audioPacket (toneAt q) [1] = some a.data)
    (halloc : a.alloc = ⟨true, true, 0⟩)
    (hroom : (findStream r 8).isSome ∨ ∃ i, (r.streams i).active = false)
    (hshort : (log.before 8 r).buffered.length < 10) :
    (∃ frame, (Log.record 8 r (.arrive a) log).kept = (log.before 8 r).kept ++ [(a.data, frame)] ∧
      (Log.record 8 r (.arrive a) log).buffered = (log.before 8 r).buffered ++ [(a.data, frame)]) ∧
    ∀ i, Owns (receive r a).1 8 i → Sounds ((receive r a).1.streams i) := by
  have hacc := accepts_tone hr hp hroom
  have hid : lateHeader.clientId = 8 := rfl
  obtain ⟨i, hs, hstreams, hacts⟩ := streams_receive hacc
  have hrecord := record_accepted hacc.header hs log
  have hnext := follows_arrive hfollows a
  have hheld : Follows 8 (r.holding a) log := hfollows.of_eq rfl
  have hfor : Follows 8 (streamFor (r.holding a) 8 a.alloc).1 (log.before 8 r) :=
    hheld.streamFor 8 a.alloc
  rw [hid] at hs hstreams hacts hrecord
  have howns := streamFor_some hs
  have hstream : Sounds ((streamFor (r.holding a) 8 a.alloc).1.streams i) := by
    rcases streamFor_cases (r.holding a) 8 a.alloc with
      ⟨j, hf, heq⟩ | ⟨-, -, heq⟩ | ⟨-, -, j, -, heq⟩
    · rw [heq] at hs ⊢
      obtain rfl := Option.some.inj hs
      exact hsounds j (findStream_some hf)
    · rw [heq] at hs
      cases hs
    · rw [heq] at hs ⊢
      obtain rfl := Option.some.inj hs
      have hnew : ((r.holding a).opening 8 a.alloc j).streams j = newStream (r.holding a) 8 a.alloc :=
        Function.update_self ..
      dsimp only
      rw [hnew]
      unfold newStream Sounds
      rw [halloc]
      exact ⟨rfl, rfl⟩
  have hlogged := hfor.logged i howns
  obtain ⟨frame, seq, hout⟩ := hstream.handsOut i lateHeader r.decodeFrame
  obtain ⟨jb, hjb⟩ := Option.isSome_iff_exists.mp hstream.2
  rw [hrecord, hacts, hout]
  refine ⟨⟨frame, ?_⟩, ?_⟩
  · show (if RemoteStream.room _ _ _ then _ else _ : Log).kept = _ ∧
      (if RemoteStream.room _ _ _ then _ else _ : Log).buffered = _
    rw [if_pos ((hlogged.room hjb frame seq).mpr (by simpa using hshort))]
    exact ⟨(List.append_assoc ..).symm, rfl⟩
  · intro j hj
    have hown : Owns (receive r a).1 8 i := by
      unfold Owns
      rw [hstreams, Function.update_self, RemoteStream.accepted_active, RemoteStream.accepted_clientId]
      exact howns
    rw [hnext.unique j i hj hown, hstreams, Function.update_self]
    exact hstream.accepted ..

/-- Up to when these datagrams have arrived in the first tick on "channel-1". -/
def hearing (arrivals : List Arrival) : List (EngineStep (ℚ × ℚ)) :=
  stepsOf newEngine tuneIn ++ [.capture] ++ arrivals.map .arrive

theorem hearing_append (arrivals : List Arrival) (a : Arrival) :
    hearing (arrivals ++ [a]) = hearing arrivals ++ [.arrive a] := by
  unfold hearing
  rw [List.map_append, List.append_assoc, List.append_assoc, List.append_assoc]
  rfl

/-- Client 7 has heard the packets of client 8, which are now in its buffer. -/
structure HasHeard (arrivals : List Arrival) : Prop where
  control : (Machine.run Engine.step newEngine (hearing arrivals)).control = (listener 7).control
  room : (findStream (Machine.run Engine.step newEngine (hearing arrivals)) 8).isSome ∨
    ∃ i, ((Machine.run Engine.step newEngine (hearing arrivals)).streams i).active = false
  sounds : ∀ i, Owns (Machine.run Engine.step newEngine (hearing arrivals)) 8 i →
    Sounds ((Machine.run Engine.step newEngine (hearing arrivals)).streams i)
  packets : ((logOf 8 newEngine (hearing arrivals)).before 8
    (Machine.run Engine.step newEngine (hearing arrivals))).kept.map Prod.fst = arrivals.map (·.data)
  buffered : ((logOf 8 newEngine (hearing arrivals)).before 8
    (Machine.run Engine.step newEngine (hearing arrivals))).buffered.length = arrivals.length

theorem follows_newEngine (steps : List (EngineStep (ℚ × ℚ))) :
    Follows 8 (Machine.run Engine.step newEngine steps) (logOf 8 newEngine steps) :=
  follows_run create_newEngine 8 steps

theorem hasHeard_nil : HasHeard [] := by
  have hrun : Machine.run Engine.step newEngine (hearing []) = listener 7 := by
    unfold hearing
    rw [List.map_nil, List.append_nil]
    exact run_tuned
  have hnone : findStream (listener 7) 8 = none := by
    refine Option.not_isSome_iff_eq_none.mp fun h => ?_
    obtain ⟨i, hi, -⟩ := findStream_isSome.mp h
    cases hi
  constructor
  · rw [hrun]
  · rw [hrun]
    exact .inr ⟨⟨0, by decide⟩, rfl⟩
  · rw [hrun]
    exact fun i hi => absurd hi (not_owns hnone i)
  · rw [hrun, Log.before, hnone]
    rfl
  · rw [hrun, Log.before, hnone]
    rfl

theorem HasHeard.tone {arrivals : List Arrival} (h : HasHeard arrivals) (hshort : arrivals.length < 10)
    {q : BitVec 32} {a : Arrival} (hp : audioPacket (toneAt q) [1] = some a.data)
    (halloc : a.alloc = ⟨true, true, 0⟩) : HasHeard (arrivals ++ [a]) ∧
      ∃ i, Owns (Machine.run Engine.step newEngine (hearing (arrivals ++ [a]))) 8 i := by
  have hfollows := follows_newEngine (hearing arrivals)
  obtain ⟨⟨frame, hkept, hbuffered⟩, hsounds⟩ :=
    pushes_tone hfollows h.sounds h.control hp halloc h.room (by rw [h.buffered]; exact hshort)
  obtain ⟨hcontrol, hown, -⟩ := hears_tone h.control hp h.room (logOf 8 newEngine (hearing arrivals))
  have hfound := findStream_isSome.mpr hown
  have hrun : Machine.run Engine.step newEngine (hearing (arrivals ++ [a])) =
      (receive (Machine.run Engine.step newEngine (hearing arrivals)) a).1 := by
    rw [hearing_append, Machine.run_append]
    rfl
  have hlog : logOf 8 newEngine (hearing (arrivals ++ [a])) = Log.record 8
      (Machine.run Engine.step newEngine (hearing arrivals)) (.arrive a)
      (logOf 8 newEngine (hearing arrivals)) := by
    rw [hearing_append, logOf, Machine.history_append]
    rfl
  refine ⟨⟨?_, ?_, ?_, ?_, ?_⟩, ?_⟩
  · rw [hrun]
    exact hcontrol
  · rw [hrun]
    exact .inl hfound
  · rw [hrun]
    exact hsounds
  · rw [hrun, hlog, Log.before, if_pos hfound, hkept, List.map_append, h.packets, List.map_append]
    rfl
  · rw [hrun, hlog, Log.before, if_pos hfound, hbuffered, List.length_append, h.buffered,
      List.length_append]
    rfl
  · rw [hrun]
    exact hown

/-- The tick ends with the stream still there, if it looks at the clock at once. -/
theorem HasHeard.tick {arrivals : List Arrival} (h : HasHeard arrivals)
    (hn : arrivals.length ≤ maxRecvPerTick) (hdata : ∀ a ∈ arrivals, a.data ≠ [])
    (hi : Owns (Machine.run Engine.step newEngine (hearing arrivals)) 8 i) : ∃ nowMix,
    Owns (Machine.run Engine.call newEngine (tuneIn ++ [.process ⟨arrivals, 0, nowMix⟩])) 8 i ∧
      (logAfter 8 newEngine (tuneIn ++ [.process ⟨arrivals, 0, nowMix⟩])).kept.map Prod.fst =
        arrivals.map (·.data) := by
  have hfound := findStream_isSome.mpr ⟨i, hi⟩
  have hpackets := h.packets
  have hsounds := h.sounds i hi
  have hsteps : ∀ nowMix, stepsOf newEngine (tuneIn ++ [.process ⟨arrivals, 0, nowMix⟩]) =
      hearing arrivals ++ [.keepalive 0, .ping 0, .mix true nowMix] := by
    intro nowMix
    rw [stepsOf_hearing hn hdata]
    unfold hearing
    simp only [List.append_assoc, List.cons_append, List.nil_append]
  rw [Log.before, if_pos hfound] at hpackets
  obtain ⟨jb, hjb⟩ := Option.isSome_iff_exists.mp hsounds.2
  generalize hr : Machine.run Engine.step newEngine (hearing arrivals) = r at *
  obtain ⟨-, hmixed⟩ := popped_fresh hi.1 hjb
  refine ⟨(r.streams i).lastRecvMs, ?_, ?_⟩
  · have hstreams : (ping (keepalive r 0).1 0).1.streams = r.streams := by
      rw [(sameTable_ping _ _).streams, (sameTable_keepalive _ _).streams]
    obtain ⟨decoder, hmix⟩ := streams_mix true (ping (keepalive r 0).1 0).1 (r.streams i).lastRecvMs i
    rw [hstreams, hmixed] at hmix
    rw [← run_stepsOf, hsteps, Machine.run_append, hr]
    unfold Owns
    simp only [Machine.run, step_keepalive, step_ping, step_mix]
    rw [hmix]
    exact hi
  · unfold logAfter logOf
    rw [hsteps, Machine.history_append]
    have hnone : ∀ s ∈ ([.keepalive 0, .ping 0, .mix true (r.streams i).lastRecvMs] :
        List (EngineStep (ℚ × ℚ))), ∀ a, s ≠ .arrive a := by simp
    have hkept := (follows_newEngine (hearing arrivals)).kept_history hnone
    exact (congrArg (List.map Prod.fst) hkept).trans hpackets

/-- Of packets that were heard, the numbers tell whether the frames ascend. -/
theorem ascending_iff {packets : List DecodedPacket} {datas : List (List Byte)}
    (h : packets.map Prod.fst = datas) :
    Ascending packets ↔ (datas.map packetSequence).Pairwise (· < ·) := by
  unfold Ascending
  rw [← h, List.map_map, List.pairwise_map]
  rfl

/-- Two packets in order are played in order, however the ticks go on. -/
theorem playout_order_iff_tones : ∃ (a b : Arrival) (t : Tick), t.arrivals = [a, b] ∧
    Bears 1 8 0 a.data ∧ Bears 1 8 1 b.data ∧
    ∀ ticks : List Tick, (∀ t ∈ ticks, t.arrivals = []) →
      Ascending (logAfter 8 newEngine (tuneIn ++ [.process t] ++ ticks.map .process)).played := by
  obtain ⟨a, hp, hbears, hne, halloc, -⟩ := tone_arrives 0
  obtain ⟨b, hp', hbears', hne', halloc', -⟩ := tone_arrives 1
  have hfirst : HasHeard [a] := (hasHeard_nil.tone (by decide) hp halloc).1
  obtain ⟨hheard, i, hi⟩ : HasHeard [a, b] ∧ ∃ i,
      Owns (Machine.run Engine.step newEngine (hearing [a, b])) 8 i :=
    hfirst.tone (show 1 < 10 by decide) hp' halloc'
  obtain ⟨nowMix, hown, hpackets⟩ := hheard.tick (show 2 ≤ maxRecvPerTick by decide)
    (by simp [hne, hne']) hi
  refine ⟨a, b, ⟨[a, b], 0, nowMix⟩, rfl, hbears, hbears', ?_⟩
  obtain ⟨-, hiff⟩ := playout_order_iff create_newEngine 8 (tuneIn ++ [.process ⟨[a, b], 0, nowMix⟩])
  refine (hiff i hown).mpr ((ascending_iff hpackets).mpr ?_)
  simp [hbears.sequence, hbears'.sequence]

/-- The network delivers a packet twice, and it is played twice. -/
theorem played_twice : ∃ (a : Arrival) (nowMix : BitVec 64) (ticks : List Tick), Bears 1 8 0 a.data ∧
    (∀ t ∈ ticks, t.arrivals = []) ∧ ¬ Ascending (logAfter 8 newEngine
      (tuneIn ++ [.process ⟨[a, a], 0, nowMix⟩] ++ ticks.map .process)).played := by
  obtain ⟨a, hp, hbears, hne, halloc, -⟩ := tone_arrives 0
  have hfirst : HasHeard [a] := (hasHeard_nil.tone (by decide) hp halloc).1
  obtain ⟨hheard, i, hi⟩ : HasHeard [a, a] ∧ ∃ i,
      Owns (Machine.run Engine.step newEngine (hearing [a, a])) 8 i :=
    hfirst.tone (show 1 < 10 by decide) hp halloc
  obtain ⟨nowMix, hown, hpackets⟩ := hheard.tick (show 2 ≤ maxRecvPerTick by decide)
    (fun b hb => by simp at hb; rwa [hb]) hi
  have hfollows := follows_newEngine (stepsOf newEngine (tuneIn ++ [.process ⟨[a, a], 0, nowMix⟩]))
  rw [run_stepsOf] at hfollows
  refine ⟨a, nowMix, ?_⟩
  by_contra hnone
  have hkept := (ascending_ticks_iff hfollows hown).mp fun ticks hticks => by
    by_contra hbad
    rw [← logAfter, ← logAfter_append] at hbad
    exact hnone ⟨ticks, hbears, hticks, hbad⟩
  have hnumbers : ([a.data, a.data].map packetSequence).Pairwise (· < ·) :=
    (ascending_iff hpackets).mp hkept
  exact absurd (List.rel_of_pairwise_cons hnumbers (List.mem_singleton_self _)) (BitVec.lt_irrefl _)

end AudioPlatform.Core
