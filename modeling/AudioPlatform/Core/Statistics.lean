import AudioPlatform.Core.Continuity
import AudioPlatform.Core.Nonces
import AudioPlatform.Core.TableMoves

/-! What the statistics say of a run.

The engine counts the audio packets it hands to the socket, the datagrams it takes in, the frames it
conceals and the streams it holds. A packet counts as sent also where the socket is closed and refuses
it. The counts are those of the run, up to the width of the counter, whether or not allocations succeed;
the loss that it reports is none. -/
namespace AudioPlatform.Core
open Concurrency Maps

variable {Frame : Type} {L : Library Frame}

/-! ### What is counted -/

/-- The decoder makes up the frame that the stream gives to the mix. -/
def RemoteStream.Conceals (nowMix : BitVec 64) (s : RemoteStream L) : Bool :=
  match s.active, s.jitter with
  | true, some jb =>
    !(streamDestroyMs < nowMix - s.lastRecvMs) && !(streamTimeoutMs < nowMix - s.lastRecvMs) &&
      ((aeJitterPop jb).2.isNone && s.decoder.isSome && nowMix - s.lastRecvMs < 200)
  | _, _ => false

/-- The streams that a mix conceals a gap of. -/
def Engine.concealed (e : Engine L) (nowMix : BitVec 64) : List StreamIndex :=
  (List.finRange aeMaxUsersPerCh).filter fun i => (e.streams i).Conceals nowMix

/-- Audio packets handed to the socket, whether or not it takes them; datagrams taken in; frames
concealed. -/
structure Counts where
  handed : ℕ
  received : ℕ
  concealed : ℕ

def Counts.none : Counts := ⟨0, 0, 0⟩

/-- What a step adds. -/
def EngineStep.counts (e : Engine L) (s : EngineStep Frame) : Counts where
  handed := (audioPackets (e.step s).2).length
  received := match s with | .arrive _ => 1 | _ => 0
  concealed := match s with | .mix _ nowMix => (e.concealed nowMix).length | _ => 0

def Counts.record (e : Engine L) (s : EngineStep Frame) (g : Counts) : Counts where
  handed := g.handed + (s.counts e).handed
  received := g.received + (s.counts e).received
  concealed := g.concealed + (s.counts e).concealed

/-- The statistics are the counts, each in its width. The number of the next packet is that of the packets
before it. -/
structure StatisticsOf (e : Engine L) (g : Counts) : Prop where
  packetsSent : (aeEngineGetStats e).packetsSent = BitVec.ofNat 64 g.handed
  txSequence : e.txSequence = BitVec.ofNat 32 g.handed
  packetsReceived : (aeEngineGetStats e).packetsReceived = BitVec.ofNat 64 g.received
  bufferUnderruns : (aeEngineGetStats e).bufferUnderruns = (BitVec.ofNat 32 g.concealed).toInt
  activeStreams : (aeEngineGetStats e).activeStreams = (held e.holders).card
  packetLossPct : (aeEngineGetStats e).packetLossPct = 0

/-! ### The counters -/

structure Meters where
  packetsSent : BitVec 64
  txSequence : BitVec 32
  packetsReceived : BitVec 64
  bufferUnderruns : BitVec 32

def Engine.meters (e : Engine L) : Meters :=
  ⟨e.packetsSent, e.txSequence, e.packetsReceived, e.bufferUnderruns⟩

/-- The meters once a step is counted. -/
def Meters.add (m : Meters) (g : Counts) : Meters where
  packetsSent := m.packetsSent + BitVec.ofNat 64 g.handed
  txSequence := m.txSequence + BitVec.ofNat 32 g.handed
  packetsReceived := m.packetsReceived + BitVec.ofNat 64 g.received
  bufferUnderruns := m.bufferUnderruns + BitVec.ofNat 32 g.concealed

theorem Meters.add_none (m : Meters) : m.add .none = m := by
  simp [Meters.add, Counts.none]

theorem SameButStreams.meters {e e' : Engine L} (h : SameButStreams e e') : e'.meters = e.meters := by
  obtain ⟨_, _, _, rfl⟩ := h
  rfl

theorem meters_leaveChannel (e : Engine L) (channelId : CString) :
    (aeEngineLeaveChannel e channelId).1.meters = e.meters :=
  (sameButStreams_leaveChannel e channelId).meters

/-- No command is counted. -/
theorem meters_command (e : Engine L) {c : Call Frame} (hc : c.tick = none) :
    (e.call c).1.meters = e.meters := by
  cases c with
  | process t => cases hc
  | connect outcome now =>
    show (aeEngineConnect e outcome now).1.meters = _
    unfold aeEngineConnect
    dsimp only
    split <;> rfl
  | joinChannel channelId =>
    show (aeEngineJoinChannel e channelId).1.meters = _
    have henter : ∀ r : Engine L, (enterChannel r channelId).meters = r.meters := fun _ => rfl
    unfold aeEngineJoinChannel
    dsimp only
    split
    · rfl
    · rw [henter]
      split
      · exact meters_leaveChannel e e.channel.channelIdStr
      · rfl
  | leaveChannel channelId => exact meters_leaveChannel e channelId
  | leaveAllChannels =>
    show (aeEngineLeaveAllChannels e).meters = _
    unfold aeEngineLeaveAllChannels
    split
    · exact meters_leaveChannel e e.channel.channelIdStr
    · rfl
  | startTransmit channelId =>
    show (aeEngineStartTransmit e channelId).1.meters = _
    unfold aeEngineStartTransmit
    split <;> rfl
  | writeCapture samples =>
    show (aeEngineWriteCapture e samples).1.meters = _
    unfold aeEngineWriteCapture
    split <;> rfl
  | _ => rfl

/-- A packet that is handed to the socket is counted, once. -/
theorem meters_transmit (e : Engine L) : (transmit e).1.meters =
    e.meters.add ⟨(audioPackets (transmit e).2).length, 0, 0⟩ := by
  rcases transmit_outcomes e with h | ⟨-, h⟩ | ⟨-, payload, packet, hp, h⟩
  · rw [h]
    exact (Meters.add_none _).symm
  · rw [h]
    exact (Meters.add_none e.meters).symm
  · have hsent : audioPackets (.encode (e.captureRing.contents.take aeFrameSize) ::
        aeNetSend e.network packet : List (Action Frame)) = [packet] :=
      (audioPackets_send e.encoding.network hp).1
    rw [h]
    dsimp only
    rw [hsent]
    simp [Meters.add, Engine.meters, Engine.counting, Engine.encoding]

theorem meters_keepalive (e : Engine L) (now : BitVec 64) : (keepalive e now).1.meters = e.meters := by
  unfold keepalive
  dsimp only
  split <;> rfl

theorem meters_ping (e : Engine L) (now : BitVec 64) : (ping e now).1.meters = e.meters := by
  unfold ping
  split
  · split <;> rfl
  · rfl

theorem meters_acceptAudio (e : Engine L) (i : StreamIndex) (hdr : RtpHeader) (data : List Byte)
    (now : BitVec 64) : (acceptAudio e i hdr data now).1.meters = e.meters := by
  unfold acceptAudio
  dsimp only
  split <;> rfl

/-- Every datagram is counted, whatever becomes of it. -/
theorem meters_receive (e : Engine L) (a : Arrival) :
    (receive e a).1.meters = e.meters.add ⟨0, 1, 0⟩ := by
  have hhold : (e.holding a).meters = e.meters.add ⟨0, 1, 0⟩ := by
    simp [Meters.add, Engine.meters, Engine.holding]
  rw [← hhold]
  rcases receive_outcomes e a with (h | h) | ⟨hdr, -, -, -, h⟩ | ⟨hdr, data, e', i, -, hs, h⟩
  · rw [h]
  · rw [h]
    show (handlePong (e.holding a) a.now).meters = _
    unfold handlePong
    split <;> rfl
  · rw [h]
    exact (sameButStreams_dropping _ a hdr).meters
  · have hsame : SameButStreams (e.holding a) (streamFor (e.holding a) hdr.clientId a.alloc).1 :=
      sameButStreams_streamFor
    rw [hs] at hsame
    rw [h, meters_acceptAudio]
    exact hsame.meters

/-! ### Mixing -/

section Loop
variable {nowMix : BitVec 64}

/-- A frame that is concealed is counted. -/
theorem meters_mixStream (nowMix : BitVec 64) (m : Mixing L) (i : StreamIndex) :
    (mixStream nowMix m i).engine.meters =
      m.engine.meters.add ⟨0, 0, if (m.engine.streams i).Conceals nowMix then 1 else 0⟩ := by
  have hzero : ∀ r : Meters, r.add ⟨0, 0, 0⟩ = r := Meters.add_none
  unfold mixStream RemoteStream.Conceals
  dsimp only
  split
  · rename_i h
    rw [h]
    exact (hzero _).symm
  · rename_i h hj
    rw [h, hj]
    exact (hzero _).symm
  · rename_i jb h hj
    rw [h, hj]
    dsimp only
    split
    · rename_i hstale
      rw [(sameButStreams_destroyStream m.engine i).meters]
      simp [hstale, hzero]
    · rename_i hstale
      split
      · rename_i hsilent
        simp [hsilent, hzero]
      · rename_i hsilent
        split
        · rename_i frame hpop
          simp [hpop, hzero, Mixing.add]
          rfl
        · rename_i hpop
          split
          · rename_i hd
            simp [hd, hzero]
            rfl
          · rename_i decoder hd
            split
            · rename_i hshort
              have hshort : nowMix - (m.engine.streams i).lastRecvMs < 200#64 := hshort
              simp [hstale, hsilent, hpop, hd, hshort, Mixing.add, Meters.add, Engine.meters]
            · rename_i hshort
              have hshort : ¬ nowMix - (m.engine.streams i).lastRecvMs < 200#64 := hshort
              simp [hshort, hzero]
              rfl

theorem meters_loop (nowMix : BitVec 64) {slots : List StreamIndex} (hnodup : slots.Nodup)
    (m : Mixing L) : (slots.foldl (mixStream nowMix) m).engine.meters = m.engine.meters.add
      ⟨0, 0, (slots.filter fun i => (m.engine.streams i).Conceals nowMix).length⟩ := by
  induction slots generalizing m with
  | nil => exact (Meters.add_none _).symm
  | cons i rest ih =>
    obtain ⟨hi, hrest⟩ := List.nodup_cons.mp hnodup
    obtain ⟨decoder, hstreams⟩ := streams_mixStream nowMix m i
    -- the turn at `i` leaves the streams in the slots to come as they are
    have hlater : rest.filter (fun j => ((mixStream nowMix m i).engine.streams j).Conceals nowMix) =
        rest.filter fun j => (m.engine.streams j).Conceals nowMix := by
      refine List.filter_congr fun j hj => ?_
      have hji : j ≠ i := by
        rintro rfl
        exact hi hj
      rw [hstreams, Function.update_of_ne hji]
    rw [List.foldl_cons, ih hrest, meters_mixStream, hlater, List.filter_cons]
    by_cases h : (m.engine.streams i).Conceals nowMix = true
    · simp [h, Meters.add, BitVec.ofNat_add, BitVec.add_assoc, BitVec.add_comm 1#32]
    · simp [h, Meters.add]

end Loop

theorem meters_mix (isConnected : Bool) (e : Engine L) (nowMix : BitVec 64) :
    (mix isConnected e nowMix).meters = e.meters.add ⟨0, 0, (e.concealed nowMix).length⟩ := by
  have hloop := meters_loop nowMix (List.nodup_finRange aeMaxUsersPerCh) ⟨e, []⟩
  obtain ⟨mixer, playbackRing, h⟩ := mix_eq isConnected e nowMix
  rw [h]
  unfold Engine.concealed
  generalize (List.finRange aeMaxUsersPerCh).foldl (mixStream nowMix) ⟨e, []⟩ = m at hloop ⊢
  exact hloop

/-- **A step moves the meters by what is counted of it.** -/
theorem meters_step (e : Engine L) (s : EngineStep Frame) :
    (e.step s).1.meters = e.meters.add (s.counts e) := by
  have hquiet : ∀ acts : List (Action Frame), (∀ act ∈ acts, act.Service) →
      (audioPackets acts).length = 0 := fun acts h =>
    List.length_eq_zero_iff.mpr (audioPackets_eq_nil fun act hact => (h act hact).audio)
  unfold EngineStep.counts
  cases s with
  | command c hc =>
    dsimp only
    rw [step_command, meters_command e hc, audioPackets_call e (Call.not_ticks hc)]
    exact (Meters.add_none _).symm
  | capture => exact meters_transmit e
  | arrive a =>
    have hnone : audioPackets (receive e a).2 = [] :=
      audioPackets_eq_nil fun act hact => (mem_receive hact).1.audio
    dsimp only
    rw [step_arrive, hnone, meters_receive]
    rfl
  | keepalive now =>
    dsimp only
    rw [step_keepalive, meters_keepalive, hquiet _ fun _ => service_keepalive]
    exact (Meters.add_none _).symm
  | ping now =>
    dsimp only
    rw [step_ping, meters_ping, hquiet _ fun _ => service_ping]
    exact (Meters.add_none _).symm
  | mix isConnected nowMix =>
    dsimp only
    rw [step_mix, meters_mix]
    rfl

/-! ### The streams -/

/-- Both counts are the number of slots that are held. -/
structure CountsHeld (e : Engine L) : Prop where
  streamCount : e.streamCount = (held e.holders).card
  activeStreams : e.activeStreams = (held e.holders).card

theorem countsHeld_invariant : TableInvariant (L := L) CountsHeld where
  same h he :=
    ⟨by rw [h.streamCount, h.holders, he.streamCount], by rw [h.activeStreams, h.holders, he.activeStreams]⟩
  opening {e c i} alloc hf hi he := by
    have hcard : (held (e.opening c alloc i).holders).card = (held e.holders).card + 1 := by
      rw [holders_opening, card_held_take (holders_eq_none.mpr hi)]
    have hcount : (e.opening c alloc i).streamCount = (held e.holders).card + 1 := by
      rw [← he.streamCount]
      rfl
    refine ⟨by rw [hcard, hcount, Nat.cast_succ], ?_⟩
    rw [hcard, Nat.cast_succ, ← hcount]
    rfl
  destroy {e i} hi he := by
    have hcard : (held (destroyStream e i).holders).card + 1 = (held e.holders).card := by
      rw [holders_destroyStream hi]
      exact card_held_clear (holders_eq_some.mpr ⟨hi, rfl⟩)
    have hcount := he.streamCount
    have hboth : (destroyStream e i).streamCount = e.streamCount - 1 ∧
        (destroyStream e i).activeStreams = e.streamCount - 1 := by
      unfold destroyStream
      rw [if_neg (by simp [hi])]
      exact ⟨rfl, rfl⟩
    exact ⟨by omega, by omega⟩
  turn h he :=
    ⟨by rw [h.continues.streamCount, h.continues.holders, he.streamCount],
      by rw [h.continues.activeStreams, h.continues.holders, he.activeStreams]⟩

/-! ### The loss -/

/-- The tracker misses no packet: it waits for the number after the greatest, which it is always
given, or the numbers have come to their end. -/
structure RtpSeqTracker.Unbroken (t : RtpSeqTracker) : Prop where
  lost : t.lost = 0
  next : t.received = 0 ∨ t.nextSeq = t.maxSeq + 1 ∨ t.maxSeq = BitVec.allOnes 32 ∧ t.nextSeq = 1

theorem unbroken_init : aeRtpSeqInit.Unbroken := ⟨rfl, .inl rfl⟩

theorem RtpSeqTracker.Unbroken.update {t : RtpSeqTracker} (h : t.Unbroken) :
    (aeRtpSeqUpdate t (t.maxSeq + 1)).1.Unbroken := by
  unfold aeRtpSeqUpdate
  dsimp only
  split
  · exact ⟨h.lost, .inr (.inl rfl)⟩
  · rename_i hfirst
    split
    · rename_i hnext
      refine ⟨h.lost, .inr ?_⟩
      dsimp only
      split
      · exact .inl rfl
      · rename_i hwrap
        have hlast : t.maxSeq = BitVec.allOnes 32 := by
          have := t.maxSeq.isLt
          apply BitVec.eq_of_toNat_eq
          rw [BitVec.lt_def, BitVec.toNat_add] at hwrap
          simp only [BitVec.ofNat_eq_ofNat, BitVec.toNat_ofNat, BitVec.toNat_allOnes] at hwrap ⊢
          omega
        exact .inr ⟨hlast, by rw [hlast]; rfl⟩
    · rename_i hnext
      rcases h.next with hnone | hsucc | ⟨hmax, hone⟩
      · rw [hnone] at hfirst
        exact absurd rfl hfirst
      · exact absurd hsucc.symm hnext
      · -- the numbers start again at 0, and 1 is waited for
        rw [hmax, hone]
        rw [if_neg (by decide), if_neg (by decide)]
        exact ⟨h.lost, .inr (.inr ⟨rfl, rfl⟩)⟩

def Unbroken (e : Engine L) : Prop :=
  ∀ i, (e.streams i).active = true → (e.streams i).seqTracker.Unbroken

theorem unbroken_update {e e' : Engine L} {i : StreamIndex} (he : Unbroken e)
    (hothers : ∀ j, j ≠ i → e'.streams j = e.streams j)
    (hi : (e'.streams i).active = true → (e'.streams i).seqTracker.Unbroken) : Unbroken e' := by
  intro j hj
  by_cases hji : j = i
  · subst hji
    exact hi hj
  · rw [hothers j hji] at hj ⊢
    exact he j hj

theorem unbroken_invariant : TableInvariant (L := L) Unbroken where
  same h he := by
    intro i hi
    rw [h.streams] at hi ⊢
    exact he i hi
  opening {e c i} alloc _ _ he := by
    refine unbroken_update (i := i) he (fun j hj => Function.update_of_ne hj ..) fun _ => ?_
    show (Function.update e.streams i _ i).seqTracker.Unbroken
    rw [Function.update_self]
    exact unbroken_init
  destroy {e i} hi he := by
    have hstreams := streams_destroyStream hi
    refine unbroken_update (i := i) he (fun j hj => by rw [hstreams, Function.update_of_ne hj]) ?_
    rw [hstreams, Function.update_self]
    exact fun hactive => by cases hactive
  turn {now i e e'} h he := by
    refine unbroken_update (i := i) he h.continues.others fun hactive => ?_
    rw [h.continues.goesOn.active] at hactive
    rcases h.tracker with hsame | hnext
    · rw [hsame]
      exact he i hactive
    · rw [hnext]
      exact (he i hactive).update

/-- Without a packet lost, no loss is reported. -/
theorem packetLossPct_unbroken {e : Engine L} (h : Unbroken e) :
    (aeEngineGetStats e).packetLossPct = 0 := by
  have htotal : ∀ (slots : List StreamIndex) (total : BitVec 32 × BitVec 32), total.1 = 0 →
      (totals e slots total).1 = 0 := by
    intro slots
    induction slots with
    | nil => exact fun _ h => h
    | cons i rest ih =>
      intro total hzero
      refine ih _ ?_
      dsimp only
      split
      · rename_i hi
        rw [hzero, (h i hi).lost]
        rfl
      · exact hzero
  have hlost := htotal (List.finRange aeMaxUsersPerCh) (0, 0) rfl
  unfold aeEngineGetStats
  generalize totals e (List.finRange aeMaxUsersPerCh) (0, 0) = total at hlost ⊢
  obtain ⟨lost, received⟩ := total
  dsimp only at hlost ⊢
  rw [hlost]
  split
  · simp
  · rfl

/-! ### Runs -/

theorem meters_run (e : Engine L) (steps : List (EngineStep Frame)) (g : Counts) {m : Meters}
    (h : e.meters = m.add g) : (Machine.run Engine.step e steps).meters =
      m.add (Machine.history Engine.step Counts.record e g steps) := by
  have hadd : ∀ g g' : Counts, (m.add g).add g' =
      m.add ⟨g.handed + g'.handed, g.received + g'.received, g.concealed + g'.concealed⟩ := by
    intro g g'
    simp [Meters.add, BitVec.ofNat_add, BitVec.add_assoc]
  have hstep : ∀ (e : Engine L) g s, e.meters = m.add g →
      (e.step s).1.meters = m.add (Counts.record e s g) := by
    intro e g s h
    rw [meters_step, h, hadd]
    rfl
  exact Machine.history_invariant hstep h steps

/-- What is handed to the socket is what the steps send. -/
theorem handed_history (e : Engine L) (g : Counts) (steps : List (EngineStep Frame)) :
    (Machine.history Engine.step Counts.record e g steps).handed =
      g.handed + (audioPackets (Machine.outputs Engine.step e steps)).length := by
  induction steps generalizing e g with
  | nil => rfl
  | cons s rest ih =>
    have hsplit : audioPackets ((e.step s).2 ++ Machine.outputs Engine.step (e.step s).1 rest) =
        audioPackets (e.step s).2 ++ audioPackets (Machine.outputs Engine.step (e.step s).1 rest) :=
      List.filterMap_append
    show (Machine.history Engine.step Counts.record (e.step s).1 (Counts.record e s g) rest).handed =
      g.handed + (audioPackets ((e.step s).2 ++ Machine.outputs Engine.step (e.step s).1 rest)).length
    rw [ih, hsplit, List.length_append, ← Nat.add_assoc]
    rfl

/-- **The statistics of a run.** They are the counts, and the packets that are counted as sent are the audio
packets that the run hands to the socket. -/
theorem statistics_exact [Zero Frame] {config : Option AeConfig} {e : Engine L}
    (hnew : aeEngineCreate L config = some e) (calls : List (Call Frame)) :
    StatisticsOf (Machine.run Engine.call e calls)
        (Machine.history Engine.step Counts.record e .none (stepsOf e calls)) ∧
      (Machine.history Engine.step Counts.record e .none (stepsOf e calls)).handed =
        (audioPackets (Machine.outputs Engine.call e calls)).length := by
  have hhanded := handed_history e .none (stepsOf e calls)
  rw [outputs_stepsOf] at hhanded
  refine ⟨?_, hhanded.trans (Nat.zero_add _)⟩
  have hzero : e.meters = ⟨0, 0, 0, 0⟩ := by
    unfold aeEngineCreate at hnew
    simp only [Option.bind_eq_bind, Option.bind_eq_some_iff, Option.pure_def, Option.some.injEq] at hnew
    obtain ⟨_, -, _, -, _, -, rfl⟩ := hnew
    rfl
  have hmeters := meters_run e (stepsOf e calls) .none (Meters.add_none e.meters).symm
  rw [run_stepsOf, hzero] at hmeters
  have hstart : ∀ i, (e.streams i).active = false := by
    intro i
    rw [(fresh_create hnew).streams i]
    rfl
  have hnone : (held e.holders).card = 0 := by
    rw [held_eq_empty fun i => holders_eq_none.mpr (hstart i), Finset.card_empty]
  have hheld : CountsHeld e :=
    ⟨by rw [hnone, (idle_create hnew).streamCount]; rfl, by rw [hnone, (idle_create hnew).activeStreams]; rfl⟩
  have hunbroken : Unbroken e := fun i hi => by cases hi.symm.trans (hstart i)
  generalize Machine.history Engine.step Counts.record e .none (stepsOf e calls) = g at hmeters ⊢
  constructor
  · exact (congrArg Meters.packetsSent hmeters).trans (BitVec.zero_add _)
  · exact (congrArg Meters.txSequence hmeters).trans (BitVec.zero_add _)
  · exact (congrArg Meters.packetsReceived hmeters).trans (BitVec.zero_add _)
  · exact congrArg BitVec.toInt ((congrArg Meters.bufferUnderruns hmeters).trans (BitVec.zero_add _))
  · exact (countsHeld_invariant.run hheld calls).activeStreams
  · exact packetLossPct_unbroken (unbroken_invariant.run hunbroken calls)

set_option maxRecDepth 4000 in
/-- A client that has said one frame counts one packet. -/
theorem statistics_exact_talk :
    (aeEngineGetStats (Machine.run Engine.call newEngine (tuneIn ++ talk silence))).packetsSent = 1 := by
  have hone : (audioPackets (Machine.outputs Engine.call newEngine (tuneIn ++ talk silence))).length = 1 := by
    decide +kernel
  obtain ⟨hstatistics, hhanded⟩ := statistics_exact create_newEngine (tuneIn ++ talk silence)
  have hsent := hstatistics.packetsSent
  rwa [hhanded, hone] at hsent

end AudioPlatform.Core
