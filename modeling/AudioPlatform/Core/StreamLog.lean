import AudioPlatform.Core.Isolation
import AudioPlatform.Core.JitterFifo
import AudioPlatform.Core.Nonces
import AudioPlatform.Core.Steps

/-! What becomes of the packets of one sender.

Beside the engine a log is kept of one client: which packets were accepted since its stream
was opened, which of their frames entered the jitter buffer, and which left it. A stream
that ends takes its buffer along, and the next one starts with an empty one; what was played
stays played. No step sees the log. `follows_run` says how the stream and the log go
together in every run of a new engine. -/
namespace AudioPlatform.Core
open Concurrency

variable {Frame : Type} {L : Library Frame} {e : Engine L} {c : BitVec 64} {i : StreamIndex}

/-- A packet, and the frame that was decoded from it. -/
abbrev DecodedPacket := List Byte × Pcm

structure Log where
  /-- The packets that were accepted since the stream was opened. -/
  heard : List (List Byte)
  /-- The frames that entered a jitter buffer of the client. -/
  pushed : List DecodedPacket
  /-- The frames that are in the one of its stream. -/
  buffered : List DecodedPacket
  /-- The frames that were popped. -/
  played : List DecodedPacket

def Log.empty : Log := ⟨[], [], [], []⟩

/-- The frames that entered a buffer and did not go with it: those that were popped, and those
that wait. -/
def Log.kept (log : Log) : List DecodedPacket := log.played ++ log.buffered

/-- Whether a frame enters the jitter buffer. -/
def RemoteStream.room (s : RemoteStream L) (frame : Pcm) (seq : BitVec 32) : Bool :=
  match s.jitter with
  | none => false
  | some jb => (aeJitterPush jb frame seq).2 = 0

/-- A packet is taken in on the stream `s`, which hands out `acts`. -/
def Log.accept (log : Log) (s : RemoteStream L) (packet : List Byte) : List (Action Frame) → Log
  | [.decode _ _] => { log with heard := log.heard ++ [packet] }
  | [.decode _ _, .push _ _ frame seq] =>
    if s.room frame seq then
      { log with
        heard := log.heard ++ [packet]
        pushed := log.pushed ++ [(packet, frame)]
        buffered := log.buffered ++ [(packet, frame)] }
    else { log with heard := log.heard ++ [packet] }
  | _ => log

/-- What is popped from the stream `s` comes from the packet at the head of the buffer. -/
def Log.pop (log : Log) (s : RemoteStream L) (nowMix : BitVec 64) : Log :=
  match s.popped nowMix, log.buffered with
  | some frame, (packet, _) :: rest =>
    { log with buffered := rest, played := log.played ++ [(packet, frame)] }
  | _, _ => log

/-- The log as a datagram comes: a stream that it may open has heard nothing, and its buffer is
empty. -/
def Log.before (log : Log) (c : BitVec 64) (e : Engine L) : Log :=
  if (findStream e c).isSome then log else { log with heard := [], buffered := [] }

/-- What a step adds to the log of the client `c`. -/
def Log.record (c : BitVec 64) (e : Engine L) : EngineStep Frame → Log → Log
  | .arrive a, log =>
    let log := log.before c e
    match packetHeader a.data, streamFor (e.holding a) c a.alloc with
    | some hdr, (e', some i) =>
      if hdr.clientId = c then log.accept (e'.streams i) a.data (receive e a).2 else log
    | _, _ => log
  | .mix _ nowMix, log =>
    match findStream e c with
    | some i => log.pop (e.streams i) nowMix
    | none => log
  | _, log => log

/-! ### The stream and its log -/

/-- The tracker after so many packets: each is given the number after the greatest so far. -/
def trackerAfter : Nat → RtpSeqTracker
  | 0 => aeRtpSeqInit
  | k + 1 => (aeRtpSeqUpdate (trackerAfter k) ((trackerAfter k).maxSeq + 1)).1

/-- The tracker has counted what was heard, and the jitter buffer is a queue of what is in it. -/
structure Logged (s : RemoteStream L) (log : Log) : Prop where
  tracker : s.seqTracker = trackerAfter log.heard.length
  jitter : ∀ jb, s.jitter = some jb → Queues 10 jb (log.buffered.map Prod.snd)
  absent : s.jitter = none → log.buffered = []

/-- What was popped or waits entered in that order. -/
def Log.Fifo (log : Log) : Prop := log.kept.Sublist log.pushed

theorem Logged.congr {s s' : RemoteStream L} {log : Log} (h : Logged s log)
    (ht : s'.seqTracker = s.seqTracker) (hj : s'.jitter = s.jitter) : Logged s' log :=
  ⟨ht.trans h.tracker, fun jb hjb => h.jitter jb (hj.symm.trans hjb), fun hn => h.absent (hj.symm.trans hn)⟩

theorem logged_newStream (e : Engine L) (c : BitVec 64) (alloc : Allocation) (log : Log) :
    Logged (newStream e c alloc) { log with heard := [], buffered := [] } := by
  refine ⟨rfl, fun jb hjb => ?_, fun _ => rfl⟩
  unfold newStream at hjb
  dsimp only at hjb
  split at hjb
  · obtain rfl := Option.some.inj hjb
    exact queues_create rfl
  · cases hjb

/-- A frame enters the buffer if there are fewer than ten in it. -/
theorem Logged.room {s : RemoteStream L} {log : Log} (h : Logged s log) {jb : Jitter}
    (hjb : s.jitter = some jb) (frame : Pcm) (seq : BitVec 32) :
    s.room frame seq = true ↔ (log.buffered.map Prod.snd).length < 10 := by
  have hqueue := h.jitter jb hjb
  have hroom : s.room frame seq = decide ((aeJitterPush jb frame seq).2 = 0) := by
    unfold RemoteStream.room
    rw [hjb]
  rw [hroom, decide_eq_true_iff]
  by_cases hlen : (log.buffered.map Prod.snd).length < 10
  · exact ⟨fun _ => hlen, fun _ => (hqueue.push hlen (by omega) frame seq).2⟩
  · rw [hqueue.full hlen]
    show (-1 : Int) = 0 ↔ _
    exact ⟨fun h => absurd h (by decide), fun h => absurd h hlen⟩

theorem Logged.accept {s : RemoteStream L} {log : Log} (h : Logged s log) (packet : List Byte)
    (i : StreamIndex) (hdr : RtpHeader) (data : List Byte) (pcm : Pcm) (now : BitVec 64) :
    Logged (s.accepted data pcm now) (log.accept s packet (s.handsOut i hdr data pcm)) := by
  have htracker : (aeRtpSeqUpdate s.seqTracker (s.seqTracker.maxSeq + 1)).1 =
      trackerAfter (log.heard ++ [packet]).length := by
    rw [h.tracker, List.length_append, List.length_singleton]
    rfl
  unfold RemoteStream.accepted RemoteStream.handsOut
  dsimp only
  rw [htracker]
  generalize aeOpusDecode s.decoder data pcm = decoded
  by_cases hdecoded : 0 < decoded.2.1
  · rw [if_pos hdecoded, if_pos hdecoded]
    generalize (trackerAfter (log.heard ++ [packet]).length).maxSeq = seq
    show Logged _ (if s.room decoded.2.2 seq then _ else _)
    by_cases hroom : s.room decoded.2.2 seq = true
    · rw [if_pos hroom]
      refine ⟨rfl, ?_, fun hnone => ?_⟩
      · intro jb' hjb'
        obtain ⟨jb, hjb, rfl⟩ := Option.map_eq_some_iff.mp hjb'
        have hlen := (h.room hjb _ _).mp hroom
        show Queues 10 _ ((log.buffered ++ [(packet, decoded.2.2)]).map Prod.snd)
        rw [List.map_append]
        exact ((h.jitter jb hjb).push hlen (by omega) _ _).1
      · unfold RemoteStream.room at hroom
        rw [Option.map_eq_none_iff.mp hnone] at hroom
        cases hroom
    · rw [if_neg hroom]
      refine ⟨rfl, ?_, fun hnone => h.absent (Option.map_eq_none_iff.mp hnone)⟩
      intro jb' hjb'
      obtain ⟨jb, hjb, rfl⟩ := Option.map_eq_some_iff.mp hjb'
      rw [h.room hjb] at hroom
      show Queues 10 (aeJitterPush jb decoded.2.2 seq).1 _
      rw [(h.jitter jb hjb).full hroom]
      exact h.jitter jb hjb
  · rw [if_neg hdecoded, if_neg hdecoded]
    exact ⟨rfl, h.jitter, h.absent⟩

theorem Log.Fifo.accept {log : Log} (h : log.Fifo) (s : RemoteStream L) (packet : List Byte)
    (acts : List (Action Frame)) : (log.accept s packet acts).Fifo := by
  unfold Log.accept
  split
  · exact h
  · split
    · show (log.played ++ (log.buffered ++ _)).Sublist (log.pushed ++ _)
      rw [← List.append_assoc]
      exact List.Sublist.append h (.refl _)
    · exact h
  · exact h

/-- What is popped is the frame at the head of the queue. -/
theorem Logged.mix {s : RemoteStream L} {log : Log} (h : Logged s log) {nowMix : BitVec 64}
    (hkept : (s.mixed nowMix).active = true) (decoder : Option L.Decoder) :
    Logged { s.mixed nowMix with decoder := decoder } (log.pop s nowMix) := by
  unfold Log.pop
  rcases mixed_cases hkept with ⟨hmixed, hpopped⟩ | ⟨jb, hjb, hmixed, hpopped⟩
  · rw [hmixed, hpopped]
    exact h.congr rfl rfl
  · obtain ⟨hqueue, hhead, -⟩ := (h.jitter jb hjb).pop
    rw [hmixed, hpopped, hhead]
    cases hb : log.buffered with
    | nil =>
      rw [hb] at hqueue
      refine ⟨h.tracker, ?_, fun hnone => by cases hnone⟩
      rintro _ ⟨⟩
      show Queues 10 (aeJitterPop jb).1 (log.buffered.map Prod.snd)
      rw [hb]
      exact hqueue
    | cons first rest =>
      rw [hb] at hqueue
      refine ⟨h.tracker, ?_, fun hnone => by cases hnone⟩
      rintro _ ⟨⟩
      exact hqueue

theorem popped_eq_some {s : RemoteStream L} {nowMix : BitVec 64} {frame : Pcm}
    (h : s.popped nowMix = some frame) : ∃ jb, s.jitter = some jb ∧ (aeJitterPop jb).2 = some frame := by
  unfold RemoteStream.popped at h
  split at h
  · rename_i jb _ hjb
    split at h
    · cases h
    · split at h
      · cases h
      · exact ⟨jb, hjb, h⟩
  · cases h

/-- A frame that is popped was the next to be played. -/
theorem Logged.kept_pop {s : RemoteStream L} {log : Log} (h : Logged s log) (nowMix : BitVec 64) :
    (log.pop s nowMix).kept = log.kept := by
  unfold Log.pop
  cases hp : s.popped nowMix with
  | none => rfl
  | some frame =>
    cases hb : log.buffered with
    | nil => rfl
    | cons first rest =>
      obtain ⟨jb, hjb, hpop⟩ := popped_eq_some hp
      have hhead := (h.jitter jb hjb).pop.2.1
      rw [hpop, hb] at hhead
      obtain rfl : frame = first.2 := Option.some.inj hhead
      show log.played ++ [(first.1, first.2)] ++ rest = log.played ++ log.buffered
      rw [hb, List.append_assoc]
      rfl

theorem pushed_pop (log : Log) (s : RemoteStream L) (nowMix : BitVec 64) :
    (log.pop s nowMix).pushed = log.pushed := by
  unfold Log.pop
  split
  · rfl
  · rfl

/-! ### The client and the log -/

/-- The stream in this slot is the client's. -/
def Owns (e : Engine L) (c : BitVec 64) (i : StreamIndex) : Prop :=
  (e.streams i).active = true ∧ (e.streams i).clientId = c

/-- The client has one stream at most, and the log is that stream's. -/
structure Follows (c : BitVec 64) (e : Engine L) (log : Log) : Prop where
  unique : ∀ i j, Owns e c i → Owns e c j → i = j
  logged : ∀ i, Owns e c i → Logged (e.streams i) log
  fifo : log.Fifo

theorem not_owns (h : findStream e c = none) (i : StreamIndex) : ¬ Owns e c i := by
  intro hi
  have := findStream_isSome.mpr ⟨i, hi⟩
  rw [h] at this
  cases this

/-- Without a stream every log will do. -/
theorem follows_of_none (h : findStream e c = none) {log : Log} (hfifo : log.Fifo) :
    Follows c e log :=
  ⟨fun i _ hi _ => absurd hi (not_owns h i), fun i hi => absurd hi (not_owns h i), hfifo⟩

theorem Follows.findStream {log : Log} (h : Follows c e log) (hi : Owns e c i) :
    findStream e c = some i := by
  obtain ⟨j, hj⟩ := Option.isSome_iff_exists.mp (findStream_isSome.mpr ⟨i, hi⟩)
  rw [hj, h.unique j i (findStream_some hj) hi]

/-- What leaves each stream as it is, or ends it, leaves the log. -/
theorem Follows.of_streams {e' : Engine L} {log : Log} (h : Follows c e log)
    (hstreams : ∀ i, Owns e' c i → Owns e c i ∧ Logged (e'.streams i) log) : Follows c e' log :=
  ⟨fun i j hi hj => h.unique i j (hstreams i hi).1 (hstreams j hj).1, fun i hi => (hstreams i hi).2,
    h.fifo⟩

theorem Follows.of_eq {e' : Engine L} {log : Log} (h : Follows c e log)
    (hstreams : e'.streams = e.streams) : Follows c e' log := by
  refine h.of_streams fun i hi => ?_
  unfold Owns at hi
  rw [hstreams] at hi ⊢
  exact ⟨hi, h.logged i hi⟩

theorem Follows.before {log : Log} (h : Follows c e log) : Follows c e (log.before c e) := by
  unfold Log.before
  split
  · exact h
  · rename_i hnone
    refine follows_of_none (Option.not_isSome_iff_eq_none.mp hnone) ?_
    show (log.played ++ []).Sublist log.pushed
    rw [List.append_nil]
    exact (List.sublist_append_left ..).trans h.fifo

/-- A stream that is opened for the client starts with an empty buffer. -/
theorem Follows.streamFor {log : Log} (h : Follows c e log) (d : BitVec 64) (alloc : Allocation) :
    Follows c (streamFor e d alloc).1 (log.before c e) := by
  have hsame : Follows c e (log.before c e) := h.before
  rcases streamFor_cases e d alloc with ⟨i, -, heq⟩ | ⟨-, -, heq⟩ | ⟨hnone, -, i, hi, heq⟩
  · rw [heq]
    exact hsame
  · rw [heq]
    exact hsame
  · rw [heq]
    have hother : ∀ j, j ≠ i → (e.opening d alloc i).streams j = e.streams j :=
      fun j hj => Function.update_of_ne hj ..
    have hnew : (e.opening d alloc i).streams i = newStream e d alloc := Function.update_self ..
    by_cases hd : d = c
    · subst hd
      have honly : ∀ j, Owns (e.opening d alloc i) d j → j = i := by
        intro j hj
        by_contra hne
        unfold Owns at hj
        rw [hother j hne] at hj
        exact not_owns hnone j hj
      refine ⟨fun j k hj hk => (honly j hj).trans (honly k hk).symm, fun j hj => ?_, hsame.fifo⟩
      rw [honly j hj, hnew, Log.before, hnone]
      exact logged_newStream e d alloc log
    · refine hsame.of_streams fun j hj => ?_
      by_cases hji : j = i
      · subst hji
        have := hj.2
        rw [hnew] at this
        exact absurd this hd
      · unfold Owns at hj
        rw [hother j hji] at hj ⊢
        exact ⟨hj, hsame.logged j hj⟩

/-! ### Steps -/

theorem record_silent {a : Arrival} (h : (receive e a).2 = []) (log : Log) :
    Log.record c e (.arrive a) log = log.before c e := by
  unfold Log.record
  dsimp only
  rw [h]
  split
  · split
    · rfl
    · rfl
  · rfl

theorem record_other {a : Arrival} {hdr : RtpHeader} (hp : packetHeader a.data = some hdr)
    (hc : hdr.clientId ≠ c) (log : Log) : Log.record c e (.arrive a) log = log.before c e := by
  unfold Log.record
  dsimp only
  rw [hp]
  split
  · rename_i h _
    obtain rfl := Option.some.inj h
    exact if_neg hc
  · rfl

theorem record_accepted {a : Arrival} {hdr : RtpHeader} (hp : packetHeader a.data = some hdr)
    (hs : (streamFor (e.holding a) hdr.clientId a.alloc).2 = some i) (log : Log) :
    Log.record hdr.clientId e (.arrive a) log = (log.before hdr.clientId e).accept
      ((streamFor (e.holding a) hdr.clientId a.alloc).1.streams i) a.data (receive e a).2 := by
  have hpair : streamFor (e.holding a) hdr.clientId a.alloc =
      ((streamFor (e.holding a) hdr.clientId a.alloc).1, some i) := Prod.ext rfl hs
  unfold Log.record
  dsimp only
  rw [hp, hpair]
  exact if_pos rfl

theorem follows_arrive {log : Log} (h : Follows c e log) (a : Arrival) :
    Follows c (receive e a).1 (Log.record c e (.arrive a) log) := by
  have hold : Follows c (e.holding a) log := h.of_eq rfl
  rcases receive_outcomes e a with (heq | heq) | ⟨hdr, -, -, -, heq⟩ | ⟨hdr, data, _, _, hacc, -, -⟩
  · rw [record_silent (by rw [heq]), heq]
    exact h.before.of_eq rfl
  · rw [record_silent (by rw [heq]), heq]
    exact h.before.of_eq (sameTable_handlePong _ _).streams
  · rw [record_silent (by rw [heq]), heq]
    show Follows c ((e.holding a).dropping a hdr) (log.before c e)
    unfold Engine.dropping
    split
    · exact h.before.of_eq rfl
    · exact hold.streamFor hdr.clientId a.alloc
  · obtain ⟨i, hs, hstreams, hacts⟩ := streams_receive hacc
    have hfor : Follows c (streamFor (e.holding a) hdr.clientId a.alloc).1 (log.before c e) :=
      hold.streamFor hdr.clientId a.alloc
    obtain ⟨hact, hid⟩ := streamFor_some hs
    by_cases hc : hdr.clientId = c
    · subst hc
      rw [record_accepted hacc.header hs, hacts]
      generalize (streamFor (e.holding a) hdr.clientId a.alloc).1 = e₁ at *
      have howns : ∀ j, Owns (receive e a).1 hdr.clientId j → j = i := by
        intro j hj
        by_contra hne
        unfold Owns at hj
        rw [hstreams, Function.update_of_ne hne] at hj
        exact hne (hfor.unique j i hj ⟨hact, hid⟩)
      refine ⟨fun j k hj hk => (howns j hj).trans (howns k hk).symm, fun j hj => ?_, hfor.fifo.accept ..⟩
      rw [howns j hj, hstreams, Function.update_self]
      exact (hfor.logged i ⟨hact, hid⟩).accept ..
    · rw [record_other hacc.header hc]
      generalize (streamFor (e.holding a) hdr.clientId a.alloc).1 = e₁ at *
      refine hfor.of_streams fun j hj => ?_
      unfold Owns at hj
      by_cases hji : j = i
      · subst hji
        rw [hstreams, Function.update_self, RemoteStream.accepted_clientId, hid] at hj
        exact absurd hj.2 hc
      · rw [hstreams, Function.update_of_ne hji] at hj ⊢
        exact ⟨hj, hfor.logged j hj⟩

theorem record_mix {log : Log} (h : Follows c e log) (hi : Owns e c i) (isConnected : Bool)
    (nowMix : BitVec 64) :
    Log.record c e (.mix isConnected nowMix) log = log.pop (e.streams i) nowMix := by
  unfold Log.record
  dsimp only
  rw [h.findStream hi]

theorem follows_mix {log : Log} (h : Follows c e log) (isConnected : Bool) (nowMix : BitVec 64) :
    Follows c (mix isConnected e nowMix) (Log.record c e (.mix isConnected nowMix) log) := by
  have howns : ∀ j, Owns (mix isConnected e nowMix) c j →
      Owns e c j ∧ ((e.streams j).mixed nowMix).active = true := by
    intro j ⟨hact, hid⟩
    obtain ⟨decoder, hmix⟩ := streams_mix isConnected e nowMix j
    rw [hmix] at hact hid
    refine ⟨?_, hact⟩
    rcases mixed_cases hact with ⟨hmixed, -⟩ | ⟨jb, -, hmixed, -⟩
    · rw [hmixed] at hact hid
      exact ⟨hact, hid⟩
    · rw [hmixed] at hact hid
      exact ⟨hact, hid⟩
  refine ⟨fun j k hj hk => h.unique j k (howns j hj).1 (howns k hk).1, ?logged, ?fifo⟩
  case logged =>
    intro j hj
    obtain ⟨hown, hkept⟩ := howns j hj
    obtain ⟨decoder, hmix⟩ := streams_mix isConnected e nowMix j
    rw [record_mix h hown, hmix]
    exact (h.logged j hown).mix hkept decoder
  case fifo =>
    unfold Log.record
    dsimp only
    cases hf : findStream e c with
    | none => exact h.fifo
    | some i =>
      show (log.pop (e.streams i) nowMix).kept.Sublist (log.pop (e.streams i) nowMix).pushed
      rw [(h.logged i (findStream_some hf)).kept_pop, pushed_pop]
      exact h.fifo

theorem follows_step {log : Log} (h : Follows c e log) (s : EngineStep Frame) :
    Follows c (e.step s).1 (Log.record c e s log) := by
  cases s with
  | command d hd =>
    show Follows c (e.call d).1 log
    rcases streams_command e hd with hsame | hnone
    · exact h.of_eq hsame
    · exact h.of_streams fun i hi => absurd (hi.1.symm.trans (hnone i)) (by decide)
  | capture => exact h.of_eq (sameTable_transmit e).streams
  | arrive a => exact follows_arrive h a
  | keepalive now => exact h.of_eq (sameTable_keepalive e now).streams
  | ping now => exact h.of_eq (sameTable_ping e now).streams
  | mix isConnected nowMix =>
    rw [step_mix]
    exact follows_mix h isConnected nowMix

/-! ### A run -/

/-- The log of client `c` after some steps. -/
def logOf (c : BitVec 64) (e : Engine L) (steps : List (EngineStep Frame)) : Log :=
  Machine.history Engine.step (Log.record c) e .empty steps

theorem Follows.run {log : Log} (h : Follows c e log) (steps : List (EngineStep Frame)) :
    Follows c (Machine.run Engine.step e steps)
      (Machine.history Engine.step (Log.record c) e log steps) :=
  Machine.history_invariant (P := Follows c) (fun _ _ s h => follows_step h s) h steps

/-- In every run of a new engine, the streams of a client and its log go together. -/
theorem follows_run [Zero Frame] {config : Option AeConfig} (hnew : aeEngineCreate L config = some e)
    (c : BitVec 64) (steps : List (EngineStep Frame)) :
    Follows c (Machine.run Engine.step e steps) (logOf c e steps) := by
  have hinactive : ∀ i, ¬ (e.streams i).active = true := fun i => by
    rw [(fresh_create hnew).streams i]
    exact Bool.false_ne_true
  have hvacant : Follows c e .empty := by
    refine ⟨fun i _ hi _ => ?_, fun i hi => ?_, .refl []⟩
    · exact absurd hi.1 (hinactive i)
    · exact absurd hi.1 (hinactive i)
  exact hvacant.run steps

/-! ### What is heard -/

theorem heard_accept (log : Log) (s : RemoteStream L) (packet : List Byte) (i : StreamIndex)
    (hdr : RtpHeader) (data : List Byte) (pcm : Pcm) :
    (log.accept s packet (s.handsOut i hdr data pcm)).heard = log.heard ++ [packet] := by
  unfold RemoteStream.handsOut
  dsimp only
  split
  · show (if s.room _ _ then _ else _ : Log).heard = _
    split <;> rfl
  · rfl

theorem heard_accepted {a : Arrival} {hdr : RtpHeader} {data : List Byte} (h : Accepts e a hdr data)
    (log : Log) : (Log.record hdr.clientId e (.arrive a) log).heard =
      (log.before hdr.clientId e).heard ++ [a.data] := by
  obtain ⟨i, hs, -, hacts⟩ := streams_receive h
  rw [record_accepted h.header hs, hacts]
  exact heard_accept ..

theorem owns_accepted {a : Arrival} {hdr : RtpHeader} {data : List Byte} (h : Accepts e a hdr data) :
    ∃ i, Owns (receive e a).1 hdr.clientId i := by
  obtain ⟨i, hs, hstreams, -⟩ := streams_receive h
  obtain ⟨hact, hid⟩ := streamFor_some hs
  refine ⟨i, ?_⟩
  unfold Owns
  rw [hstreams, Function.update_self, RemoteStream.accepted_active, RemoteStream.accepted_clientId]
  exact ⟨hact, hid⟩

/-! ### Tones -/

/-- Client 8 as it encodes a frame on "channel-1", with packets sent before. -/
def toneAt (q : BitVec 32) : Engine toneLibrary := { (speaker 8 silence).encoding with txSequence := q }

theorem tone_arrives (q : BitVec 32) : ∃ a : Arrival, audioPacket (toneAt q) [1] = some a.data ∧
    Bears 1 8 q a.data ∧ a.data ≠ [] ∧ a.alloc = ⟨true, true, 0⟩ ∧ a.now = 0 := by
  have hkey : findKey (toneAt q).crypto (toneAt q).channel.channelIdNum =
      some (deriveKeyFromChannel 1) := rfl
  obtain ⟨packet, hp⟩ := audioPacket_isSome hkey (show ([1] : List Byte).length ≤ 1352 by decide)
  obtain ⟨encrypted, -, hsize, hpacket⟩ := audioPacket_eq_some.mp hp
  have hlen : packet.length = aeRtpHeaderSize + encrypted.length := by
    rw [hpacket, List.length_append, length_serializeHeader]
  have hpos : 0 < packet.length := by
    rw [hlen]
    unfold aeRtpHeaderSize
    omega
  have hbears : Bears 1 8 q packet := (audioPackets_send (toneAt q).network hp).2
  exact ⟨arriving packet (by rw [hlen]; exact hsize), hp, hbears, List.ne_nil_of_length_pos hpos,
    rfl, rfl⟩

/-- Client 7, listening on "channel-1", accepts the tones. -/
theorem accepts_tone {r : Engine toneLibrary} (hr : r.control = (listener 7).control)
    {q : BitVec 32} {a : Arrival} (hp : audioPacket (toneAt q) [1] = some a.data)
    (hroom : (findStream r 8).isSome ∨ ∃ i, (r.streams i).active = false) :
    Accepts r a lateHeader [1] := by
  have hheader : audioHeader (toneAt q) = audioHeader (speaker 8 silence).encoding := by
    unfold toneAt audioHeader
    dsimp only
  have hid : (toneAt q).clientId = 8 := rfl
  rw [← hid] at hroom
  rw [lateHeader, ← hheader]
  refine accepts_audioPacket hp (by decide) ?_ ?_ ?_ hroom
  · rw [← control_channel, hr]
    rfl
  · rw [← control_crypto, hr]
    rfl
  · rw [← control_clientId r, hr, hid]
    show (8 : BitVec 64) ≠ 7
    decide

theorem stepsOf_hearing {arrivals : List Arrival} {nowMix : BitVec 64} (hn : arrivals.length ≤ maxRecvPerTick)
    (hdata : ∀ a ∈ arrivals, a.data ≠ []) :
    stepsOf newEngine (tuneIn ++ [.process ⟨arrivals, 0, nowMix⟩]) =
      stepsOf newEngine tuneIn ++ .capture :: (arrivals.map .arrive ++
        [.keepalive 0, .ping 0, .mix true nowMix]) := by
  have hrun : Machine.run Engine.call newEngine tuneIn = listener 7 := rfl
  have htaken : taken (listener 7) ⟨arrivals, 0, nowMix⟩ = arrivals :=
    taken_all (e := listener 7) (t := ⟨arrivals, 0, nowMix⟩) rfl rfl hn hdata
  unfold stepsOf
  rw [Machine.expansion_append, hrun]
  show _ ++ ((listener 7).steps (.process ⟨arrivals, 0, nowMix⟩) ++ []) = _
  rw [steps_process, if_pos (show (listener 7).connected = true from rfl), htaken, List.append_nil]
  rfl

/-- Before the datagrams come. -/
theorem run_tuned : Machine.run Engine.step newEngine (stepsOf newEngine tuneIn ++ [.capture]) =
    listener 7 := by
  have hrun : Machine.run Engine.call newEngine tuneIn = listener 7 := rfl
  rw [Machine.run_append, run_stepsOf, hrun]
  show (transmit (listener 7)).1 = _
  rw [transmit_silent rfl]

theorem hears_tone {r : Engine toneLibrary} (hr : r.control = (listener 7).control) {q : BitVec 32}
    {a : Arrival} (hp : audioPacket (toneAt q) [1] = some a.data)
    (hroom : (findStream r 8).isSome ∨ ∃ i, (r.streams i).active = false) (log : Log) :
    (receive r a).1.control = (listener 7).control ∧ (∃ i, Owns (receive r a).1 8 i) ∧
      (Log.record 8 r (.arrive a) log).heard = (log.before 8 r).heard ++ [a.data] := by
  have hacc := accepts_tone hr hp hroom
  have hid : lateHeader.clientId = 8 := rfl
  have howns := owns_accepted hacc
  have hheard := heard_accepted hacc log
  rw [hid] at howns hheard
  exact ⟨(control_receive r a).trans hr, howns, hheard⟩

/-- The first tone that client 7 hears opens a stream for client 8. -/
theorem hears_first {q : BitVec 32} {a : Arrival} (hp : audioPacket (toneAt q) [1] = some a.data) :
    let steps := stepsOf newEngine tuneIn ++ [.capture, .arrive a]
    Machine.run Engine.step newEngine steps = (receive (listener 7) a).1 ∧
      (∃ i, Owns (receive (listener 7) a).1 8 i) ∧ (logOf 8 newEngine steps).heard = [a.data] := by
  have hsteps : stepsOf newEngine tuneIn ++ [.capture, .arrive a] =
      (stepsOf newEngine tuneIn ++ [.capture]) ++ [.arrive a] := by
    rw [List.append_assoc]
    rfl
  have hnone : findStream (listener 7) 8 = none := by
    refine Option.not_isSome_iff_eq_none.mp fun h => ?_
    obtain ⟨i, hi, -⟩ := findStream_isSome.mp h
    cases hi
  obtain ⟨-, howns, hheard⟩ := hears_tone rfl hp (.inr ⟨⟨0, by decide⟩, rfl⟩)
    (logOf 8 newEngine (stepsOf newEngine tuneIn ++ [.capture]))
  intro steps
  refine ⟨?_, howns, ?_⟩
  · rw [show steps = _ from hsteps, Machine.run_append, run_tuned]
    rfl
  · rw [show steps = _ from hsteps, logOf, Machine.history_append, run_tuned]
    show (Log.record 8 (listener 7) (.arrive a) (logOf 8 newEngine _)).heard = _
    rw [hheard, Log.before, hnone]
    rfl

/-- The second one is taken in on that stream. -/
theorem hears_second {q q' : BitVec 32} {a b : Arrival}
    (hp : audioPacket (toneAt q) [1] = some a.data) (hp' : audioPacket (toneAt q') [1] = some b.data) :
    let steps := stepsOf newEngine tuneIn ++ [.capture, .arrive a, .arrive b]
    Machine.run Engine.step newEngine steps = (receive (receive (listener 7) a).1 b).1 ∧
      (∃ i, Owns (receive (receive (listener 7) a).1 b).1 8 i) ∧
      (logOf 8 newEngine steps).heard = [a.data, b.data] := by
  have hsteps : stepsOf newEngine tuneIn ++ [.capture, .arrive a, .arrive b] =
      (stepsOf newEngine tuneIn ++ [.capture, .arrive a]) ++ [.arrive b] := by
    rw [List.append_assoc]
    rfl
  obtain ⟨hrun, hfirst, hheard⟩ := hears_first hp
  have hfound : (findStream (receive (listener 7) a).1 8).isSome := findStream_isSome.mpr hfirst
  obtain ⟨-, howns, hheard'⟩ := hears_tone (control_receive (listener 7) a) hp' (.inl hfound)
    (logOf 8 newEngine (stepsOf newEngine tuneIn ++ [.capture, .arrive a]))
  intro steps
  refine ⟨?_, howns, ?_⟩
  · rw [show steps = _ from hsteps, Machine.run_append, hrun]
    rfl
  · rw [show steps = _ from hsteps, logOf, Machine.history_append, hrun]
    show (Log.record 8 (receive (listener 7) a).1 (.arrive b) (logOf 8 newEngine _)).heard = _
    rw [hheard', Log.before, if_pos hfound, hheard]
    rfl

end AudioPlatform.Core
