import AudioPlatform.Core.Codecs
import AudioPlatform.Core.Gauges
import AudioPlatform.Server.Serial

/-! The round trip.

A ping carries the time at which it is sent, and the server sends it back with that time in it. The
engine does not read it: it measures from the last ping that it has sent, once. Until then, a pong may
be the answer to an earlier ping. And what it measures is kept as a `float`, which rounds a time of more
than 24 bits. -/
namespace AudioPlatform.Core
open AudioPlatform.Concurrency

variable {Frame : Type} {L : Library Frame}

/-! ### Pings and pongs -/

/-- The time that a ping or a pong carries. -/
def carriedTime (packet : List Byte) : BitVec 64 :=
  BigEndian.ofBytes 64 ((packet.drop aeRtpHeaderSize).take 8)

/-- A ping of some client to some server, sent at `t`. -/
def IsPing (t : BitVec 64) (packet : List Byte) : Prop :=
  ∃ serverId clientId, aeRtpBuildPing serverId clientId t (aeRtpHeaderSize + 8) = some packet

/-- The server sends `q` back where `p` comes from. -/
def Replies (p q : List Byte) : Prop := ∃ (up : Server.ClientId → Bool) (src : Server.SocketAddr)
  (w w' : Server.World), (Server.handleDatagram p src).alone (Server.effect up) w = some ((), w') ∧
    w'.datagrams = w.datagrams ++ [(src, q)]

theorem set_packetType (h : RtpHeader) (payload : List Byte) (b : Byte) :
    (serializeHeader h ++ payload).set 16 b = serializeHeader { h with packetType := b } ++ payload := by
  unfold serializeHeader
  simp

def pingHeader (serverId : BitVec 32) (clientId : BitVec 64) : RtpHeader :=
  { serverId, channelId := 0, clientId, packetType := aeRtpTypePing, flags := 0, payloadLength := 8 }

/-- Building a ping does not fail. -/
theorem buildPing_eq (serverId : BitVec 32) (clientId t : BitVec 64) :
    aeRtpBuildPing serverId clientId t (aeRtpHeaderSize + 8) =
      some (serializeHeader (pingHeader serverId clientId) ++ writeU64Be t) := by
  unfold aeRtpBuildPing
  rw [aeRtpBuildPacket_eq_some, length_writeU64Be]
  exact ⟨by decide, by decide, rfl⟩

theorem isPing_iff {t : BitVec 64} {packet : List Byte} : IsPing t packet ↔ ∃ serverId clientId,
    packet = serializeHeader (pingHeader serverId clientId) ++ writeU64Be t := by
  unfold IsPing
  simp only [buildPing_eq, Option.some.injEq, eq_comm]

section Ping
variable {t : BitVec 64} {p q : List Byte}

/-- The server sends a ping back as a pong, and nothing else. -/
theorem replies_iff (h : IsPing t p) : Replies p q ↔ q = p.set 16 aeRtpTypePong := by
  obtain ⟨serverId, clientId, rfl⟩ := isPing_iff.mp h
  generalize hp : serializeHeader (pingHeader serverId clientId) ++ writeU64Be t = p
  have hlen : p.length = 28 := by
    rw [← hp, List.length_append, length_serializeHeader, length_writeU64Be]
    rfl
  have htake : p.take Server.maxUdpPacketSize = p :=
    List.take_of_length_le (hlen.trans_le (by decide))
  obtain ⟨header, hparse, hheader⟩ := Option.map_eq_some_iff.mp
    (parse_serializeHeader (pingHeader serverId clientId) (writeU64Be t))
  rw [hp, ← htake] at hparse
  have hping : Server.PacketType.fromU8 header.packetType = some .ping := by
    rw [show header.packetType = (ofRoutingHeader header).packetType from rfl, hheader]
    rfl
  have hreply : ∀ (up : Server.ClientId → Bool) (src : Server.SocketAddr) (w : Server.World),
      ∃ s sent, (Server.handleDatagram p src).alone (Server.effect up) w =
        some ((), ⟨s, sent, w.datagrams ++ [(src, p.set 16 aeRtpTypePong)]⟩) := by
    intro up src w
    obtain ⟨sent, dgs, halone, -, hdgs⟩ := Server.alone_handleDatagram up src w hparse hping
    rw [hdgs rfl, htake] at halone
    exact ⟨_, sent, halone⟩
  constructor
  · rintro ⟨up, src, w, w', halone, hdgs⟩
    obtain ⟨s, sent, hserved⟩ := hreply up src w
    obtain rfl := (Prod.mk.inj (Option.some.inj (halone.symm.trans hserved))).2
    obtain ⟨-, hsent⟩ := Prod.mk.inj (List.cons.inj (List.append_cancel_left hdgs)).1
    exact hsent.symm
  · rintro rfl
    obtain ⟨s, sent, hserved⟩ := hreply (fun _ => true) ⟨0, 0⟩ (.new 0)
    exact ⟨_, _, _, _, hserved, rfl⟩

/-- What comes back is a pong, and carries the time at which the ping was sent. -/
theorem reply_pong (h : IsPing t p) (hq : Replies p q) : isPong q = true ∧ carriedTime q = t := by
  obtain ⟨serverId, clientId, hp⟩ := isPing_iff.mp h
  rw [replies_iff h, hp, set_packetType] at hq
  subst hq
  constructor
  · unfold isPong
    rw [packetHeader_serialize]
    rfl
  · unfold carriedTime
    rw [List.drop_left' (length_serializeHeader _), List.take_of_length_le (by simp),
      ofBytes_writeU64Be]

end Ping

/-! ### The engine and the network -/

/-- The pings that have been sent, each with the time, and the last of them while no pong has come since. -/
structure Probes where
  sent : List (BitVec 64 × List Byte)
  awaited : Option (BitVec 64)

def Action.sent : Action Frame → Option (List Byte)
  | .send packet _ => some packet
  | _ => none

def Probes.record (e : Engine L) (s : EngineStep Frame) (g : Probes) : Probes :=
  match s with
  | .ping now =>
    let packets := (ping e now).2.filterMap Action.sent
    { sent := g.sent ++ packets.map (now, ·)
      awaited := if packets.isEmpty then g.awaited else some now }
  | .arrive a => if isPong a.data then { g with awaited := none } else g
  | _ => g

theorem record_ping (e : Engine L) (now : BitVec 64) (g : Probes) :
    g.record e (.ping now : EngineStep Frame) =
      { sent := g.sent ++ ((ping e now).2.filterMap Action.sent).map (now, ·)
        awaited := if ((ping e now).2.filterMap Action.sent).isEmpty then g.awaited else some now } :=
  rfl

/-- A run with the pings that have been sent in it. -/
def probeStep (r : Engine L × Probes) (s : EngineStep Frame) :
    (Engine L × Probes) × List (Action Frame) :=
  (((r.1.step s).1, r.2.record r.1 s), (r.1.step s).2)

/-- A pong that arrives is what the server has sent back for one of the pings; the network may lose,
delay, reorder and repeat both. -/
def Echoed (r : Engine L × Probes) : EngineStep Frame → Prop
  | .arrive a => isPong a.data = true → ∃ t p, (t, p) ∈ r.2.sent ∧ Replies p a.data
  | _ => True

/-- A pong that changes the round trip sets it to the time that has passed since its ping was sent. -/
def MeasuresAnswered (r : Engine L × Probes) : EngineStep Frame → Prop
  | .arrive a => isPong a.data = true → (receive r.1 a).1.rttMs ≠ r.1.rttMs →
      (receive r.1 a).1.rttMs = (a.now - carriedTime a.data).toNat
  | _ => True

/-- What arrives answers a ping that was sent at `t`. -/
def Probes.Answers (g : Probes) (t : BitVec 64) (pong : List Byte) : Prop :=
  ∃ p, (t, p) ∈ g.sent ∧ Replies p pong

/-- At most 24 bits of the number are significant. -/
def FitsFloat (x : BitVec 64) : Prop := 2 ^ (x.toNat.size - 24) ∣ x.toNat

/-- A pong that comes while the last ping is awaited answers that ping, after a time that a `float` holds;
or it comes as long after it as the round trip is taken to be; or it answers a ping that was sent just as
far from the awaited one as the time is rounded. -/
def AnswersAwaited (r : Engine L × Probes) : EngineStep Frame → Prop
  | .arrive a => isPong a.data = true → ∀ t, r.2.awaited = some t → t ≠ 0 →
      (r.2.Answers t a.data ∧ FitsFloat (a.now - t)) ∨ floatOfU64 (a.now - t) = r.1.rttMs ∨
        ∃ t', t' ≠ t ∧ r.2.Answers t' a.data ∧ floatOfU64 (a.now - t) = (a.now - t').toNat
  | _ => True

theorem floatOfU64_eq_iff {x : BitVec 64} : floatOfU64 x = x.toNat ↔ FitsFloat x := by
  unfold floatOfU64 FitsFloat
  rw [Nat.cast_inj]
  exact Numbers.roundBits_eq_self_iff

/-- Up to four hours and a half every time fits. -/
theorem fitsFloat_of_lt {x : BitVec 64} (h : x.toNat < 2 ^ 24) : FitsFloat x := Numbers.dvd_of_lt h

/-! ### What is awaited -/

/-- The engine remembers when the awaited ping was sent, and all that was sent are pings. -/
structure Probing (r : Engine L × Probes) : Prop where
  awaited : r.1.pingSendTimeMs = r.2.awaited.getD 0
  sent : ∀ t p, (t, p) ∈ r.2.sent → IsPing t p

theorem ping_cases (e : Engine L) (now : BitVec 64) :
    ¬ pingIntervalMs ≤ now - e.lastPingMs ∧ ping e now = (e, []) ∨
    pingIntervalMs ≤ now - e.lastPingMs ∧ ∃ packet, IsPing now packet ∧ ping e now =
      ({ e with pingSendTimeMs := now, lastPingMs := now }, [.send packet e.network.sock]) := by
  unfold ping
  rw [buildPing_eq]
  split
  · rename_i hdue
    refine .inr ⟨hdue, _, ⟨_, _, buildPing_eq e.serverId e.clientId now⟩, ?_⟩
    unfold aeNetSend
    dsimp only
    rw [if_neg (by simp [serializeHeader, writeU32Be, BigEndian.toBytes])]
  · rename_i hdue
    exact .inl ⟨hdue, rfl⟩

theorem handlePong_rttMs (e : Engine L) (now : BitVec 64) : (handlePong e now).rttMs =
    if 0 < e.pingSendTimeMs then floatOfU64 (now - e.pingSendTimeMs) else e.rttMs := by
  unfold handlePong
  split <;> rfl

theorem handlePong_pingSendTimeMs (e : Engine L) (now : BitVec 64) :
    (handlePong e now).pingSendTimeMs = 0 := by
  unfold handlePong
  split
  · rfl
  · rename_i h
    exact BitVec.le_zero_iff.mp (BitVec.not_lt.mp h)

/-- A step that leaves the send time and sends no ping. -/
theorem Probing.kept {r : Engine L × Probes} (h : Probing r) {e : Engine L}
    (hsame : e.gauges.pingSendTimeMs = r.1.gauges.pingSendTimeMs) : Probing (e, r.2) where
  awaited := by
    rw [← gauges_pingSendTimeMs, hsame]
    exact h.awaited
  sent := h.sent

theorem probing_step {r : Engine L × Probes} (h : Probing r) (s : EngineStep Frame) :
    Probing (probeStep r s).1 := by
  cases s with
  | command c hc =>
    obtain ⟨_, hcommand⟩ := gauges_command r.1 hc
    have hsame : (r.1.call c).1.gauges.pingSendTimeMs = r.1.gauges.pingSendTimeMs := by rw [hcommand]
    exact h.kept hsame
  | capture => exact h.kept (congrArg Gauges.pingSendTimeMs (gauges_transmit r.1))
  | keepalive now => exact h.kept (congrArg Gauges.pingSendTimeMs (gauges_keepalive r.1 now))
  | mix isConnected nowMix =>
    have hsame : (mix isConnected r.1 nowMix).gauges.pingSendTimeMs = r.1.gauges.pingSendTimeMs := by
      rw [gauges_mix]
    unfold probeStep
    rw [step_mix]
    exact h.kept hsame
  | arrive a =>
    cases hpong : isPong a.data with
    | false =>
      have hrecord : r.2.record r.1 (.arrive a : EngineStep Frame) = r.2 := if_neg (by simp [hpong])
      unfold probeStep
      rw [hrecord, step_arrive]
      exact h.kept (congrArg Gauges.pingSendTimeMs (gauges_receive r.1 hpong))
    | true =>
      have hrecord : r.2.record r.1 (.arrive a : EngineStep Frame) = { r.2 with awaited := none } :=
        if_pos hpong
      unfold probeStep
      rw [hrecord, step_arrive, receive_pong r.1 hpong]
      exact ⟨handlePong_pingSendTimeMs _ _, h.sent⟩
  | ping now =>
    rcases ping_cases r.1 now with ⟨-, hping⟩ | ⟨-, packet, hpacket, hping⟩
    · have hrecord : r.2.record r.1 (.ping now : EngineStep Frame) = r.2 := by
        rw [record_ping, hping]
        simp
      unfold probeStep
      rw [hrecord, step_ping, hping]
      exact h
    · have hrecord : r.2.record r.1 (.ping now : EngineStep Frame) =
          ⟨r.2.sent ++ [(now, packet)], some now⟩ := by
        rw [record_ping, hping]
        rfl
      unfold probeStep
      rw [hrecord, step_ping, hping]
      refine ⟨rfl, fun t p hmem => ?_⟩
      rcases List.mem_append.mp hmem with hmem | hmem
      · exact h.sent t p hmem
      · obtain ⟨rfl, rfl⟩ := Prod.mk.inj (List.mem_singleton.mp hmem)
        exact hpacket

theorem probing_run {r : Engine L × Probes} (h : Probing r) (steps : List (EngineStep Frame)) :
    Probing (Machine.run probeStep r steps) := by
  have hstep : ∀ r s, True → Probing r → Probing (probeStep (L := L) r s).1 :=
    fun r s _ h => probing_step h s
  exact Machine.run_induction hstep h fun _ _ => trivial

/-- A pong is the answer to pings of one time. -/
theorem Probing.answers_iff {r : Engine L × Probes} (h : Probing r) {t : BitVec 64} {pong : List Byte}
    (hanswer : r.2.Answers t pong) (u : BitVec 64) : r.2.Answers u pong ↔ u = t := by
  obtain ⟨p, hsent, hreply⟩ := hanswer
  constructor
  · rintro ⟨p', hsent', hreply'⟩
    rw [← (reply_pong (h.sent t p hsent) hreply).2, (reply_pong (h.sent u p' hsent') hreply').2]
  · rintro rfl
    exact ⟨p, hsent, hreply⟩

/-- A pong measures right exactly if it answers the awaited ping, or measures nothing new, or goes wrong by
as much as the rounding. -/
theorem Probing.measures_iff {r : Engine L × Probes} (h : Probing r) {s : EngineStep Frame}
    (hecho : Echoed r s) : MeasuresAnswered r s ↔ AnswersAwaited r s := by
  cases s with
  | arrive a =>
    refine forall_congr' fun hpong => ?_
    obtain ⟨t, p, hsent, hreply⟩ := hecho hpong
    have hcarried := (reply_pong (h.sent t p hsent) hreply).2
    have hrtt : (receive r.1 a).1.rttMs = if 0 < r.2.awaited.getD 0 then
        floatOfU64 (a.now - r.2.awaited.getD 0) else r.1.rttMs := by
      rw [receive_pong r.1 hpong, ← h.awaited]
      exact handlePong_rttMs (r.1.holding a) a.now
    rw [hcarried, hrtt]
    simp only [h.answers_iff ⟨p, hsent, hreply⟩]
    cases r.2.awaited with
    | none => simp
    | some u =>
      rw [Option.getD_some]
      constructor
      · rintro hmeasures u' ⟨⟩ hne
        have hpos : 0 < u := (BitVec.pos_iff_ne_zero u).mpr hne
        rw [if_pos hpos] at hmeasures
        by_cases hsame : floatOfU64 (a.now - u) = r.1.rttMs
        · exact .inr (.inl hsame)
        · by_cases hut : u = t
          · subst hut
            exact .inl ⟨rfl, floatOfU64_eq_iff.mp (hmeasures hsame)⟩
          · exact .inr (.inr ⟨t, Ne.symm hut, rfl, hmeasures hsame⟩)
      · intro hanswer hchanged
        by_cases hpos : 0 < u
        · rw [if_pos hpos] at hchanged ⊢
          rcases hanswer u rfl ((BitVec.pos_iff_ne_zero u).mp hpos) with
            ⟨rfl, hfits⟩ | hsame | ⟨t', -, rfl, hrounded⟩
          · exact floatOfU64_eq_iff.mpr hfits
          · exact absurd hsame hchanged
          · exact hrounded
        · rw [if_neg hpos] at hchanged
          exact absurd rfl hchanged
  | _ => exact Iff.rfl

theorem probing_create [Zero Frame] {config : Option AeConfig} {e : Engine L}
    (hnew : aeEngineCreate L config = some e) : Probing (e, ⟨[], none⟩) := by
  unfold aeEngineCreate at hnew
  simp only [Option.bind_eq_bind, Option.bind_eq_some_iff, Option.pure_def, Option.some.injEq] at hnew
  obtain ⟨_, -, _, -, _, -, rfl⟩ := hnew
  exact ⟨rfl, fun t p hmem => absurd hmem List.not_mem_nil⟩

/-- **When the round trip is that of the answered ping.** In every run of a new engine whose pongs are
the server's answers to its pings, however the network treats them: every pong that changes the round
trip sets it to the time since its own ping was sent, exactly if every pong that comes while a ping is
awaited answers that one after a time that a `float` holds, or would not change the round trip, or answers
a ping sent as far from it as the time is rounded. -/
theorem round_trip_iff [Zero Frame] {config : Option AeConfig} {e : Engine L}
    (hnew : aeEngineCreate L config = some e) (calls : List (Call Frame))
    (hecho : Machine.Along probeStep Echoed (e, ⟨[], none⟩) (stepsOf e calls)) :
    Machine.Along probeStep MeasuresAnswered (e, ⟨[], none⟩) (stepsOf e calls) ↔
      Machine.Along probeStep AnswersAwaited (e, ⟨[], none⟩) (stepsOf e calls) := by
  have hstep : ∀ r s, Probing r → Echoed r s → AnswersAwaited r s →
      Probing (probeStep (L := L) r s).1 := fun r s h _ _ => probing_step h s
  have hiff : ∀ r s, Probing r → Echoed r s → (MeasuresAnswered (L := L) r s ↔ AnswersAwaited r s) :=
    fun r s h hs => h.measures_iff hs
  exact Machine.along_congr_of_invariant hstep hiff (probing_create hnew) hecho

/-! ### Two pings -/

/-- A call with the pings that have been sent. -/
def probeCall (r : Engine L × Probes) (c : Call Frame) : Engine L × Probes :=
  Machine.run probeStep r (r.1.steps c)

theorem probing_call {r : Engine L × Probes} (h : Probing r) (c : Call Frame) :
    Probing (probeCall r c) :=
  probing_run h _

theorem run_probeStep (r : Engine L × Probes) (steps : List (EngineStep Frame)) :
    (Machine.run probeStep r steps).1 = Machine.run Engine.step r.1 steps :=
  Machine.run_map (f := Prod.fst) (fun _ _ => rfl) r steps

theorem along_cons {C : Engine L × Probes → EngineStep Frame → Prop} {r : Engine L × Probes}
    {c : Call Frame} {rest : List (Call Frame)} :
    Machine.Along probeStep C r (stepsOf r.1 (c :: rest)) ↔
      Machine.Along probeStep C r (r.1.steps c) ∧
        Machine.Along probeStep C (probeCall r c) (stepsOf (probeCall r c).1 rest) := by
  have hnext : (probeCall r c).1 = (r.1.call c).1 := by
    unfold probeCall
    rw [run_probeStep, run_steps]
  rw [hnext]
  exact Machine.along_append

/-- Client 7 is connected and does nothing but ping; a ping was last due at `t`. -/
structure Pinging (t : BitVec 64) (r : Engine toneLibrary × Probes) : Prop where
  connected : r.1.connected = true
  sock : r.1.network.sock = true
  silent : r.1.transmitting = false
  lastPingMs : r.1.lastPingMs = t
  rttMs : r.1.rttMs = 0

theorem Pinging.steps {t : BitVec 64} {r : Engine toneLibrary × Probes} (h : Pinging t r)
    {arrivals : List Arrival} (hn : arrivals.length ≤ maxRecvPerTick)
    (hdata : ∀ a ∈ arrivals, a.data ≠ []) (now : BitVec 64) :
    r.1.steps (.process ⟨arrivals, now, now⟩) =
      .capture :: arrivals.map .arrive ++ [.keepalive now, .ping now, .mix true now] := by
  rw [steps_process, if_pos h.connected, taken_all h.silent h.sock hn hdata]

/-- A tick that a ping is due in sends it, and nothing else is measured. -/
theorem Pinging.tick {t now : BitVec 64} {r : Engine toneLibrary × Probes} (h : Pinging t r)
    (hdue : pingIntervalMs ≤ now - t) : ∃ p, IsPing now p ∧
      Pinging now (probeCall r (.process ⟨[], now, now⟩)) ∧
      (probeCall r (.process ⟨[], now, now⟩)).2 = ⟨r.2.sent ++ [(now, p)], some now⟩ := by
  have hidle : (transmit r.1).1 = r.1 := by rw [transmit_silent h.silent]
  have hgauges := gauges_keepalive r.1 now
  have hcontrol := control_keepalive r.1 now
  have hend : probeCall r (.process ⟨[], now, now⟩) =
      (mix true (ping (keepalive r.1 now).1 now).1 now,
        r.2.record (keepalive r.1 now).1 (.ping now : EngineStep (ℚ × ℚ))) := by
    unfold probeCall
    rw [h.steps (Nat.zero_le _) (fun a ha => absurd ha List.not_mem_nil)]
    simp only [List.map_nil, List.cons_append, List.nil_append, Machine.run, probeStep, step_capture,
      step_keepalive, step_ping, step_mix, hidle]
    rfl
  generalize (keepalive r.1 now).1 = k at hgauges hcontrol hend
  have hlast : k.lastPingMs = t := by
    rw [← gauges_lastPingMs, hgauges]
    exact h.lastPingMs
  rcases ping_cases k now with ⟨hnot, -⟩ | ⟨-, p, hp, hping⟩
  · exact absurd (hlast ▸ hdue) hnot
  · rw [record_ping, hping] at hend
    dsimp only at hend
    have hmixed := gauges_mix true { k with pingSendTimeMs := now, lastPingMs := now } now
    have hkept := control_mix true { k with pingSendTimeMs := now, lastPingMs := now } now
    generalize mix true { k with pingSendTimeMs := now, lastPingMs := now } now = e' at hend hmixed hkept
    have hsame : e'.control = r.1.control := hkept.trans hcontrol
    rw [hend]
    refine ⟨p, hp, ⟨?_, ?_, ?_, ?_, ?_⟩, rfl⟩
    · rw [← control_connected, hsame]
      exact h.connected
    · rw [← control_network, hsame]
      exact h.sock
    · rw [← control_transmitting, hsame]
      exact h.silent
    · rw [← gauges_lastPingMs, hmixed]
      rfl
    · rw [← gauges_rttMs, hmixed]
      exact (congrArg Gauges.rttMs hgauges).trans h.rttMs

/-- A new engine once client 7 has connected at time 0. -/
def dialled : Engine toneLibrary × Probes :=
  probeCall (probeCall (newEngine, ⟨[], none⟩) (.setClientId 7)) (.connect .connected 0)

theorem pinging_dialled : Pinging 0 dialled := ⟨rfl, rfl, rfl, rfl, rfl⟩

theorem probing_dialled : Probing dialled :=
  probing_call (probing_call (probing_create create_newEngine) _) _

theorem along_dial {C : Engine toneLibrary × Probes → EngineStep (ℚ × ℚ) → Prop}
    (hC : ∀ r c hc, C r (.command c hc)) (calls : List (Call (ℚ × ℚ))) :
    Machine.Along probeStep C (newEngine, ⟨[], none⟩)
      (stepsOf newEngine (.setClientId 7 :: .connect .connected 0 :: calls)) ↔
    Machine.Along probeStep C dialled (stepsOf dialled.1 calls) := by
  rw [show newEngine = (newEngine, (⟨[], none⟩ : Probes)).1 from rfl, along_cons, along_cons]
  exact ⟨fun h => h.2.2, fun h => ⟨⟨hC _ _ _, trivial⟩, ⟨hC _ _ _, trivial⟩, h⟩⟩

/-- The answer to a ping arrives. -/
theorem answer_arrives {t : BitVec 64} {p : List Byte} (h : IsPing t p) (now : BitVec 64) :
    ∃ a : Arrival, a.now = now ∧ a.data ≠ [] ∧ Replies p a.data := by
  obtain ⟨serverId, clientId, hp⟩ := isPing_iff.mp h
  have hlen : (p.set 16 aeRtpTypePong).length = 28 := by
    rw [List.length_set, hp, List.length_append, length_serializeHeader, length_writeU64Be]
    rfl
  exact ⟨⟨p.set 16 aeRtpTypePong, hlen.trans_le (by decide), ⟨true, true, 0⟩, now, fun _ => 0⟩, rfl,
    List.ne_nil_of_length_pos (by rw [hlen]; decide), (replies_iff h).mpr rfl⟩

/-- A tick that nothing arrives in asks nothing of the network. -/
theorem Pinging.along_idle {t : BitVec 64} {r : Engine toneLibrary × Probes} (h : Pinging t r)
    {C : Engine toneLibrary × Probes → EngineStep (ℚ × ℚ) → Prop}
    (hC : ∀ r s, (∀ a, s ≠ .arrive a) → C r s) (now : BitVec 64) (calls : List (Call (ℚ × ℚ))) :
    Machine.Along probeStep C r (stepsOf r.1 (.process ⟨[], now, now⟩ :: calls)) ↔
      Machine.Along probeStep C (probeCall r (.process ⟨[], now, now⟩))
        (stepsOf (probeCall r (.process ⟨[], now, now⟩)).1 calls) := by
  rw [along_cons]
  refine and_iff_right ?_
  rw [h.steps (Nat.zero_le _) (fun a ha => absurd ha List.not_mem_nil)]
  exact ⟨hC _ _ nofun, hC _ _ nofun, hC _ _ nofun, hC _ _ nofun, trivial⟩

/-- What is asked of the arrival is all that is asked of a tick. -/
theorem Pinging.along_tick {t : BitVec 64} {r : Engine toneLibrary × Probes} (h : Pinging t r)
    {C : Engine toneLibrary × Probes → EngineStep (ℚ × ℚ) → Prop}
    (hC : ∀ r s, (∀ a, s ≠ .arrive a) → C r s) {a : Arrival} (hne : a.data ≠ []) (now : BitVec 64) :
    Machine.Along probeStep C r (stepsOf r.1 [.process ⟨[a], now, now⟩]) ↔ C r (.arrive a) := by
  have hcapture : (probeStep r (.capture : EngineStep (ℚ × ℚ))).1 = r := by
    unfold probeStep
    rw [step_capture, transmit_silent h.silent]
    rfl
  have hfew : [a].length ≤ maxRecvPerTick := by
    simp only [List.length_singleton]
    decide
  rw [along_cons, h.steps hfew fun b hb => by rwa [List.mem_singleton.mp hb]]
  show (C r .capture ∧ C (probeStep r .capture).1 (.arrive a) ∧ _) ∧ True ↔ _
  rw [hcapture]
  refine ⟨fun hall => hall.1.2.1, fun harrive => ⟨⟨hC _ _ nofun, harrive, ?_⟩, trivial⟩⟩
  exact ⟨hC _ _ nofun, hC _ _ nofun, hC _ _ nofun, trivial⟩

/-- Nothing is asked of a step that is no arrival. -/
theorem conditions_of_not_arrive (r : Engine L × Probes) (s : EngineStep Frame)
    (h : ∀ a, s ≠ .arrive a) : Echoed r s ∧ MeasuresAnswered r s ∧ AnswersAwaited r s := by
  cases s with
  | arrive a => exact absurd rfl (h a)
  | _ => exact ⟨trivial, trivial, trivial⟩

/-- The ping of 2000 ms is answered before the next one is sent. -/
theorem round_trip_iff_answered : ∃ a : Arrival, a.now = 2050 ∧ carriedTime a.data = 2000 ∧
    Machine.Along probeStep MeasuresAnswered (newEngine, ⟨[], none⟩) (stepsOf newEngine
      [.setClientId 7, .connect .connected 0, .process ⟨[], 2000, 2000⟩,
        .process ⟨[a], 2050, 2050⟩]) := by
  obtain ⟨p, hp, hpinging, hprobes⟩ :=
    pinging_dialled.tick (show pingIntervalMs ≤ (2000 : BitVec 64) - 0 by decide)
  obtain ⟨a, hnow, hne, hreply⟩ := answer_arrives hp 2050
  have hmem : ((2000 : BitVec 64), p) ∈ (probeCall dialled (.process ⟨[], 2000, 2000⟩)).2.sent := by
    rw [hprobes]
    exact List.mem_append_right _ (List.mem_singleton_self _)
  refine ⟨a, hnow, (reply_pong hp hreply).2, (round_trip_iff create_newEngine _ ?_).mpr ?_⟩
  · have hidle := fun r s h => (conditions_of_not_arrive (L := toneLibrary) r s h).1
    rw [along_dial fun _ _ _ => trivial, pinging_dialled.along_idle hidle, hpinging.along_tick hidle hne]
    exact fun _ => ⟨2000, p, hmem, hreply⟩
  · have hidle := fun r s h => (conditions_of_not_arrive (L := toneLibrary) r s h).2.2
    rw [along_dial fun _ _ _ => trivial, pinging_dialled.along_idle hidle, hpinging.along_tick hidle hne]
    intro _ t ht _
    rw [hprobes] at ht
    obtain rfl := Option.some.inj ht
    rw [hnow]
    exact .inl ⟨⟨p, hmem, hreply⟩, fitsFloat_of_lt (by decide)⟩

/-- The ping of 2000 ms is answered after 2100 ms, when the ping of 4000 ms has been sent: the round trip
is measured from the latter. -/
theorem round_trip_of_other_ping : ¬ ∀ calls : List (Call (ℚ × ℚ)),
    Machine.Along probeStep Echoed (newEngine, ⟨[], none⟩) (stepsOf newEngine calls) →
      Machine.Along probeStep MeasuresAnswered (newEngine, ⟨[], none⟩) (stepsOf newEngine calls) := by
  intro h
  obtain ⟨p, hp, hfirst, hprobes⟩ :=
    pinging_dialled.tick (show pingIntervalMs ≤ (2000 : BitVec 64) - 0 by decide)
  obtain ⟨p', hp', hsecond, hprobes'⟩ :=
    hfirst.tick (show pingIntervalMs ≤ (4000 : BitVec 64) - 2000 by decide)
  obtain ⟨a, hnow, hne, hreply⟩ := answer_arrives hp 4100
  have hmem : ((2000 : BitVec 64), p) ∈ (probeCall (probeCall dialled (.process ⟨[], 2000, 2000⟩))
      (.process ⟨[], 4000, 4000⟩)).2.sent := by
    rw [hprobes', hprobes]
    exact List.mem_append_left _ (List.mem_append_right _ (List.mem_singleton_self _))
  specialize h [.setClientId 7, .connect .connected 0, .process ⟨[], 2000, 2000⟩,
    .process ⟨[], 4000, 4000⟩, .process ⟨[a], 4100, 4100⟩]
  have hecho := fun r s h => (conditions_of_not_arrive (L := toneLibrary) r s h).1
  have hmeasure := fun r s h => (conditions_of_not_arrive (L := toneLibrary) r s h).2.1
  rw [along_dial fun _ _ _ => trivial, along_dial fun _ _ _ => trivial,
    pinging_dialled.along_idle hecho, hfirst.along_idle hecho, hsecond.along_tick hecho hne,
    pinging_dialled.along_idle hmeasure, hfirst.along_idle hmeasure, hsecond.along_tick hmeasure hne] at h
  obtain ⟨hpong, hcarried⟩ := reply_pong hp hreply
  have hechoed : Echoed _ (.arrive a) := fun _ => ⟨2000, p, hmem, hreply⟩
  have hprobing := probing_call (probing_call probing_dialled (.process ⟨[], 2000, 2000⟩))
    (.process ⟨[], 4000, 4000⟩)
  have hawaited := congrArg Probes.awaited hprobes'
  have hanswers := hprobing.answers_iff ⟨p, hmem, hreply⟩
  have hfloat : floatOfU64 (a.now - 4000) = 100 := by
    rw [hnow, floatOfU64_eq_iff.mpr (fitsFloat_of_lt (by decide)),
      show ((4100 - 4000 : BitVec 64)).toNat = 100 by decide]
    rfl
  rcases (hprobing.measures_iff hechoed).mp (h hechoed) hpong 4000 hawaited (by decide) with
    ⟨hother, -⟩ | hsame | ⟨t', -, hother, hrounded⟩
  · exact absurd ((hanswers 4000).mp hother) (by decide)
  · rw [hfloat, hsecond.rttMs] at hsame
    simp at hsame
  · rw [hfloat, (hanswers t').mp hother, hnow,
      show ((4100 - 2000 : BitVec 64)).toNat = 2100 by decide] at hrounded
    simp at hrounded

end AudioPlatform.Core
