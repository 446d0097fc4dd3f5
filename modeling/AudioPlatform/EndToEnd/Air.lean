import AudioPlatform.Core.Attribution
import AudioPlatform.Server.Forwarding
import AudioPlatform.Server.Sockets

/-! The server and its clients, with the air between them.

The network may lose, delay, repeat, reorder and misdirect datagrams, so it is the datagrams that
were ever sent: any of them may reach the UDP loop, or any client, at any time. Nobody else sends.
Then what a client decodes is what some client said, and it is attributed to the one that said it. -/
namespace AudioPlatform.EndToEnd
open AudioPlatform.Core AudioPlatform.Server Concurrency

variable {Frame ι : Type} {L : Library Frame}

structure Air (L : Library Frame) (ι : Type) where
  server : ServerConfig
  clients : ι → Engine L
  /-- What the clients have sent. -/
  uplink : List (List Byte)
  /-- What they have said, and who said it. -/
  said : List (ι × Utterance)

/-- What the server has sent. -/
def Air.downlink (air : Air L ι) : List (List Byte) :=
  air.server.shared.world.datagrams.map Prod.snd

inductive AirMove (Frame ι : Type) where
  /-- The server moves; datagrams are received by `deliver` only. -/
  | server (m : Move)
  /-- The UDP loop receives a datagram that was sent. -/
  | deliver (packet : List Byte) (src : SocketAddr)
  /-- A call of a client's API; a tick receives datagrams that were sent. -/
  | call (i : ι) (c : Call Frame)

/-- What arrives in the call has been sent. -/
def Call.Hears (c : Call Frame) (downlink : List (List Byte)) : Prop :=
  match c with
  | .process t => ∀ a ∈ t.arrivals, a.data = [] ∨ a.data ∈ downlink
  | _ => True

instance (c : Call Frame) (downlink : List (List Byte)) : Decidable (Call.Hears c downlink) := by
  unfold Call.Hears
  cases c <;> infer_instance

/-- What the engine says in the call. -/
def Call.utters (c : Call Frame) (e : Engine L) : Option Utterance :=
  match c with
  | .process _ => if e.connected then e.utterance else none
  | _ => none

/-- A datagram that leaves by an open socket. -/
def Action.leaves : Action Frame → Option (List Byte)
  | .send packet true => some packet
  | _ => none

variable (D : Deployment)

/-- A server move; nothing where it is not possible. -/
def Air.serve (air : Air L ι) (m : Move) : Air L ι :=
  { air with server := (m.run D air.server).getD air.server }

def Air.step [DecidableEq ι] (air : Air L ι) : AirMove Frame ι → Air L ι × List (ι × Action Frame)
  | .server (.datagram _ _) => (air, [])
  | .server m => (air.serve D m, [])
  | .deliver packet src => if packet ∈ air.uplink then (air.serve D (.datagram packet src), []) else (air, [])
  | .call i c =>
    if Call.Hears c air.downlink then
      let (e, actions) := (air.clients i).call c
      ({ air with
          clients := Function.update air.clients i e
          uplink := air.uplink ++ actions.filterMap Action.leaves
          said := air.said ++ ((Call.utters c (air.clients i)).map (i, ·)).toList },
        actions.map (i, ·))
    else (air, [])

/-- Engines as they are created, and a server as it starts. -/
def Air.initial (clients : ι → Engine L) : Air L ι := ⟨Server.initial D, clients, [], []⟩

/-! ### What is on the air -/

/-- A datagram of a client: the server reads a header, and audio is something that was said. -/
def Spoken (L : Library Frame) (said : List (ι × Utterance)) (packet : List Byte) : Prop :=
  packet.length ≤ aeMaxPacketSize ∧ ∃ hdr, RoutingHeader.parse packet = some hdr ∧
    (hdr.packetType = PacketType.audio.toU8 → ∃ x ∈ said, x.2.SentAs L packet)

/-- A datagram of the server: one of the clients', or a pong. -/
def Relayed (uplink : List (List Byte)) (packet : List Byte) : Prop :=
  packet ∈ uplink ∨ ∃ hdr, RoutingHeader.parse packet = some hdr ∧ hdr.packetType = PacketType.pong.toU8

structure Air.Sound (air : Air L ι) : Prop where
  clients : ∀ i, (air.clients i).Licensed
  uplink : ∀ packet ∈ air.uplink, Spoken L air.said packet
  downlink : ∀ packet ∈ air.downlink, Relayed air.uplink packet
  loop : (air.server.tasks .udp).All (Op.Sends (Relayed air.uplink))
  handlers : ∀ c, (air.server.tasks (.conn c)).All Op.Wordless

variable {D} {air : Air L ι} {uplink uplink' : List (List Byte)} {said said' : List (ι × Utterance)}
  {packet out : List Byte}

theorem Relayed.mono (h : Relayed uplink packet) (hsub : uplink ⊆ uplink') : Relayed uplink' packet :=
  h.imp_left fun hmem => hsub hmem

theorem Spoken.mono (h : Spoken L said packet) (hsub : said ⊆ said') : Spoken L said' packet := by
  obtain ⟨hlen, hdr, hparse, haudio⟩ := h
  exact ⟨hlen, hdr, hparse, fun ht => (haudio ht).imp fun x hx => ⟨hsub hx.1, hx.2⟩⟩

theorem parse_set_packetType {hdr : RoutingHeader} (b : Byte) (h : RoutingHeader.parse packet = some hdr) :
    RoutingHeader.parse (packet.set 16 b) = some { hdr with packetType := b } := by
  unfold RoutingHeader.parse at h ⊢
  split at h
  · cases h
  · rename_i hlen
    obtain rfl := Option.some.inj h
    have hlong : 16 < packet.length := by
      unfold routingHeaderSize at hlen
      omega
    rw [if_neg (by rw [List.length_set]; exact hlen)]
    simp [List.getD_eq_getElem?_getD, hlong]

/-- What the loop sends for a client's datagram. -/
theorem Spoken.relayed (h : Spoken L said packet) (hmem : packet ∈ uplink)
    (hout : Answers packet out) : Relayed uplink out := by
  obtain ⟨hlen, -⟩ := h
  have htake : packet.take maxUdpPacketSize = packet :=
    List.take_of_length_le (hlen.trans (by decide))
  obtain ⟨hdr, hparse, ⟨-, rfl⟩ | ⟨-, rfl⟩⟩ := hout
  · rw [htake]
    exact .inl hmem
  · exact .inr ⟨_, parse_set_packetType _ hparse, rfl⟩

/-! ### The server's moves -/

/-- The tasks keep to what they may send, and what they have sent is kept. -/
structure Carries (good : List Byte → Prop) (cfg : ServerConfig) : Prop where
  downlink : ∀ x ∈ cfg.shared.world.datagrams, good x.2
  loop : (cfg.tasks .udp).All (Op.Sends good)
  handlers : ∀ c, (cfg.tasks (.conn c)).All Op.Wordless

theorem Carries.task {good : List Byte → Prop} {cfg : ServerConfig} (h : Carries good cfg) (t : Task) :
    (cfg.tasks t).All (Op.Sends good) := by
  cases t with
  | conn c => exact Program.All.sends (h.handlers c)
  | udp => exact h.loop

/-- What is in the socket after an action. -/
theorem Op.Sends.datagrams {good : List Byte → Prop} {o : Op} (h : o.Sends good)
    {dgs : List (SocketAddr × List Byte)} (hdgs : ∀ x ∈ dgs, good x.2) :
    ∀ x ∈ o.datagrams dgs, good x.2 := by
  cases o with
  | sendTo a bytes =>
    intro x hx
    rcases List.mem_append.mp hx with hx | hx
    · exact hdgs x hx
    · obtain rfl := List.mem_singleton.mp hx
      exact h
  | _ => exact hdgs

/-- A program in place of one that kept to the rules. -/
theorem Carries.update {good : List Byte → Prop} {cfg : ServerConfig} {s : Shared} {t : Task}
    {p : Prog Phase} (h : Carries good cfg) (hdgs : ∀ x ∈ s.world.datagrams, good x.2)
    (hudp : t = .udp → p.All (Op.Sends good)) (hconn : ∀ c, t = .conn c → p.All Op.Wordless) :
    Carries good ⟨s, Function.update cfg.tasks t p⟩ := by
  refine ⟨hdgs, ?_, fun c => ?_⟩
  · show Program.All _ (Function.update cfg.tasks t p .udp)
    by_cases ht : t = .udp
    · subst ht
      rw [Function.update_self]
      exact hudp rfl
    · rw [Function.update_of_ne (Ne.symm ht)]
      exact h.loop
  · show Program.All _ (Function.update cfg.tasks t p (.conn c))
    by_cases ht : t = .conn c
    · subst ht
      rw [Function.update_self]
      exact hconn c rfl
    · rw [Function.update_of_ne (Ne.symm ht)]
      exact h.handlers c

/-- What a task starts. -/
theorem starts_carries {m : Move} {φ : Phase} {p : Prog Phase} {good : List Byte → Prop}
    (hp : m.program D = some (φ, p))
    (hgood : ∀ bytes src out, m = .datagram bytes src → Answers bytes out → good out) :
    (m.task = .udp → p.All (Op.Sends good)) ∧ ∀ c, m.task = .conn c → p.All Op.Wordless := by
  cases m with
  | step => cases hp
  | auth c token =>
    cases hp
    exact ⟨nofun, fun _ _ => (signaling_authenticate ..).mono fun _ => Op.Signaling.wordless⟩
  | hangUp c =>
    cases hp
    exact ⟨nofun, fun _ _ => trivial⟩
  | incoming c now m =>
    cases hp
    exact ⟨nofun, fun _ _ => (signaling_handleIncoming ..).mono fun _ => Op.Signaling.wordless⟩
  | datagram bytes src =>
    cases hp
    refine ⟨fun _ => Program.All.bind ?_ fun _ => trivial, nofun⟩
    exact (sends_handleDatagram bytes src).mono fun o ho => ho.mono fun out => hgood bytes src out rfl

/-- One move of the server. -/
theorem Carries.run {good : List Byte → Prop} {cfg cfg' : ServerConfig} {m : Move}
    (h : Carries good cfg) (hrun : m.run D cfg = some cfg')
    (hgood : ∀ bytes src out, m = .datagram bytes src → Answers bytes out → good out) :
    Carries good cfg' := by
  rcases run_cases hrun with ⟨t, up, o, next, r, s, -, ht, he, rfl⟩ | ⟨φ, p, hp, -, rfl⟩
  · obtain ⟨-, -, hs⟩ := act_eq_some D he
    have hall := h.task t
    rw [ht] at hall
    refine h.update ?_ (fun hu => ?_) fun c hc => ?_
    · rw [hs]
      exact Op.Sends.datagrams hall.1 h.downlink
    · exact hall.2 r
    · have hquiet := h.handlers c
      rw [← hc, ht] at hquiet
      exact hquiet.2 r
  · obtain ⟨hudp, hconn⟩ := starts_carries hp hgood
    exact h.update h.downlink hudp hconn

theorem Air.Sound.carries (h : air.Sound) : Carries (Relayed air.uplink) air.server where
  downlink x hx := h.downlink x.2 (List.mem_map_of_mem hx)
  loop := h.loop
  handlers := h.handlers

theorem Air.Sound.serve {m : Move} (h : air.Sound)
    (hm : ∀ bytes src, m = .datagram bytes src → bytes ∈ air.uplink) : (air.serve D m).Sound := by
  unfold Air.serve
  cases hrun : m.run D air.server with
  | none => exact h
  | some cfg =>
    have hcarries := h.carries.run hrun fun bytes src out hd hout =>
      (h.uplink bytes (hm bytes src hd)).relayed (hm bytes src hd) hout
    refine ⟨h.clients, h.uplink, fun packet hp => ?_, hcarries.loop, hcarries.handlers⟩
    obtain ⟨x, hx, rfl⟩ := List.mem_map.mp hp
    exact hcarries.downlink x hx

/-! ### A client's calls -/

/-- What leaves in a call is spoken. -/
theorem spoken_call {e : Engine L} (h : e.Licensed) {c : Call Frame} (i : ι)
    (hp : packet ∈ (e.call c).2.filterMap Action.leaves) :
    Spoken L ((Call.utters c e).map (i, ·)).toList packet := by
  obtain ⟨act, hact, hleaves⟩ := List.mem_filterMap.mp hp
  obtain rfl : act = .send packet true := by
    cases act with
    | send p sock =>
      cases sock with
      | true => exact congrArg (Action.send · true) (Option.some.inj hleaves)
      | false => cases hleaves
    | _ => cases hleaves
  obtain ⟨hdr, t, hissues, htick⟩ := issues_call h hact
  refine ⟨hissues.fits, hdr, hissues.header, fun ht => ?_⟩
  obtain rfl : PacketType.audio = t := by
    have htype := hissues.type
    rw [ht, PacketType.fromU8_toU8] at htype
    exact Option.some.inj htype
  obtain ⟨hon, -, -, u, hu, -, -, hsent⟩ := hissues.audio rfl
  obtain ⟨tick, rfl⟩ := htick rfl
  exact ⟨(i, u), by simp [Call.utters, hon, hu], hsent⟩

theorem Air.Sound.step [DecidableEq ι] (h : air.Sound) (m : AirMove Frame ι) : (air.step D m).1.Sound := by
  cases m with
  | server m =>
    cases m with
    | datagram => exact h
    | _ => exact h.serve nofun
  | deliver packet src =>
    unfold Air.step
    dsimp only
    split
    · rename_i hmem
      refine h.serve fun bytes src' hd => ?_
      cases hd
      exact hmem
    · exact h
  | call i c =>
    unfold Air.step
    dsimp only
    split
    · refine ⟨?_, fun packet hp => ?_, fun packet hp => ?_, ?_, h.handlers⟩
      · exact (Function.forall_update_iff _ fun _ (e : Engine L) => e.Licensed).mpr
          ⟨(h.clients i).call c, fun j _ => h.clients j⟩
      · rcases List.mem_append.mp hp with hp | hp
        · exact (h.uplink packet hp).mono (List.subset_append_left ..)
        · exact (spoken_call (h.clients i) i hp).mono (List.subset_append_right ..)
      · exact (h.downlink packet hp).mono (List.subset_append_left ..)
      · exact h.loop.mono fun o ho => ho.mono fun out hr => hr.mono (List.subset_append_left ..)
    · exact h

theorem sound_initial [Zero Frame] {clients : ι → Engine L}
    (hnew : ∀ i, ∃ config, aeEngineCreate L config = some (clients i)) : (Air.initial D clients).Sound where
  clients i := (hnew i).elim fun _ h => licensed_create h
  uplink _ h := absurd h List.not_mem_nil
  downlink _ h := absurd h List.not_mem_nil
  loop := trivial
  handlers _ := trivial

theorem sound_run [DecidableEq ι] [Zero Frame] {clients : ι → Engine L}
    (hnew : ∀ i, ∃ config, aeEngineCreate L config = some (clients i)) (moves : List (AirMove Frame ι)) :
    (Machine.run (Air.step D) (Air.initial D clients) moves).Sound := by
  have hstep : ∀ (air : Air L ι) (m : AirMove Frame ι), True → air.Sound → (air.step D m).1.Sound :=
    fun _ m _ h => h.step m
  exact Machine.run_induction hstep (sound_initial hnew) fun _ _ => trivial

/-- Audio that the server has sent is a datagram of a client, and was said. -/
theorem Air.Sound.spoken (h : air.Sound) {hdr : RtpHeader} (hmem : packet ∈ air.downlink)
    (hheader : packetHeader packet = some hdr) (haudio : hdr.packetType = aeRtpTypeAudio) :
    packet ∈ air.uplink ∧ ∃ x ∈ air.said, x.2.SentAs L packet := by
  obtain ⟨routing, hparse, rfl⟩ : ∃ r, RoutingHeader.parse packet = some r ∧ ofRoutingHeader r = hdr :=
    Option.map_eq_some_iff.mp ((parseHeader_eq packet fun _ => 0).symm.trans hheader)
  rcases h.downlink packet hmem with hup | ⟨r, hr, hpong⟩
  · obtain ⟨-, r, hr, hsaid⟩ := h.uplink packet hup
    obtain rfl := Option.some.inj (hr.symm.trans hparse)
    exact ⟨hup, hsaid haudio⟩
  · obtain rfl := Option.some.inj (hr.symm.trans hparse)
    cases hpong.symm.trans haudio

/-! ### Runs in parts -/

/-- A move of the server as one of the whole. -/
def ofMove : Move → AirMove Frame ι
  | .datagram bytes src => .deliver bytes src
  | m => .server m

/-- The server plays a schedule that delivers what was sent. -/
theorem run_play [DecidableEq ι] (air : Air L ι) {moves : List Move} {cfg : ServerConfig}
    (hsent : ∀ bytes src, .datagram bytes src ∈ moves → bytes ∈ air.uplink)
    (h : play D moves air.server = some cfg) :
    Machine.run (Air.step D) air (moves.map ofMove : List (AirMove Frame ι)) =
      { air with server := cfg } := by
  induction moves generalizing air with
  | nil =>
    cases h
    rfl
  | cons m rest ih =>
    obtain ⟨cfg', hm, hrest⟩ := Option.bind_eq_some_iff.mp h
    have hstep : (air.step D (ofMove m : AirMove Frame ι)).1 = { air with server := cfg' } := by
      have hserve : air.serve D m = { air with server := cfg' } := by
        unfold Air.serve
        rw [hm]
        rfl
      cases m with
      | datagram bytes src =>
        show (if bytes ∈ air.uplink then (air.serve D (.datagram bytes src), [])
          else (air, ([] : List (ι × Action Frame)))).1 = _
        rw [if_pos (hsent bytes src (List.mem_cons_self ..)), hserve]
      | _ => exact hserve
    show Machine.run _ (air.step D (ofMove m)).1 (rest.map ofMove) = _
    rw [hstep]
    exact ih { air with server := cfg' }
      (fun bytes src hmem => hsent bytes src (List.mem_cons_of_mem _ hmem)) hrest

/-- A client makes calls in which nothing arrives. -/
theorem run_calls [DecidableEq ι] (air : Air L ι) (i : ι) {calls : List (Call Frame)}
    (hquiet : ∀ c ∈ calls, ∀ downlink, Call.Hears c downlink) : ∃ air' : Air L ι,
    Machine.run (Air.step D) air (calls.map (.call i)) = air' ∧ air'.server = air.server ∧
      air'.clients = Function.update air.clients i (Machine.run Engine.call (air.clients i) calls) ∧
      air'.uplink = air.uplink ++
        (Machine.outputs Engine.call (air.clients i) calls).filterMap Action.leaves := by
  induction calls generalizing air with
  | nil => exact ⟨air, rfl, rfl, by simp [Machine.run], by simp [Machine.outputs]⟩
  | cons c rest ih =>
    obtain ⟨next, hnext, hserver, hclients, huplink⟩ : ∃ next : Air L ι,
        (air.step D (.call i c)).1 = next ∧ next.server = air.server ∧
          next.clients = Function.update air.clients i ((air.clients i).call c).1 ∧
          next.uplink = air.uplink ++ ((air.clients i).call c).2.filterMap Action.leaves := by
      unfold Air.step
      dsimp only
      rw [if_pos (hquiet c (List.mem_cons_self ..) _)]
      exact ⟨_, rfl, rfl, rfl, rfl⟩
    obtain ⟨last, hrun, hserver', hclients', huplink'⟩ :=
      ih next fun d hd => hquiet d (List.mem_cons_of_mem _ hd)
    refine ⟨last, ?_, hserver'.trans hserver, ?_, ?_⟩
    · rw [← hrun, ← hnext]
      rfl
    · rw [hclients', hclients]
      simp [Machine.run]
    · rw [huplink', huplink, hclients]
      simp [Machine.outputs]

end AudioPlatform.EndToEnd
