import AudioPlatform.Server.Coherence
import AudioPlatform.Server.History

/-! What the UDP loop forwards, and for whom. -/
namespace AudioPlatform.Server
open Concurrency

variable {D : Deployment} {up : ClientId → Bool} {s : ServerState} {C : Set ClientId}
  {h : List Event} {S S' : Serial}

/-! ### Forwarding -/

/-- The copies of an audio packet, told from the maps. -/
def ServerState.copies (s : ServerState) (n : BitVec 32) (u : BitVec 64) :
    List (ClientId × SocketAddr) :=
  (s.members (channelName n)).elems.filterMap fun m => (s.target u m).map fun a => (m, a)

theorem copies_addrs (n : BitVec 32) (u : BitVec 64) :
    (s.copies n u).map Prod.snd = (s.members (channelName n)).elems.filterMap (s.target u) := by
  unfold ServerState.copies
  rw [List.map_filterMap]
  congr 1
  funext m
  cases s.target u m <;> rfl

theorem mem_copies {n : BitVec 32} {u : BitVec 64} {m : ClientId} {a : SocketAddr} :
    (m, a) ∈ s.copies n u ↔ m ∈ s.members (channelName n) ∧ s.target u m = some a := by
  simp [ServerState.copies]

theorem nodup_copies (n : BitVec 32) (u : BitVec 64) : ((s.copies n u).map Prod.fst).Nodup := by
  have hsub : ((s.copies n u).map Prod.fst).Sublist (s.members (channelName n)).elems := by
    unfold ServerState.copies
    rw [List.map_filterMap]
    generalize (s.members (channelName n)).elems = ids
    induction ids with
    | nil => exact List.Sublist.slnil
    | cons m rest ih =>
      cases ht : s.target u m with
      | none => rw [List.filterMap_cons_none (by simp [ht])]; exact ih.cons m
      | some a => rw [List.filterMap_cons_some (by simp [ht]; rfl)]; exact ih.cons_cons m
  exact hsub.nodup (s.members (channelName n)).nodup

/-- Registering the source of a packet moves no target of it. -/
theorem target_registered {u : BitVec 64} {a : SocketAddr} {m : ClientId}
    (hid : ∀ cl, s.clients m = some cl → cl.udpClientId = D.deriveUdpId m)
    (hroute : s.udpIdToClient u = some m → u = D.deriveUdpId m) :
    (s.registered u a).target u m = s.target u m := by
  unfold ServerState.target
  rw [clients_registered]
  split
  · rename_i hu
    cases hm : s.clients m with
    | none => rfl
    | some cl => simp [hid cl hm, hroute hu]
  · rfl

/-- The datagrams that an audio packet of `bytes` leads to. -/
theorem datagrams_audio (up : ClientId → Bool) {bytes : List Byte} (src : SocketAddr) {w : World}
    {header : RoutingHeader}
    (hlen : bytes.length ≤ maxUdpPacketSize) (hp : RoutingHeader.parse bytes = some header)
    (ht : header.packetType = PacketType.audio.toU8)
    (hid : ∀ m cl, w.state.clients m = some cl → cl.udpClientId = D.deriveUdpId m)
    (hroute : ∀ u m, w.state.udpIdToClient u = some m → u = D.deriveUdpId m) :
    ∃ sent, (handleDatagram bytes src).alone (effect up) w =
      some ((), ⟨w.state.registered header.clientId src, sent, w.datagrams ++
        (w.state.copies header.channelId header.clientId).map fun x => (x.2, bytes)⟩) := by
  have htake : bytes.take maxUdpPacketSize = bytes := List.take_of_length_le hlen
  have ht' : PacketType.fromU8 header.packetType = some .audio := by
    rw [ht, PacketType.fromU8_toU8]
  obtain ⟨sent, dgs, ha, hdgs, -⟩ :=
    alone_handleDatagram up src w (htake.symm ▸ hp) ht'
  refine ⟨sent, ?_⟩
  have htargets : (w.state.registered header.clientId src).target header.clientId =
      w.state.target header.clientId :=
    funext fun m => target_registered (hid m) (hroute _ m)
  rw [ha, hdgs rfl, htake, htargets, ← copies_addrs, List.map_map]
  rfl

/-- **Forwarding is exact.** After any run, an audio datagram is sent unchanged, once, to
each client whose last successful join was of the header's channel and still stands,
whose numeric id is not the header's, and which has been heard from since it
authenticated; the copy goes where it was last heard from. What is no packet changes
nothing. -/
theorem forwarding_exact (up : ClientId → Bool) (hC : Set.InjOn D.deriveUdpId C) (hr : Run D C h S)
    (bytes : List Byte) (src : SocketAddr) (hlen : bytes.length ≤ maxUdpPacketSize) :
    ∃ S', serve D up (.datagram bytes src) S = some S' ∧
      (bytes.length < routingHeaderSize → S' = S) ∧
      (routingHeaderSize ≤ bytes.length → ∃ header, RoutingHeader.parse bytes = some header ∧
        (PacketType.fromU8 header.packetType = none → S' = S) ∧
        (header.packetType = PacketType.audio.toU8 → ∃ copies : List (ClientId × SocketAddr),
          (copies.map Prod.fst).Nodup ∧
          (∀ m a, (m, a) ∈ copies ↔ currentChannel m h = some (channelName header.channelId) ∧
            D.deriveUdpId m ≠ header.clientId ∧ lastAddr D m h = some a) ∧
          S'.world.datagrams = S.world.datagrams ++ copies.map fun x => (x.2, bytes))) := by
  have hrec := hr.recorded hC
  have htake : bytes.take maxUdpPacketSize = bytes := List.take_of_length_le hlen
  have hinvalid : ∀ w, (handleDatagram bytes src).alone (effect up) S.world = some ((), w) →
      (RoutingHeader.parse bytes).bind (fun header => PacketType.fromU8 header.packetType) = none →
      (⟨w, S.phase⟩ : Serial) = S := by
    intro w ha hp
    have := alone_handleDatagram_invalid up src S.world
      (by rw [htake]; exact hp)
    cases ha.symm.trans this
    rfl
  have halone : ∃ w, (handleDatagram bytes src).alone (effect up) S.world = some ((), w) := by
    rcases alone_datagram D up bytes src S.world with
      ⟨_, _, _, _, _, _, ha, _⟩ | ⟨ha, _⟩ <;> exact ⟨_, ha⟩
  obtain ⟨w, ha⟩ := halone
  refine ⟨⟨w, S.phase⟩, serve_datagram hrec.udp ha, fun hshort => ?_, fun hlong => ?_⟩
  · apply hinvalid w ha
    have : RoutingHeader.parse bytes = none := by
      rw [← Option.not_isSome_iff_eq_none, RoutingHeader.parse_isSome]
      omega
    rw [this, Option.bind_none]
  obtain ⟨header, hp⟩ := Option.isSome_iff_exists.mp ((RoutingHeader.parse_isSome bytes).mpr hlong)
  refine ⟨header, hp, fun hunknown => ?_, fun ht => ?_⟩
  · exact hinvalid w ha (by rw [hp, Option.bind_some, hunknown])
  refine ⟨S.world.state.copies header.channelId header.clientId, nodup_copies _ _,
    fun m a => ?_, ?_⟩
  · have hag := hrec.agrees m
    rw [mem_copies, hag.member]
    refine and_congr_right fun hcur => ?_
    obtain ⟨cl, hcl, -⟩ := Option.bind_eq_some_iff.mp (hag.channel.trans hcur)
    unfold ServerState.target
    rw [hcl, Option.bind_some, hag.udpClientId cl hcl, hag.udpAddr cl hcl]
    split
    · rename_i hne
      simp [hne]
    · rename_i he
      simp [not_not.mp he]
  · obtain ⟨sent, ha'⟩ := datagrams_audio (w := S.world) up src hlen hp ht
      (fun m => (hrec.agrees m).udpClientId) fun u m => (hrec.agrees m).route u
    cases ha.symm.trans ha'
    rfl

/-- Moves served in turn, every send succeeding, with the history they make. -/
def serveAll (D : Deployment) : List Move → List Event × Serial → Option (List Event × Serial)
  | [], r => some r
  | m :: rest, (h, S) => (serve D (fun _ => true) m S).bind fun S' =>
    serveAll D rest ((m.event D (fun _ => true) S.world).toList ++ h, S')

theorem run_serveAll {moves : List Move} {h' : List Event}
    (hm : ∀ m ∈ moves, ∀ c token, m = .auth c token → c ∈ C) (hr : Run D C h S)
    (hs : serveAll D moves (h, S) = some (h', S')) : Run D C h' S' := by
  induction moves generalizing h S with
  | nil =>
    cases hs
    exact hr
  | cons m rest ih =>
    obtain ⟨T, hT, hs⟩ := Option.bind_eq_some_iff.mp hs
    exact ih (fun k hk => hm k (.tail m hk)) (hr.serve _ m (hm m (.head rest)) hT) hs

/-- Client "a" uses 1, everyone else 2. -/
def twoIds : Deployment :=
  { oneShard with deriveUdpId := fun c => if c = "a" then 1 else 2 }

/-- A packet for channel 1 that is only a header. -/
def headerOnly (id type : Byte) : List Byte :=
  [0, 0, 0, 0, 0, 0, 0, 1, 0, 0, 0, 0, 0, 0, 0, id, type, 0, 0, 0]

def twoInChannel : List Move :=
  [.auth "a" "alice", .auth "b" "bob", .incoming "a" 0 (.message (.joinChannel "channel-1")),
    .incoming "b" 0 (.message (.joinChannel "channel-1")), .datagram (headerOnly 2 1) ⟨10, 20⟩]

theorem forwarding_exact_pair : ∃ h S, Run twoIds {"a", "b"} h S ∧
    lastAddr twoIds "b" h = some ⟨10, 20⟩ ∧ ∃ S', ∃ copies : List (ClientId × SocketAddr),
      serve twoIds (fun _ => true) (.datagram (headerOnly 1 0) ⟨30, 40⟩) S = some S' ∧
      ("b", ⟨10, 20⟩) ∈ copies ∧
      S'.world.datagrams = S.world.datagrams ++ copies.map fun x => (x.2, headerOnly 1 0) := by
  have hinj : Set.InjOn twoIds.deriveUdpId {"a", "b"} := by
    rintro x (rfl | rfl) y (rfl | rfl) <;> simp [twoIds]
  have hserved : ((serveAll twoIds twoInChannel ([], Serial.initial twoIds)).map fun r =>
      (currentChannel "b" r.1, lastAddr twoIds "b" r.1)) =
        some (some "channel-1", some ⟨10, 20⟩) := by decide +kernel
  obtain ⟨⟨h, S⟩, hS, hobs⟩ := Option.map_eq_some_iff.mp hserved
  obtain ⟨hcur, haddr⟩ := Prod.mk.inj hobs
  have hclients : ∀ m ∈ twoInChannel, ∀ c token, m = .auth c token →
      c ∈ ({"a", "b"} : Set ClientId) := by
    intro m hm c token he
    subst he
    simp [twoInChannel] at hm
    rcases hm with ⟨rfl, -⟩ | ⟨rfl, -⟩ <;> simp
  have hrun := run_serveAll hclients .nil hS
  obtain ⟨S', hS', -, hlong⟩ :=
    forwarding_exact (fun _ => true) hinj hrun (headerOnly 1 0) ⟨30, 40⟩ (by decide)
  obtain ⟨header, hheader, -, haudio⟩ := hlong (by decide)
  cases hheader
  obtain ⟨copies, -, hcopies, hdgs⟩ := haudio (by decide)
  exact ⟨h, S, hrun, haddr, S', copies, hS', (hcopies "b" _).mpr ⟨hcur, by decide, haddr⟩, hdgs⟩

/-! ### Who may send -/

/-- Whatever its `clientId` stands for, an audio datagram in a state the server reaches
goes to the addresses of the channel's members with another numeric id, one copy each,
and nowhere else. -/
theorem forwards_for_anyone (up : ClientId → Bool) {cfg : ServerConfig}
    (hr : Reaches (system D) (fun _ _ => True) (initial D) cfg)
    (bytes : List Byte) (header : RoutingHeader) (src : SocketAddr)
    (hlen : bytes.length ≤ maxUdpPacketSize) (hp : RoutingHeader.parse bytes = some header)
    (ht : header.packetType = PacketType.audio.toU8) :
    ∃ w, (handleDatagram bytes src).alone (effect up) cfg.shared.world = some ((), w) ∧
      ∃ copies : List (ClientId × SocketAddr), (copies.map Prod.fst).Nodup ∧
        (∀ m a, (m, a) ∈ copies ↔
          m ∈ cfg.shared.world.state.members (channelName header.channelId) ∧
          ∃ cl, cfg.shared.world.state.clients m = some cl ∧
            cl.udpClientId ≠ header.clientId ∧ cl.udpAddr = some a) ∧
        w.datagrams = cfg.shared.world.datagrams ++ copies.map fun x => (x.2, bytes) := by
  obtain ⟨γ, hγ⟩ := outline_holds False (fun _ _ _ h => h.elim) hr
  have hsound : Sound D cfg.shared.world.state := hγ.common
  obtain ⟨sent, ha⟩ := datagrams_audio up src hlen hp ht hsound.udpClientId
    hsound.routed
  refine ⟨_, ha, _, nodup_copies _ _, fun m a => ?_, rfl⟩
  rw [mem_copies]
  refine and_congr_right fun _ => ?_
  unfold ServerState.target
  rw [Option.bind_eq_some_iff]
  refine exists_congr fun cl => and_congr_right fun _ => ?_
  split
  · rename_i hne
    simp [hne]
  · rename_i he
    simp [not_not.mp he]

/-- Client "a" of `aloneInChannel`, heard from at an address. -/
def aloneHeard : List Move :=
  aloneInChannel ++ .datagram (headerOnly 7 1) ⟨10, 20⟩ :: List.replicate 6 (.step .udp true)

theorem play_aloneHeard : ∃ cfg, play oneShard aloneHeard (initial oneShard) = some cfg ∧
    "a" ∈ cfg.shared.world.state.members "channel-1" ∧
    (∃ cl, cfg.shared.world.state.clients "a" = some cl ∧ cl.udpClientId = 7 ∧
      cl.udpAddr = some ⟨10, 20⟩) ∧
    cfg.shared.world.state.udpIdToClient 9 = none := by
  have hplay : ((play oneShard aloneHeard (initial oneShard)).map fun cfg =>
      (decide ("a" ∈ cfg.shared.world.state.members "channel-1"),
        (cfg.shared.world.state.clients "a").map fun cl => (cl.udpClientId, cl.udpAddr),
        cfg.shared.world.state.udpIdToClient 9)) =
          some (true, some (7, some ⟨10, 20⟩), none) := by decide
  obtain ⟨cfg, hcfg, hobs⟩ := Option.map_eq_some_iff.mp hplay
  obtain ⟨hmem, hobs⟩ := Prod.mk.inj hobs
  obtain ⟨hcl, hroute⟩ := Prod.mk.inj hobs
  obtain ⟨cl, hcl, hrec⟩ := Option.map_eq_some_iff.mp hcl
  obtain ⟨hid, haddr⟩ := Prod.mk.inj hrec
  exact ⟨cfg, hcfg, of_decide_eq_true hmem, ⟨cl, hcl, hid, haddr⟩, hroute⟩

theorem reaches_aloneHeard {cfg : ServerConfig}
    (h : play oneShard aloneHeard (initial oneShard) = some cfg) :
    Reaches (system oneShard) (fun _ _ => True) (initial oneShard) cfg :=
  (reaches_play (T := [.conn "a", .udp]) (fun m _ => sends_any m) (by decide) h .refl
    fun _ _ => rfl).1.mono fun _ _ _ => trivial

/-- Nobody has the numeric id 9. -/
theorem forwards_for_alone : ∃ cfg, play oneShard aloneHeard (initial oneShard) = some cfg ∧
    cfg.shared.world.state.udpIdToClient 9 = none ∧
    ∃ w, (handleDatagram (headerOnly 9 0) ⟨30, 40⟩).alone (effect fun _ => true) cfg.shared.world =
      some ((), w) ∧
    ∃ copies : List (ClientId × SocketAddr), ("a", ⟨10, 20⟩) ∈ copies ∧
      w.datagrams = cfg.shared.world.datagrams ++ copies.map fun x => (x.2, headerOnly 9 0) := by
  obtain ⟨cfg, hcfg, hmem, ⟨cl, hcl, hid, haddr⟩, hroute⟩ := play_aloneHeard
  have hname : channelName 1 = "channel-1" := by decide
  obtain ⟨w, ha, copies, -, hcopies, hdgs⟩ := forwards_for_anyone (fun _ => true)
    (reaches_aloneHeard hcfg) (headerOnly 9 0) ⟨0, 1, 9, 0, 0, 0⟩ ⟨30, 40⟩
    (by decide) (by decide) rfl
  exact ⟨cfg, hcfg, hroute, w, ha, copies,
    (hcopies "a" _).mpr ⟨hname ▸ hmem, cl, hcl, by rw [hid]; decide, haddr⟩, hdgs⟩

/-- A numeric id that nobody has is forwarded to the members all the same. -/
theorem forwards_strangers : ¬ ∀ cfg,
    Reaches (system oneShard) (fun _ _ => True) (initial oneShard) cfg →
    ∀ bytes src header w, bytes.length ≤ maxUdpPacketSize →
      RoutingHeader.parse bytes = some header → header.packetType = PacketType.audio.toU8 →
      (handleDatagram bytes src).alone (effect fun _ => true) cfg.shared.world = some ((), w) →
      (∃ m cl a, m ∈ cfg.shared.world.state.members (channelName header.channelId) ∧
        cfg.shared.world.state.clients m = some cl ∧ cl.udpAddr = some a ∧
        (a, bytes) ∈ w.datagrams.drop cfg.shared.world.datagrams.length) →
      ∃ c, cfg.shared.world.state.udpIdToClient header.clientId = some c ∧
        (cfg.shared.world.state.clients c).isSome ∧
        c ∈ cfg.shared.world.state.members (channelName header.channelId) := by
  intro hmember
  obtain ⟨cfg, hcfg, hmem, ⟨cl, hcl, hid, haddr⟩, hroute⟩ := play_aloneHeard
  have hreach := reaches_aloneHeard hcfg
  obtain ⟨γ, hγ⟩ := outline_holds False (fun _ _ _ h => h.elim) hreach
  have hsound : Sound oneShard cfg.shared.world.state := hγ.common
  have hparse : RoutingHeader.parse (headerOnly 9 0) = some ⟨0, 1, 9, 0, 0, 0⟩ := by decide
  have hname : channelName 1 = "channel-1" := by decide
  obtain ⟨sent, ha⟩ := datagrams_audio (fun _ => true) ⟨30, 40⟩ (by decide) hparse
    rfl hsound.udpClientId hsound.routed
  obtain ⟨c, hc, -⟩ := hmember cfg hreach _ ⟨30, 40⟩ _ _ (by decide) hparse rfl ha
    ⟨"a", cl, ⟨10, 20⟩, hname ▸ hmem, hcl, haddr, by
      rw [List.drop_left]
      refine List.mem_map.mpr ⟨("a", ⟨10, 20⟩), mem_copies.mpr ⟨hname ▸ hmem, ?_⟩, rfl⟩
      simp [ServerState.target, hcl, hid, haddr]⟩
  cases hroute.symm.trans hc

end AudioPlatform.Server
