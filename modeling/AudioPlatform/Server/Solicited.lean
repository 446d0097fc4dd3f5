import AudioPlatform.Concurrency.Progress
import AudioPlatform.Server.Forwarding
import AudioPlatform.Server.Sockets

/-! Whom the server writes to.

An address becomes a client's when a packet with the client's numeric id comes from it. So whatever
the server sends by UDP answers a datagram that it has received, and goes to an address that it has
heard from. -/
namespace AudioPlatform.Server
open Concurrency

variable (D : Deployment)

/-- The loop reads a header in the datagram, of a type it knows. -/
def Noted (datagram : List Byte) (header : RoutingHeader) : Prop :=
  RoutingHeader.parse (datagram.take maxUdpPacketSize) = some header ∧
    (PacketType.fromU8 header.packetType).isSome = true

/-- A packet with the numeric id of the client has come from the address. -/
def HeardAt (heard : List (List Byte × SocketAddr)) (c : ClientId) (a : SocketAddr) : Prop :=
  ∃ datagram header, (datagram, a) ∈ heard ∧ Noted datagram header ∧ header.clientId = D.deriveUdpId c

/-- What may be sent to an address: audio of one client that was received, if another client has been
heard at the address, or the pong to a ping that came from there. -/
inductive Solicited (heard : List (List Byte × SocketAddr)) (target : SocketAddr) : List Byte → Prop where
  | forward {datagram : List Byte} {src : SocketAddr} {header : RoutingHeader} (c : ClientId)
      (received : (datagram, src) ∈ heard) (noted : Noted datagram header)
      (audio : header.packetType = PacketType.audio.toU8) (other : D.deriveUdpId c ≠ header.clientId)
      (listens : HeardAt D heard c target) : Solicited heard target (datagram.take maxUdpPacketSize)
  | pong {datagram : List Byte} {header : RoutingHeader} (received : (datagram, target) ∈ heard)
      (noted : Noted datagram header) (ping : header.packetType = PacketType.ping.toU8) :
      Solicited heard target ((datagram.take maxUdpPacketSize).set 16 PacketType.pong.toU8)

/-- The datagrams that a schedule lets the loop receive, and where they come from. -/
def received (moves : List Move) : List (List Byte × SocketAddr) :=
  moves.filterMap fun
    | .datagram bytes src => some (bytes, src)
    | _ => none

/-! ### What the loop may do -/

/-- A record that keeps only an address at which its client has been heard. -/
def Client.Placed (heard : List (List Byte × SocketAddr)) (c : ClientId) (cl : Client) : Prop :=
  cl.udpClientId = D.deriveUdpId c ∧ ∀ a, cl.udpAddr = some a → HeardAt D heard c a

/-- The action sends what is solicited, and writes only addresses at which the client has been heard. -/
def Op.Asks (heard : List (List Byte × SocketAddr)) : Op → Prop
  | .sendTo a out => Solicited D heard a out
  | .setClient c (.udpAddr a) => HeardAt D heard c a
  | .updateClient c (.udpAddr a) => HeardAt D heard c a
  | .insertClient _ cl => cl.udpAddr = none
  | _ => True

/-- What the maps tell. -/
def Op.Tells (heard : List (List Byte × SocketAddr)) : (o : Op) → o.Result → Prop
  | .readClient c, r => ∀ cl, r = some cl → cl.Placed D heard c
  | .getUdpId u, r => ∀ c, r = some c → u = D.deriveUdpId c
  | _, _ => True

/-- The program sends what is solicited, as long as the maps tell the truth. -/
abbrev Heeds (heard : List (List Byte × SocketAddr)) {α : Type} (fin : α → Prop) (p : Prog α) : Prop :=
  p.Expects (fun (_ : Unit) o => o.Asks D heard) (fun _ o r => o.Tells D heard r) (fun _ _ _ => ())
    (fun a _ => fin a) ()

variable {D} {heard : List (List Byte × SocketAddr)} {α : Type} {u : BitVec 64} {a : SocketAddr}

theorem Heeds.bind {β : Type} {p : Prog α} {f : α → Prog β} {mid : α → Prop} {fin : β → Prop}
    (hp : Heeds D heard mid p) (hf : ∀ a, mid a → Heeds D heard fin (f a)) :
    Heeds D heard fin (p >>= f) :=
  Program.Expects.bind hp fun a _ ha => hf a ha

theorem Op.Signaling.asks {o : Op} (h : o.Signaling) : o.Asks D heard := by
  cases o with
  | sendTo | setClient => exact h.elim
  | updateClient c u =>
    cases u with
    | udpAddr a => exact absurd rfl (h a)
    | _ => trivial
  | insertClient => exact h
  | _ => trivial

theorem heeds_registerUdpAddr (h : ∀ c, u = D.deriveUdpId c → HeardAt D heard c a) :
    Heeds D heard (fun _ => True) (registerUdpAddr u a) := by
  refine ⟨trivial, fun r hr => ?_⟩
  cases r with
  | none => trivial
  | some uuid =>
    have hclose : Heeds D heard (fun _ => True)
        (do perform (.dropClient uuid true); perform (.dropUdpId u) : Prog Unit) :=
      ⟨trivial, fun _ _ => ⟨trivial, fun _ _ => trivial⟩⟩
    refine ⟨trivial, fun r _ => ?_⟩
    cases r with
    | none => exact ⟨trivial, fun _ _ => trivial⟩
    | some client =>
      refine ⟨h uuid (hr uuid rfl), fun _ _ => ?_⟩
      dsimp only [Program.bind]
      split
      · split
        · exact ⟨trivial, fun _ _ => ⟨trivial, fun _ _ => hclose⟩⟩
        · exact ⟨trivial, fun _ _ => hclose⟩
      · exact hclose

/-- The targets are addresses at which clients other than the sender have been heard. -/
theorem heeds_forwardTargets (u : BitVec 64) (ids : List ClientId) :
    Heeds D heard (fun targets => ∀ a ∈ targets, ∃ c, D.deriveUdpId c ≠ u ∧ HeardAt D heard c a)
      (forwardTargets u ids) := by
  induction ids with
  | nil => exact fun _ h => absurd h List.not_mem_nil
  | cons mid rest ih =>
    unfold forwardTargets
    refine ⟨trivial, fun r hr => Heeds.bind (p := forwardTargets u rest) ih fun targets htargets => ?_⟩
    cases r with
    | none => exact htargets
    | some cl =>
      obtain ⟨hid, haddr⟩ := hr cl rfl
      dsimp only
      split
      · rename_i hne
        intro a ha
        rcases List.mem_append.mp ha with ha | ha
        · exact ⟨mid, hid ▸ hne, haddr a (Option.mem_toList.mp ha)⟩
        · exact htargets a ha
      · exact htargets

theorem heeds_sendToAll {targets : List SocketAddr} {bytes : List Byte}
    (h : ∀ a ∈ targets, Solicited D heard a bytes) :
    Heeds D heard (fun _ => True) (sendToAll targets bytes) := by
  induction targets with
  | nil => trivial
  | cons a rest ih =>
    exact ⟨h a (List.mem_cons_self ..), fun _ _ => ih fun b hb => h b (List.mem_cons_of_mem a hb)⟩

theorem heeds_handleDatagram {datagram : List Byte} {src : SocketAddr} (hmem : (datagram, src) ∈ heard) :
    Heeds D heard (fun _ => True) (handleDatagram datagram src) := by
  unfold handleDatagram
  dsimp only
  split
  · trivial
  split
  · rename_i header hparse
    split
    · rename_i packetType htype
      have hbyte := PacketType.toU8_of_fromU8 htype
      have hnoted : Noted datagram header := ⟨hparse, by rw [htype]; rfl⟩
      refine (heeds_registerUdpAddr fun c hc => ⟨datagram, header, hmem, hnoted, hc⟩).bind fun _ _ => ?_
      cases packetType with
      | audio =>
        have hcollect : Heeds D heard
            (fun targets => ∀ a ∈ targets, ∃ c, D.deriveUdpId c ≠ header.clientId ∧ HeardAt D heard c a)
            (collectForwardTargets header.channelId header.clientId) := by
          refine ⟨trivial, fun r _ => ?_⟩
          cases r with
          | none => exact fun _ h => absurd h List.not_mem_nil
          | some channel =>
            exact (heeds_forwardTargets _ _).bind fun _ h => ⟨trivial, fun _ _ => h⟩
        refine hcollect.bind fun targets htargets => heeds_sendToAll fun a ha => ?_
        obtain ⟨c, hother, hlistens⟩ := htargets a ha
        exact .forward c hmem hnoted hbyte hother hlistens
      | ping => exact ⟨.pong hmem hnoted hbyte, fun _ _ => trivial⟩
      | keepalive => trivial
      | pong => trivial
    · trivial
  · trivial

/-! ### Schedules -/

/-- Addresses are those of packets, and what has been sent is solicited. -/
structure Solicits (D : Deployment) (heard : List (List Byte × SocketAddr)) (cfg : ServerConfig) :
    Prop where
  addresses : ∀ c cl a, cfg.shared.world.state.clients c = some cl → cl.udpAddr = some a →
    HeardAt D heard c a
  datagrams : ∀ x ∈ cfg.shared.world.datagrams, Solicited D heard x.1 x.2
  loop : Heeds D heard (fun _ => True) (cfg.tasks .udp)
  handlers : ∀ c, (cfg.tasks (.conn c)).All Op.Signaling

theorem HeardAt.mono {heard' : List (List Byte × SocketAddr)} {c : ClientId} (h : HeardAt D heard c a)
    (hsub : heard ⊆ heard') : HeardAt D heard' c a := by
  obtain ⟨datagram, header, hmem, hrest⟩ := h
  exact ⟨datagram, header, hsub hmem, hrest⟩

theorem Solicited.mono {heard' : List (List Byte × SocketAddr)} {out : List Byte}
    (h : Solicited D heard a out) (hsub : heard ⊆ heard') : Solicited D heard' a out := by
  cases h with
  | forward c hmem hnoted haudio hother hlistens =>
    exact .forward c (hsub hmem) hnoted haudio hother (hlistens.mono hsub)
  | pong hmem hnoted hping => exact .pong (hsub hmem) hnoted hping

/-- Sound maps tell the truth. -/
theorem tells_returns {o : Op} {up : ClientId → Bool} {s : ServerState} {r : o.Result}
    (hret : o.returns up s = some r) (hsound : Sound D s)
    (haddr : ∀ c cl a, s.clients c = some cl → cl.udpAddr = some a → HeardAt D heard c a) :
    o.Tells D heard r := by
  cases o with
  | readClient c =>
    intro cl hcl
    have hfound : s.clients c = some cl := (Option.some.inj hret).trans hcl
    exact ⟨hsound.udpClientId c cl hfound, fun a => haddr c cl a hfound⟩
  | getUdpId u =>
    intro c hc
    exact hsound.routed u c ((Option.some.inj hret).trans hc)
  | _ => trivial

/-- What is asked keeps the addresses. -/
theorem addresses_apply {o : Op} {s : ServerState} (ho : o.Asks D heard)
    (haddr : ∀ c cl a, s.clients c = some cl → cl.udpAddr = some a → HeardAt D heard c a) :
    ∀ c cl a, (o.apply s).clients c = some cl → cl.udpAddr = some a → HeardAt D heard c a := by
  have hupdate : ∀ c u, (∀ a, u = .udpAddr a → HeardAt D heard c a) → ∀ d cl a,
      (s.updateClient c u).clients d = some cl → cl.udpAddr = some a → HeardAt D heard d a := by
    intro c u hu d cl a hcl ha
    by_cases hd : d = c
    · subst hd
      rw [clients_updateClient_self] at hcl
      obtain ⟨cl', hcl', rfl⟩ := Option.map_eq_some_iff.mp hcl
      cases u with
      | udpAddr b =>
        obtain rfl : b = a := Option.some.inj ha
        exact hu b rfl
      | _ => exact haddr d cl' a hcl' ha
    · rw [clients_updateClient_of_ne s u hd] at hcl
      exact haddr d cl a hcl ha
  have hput : ∀ c v, (∀ cl, v = some cl → cl.udpAddr = none) → ∀ d cl a,
      (s.putClient c v).clients d = some cl → cl.udpAddr = some a → HeardAt D heard d a := by
    intro c v hv d cl a hcl ha
    by_cases hd : d = c
    · subst hd
      rw [clients_putClient_self] at hcl
      cases (hv cl hcl).symm.trans ha
    · rw [clients_putClient_of_ne s hd] at hcl
      exact haddr d cl a hcl ha
  cases o with
  | updateClient c u =>
    refine hupdate c u fun a hu => ?_
    subst hu
    exact ho
  | setClient c u =>
    refine hupdate c u fun a hu => ?_
    subst hu
    exact ho
  | insertClient c cl => exact hput c _ fun _ h => Option.some.inj h ▸ ho
  | removeClient c => exact hput c none nofun
  | _ => exact haddr

theorem datagrams_apply {o : Op} {sent : List (SocketAddr × List Byte)} (ho : o.Asks D heard)
    (h : ∀ x ∈ sent, Solicited D heard x.1 x.2) : ∀ x ∈ o.datagrams sent, Solicited D heard x.1 x.2 := by
  cases o with
  | sendTo a out =>
    intro x hx
    rcases List.mem_append.mp hx with hx | hx
    · exact h x hx
    · rw [List.mem_singleton.mp hx]
      exact ho
  | _ => exact h

/-- A program takes the place of another. -/
theorem Solicits.update {cfg : ServerConfig} (h : Solicits D heard cfg) {s : Shared} {t : Task}
    {p : Prog Phase}
    (haddr : ∀ c cl a, s.world.state.clients c = some cl → cl.udpAddr = some a → HeardAt D heard c a)
    (hdgs : ∀ x ∈ s.world.datagrams, Solicited D heard x.1 x.2)
    (hudp : t = .udp → Heeds D heard (fun _ => True) p)
    (hconn : ∀ c, t = .conn c → p.All Op.Signaling) :
    Solicits D heard ⟨s, Function.update cfg.tasks t p⟩ := by
  refine ⟨haddr, hdgs, ?_, fun c => ?_⟩
  · show Heeds D heard _ (Function.update cfg.tasks t p .udp)
    by_cases ht : t = .udp
    · subst ht
      rw [Function.update_self]
      exact hudp rfl
    · rw [Function.update_of_ne (Ne.symm ht)]
      exact h.loop
  · show Program.All _ (Function.update cfg.tasks t p (.conn c))
    by_cases ht : t = .conn c
    · subst ht
      rw [Function.update_self]
      exact hconn c rfl
    · rw [Function.update_of_ne (Ne.symm ht)]
      exact h.handlers c

theorem Solicits.hears {cfg : ServerConfig} (h : Solicits D heard cfg) (hrest : cfg.AtRest .udp)
    {heard' : List (List Byte × SocketAddr)} (hsub : heard ⊆ heard') : Solicits D heard' cfg := by
  refine ⟨fun c cl a hcl ha => (h.addresses c cl a hcl ha).mono hsub,
    fun x hx => (h.datagrams x hx).mono hsub, ?_, h.handlers⟩
  obtain ⟨φ, hφ⟩ := hrest
  rw [hφ]
  trivial

/-- One move. A datagram is received only while the loop is at rest, so nothing that it goes by changes
under it. -/
theorem Solicits.run {cfg cfg' : ServerConfig} {m : Move} (h : Solicits D heard cfg)
    (hsound : Sound D cfg.shared.world.state) (hrun : m.run D cfg = some cfg') :
    Solicits D (heard ++ received [m]) cfg' := by
  rcases run_cases hrun with ⟨t, up, o, next, r, s, rfl, ht, he, rfl⟩ | ⟨φ, p, hp, hφ, rfl⟩
  · obtain ⟨-, hret, rfl⟩ := act_eq_some D he
    have hsame : heard ++ received [.step t up] = heard := List.append_nil heard
    rw [hsame]
    have hasks : o.Asks D heard ∧ (t = .udp → Heeds D heard (fun _ => True) (next r)) ∧
        ∀ c, t = .conn c → (next r).All Op.Signaling := by
      cases t with
      | udp =>
        have hloop := h.loop
        rw [ht] at hloop
        exact ⟨hloop.1, fun _ => hloop.2 r (tells_returns hret hsound h.addresses), nofun⟩
      | conn c =>
        have hall := h.handlers c
        rw [ht] at hall
        exact ⟨hall.1.asks, nofun, fun _ _ => hall.2 r⟩
    exact h.update (addresses_apply hasks.1 h.addresses) (datagrams_apply hasks.1 h.datagrams) hasks.2.1
      hasks.2.2
  · have hconn : ∀ c, m.task = .conn c → p.All Op.Signaling ∧ received [m] = [] := by
      intro c hc
      cases m with
      | step => cases hp
      | auth c token =>
        cases hp
        exact ⟨signaling_authenticate .., rfl⟩
      | hangUp c =>
        cases hp
        exact ⟨trivial, rfl⟩
      | incoming c now m =>
        cases hp
        exact ⟨signaling_handleIncoming .., rfl⟩
      | datagram => cases hc
    cases htask : m.task with
    | conn c =>
      obtain ⟨hall, hnone⟩ := hconn c htask
      rw [hnone, List.append_nil]
      refine h.update h.addresses h.datagrams nofun fun d hd => ?_
      exact hall
    | udp =>
      cases m with
      | datagram bytes src =>
        cases hp
        have hnext := h.hears ⟨_, hφ⟩ (List.subset_append_left heard (received [.datagram bytes src]))
        refine hnext.update hnext.addresses hnext.datagrams (fun _ => ?_) nofun
        exact (heeds_handleDatagram (List.mem_append_right heard (List.mem_singleton.mpr rfl))).bind
          fun _ _ => trivial
      | step => cases hp
      | _ => cases htask

theorem solicits_initial : Solicits D [] (initial D) where
  addresses _ _ _ h := nomatch h
  datagrams _ h := absurd h List.not_mem_nil
  loop := trivial
  handlers _ := trivial

theorem solicits_play {moves : List Move} {cfg cfg' : ServerConfig} (h : Solicits D heard cfg)
    (hreach : Reaches (system D) (fun _ _ => True) (initial D) cfg) (hplay : play D moves cfg = some cfg') :
    Solicits D (heard ++ received moves) cfg' := by
  induction moves generalizing heard cfg with
  | nil =>
    cases hplay
    rwa [received, List.filterMap_nil, List.append_nil]
  | cons m rest ih =>
    obtain ⟨next, hm, hrest⟩ := Option.bind_eq_some_iff.mp hplay
    have hnext := ih (h.run (sound_of_reaches hreach) hm)
      (hreach.step (step_run (sends_any m) hm).1 trivial) hrest
    rw [List.append_assoc] at hnext
    have hsplit : received (m :: rest) = received [m] ++ received rest := List.filterMap_append (l := [m])
    rwa [hsplit]

end AudioPlatform.Server
