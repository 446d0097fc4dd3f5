import AudioPlatform.Core.Engine
import AudioPlatform.Server.Addresses
import AudioPlatform.Server.Discipline

/-! Clients that register their address.

A client sends datagrams once it has received its `authOk`, and the engine sends a keepalive
as soon as it connects. The network may lose, delay, reorder and repeat datagrams, so it is
the datagrams that were ever sent, any of which the UDP loop may receive at any time. The
server inserts a client only after it has sent the `authOk`: a keepalive that is looked up
in between finds nobody. -/
namespace AudioPlatform.Server
open Concurrency

/-- A datagram as it was sent. `sender` is the client that sent it, if its `authOk` had
reached it by then. -/
structure Packet where
  bytes : List Byte
  src : SocketAddr
  sender : Option ClientId
  deriving DecidableEq

structure Network where
  server : ServerConfig
  /-- The clients that have received their `authOk`. -/
  welcomed : List ClientId
  /-- The datagrams that were sent. -/
  sent : List Packet
  /-- The datagrams that the UDP loop has received, oldest first. -/
  received : List Packet
  /-- The clients whose connection has ended. -/
  closed : List ClientId

abbrev Network.state (net : Network) : ServerState := net.server.shared.world.state

variable (D : Deployment)

def Network.initial : Network := ⟨Server.initial D, [], [], [], []⟩

inductive NetworkMove where
  /-- The server moves; datagrams are received by `deliver` only. -/
  | server (m : Move)
  /-- The client's `authOk` reaches it. -/
  | welcome (c : ClientId)
  /-- A client that has received its `authOk` sends a datagram. -/
  | transmit (c : ClientId) (src : SocketAddr) (bytes : List Byte)
  /-- Anyone else sends a datagram. -/
  | stray (src : SocketAddr) (bytes : List Byte)
  /-- The UDP loop receives one of the datagrams that were sent. -/
  | deliver (i : Nat)

/-- The connection that ends with a move. -/
def Move.closes : Move → List ClientId
  | .incoming c _ .closed => [c]
  | _ => []

def Network.step (net : Network) (m : NetworkMove) : Network × List Empty :=
  (match m with
  | .server (.datagram _ _) => net
  | .server m =>
    match m.run D net.server with
    | some cfg => { net with server := cfg, closed := m.closes ++ net.closed }
    | none => net
  | .welcome c =>
    if .authOk c D.udpPort ∈ net.server.shared.world.sent c then
      { net with welcomed := c :: net.welcomed }
    else net
  | .transmit c src bytes =>
    if c ∈ net.welcomed then { net with sent := net.sent ++ [⟨bytes, src, some c⟩] } else net
  | .stray src bytes => { net with sent := net.sent ++ [⟨bytes, src, none⟩] }
  | .deliver i =>
    match net.sent[i]? with
    | some p =>
      match (Move.datagram p.bytes p.src).run D net.server with
      | some cfg => { net with server := cfg, received := net.received ++ [p] }
      | none => net
    | none => net, [])

/-! ### Bearing an id -/

/-- The numeric id of a datagram of valid type. -/
def bearer (bytes : List Byte) : Option (BitVec 64) :=
  (RoutingHeader.parse (bytes.take maxUdpPacketSize)).bind fun header =>
    (PacketType.fromU8 header.packetType).map fun _ => header.clientId

def Packet.Bears (p : Packet) (c : ClientId) : Prop := bearer p.bytes = some (D.deriveUdpId c)

/-- The datagram is one that `c` sent after its `authOk`, with its id. -/
def Packet.From (p : Packet) (c : ClientId) : Prop := p.sender = some c ∧ p.Bears D c

/-- Of each client still connected whose datagram has been processed, the address is the
source of that datagram or of a later one. -/
def Network.Registered (net : Network) : Prop :=
  ∀ c before p after, net.received = before ++ p :: after → p.From D c → c ∉ net.closed →
    (after = [] → net.server.AtRest .udp) →
      ∃ q ∈ p :: after, q.Bears D c ∧ net.state.addrOf c = some q.src

/-- The client is in both maps. -/
def ServerState.entered (s : ServerState) (c : ClientId) : Bool :=
  (s.clients c).isSome && s.udpIdToClient (D.deriveUdpId c) == some c

/-- The datagram is looked up when the client it is from has been inserted. -/
def Network.inTime (net : Network) (c : ClientId) (p : Packet) : Bool :=
  bearer p.bytes != some (D.deriveUdpId c) || c ∈ net.closed || net.state.entered D c

/-- A step that looks a datagram up looks it up in time. -/
def Network.timely (net : Network) : NetworkMove → Bool
  | .server (.step .udp _) =>
    match net.server.tasks .udp with
    | .act (.getUdpId _) _ =>
      net.received.getLast?.all fun p => p.sender.all fun c => net.inTime D c p
    | _ => true
  | _ => true

variable {D} {s : ServerState} {net : Network} {c d : ClientId} {p : Packet}

/-! ### Handlers -/

/-- What a handler of `c` may do, once its connection has ended and before: insert its record
once, with no address, remove it in the end, and move no address. -/
def mayHandle (c : ClientId) (ended : Prop) (inserted : Bool) : Op → Prop
  | .insertClient d cl => d = c ∧ cl.udpAddr = none ∧ inserted = false
  | .removeClient d => d = c ∧ ended
  | o => o.Still

def Op.inserts (inserted : Bool) : (o : Op) → o.Result → Bool
  | .insertClient .., _ => true
  | _, _ => inserted

/-- The rest of a handler's program; it authenticates again only if it has inserted nothing. -/
def Handles (c : ClientId) (ended : Prop) : Prog Phase → Bool → Prop :=
  Program.Obeys (mayHandle c ended) Op.inserts fun φ inserted => φ = .connecting → inserted = false

theorem handles_authenticate (ended : Prop) (token : String) :
    Handles c ended (authenticate D.udpPort (D.deriveUdpId c) c token) false := by
  refine ⟨trivial, fun sent => ?_⟩
  cases sent with
  | false => exact nofun
  | true => exact ⟨⟨rfl, rfl, rfl⟩, fun _ => ⟨trivial, fun _ => nofun⟩⟩

theorem handles_incoming (D : Deployment) {ended : Prop} (now : BitVec 64) {m : Incoming}
    (inserted : Bool) (hm : m = .closed → ended) :
    Handles c ended (handleIncoming now c m) inserted := by
  have hdisc : Disciplined D (fun o => o.Still ∨ o = .removeClient c ∧ ended) HandlerEnds
      (handleIncoming now c m) [] :=
    disciplined_handleIncoming (fun _ => .inl) now c fun h => .inr ⟨rfl, hm h⟩
  refine hdisc.simulates (R := fun _ i => i = inserted) rfl ?_ ?_
  · rintro _ _ o rfl ⟨hstill | ⟨rfl, hended⟩, -⟩
    · cases o with
      | insertClient | removeClient => exact hstill.elim
      | _ => exact ⟨hstill, fun _ => rfl⟩
    · exact ⟨⟨rfl, hended⟩, fun _ => rfl⟩
  · exact fun φ _ _ _ hφ h => absurd h hφ.1

/-! ### Actions -/

theorem addrOf_putClient_none {v : Option Client} (hv : v.bind Client.udpAddr = none)
    (hs : s.addrOf c = none) : (s.putClient c v).addrOf = s.addrOf := by
  rw [addrOf_putClient hv, ← hs, Function.update_eq_self]

theorem isSome_updateClient (s : ServerState) (c d : ClientId) (u : ClientUpdate) :
    ((s.updateClient c u).clients d).isSome = (s.clients d).isSome := by
  by_cases h : d = c
  · subst h
    rw [clients_updateClient_self, Option.isSome_map]
  · rw [clients_updateClient_of_ne s u h]

theorem still_apply {o : Op} (h : o.Still) (s : ServerState) :
    (o.apply s).addrOf = s.addrOf ∧ ∀ d, ((o.apply s).clients d).isSome = (s.clients d).isSome := by
  have hupdate : ∀ c (u : ClientUpdate), (∀ a, u ≠ .udpAddr a) →
      (s.updateClient c u).addrOf = s.addrOf ∧
        ∀ d, ((s.updateClient c u).clients d).isSome = (s.clients d).isSome := by
    intro c u hu
    refine ⟨addrOf_updateClient fun cl => ?_, fun d => isSome_updateClient s c d u⟩
    cases u with
    | udpAddr a => exact absurd rfl (hu a)
    | _ => rfl
  cases o with
  | insertClient | removeClient => exact h.elim
  | updateClient c u => exact hupdate c u h
  | setClient c u => exact hupdate c u h
  | _ => exact ⟨rfl, fun _ => rfl⟩

/-- The clients still connected keep their record and their address. -/
structure Undisturbed (closed : List ClientId) (s s' : ServerState) : Prop where
  addrOf : ∀ d, d ∉ closed → s'.addrOf d = s.addrOf d
  isSome : ∀ d, d ∉ closed → (s.clients d).isSome → (s'.clients d).isSome

/-- One action of a handler. -/
theorem handles_apply {closed : List ClientId} {inserted : Bool} {o : Op}
    (ho : mayHandle c (c ∈ closed) inserted o) (hs : inserted = false → s.clients c = none) :
    Undisturbed closed s (o.apply s) ∧
      (∀ d, d ≠ c → s.clients d = none → (o.apply s).clients d = none) ∧
        ∀ r, o.inserts inserted r = false → (o.apply s).clients c = none := by
  have hstill : o.Still → (∀ r, o.inserts inserted r = inserted) →
      Undisturbed closed s (o.apply s) ∧
        (∀ d, d ≠ c → s.clients d = none → (o.apply s).clients d = none) ∧
          ∀ r, o.inserts inserted r = false → (o.apply s).clients c = none := by
    intro ho hr
    obtain ⟨haddr, hsome⟩ := still_apply ho s
    have hnone : ∀ d, s.clients d = none → (o.apply s).clients d = none := by
      intro d hd
      rw [← Option.not_isSome_iff_eq_none, hsome d, hd]
      exact Bool.false_ne_true
    refine ⟨⟨fun d _ => by rw [haddr], fun d _ h => (hsome d).trans h⟩, fun d _ => hnone d, ?_⟩
    exact fun r h => hnone c (hs ((hr r).symm.trans h))
  cases o with
  | insertClient d cl =>
    obtain ⟨rfl, haddr, hi⟩ := ho
    have hnone : s.addrOf d = none := addrOf_of_none (hs hi)
    refine ⟨⟨fun e _ => ?_, fun e _ he => ?_⟩, fun e he h => ?_, nofun⟩
    · exact congrFun (addrOf_putClient_none (v := some cl) haddr hnone) e
    · by_cases hed : e = d
      · subst hed
        exact Option.isSome_iff_exists.mpr ⟨cl, clients_putClient_self ..⟩
      · exact (congrArg Option.isSome (clients_putClient_of_ne s hed _)).trans he
    · exact (clients_putClient_of_ne s he _).trans h
  | removeClient d =>
    obtain ⟨rfl, hended⟩ := ho
    have hother : ∀ e, e ∉ closed → e ≠ d := fun e he hed => he (hed ▸ hended)
    refine ⟨⟨fun e he => ?_, fun e he h => ?_⟩, fun e he h => ?_, fun _ _ => ?_⟩
    · exact addrOf_congr (clients_putClient_of_ne s (hother e he) _)
    · exact (congrArg Option.isSome (clients_putClient_of_ne s (hother e he) _)).trans h
    · exact (clients_putClient_of_ne s he _).trans h
    · exact clients_putClient_self ..
  | _ => exact hstill ho fun _ => rfl

/-! ### The UDP loop -/

/-- About to write the address of `d`. -/
def Sets (d : ClientId) (a : SocketAddr) (p : Prog Phase) : Prop :=
  ∃ next, p = .act (.setClient d (.udpAddr a)) next ∧ (next ()).All Op.Still

/-- About to look up the record of `d`, to write its address. -/
def Finds (d : ClientId) (a : SocketAddr) (p : Prog Phase) : Prop :=
  ∃ next, p = .act (.getClient d true) next ∧ (next none).All Op.Still ∧
    ∀ cl, Sets d a (next (some cl))

/-- About to look up a numeric id, to register the address of its client. -/
def Looks (u : BitVec 64) (a : SocketAddr) (p : Prog Phase) : Prop :=
  ∃ next, p = .act (.getUdpId u) next ∧ (next none).All Op.Still ∧ ∀ d, Finds d a (next (some d))

theorem all_of_balanced {α : Type} {p : Prog α} {g : List Guard} (h : Balanced D Op.Still p g) :
    p.All Op.Still := h.all fun _ _ => And.left

theorem looks_registerUdpAddr (u : BitVec 64) (a : SocketAddr) {f : Unit → Prog Phase}
    (hf : (f ()).All Op.Still) : Looks u a (registerUdpAddr u a >>= f) := by
  refine ⟨_, rfl, hf, fun d => ⟨_, rfl, ⟨trivial, fun _ => hf⟩, fun cl => ⟨_, rfl, ?_⟩⟩⟩
  have hclose : (Program.act (.dropClient d true) fun _ => .act (.dropUdpId u) f :
      Prog Phase).All Op.Still := ⟨trivial, fun _ => ⟨trivial, fun _ => hf⟩⟩
  dsimp only [Program.bind]
  split
  · split
    · exact ⟨trivial, fun _ => ⟨trivial, fun _ => hclose⟩⟩
    · exact ⟨trivial, fun _ => hclose⟩
  · exact hclose

/-- What the loop is to do with a datagram. -/
theorem handleDatagram_cases (D : Deployment) (bytes : List Byte) (src : SocketAddr) :
    match bearer bytes with
    | some u => Looks u src (handleDatagram bytes src >>= fun _ => .done .idle)
    | none => (handleDatagram bytes src >>= fun _ => .done .idle : Prog Phase).All Op.Still := by
  unfold bearer handleDatagram
  dsimp only
  cases hparse : RoutingHeader.parse (bytes.take maxUdpPacketSize) with
  | none =>
    rw [Option.bind_none]
    dsimp only
    split <;> trivial
  | some header =>
    have hlong : ¬ (bytes.take maxUdpPacketSize).length < routingHeaderSize :=
      Nat.not_lt.mpr ((RoutingHeader.parse_isSome _).mp (by rw [hparse]; rfl))
    rw [if_neg hlong, Option.bind_some]
    dsimp only
    cases PacketType.fromU8 header.packetType with
    | none => trivial
    | some packetType =>
      rw [Option.map_some]
      dsimp only
      rw [Program.bind_assoc]
      refine looks_registerUdpAddr _ _ ?_
      exact (all_of_balanced (D := D) (balanced_forward (fun _ => id) header packetType _ src)).bind
        fun _ => trivial

/-! ### Registrations -/

/-- Of each client still connected whose datagram has been received, the last one only if
`last`, the address is the source of that datagram or of a later one. -/
def Network.Settled (net : Network) (D : Deployment) (last : Prop) : Prop :=
  ∀ c before p after, net.received = before ++ p :: after → p.From D c → c ∉ net.closed →
    (after = [] → last) → ∃ q ∈ p :: after, q.Bears D c ∧ net.state.addrOf c = some q.src

/-- The loop has still to register the sender of `p`: it has not yet looked its numeric id
up, or it found `d`. -/
inductive Registering (D : Deployment) (closed : List ClientId) (s : ServerState) (p : Packet) :
    Prog Phase → Prop where
  | looking {u : BitVec 64} {prog : Prog Phase} : bearer p.bytes = some u → Looks u p.src prog →
    Registering D closed s p prog
  | found {d : ClientId} {prog : Prog Phase} : p.Bears D d →
    (∀ c, p.From D c → c ∉ closed → c = d ∧ (s.clients c).isSome) →
    Finds d p.src prog ∨ Sets d p.src prog → Registering D closed s p prog

/-- What holds of the loop and the addresses at every moment. -/
def Network.Looping (net : Network) (D : Deployment) : Prop :=
  (net.server.tasks .udp).All Op.Still ∧ net.Settled D True ∨
    net.Settled D False ∧ ∃ before p, net.received = before ++ [p] ∧
      Registering D net.closed net.state p (net.server.tasks .udp)

structure Tracked (D : Deployment) (net : Network) : Prop where
  reaches : Reaches (system D) (fun _ _ => True) (Server.initial D) net.server
  handlers : ∀ c, ∃ inserted, Handles c (c ∈ net.closed) (net.server.tasks (.conn c)) inserted ∧
    (inserted = false → net.state.clients c = none)
  loop : net.Looping D

theorem Tracked.routed (h : Tracked D net) {u : BitVec 64} {c : ClientId}
    (hu : net.state.udpIdToClient u = some c) : u = D.deriveUdpId c := by
  obtain ⟨γ, hγ⟩ := outline_holds False (fun _ _ _ h => h.elim) h.reaches
  exact hγ.common.routed u c hu

theorem tracked_initial : Tracked D (Network.initial D) where
  reaches := .refl
  handlers c := ⟨false, fun _ => rfl, fun _ => rfl⟩
  loop := .inl ⟨trivial, fun c before p after h => absurd h (by simp [Network.initial])⟩

theorem Registering.act {closed : List ClientId} {prog : Prog Phase}
    (h : Registering D closed s p prog) : ∃ o next, prog = .act o next := by
  cases h with
  | looking _ hlooks =>
    obtain ⟨next, rfl, -⟩ := hlooks
    exact ⟨_, next, rfl⟩
  | found _ _ hprog =>
    rcases hprog with ⟨next, rfl, -⟩ | ⟨next, rfl, -⟩
    · exact ⟨_, next, rfl⟩
    · exact ⟨_, next, rfl⟩

theorem Tracked.registered (h : Tracked D net) : net.Registered D := by
  intro c before p after hsplit hp hc hrest
  rcases h.loop with ⟨-, hsettled⟩ | ⟨hsettled, _, q, _, hreg⟩
  · exact hsettled c before p after hsplit hp hc fun _ => trivial
  · refine hsettled c before p after hsplit hp hc fun hafter => ?_
    obtain ⟨φ, hφ⟩ := hrest hafter
    obtain ⟨o, next, hact⟩ := hreg.act
    cases hφ.symm.trans hact

/-! ### Steps -/

theorem Network.Settled.undisturbed {net' : Network} {last : Prop} (h : net.Settled D last)
    (hreceived : net'.received = net.received) (hclosed : net.closed ⊆ net'.closed)
    (hstate : Undisturbed net'.closed net.state net'.state) : net'.Settled D last := by
  intro c before p after hsplit hp hc hlast
  obtain ⟨q, hq, hbears, haddr⟩ :=
    h c before p after (hreceived ▸ hsplit) hp (fun hmem => hc (hclosed hmem)) hlast
  exact ⟨q, hq, hbears, (hstate.addrOf c hc).trans haddr⟩

theorem Registering.undisturbed {closed closed' : List ClientId} {s' : ServerState}
    {prog : Prog Phase} (h : Registering D closed s p prog) (hclosed : closed ⊆ closed')
    (hstate : Undisturbed closed' s s') : Registering D closed' s' p prog := by
  cases h with
  | looking hbears hlooks => exact .looking hbears hlooks
  | found hbears hfound hprog =>
    refine .found hbears (fun c hp hc => ?_) hprog
    obtain ⟨hcd, hsome⟩ := hfound c hp fun hmem => hc (hclosed hmem)
    exact ⟨hcd, hstate.isSome c hc hsome⟩

/-- What the handlers do leaves the loop where it is. -/
theorem Network.Looping.undisturbed {net' : Network} (h : net.Looping D)
    (hudp : net'.server.tasks .udp = net.server.tasks .udp)
    (hreceived : net'.received = net.received) (hclosed : net.closed ⊆ net'.closed)
    (hstate : Undisturbed net'.closed net.state net'.state) : net'.Looping D := by
  unfold Network.Looping
  rw [hudp, hreceived]
  rcases h with ⟨hstill, hsettled⟩ | ⟨hsettled, before, p, hp, hreg⟩
  · exact .inl ⟨hstill, hsettled.undisturbed hreceived hclosed hstate⟩
  · exact .inr ⟨hsettled.undisturbed hreceived hclosed hstate, before, p, hp,
      hreg.undisturbed hclosed hstate⟩

/-- Where the last datagram stands in a list of them. -/
theorem last_mem {α : Type} {start before after : List α} {x y : α}
    (h : start ++ [x] = before ++ y :: after) :
    (after = [] → y = x) ∧ x ∈ y :: after ∧
      ∀ l z, after = l ++ [z] → z = x ∧ start = before ++ y :: l := by
  have hconcat : ∀ l z, after = l ++ [z] → z = x ∧ start = before ++ y :: l := by
    rintro l z rfl
    have hend : start ++ [x] = (before ++ y :: l) ++ [z] := by
      rw [h, List.append_assoc, List.cons_append]
    obtain ⟨hstart, hx⟩ := List.append_inj' hend rfl
    exact ⟨(List.singleton_inj.mp hx).symm, hstart⟩
  rcases List.eq_nil_or_concat after with rfl | ⟨l, z, hz⟩
  · obtain ⟨-, hx⟩ := List.append_inj' h rfl
    obtain rfl := List.singleton_inj.mp hx
    exact ⟨fun _ => rfl, List.mem_singleton_self _, hconcat⟩
  · rw [List.concat_eq_append] at hz
    refine ⟨fun hnil => absurd (hz.symm.trans hnil) (by simp), ?_, hconcat⟩
    rw [hz, ← (hconcat l z hz).1]
    simp

theorem Network.Settled.last {start : List Packet} (h : net.Settled D False)
    (hreceived : net.received = start ++ [p])
    (hp : ∀ c, p.From D c → c ∉ net.closed →
      ∃ q ∈ [p], q.Bears D c ∧ net.state.addrOf c = some q.src) : net.Settled D True := by
  intro c before q after hsplit hq hc _
  by_cases hafter : after = []
  · subst hafter
    obtain rfl := (last_mem (hreceived.symm.trans hsplit)).1 rfl
    exact hp c hq hc
  · exact h c before q after hsplit hq hc fun h => absurd h hafter

/-- The loop writes the address of the client it has found. -/
theorem Network.Settled.moved {net' : Network} {start : List Packet} (h : net.Settled D False)
    (hreceived : net.received = start ++ [p]) (hbears : p.Bears D d)
    (hfound : ∀ c, p.From D c → c ∉ net.closed → c = d ∧ (net.state.clients c).isSome)
    (hsame : net'.received = net.received) (hclosed : net'.closed = net.closed)
    (hstate : net'.state = net.state.updateClient d (.udpAddr p.src)) : net'.Settled D True := by
  intro c before q after hsplit hq hc _
  rw [hsame] at hsplit
  rw [hclosed] at hc
  obtain ⟨hlast, hmem, -⟩ := last_mem (hreceived.symm.trans hsplit)
  have hold : after ≠ [] → ∃ q' ∈ q :: after, q'.Bears D c ∧ net.state.addrOf c = some q'.src :=
    fun hafter => h c before q after hsplit hq hc fun h => absurd h hafter
  by_cases hcd : c = d
  · subst hcd
    have hsome : (net.state.clients c).isSome := by
      by_cases hafter : after = []
      · obtain rfl := hlast hafter
        exact (hfound c hq hc).2
      · obtain ⟨q', -, -, haddr⟩ := hold hafter
        obtain ⟨cl, hcl, -⟩ := Option.bind_eq_some_iff.mp haddr
        rw [hcl]
        rfl
    obtain ⟨cl, hcl⟩ := Option.isSome_iff_exists.mp hsome
    refine ⟨p, hmem, hbears, ?_⟩
    rw [hstate, addrOf_of_some (by rw [clients_updateClient_self, hcl]; rfl)]
    rfl
  · have hafter : after ≠ [] := by
      intro hafter
      obtain rfl := hlast hafter
      exact hcd (hfound c hq hc).1
    obtain ⟨q', hq', hbears', haddr⟩ := hold hafter
    refine ⟨q', hq', hbears', ?_⟩
    rw [hstate, addrOf_congr (clients_updateClient_of_ne _ _ hcd)]
    exact haddr

/-- The loop inserts and removes no record. -/
theorem Network.Looping.isSome (h : net.Looping D) {o : Op} {next : o.Result → Prog Phase}
    (ht : net.server.tasks .udp = .act o next) (d : ClientId) :
    ((o.apply net.state).clients d).isSome = (net.state.clients d).isSome := by
  unfold Network.Looping at h
  rw [ht] at h
  rcases h with ⟨hstill, -⟩ | ⟨-, _, p, _, hreg⟩
  · exact (still_apply hstill.1 net.state).2 d
  · cases hreg with
    | looking _ hlooks =>
      obtain ⟨_, hact, -⟩ := hlooks
      cases hact
      rfl
    | found _ _ hprog =>
      rcases hprog with ⟨_, hact, -⟩ | ⟨_, hact, -⟩
      · cases hact
        rfl
      · cases hact
        exact isSome_updateClient _ _ _ _

theorem undisturbed_refl (closed : List ClientId) (s : ServerState) : Undisturbed closed s s :=
  ⟨fun _ _ => rfl, fun _ _ => id⟩

/-- The loop looks the numeric id of a datagram up, in time: it finds the sender. -/
theorem Tracked.look (h : Tracked D net) (hsettled : net.Settled D False) {start : List Packet}
    (hp : net.received = start ++ [p]) {u : BitVec 64} {next : Option ClientId → Prog Phase}
    (hbearer : bearer p.bytes = some u) (hlooks : Looks u p.src (.act (.getUdpId u) next))
    (htime : ∀ c, p.From D c → c ∉ net.closed → net.state.entered D c = true) :
    (next (net.state.udpIdToClient u)).All Op.Still ∧ net.Settled D True ∨
      Registering D net.closed net.state p (next (net.state.udpIdToClient u)) := by
  obtain ⟨_, hact, hnone, hsome⟩ := hlooks
  cases hact
  have hentered : ∀ c, p.From D c → c ∉ net.closed →
      (net.state.clients c).isSome ∧ net.state.udpIdToClient u = some c := by
    intro c hc hopen
    have := htime c hc hopen
    unfold ServerState.entered at this
    rw [Bool.and_eq_true, beq_iff_eq] at this
    obtain rfl : u = D.deriveUdpId c := Option.some.inj (hbearer.symm.trans hc.2)
    exact this
  cases hu : net.state.udpIdToClient u with
  | none =>
    refine .inl ⟨hnone, hsettled.last hp fun c hc hopen => ?_⟩
    cases hu.symm.trans (hentered c hc hopen).2
  | some d =>
    have hbears : p.Bears D d := hbearer.trans (congrArg some (h.routed hu))
    refine .inr (.found hbears (fun c hc hopen => ?_) (.inl (hsome d)))
    obtain ⟨hreg, hroute⟩ := hentered c hc hopen
    exact ⟨Option.some.inj (hroute.symm.trans hu), hreg⟩

/-- The loop looks up the record of the client it has found. -/
theorem Network.Settled.find (hsettled : net.Settled D False) {start : List Packet}
    (hp : net.received = start ++ [p]) {next : Option Client → Prog Phase} (hbears : p.Bears D d)
    (hfound : ∀ c, p.From D c → c ∉ net.closed → c = d ∧ (net.state.clients c).isSome)
    (hfinds : Finds d p.src (.act (.getClient d true) next)) :
    (next (net.state.clients d)).All Op.Still ∧ net.Settled D True ∨
      Registering D net.closed net.state p (next (net.state.clients d)) := by
  obtain ⟨_, hact, hnone, hsome⟩ := hfinds
  cases hact
  cases hd : net.state.clients d with
  | none =>
    refine .inl ⟨hnone, hsettled.last hp fun c hc hopen => ?_⟩
    obtain ⟨rfl, hreg⟩ := hfound c hc hopen
    rw [hd] at hreg
    cases hreg
  | some cl => exact .inr (.found hbears hfound (.inr (hsome cl)))

/-- One action of the loop, if it looks datagrams up in time. -/
theorem Tracked.loop_act (h : Tracked D net) {net' : Network} {up : ClientId → Bool} {o : Op}
    {next : o.Result → Prog Phase} {r : o.Result} (ht : net.server.tasks .udp = .act o next)
    (hr : o.returns up net.state = some r)
    (htime : ∀ u, o = .getUdpId u → ∀ before p, net.received = before ++ [p] → ∀ c, p.From D c →
      c ∉ net.closed → net.state.entered D c = true)
    (hnext : net'.server.tasks .udp = next r) (hreceived : net'.received = net.received)
    (hclosed : net'.closed = net.closed) (hstate : net'.state = o.apply net.state) :
    net'.Looping D := by
  have hloop := h.loop
  unfold Network.Looping at hloop ⊢
  rw [ht] at hloop
  rw [hnext]
  rcases hloop with ⟨hstill, hsettled⟩ | ⟨hsettled, before, p, hp, hreg⟩
  · obtain ⟨haddr, hsome⟩ := still_apply hstill.1 net.state
    refine .inl ⟨hstill.2 r, hsettled.undisturbed hreceived (hclosed ▸ fun _ => id) ?_⟩
    rw [hstate]
    exact ⟨fun d _ => by rw [haddr], fun d _ hd => (hsome d).trans hd⟩
  · -- A look-up changes nothing; what it finds decides where the loop goes on.
    have hlookup : o.apply net.state = net.state →
        (next r).All Op.Still ∧ net.Settled D True ∨
          Registering D net.closed net.state p (next r) →
        (next r).All Op.Still ∧ net'.Settled D True ∨ net'.Settled D False ∧ ∃ before p,
          net'.received = before ++ [p] ∧ Registering D net'.closed net'.state p (next r) := by
      intro hsame hgoes
      have hkept : ∀ last, net.Settled D last → net'.Settled D last := by
        intro last hsettled
        refine hsettled.undisturbed hreceived (hclosed ▸ fun _ => id) ?_
        rw [hstate, hsame]
        exact undisturbed_refl _ _
      rw [hclosed, hstate, hsame, hreceived]
      rcases hgoes with ⟨hstill, hall⟩ | hreg
      · exact .inl ⟨hstill, hkept True hall⟩
      · exact .inr ⟨hkept False hsettled, before, p, hp, hreg⟩
    cases hreg with
    | @looking u _ hbearer hlooks =>
      obtain ⟨_, hact, -⟩ := id hlooks
      cases hact
      cases Option.some.inj hr
      exact hlookup rfl (h.look hsettled hp hbearer hlooks (htime u rfl before p hp))
    | @found d _ hbears hfound hprog =>
      rcases hprog with hfinds | ⟨_, hact, hstill⟩
      · obtain ⟨_, hact, -⟩ := id hfinds
        cases hact
        cases Option.some.inj hr
        exact hlookup rfl (hsettled.find hp hbears hfound hfinds)
      · cases hact
        exact .inl ⟨hstill, hsettled.moved hp hbears hfound hreceived hclosed hstate⟩

theorem Handles.mono {ended ended' : Prop} {prog : Prog Phase} {inserted : Bool}
    (h : Handles c ended prog inserted) (hended : ended → ended') :
    Handles c ended' prog inserted := by
  refine Program.Obeys.mono h (fun i o ho => ?_) fun _ _ => id
  cases o with
  | removeClient d => exact ⟨ho.1, hended ho.2⟩
  | _ => exact ho

/-- A program that a handler starts. -/
theorem handles_program {m : Move} {φ : Phase} {prog : Prog Phase} {closed : List ClientId}
    {inserted : Bool} (hp : m.program D = some (φ, prog)) (hm : m.task = .conn c)
    (hrest : φ = .connecting → inserted = false) :
    Handles c (c ∈ m.closes ++ closed) prog inserted := by
  cases m with
  | step | datagram => cases hp <;> cases hm
  | auth d token =>
    cases hp
    cases hm
    rw [hrest rfl]
    exact handles_authenticate _ token
  | hangUp d =>
    cases hp
    exact nofun
  | incoming d now m =>
    cases hp
    cases hm
    refine handles_incoming D now inserted fun hclosed => ?_
    subst hclosed
    exact List.mem_append_left _ (List.mem_singleton_self _)

/-- The handlers after an action of any task. -/
theorem Tracked.handlers_act (h : Tracked D net) {t : Task} {o : Op} {next : o.Result → Prog Phase}
    (r : o.Result) (ht : net.server.tasks t = .act o next) (d : ClientId) : ∃ inserted,
      Handles d (d ∈ net.closed) (Function.update net.server.tasks t (next r) (.conn d)) inserted ∧
        (inserted = false → (o.apply net.state).clients d = none) := by
  obtain ⟨inserted, hhandles, hnone⟩ := h.handlers d
  by_cases hd : t = .conn d
  · subst hd
    rw [ht] at hhandles
    rw [Function.update_self]
    exact ⟨_, hhandles.2 r, (handles_apply hhandles.1 hnone).2.2 r⟩
  · rw [Function.update_of_ne (Ne.symm hd)]
    refine ⟨inserted, hhandles, fun hi => ?_⟩
    cases t with
    | conn c =>
      obtain ⟨_, hother, hfresh⟩ := h.handlers c
      rw [ht] at hother
      exact (handles_apply hother.1 hfresh).2.1 d (fun he => hd (he ▸ rfl)) (hnone hi)
    | udp =>
      rw [← Option.not_isSome_iff_eq_none, h.loop.isSome ht d, hnone hi]
      exact Bool.false_ne_true

/-- The server performs an action. -/
theorem Tracked.act (h : Tracked D net) {t : Task} {up : Bool} {o : Op}
    {next : o.Result → Prog Phase} {r : o.Result} {s : Shared}
    (ht : net.server.tasks t = .act o next)
    (he : Server.act D (fun _ => up) t o net.server.shared = some (r, s))
    (htime : net.timely D (.server (.step t up)) = true)
    (hreaches : Reaches (system D) (fun _ _ => True) (Server.initial D)
      ⟨s, Function.update net.server.tasks t (next r)⟩) :
    Tracked D { net with server := ⟨s, Function.update net.server.tasks t (next r)⟩ } := by
  obtain ⟨-, hret, hs⟩ := act_eq_some D he
  have hstate : s.world.state = o.apply net.state := congrArg (·.world.state) hs
  refine ⟨hreaches, fun d => ?_, ?_⟩
  · obtain ⟨inserted, hhandles, hnone⟩ := h.handlers_act r ht d
    exact ⟨inserted, hhandles, fun hi => (congrArg (·.clients d) hstate).trans (hnone hi)⟩
  · cases t with
    | conn c =>
      have hne : Task.udp ≠ .conn c := nofun
      obtain ⟨_, hhandles, hnone⟩ := h.handlers c
      rw [ht] at hhandles
      refine h.loop.undisturbed (Function.update_of_ne hne (next r) net.server.tasks) rfl
        (fun _ => id) ?_
      show Undisturbed net.closed net.state s.world.state
      rw [hstate]
      exact (handles_apply hhandles.1 hnone).1
    | udp =>
      refine h.loop_act ht hret ?_ (Function.update_self Task.udp (next r) net.server.tasks)
        rfl rfl hstate
      rintro u rfl before p hp c hc hopen
      unfold Network.timely at htime
      dsimp only at htime
      rw [ht, hp] at htime
      simpa [Network.inTime, hc.1, show bearer p.bytes = _ from hc.2, hopen] using htime

/-- The server moves. -/
theorem Tracked.server {m : Move} {cfg : ServerConfig} (h : Tracked D net)
    (hm : ∀ bytes src, m ≠ .datagram bytes src) (htime : net.timely D (.server m) = true)
    (hrun : m.run D net.server = some cfg) :
    Tracked D { net with server := cfg, closed := m.closes ++ net.closed } := by
  have hreaches := h.reaches.step (step_run (sends_any m) hrun).1 trivial
  rcases run_cases hrun with ⟨t, up, o, next, r, s, rfl, ht, he, rfl⟩ | ⟨φ, prog, hp, ht, rfl⟩
  · exact h.act ht he htime hreaches
  · obtain ⟨c, hc⟩ : ∃ c, m.task = .conn c := by
      cases m with
      | step => cases hp
      | datagram bytes src => exact absurd rfl (hm bytes src)
      | auth c | hangUp c | incoming c => exact ⟨c, rfl⟩
    have hframe : Function.update net.server.tasks m.task prog .udp = net.server.tasks .udp := by
      have hne : Task.udp ≠ .conn c := nofun
      rw [hc]
      exact Function.update_of_ne hne ..
    refine ⟨hreaches, fun d => ?_, h.loop.undisturbed hframe rfl (List.subset_append_right ..)
      (undisturbed_refl _ _)⟩
    obtain ⟨inserted, hhandles, hnone⟩ := h.handlers d
    refine ⟨inserted, ?_, hnone⟩
    show Handles d _ (Function.update net.server.tasks m.task prog (.conn d)) _
    by_cases hd : Task.conn d = m.task
    · rw [hd, Function.update_self]
      rw [hd, ht] at hhandles
      exact handles_program hp hd.symm hhandles
    · rw [Function.update_of_ne hd]
      exact hhandles.mono (List.mem_append_right _)

/-- The loop receives a datagram. -/
theorem Tracked.deliver {cfg : ServerConfig} (h : Tracked D net)
    (hrun : (Move.datagram p.bytes p.src).run D net.server = some cfg) :
    Tracked D { net with server := cfg, received := net.received ++ [p] } := by
  have hreaches := h.reaches.step (step_run (sends_any _) hrun).1 trivial
  rcases run_cases hrun with ⟨_, _, _, _, _, _, hm, -⟩ | ⟨φ, prog, hp, ht, rfl⟩
  · cases hm
  cases hp
  have hsettled : net.Settled D True := by
    rcases h.loop with ⟨-, hsettled⟩ | ⟨-, _, _, _, hreg⟩
    · exact hsettled
    · obtain ⟨o, next, hact⟩ := hreg.act
      cases ht.symm.trans hact
  have hold : ∀ last : Prop, (last → bearer p.bytes = none) → Network.Settled { net with
      server := ⟨net.server.shared, Function.update net.server.tasks .udp
        (handleDatagram p.bytes p.src >>= fun _ => .done .idle)⟩
      received := net.received ++ [p] } D last := by
    intro last hlast c before q after hsplit hq hc hafter
    obtain ⟨hend, -, hconcat⟩ := last_mem hsplit
    rcases List.eq_nil_or_concat after with rfl | ⟨l, z, hz⟩
    · obtain rfl := hend rfl
      cases (hlast (hafter rfl)).symm.trans hq.2
    · obtain ⟨q', hq', hbears, haddr⟩ := hsettled c before q l
        (hconcat l z (hz.trans (List.concat_eq_append ..))).2 hq hc fun _ => trivial
      refine ⟨q', ?_, hbears, haddr⟩
      rw [hz, List.concat_eq_append]
      exact List.mem_append_left [z] hq'
  refine ⟨hreaches, fun d => ?_, ?_⟩
  · obtain ⟨inserted, hhandles, hnone⟩ := h.handlers d
    refine ⟨inserted, ?_, hnone⟩
    have hne : Task.conn d ≠ .udp := nofun
    show Handles d _ (Function.update net.server.tasks .udp
      (handleDatagram p.bytes p.src >>= fun _ => .done .idle) (.conn d)) _
    rw [Function.update_of_ne hne]
    exact hhandles
  · have hcases := handleDatagram_cases D p.bytes p.src
    have hself := Function.update_self (f := net.server.tasks) Task.udp
      (handleDatagram p.bytes p.src >>= fun _ => .done .idle)
    rw [← hself] at hcases
    split at hcases
    · rename_i u hu
      exact .inr ⟨hold False False.elim, net.received, p, rfl, .looking hu hcases⟩
    · rename_i hu
      exact .inl ⟨hcases, hold True fun _ => hu⟩

theorem Tracked.step (h : Tracked D net) {m : NetworkMove} (htime : net.timely D m = true) :
    Tracked D (net.step D m).1 := by
  cases m with
  | server m =>
    unfold Network.step
    cases m with
    | datagram => exact h
    | step | auth | hangUp | incoming =>
      dsimp only
      split
      · rename_i cfg hrun
        exact h.server nofun htime hrun
      · exact h
  | welcome c =>
    unfold Network.step
    dsimp only
    split
    · exact ⟨h.reaches, h.handlers, h.loop⟩
    · exact h
  | transmit c src bytes =>
    unfold Network.step
    dsimp only
    split
    · exact ⟨h.reaches, h.handlers, h.loop⟩
    · exact h
  | stray src bytes => exact ⟨h.reaches, h.handlers, h.loop⟩
  | deliver i =>
    unfold Network.step
    dsimp only
    split
    · split
      · rename_i cfg hrun
        exact h.deliver hrun
      · exact h
    · exact h

/-- **When a keepalive registers its sender.** In a run in which every datagram that a client
sent after its `authOk`, with its numeric id, is looked up when the client is in both maps,
the address of a client still connected is the source of its last datagram that was processed,
or of a later one with its id. -/
theorem keepalive_registers (moves : List NetworkMove)
    (h : Machine.Along (Network.step D) (fun net m => net.timely D m = true) (Network.initial D)
      moves) :
    ∀ done, done <+: moves →
      (Machine.run (Network.step D) (Network.initial D) done).Registered D := by
  rintro done ⟨rest, rfl⟩
  have hstep : ∀ net m, Tracked D net → net.timely D m = true → Tracked D (net.step D m).1 :=
    fun _ _ hnet htime => hnet.step htime
  exact (Machine.inv_of_along hstep tracked_initial (Machine.along_append.mp h).1).registered

/-! ### The keepalive of a connecting client -/

section Keepalive
open AudioPlatform.Core

/-- What the engine sends as soon as it connects. -/
def connectKeepalive (serverId : BitVec 32) (clientId : BitVec 64) : List Byte :=
  serializeHeader
    { serverId, channelId := 0, clientId, packetType := aeRtpTypeKeepalive, flags := 0
      payloadLength := 0 }

theorem u64FromBeBytes_toBytes (v : BitVec 64) :
    u64FromBeBytes ((v >>> 56).setWidth 8) ((v >>> 48).setWidth 8) ((v >>> 40).setWidth 8)
      ((v >>> 32).setWidth 8) ((v >>> 24).setWidth 8) ((v >>> 16).setWidth 8)
      ((v >>> 8).setWidth 8) ((v >>> 0).setWidth 8) = v := by
  apply BitVec.eq_of_getLsbD_eq
  intro i hi
  unfold u64FromBeBytes
  simp only [BitVec.getLsbD_append, BitVec.getLsbD_setWidth, BitVec.getLsbD_ushiftRight]
  grind

theorem bearer_serializeHeader {header : RtpHeader} {t : PacketType}
    (h : PacketType.fromU8 header.packetType = some t) :
    bearer (serializeHeader header) = some header.clientId := by
  have hlength : (serializeHeader header).length = 20 := by
    simp [serializeHeader, writeU16Be, writeU32Be, writeU64Be]
  unfold bearer RoutingHeader.parse
  rw [List.take_of_length_le (by rw [hlength]; decide), if_neg (by rw [hlength]; decide),
    Option.bind_some]
  show (PacketType.fromU8 header.packetType).map _ = _
  rw [h, Option.map_some]
  exact congrArg some (u64FromBeBytes_toBytes header.clientId)

/-- The engine's immediate keepalive is a datagram that bears its client's id. -/
theorem connect_bears {Frame : Type} {L : Library Frame} (e : Engine L) (now : BitVec 64) :
    (aeEngineConnect e .connected now).2.2 = [.send (connectKeepalive e.serverId e.clientId) true] ∧
      bearer (connectKeepalive e.serverId e.clientId) = some e.clientId :=
  ⟨rfl, bearer_serializeHeader (t := .keepalive) rfl⟩

end Keepalive

/-- The keepalive of "a". -/
def keepaliveOfA : Packet := ⟨connectKeepalive 0 1, ⟨10, 20⟩, some "a"⟩

theorem keepaliveOfA_from : keepaliveOfA.From twoIds "a" :=
  ⟨rfl, bearer_serializeHeader (t := .keepalive) rfl⟩

/-- "a" authenticates and is inserted, connects, and its keepalive is processed. -/
def timelyKeepalive : List NetworkMove :=
  .server (.auth "a" "alice") :: List.replicate 3 (.server (.step (.conn "a") true)) ++
  [.welcome "a", .transmit "a" ⟨10, 20⟩ keepaliveOfA.bytes, .deliver 0] ++
    List.replicate 6 (.server (.step .udp true))

theorem keepalive_registers_timelyKeepalive :
    (Machine.run (Network.step twoIds) (Network.initial twoIds) timelyKeepalive).state.addrOf "a" =
      some ⟨10, 20⟩ := by
  have halong : Machine.Along (Network.step twoIds) (fun net m => net.timely twoIds m = true)
      (Network.initial twoIds) timelyKeepalive := by decide +kernel
  have hrun : (fun net : Network => (net.received, net.closed, idleAt net.server .udp))
      (Machine.run (Network.step twoIds) (Network.initial twoIds) timelyKeepalive) =
        ([keepaliveOfA], [], true) := by decide +kernel
  obtain ⟨hreceived, hrest⟩ := Prod.mk.inj hrun
  obtain ⟨hclosed, hidle⟩ := Prod.mk.inj hrest
  obtain ⟨q, hq, -, haddr⟩ := keepalive_registers timelyKeepalive halong _ (List.prefix_refl _)
    "a" [] keepaliveOfA [] hreceived keepaliveOfA_from
    (fun h => List.not_mem_nil ((show _ = [] from hclosed) ▸ h)) fun _ => idleAt_iff.mp hidle
  obtain rfl := List.mem_singleton.mp hq
  exact haddr

/-- "a" connects once it has its `authOk`, and its keepalive is processed before it is inserted. -/
def earlyKeepalive : List NetworkMove :=
  [.server (.auth "a" "alice"), .server (.step (.conn "a") true), .welcome "a",
    .transmit "a" ⟨10, 20⟩ keepaliveOfA.bytes, .deliver 0, .server (.step .udp true)]

theorem keepalive_lost : ¬ (Machine.run (Network.step twoIds) (Network.initial twoIds)
    earlyKeepalive).Registered twoIds := by
  have hrun : (fun net : Network => (net.received, net.closed, idleAt net.server .udp,
      net.state.addrOf "a"))
      (Machine.run (Network.step twoIds) (Network.initial twoIds) earlyKeepalive) =
        ([keepaliveOfA], [], true, none) := by decide +kernel
  obtain ⟨hreceived, hrest⟩ := Prod.mk.inj hrun
  obtain ⟨hclosed, hrest⟩ := Prod.mk.inj hrest
  obtain ⟨hidle, hnone⟩ := Prod.mk.inj hrest
  intro h
  obtain ⟨q, -, -, haddr⟩ := h "a" [] keepaliveOfA [] hreceived keepaliveOfA_from
    (fun h => List.not_mem_nil ((show _ = [] from hclosed) ▸ h)) fun _ => idleAt_iff.mp hidle
  cases hnone.symm.trans haddr

end AudioPlatform.Server
