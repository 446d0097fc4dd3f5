import Mathlib.Data.Set.Function
import AudioPlatform.Server.Serial

/-! The maps, told from the history.

The history is what the clients did successfully and which datagrams arrived. It
says on its own who is in which channel and where each client was last seen; the
maps are one way to compute that, and `Agrees` is the relation between the two. -/
namespace AudioPlatform.Server
open Concurrency

variable (D : Deployment)

/-- The server between two requests. -/
structure Serial where
  world : World
  phase : Task → Phase

def Serial.initial : Serial where
  world := .new D.udpPort
  phase
    | .conn _ => .connecting
    | .udp => .idle

/-- One request or datagram, served to its end. -/
def serve (up : ClientId → Bool) (m : Move) (S : Serial) : Option Serial :=
  match m.program D with
  | some (φ, p) =>
    if S.phase m.task = φ then
      (p.alone (effect up) S.world).map fun (φ', w) => ⟨w, Function.update S.phase m.task φ'⟩
    else none
  | none => none

/-- The next request or datagram, if there can be one; else the server stays as it is. -/
def attempt (S : Serial) (i : (ClientId → Bool) × Move) : Serial × List Empty :=
  ((serve D i.1 i.2 S).getD S, [])

/-! ### History -/

/-- What happened: an operation that succeeded, a disconnect, or a datagram of a
valid packet type with numeric id `u` from `a`. -/
inductive Event where
  | authenticated (c : ClientId)
  | joined (c : ClientId) (n : ChannelId)
  | left (c : ClientId) (n : ChannelId)
  | disconnected (c : ClientId)
  | received (u : BitVec 64) (a : SocketAddr)
  deriving DecidableEq, Repr

/-- An operation has succeeded if it returns `ok`. -/
def Move.event (up : ClientId → Bool) (w : World) : Move → Option Event
  | .auth c token =>
    match (authenticate D.udpPort (D.deriveUdpId c) c token).alone (effect up) w with
    | some (.idle, _) => some (.authenticated c)
    | _ => none
  | .incoming c _ (.message (.joinChannel n)) =>
    match (joinChannel c n).alone (effect up) w with
    | some (.ok _, _) => some (.joined c n)
    | _ => none
  | .incoming c _ (.message (.leaveChannel n)) =>
    match (leaveChannel c n).alone (effect up) w with
    | some (.ok _, _) => some (.left c n)
    | _ => none
  | .incoming c _ .closed => some (.disconnected c)
  | .datagram bytes src =>
    (RoutingHeader.parse (bytes.take maxUdpPacketSize)).bind fun header =>
      (PacketType.fromU8 header.packetType).map fun _ => .received header.clientId src
  | _ => none

/-- The channel of the most recent successful join, unless a leave or a disconnect
followed. Histories are newest first. -/
def currentChannel (c : ClientId) : List Event → Option ChannelId
  | [] => none
  | .joined d n :: older => if d = c then some n else currentChannel c older
  | .left d _ :: older => if d = c then none else currentChannel c older
  | .disconnected d :: older => if d = c then none else currentChannel c older
  | _ :: older => currentChannel c older

/-- The source of the latest datagram that bears the client's numeric id, since it
authenticated. -/
def lastAddr (c : ClientId) : List Event → Option SocketAddr
  | [] => none
  | .authenticated d :: older => if d = c then none else lastAddr c older
  | .received u a :: older => if u = D.deriveUdpId c then some a else lastAddr c older
  | _ :: older => lastAddr c older

/-- A run of requests and datagrams, with its history; all clients are in `C`. -/
inductive Run (C : Set ClientId) : List Event → Serial → Prop where
  | nil : Run C [] (Serial.initial D)
  | serve {h : List Event} {S S' : Serial} (up : ClientId → Bool) (m : Move) :
    Run C h S → (∀ c token, m = .auth c token → c ∈ C) → serve D up m S = some S' →
    Run C ((m.event D up S.world).toList ++ h) S'

/-! ### Outcomes -/

/-- What serving client `c` comes to: the event, the next phase and the maps. -/
inductive Outcome (s : ServerState) (c : ClientId) : Option Event → Phase → ServerState → Prop where
  | joined {n : ChannelId} : s.Joins c n → Outcome s c (some (.joined c n)) .idle (s.joined c n)
  | left {n : ChannelId} : c ∈ s.members n → Outcome s c (some (.left c n)) .idle (s.left c n)
  | speaking (b : Bool) : Outcome s c none .idle (s.updateClient c (.speaking b))
  | nothing : Outcome s c none .idle s
  | removed {cl : Client} : s.clients c = some cl →
    Outcome s c (some (.disconnected c)) .closed (s.removed c cl)
  | gone : s.clients c = none → Outcome s c (some (.disconnected c)) .closed s

variable {D} {up : ClientId → Bool} {s s' : ServerState} {c d : ClientId}

theorem Ends.unique {α : Type} {p : Prog α} {a b : α} {w w' : World} (h : Ends up p w.state a s)
    (hw : p.alone (effect up) w = some (b, w')) : b = a ∧ w'.state = s ∧ w'.datagrams = w.datagrams := by
  obtain ⟨sent, h⟩ := h.alone w rfl
  cases hw.symm.trans h
  exact ⟨rfl, rfl, rfl⟩

/-- Every message of a client is served to its end, in one of the outcomes. -/
theorem ends_handleMessage (D : Deployment) (up : ClientId → Bool) (c : ClientId) (now : BitVec 64)
    (m : ClientMessage) (w : World) :
    ∃ s', Ends up (handleIncoming now c (.message m)) w.state .idle s' ∧
      Outcome w.state c ((Move.incoming c now (.message m)).event D up w) .idle s' := by
  have reply : ∀ msg, Ends up (sendToClient c msg >>= fun _ => .done Phase.idle) w.state .idle
      w.state := fun msg => ends_bind (ends_sendToClient c msg) (ends_done _)
  cases m with
  | auth token => exact ⟨_, reply _, .nothing⟩
  | joinChannel n =>
    by_cases hj : w.state.Joins c n
    · obtain ⟨infos, h⟩ := ends_joinChannel_ok up hj
      obtain ⟨sent, ha⟩ := h.alone w rfl
      refine ⟨_, ends_handleJoin_ok up now hj, ?_⟩
      unfold Move.event
      dsimp only
      rw [ha]
      exact .joined hj
    · obtain ⟨e, h⟩ := ends_joinChannel_error up hj
      obtain ⟨sent, ha⟩ := h.alone w rfl
      refine ⟨_, ends_handleJoin_error up now hj, ?_⟩
      unfold Move.event
      dsimp only
      rw [ha]
      exact .nothing
  | leaveChannel n =>
    by_cases hm : c ∈ w.state.members n
    · have h := ends_leaveChannel_ok up hm
      obtain ⟨sent, ha⟩ := h.alone w rfl
      refine ⟨_, ends_handleLeave_ok up now hm, ?_⟩
      unfold Move.event
      dsimp only
      rw [ha]
      exact .left hm
    · obtain ⟨e, h⟩ := ends_leaveChannel_error up hm
      obtain ⟨sent, ha⟩ := h.alone w rfl
      refine ⟨_, ends_bind h (reply _), ?_⟩
      unfold Move.event
      dsimp only
      rw [ha]
      exact .nothing
  | startTransmit n =>
    by_cases hm : c ∈ w.state.members n
    · exact ⟨_, ends_handleStart_ok up now hm, .speaking true⟩
    · obtain ⟨e, h⟩ := ends_startTransmit_error up hm
      exact ⟨_, ends_bind h (reply _), .nothing⟩
  | stopTransmit n =>
    by_cases hm : c ∈ w.state.members n ∧ (w.state.clients c).isSome
    · exact ⟨_, ends_handleStop_ok up now hm.1 hm.2, .speaking false⟩
    · obtain ⟨e, h⟩ := ends_stopTransmit_error up hm
      exact ⟨_, ends_bind h (reply _), .nothing⟩
  | ping timestamp => exact ⟨_, reply _, .nothing⟩

/-- Every request of a client ends, in one of the outcomes. -/
theorem ends_handleIncoming (D : Deployment) (up : ClientId → Bool) (c : ClientId) (now : BitVec 64)
    (m : Incoming) (w : World) :
    ∃ φ s', Ends up (handleIncoming now c m) w.state φ s' ∧
      Outcome w.state c ((Move.incoming c now m).event D up w) φ s' := by
  cases m with
  | message m => exact ⟨_, ends_handleMessage D up c now m w⟩
  | invalid e =>
    exact ⟨_, _, ends_bind (p := sendError c _) (ends_sendToClient c _) (ends_done _), .nothing⟩
  | closed =>
    cases hc : w.state.clients c with
    | none => exact ⟨_, _, ends_bind (ends_removeClient_none hc) (ends_done _), .gone hc⟩
    | some cl => exact ⟨_, _, ends_bind (ends_removeClient hc) (ends_done _), .removed hc⟩

/-- What a request of client `c` leaves: the others' records, memberships and routes. -/
structure Frame (D : Deployment) (c : ClientId) (s s' : ServerState) : Prop where
  clients : ∀ d, d ≠ c → s'.clients d = s.clients d
  members : ∀ d n, d ≠ c → (d ∈ s'.members n ↔ d ∈ s.members n)
  routes : ∀ u, u ≠ D.deriveUdpId c → s'.udpIdToClient u = s.udpIdToClient u
  routed : ∀ u d, s'.udpIdToClient u = some d → d = c ∨ s.udpIdToClient u = some d

theorem Frame.refl : Frame D c s s :=
  ⟨fun _ _ => rfl, fun _ _ _ => Iff.rfl, fun _ _ => rfl, fun _ _ => .inr⟩

theorem Frame.trans {s'' : ServerState} (h : Frame D c s s') (h' : Frame D c s' s'') :
    Frame D c s s'' where
  clients d hd := (h'.clients d hd).trans (h.clients d hd)
  members d n hd := (h'.members d n hd).trans (h.members d n hd)
  routes u hu := (h'.routes u hu).trans (h.routes u hu)
  routed u d hd := (h'.routed u d hd).elim .inl (h.routed u d)

theorem frame_updateClient (u : ClientUpdate) : Frame D c s (s.updateClient c u) :=
  ⟨fun _ hd => clients_updateClient_of_ne s u hd, fun _ _ _ => Iff.rfl, fun _ _ => rfl,
    fun _ _ => .inr⟩

theorem frame_remove (n : ChannelId) : Frame D c s (s.updateMembers n (·.remove c)) :=
  ⟨fun _ _ => rfl, fun d m hd => by rw [mem_updateMembers_remove]; simp [hd], fun _ _ => rfl,
    fun _ _ => .inr⟩

theorem frame_putClient (v : Option Client) : Frame D c s (s.putClient c v) :=
  ⟨fun _ hd => clients_putClient_of_ne s hd v, fun _ _ _ => Iff.rfl, fun _ _ => rfl,
    fun _ _ => .inr⟩

theorem frame_putUdpAddr (a : SocketAddr) (v : Option ClientId) : Frame D c s (s.putUdpAddr a v) :=
  ⟨fun _ _ => rfl, fun _ _ _ => Iff.rfl, fun _ _ => rfl, fun _ _ => .inr⟩

/-- The route of the client's own numeric id is set to it or cleared. -/
theorem frame_putUdpId {v : Option ClientId} (hv : ∀ d, v = some d → d = c) :
    Frame D c s (s.putUdpId (D.deriveUdpId c) v) := by
  refine ⟨fun _ _ => rfl, fun _ _ _ => Iff.rfl, fun u hu => udpIdToClient_putUdpId_of_ne s hu v,
    fun u d hd => ?_⟩
  by_cases hu : u = D.deriveUdpId c
  · subst hu
    rw [udpIdToClient_putUdpId_self] at hd
    exact .inl (hv d hd)
  · rw [udpIdToClient_putUdpId_of_ne s hu] at hd
    exact .inr hd

theorem frame_joined {n : ChannelId} (h : s.Joins c n) : Frame D c s (s.joined c n) := by
  refine Frame.trans ?_ (frame_updateClient _)
  refine ⟨fun _ _ => rfl, fun d m hd => ?_, fun _ _ => rfl, fun _ _ => .inr⟩
  rw [mem_updateMembers_insert s n m c d h.1]
  simp [hd]

theorem frame_left (n : ChannelId) : Frame D c s (s.left c n) :=
  ((frame_updateClient _).trans (frame_remove n)).trans (frame_updateClient _)

theorem frame_departed (cl : Client) : Frame D c s (s.departed c cl) := by
  unfold ServerState.departed
  repeat' split
  · exact frame_left _
  · exact .refl
  · exact .refl

theorem frame_removed {cl : Client} (h : cl.udpClientId = D.deriveUdpId c) :
    Frame D c s (s.removed c cl) := by
  unfold ServerState.removed
  rw [h]
  have hput := (frame_departed (D := D) (s := s) (c := c) cl).trans (frame_putClient none)
  split
  · exact (hput.trans (frame_putUdpAddr _ none)).trans (frame_putUdpId fun _ h => nomatch h)
  · exact hput.trans (frame_putUdpId fun _ h => nomatch h)

theorem Outcome.frame {e : Option Event} {φ : Phase} (h : Outcome s c e φ s')
    (hid : ∀ cl, s.clients c = some cl → cl.udpClientId = D.deriveUdpId c) : Frame D c s s' := by
  cases h with
  | joined hj => exact frame_joined hj
  | left _ => exact frame_left _
  | speaking b => exact frame_updateClient _
  | nothing => exact .refl
  | removed hcl => exact frame_removed (hid _ hcl)
  | gone _ => exact .refl

/-! ### Maps and history -/

/-- What the maps say about client `c` is what the history says. -/
structure Agrees (D : Deployment) (h : List Event) (s : ServerState) (c : ClientId) : Prop where
  channel : (s.clients c).bind Client.channelId = currentChannel c h
  udpAddr : ∀ cl, s.clients c = some cl → cl.udpAddr = lastAddr D c h
  udpClientId : ∀ cl, s.clients c = some cl → cl.udpClientId = D.deriveUdpId c
  member : ∀ n, c ∈ s.members n ↔ currentChannel c h = some n
  routed : (s.clients c).isSome → s.udpIdToClient (D.deriveUdpId c) = some c
  route : ∀ u, s.udpIdToClient u = some c → u = D.deriveUdpId c

variable {h : List Event} {e : Option Event} {φ : Phase}

/-- The history says the same about the others. -/
theorem Outcome.others (ho : Outcome s c e φ s') (hd : d ≠ c) :
    currentChannel d (e.toList ++ h) = currentChannel d h ∧
      lastAddr D d (e.toList ++ h) = lastAddr D d h := by
  cases ho <;> simp [currentChannel, lastAddr, hd.symm]

theorem Agrees.frame {h' : List Event} (ha : Agrees D h s d) (hf : Frame D c s s') (hd : d ≠ c)
    (hne : (s.clients d).isSome → D.deriveUdpId d ≠ D.deriveUdpId c)
    (hch : currentChannel d h' = currentChannel d h) (haddr : lastAddr D d h' = lastAddr D d h) :
    Agrees D h' s' d where
  channel := by rw [hf.clients d hd, hch, ha.channel]
  udpAddr cl hcl := by
    rw [hf.clients d hd] at hcl
    rw [haddr, ha.udpAddr cl hcl]
  udpClientId cl hcl := by
    rw [hf.clients d hd] at hcl
    exact ha.udpClientId cl hcl
  member n := by rw [hf.members d n hd, hch, ha.member n]
  routed hs := by
    rw [hf.clients d hd] at hs
    rw [hf.routes _ (hne hs)]
    exact ha.routed hs
  route u hu := (hf.routed u d hu).elim (fun he => absurd he hd) (ha.route u)

theorem removed_channels (cl : Client) :
    (s.removed c cl).channels = (s.departed c cl).channels := by
  unfold ServerState.removed
  split <;> rfl

theorem clients_removed (cl : Client) : (s.removed c cl).clients c = none := by
  unfold ServerState.removed
  split <;> exact clients_putClient_self _ c none

/-- The cleanup takes the client out of the only channel that lists it. -/
theorem Agrees.notMem_removed (ha : Agrees D h s c) {cl : Client} (hcl : s.clients c = some cl)
    (n : ChannelId) : c ∉ (s.removed c cl).members n := by
  have hmembers : (s.removed c cl).members n = (s.departed c cl).members n := by
    unfold ServerState.members
    rw [removed_channels]
  have hcur : currentChannel c h = cl.channelId := by rw [← ha.channel, hcl]; rfl
  rw [hmembers]
  unfold ServerState.departed
  cases hk : cl.channelId with
  | none =>
    rw [hk] at hcur
    dsimp only
    rw [ha.member n, hcur]
    simp
  | some k =>
    rw [hk] at hcur
    have hm : c ∈ s.members k := (ha.member k).mpr hcur
    dsimp only
    rw [if_pos hm]
    unfold ServerState.left
    rw [members_updateClient, mem_updateMembers_remove, members_updateClient, ha.member n, hcur]
    simp [eq_comm]

/-- The client that is served. -/
theorem Agrees.outcome (ha : Agrees D h s c) (ho : Outcome s c e φ s') :
    Agrees D (e.toList ++ h) s' c := by
  have hframe := ho.frame ha.udpClientId
  have hroute : ∀ u, s'.udpIdToClient u = some c → u = D.deriveUdpId c := fun u hu => by
    by_contra hne
    rw [hframe.routes u hne] at hu
    exact hne (ha.route u hu)
  cases ho with
  | @joined n hj =>
    obtain ⟨hch, cl, hcl, hnone⟩ := hj
    have hcur : currentChannel c h = none := by rw [← ha.channel, hcl]; exact hnone
    have hclients : (s.joined c n).clients c = some { cl with channelId := some n } := by
      unfold ServerState.joined
      rw [clients_updateClient_self, clients_updateMembers, hcl]
      rfl
    refine ⟨?_, fun cl' hcl' => ?_, fun cl' hcl' => ?_, fun m => ?_, fun _ => ?_, hroute⟩
    · simp [hclients, currentChannel]
    · cases hclients.symm.trans hcl'
      exact ha.udpAddr cl hcl
    · cases hclients.symm.trans hcl'
      exact ha.udpClientId cl hcl
    · unfold ServerState.joined
      rw [members_updateClient, mem_updateMembers_insert s n m c c hch, ha.member m, hcur]
      simp [currentChannel, eq_comm]
    · exact ha.routed (by rw [hcl]; rfl)
  | @left n hm =>
    have hcur : currentChannel c h = some n := (ha.member n).mp hm
    obtain ⟨cl, hcl, hclid⟩ := Option.bind_eq_some_iff.mp (ha.channel.trans hcur)
    have hclients : (s.left c n).clients c =
        some { cl with speaking := false, channelId := none } := by
      unfold ServerState.left
      rw [clients_updateClient_self, clients_updateMembers, clients_updateClient_self, hcl]
      rfl
    refine ⟨?_, fun cl' hcl' => ?_, fun cl' hcl' => ?_, fun m => ?_, fun _ => ?_, hroute⟩
    · simp [hclients, currentChannel]
    · cases hclients.symm.trans hcl'
      exact ha.udpAddr cl hcl
    · cases hclients.symm.trans hcl'
      exact ha.udpClientId cl hcl
    · unfold ServerState.left
      rw [members_updateClient, mem_updateMembers_remove, members_updateClient, ha.member m, hcur]
      simp [currentChannel, eq_comm]
    · exact ha.routed (by rw [hcl]; rfl)
  | speaking b =>
    refine ⟨?_, fun cl' hcl' => ?_, fun cl' hcl' => ?_, ha.member, fun hs => ?_, hroute⟩
    · rw [clients_updateClient_self]
      refine Eq.trans ?_ ha.channel
      cases s.clients c <;> rfl
    all_goals rw [clients_updateClient_self] at *
    · obtain ⟨cl, hcl, rfl⟩ := Option.map_eq_some_iff.mp hcl'
      exact ha.udpAddr cl hcl
    · obtain ⟨cl, hcl, rfl⟩ := Option.map_eq_some_iff.mp hcl'
      exact ha.udpClientId cl hcl
    · exact ha.routed (by simpa using hs)
  | nothing => exact ha
  | @removed cl hcl =>
    have hclients := clients_removed (s := s) (c := c) cl
    refine ⟨?_, fun cl' hcl' => ?_, fun cl' hcl' => ?_, fun m => ?_, fun hs => ?_, hroute⟩
    · simp [hclients, currentChannel]
    · cases hclients.symm.trans hcl'
    · cases hclients.symm.trans hcl'
    · simp [ha.notMem_removed hcl m, currentChannel]
    · rw [hclients] at hs
      cases hs
  | gone hcl =>
    have hcur : currentChannel c h = none := by rw [← ha.channel, hcl]; rfl
    refine ⟨?_, fun cl' hcl' => ?_, fun cl' hcl' => ?_, fun m => ?_, ha.routed, hroute⟩
    · simp [hcl, currentChannel]
    · cases hcl.symm.trans hcl'
    · cases hcl.symm.trans hcl'
    · rw [ha.member m, hcur]
      simp [currentChannel]

/-- A client that authenticates. -/
theorem Agrees.authenticated (ha : Agrees D h s c) (hc : s.clients c = none) (name : String) :
    Agrees D (.authenticated c :: h) (s.authenticated c (D.deriveUdpId c) name) c := by
  have hclients : (s.authenticated c (D.deriveUdpId c) name).clients c =
      some (Client.new c (D.deriveUdpId c) name) := clients_putClient_self s c _
  have hcur : currentChannel c h = none := by rw [← ha.channel, hc]; rfl
  refine ⟨?_, fun cl hcl => ?_, fun cl hcl => ?_, fun n => ?_, fun _ => ?_, fun u hu => ?_⟩
  · rw [hclients]
    exact hcur.symm
  · cases hclients.symm.trans hcl
    simp [Client.new, lastAddr]
  · cases hclients.symm.trans hcl
    rfl
  · exact ha.member n
  · exact udpIdToClient_putUdpId_self _ _ _
  · by_contra hne
    exact hne (ha.route u ((udpIdToClient_putUdpId_of_ne _ hne _).symm.trans hu))

/-- A packet, whichever client it is from. -/
theorem Agrees.received (ha : Agrees D h s d) (u : BitVec 64) (a : SocketAddr) :
    Agrees D (.received u a :: h) (s.registered u a) d := by
  have hrec : ∀ cl', (s.registered u a).clients d = some cl' → ∃ cl, s.clients d = some cl ∧
      cl'.udpClientId = cl.udpClientId ∧ cl'.udpAddr = lastAddr D d (.received u a :: h) := by
    intro cl' hcl'
    rw [clients_registered] at hcl'
    unfold lastAddr
    split at hcl'
    · rename_i hu
      obtain ⟨cl, hcl, rfl⟩ := Option.map_eq_some_iff.mp hcl'
      exact ⟨cl, hcl, rfl, by rw [if_pos (ha.route u hu)]⟩
    · rename_i hu
      have hud : u ≠ D.deriveUdpId d := by
        rintro rfl
        exact hu (ha.routed (by rw [hcl']; rfl))
      exact ⟨cl', hcl', rfl, by rw [if_neg hud, ha.udpAddr cl' hcl']⟩
  refine ⟨?_, fun cl' hcl' => ?_, fun cl' hcl' => ?_, fun n => ?_, fun hs => ?_, fun k hk => ?_⟩
  · rw [clients_registered]
    refine Eq.trans ?_ ha.channel
    split
    · cases s.clients d <;> rfl
    · rfl
  · obtain ⟨_, _, _, haddr⟩ := hrec cl' hcl'
    exact haddr
  · obtain ⟨cl, hcl, hid, _⟩ := hrec cl' hcl'
    rw [hid, ha.udpClientId cl hcl]
  · rw [members_registered]
    exact ha.member n
  · obtain ⟨cl', hcl'⟩ := Option.isSome_iff_exists.mp hs
    obtain ⟨cl, hcl, _⟩ := hrec cl' hcl'
    rw [udpIdToClient_registered]
    exact ha.routed (by rw [hcl]; rfl)
  · rw [udpIdToClient_registered] at hk
    exact ha.route k hk

/-! ### Runs -/

variable {C : Set ClientId} {S S' : Serial}

/-- The maps of a run are those its history describes. -/
structure Recorded (D : Deployment) (C : Set ClientId) (h : List Event) (S : Serial) : Prop where
  agrees : ∀ c, Agrees D h S.world.state c
  phase : ∀ c, (S.world.state.clients c).isSome ↔ S.phase (.conn c) = .idle
  known : ∀ c, (S.world.state.clients c).isSome → c ∈ C
  udp : S.phase .udp = .idle

theorem Recorded.client {h' : List Event} {w : World} (hr : Recorded D C h S)
    (hf : Frame D c S.world.state w.state) (hself : Agrees D h' w.state c)
    (hothers : ∀ d, d ≠ c → currentChannel d h' = currentChannel d h ∧
      lastAddr D d h' = lastAddr D d h)
    (hne : ∀ d, d ≠ c → (S.world.state.clients d).isSome → D.deriveUdpId d ≠ D.deriveUdpId c)
    (hphase : (w.state.clients c).isSome ↔ φ = .idle)
    (hknown : (w.state.clients c).isSome → c ∈ C) :
    Recorded D C h' ⟨w, Function.update S.phase (.conn c) φ⟩ := by
  refine ⟨fun d => ?_, fun d => ?_, fun d hd => ?_, hr.udp⟩ <;> by_cases hdc : d = c
  · exact hdc ▸ hself
  · exact (hr.agrees d).frame hf hdc (hne d hdc) (hothers d hdc).1 (hothers d hdc).2
  · subst hdc
    simpa using hphase
  · have htask : Task.conn d ≠ .conn c := fun he => hdc (Task.conn.inj he)
    dsimp only
    rw [hf.clients d hdc, Function.update_of_ne htask]
    exact hr.phase d
  · exact hdc ▸ hknown (hdc ▸ hd)
  · apply hr.known d
    rw [← hf.clients d hdc]
    exact hd

theorem Outcome.registered (ho : Outcome s c e φ s') (hc : (s.clients c).isSome) :
    (s'.clients c).isSome ↔ φ = .idle := by
  obtain ⟨cl, hcl⟩ := Option.isSome_iff_exists.mp hc
  cases ho with
  | joined hj =>
    simp [ServerState.joined, hcl]
  | left hm => simp [ServerState.left, hcl]
  | speaking b => simp [hcl]
  | nothing => simp [hcl]
  | removed => simp [clients_removed]
  | gone hn => cases hn.symm.trans hcl

theorem serve_eq_some {m : Move} (hs : serve D up m S = some S') :
    ∃ φ p φ' w, m.program D = some (φ, p) ∧ S.phase m.task = φ ∧
      p.alone (effect up) S.world = some (φ', w) ∧
      S' = ⟨w, Function.update S.phase m.task φ'⟩ := by
  unfold serve at hs
  split at hs
  · rename_i φ p hp
    split at hs
    · rename_i hφ
      obtain ⟨⟨φ', w⟩, ha, rfl⟩ := Option.map_eq_some_iff.mp hs
      exact ⟨φ, p, φ', w, hp, hφ, ha, rfl⟩
    · cases hs
  · cases hs

/-- A datagram served to its end. -/
theorem serve_datagram {bytes : List Byte} {src : SocketAddr} {w : World}
    (hudp : S.phase .udp = .idle)
    (ha : (handleDatagram bytes src).alone (effect up) S.world = some ((), w)) :
    serve D up (.datagram bytes src) S = some ⟨w, S.phase⟩ := by
  have hphase : Function.update S.phase .udp .idle = S.phase := by
    rw [← hudp, Function.update_eq_self]
  have halone : (do handleDatagram bytes src; return Phase.idle : Prog Phase).alone (effect up)
      S.world = some (.idle, w) := by
    rw [Program.alone_bind_some ha]
    rfl
  simp only [Server.serve, Move.program, Move.task, hudp, if_true, halone, Option.map_some, hphase]

theorem alone_datagram (D : Deployment) (up : ClientId → Bool) (bytes : List Byte) (src : SocketAddr) (w : World) :
    (∃ header t sent dgs, RoutingHeader.parse (bytes.take maxUdpPacketSize) = some header ∧
      PacketType.fromU8 header.packetType = some t ∧
      (handleDatagram bytes src).alone (effect up) w =
        some ((), ⟨w.state.registered header.clientId src, sent, dgs⟩) ∧
      (Move.datagram bytes src).event D up w = some (.received header.clientId src)) ∨
    ((handleDatagram bytes src).alone (effect up) w = some ((), w) ∧
      (Move.datagram bytes src).event D up w = none) := by
  cases hp : (RoutingHeader.parse (bytes.take maxUdpPacketSize)).bind
      (fun header => PacketType.fromU8 header.packetType) with
  | none =>
    refine .inr ⟨alone_handleDatagram_invalid up src w hp, ?_⟩
    unfold Move.event
    dsimp only
    cases hh : RoutingHeader.parse (bytes.take maxUdpPacketSize) with
    | none => rfl
    | some header =>
      rw [hh, Option.bind_some] at hp
      simp [hp]
  | some t =>
    obtain ⟨header, hh, ht⟩ := Option.bind_eq_some_iff.mp hp
    obtain ⟨sent, dgs, ha, -⟩ := alone_handleDatagram up src w hh ht
    refine .inl ⟨header, t, sent, _, hh, ht, ha, ?_⟩
    simp [Move.event, hh, ht]

/-- **Every request and datagram** keeps maps and history in step. -/
theorem Recorded.serve {m : Move} (hC : Set.InjOn D.deriveUdpId C) (hr : Recorded D C h S)
    (hm : ∀ c token, m = .auth c token → c ∈ C) (hs : serve D up m S = some S') :
    Recorded D C ((m.event D up S.world).toList ++ h) S' := by
  obtain ⟨φ, p, φ', w, hp, hφ, ha, rfl⟩ := serve_eq_some hs
  have hne : ∀ c ∈ C, ∀ d, d ≠ c → (S.world.state.clients d).isSome →
      D.deriveUdpId d ≠ D.deriveUdpId c :=
    fun c hc d hdc hd he => hdc (hC (hr.known d hd) hc he)
  -- A connection that ends before it is registered leaves everything but its phase.
  have unchanged : ∀ c, S.phase (.conn c) = .connecting → w.state = S.world.state → φ' = .closed →
      Recorded D C h ⟨w, Function.update S.phase (.conn c) φ'⟩ := by
    intro c hφ hw hφ'
    have hnone : ¬ (S.world.state.clients c).isSome := fun hsome => by
      rw [(hr.phase c).mp hsome] at hφ
      cases hφ
    refine ⟨fun d => hw ▸ hr.agrees d, fun d => ?_, fun d hd => hr.known d (hw ▸ hd), hr.udp⟩
    by_cases hdc : d = c
    · subst hdc
      simp [hw, hφ', hnone]
    · have htask : Task.conn d ≠ .conn c := fun he => hdc (Task.conn.inj he)
      dsimp only
      rw [hw, Function.update_of_ne htask]
      exact hr.phase d
  cases m with
  | step t b => cases hp
  | hangUp c =>
    cases hp
    cases ha
    exact unchanged c hφ rfl rfl
  | auth c token =>
    cases hp
    have hend := ends_authenticate up S.world.state D.udpPort (D.deriveUdpId c) c token
    split at hend
    · obtain ⟨name, hend⟩ := hend
      obtain ⟨rfl, hw, -⟩ := hend.unique ha
      have hc : S.world.state.clients c = none := by
        by_contra hsome
        have := (hr.phase c).mp (Option.isSome_iff_ne_none.mpr hsome)
        cases hφ.symm.trans this
      have hevent : (Move.auth c token).event D up S.world = some (.authenticated c) := by
        unfold Move.event
        dsimp only
        rw [ha]
      rw [hevent]
      refine hr.client ?_ (hw ▸ (hr.agrees c).authenticated hc name) (fun d hd => ?_)
        (hne c (hm c token rfl)) ?_ fun _ => hm c token rfl
      · rw [hw]
        exact (frame_putClient _).trans (frame_putUdpId fun _ h => (Option.some.inj h).symm)
      · simp [currentChannel, lastAddr, hd.symm]
      · rw [hw]
        simp [ServerState.authenticated, ServerState.putUdpId]
    · obtain ⟨rfl, hw, -⟩ := hend.unique ha
      have hevent : (Move.auth c token).event D up S.world = none := by
        unfold Move.event
        dsimp only
        rw [ha]
      rw [hevent]
      exact unchanged c hφ hw rfl
  | incoming c now m =>
    cases hp
    obtain ⟨ψ, s', hend, hout⟩ := ends_handleIncoming D up c now m S.world
    obtain ⟨rfl, rfl, -⟩ := hend.unique ha
    have hc := (hr.phase c).mpr hφ
    exact hr.client (hout.frame (hr.agrees c).udpClientId) ((hr.agrees c).outcome hout)
      (fun d hd => hout.others hd) (hne c (hr.known c hc)) (hout.registered hc)
      fun _ => hr.known c hc
  | datagram bytes src =>
    have hnew : ∀ w', (handleDatagram bytes src).alone (effect up) S.world = some ((), w') →
        (⟨w, Function.update S.phase (Move.datagram bytes src).task φ'⟩ : Serial) =
          ⟨w', S.phase⟩ := fun w' hw' =>
      Option.some.inj (hs.symm.trans (serve_datagram hr.udp hw'))
    rcases alone_datagram D up bytes src S.world with
      ⟨header, t, sent, dgs, -, -, hd, hevent⟩ | ⟨hd, hevent⟩ <;> rw [hnew _ hd, hevent]
    · refine ⟨fun c => (hr.agrees c).received header.clientId src, fun c => ?_, fun c hc => ?_,
        hr.udp⟩
      · refine Iff.trans ?_ (hr.phase c)
        dsimp only
        rw [clients_registered]
        split <;> simp
      · apply hr.known c
        dsimp only at hc
        rw [clients_registered] at hc
        split at hc
        · simpa using hc
        · exact hc
    · exact hr

theorem recorded_initial : Recorded D C [] (Serial.initial D) := by
  refine ⟨fun c => ⟨rfl, fun _ h => (nomatch h), fun _ h => (nomatch h), fun n => ?_,
    fun h => (nomatch h), fun _ h => (nomatch h)⟩, fun c => ?_, fun c h => (nomatch h), rfl⟩
  · simp [Serial.initial, World.new, currentChannel]
  · simp [Serial.initial, World.new, ServerState.new]

theorem Run.recorded (hC : Set.InjOn D.deriveUdpId C) (hr : Run D C h S) : Recorded D C h S := by
  induction hr with
  | nil => exact recorded_initial
  | serve up m _ hm hs ih => exact ih.serve hC hm hs

end AudioPlatform.Server
