import Mathlib.Data.List.Nodup
import AudioPlatform.Concurrency.Interleaving
import AudioPlatform.Server.Protocol

/-! The server's shared state and the atomic actions of its tasks.

`ServerState` is the four concurrent maps. A task of the server acts on them one
map access at a time; a guard that the source keeps across several accesses (the
channel guard in `joinChannel`, the client guard across a send) is taken by one
action and dropped by another. What an action does is `effect`; when it can run
beside the guards the other tasks hold is in `System`. -/
namespace AudioPlatform.Server
open Concurrency (Program)

/-- A concurrent hash map, as what each key maps to. -/
abbrev DashMap (K V : Type) := K → Option V

/-- A set of client ids with the order in which it is iterated. The source's set has no order that one could
rely on. Here a new member comes first; another order would only change which of two members is sent to first,
and what is stated is what one member is sent. -/
structure MemberSet where
  elems : List ClientId
  nodup : elems.Nodup
  deriving DecidableEq

namespace MemberSet

def empty : MemberSet := ⟨[], List.nodup_nil⟩

instance : Membership ClientId MemberSet := ⟨fun s c => c ∈ s.elems⟩

instance (c : ClientId) (s : MemberSet) : Decidable (c ∈ s) :=
  inferInstanceAs (Decidable (c ∈ s.elems))

def insert (s : MemberSet) (c : ClientId) : MemberSet :=
  ⟨s.elems.insert c, s.nodup.insert⟩

def remove (s : MemberSet) (c : ClientId) : MemberSet :=
  ⟨s.elems.erase c, s.nodup.erase c⟩

@[simp] theorem mem_elems (c : ClientId) (s : MemberSet) : c ∈ s.elems ↔ c ∈ s := Iff.rfl

@[simp] theorem notMem_empty (c : ClientId) : c ∉ empty := List.not_mem_nil

@[simp] theorem mem_insert (s : MemberSet) (c d : ClientId) : d ∈ s.insert c ↔ d = c ∨ d ∈ s :=
  List.mem_insert_iff

@[simp] theorem mem_remove (s : MemberSet) (c d : ClientId) : d ∈ s.remove c ↔ d ≠ c ∧ d ∈ s :=
  s.nodup.mem_erase_iff

end MemberSet

structure Channel where
  name : String
  members : MemberSet
  deriving DecidableEq

def Channel.new (name : String) : Channel := ⟨name, .empty⟩

/-- An IPv4 socket address. -/
structure SocketAddr where
  ip : BitVec 32
  port : BitVec 16
  deriving DecidableEq, Repr

/-- A connected client. The write half of its WebSocket is the client's entry in
`World.sent`. -/
structure Client where
  id : ClientId
  userName : String
  channelId : Option ChannelId
  speaking : Bool
  udpAddr : Option SocketAddr
  udpClientId : BitVec 64
  deriving DecidableEq, Repr

def Client.new (id : ClientId) (udpClientId : BitVec 64) (userName : String) : Client :=
  { id, userName, channelId := none, speaking := false, udpAddr := none, udpClientId }

structure ServerState where
  channels : DashMap ChannelId Channel
  clients : DashMap ClientId Client
  udpAddrToClient : DashMap SocketAddr ClientId
  udpIdToClient : DashMap (BitVec 64) ClientId
  udpPort : BitVec 16

/-- The three channels every server starts with. -/
def channelNames : List ChannelId := ["channel-1", "channel-2", "channel-3"]

def ServerState.new (udpPort : BitVec 16) : ServerState :=
  { channels := fun n => if n ∈ channelNames then some (Channel.new n) else none
    clients := fun _ => none
    udpAddrToClient := fun _ => none
    udpIdToClient := fun _ => none
    udpPort }

/-- The members of a channel; none if the channel does not exist. -/
def ServerState.members (s : ServerState) (n : ChannelId) : MemberSet :=
  (s.channels n).elim .empty Channel.members

/-- A fresh server's channels are empty. -/
@[simp] theorem notMem_members_new (udpPort : BitVec 16) (n : ChannelId) (c : ClientId) :
    c ∉ (ServerState.new udpPort).members n := by
  unfold ServerState.members ServerState.new
  dsimp only
  split <;> exact MemberSet.notMem_empty c

/-- The state together with what has been written to the sockets. -/
structure World where
  state : ServerState
  /-- The messages written to each client's WebSocket, oldest first. -/
  sent : ClientId → List ServerMessage
  /-- The datagrams handed to the UDP socket, oldest first. -/
  datagrams : List (SocketAddr × List Byte)

def World.new (udpPort : BitVec 16) : World := ⟨.new udpPort, fun _ => [], []⟩

/-! ### Actions -/

/-- What is written through a guard on a client. -/
inductive ClientUpdate where
  | channelId (n : Option ChannelId)
  | speaking (b : Bool)
  | udpAddr (a : SocketAddr)
  deriving DecidableEq

def ClientUpdate.apply (cl : Client) : ClientUpdate → Client
  | .channelId n => { cl with channelId := n }
  | .speaking b => { cl with speaking := b }
  | .udpAddr a => { cl with udpAddr := some a }

/-- One access to a shared map, or one write to a socket. `getChannel`, `getClient`
and `getUdpId` take a guard that stays until it is dropped; the others hold theirs
only while they run. -/
inductive Op where
  | getChannel (n : ChannelId) (write : Bool)
  | members (n : ChannelId)
  | insertMember (n : ChannelId) (c : ClientId)
  | removeMember (n : ChannelId) (c : ClientId)
  | dropChannel (n : ChannelId) (write : Bool)
  | readClient (c : ClientId)
  | updateClient (c : ClientId) (u : ClientUpdate)
  | getClient (c : ClientId) (write : Bool)
  | setClient (c : ClientId) (u : ClientUpdate)
  | dropClient (c : ClientId) (write : Bool)
  | insertClient (c : ClientId) (cl : Client)
  | removeClient (c : ClientId)
  | getUdpId (u : BitVec 64)
  | dropUdpId (u : BitVec 64)
  | insertUdpId (u : BitVec 64) (c : ClientId)
  | removeUdpId (u : BitVec 64)
  | insertUdpAddr (a : SocketAddr) (c : ClientId)
  | removeUdpAddr (a : SocketAddr)
  | send (c : ClientId) (msg : ServerMessage)
  | sendTo (a : SocketAddr) (bytes : List Byte)
  /-- A panic: the task does not go on. -/
  | panic

/-- What each action returns. An action that looks a key up returns the value
before any change it makes. -/
abbrev Op.Result : Op → Type
  | .getChannel .. => Option Channel
  | .members _ => List ClientId
  | .insertMember .. => Bool
  | .removeMember .. => Bool
  | .readClient _ => Option Client
  | .updateClient .. => Option Client
  | .getClient .. => Option Client
  | .removeClient _ => Option Client
  | .getUdpId _ => Option ClientId
  | .send .. => Bool
  | .panic => Empty
  | _ => Unit

abbrev Prog (α : Type) := Program Op Op.Result α

/-- One action. -/
abbrev perform (o : Op) : Prog o.Result := Program.perform o

namespace ServerState

def updateMembers (s : ServerState) (n : ChannelId) (f : MemberSet → MemberSet) : ServerState :=
  { s with
    channels := Function.update s.channels n
      ((s.channels n).map fun ch => { ch with members := f ch.members }) }

def updateClient (s : ServerState) (c : ClientId) (u : ClientUpdate) : ServerState :=
  { s with clients := Function.update s.clients c ((s.clients c).map u.apply) }

/-- An entry inserted or removed. -/
def putClient (s : ServerState) (c : ClientId) (v : Option Client) : ServerState :=
  { s with clients := Function.update s.clients c v }

def putUdpId (s : ServerState) (u : BitVec 64) (v : Option ClientId) : ServerState :=
  { s with udpIdToClient := Function.update s.udpIdToClient u v }

def putUdpAddr (s : ServerState) (a : SocketAddr) (v : Option ClientId) : ServerState :=
  { s with udpAddrToClient := Function.update s.udpAddrToClient a v }

end ServerState

section Updates
variable (s : ServerState) (n m : ChannelId) (c d : ClientId) (f : MemberSet → MemberSet)
  (u : ClientUpdate)

theorem members_eq {s : ServerState} {n : ChannelId} {ch : Channel} (h : s.channels n = some ch) :
    s.members n = ch.members := by
  simp only [ServerState.members, h, Option.elim_some]

theorem members_updateMembers_self {s : ServerState} {n : ChannelId}
    (h : (s.channels n).isSome) : (s.updateMembers n f).members n = f (s.members n) := by
  obtain ⟨ch, hch⟩ := Option.isSome_iff_exists.mp h
  simp [ServerState.members, ServerState.updateMembers, hch]

theorem members_updateMembers_of_ne {m n : ChannelId} (h : m ≠ n) :
    (s.updateMembers n f).members m = s.members m := by
  simp [ServerState.members, ServerState.updateMembers, h]

theorem members_updateMembers_of_none {s : ServerState} {n : ChannelId} (h : s.channels n = none) :
    (s.updateMembers n f).members m = s.members m := by
  by_cases hm : m = n
  · subst hm
    simp [ServerState.members, ServerState.updateMembers, h]
  · exact members_updateMembers_of_ne s f hm

@[simp] theorem isSome_updateMembers :
    ((s.updateMembers n f).channels m).isSome = (s.channels m).isSome := by
  by_cases hm : m = n
  · subst hm
    simp [ServerState.updateMembers]
  · simp [ServerState.updateMembers, hm]

@[simp] theorem clients_updateMembers : (s.updateMembers n f).clients = s.clients := rfl

@[simp] theorem udpIdToClient_updateMembers :
    (s.updateMembers n f).udpIdToClient = s.udpIdToClient := rfl

@[simp] theorem clients_updateClient_self :
    (s.updateClient c u).clients c = (s.clients c).map u.apply := by
  simp [ServerState.updateClient]

theorem clients_updateClient_of_ne {c d : ClientId} (h : d ≠ c) :
    (s.updateClient c u).clients d = s.clients d := by
  simp [ServerState.updateClient, h]

@[simp] theorem members_updateClient : (s.updateClient c u).members n = s.members n := rfl

@[simp] theorem channels_updateClient : (s.updateClient c u).channels = s.channels := rfl

@[simp] theorem udpIdToClient_updateClient :
    (s.updateClient c u).udpIdToClient = s.udpIdToClient := rfl

@[simp] theorem clients_putClient_self (v : Option Client) :
    (s.putClient c v).clients c = v := by
  simp [ServerState.putClient]

theorem clients_putClient_of_ne {c d : ClientId} (h : d ≠ c) (v : Option Client) :
    (s.putClient c v).clients d = s.clients d := by
  simp [ServerState.putClient, h]

@[simp] theorem udpIdToClient_putUdpId_self (k : BitVec 64) (v : Option ClientId) :
    (s.putUdpId k v).udpIdToClient k = v := by
  simp [ServerState.putUdpId]

theorem udpIdToClient_putUdpId_of_ne {j k : BitVec 64} (h : j ≠ k) (v : Option ClientId) :
    (s.putUdpId k v).udpIdToClient j = s.udpIdToClient j := by
  simp [ServerState.putUdpId, h]

/-- Removing a client that is no member, or from a channel that does not exist,
changes no membership. -/
theorem mem_updateMembers_remove :
    d ∈ (s.updateMembers n (·.remove c)).members m ↔ d ∈ s.members m ∧ ¬ (d = c ∧ m = n) := by
  by_cases hm : m = n
  · subst hm
    cases h : s.channels m with
    | none =>
      rw [members_updateMembers_of_none m _ h]
      simp [ServerState.members, h]
    | some ch =>
      rw [members_updateMembers_self _ (by simp [h])]
      simp [and_comm]
  · rw [members_updateMembers_of_ne s _ hm]
    simp [hm]

theorem mem_updateMembers_insert (h : (s.channels n).isSome) :
    d ∈ (s.updateMembers n (·.insert c)).members m ↔ d ∈ s.members m ∨ (d = c ∧ m = n) := by
  by_cases hm : m = n
  · subst hm
    rw [members_updateMembers_self _ h]
    simp [or_comm]
  · rw [members_updateMembers_of_ne s _ hm]
    simp [hm]

/-- What reading a channel says about one member. -/
theorem mem_members_iff {s : ServerState} {c : ClientId} {n : ChannelId} :
    c ∈ s.members n ↔ ∃ ch, s.channels n = some ch ∧ c ∈ ch.members := by
  unfold ServerState.members
  cases s.channels n <;> simp

theorem updateMembers_remove_of_notMem {s : ServerState} {c : ClientId} {n : ChannelId}
    (h : c ∉ s.members n) :
    s.updateMembers n (·.remove c) = s := by
  unfold ServerState.updateMembers
  cases hch : s.channels n with
  | none => rw [Option.map_none, ← hch, Function.update_eq_self]
  | some ch =>
    have hc : c ∉ ch.members.elems := fun hc => h (mem_members_iff.mpr ⟨ch, hch, hc⟩)
    have hsame : ch.members.remove c = ch.members := by
      simp only [MemberSet.remove, List.erase_of_not_mem hc]
    dsimp only [Option.map_some]
    rw [hsame, ← hch, Function.update_eq_self]

end Updates

/-- The maps after an action. -/
def Op.apply : Op → ServerState → ServerState
  | .insertMember n c, s => s.updateMembers n (·.insert c)
  | .removeMember n c, s => s.updateMembers n (·.remove c)
  | .updateClient c u, s => s.updateClient c u
  | .setClient c u, s => s.updateClient c u
  | .insertClient c cl, s => s.putClient c (some cl)
  | .removeClient c, s => s.putClient c none
  | .insertUdpId u c, s => s.putUdpId u (some c)
  | .removeUdpId u, s => s.putUdpId u none
  | .insertUdpAddr a c, s => s.putUdpAddr a (some c)
  | .removeUdpAddr a, s => s.putUdpAddr a none
  | _, s => s

/-- What an action returns on the maps; nothing for a panic. `up c` says whether
writing to client `c`'s WebSocket succeeds. -/
def Op.returns (up : ClientId → Bool) : (o : Op) → ServerState → Option o.Result
  | .getChannel n _, s => some (s.channels n)
  | .members n, s => some (s.members n).elems
  | .insertMember n c, s => some (decide (c ∉ s.members n))
  | .removeMember n c, s => some (decide (c ∈ s.members n))
  | .dropChannel _ _, _ => some ()
  | .readClient c, s => some (s.clients c)
  | .updateClient c _, s => some (s.clients c)
  | .getClient c _, s => some (s.clients c)
  | .setClient _ _, _ => some ()
  | .dropClient _ _, _ => some ()
  | .insertClient _ _, _ => some ()
  | .removeClient c, s => some (s.clients c)
  | .getUdpId u, s => some (s.udpIdToClient u)
  | .dropUdpId _, _ => some ()
  | .insertUdpId _ _, _ => some ()
  | .removeUdpId _, _ => some ()
  | .insertUdpAddr _ _, _ => some ()
  | .removeUdpAddr _, _ => some ()
  | .send c _, _ => some (up c)
  | .sendTo _ _, _ => some ()
  | .panic, _ => none

/-- The WebSockets after an action. -/
def Op.sent (up : ClientId → Bool) (o : Op) (sent : ClientId → List ServerMessage) :
    ClientId → List ServerMessage :=
  match o with
  | .send c msg => if up c then Function.update sent c (sent c ++ [msg]) else sent
  | _ => sent

/-- The UDP socket after an action. -/
def Op.datagrams (o : Op) (datagrams : List (SocketAddr × List Byte)) :
    List (SocketAddr × List Byte) :=
  match o with
  | .sendTo a bytes => datagrams ++ [(a, bytes)]
  | _ => datagrams

/-- What an action returns and does to the world. -/
def effect (up : ClientId → Bool) : Program.Effect Op Op.Result World := fun o w =>
  (o.returns up w.state).map fun r =>
    (r, ⟨o.apply w.state, o.sent up w.sent, o.datagrams w.datagrams⟩)

theorem effect_eq_some {up : ClientId → Bool} {o : Op} {w w' : World} {r : o.Result} :
    effect up o w = some (r, w') ↔ o.returns up w.state = some r ∧
      w' = ⟨o.apply w.state, o.sent up w.sent, o.datagrams w.datagrams⟩ := by
  unfold effect
  rw [Option.map_eq_some_iff]
  constructor
  · rintro ⟨a, ha, he⟩
    cases he
    exact ⟨ha, rfl⟩
  · rintro ⟨ha, rfl⟩
    exact ⟨r, ha, rfl⟩

end AudioPlatform.Server
