import AudioPlatform.Concurrency.Progress
import AudioPlatform.Server.Discipline
import AudioPlatform.Server.Forwarding

/-! Requests finish.

Every task takes the locks of the maps in one order: channels, numeric ids, clients, addresses. So
whatever the tasks wait for, one of them can go on; and no task panics, since the record of a client
stays in the map until the client's own handler removes it.

That is so where every task has a worker of its own, so that one that blocks on a lock holds up no other,
and where the sockets take what is sent at once. Fewer workers can all block on locks that are held by
tasks which wait for a worker (`Pool`). -/
namespace AudioPlatform.Server
open Concurrency

variable (D : Deployment)

/-- The place of a map in the order in which the maps are locked. -/
def Table.rank : Table → Nat
  | .channels => 0
  | .udpIds => 1
  | .clients => 2
  | .udpAddrs => 3

/-- The client that a task serves. -/
def Task.client : Task → Option ClientId
  | .conn c => some c
  | .udp => none

/-- The guards of a task, and whether the record of its client is in the map for sure. -/
structure Place where
  guards : List Guard
  present : Bool
  deriving DecidableEq

/-- The lock that the action takes comes after those whose guards are held. -/
def Op.ordered (o : Op) (guards : List Guard) : Bool :=
  (o.needs D).all fun k => guards.all fun h => h.table.rank < k.table.rank

/-- The action does not panic, and of the records it removes only the one of the client. -/
def Op.Tame (own : Option ClientId) : Op → Prop
  | .panic => False
  | .removeClient d => own = some d
  | _ => True

/-- The client's own record is found if it is in the map. -/
def Op.Finds (own : Option ClientId) (g : Place) : (o : Op) → o.Result → Prop
  | .readClient d, r => g.present = true → own = some d → r.isSome = true
  | .updateClient d _, r => g.present = true → own = some d → r.isSome = true
  | .getClient d _, r => g.present = true → own = some d → r.isSome = true
  | _, _ => True

def Op.place (own : Option ClientId) (g : Place) (o : Op) (r : o.Result) : Place where
  guards := o.keeps D g.guards r
  present :=
    match o with
    | .insertClient d _ => g.present || own = some d
    | .removeClient _ => false
    | _ => g.present

/-- The program goes on from the place without a panic, and takes its locks in order. -/
abbrev Proceeds (own : Option ClientId) {α : Type} (fin : α → Place → Prop) (p : Prog α) (g : Place) :
    Prop :=
  p.Expects (fun g o => o.ordered D g.guards = true ∧ o.Tame own) (Op.Finds own) (Op.place D own) fin g

/-- And it ends where it began. -/
abbrev Returns (own : Option ClientId) {α : Type} (p : Prog α) (g : Place) : Prop :=
  Proceeds D own (fun _ g' => g' = g) p g

variable {D} {own : Option ClientId} {α β : Type} {g : Place} {b : Bool} {fin : β → Place → Prop}

theorem Returns.bind {p : Prog α} {f : α → Prog β} (hp : Returns D own p g)
    (hf : ∀ a, Proceeds D own fin (f a) g) : Proceeds D own fin (p >>= f) g :=
  Program.Expects.bind hp fun a _ hg => hg ▸ hf a

/-! ### Operations on channels -/

/-- What follows when a channel's guard is dropped. -/
theorem proceeds_dropChannel {n : ChannelId} {w : Bool} {next : Unit → Prog β}
    (hnext : Proceeds D own fin (next ()) ⟨[], b⟩) :
    Proceeds D own fin (.act (.dropChannel n w) next) ⟨[channelGuard D n w], b⟩ := by
  refine ⟨⟨rfl, trivial⟩, fun _ _ => ?_⟩
  show Proceeds D own fin (next ()) ⟨[channelGuard D n w].erase (channelGuard D n w), b⟩
  rw [List.erase_cons_head]
  exact hnext

theorem proceeds_through {d : ClientId} {msg : ServerMessage} {next : Bool → Unit → Prog β}
    (hnext : ∀ sent, Proceeds D own fin (next sent ()) ⟨[], b⟩) :
    Proceeds D own fin (.act (.send d msg) fun sent => .act (.dropClient d false) (next sent))
      ⟨[clientGuard D d false], b⟩ := by
  refine ⟨⟨rfl, trivial⟩, fun sent _ => ⟨⟨rfl, trivial⟩, fun _ _ => ?_⟩⟩
  show Proceeds D own fin (next sent ()) ⟨[clientGuard D d false].erase (clientGuard D d false), b⟩
  rw [List.erase_cons_head]
  exact hnext sent

theorem returns_broadcast (ids : List ClientId) (ex : ClientId) (msg : ServerMessage) :
    Returns D own (broadcastToMembers ids ex msg) ⟨[], b⟩ := by
  induction ids with
  | nil => rfl
  | cons mid rest ih =>
    unfold broadcastToMembers
    split
    · refine ⟨⟨rfl, trivial⟩, fun r _ => ?_⟩
      cases r with
      | none => exact ih
      | some cl => exact proceeds_through fun _ => ih
    · exact ih

/-- What follows a broadcast. -/
theorem proceeds_broadcast {ids : List ClientId} {ex : ClientId} {msg : ServerMessage}
    {f : Unit → Prog β} (hf : Proceeds D own fin (f ()) ⟨[], b⟩) :
    Proceeds D own fin (broadcastToMembers ids ex msg >>= f) ⟨[], b⟩ :=
  Returns.bind (returns_broadcast ids ex msg) fun _ => hf

theorem returns_sendToClient (d : ClientId) (msg : ServerMessage) :
    Returns D own (sendToClient d msg) ⟨[], b⟩ := by
  refine ⟨⟨rfl, trivial⟩, fun r _ => ?_⟩
  cases r with
  | none => rfl
  | some cl => exact proceeds_through fun _ => rfl

theorem returns_collect (ids : List ClientId) (n : ChannelId) (w : Bool) :
    Returns D own (collectMemberInfo ids) ⟨[channelGuard D n w], b⟩ := by
  induction ids with
  | nil => rfl
  | cons mid rest ih =>
    unfold collectMemberInfo
    exact ⟨⟨rfl, trivial⟩, fun r _ => Returns.bind (p := collectMemberInfo rest) ih fun infos => rfl⟩

/-- The record that joining updates is there. -/
theorem returns_joinChannel (c : ClientId) (n : ChannelId) :
    Returns D (some c) (joinChannel c n) ⟨[], true⟩ := by
  refine ⟨⟨rfl, trivial⟩, fun r _ => ?_⟩
  cases r with
  | none => rfl
  | some channel =>
    refine ⟨⟨rfl, trivial⟩, fun r _ => ?_⟩
    cases r with
    | none => exact proceeds_dropChannel rfl
    | some client =>
      dsimp only [Program.bind]
      split
      · exact proceeds_dropChannel rfl
      · refine Returns.bind (returns_collect _ n true) fun infos => ?_
        refine ⟨⟨rfl, trivial⟩, fun _ _ => ⟨⟨rfl, trivial⟩, fun r hr => ?_⟩⟩
        cases r with
        | none => cases hr rfl rfl
        | some client =>
          refine ⟨⟨rfl, trivial⟩, fun ids _ => proceeds_dropChannel ?_⟩
          refine proceeds_broadcast ⟨⟨rfl, trivial⟩, fun r _ => ?_⟩
          cases r <;> rfl

theorem returns_stopTransmit (c : ClientId) (n : ChannelId) :
    Returns D own (stopTransmit c n) ⟨[], b⟩ := by
  refine ⟨⟨rfl, trivial⟩, fun r _ => ?_⟩
  cases r with
  | none => rfl
  | some channel =>
    refine proceeds_dropChannel ?_
    dsimp only [Program.bind]
    split
    · rfl
    · refine ⟨⟨rfl, trivial⟩, fun r _ => ?_⟩
      cases r with
      | none => rfl
      | some client =>
        dsimp only [Program.bind]
        split
        · exact proceeds_broadcast rfl
        · rfl

theorem returns_startTransmit (c : ClientId) (n : ChannelId) :
    Returns D own (startTransmit c n) ⟨[], b⟩ := by
  refine ⟨⟨rfl, trivial⟩, fun r _ => ?_⟩
  cases r with
  | none => rfl
  | some channel =>
    refine proceeds_dropChannel ?_
    dsimp only [Program.bind]
    split
    · rfl
    · exact ⟨⟨rfl, trivial⟩, fun _ _ => proceeds_broadcast rfl⟩

theorem returns_leaveChannel (c : ClientId) (n : ChannelId) :
    Returns D own (leaveChannel c n) ⟨[], b⟩ := by
  refine Returns.bind (returns_stopTransmit c n) fun _ => ⟨⟨rfl, trivial⟩, fun r _ => ?_⟩
  cases r with
  | none => rfl
  | some channel =>
    refine ⟨⟨rfl, trivial⟩, fun removed _ => ?_⟩
    cases removed with
    | false => exact proceeds_dropChannel rfl
    | true =>
      refine ⟨⟨rfl, trivial⟩, fun ids _ => proceeds_dropChannel ⟨⟨rfl, trivial⟩, fun _ _ => ?_⟩⟩
      exact proceeds_broadcast rfl

/-- The client's own record is gone in the end. -/
theorem proceeds_removeClient (c : ClientId) :
    Proceeds D (some c) (fun _ g => g = ⟨[], false⟩) (removeClient c) ⟨[], b⟩ := by
  have hrecord : Proceeds D (some c) (fun _ g => g = ⟨[], false⟩) (removeRecord c) ⟨[], b⟩ := by
    refine ⟨⟨rfl, rfl⟩, fun r _ => ?_⟩
    cases r with
    | none => rfl
    | some client =>
      dsimp only [Program.bind]
      split
      · exact ⟨⟨rfl, trivial⟩, fun _ _ => ⟨⟨rfl, trivial⟩, fun _ _ => rfl⟩⟩
      · exact ⟨⟨rfl, trivial⟩, fun _ _ => rfl⟩
  refine ⟨⟨rfl, trivial⟩, fun client _ => ?_⟩
  dsimp only [Program.bind]
  split
  · exact Returns.bind (returns_leaveChannel c _) fun _ => hrecord
  · exact hrecord

/-! ### Handlers -/

/-- How a task ends: without guards, and in the map if it goes on. -/
def TaskEnds (φ : Phase) (g : Place) : Prop := g.guards = [] ∧ (φ = .idle → g.present = true)

theorem proceeds_reply (c : ClientId) (msg : ServerMessage) :
    Proceeds D own TaskEnds (sendToClient c msg >>= fun _ => .done .idle) ⟨[], true⟩ :=
  Returns.bind (returns_sendToClient c msg) fun _ => ⟨rfl, fun _ => rfl⟩

theorem proceeds_handleIncoming (now : BitVec 64) (c : ClientId) (m : Incoming) :
    Proceeds D (some c) TaskEnds (handleIncoming now c m) ⟨[], true⟩ := by
  cases m with
  | message m =>
    cases m with
    | auth token => exact proceeds_reply c _
    | joinChannel n =>
      refine Returns.bind (returns_joinChannel c n) fun r => ?_
      cases r <;> exact proceeds_reply c _
    | leaveChannel n =>
      refine Returns.bind (returns_leaveChannel c n) fun r => ?_
      cases r <;> exact proceeds_reply c _
    | startTransmit n =>
      refine Returns.bind (returns_startTransmit c n) fun r => ?_
      cases r with
      | error e => exact proceeds_reply c _
      | ok => exact ⟨rfl, fun _ => rfl⟩
    | stopTransmit n =>
      refine Returns.bind (returns_stopTransmit c n) fun r => ?_
      cases r with
      | error e => exact proceeds_reply c _
      | ok => exact ⟨rfl, fun _ => rfl⟩
    | ping timestamp => exact proceeds_reply c _
  | invalid e => exact proceeds_reply c _
  | closed =>
    refine Program.Expects.bind (proceeds_removeClient c) fun _ g hg => ?_
    subst hg
    exact ⟨rfl, nofun⟩

theorem proceeds_authenticate (port : BitVec 16) (u : BitVec 64) (c : ClientId) (token : String) :
    Proceeds D (some c) TaskEnds (authenticate port u c token) ⟨[], b⟩ := by
  refine ⟨⟨rfl, trivial⟩, fun sent _ => ?_⟩
  cases sent with
  | false => exact ⟨rfl, nofun⟩
  | true =>
    refine ⟨⟨rfl, trivial⟩, fun _ _ => ⟨⟨rfl, trivial⟩, fun _ _ => ⟨rfl, fun _ => ?_⟩⟩⟩
    simp [Op.place]

/-! ### The UDP loop -/

theorem returns_forwardTargets (u : BitVec 64) (ids : List ClientId) (n : ChannelId) (w : Bool) :
    Returns D own (forwardTargets u ids) ⟨[channelGuard D n w], b⟩ := by
  induction ids with
  | nil => rfl
  | cons mid rest ih =>
    unfold forwardTargets
    refine ⟨⟨rfl, trivial⟩, fun r _ => Returns.bind (p := forwardTargets u rest) ih fun targets => ?_⟩
    cases r with
    | none => rfl
    | some cl =>
      dsimp only
      split <;> rfl

theorem returns_collectForwardTargets (n : BitVec 32) (u : BitVec 64) :
    Returns D own (collectForwardTargets n u) ⟨[], b⟩ := by
  refine ⟨⟨rfl, trivial⟩, fun r _ => ?_⟩
  cases r with
  | none => rfl
  | some channel =>
    exact Returns.bind (p := forwardTargets u _) (returns_forwardTargets u _ _ false)
      fun _ => proceeds_dropChannel rfl

theorem returns_sendToAll (targets : List SocketAddr) (bytes : List Byte) :
    Returns D own (sendToAll targets bytes) ⟨[], b⟩ := by
  induction targets with
  | nil => rfl
  | cons a rest ih => exact ⟨⟨rfl, trivial⟩, fun _ _ => ih⟩

theorem returns_registerUdpAddr (u : BitVec 64) (a : SocketAddr) :
    Returns D own (registerUdpAddr u a) ⟨[], b⟩ := by
  refine ⟨⟨rfl, trivial⟩, fun r _ => ?_⟩
  cases r with
  | none => rfl
  | some uuid =>
    have hclose : Proceeds D own (fun _ g => g = ⟨[], b⟩) (.act (.dropUdpId u) .done : Prog Unit)
        ⟨[udpIdGuard D u false], b⟩ := by
      refine ⟨⟨rfl, trivial⟩, fun _ _ => ?_⟩
      show Place.mk ([udpIdGuard D u false].erase (udpIdGuard D u false)) b = _
      rw [List.erase_cons_head]
    refine ⟨⟨rfl, trivial⟩, fun r _ => ?_⟩
    cases r with
    | none => exact hclose
    | some client =>
      have hdone : Proceeds D own (fun _ g => g = ⟨[], b⟩)
          (.act (.dropClient uuid true) fun _ => .act (.dropUdpId u) .done : Prog Unit)
          ⟨[clientGuard D uuid true, udpIdGuard D u false], b⟩ := by
        refine ⟨⟨rfl, trivial⟩, fun _ _ => ?_⟩
        show Proceeds D own _ _ ⟨List.erase _ _, b⟩
        rw [List.erase_cons_head]
        exact hclose
      refine ⟨⟨rfl, trivial⟩, fun _ _ => ?_⟩
      dsimp only [Program.bind]
      split
      · split
        · exact ⟨⟨rfl, trivial⟩, fun _ _ => ⟨⟨rfl, trivial⟩, fun _ _ => hdone⟩⟩
        · exact ⟨⟨rfl, trivial⟩, fun _ _ => hdone⟩
      · exact hdone

theorem returns_handleDatagram (bytes : List Byte) (src : SocketAddr) :
    Returns D own (handleDatagram bytes src) ⟨[], b⟩ := by
  unfold handleDatagram
  dsimp only
  split
  · rfl
  split
  · split
    · rename_i packetType _
      refine Returns.bind (returns_registerUdpAddr _ _) fun _ => ?_
      cases packetType with
      | audio =>
        exact Returns.bind (returns_collectForwardTargets _ _) fun _ => returns_sendToAll _ _
      | ping => exact ⟨⟨rfl, trivial⟩, fun _ _ => rfl⟩
      | keepalive => rfl
      | pong => rfl
    · rfl
  · rfl

/-! ### Every task -/

/-- Every task goes on from the guards that it holds; where the record of its client is taken to be
in the map, it is. -/
def Proceeding (D : Deployment) (cfg : ServerConfig) : Prop :=
  ∀ t, ∃ present, Proceeds D t.client TaskEnds (cfg.tasks t) ⟨Machine.own t cfg.shared.held, present⟩ ∧
    (present = true → ∀ c, t.client = some c → (cfg.shared.world.state.clients c).isSome = true)

variable {cfg cfg' : ServerConfig} {s : ServerState} {o : Op}

theorem proceeds_starts {t : Task} {φ : Phase} {p : Prog Phase} (h : Starts D t φ p) {present : Bool}
    (hrest : φ = .idle → present = true) : Proceeds D t.client TaskEnds p ⟨[], present⟩ := by
  cases h with
  | auth c token => exact proceeds_authenticate _ _ c token
  | hangUp c => exact ⟨rfl, nofun⟩
  | incoming c now m =>
    rw [hrest rfl]
    exact proceeds_handleIncoming now c m
  | datagram bytes src =>
    rw [hrest rfl]
    exact Returns.bind (returns_handleDatagram bytes src) fun _ => ⟨rfl, fun _ => rfl⟩

/-- The records stay that are not removed. -/
theorem isSome_apply (o : Op) {d : ClientId} (hkeep : o ≠ .removeClient d)
    (h : (s.clients d).isSome = true) : ((o.apply s).clients d).isSome = true := by
  have hupdate : ∀ c (u : ClientUpdate), ((s.updateClient c u).clients d).isSome = true := by
    intro c u
    by_cases hd : d = c
    · subst hd
      rw [clients_updateClient_self, Option.isSome_map]
      exact h
    · rw [clients_updateClient_of_ne s u hd]
      exact h
  have hput : ∀ c v, (d = c → Option.isSome v = true) → ((s.putClient c v).clients d).isSome = true := by
    intro c v hv
    by_cases hd : d = c
    · subst hd
      rw [clients_putClient_self]
      exact hv rfl
    · rw [clients_putClient_of_ne s hd]
      exact h
  cases o with
  | updateClient c u => exact hupdate c u
  | setClient c u => exact hupdate c u
  | insertClient c cl => exact hput c _ fun _ => rfl
  | removeClient c => exact hput c _ fun hd => absurd (hd ▸ rfl) hkeep
  | _ => exact h

/-- An action finds the records that are in the map. -/
theorem finds_returns {up : ClientId → Bool} {r : o.Result} {g : Place}
    (hr : o.returns up s = some r)
    (hpresent : g.present = true → ∀ c, own = some c → (s.clients c).isSome = true) :
    Op.Finds own g o r := by
  cases o with
  | readClient | updateClient | getClient =>
    cases Option.some.inj hr
    exact fun hp hown => hpresent hp _ hown
  | _ => trivial

/-- What is taken to be in the map after an action of the task itself is there. -/
theorem present_apply {g : Place} {r : o.Result} {c : ClientId}
    (htame : o.Tame (some c)) (hpresent : g.present = true → (s.clients c).isSome = true)
    (hplace : (o.place D (some c) g r).present = true) : ((o.apply s).clients c).isSome = true := by
  cases o with
  | removeClient d => cases hplace
  | insertClient d cl =>
    by_cases hd : c = d
    · subst hd
      exact congrArg Option.isSome (clients_putClient_self s c (some cl))
    · refine isSome_apply _ nofun (hpresent ?_)
      simpa [Op.place, hd] using hplace
  | _ => exact isSome_apply _ nofun (hpresent hplace)

theorem proceeding_step (h : Proceeding D cfg) (hs : Step (system D) cfg cfg') : Proceeding D cfg' := by
  cases hs with
  | @act t o next r s' ht he =>
    obtain ⟨up, -, he⟩ := he
    obtain ⟨-, hret, rfl⟩ := act_eq_some D he
    obtain ⟨present, hproceeds, hpresent⟩ := h t
    rw [ht] at hproceeds
    have htame : o.Tame t.client := hproceeds.1.2
    intro u
    dsimp only
    by_cases hu : t = u
    · subst hu
      rw [Function.update_self, own_guards_self hret]
      refine ⟨_, hproceeds.2 r (finds_returns hret hpresent), fun hplace c hc => ?_⟩
      rw [hc] at htame hplace
      exact present_apply (D := D) htame (fun hp => hpresent hp c hc) hplace
    · rw [Function.update_of_ne (Ne.symm hu), own_guards_of_ne hu]
      obtain ⟨present', hproceeds', hpresent'⟩ := h u
      refine ⟨present', hproceeds', fun hp c hc => isSome_apply o ?_ (hpresent' hp c hc)⟩
      rintro rfl
      -- The task that removes a record is the one that serves the client.
      have htc : t.client = some c := htame
      cases t with
      | udp => cases htc
      | conn c' =>
        cases u with
        | udp => cases hc
        | conn d =>
          obtain rfl : c' = c := Option.some.inj htc
          obtain rfl : d = c' := Option.some.inj hc
          exact hu rfl
  | @start t φ p ht hp =>
    intro u
    dsimp only
    by_cases hu : u = t
    · subst hu
      obtain ⟨present, hproceeds, hpresent⟩ := h u
      rw [ht] at hproceeds
      obtain ⟨hnone, hidle⟩ : TaskEnds φ _ := hproceeds
      rw [Function.update_self, show Machine.own u cfg.shared.held = [] from hnone]
      exact ⟨present, proceeds_starts hp hidle, hpresent⟩
    · rw [Function.update_of_ne hu]
      exact h u

theorem proceeding_initial : Proceeding D (initial D) := by
  intro t
  cases t with
  | conn c => exact ⟨false, ⟨rfl, nofun⟩, nofun⟩
  | udp => exact ⟨true, ⟨rfl, fun _ => rfl⟩, fun _ _ => nofun⟩

theorem proceeding_of_reaches {P : ServerConfig → ServerConfig → Prop}
    (h : Reaches (system D) P (initial D) cfg) : Proceeding D cfg := by
  induction h with
  | refl => exact proceeding_initial
  | step _ hs _ ih => exact proceeding_step ih hs

/-! ### Going on -/

theorem rank_of_conflicts {k h : Guard} (hc : k.conflicts h = true) : k.table.rank = h.table.rank := by
  unfold Guard.conflicts at hc
  simp only [Bool.and_eq_true, beq_iff_eq] at hc
  rw [hc.1.1]

/-- The task has to take the lock. -/
def Requests (D : Deployment) (cfg : ServerConfig) (t : Task) (k : Guard) : Prop :=
  ∃ o next, cfg.tasks t = .act o next ∧ o.needs D = some k

theorem act_of_free {up : ClientId → Bool} {t : Task} {shared : Shared} {r : o.Result}
    (hfree : o.free D shared.held = true) (hr : o.returns up shared.world.state = some r) :
    ∃ s', act D up t o shared = some (r, s') := by
  unfold act effect
  rw [if_pos hfree, hr]
  exact ⟨_, rfl⟩

/-- One of the tasks in progress can take its lock. -/
theorem Proceeding.exists_free (h : Proceeding D cfg) {t : Task} (ht : ¬ cfg.AtRest t) :
    ∃ u, ¬ cfg.AtRest u ∧ ∀ k k' v, Requests D cfg u k → (v, k') ∈ cfg.shared.held →
      ¬ k.conflicts k' = true := by
  refine exists_unblocked (fun k : Guard => k.table.rank) 3 (fun u => ¬ cfg.AtRest u)
    (Requests D cfg) (fun u k => (u, k) ∈ cfg.shared.held) (fun k k' => k.conflicts k' = true)
    ?_ (fun _ _ => rank_of_conflicts) ?_ ?_ ht
  · intro k
    cases k.table <;> decide
  · rintro u k hk ⟨φ, hφ⟩
    obtain ⟨present, hproceeds, -⟩ := h u
    rw [hφ] at hproceeds
    have hnone : Machine.own u cfg.shared.held = [] := hproceeds.1
    exact absurd (Machine.mem_own.mpr hk) (hnone ▸ List.not_mem_nil)
  · rintro u k k' ⟨o, next, htask, hneeds⟩ hk'
    obtain ⟨present, hproceeds, -⟩ := h u
    rw [htask] at hproceeds
    have hordered := hproceeds.1.1
    unfold Op.ordered at hordered
    rw [hneeds, Option.all_some, List.all_eq_true] at hordered
    exact of_decide_eq_true (hordered k' (Machine.mem_own.mpr hk'))

/-- While a request is in progress, an action is possible. -/
theorem Proceeding.exists_acts (h : Proceeding D cfg) {t : Task} (ht : ¬ cfg.AtRest t) :
    ∃ cfg', Acts (delivering D) cfg cfg' := by
  obtain ⟨u, hu, hunblocked⟩ := h.exists_free ht
  obtain ⟨present, hproceeds, -⟩ := h u
  cases htask : cfg.tasks u with
  | done φ => exact absurd ⟨φ, htask⟩ hu
  | act o next =>
    rw [htask] at hproceeds
    have hreturns : ∃ r, o.returns (fun _ => true) cfg.shared.world.state = some r := by
      have htame := hproceeds.1.2
      cases o with
      | panic => exact htame.elim
      | _ => exact ⟨_, rfl⟩
    have hfree : o.free D cfg.shared.held = true := by
      unfold Op.free
      cases hneeds : o.needs D with
      | none => rfl
      | some k =>
        rw [Option.all_some, List.all_eq_true]
        rintro ⟨v, k'⟩ hmem
        simpa using hunblocked k k' v ⟨o, next, htask, hneeds⟩ hmem
    obtain ⟨r, hr⟩ := hreturns
    obtain ⟨s', hact⟩ := act_of_free (t := u) hfree hr
    exact ⟨_, .act htask ⟨_, fun _ => rfl, hact⟩⟩

theorem reaches_acts {cfg₀ : ServerConfig}
    (h : Reaches (system D) (fun _ _ => True) cfg₀ cfg)
    (hacts : Relation.ReflTransGen (Acts (system D)) cfg cfg') :
    Reaches (system D) (fun _ _ => True) cfg₀ cfg' := by
  induction hacts with
  | refl => exact h
  | tail _ hact ih => exact ih.step hact.step trivial

/-- **Requests finish.** Where each task has its own worker and every send returns, from every state that
the server reaches, however its tasks are scheduled and whichever sends fail, there is no endless run of
the actions that are left; and as long as some task is in the middle of a request, some action is
possible. So where the actions end, all tasks are at rest. -/
theorem requests_finish (h : Reaches (system D) (fun _ _ => True) (initial D) cfg) :
    Acc (fun a b => Acts (system D) b a) cfg ∧
      ∀ cfg', Relation.ReflTransGen (Acts (system D)) cfg cfg' →
        (∀ t, cfg'.AtRest t) ∨ ∃ cfg'', Acts (delivering D) cfg' cfg'' := by
  constructor
  · obtain ⟨T, hT⟩ := exists_within (fun t => by cases t <;> exact ⟨_, rfl⟩) h
    exact acc_acts hT
  · intro cfg' hacts
    by_cases hrest : ∀ t, cfg'.AtRest t
    · exact .inl hrest
    · obtain ⟨t, ht⟩ := not_forall.mp hrest
      exact .inr ((proceeding_of_reaches (reaches_acts h hacts)).exists_acts ht)

/-- A client is in the middle of joining a channel. -/
theorem requests_finish_joining : ∃ cfg,
    play oneShard (aloneInChannel.take 7) (initial oneShard) = some cfg ∧
      ¬ cfg.AtRest (.conn "a") ∧ ∃ cfg', Acts (delivering oneShard) cfg cfg' := by
  have hplay : (play oneShard (aloneInChannel.take 7) (initial oneShard)).map
      (idleAt · (.conn "a")) = some false := by decide
  obtain ⟨cfg, hcfg, hidle⟩ := Option.map_eq_some_iff.mp hplay
  have hbusy : ¬ cfg.AtRest (.conn "a") := by
    rw [← idleAt_iff, hidle]
    exact Bool.false_ne_true
  have hreach : Reaches (system oneShard) (fun _ _ => True) (initial oneShard) cfg :=
    (reaches_play (T := [.conn "a"]) (fun m _ => sends_any m) (by decide) hcfg .refl
      fun _ _ => rfl).1.mono fun _ _ _ => trivial
  exact ⟨cfg, hcfg, hbusy, ((requests_finish hreach).2 cfg .refl).resolve_left fun hrest =>
    hbusy (hrest _)⟩

end AudioPlatform.Server
