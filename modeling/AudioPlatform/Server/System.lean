import AudioPlatform.Server.Handlers

/-! The server as a system of interleaving tasks.

One task per connection, named by the client id it hands out, and one task for
the UDP loop. The maps are sharded; an access takes the lock of the key's shard,
shared or exclusive, and is possible only while no guard that is held conflicts
with it. A guard is held from the action that takes it to the action that drops
it, also while its task waits for a send. -/
namespace AudioPlatform.Server
open Concurrency

inductive Task where
  | conn (c : ClientId)
  | udp
  deriving DecidableEq

inductive Table where
  | channels
  | clients
  | udpIds
  | udpAddrs
  deriving DecidableEq

/-- The lock of one shard, shared or exclusive. -/
structure Guard where
  table : Table
  shard : Nat
  write : Bool
  deriving DecidableEq

def Guard.conflicts (g h : Guard) : Bool :=
  g.table == h.table && g.shard == h.shard && (g.write || h.write)

/-- What is fixed while the server runs: the UDP port, the numeric id derived from
a client id, and the shard of each key. -/
structure Deployment where
  udpPort : BitVec 16
  deriveUdpId : ClientId → BitVec 64
  channelShard : ChannelId → Nat
  clientShard : ClientId → Nat
  udpIdShard : BitVec 64 → Nat
  udpAddrShard : SocketAddr → Nat

variable (D : Deployment)

def channelGuard (n : ChannelId) (write : Bool) : Guard := ⟨.channels, D.channelShard n, write⟩
def clientGuard (c : ClientId) (write : Bool) : Guard := ⟨.clients, D.clientShard c, write⟩
def udpIdGuard (u : BitVec 64) (write : Bool) : Guard := ⟨.udpIds, D.udpIdShard u, write⟩
def udpAddrGuard (a : SocketAddr) (write : Bool) : Guard := ⟨.udpAddrs, D.udpAddrShard a, write⟩

/-- The lock an action has to take. An action on a guard its task already holds
takes none. -/
def Op.needs : Op → Option Guard
  | .getChannel n w => some (channelGuard D n w)
  | .readClient c => some (clientGuard D c false)
  | .updateClient c _ => some (clientGuard D c true)
  | .getClient c w => some (clientGuard D c w)
  | .insertClient c _ => some (clientGuard D c true)
  | .removeClient c => some (clientGuard D c true)
  | .getUdpId u => some (udpIdGuard D u false)
  | .insertUdpId u _ => some (udpIdGuard D u true)
  | .removeUdpId u => some (udpIdGuard D u true)
  | .insertUdpAddr a _ => some (udpAddrGuard D a true)
  | .removeUdpAddr a => some (udpAddrGuard D a true)
  | _ => none

/-- The guards held after an action; a look-up that finds nothing keeps none. -/
def Op.guards (t : Task) (s : ServerState) (o : Op) (held : List (Task × Guard)) :
    List (Task × Guard) :=
  match o with
  | .getChannel n w => if (s.channels n).isSome then (t, channelGuard D n w) :: held else held
  | .dropChannel n w => held.erase (t, channelGuard D n w)
  | .getClient c w => if (s.clients c).isSome then (t, clientGuard D c w) :: held else held
  | .dropClient c w => held.erase (t, clientGuard D c w)
  | .getUdpId u => if (s.udpIdToClient u).isSome then (t, udpIdGuard D u false) :: held else held
  | .dropUdpId u => held.erase (t, udpIdGuard D u false)
  | _ => held

/-- The world and the guards that are held. -/
structure Shared where
  world : World
  held : List (Task × Guard)

/-- The action can take its lock now. -/
def Op.free (o : Op) (held : List (Task × Guard)) : Bool :=
  (o.needs D).all fun g => held.all fun h => !g.conflicts h.2

/-- One action of a task, if its lock is free. -/
def act (up : ClientId → Bool) (t : Task) (o : Op) (s : Shared) : Option (o.Result × Shared) :=
  if o.free D s.held then
    (effect up o s.world).map fun (r, w) => (r, ⟨w, o.guards D t s.world.state s.held⟩)
  else none

theorem act_eq_some {up : ClientId → Bool} {t : Task} {o : Op} {s s' : Shared} {r : o.Result}
    (h : act D up t o s = some (r, s')) : o.free D s.held = true ∧
      o.returns up s.world.state = some r ∧
      s' = ⟨⟨o.apply s.world.state, o.sent up s.world.sent, o.datagrams s.world.datagrams⟩,
        o.guards D t s.world.state s.held⟩ := by
  unfold act at h
  split at h
  · rename_i hfree
    obtain ⟨⟨r', w⟩, he, hr⟩ := Option.map_eq_some_iff.mp h
    obtain ⟨hret, hw⟩ := effect_eq_some.mp he
    cases hr
    exact ⟨hfree, hret, by rw [hw]⟩
  · cases h

/-! ### Locks -/

/-- No two tasks hold guards that conflict. -/
def Exclusive (held : List (Task × Guard)) : Prop :=
  ∀ t g u h, (t, g) ∈ held → (u, h) ∈ held → t ≠ u → g.conflicts h = false

theorem conflicts_comm (g h : Guard) : g.conflicts h = h.conflicts g := by
  unfold Guard.conflicts
  rw [Bool.or_comm, Bool.beq_comm (a := g.table), Bool.beq_comm (a := g.shard)]

/-- An action changes the guards of its own task only. -/
theorem mem_guards_of_ne {t u : Task} (hu : u ≠ t) (s : ServerState) (o : Op)
    (held : List (Task × Guard)) (g : Guard) :
    (u, g) ∈ o.guards D t s held ↔ (u, g) ∈ held := by
  have herase : ∀ k : Guard, (u, g) ∈ held.erase (t, k) ↔ (u, g) ∈ held := fun k =>
    List.mem_erase_of_ne fun he => hu (Prod.mk.inj he).1
  cases o <;> simp only [Op.guards, herase]
  all_goals
    split
    · simp [hu]
    · rfl

/-- A lock is taken only where it is free. -/
theorem exclusive_guards {t : Task} {s : ServerState} {o : Op} {held : List (Task × Guard)}
    (hx : Exclusive held) (hfree : o.free D held = true) : Exclusive (o.guards D t s held) := by
  have hcons : ∀ k : Guard, o.needs D = some k → Exclusive ((t, k) :: held) := by
    intro k hk
    have hk : ∀ u g, (u, g) ∈ held → k.conflicts g = false := fun u g hg => by
      simp only [Op.free, hk, Option.all_some, List.all_eq_true] at hfree
      simpa using hfree (u, g) hg
    intro u g v h hg hh huv
    rcases List.mem_cons.mp hg with hg | hg <;> rcases List.mem_cons.mp hh with hh | hh
    · cases hg
      cases hh
      exact absurd rfl huv
    · cases hg
      exact hk v h hh
    · cases hh
      rw [conflicts_comm]
      exact hk u g hg
    · exact hx u g v h hg hh huv
  have herase : ∀ k : Task × Guard, Exclusive (held.erase k) := fun k u g v h hg hh =>
    hx u g v h (List.mem_of_mem_erase hg) (List.mem_of_mem_erase hh)
  cases o with
  | getChannel n w =>
    simp only [Op.guards]
    split
    · exact hcons _ rfl
    · exact hx
  | getClient c w =>
    simp only [Op.guards]
    split
    · exact hcons _ rfl
    · exact hx
  | getUdpId u =>
    simp only [Op.guards]
    split
    · exact hcons _ rfl
    · exact hx
  | dropChannel | dropClient | dropUdpId => exact herase _
  | _ => exact hx

/-- What a task at rest may start. -/
inductive Starts : Task → Phase → Prog Phase → Prop where
  | auth (c : ClientId) (token : String) :
    Starts (.conn c) .connecting (authenticate D.udpPort (D.deriveUdpId c) c token)
  /-- The connection ends before it authenticates. -/
  | hangUp (c : ClientId) : Starts (.conn c) .connecting (.done .closed)
  | incoming (c : ClientId) (now : BitVec 64) (m : Incoming) :
    Starts (.conn c) .idle (handleIncoming now c m)
  | datagram (bytes : List Byte) (src : SocketAddr) :
    Starts .udp .idle (do handleDatagram bytes src; return .idle)

/-- The server, where any task may take its next action. `ok up` says that the sends may
succeed as `up` has it. -/
def systemOf (ok : (ClientId → Bool) → Prop) : System Task Op Op.Result Phase Shared where
  exec t o s r s' := ∃ up, ok up ∧ act D up t o s = some (r, s')
  starts := Starts D

/-- Each send may succeed or fail. -/
abbrev system : System Task Op Op.Result Phase Shared := systemOf D fun _ => True

/-- Every send succeeds. -/
abbrev delivering : System Task Op Op.Result Phase Shared :=
  systemOf D fun up => ∀ c, up c = true

abbrev ServerConfig := Config Task Op Op.Result Phase Shared

def initial : ServerConfig where
  shared := ⟨.new D.udpPort, []⟩
  tasks
    | .conn _ => .done .connecting
    | .udp => .done .idle

/-- A connection that has begun to authenticate and is not done with its cleanup. -/
def Connected (cfg : ServerConfig) (c : ClientId) : Prop :=
  cfg.tasks (.conn c) ≠ .done .connecting ∧ cfg.tasks (.conn c) ≠ .done .closed

/-! ### Schedules -/

/-- One step of the system, as a scheduler picks it: the next action of a task,
whose send succeeds if `up`, or what a task at rest starts. -/
inductive Move where
  | step (t : Task) (up : Bool)
  | auth (c : ClientId) (token : String)
  | hangUp (c : ClientId)
  | incoming (c : ClientId) (now : BitVec 64) (m : Incoming)
  | datagram (bytes : List Byte) (src : SocketAddr)

def Move.task : Move → Task
  | .step t _ => t
  | .auth c _ => .conn c
  | .hangUp c => .conn c
  | .incoming c _ _ => .conn c
  | .datagram _ _ => .udp

/-- The program a task at rest starts; nothing for a step. -/
def Move.program : Move → Option (Phase × Prog Phase)
  | .step _ _ => none
  | .auth c token => some (.connecting, authenticate D.udpPort (D.deriveUdpId c) c token)
  | .hangUp _ => some (.connecting, .done .closed)
  | .incoming c now m => some (.idle, handleIncoming now c m)
  | .datagram bytes src => some (.idle, do handleDatagram bytes src; return .idle)

def Move.run (m : Move) (cfg : ServerConfig) : Option ServerConfig :=
  match m, cfg.tasks m.task with
  | .step t up, .act o next =>
    (act D (fun _ => up) t o cfg.shared).map fun (r, s) =>
      ⟨s, Function.update cfg.tasks t (next r)⟩
  | m, .done φ =>
    match m.program D with
    | some (φ', p) => if φ = φ' then some ⟨cfg.shared, Function.update cfg.tasks m.task p⟩ else none
    | none => none
  | _, _ => none

/-- A schedule run move by move; nothing if a move is not possible. -/
def play (moves : List Move) (cfg : ServerConfig) : Option ServerConfig :=
  match moves with
  | [] => some cfg
  | m :: rest => (m.run D cfg).bind (play rest)

/-- The task has no request in progress, as a test. -/
def idleAt (cfg : ServerConfig) (t : Task) : Bool :=
  match cfg.tasks t with
  | .done _ => true
  | .act _ _ => false

variable {D} {cfg cfg' : ServerConfig}

theorem idleAt_iff {t : Task} : idleAt cfg t = true ↔ cfg.AtRest t := by
  unfold idleAt Config.AtRest
  cases cfg.tasks t with
  | done φ => exact iff_of_true rfl ⟨φ, rfl⟩
  | act o next => exact iff_of_false Bool.false_ne_true fun ⟨_, h⟩ => nomatch h

theorem starts_program {m : Move} {φ : Phase} {p : Prog Phase} (h : m.program D = some (φ, p)) :
    Starts D m.task φ p := by
  cases m with
  | step => cases h
  | auth c token => cases h; exact .auth c token
  | hangUp c => cases h; exact .hangUp c
  | incoming c now m => cases h; exact .incoming c now m
  | datagram bytes src => cases h; exact .datagram bytes src

/-- The sends of the move succeed as `ok` has it. -/
def Move.Sends (ok : (ClientId → Bool) → Prop) : Move → Prop
  | .step _ up => ok fun _ => up
  | _ => True

/-- The move's send does not fail. -/
def Move.delivers : Move → Bool
  | .step _ up => up
  | _ => true

theorem sends_of_delivers {m : Move} (h : m.delivers = true) :
    m.Sends fun up => ∀ c, up c = true := by
  cases m with
  | step t up => exact fun _ => h
  | _ => trivial

/-- Every schedule is one where sends may fail. -/
theorem sends_any (m : Move) : m.Sends fun _ => True := by
  cases m <;> trivial

variable {ok : (ClientId → Bool) → Prop}

/-- A move is the next action of a task, or the start of a program. -/
theorem run_cases {m : Move} (h : m.run D cfg = some cfg') :
    (∃ t up o next r s, m = .step t up ∧ cfg.tasks t = .act o next ∧
      act D (fun _ => up) t o cfg.shared = some (r, s) ∧
      cfg' = ⟨s, Function.update cfg.tasks t (next r)⟩) ∨
    ∃ φ p, m.program D = some (φ, p) ∧ cfg.tasks m.task = .done φ ∧
      cfg' = ⟨cfg.shared, Function.update cfg.tasks m.task p⟩ := by
  unfold Move.run at h
  split at h
  · rename_i t up o next ht
    obtain ⟨⟨r, s⟩, he, rfl⟩ := Option.map_eq_some_iff.mp h
    exact .inl ⟨t, up, o, next, r, s, rfl, ht, he, rfl⟩
  · rename_i φ ht
    split at h
    · rename_i φ' p hp
      split at h
      · rename_i hφ
        subst hφ
        cases h
        exact .inr ⟨φ, p, hp, ht, rfl⟩
      · cases h
    · cases h
  · cases h

/-- A move is a step, and of its own task only. -/
theorem step_run {m : Move} (hm : m.Sends ok) (h : m.run D cfg = some cfg') :
    Step (systemOf D ok) cfg cfg' ∧ ∀ t, t ≠ m.task → cfg'.tasks t = cfg.tasks t := by
  rcases run_cases h with ⟨t, up, o, next, r, s, rfl, ht, he, rfl⟩ | ⟨φ, p, hp, ht, rfl⟩
  · exact ⟨.act ht ⟨_, hm, he⟩, fun u hu => Function.update_of_ne hu _ _⟩
  · exact ⟨.start ht (starts_program hp), fun u hu => Function.update_of_ne hu _ _⟩

/-- A schedule reaches where it ends, and leaves the tasks it does not name as they were. -/
theorem reaches_play {moves : List Move} {T : List Task} {cfg₀ : ServerConfig}
    (hok : ∀ m ∈ moves, m.Sends ok) (hT : ∀ m ∈ moves, m.task ∈ T)
    (h : play D moves cfg = some cfg')
    (hr : Reaches (systemOf D ok) (fun c _ => ∀ t, t ∉ T → c.tasks t = cfg₀.tasks t) cfg₀ cfg)
    (h₀ : ∀ t, t ∉ T → cfg.tasks t = cfg₀.tasks t) :
    Reaches (systemOf D ok) (fun c _ => ∀ t, t ∉ T → c.tasks t = cfg₀.tasks t) cfg₀ cfg' ∧
      ∀ t, t ∉ T → cfg'.tasks t = cfg₀.tasks t := by
  induction moves generalizing cfg with
  | nil =>
    cases h
    exact ⟨hr, h₀⟩
  | cons m rest ih =>
    obtain ⟨c, hc, h⟩ := Option.bind_eq_some_iff.mp h
    obtain ⟨hstep, hframe⟩ := step_run (hok m (.head rest)) hc
    refine ih (fun k hk => hok k (.tail m hk)) (fun k hk => hT k (.tail m hk)) h
      (hr.step hstep h₀) fun t ht => ?_
    rw [hframe t fun he => ht (he ▸ hT m (.head rest))]
    exact h₀ t ht

end AudioPlatform.Server
