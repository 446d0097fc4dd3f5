import Mathlib.Logic.Relation
import AudioPlatform.Server.Coherence
import AudioPlatform.Server.Discipline

/-! The worker pool that runs the server's tasks.

A task needs a worker to act. It gives the worker back only at an `.await`: between two
requests, or at a write to a socket, which it has then still to make. A task that finds a
lock taken keeps its worker while it waits; a task that is suspended at a send keeps its
guards while it has none. -/
namespace AudioPlatform.Server
open Concurrency

structure Pool where
  server : ServerConfig
  /-- The tasks that have a worker. -/
  workers : List Task

variable (D : Deployment) (W : Nat)

def Pool.initial : Pool := ⟨Server.initial D, []⟩

/-- The task is at an `.await`. -/
def awaits : Prog Phase → Bool
  | .done _ => true
  | .act (.send ..) _ => true
  | .act (.sendTo ..) _ => true
  | .act .. => false

inductive PoolMove where
  /-- A free worker takes the task up. -/
  | resume (t : Task)
  /-- The task moves, if it has a worker. -/
  | move (m : Move)
  /-- The task gives its worker back. -/
  | suspend (t : Task)

/-- One step of a pool of `W` workers; what is not possible changes nothing. -/
def Pool.step (pool : Pool) (m : PoolMove) : Pool × List Empty :=
  (match m with
  | .resume t =>
    if t ∉ pool.workers ∧ pool.workers.length < W then { pool with workers := t :: pool.workers }
    else pool
  | .move m =>
    if m.task ∈ pool.workers then { pool with server := (m.run D pool.server).getD pool.server }
    else pool
  | .suspend t =>
    if awaits (pool.server.tasks t) then { pool with workers := pool.workers.erase t }
    else pool, [])

/-! ### Waiting -/

/-- The action the task has to perform next. -/
def Pool.pending (pool : Pool) (t : Task) : Option Op :=
  match pool.server.tasks t with
  | .act o _ => some o
  | .done _ => none

/-- The task is in the middle of a request and has no worker. -/
def Pool.Suspended (pool : Pool) (t : Task) : Prop :=
  t ∉ pool.workers ∧ (pool.pending t).isSome

/-- The task has to take a lock that a guard of the other one conflicts with. -/
def Pool.WaitsFor (pool : Pool) (t u : Task) : Prop :=
  ∃ o g h, pool.pending t = some o ∧ o.needs D = some g ∧ (u, h) ∈ pool.server.shared.held ∧
    g.conflicts h = true

/-- The task cannot take the lock of a shard of `clients` or `channels`. -/
def Pool.Stuck (pool : Pool) (t : Task) : Prop :=
  ∃ o g, pool.pending t = some o ∧ o.needs D = some g ∧
    (g.table = .clients ∨ g.table = .channels) ∧ o.free D pool.server.shared.held = false

/-- Every worker waits, directly or through others, for a task that is suspended. -/
def Pool.LockedOut (pool : Pool) : Prop :=
  pool.workers.length = W ∧ ∀ t ∈ pool.workers, pool.Stuck D t ∧
    ∃ u, pool.Suspended u ∧ Relation.TransGen (pool.WaitsFor D) t u

/-- The client whose record the action takes exclusively. -/
def Op.writes : Op → Option ClientId
  | .updateClient c _ => some c
  | .getClient c true => some c
  | .insertClient c _ => some c
  | .removeClient c => some c
  | _ => none

/-- The client whose guard is held across a send. -/
def Op.recipient : Op → Option ClientId
  | .send d msg => if msg.isWelcome then none else some d
  | _ => none

/-- A task with a worker is about to write to the record of a client, while a send to a
client of the same shard is suspended. -/
def Pool.Crossed (pool : Pool) : Prop :=
  ∃ t u c d, t ∈ pool.workers ∧ u ∉ pool.workers ∧ (pool.pending t).bind Op.writes = some c ∧
    (pool.pending u).bind Op.recipient = some d ∧ D.clientShard c = D.clientShard d

variable {D W} {pool : Pool} {t u : Task} {o : Op} {g : Guard}

theorem needs_of_writes {c : ClientId} (h : o.writes = some c) :
    o.needs D = some (clientGuard D c true) := by
  unfold Op.writes at h
  split at h
  all_goals
    cases h
    try rfl

theorem writes_of_needs (hn : o.needs D = some g) (htable : g.table = .clients)
    (hw : g.write = true) : ∃ c, o.writes = some c ∧ g.shard = D.clientShard c := by
  cases o with
  | updateClient | insertClient | removeClient =>
    cases hn
    exact ⟨_, rfl, rfl⟩
  | getClient c w =>
    cases hn
    obtain rfl : w = true := hw
    exact ⟨c, rfl, rfl⟩
  | readClient =>
    cases hn
    cases hw
  | getChannel | getUdpId | insertUdpId | removeUdpId | insertUdpAddr | removeUdpAddr =>
    cases hn
    cases htable
  | _ => cases hn

theorem pending_eq_some : pool.pending t = some o ↔ ∃ next, pool.server.tasks t = .act o next := by
  unfold Pool.pending
  cases pool.server.tasks t with
  | done φ => simp
  | act o' next =>
    constructor
    · intro h
      cases h
      exact ⟨next, rfl⟩
    · rintro ⟨next', h⟩
      cases h
      rfl

/-! ### Runs -/

/-- What holds of the pool at every moment. -/
structure Staffed (D : Deployment) (W : Nat) (pool : Pool) : Prop where
  reaches : Reaches (system D) (fun _ _ => True) (Server.initial D) pool.server
  awaits : ∀ t, t ∉ pool.workers → awaits (pool.server.tasks t) = true
  nodup : pool.workers.Nodup
  length : pool.workers.length ≤ W

theorem staffed_initial : Staffed D W (Pool.initial D) where
  reaches := .refl
  awaits t _ := by cases t <;> rfl
  nodup := .nil
  length := Nat.zero_le W

theorem Staffed.step (h : Staffed D W pool) (m : PoolMove) : Staffed D W (pool.step D W m).1 := by
  cases m with
  | resume t =>
    unfold Pool.step
    dsimp only
    split
    · rename_i hfree
      refine ⟨h.reaches, fun u hu => h.awaits u fun hmem => hu (.tail t hmem), ?_, hfree.2⟩
      exact List.nodup_cons.mpr ⟨hfree.1, h.nodup⟩
    · exact h
  | move m =>
    unfold Pool.step
    dsimp only
    split
    · rename_i hmem
      cases hrun : m.run D pool.server with
      | none => exact h
      | some cfg =>
        obtain ⟨hstep, hframe⟩ := step_run (sends_any m) hrun
        refine ⟨h.reaches.step hstep trivial, fun u hu => ?_, h.nodup, h.length⟩
        show Server.awaits (cfg.tasks u) = true
        rw [hframe u fun he => hu (he ▸ hmem)]
        exact h.awaits u hu
    · exact h
  | suspend t =>
    unfold Pool.step
    dsimp only
    split
    · rename_i hawaits
      refine ⟨h.reaches, fun u hu => ?_, h.nodup.erase t,
        Nat.le_trans List.length_erase_le h.length⟩
      by_cases hut : u = t
      · exact hut ▸ hawaits
      · exact h.awaits u fun hmem => hu ((List.mem_erase_of_ne hut).mpr hmem)
    · exact h

theorem staffed_run (moves : List PoolMove) :
    Staffed D W (Machine.run (Pool.step D W) (Pool.initial D) moves) :=
  Machine.run_induction (P := fun _ => True) (fun _ m _ h => h.step m) staffed_initial
    fun _ _ => trivial

/-- A task is suspended only at a send through the guard of the recipient, or at a write to
a socket without any guard. -/
theorem Staffed.held (h : Staffed D W pool) (hu : pool.Suspended u) :
    Machine.own u pool.server.shared.held =
      match (pool.pending u).bind Op.recipient with
      | some d => [clientGuard D d false]
      | none => [] := by
  obtain ⟨o, ho⟩ := Option.isSome_iff_exists.mp hu.2
  obtain ⟨next, hnext⟩ := pending_eq_some.mp ho
  have hawaits := h.awaits u hu.1
  have horder := inOrder_of_reaches h.reaches u
  rw [hnext] at hawaits horder
  rw [ho, Option.bind_some]
  cases o with
  | send d msg =>
    have hshared : _ = _ := horder.1.2
    rw [hshared]
    cases hmsg : msg.isWelcome <;> simp [Op.recipient, hmsg]
  | sendTo => exact horder.1.2
  | _ => cases hawaits

/-- A task that waits for a suspended one crosses its send. -/
theorem Staffed.crossed (h : Staffed D W pool) (ht : t ∈ pool.workers) (hu : pool.Suspended u)
    (hwait : pool.WaitsFor D t u) : pool.Crossed D := by
  obtain ⟨o, g, k, ho, hn, hk, hconf⟩ := hwait
  have hown := h.held hu
  have hmem := Machine.mem_own.mpr hk
  rw [hown] at hmem
  split at hmem
  · rename_i d hd
    obtain rfl := List.mem_singleton.mp hmem
    unfold Guard.conflicts clientGuard at hconf
    rw [Bool.or_false, Bool.and_eq_true, Bool.and_eq_true, beq_iff_eq, beq_iff_eq] at hconf
    obtain ⟨⟨htable, hshard⟩, hw⟩ := hconf
    obtain ⟨c, hc, hgc⟩ := writes_of_needs hn htable hw
    exact ⟨t, u, c, d, ht, hu.1, by rw [ho]; exact hc, hd, hgc ▸ hshard⟩
  · cases hmem

/-- A chain of waits that ends at a suspended task contains a wait for a suspended task. -/
theorem Staffed.crossed_of_chain (h : Staffed D W pool) (ht : t ∈ pool.workers)
    (hu : pool.Suspended u) (hchain : Relation.TransGen (pool.WaitsFor D) t u) :
    pool.Crossed D := by
  induction hchain using Relation.TransGen.head_induction_on with
  | single hwait => exact h.crossed ht hu hwait
  | @head t v hwait hrest ih =>
    by_cases hv : v ∈ pool.workers
    · exact ih hv
    · -- The next task waits too, so it is in the middle of a request.
      obtain ⟨w, ⟨o, _, _, ho, _⟩, -⟩ := Relation.TransGen.head'_iff.mp hrest
      exact h.crossed ht ⟨hv, by rw [ho]; rfl⟩ hwait

theorem Staffed.crossed_of_lockedOut (h : Staffed D W pool) (hW : 0 < W)
    (hout : pool.LockedOut D W) : pool.Crossed D := by
  obtain ⟨hlength, hall⟩ := hout
  obtain ⟨t, ht⟩ := List.exists_mem_of_length_pos (hlength ▸ hW)
  obtain ⟨-, u, hu, hchain⟩ := hall t ht
  exact h.crossed_of_chain ht hu hchain

/-- A single worker is locked out by one such write. -/
theorem Staffed.lockedOut_of_crossed (h : Staffed D 1 pool) (hcross : pool.Crossed D) :
    pool.LockedOut D 1 := by
  obtain ⟨t, u, c, d, ht, hu, hc, hd, hshard⟩ := hcross
  obtain ⟨o, ho, hwrites⟩ := Option.bind_eq_some_iff.mp hc
  obtain ⟨o', ho', -⟩ := Option.bind_eq_some_iff.mp hd
  have hsusp : pool.Suspended u := ⟨hu, by rw [ho']; rfl⟩
  have hheld : (u, clientGuard D d false) ∈ pool.server.shared.held := by
    rw [← Machine.mem_own, h.held hsusp, hd]
    exact List.mem_singleton_self _
  have hconf : (clientGuard D c true).conflicts (clientGuard D d false) = true := by
    simp [Guard.conflicts, clientGuard, hshard]
  have hlength : pool.workers.length = 1 :=
    Nat.le_antisymm h.length (List.length_pos_of_mem ht)
  obtain ⟨t', hone⟩ := List.length_eq_one_iff.mp hlength
  refine ⟨hlength, fun v hv => ?_⟩
  obtain rfl : v = t := by
    rw [hone, List.mem_singleton] at ht hv
    rw [ht, hv]
  have hn := needs_of_writes (D := D) hwrites
  refine ⟨⟨o, _, ho, hn, .inl rfl, ?_⟩, u, hsusp, .single ⟨o, _, _, ho, hn, hheld, hconf⟩⟩
  unfold Op.free
  rw [hn, Option.all_some, List.all_eq_false]
  exact ⟨_, hheld, by simp [hconf]⟩

/-- **When no pool is locked out.** Whatever the number of workers, the connections and the
order of steps: as long as no task with a worker comes to write to the record of a client
while a send to a client of the same shard is suspended, the workers are never all waiting for
suspended tasks. A single worker is locked out exactly when that happens. -/
theorem workers_free (hW : 0 < W) (moves : List PoolMove) :
    ((∀ done, done <+: moves → ¬ (Machine.run (Pool.step D W) (Pool.initial D) done).Crossed D) →
      ∀ done, done <+: moves →
        ¬ (Machine.run (Pool.step D W) (Pool.initial D) done).LockedOut D W) ∧
    (W = 1 → ∀ done, done <+: moves →
      (¬ (Machine.run (Pool.step D W) (Pool.initial D) done).LockedOut D W ↔
        ¬ (Machine.run (Pool.step D W) (Pool.initial D) done).Crossed D)) := by
  constructor
  · intro hcalm done hdone hout
    exact hcalm done hdone ((staffed_run done).crossed_of_lockedOut hW hout)
  · rintro rfl done -
    have hstaffed := staffed_run (D := D) (W := 1) done
    exact not_congr ⟨hstaffed.crossed_of_lockedOut hW, hstaffed.lockedOut_of_crossed⟩

/-! ### A slow listener -/

/-- "b" joins the channel of "a", and its send to "a" is suspended; "c" authenticates. -/
def slowListener : List PoolMove :=
  .resume (.conn "a") :: .move (.auth "a" "alice") ::
    List.replicate 3 (.move (.step (.conn "a") true)) ++
  .move (.incoming "a" 0 (.message (.joinChannel "channel-1"))) ::
    List.replicate 10 (.move (.step (.conn "a") true)) ++
  .suspend (.conn "a") :: .resume (.conn "b") :: .move (.auth "b" "bob") ::
    List.replicate 3 (.move (.step (.conn "b") true)) ++
  .move (.incoming "b" 0 (.message (.joinChannel "channel-1"))) ::
    List.replicate 8 (.move (.step (.conn "b") true)) ++
  [.suspend (.conn "b"), .resume (.conn "c"), .move (.auth "c" "carol"),
    .move (.step (.conn "c") true)]

/-- Until "c" is to be inserted, the only worker is not locked out. -/
theorem workers_free_slowListener : ¬ (Machine.run (Pool.step oneShard 1) (Pool.initial oneShard)
    slowListener.dropLast).LockedOut oneShard 1 := by
  have hrun : (fun pool : Pool => (pool.workers, (pool.pending (.conn "c")).bind Op.writes))
      (Machine.run (Pool.step oneShard 1) (Pool.initial oneShard) slowListener.dropLast) =
        ([.conn "c"], none) := by decide +kernel
  obtain ⟨hworkers, hnone⟩ := Prod.mk.inj hrun
  obtain ⟨-, hone⟩ := workers_free (D := oneShard) Nat.one_pos slowListener
  refine (hone rfl _ (List.dropLast_prefix _)).mpr ?_
  rintro ⟨t, _, c, _, ht, -, hc, -⟩
  rw [show _ = [Task.conn "c"] from hworkers, List.mem_singleton] at ht
  rw [ht, show _ = none from hnone] at hc
  cases hc

/-- The only worker waits to insert "c" until "a" takes what "b" sends it. -/
theorem locked_out : (Machine.run (Pool.step oneShard 1) (Pool.initial oneShard)
    slowListener).LockedOut oneShard 1 := by
  have hrun : (fun pool : Pool => (pool.workers, (pool.pending (.conn "c")).bind Op.writes,
      (pool.pending (.conn "b")).bind Op.recipient))
      (Machine.run (Pool.step oneShard 1) (Pool.initial oneShard) slowListener) =
        ([.conn "c"], some "c", some "a") := by decide +kernel
  obtain ⟨hworkers, hrest⟩ := Prod.mk.inj hrun
  obtain ⟨hc, ha⟩ := Prod.mk.inj hrest
  refine (staffed_run slowListener).lockedOut_of_crossed
    ⟨.conn "c", .conn "b", "c", "a", ?_, ?_, hc, ha, rfl⟩
  · rw [show _ = [Task.conn "c"] from hworkers]
    exact List.mem_singleton_self _
  · rw [show _ = [Task.conn "c"] from hworkers]
    decide

end AudioPlatform.Server
