import AudioPlatform.Server.Progress
import AudioPlatform.Server.Sockets

/-! A server that everyone has left.

The handler of a connection puts a record and a numeric id into the maps, the UDP loop an address. Each
of them is taken out again, by the handler or by the loop; what a task still owes the maps is followed
action by action. So once no client is connected, the server is as it was when it started. -/
namespace AudioPlatform.Server
open Concurrency

variable (D : Deployment)

/-- What a task has put into the maps, and what it owes them. -/
structure Dues where
  /-- The record of the task's client is in the map. -/
  present : Bool
  /-- The numeric id may lead to the task's client. -/
  routed : Bool
  /-- The client whose record the task has locked, and the address in the record. -/
  holding : Option (ClientId × Option SocketAddr)
  /-- The address whose entry has to go. -/
  owed : Option SocketAddr
  deriving DecidableEq

/-- What a task may do: an address that is owed is removed next; records and numeric ids are those of the
task's client, addresses those of the record that is locked. -/
def Op.Due (own : Option ClientId) (g : Dues) (o : Op) : Prop :=
  (∀ b, g.owed = some b → o = .removeUdpAddr b) ∧
  match o with
  | .insertUdpAddr a c => g.holding = some (c, some a)
  | .setClient c (.udpAddr _) => ∃ a, g.holding = some (c, a)
  | .setClient _ _ => False
  | .updateClient _ u => ∀ a, u ≠ .udpAddr a
  | .getClient _ true => g.holding = none
  | .dropClient c true => ∃ a, g.holding = some (c, a)
  | .insertClient c _ => own = some c ∧ g.present = false
  | .removeClient c => own = some c
  | .insertUdpId _ c => own = some c
  | .removeUdpId u => ∃ c, own = some c ∧ u = D.deriveUdpId c
  | _ => True

/-- The record that is removed is there if it was put there, with the client's numeric id. -/
def Op.Yields (own : Option ClientId) (g : Dues) : (o : Op) → o.Result → Prop
  | .removeClient c, r => own = some c →
    r.isSome = g.present ∧ ∀ cl, r = some cl → cl.udpClientId = D.deriveUdpId c
  | _, _ => True

def Op.dues (g : Dues) : (o : Op) → o.Result → Dues
  | .getClient c true, r => { g with holding := r.map fun cl => (c, cl.udpAddr) }
  | .dropClient _ true, _ => { g with holding := none }
  | .setClient c (.udpAddr a), _ =>
    { g with
      holding := some (c, some a)
      owed := (g.holding.bind Prod.snd).filter (· ≠ a) }
  | .removeUdpAddr _, _ => { g with owed := none }
  | .insertClient _ _, _ => { g with present := true }
  | .removeClient _, r => { g with present := false, owed := r.bind Client.udpAddr }
  | .insertUdpId _ _, _ => { g with routed := true }
  | .removeUdpId _, _ => { g with routed := false }
  | _, _ => g

/-- The program pays what it owes. -/
abbrev Pays (own : Option ClientId) {α : Type} (fin : α → Dues → Prop) (p : Prog α) (g : Dues) : Prop :=
  p.Expects (fun g o => o.Due D own g) (fun g o r => o.Yields D own g r) Op.dues fin g

/-- Between two requests nothing is owed. -/
def Dues.Rest (φ : Phase) (g : Dues) : Prop :=
  g.owed = none ∧ g.holding = none ∧ (g.present = true ↔ φ = .idle) ∧ (φ ≠ .idle → g.routed = false)

variable {D} {own : Option ClientId} {α β : Type} {fin : β → Dues → Prop} {g : Dues}

/-! ### Handlers -/

theorem Op.Plain.due {o : Op} (h : o.Plain) (hpaid : g.owed = none) : o.Due D own g := by
  have howed : ∀ b, g.owed = some b → o = .removeUdpAddr b := by
    rw [hpaid]
    exact nofun
  cases o with
  | sendTo | setClient | insertUdpAddr | insertClient | removeClient | insertUdpId | removeUdpId =>
    exact h.elim
  | getClient c write | dropClient c write =>
    obtain rfl : write = false := h
    exact ⟨howed, trivial⟩
  | updateClient => exact ⟨howed, h⟩
  | _ => exact ⟨howed, trivial⟩

theorem Op.Plain.dues {o : Op} (h : o.Plain) (r : o.Result) : o.dues g r = g := by
  cases o with
  | sendTo | setClient | insertUdpAddr | insertClient | removeClient | insertUdpId | removeUdpId =>
    exact h.elim
  | removeUdpAddr => exact h.elim
  | getClient c write | dropClient c write =>
    obtain rfl : write = false := h
    rfl
  | _ => rfl

/-- An operation on channels owes nothing. -/
theorem pays_plain {p : Prog α} {f : α → Prog β} (hp : p.All Op.Plain) (hpaid : g.owed = none)
    (hf : ∀ a, Pays D own fin (f a) g) : Pays D own fin (p >>= f) g := by
  induction p with
  | done a => exact hf a
  | act o next ih =>
    refine ⟨hp.1.due hpaid, fun r _ => ?_⟩
    show Pays D own fin (next r >>= f) (o.dues g r)
    rw [hp.1.dues]
    exact ih r (hp.2 r)

/-- A record that is removed has its address and its numeric id removed after it. -/
theorem pays_removeRecord (c : ClientId) {fin : Unit → Dues → Prop} (hpaid : g.owed = none) (hfree : g.holding = none)
    (hpresent : g.present = true) (hfin : ∀ g, Dues.Rest .closed g → fin () g) :
    Pays D (some c) fin (removeRecord c) g := by
  have howed : ∀ (g : Dues), g.owed = none → ∀ (o : Op) b, g.owed = some b → o = .removeUdpAddr b :=
    fun g h _ b hb => by cases h.symm.trans hb
  refine ⟨⟨howed g hpaid _, rfl⟩, fun r hr => ?_⟩
  obtain ⟨hsome, hid⟩ := hr rfl
  rw [hpresent] at hsome
  obtain ⟨cl, rfl⟩ := Option.isSome_iff_exists.mp hsome
  dsimp only [Program.bind]
  have hlast : ∀ g' : Dues, g'.owed = none → g'.holding = none → g'.present = false →
      Pays D (some c) fin (perform (.removeUdpId cl.udpClientId)) g' := by
    intro g' hpaid' hfree' habsent
    refine ⟨⟨howed g' hpaid' _, c, rfl, hid cl rfl⟩, fun _ _ => ?_⟩
    refine hfin _ ⟨hpaid', hfree', ?_, fun _ => rfl⟩
    show g'.present = true ↔ _
    rw [habsent]
    decide
  split
  · rename_i addr haddr
    refine ⟨⟨fun b hb => ?_, trivial⟩, fun _ _ => hlast _ rfl hfree rfl⟩
    have hb : cl.udpAddr = some b := hb
    rw [Option.some.inj (haddr.symm.trans hb)]
  · rename_i haddr
    exact hlast _ (Option.eq_none_iff_forall_ne_some.mpr haddr) hfree rfl

theorem pays_handleIncoming (now : BitVec 64) (c : ClientId) (m : Incoming) (hrest : Dues.Rest .idle g) :
    Pays D (some c) Dues.Rest (handleIncoming now c m) g := by
  obtain ⟨hpaid, hfree, hpresent, -⟩ := hrest
  by_cases hm : m = .closed
  · subst hm
    have hrecord : Pays D (some c) (fun _ g => Dues.Rest .closed g) (removeRecord c) g :=
      pays_removeRecord c hpaid hfree (hpresent.mpr rfl) fun _ h => h
    have hremove : Pays D (some c) (fun _ g => Dues.Rest .closed g) (removeClient c) g := by
      have hread : (Op.readClient c).Plain := trivial
      refine ⟨hread.due hpaid, fun client _ => ?_⟩
      dsimp only [Program.bind]
      split
      · exact pays_plain (plain_leaveChannel c _) hpaid fun _ => hrecord
      · exact hrecord
    exact Program.Expects.bind hremove fun _ _ h => h
  · obtain ⟨p, hp, h⟩ := plain_handleIncoming now c hm
    rw [h]
    exact pays_plain hp hpaid fun _ => ⟨hpaid, hfree, hpresent, fun h => absurd rfl h⟩

theorem pays_authenticate (port : BitVec 16) (u : BitVec 64) (c : ClientId) (token : String)
    (hrest : Dues.Rest .connecting g) :
    Pays D (some c) Dues.Rest (authenticate port u c token) g := by
  obtain ⟨hpaid, hfree, hpresent, hrouted⟩ := hrest
  have habsent : g.present = false := by simpa using hpresent
  have howed : ∀ (g : Dues), g.owed = none → ∀ (o : Op) b, g.owed = some b → o = .removeUdpAddr b :=
    fun g h _ b hb => by cases h.symm.trans hb
  refine ⟨⟨howed g hpaid _, trivial⟩, fun sent _ => ?_⟩
  cases sent with
  | false =>
    refine ⟨hpaid, hfree, ?_, fun _ => hrouted nofun⟩
    show g.present = true ↔ _
    rw [habsent]
    decide
  | true =>
    refine ⟨⟨howed g hpaid _, rfl, habsent⟩, fun _ _ => ⟨⟨howed _ hpaid _, rfl⟩, fun _ _ => ?_⟩⟩
    exact ⟨hpaid, hfree, iff_of_true rfl rfl, fun h => absurd rfl h⟩

/-! ### The UDP loop -/

/-- A new address is written into the record, the entry of the old one removed and its own put in, while
the record is locked. -/
theorem pays_registerUdpAddr (u : BitVec 64) (addr : SocketAddr) (hpaid : g.owed = none)
    (hfree : g.holding = none) : Pays D own (fun _ g' => g' = g) (registerUdpAddr u addr) g := by
  have howed : ∀ (g : Dues), g.owed = none → ∀ (o : Op) b, g.owed = some b → o = .removeUdpAddr b :=
    fun g h _ b hb => by cases h.symm.trans hb
  have hback : { g with holding := none, owed := none } = g := by
    rw [← hfree, ← hpaid]
  refine ⟨⟨howed g hpaid _, trivial⟩, fun r _ => ?_⟩
  cases r with
  | none => exact rfl
  | some uuid =>
    refine ⟨⟨howed g hpaid _, hfree⟩, fun r _ => ?_⟩
    cases r with
    | none =>
      refine ⟨⟨howed _ hpaid _, trivial⟩, fun _ _ => ?_⟩
      show { g with holding := none } = g
      rw [← hfree]
    | some client =>
      refine ⟨⟨howed _ hpaid _, _, rfl⟩, fun _ _ => ?_⟩
      have hclose : Pays D own (fun _ g' => g' = g)
          (do perform (.dropClient uuid true); perform (.dropUdpId u) : Prog Unit)
          { g with holding := some (uuid, some addr), owed := none } :=
        ⟨⟨howed _ rfl _, _, rfl⟩, fun _ _ => ⟨⟨howed _ rfl _, trivial⟩, fun _ _ => hback⟩⟩
      have hinsert : Pays D own (fun _ g' => g' = g)
          (do perform (.insertUdpAddr addr uuid); perform (.dropClient uuid true)
              perform (.dropUdpId u) : Prog Unit)
          { g with holding := some (uuid, some addr), owed := none } :=
        ⟨⟨howed _ rfl _, rfl⟩, fun _ _ => hclose⟩
      show Pays D own _ _ { g with
        holding := some (uuid, some addr), owed := client.udpAddr.filter (· ≠ addr) }
      dsimp only [Program.bind]
      split
      · rename_i hmoved
        split
        · rename_i old hold
          have hne : old ≠ addr := fun h => hmoved (hold.trans (congrArg some h))
          rw [hold, Option.filter_some_pos (by simpa using hne)]
          exact ⟨⟨fun b hb => by rw [Option.some.inj hb], trivial⟩, fun _ _ => hinsert⟩
        · rename_i hnone
          rw [Option.eq_none_iff_forall_ne_some.mpr hnone, Option.filter_none]
          exact hinsert
      · rename_i hstays
        rw [not_not.mp hstays, Option.filter_some_neg (by simp)]
        exact hclose

theorem pays_sendToAll (targets : List SocketAddr) (bytes : List Byte) (hpaid : g.owed = none) :
    Pays D own (fun _ g' => g' = g) (sendToAll targets bytes) g := by
  induction targets with
  | nil => exact rfl
  | cons a rest ih =>
    exact ⟨⟨fun b hb => (by cases hpaid.symm.trans hb), trivial⟩, fun _ _ => ih⟩

theorem pays_handleDatagram (bytes : List Byte) (src : SocketAddr) (hpaid : g.owed = none)
    (hfree : g.holding = none) : Pays D own (fun _ g' => g' = g) (handleDatagram bytes src) g := by
  unfold handleDatagram
  dsimp only
  split
  · exact rfl
  split
  · rename_i header _
    split
    · rename_i packetType _
      refine Program.Expects.bind (pays_registerUdpAddr _ _ hpaid hfree) fun _ g' hg => ?_
      subst hg
      cases packetType with
      | audio =>
        exact pays_plain (plain_collectForwardTargets _ _) hpaid fun _ => pays_sendToAll _ _ hpaid
      | ping => exact ⟨⟨fun b hb => (by cases hpaid.symm.trans hb), trivial⟩, fun _ _ => rfl⟩
      | keepalive => exact rfl
      | pong => exact rfl
    · exact rfl
  · exact rfl

theorem pays_starts {t : Task} {φ : Phase} {p : Prog Phase} (hp : Starts D t φ p) (hrest : Dues.Rest φ g) :
    Pays D t.client Dues.Rest p g := by
  cases hp with
  | auth c token => exact pays_authenticate _ _ c token hrest
  | hangUp c =>
    obtain ⟨hpaid, hfree, hpresent, hrouted⟩ := hrest
    refine ⟨hpaid, hfree, ?_, fun _ => hrouted nofun⟩
    rw [hpresent]
    decide
  | incoming c now m => exact pays_handleIncoming now c m hrest
  | datagram bytes src =>
    refine Program.Expects.bind (pays_handleDatagram bytes src hrest.1 hrest.2.1) fun _ g' hg => ?_
    subst hg
    exact hrest

/-! ### The maps and what is owed them -/

/-- The maps hold what the tasks have put there and have not yet taken out. -/
structure Books (D : Deployment) (held : List (Task × Guard)) (s : ServerState) (g : Task → Dues) :
    Prop where
  exclusive : Exclusive held
  present : ∀ c, (s.clients c).isSome = (g (.conn c)).present
  routed : ∀ u c, s.udpIdToClient u = some c → (g (.conn c)).routed = true
  holding : ∀ t c a, (g t).holding = some (c, a) →
    (t, clientGuard D c true) ∈ held ∧ ∃ cl, s.clients c = some cl ∧ cl.udpAddr = a
  entries : ∀ a c, s.udpAddrToClient a = some c →
    (∃ cl, s.clients c = some cl ∧ cl.udpAddr = some a) ∨ ∃ t, (g t).owed = some a
  moving : (g .udp).owed.isSome = true → (g .udp).holding.isSome = true
  channels : ∀ n, s.channels n = if n ∈ channelNames then some ⟨n, s.members n⟩ else none
  port : s.udpPort = D.udpPort

section Action
variable {held : List (Task × Guard)} {s : ServerState} {γ : Task → Dues} {t : Task} {o : Op} {r : o.Result}
  {up : ClientId → Bool}

theorem Task.eq_conn {c : ClientId} (h : t.client = some c) : t = .conn c := by
  cases t with
  | conn d => exact congrArg Task.conn (Option.some.inj h)
  | udp => cases h

/-- What an action leaves of a task's dues, it leaves of everybody's. -/
theorem field_update {ι : Type} (f : Dues → ι) {g' : Dues} (h : f g' = f (γ t)) (u : Task) :
    f (Function.update γ t g' u) = f (γ u) := by
  by_cases hu : u = t
  · subst hu
    rw [Function.update_self, h]
  · rw [Function.update_of_ne hu]

/-- Whether a record is in the map changes where it is inserted or removed. -/
theorem Books.present_apply (h : Books D held s γ) (ho : o.Due D t.client (γ t)) (c : ClientId) :
    ((o.apply s).clients c).isSome = (Function.update γ t (o.dues (γ t) r) (.conn c)).present := by
  have hsame : ((o.apply s).clients c).isSome = (s.clients c).isSome →
      (o.dues (γ t) r).present = (γ t).present →
      ((o.apply s).clients c).isSome = (Function.update γ t (o.dues (γ t) r) (.conn c)).present := by
    intro hmap hdues
    rw [hmap, h.present c, field_update Dues.present hdues]
  have hput : ∀ (d : ClientId) (v : Option Client) (g' : Dues), t.client = some d → g'.present = v.isSome →
      ((s.putClient d v).clients c).isSome = (Function.update γ t g' (.conn c)).present := by
    intro d v g' hd hg
    obtain rfl := Task.eq_conn hd
    by_cases hc : c = d
    · subst hc
      rw [clients_putClient_self, Function.update_self, hg]
    · rw [clients_putClient_of_ne s hc, Function.update_of_ne (by simpa using hc), h.present c]
  have hupdate : ∀ (d : ClientId) (u : ClientUpdate),
      ((s.updateClient d u).clients c).isSome = (s.clients c).isSome := by
    intro d u
    by_cases hc : c = d
    · subst hc
      rw [clients_updateClient_self, Option.isSome_map]
    · rw [clients_updateClient_of_ne s u hc]
  cases o with
  | insertClient d cl => exact hput d (some cl) _ ho.2.1 rfl
  | removeClient d => exact hput d none _ ho.2 rfl
  | updateClient d u => exact hsame (hupdate d u) rfl
  | setClient d u =>
    cases u with
    | udpAddr a => exact hsame (hupdate d _) rfl
    | _ => exact ho.2.elim
  | getClient d write => cases write <;> exact hsame rfl rfl
  | dropClient d write => cases write <;> exact hsame rfl rfl
  | _ => exact hsame rfl rfl

theorem Books.routed_apply (h : Books D held s γ) (hsound : Sound D s) (ho : o.Due D t.client (γ t))
    {u : BitVec 64} {c : ClientId} (hu : (o.apply s).udpIdToClient u = some c) :
    (Function.update γ t (o.dues (γ t) r) (.conn c)).routed = true := by
  have hsame : s.udpIdToClient u = some c → (o.dues (γ t) r).routed = (γ t).routed →
      (Function.update γ t (o.dues (γ t) r) (.conn c)).routed = true := by
    intro hmap hdues
    rw [field_update Dues.routed hdues, h.routed u c hmap]
  cases o with
  | insertUdpId k d =>
    obtain rfl := Task.eq_conn ho.2
    by_cases hc : d = c
    · subst hc
      rw [Function.update_self]
      rfl
    · rw [Function.update_of_ne (by simpa using Ne.symm hc)]
      refine h.routed u c ?_
      have hu : (s.putUdpId k (some d)).udpIdToClient u = some c := hu
      by_cases hk : u = k
      · subst hk
        rw [udpIdToClient_putUdpId_self] at hu
        exact absurd (Option.some.inj hu) hc
      · rwa [udpIdToClient_putUdpId_of_ne s hk] at hu
  | removeUdpId k =>
    obtain ⟨d, hd, rfl⟩ := ho.2
    obtain rfl := Task.eq_conn hd
    have hu : (s.putUdpId (D.deriveUdpId d) none).udpIdToClient u = some c := hu
    by_cases hk : u = D.deriveUdpId d
    · rw [hk, udpIdToClient_putUdpId_self] at hu
      cases hu
    · rw [udpIdToClient_putUdpId_of_ne s hk] at hu
      -- A route leads to the client from whose id the number is derived.
      have hc : c ≠ d := fun hc => hk (hc ▸ hsound.routed u c hu)
      rw [Function.update_of_ne (by simpa using hc)]
      exact h.routed u c hu
  | setClient d u =>
    cases u with
    | udpAddr a => exact hsame hu rfl
    | _ => exact ho.2.elim
  | getClient d write => cases write <;> exact hsame hu rfl
  | dropClient d write => cases write <;> exact hsame hu rfl
  | _ => exact hsame hu rfl

/-- A record that is locked is written by nobody else. -/
theorem clients_apply_of_locked {u : Task} {c : ClientId} (hlock : (u, clientGuard D c true) ∈ held)
    (hfree : o.free D held = true) (hset : ∀ x, o ≠ .setClient c x) :
    (o.apply s).clients c = s.clients c := by
  have hneeds : ∀ d, o.needs D = some (clientGuard D d true) → c ≠ d := by
    rintro d hd rfl
    unfold Op.free at hfree
    rw [hd] at hfree
    have hconflict := List.all_eq_true.mp hfree _ hlock
    simp [Guard.conflicts, clientGuard] at hconflict
  cases o with
  | insertClient d cl => exact clients_putClient_of_ne s (hneeds d rfl) _
  | removeClient d => exact clients_putClient_of_ne s (hneeds d rfl) _
  | updateClient d u => exact clients_updateClient_of_ne s u (hneeds d rfl)
  | setClient d u => exact clients_updateClient_of_ne s u fun hc => hset u (hc ▸ rfl)
  | _ => rfl

/-- The lock of a record is kept until it is dropped. -/
theorem locked_guards {u : Task} {c : ClientId} (hlock : (u, clientGuard D c true) ∈ held)
    (hdrop : ∀ d, o ≠ .dropClient d true) : (u, clientGuard D c true) ∈ o.guards D t s held := by
  have htake : ∀ (found : Bool) (k : Guard),
      (u, clientGuard D c true) ∈ if found then (t, k) :: held else held := by
    intro found k
    cases found with
    | false => exact hlock
    | true => exact List.mem_cons_of_mem _ hlock
  have herase : ∀ k, k ≠ clientGuard D c true → (u, clientGuard D c true) ∈ held.erase (t, k) :=
    fun k hk => (List.mem_erase_of_ne fun he => hk (Prod.mk.inj he).2.symm).mpr hlock
  cases o with
  | getChannel | getClient | getUdpId => exact htake _ _
  | dropChannel | dropUdpId => exact herase _ nofun
  | dropClient d write =>
    cases write with
    | false => exact herase _ fun hk => nomatch congrArg Guard.write hk
    | true => exact absurd rfl (hdrop d)
  | _ => exact hlock

theorem Books.holding_apply (h : Books D held s γ) (ho : o.Due D t.client (γ t))
    (hfree : o.free D held = true) (hret : o.returns up s = some r) {u : Task} {c : ClientId}
    {a : Option SocketAddr} (hu : (Function.update γ t (o.dues (γ t) r) u).holding = some (c, a)) :
    (u, clientGuard D c true) ∈ o.guards D t s held ∧
      ∃ cl, (o.apply s).clients c = some cl ∧ cl.udpAddr = a := by
  by_cases hut : u = t
  · subst hut
    rw [Function.update_self] at hu
    have hsame : (γ u).holding = some (c, a) → (∀ x, o ≠ .setClient c x) → (∀ d, o ≠ .dropClient d true) →
        (u, clientGuard D c true) ∈ o.guards D u s held ∧
          ∃ cl, (o.apply s).clients c = some cl ∧ cl.udpAddr = a := by
      intro hold hset hdrop
      obtain ⟨hlock, hrec⟩ := h.holding u c a hold
      rw [clients_apply_of_locked hlock hfree hset]
      exact ⟨locked_guards hlock hdrop, hrec⟩
    cases o with
    | getClient d write =>
      cases write with
      | false => exact hsame hu nofun nofun
      | true =>
        cases Option.some.inj hret
        obtain ⟨cl, hcl, hca⟩ := Option.map_eq_some_iff.mp hu
        obtain ⟨rfl, rfl⟩ := Prod.mk.inj hca
        refine ⟨?_, cl, hcl, rfl⟩
        show _ ∈ if (s.clients d).isSome then _ else held
        rw [hcl]
        exact List.mem_cons_self ..
    | setClient d x =>
      cases x with
      | udpAddr b =>
        obtain ⟨a', hold⟩ := ho.2
        obtain ⟨rfl, rfl⟩ := Prod.mk.inj (Option.some.inj hu)
        obtain ⟨hlock, cl, hcl, -⟩ := h.holding u d a' hold
        refine ⟨hlock, { cl with udpAddr := some b }, ?_, rfl⟩
        refine (clients_updateClient_self s d _).trans ?_
        rw [hcl]
        rfl
      | _ => exact ho.2.elim
    | dropClient d write =>
      cases write with
      | false => exact hsame hu nofun nofun
      | true => cases hu
    | _ => exact hsame hu nofun nofun
  · rw [Function.update_of_ne hut] at hu
    obtain ⟨hlock, hrec⟩ := h.holding u c a hu
    have hset : ∀ x, o ≠ .setClient c x := by
      rintro x rfl
      cases x with
      | udpAddr b =>
        obtain ⟨a', hold⟩ := ho.2
        have hconflict := h.exclusive u _ t _ hlock (h.holding t c a' hold).1 hut
        simp [Guard.conflicts, clientGuard] at hconflict
      | _ => exact ho.2.elim
    rw [clients_apply_of_locked hlock hfree hset]
    exact ⟨(mem_guards_of_ne D hut _ _ _ _).mpr hlock, hrec⟩

theorem Books.entries_apply (h : Books D held s γ) (ho : o.Due D t.client (γ t))
    (hret : o.returns up s = some r) {a : SocketAddr} {c : ClientId}
    (ha : (o.apply s).udpAddrToClient a = some c) :
    (∃ cl, (o.apply s).clients c = some cl ∧ cl.udpAddr = some a) ∨
      ∃ u, (Function.update γ t (o.dues (γ t) r) u).owed = some a := by
  have hothers : ∀ g', (∃ u, u ≠ t ∧ (γ u).owed = some a) →
      ∃ u, (Function.update γ t g' u).owed = some a := by
    rintro g' ⟨u, hu, how⟩
    exact ⟨u, by rwa [Function.update_of_ne hu]⟩
  -- Unless the action removes the entry, its task owes none.
  have hold : s.udpAddrToClient a = some c → o ≠ .removeUdpAddr a →
      (∃ cl, s.clients c = some cl ∧ cl.udpAddr = some a) ∨ ∃ u, u ≠ t ∧ (γ u).owed = some a := by
    intro hmap hne
    refine (h.entries a c hmap).imp_right fun ⟨u, how⟩ => ⟨u, ?_, how⟩
    rintro rfl
    exact hne (ho.1 a how)
  have hsame : s.udpAddrToClient a = some c → o ≠ .removeUdpAddr a → (o.apply s).clients c = s.clients c →
      (∃ cl, (o.apply s).clients c = some cl ∧ cl.udpAddr = some a) ∨
        ∃ u, (Function.update γ t (o.dues (γ t) r) u).owed = some a := by
    intro hmap hne hcl
    rw [hcl]
    exact (hold hmap hne).imp_right (hothers _)
  cases o with
  | removeUdpAddr b =>
    have ha : Function.update s.udpAddrToClient b none a = some c := ha
    by_cases hab : a = b
    · rw [hab, Function.update_self] at ha
      cases ha
    · rw [Function.update_of_ne hab] at ha
      exact hsame ha (fun he => hab (Op.removeUdpAddr.inj he).symm) rfl
  | insertUdpAddr b d =>
    have ha : Function.update s.udpAddrToClient b (some d) a = some c := ha
    by_cases hab : a = b
    · subst hab
      rw [Function.update_self] at ha
      obtain rfl := Option.some.inj ha
      exact .inl (h.holding t d _ ho.2).2
    · rw [Function.update_of_ne hab] at ha
      exact hsame ha nofun rfl
  | insertClient d cl =>
    rcases hold ha nofun with ⟨cl', hcl, hca⟩ | howed
    · have hne : c ≠ d := by
        rintro rfl
        have hpresent := h.present c
        rw [hcl, ← Task.eq_conn ho.2.1, ho.2.2] at hpresent
        cases hpresent
      exact .inl ⟨cl', (clients_putClient_of_ne s hne _).trans hcl, hca⟩
    · exact .inr (hothers _ howed)
  | removeClient d =>
    rcases hold ha nofun with ⟨cl, hcl, hca⟩ | howed
    · by_cases hc : c = d
      · subst hc
        obtain rfl : r = some cl := (Option.some.inj hret).symm.trans hcl
        refine .inr ⟨t, ?_⟩
        rw [Function.update_self]
        exact hca
      · exact .inl ⟨cl, (clients_putClient_of_ne s hc _).trans hcl, hca⟩
    · exact .inr (hothers _ howed)
  | updateClient d u =>
    rcases hold ha nofun with ⟨cl, hcl, hca⟩ | howed
    · by_cases hc : c = d
      · subst hc
        refine .inl ⟨u.apply cl, ?_, ?_⟩
        · refine (clients_updateClient_self s c u).trans ?_
          rw [hcl]
          rfl
        · cases u with
          | udpAddr b => exact absurd rfl (ho.2 b)
          | _ => exact hca
      · exact .inl ⟨cl, (clients_updateClient_of_ne s u hc).trans hcl, hca⟩
    · exact .inr (hothers _ howed)
  | setClient d x =>
    cases x with
    | udpAddr b =>
      rcases hold ha nofun with ⟨cl, hcl, hca⟩ | howed
      · by_cases hc : c = d
        · subst hc
          obtain ⟨a', hlocked⟩ := ho.2
          obtain ⟨-, cl', hcl', rfl⟩ := h.holding t c a' hlocked
          obtain rfl : cl = cl' := Option.some.inj (hcl.symm.trans hcl')
          by_cases hab : a = b
          · subst hab
            refine .inl ⟨{ cl with udpAddr := some a }, ?_, rfl⟩
            refine (clients_updateClient_self s c _).trans ?_
            rw [hcl]
            rfl
          · refine .inr ⟨t, ?_⟩
            rw [Function.update_self]
            show ((γ t).holding.bind Prod.snd).filter (· ≠ b) = some a
            rw [hlocked, Option.bind_some, hca]
            exact Option.filter_some_pos (by simpa using hab)
        · exact .inl ⟨cl, (clients_updateClient_of_ne s _ hc).trans hcl, hca⟩
      · exact .inr (hothers _ howed)
    | _ => exact ho.2.elim
  | _ => exact hsame ha nofun rfl

/-- The loop has locked a record as long as it owes an entry. -/
theorem Books.moving_apply (h : Books D held s γ) (ho : o.Due D t.client (γ t))
    (hu : (Function.update γ t (o.dues (γ t) r) .udp).owed.isSome = true) :
    (Function.update γ t (o.dues (γ t) r) .udp).holding.isSome = true := by
  by_cases ht : Task.udp = t
  · subst ht
    rw [Function.update_self] at hu ⊢
    have hpaid : (∀ b, o ≠ .removeUdpAddr b) → (γ .udp).owed = none := fun hne =>
      Option.eq_none_iff_forall_ne_some.mpr fun b hb => hne b (ho.1 b hb)
    cases o with
    | removeUdpAddr b => cases hu
    | removeClient d => cases ho.2
    | getClient d write =>
      cases write with
      | false => exact h.moving hu
      | true =>
        have hu : (γ .udp).owed.isSome = true := hu
        rw [hpaid nofun] at hu
        cases hu
    | dropClient d write =>
      cases write with
      | false => exact h.moving hu
      | true =>
        have hu : (γ .udp).owed.isSome = true := hu
        rw [hpaid nofun] at hu
        cases hu
    | setClient d x =>
      cases x with
      | udpAddr b => rfl
      | _ => exact ho.2.elim
    | _ => exact h.moving hu
  · rw [Function.update_of_ne ht] at hu ⊢
    exact h.moving hu

theorem Books.channels_apply (h : Books D held s γ) (n : ChannelId) :
    (o.apply s).channels n = if n ∈ channelNames then some ⟨n, (o.apply s).members n⟩ else none := by
  have hupdate : ∀ m f, (s.updateMembers m f).channels n =
      if n ∈ channelNames then some ⟨n, (s.updateMembers m f).members n⟩ else none := by
    intro m f
    have hn := h.channels n
    by_cases hm : n = m
    · subst hm
      split at hn
      · rename_i hname
        rw [if_pos hname, members_updateMembers_self f (by rw [hn]; rfl)]
        show Function.update s.channels n _ n = _
        rw [Function.update_self, hn]
        rfl
      · rename_i hname
        rw [if_neg hname]
        show Function.update s.channels n _ n = _
        rw [Function.update_self, hn]
        rfl
    · rw [members_updateMembers_of_ne s f hm]
      exact (Function.update_of_ne hm _ _).trans hn
  cases o with
  | insertMember m c => exact hupdate m (·.insert c)
  | removeMember m c => exact hupdate m (·.remove c)
  | _ => exact h.channels n

/-- What an action puts into the maps it also owes. -/
theorem Books.step (h : Books D held s γ) (hsound : Sound D s) (ho : o.Due D t.client (γ t))
    (hfree : o.free D held = true) (hret : o.returns up s = some r) :
    Books D (o.guards D t s held) (o.apply s) (Function.update γ t (o.dues (γ t) r)) where
  exclusive := exclusive_guards D h.exclusive hfree
  present := h.present_apply ho
  routed _ _ hu := h.routed_apply hsound ho hu
  holding _ _ _ hu := h.holding_apply ho hfree hret hu
  entries _ _ ha := h.entries_apply ho hret ha
  moving hu := h.moving_apply ho hu
  channels := h.channels_apply
  port := by cases o <;> exact h.port

end Action

/-! ### Every run -/

/-- Every task pays what it owes, and the maps hold the rest. -/
def Settles (D : Deployment) (cfg : ServerConfig) (γ : Task → Dues) : Prop :=
  (∀ t, Pays D t.client Dues.Rest (cfg.tasks t) (γ t)) ∧
    Books D cfg.shared.held cfg.shared.world.state γ

variable {cfg cfg' : ServerConfig} {γ : Task → Dues}

/-- The record that a handler removes is its client's, as the maps have it. -/
theorem yields_returns {held : List (Task × Guard)} {s : ServerState} {t : Task} {o : Op} {r : o.Result}
    {up : ClientId → Bool} (h : Books D held s γ) (hsound : Sound D s) (hret : o.returns up s = some r) :
    o.Yields D t.client (γ t) r := by
  cases o with
  | removeClient c =>
    intro hown
    obtain rfl := Task.eq_conn hown
    obtain rfl : s.clients c = r := Option.some.inj hret
    exact ⟨h.present c, hsound.udpClientId c⟩
  | _ => trivial

theorem settles_step (h : Settles D cfg γ) (hsound : Sound D cfg.shared.world.state)
    (hs : Step (system D) cfg cfg') : ∃ γ', Settles D cfg' γ' := by
  obtain ⟨hpays, hbooks⟩ := h
  cases hs with
  | @act t o next r s' ht he =>
    obtain ⟨up, -, he⟩ := he
    obtain ⟨hfree, hret, rfl⟩ := act_eq_some D he
    have hown := hpays t
    rw [ht] at hown
    refine ⟨Function.update γ t (o.dues (γ t) r), fun u => ?_, hbooks.step hsound hown.1 hfree hret⟩
    dsimp only
    by_cases hu : u = t
    · subst hu
      rw [Function.update_self, Function.update_self]
      exact hown.2 r (yields_returns hbooks hsound hret)
    · rw [Function.update_of_ne hu, Function.update_of_ne hu]
      exact hpays u
  | @start t φ p ht hp =>
    refine ⟨γ, fun u => ?_, hbooks⟩
    dsimp only
    by_cases hu : u = t
    · subst hu
      have hrest := hpays u
      rw [ht] at hrest
      rw [Function.update_self]
      exact pays_starts hp hrest
    · rw [Function.update_of_ne hu]
      exact hpays u

/-- What nobody has put anything into. -/
def Dues.start (present : Bool) : Dues := ⟨present, false, none, none⟩

theorem books_initial : Books D [] (.new D.udpPort) fun t => .start (t = .udp) where
  exclusive _ _ _ _ h := absurd h List.not_mem_nil
  present _ := rfl
  routed _ _ h := nomatch h
  holding _ _ _ h := nomatch h
  entries _ _ h := nomatch h
  moving h := nomatch h
  channels n := by
    unfold ServerState.members ServerState.new
    dsimp only
    split <;> rfl
  port := rfl

theorem settles_of_reaches {P : ServerConfig → ServerConfig → Prop}
    (h : Reaches (system D) P (initial D) cfg) : ∃ γ, Settles D cfg γ := by
  induction h with
  | refl =>
    refine ⟨_, fun t => ?_, books_initial⟩
    cases t with
    | conn c => exact ⟨rfl, rfl, iff_of_false nofun nofun, fun _ => rfl⟩
    | udp => exact ⟨rfl, rfl, iff_of_true rfl rfl, fun _ => rfl⟩
  | step hr hs _ ih =>
    obtain ⟨γ, hγ⟩ := ih
    exact settles_step hγ (sound_of_reaches hr) hs

/-- A connection that has not begun or is done has nothing in the maps. -/
theorem Settles.rest (h : Settles D cfg γ) {c : ClientId} (hc : ¬ Connected cfg c) :
    (γ (.conn c)).present = false ∧ (γ (.conn c)).routed = false ∧ (γ (.conn c)).owed = none := by
  have hrest : ∀ φ, φ ≠ .idle → cfg.tasks (.conn c) = .done φ → (γ (.conn c)).present = false ∧
      (γ (.conn c)).routed = false ∧ (γ (.conn c)).owed = none := by
    intro φ hφ ht
    have hpays := h.1 (.conn c)
    rw [ht] at hpays
    obtain ⟨hpaid, -, hpresent, hrouted⟩ := hpays
    exact ⟨by simpa [hφ] using hpresent, hrouted hφ, hpaid⟩
  unfold Connected at hc
  rw [not_and_or, not_not, not_not] at hc
  rcases hc with hc | hc
  · exact hrest .connecting nofun hc
  · exact hrest .closed nofun hc

/-- **A server that everyone has left is as it was when it started**: in every state that it can
reach, once no connection is left, the maps hold the three channels, without members, and nothing else. -/
theorem deserted_is_new (h : Reaches (system D) (fun _ _ => True) (initial D) cfg)
    (hgone : ∀ c, ¬ Connected cfg c) : cfg.shared.world.state = ServerState.new D.udpPort := by
  obtain ⟨γ, hγ⟩ := settles_of_reaches h
  obtain ⟨_, hout⟩ := outline_holds False (fun _ _ _ h => h.elim) h
  have hbooks := hγ.2
  have hclients : cfg.shared.world.state.clients = fun _ => none := by
    funext c
    have hpresent := hbooks.present c
    rw [(hγ.rest (hgone c)).1] at hpresent
    exact Option.not_isSome_iff_eq_none.mp (by rw [hpresent]; exact Bool.false_ne_true)
  have hids : cfg.shared.world.state.udpIdToClient = fun _ => none := by
    funext u
    refine Option.eq_none_iff_forall_ne_some.mpr fun c hc => ?_
    cases (hγ.rest (hgone c)).2.1.symm.trans (hbooks.routed u c hc)
  have hunlocked : ∀ t, (γ t).holding = none := by
    intro t
    refine Option.eq_none_iff_forall_ne_some.mpr fun ⟨c, a⟩ hc => ?_
    obtain ⟨-, cl, hcl, -⟩ := hbooks.holding t c a hc
    rw [hclients] at hcl
    cases hcl
  have haddrs : cfg.shared.world.state.udpAddrToClient = fun _ => none := by
    funext a
    refine Option.eq_none_iff_forall_ne_some.mpr fun c hc => ?_
    rcases hbooks.entries a c hc with ⟨cl, hcl, -⟩ | ⟨t, ht⟩
    · rw [hclients] at hcl
      cases hcl
    · cases t with
      | conn d => cases (hγ.rest (hgone d)).2.2.symm.trans ht
      | udp =>
        have hlocked := hbooks.moving (by rw [ht]; rfl)
        rw [hunlocked] at hlocked
        cases hlocked
  have hchannels : cfg.shared.world.state.channels = (ServerState.new D.udpPort).channels := by
    funext n
    have hempty : cfg.shared.world.state.members n = .empty := by
      have hnone : ∀ c, c ∉ cfg.shared.world.state.members n := fun c hc =>
        nomatch ((unrouted hout (hgone c)).mem n).mp hc
      have helems := List.eq_nil_iff_forall_not_mem.mpr hnone
      generalize cfg.shared.world.state.members n = ms at helems
      cases ms
      cases helems
      rfl
    rw [hbooks.channels n, hempty]
    rfl
  calc cfg.shared.world.state
      = ⟨cfg.shared.world.state.channels, cfg.shared.world.state.clients,
          cfg.shared.world.state.udpAddrToClient, cfg.shared.world.state.udpIdToClient,
          cfg.shared.world.state.udpPort⟩ := rfl
    _ = ServerState.new D.udpPort := by
      rw [hchannels, hclients, haddrs, hids, hbooks.port]
      rfl

/-- Client "a" of `aloneHeard` moves to another address and closes its connection. -/
def aloneGone : List Move :=
  aloneHeard ++ .datagram (headerOnly 7 1) ⟨30, 40⟩ :: List.replicate 7 (.step .udp true) ++
  .incoming "a" 0 .closed :: List.replicate 12 (.step (.conn "a") true)

/-- The phase of a task with no request in progress. -/
def phaseAt (cfg : ServerConfig) (t : Task) : Option Phase :=
  match cfg.tasks t with
  | .done φ => some φ
  | .act _ _ => none

theorem tasks_of_phaseAt {t : Task} {φ : Phase} (h : phaseAt cfg t = some φ) : cfg.tasks t = .done φ := by
  unfold phaseAt at h
  cases ht : cfg.tasks t with
  | done φ' =>
    rw [ht] at h
    rw [Option.some.inj h]
  | act o next =>
    rw [ht] at h
    cases h

theorem deserted_is_new_aloneGone : ∃ cfg, play oneShard aloneGone (initial oneShard) = some cfg ∧
    cfg.shared.world.state = ServerState.new 9000 := by
  have hplay : ((play oneShard aloneGone (initial oneShard)).map fun cfg => phaseAt cfg (.conn "a")) =
      some (some .closed) := by decide
  obtain ⟨cfg, hcfg, hclosed⟩ := Option.map_eq_some_iff.mp hplay
  obtain ⟨hreach, hothers⟩ := reaches_play (T := [.conn "a", .udp]) (fun m _ => sends_any m) (by decide)
    hcfg .refl fun _ _ => rfl
  refine ⟨cfg, hcfg, deserted_is_new (D := oneShard) (hreach.mono fun _ _ _ => trivial) fun c hc => ?_⟩
  by_cases hca : c = "a"
  · subst hca
    exact hc.2 (tasks_of_phaseAt hclosed)
  · exact hc.1 (hothers (.conn c) (by simpa using hca))

end AudioPlatform.Server
