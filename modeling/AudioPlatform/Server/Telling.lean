import AudioPlatform.Server.Coherence
import AudioPlatform.Server.Roster

/-! What each handler tells the clients.

The handlers are followed once more, now with what they owe. A handler that
changes a member set holds the channel's lock from the moment it reads the set,
so what it tells its client and what it owes the others are the members then. -/
namespace AudioPlatform.Server
open Concurrency

variable (D : Deployment)

/-- A record is stored under its own id. -/
def Named (s : ServerState) : Prop := ∀ c cl, s.clients c = some cl → cl.id = c

/-- Beside what coherence needs: the others leave a task's guards, its client's answer
and the sets it has locked; a task's action is one of the effects. -/
def rosters : Outline Task Phase Watched Debt where
  rely t s s' := (outline D False).rely t s.shared s'.shared ∧
    (∀ c, t = .conn c → s'.pending c = s.pending c) ∧
    (∀ g, (t, g) ∈ s'.shared.held ↔ (t, g) ∈ s.shared.held) ∧
    ∀ n, (t, channelGuard D n true) ∈ s.shared.held → s'.state.members n = s.state.members n
  guar t γ s γ' s' := (outline D False).guar t () s.shared () s'.shared ∧ Named s'.state ∧
    Effect D t γ s γ' s'
  rest t φ γ s := γ.due = [] ∧ ∀ c, t = .conn c → Settled D False c φ s.state ∧ s.pending c = none
  common γ s := (Sound D s.state ∧ Named s.state) ∧ Exclusive s.shared.held ∧
    ∀ m n, m ∈ s.state.members n → Informed γ s m n
  inv s := Sound D s.state ∧ Named s.state
  rely_refl t s := ⟨(outline D False).rely_refl t s.shared, fun _ _ => rfl, fun _ => Iff.rfl,
    fun _ _ => rfl⟩
  rely_trans t _ _ _ h h' := ⟨(outline D False).rely_trans t _ _ _ h.1 h'.1,
    fun c hc => (h'.2.1 c hc).trans (h.2.1 c hc),
    fun g => (h'.2.2.1 g).trans (h.2.2.1 g),
    fun n hn => (h'.2.2.2 n ((h.2.2.1 _).mpr hn)).trans (h.2.2.2 n hn)⟩
  common_inv _ _ h := h.1

variable {D} {c : ClientId} {reg : Option (Option ChannelId × Bool)} {mem : Option ChannelId}
  {pend : Option (ChannelId × MemberSet)} {lock : Option (ChannelId × MemberSet)}
  {s s' : Watched} {γ : Debt} {α : Type}

/-- The judgement of this file, for a handler. -/
abbrev Tells (D : Deployment) (c : ClientId) (post : α → Debt → Watched → Prop) (p : Prog α)
    (γ : Debt) (s : Watched) : Prop :=
  (rosters D).Meets (watched D) (.conn c) post p γ s

/-- What a handler knows: its client's standing, the answer that is due, and the set it
has locked. -/
structure Poised (D : Deployment) (c : ClientId) (reg : Option (Option ChannelId × Bool))
    (mem : Option ChannelId) (pend lock : Option (ChannelId × MemberSet)) (s : Watched) : Prop where
  stands : Stands D False c reg mem false s.state
  named : Named s.state
  pending : s.pending c = pend
  locked : ∀ n ms, lock = some (n, ms) →
    (Task.conn c, channelGuard D n true) ∈ s.shared.held ∧ s.state.members n = ms ∧
      (s.state.channels n).isSome

theorem Poised.rely (h : Poised D c reg mem pend lock s) (hr : (rosters D).rely (.conn c) s s')
    (hi : (rosters D).inv s') : Poised D c reg mem pend lock s' where
  stands := h.stands.rely hr.1 hi.1
  named := hi.2
  pending := (hr.2.1 c rfl).trans h.pending
  locked n ms hl := by
    obtain ⟨hheld, hms, hch⟩ := h.locked n ms hl
    exact ⟨(hr.2.2.1 _).mpr hheld, (hr.2.2.2 n hheld).trans hms, by rw [hr.1.1 n]; exact hch⟩

theorem Poised.unlock (h : Poised D c reg mem pend lock s) : Poised D c reg mem pend none s :=
  ⟨h.stands, h.named, h.pending, fun _ _ hl => nomatch hl⟩

theorem Poised.inv (h : Poised D c reg mem pend lock s) : Sound D s.state ∧ Named s.state :=
  ⟨h.stands.sound, h.named⟩

/-! ### Actions -/

/-- One action of a handler: what it may assume and has to show. -/
theorem tells_act {o : Op} {f : o.Result → Prog α} {post : α → Debt → Watched → Prop}
    (hs : Poised D c reg mem pend lock s)
    (h : ∀ u v r, Poised D c reg mem pend lock u →
      o.returns (fun _ => true) u.state = some r → v.state = o.apply u.state →
      v.sent = o.sent (fun _ => true) u.sent →
      v.shared.held = o.guards D (.conn c) u.state u.shared.held →
      v.pending = o.watch u.state u.pending →
      ∃ γ', (outline D False).guar (.conn c) () u.shared () v.shared ∧ Named v.state ∧
        Effect D (.conn c) γ u γ' v ∧ Tells D c post (f r) γ' v) :
    Tells D c post (.act o f) γ s := by
  rintro u hu hi r v ⟨⟨up, hup, he⟩, hw⟩
  obtain rfl : up = fun _ => true := funext hup
  obtain ⟨_, hret, hv⟩ := act_eq_some D he
  obtain ⟨γ', hg, hn, hx, ht⟩ := h u v r (hs.rely hu hi) hret
    (congrArg (fun x => x.world.state) hv) (congrArg (fun x => x.world.sent) hv)
    (congrArg Shared.held hv) hw
  exact ⟨γ', ⟨hg, hn, hx⟩, ht⟩

/-- An action that changes no names. -/
theorem named_apply {o : Op} (ho : ∀ d cl, o = .insertClient d cl → cl.id = d) {s : ServerState}
    (h : Named s) : Named (o.apply s) := by
  have hupd : ∀ d u, Named (s.updateClient d u) := by
    intro d u e cl hcl
    by_cases hed : e = d
    · subst hed
      rw [clients_updateClient_self] at hcl
      obtain ⟨cl', hcl', rfl⟩ := Option.map_eq_some_iff.mp hcl
      rw [← h e cl' hcl']
      cases u <;> rfl
    · rw [clients_updateClient_of_ne s u hed] at hcl
      exact h e cl hcl
  cases o with
  | updateClient d u => exact hupd d u
  | setClient d u => exact hupd d u
  | insertClient d cl =>
    intro e cl' hcl'
    by_cases hed : e = d
    · subst hed
      have := (clients_putClient_self s e (some cl)).symm.trans hcl'
      cases this
      exact ho e cl rfl
    · exact h e cl' ((clients_putClient_of_ne s hed _).symm.trans hcl')
  | removeClient d =>
    intro e cl' hcl'
    by_cases hed : e = d
    · subst hed
      cases (clients_putClient_self s e none).symm.trans hcl'
    · exact h e cl' ((clients_putClient_of_ne s hed _).symm.trans hcl')
  | _ => exact h

/-- A mute action: members, views and answers stay. -/
theorem mute_apply {o : Op} (ho : o.Mute) (s : ServerState) (n : ChannelId) :
    (o.apply s).members n = s.members n := by
  cases o with
  | insertMember | removeMember => exact ho.elim
  | _ => rfl

theorem mute_view {o : Op} (ho : o.Mute) (sent : ClientId → List ServerMessage) (m : ClientId) :
    viewOf (o.sent (fun _ => true) sent m) = viewOf (sent m) := by
  cases o with
  | send d msg =>
    show viewOf (Function.update sent d (sent d ++ [msg]) m) = _
    by_cases hm : m = d
    · subst hm
      rw [Function.update_self, viewOf_append, receive_other ho]
    · rw [Function.update_of_ne hm]
  | _ => rfl

theorem mute_watch {o : Op} (ho : o.Mute) (s : ServerState)
    (p : ClientId → Option (ChannelId × MemberSet)) : o.watch s p = p := by
  cases o with
  | insertMember => exact ho.elim
  | send d msg =>
    cases msg with
    | channelJoined => exact absurd trivial ho
    | _ => rfl
  | _ => rfl

/-- A mute action releases no member set. -/
theorem mute_guards {o : Op} (ho : o.Mute) {t : Task} {s : ServerState}
    {held : List (Task × Guard)} {n : ChannelId} (h : (t, channelGuard D n true) ∈ held) :
    (t, channelGuard D n true) ∈ o.guards D t s held := by
  have hne : ∀ g : Guard, g ≠ channelGuard D n true → (t, channelGuard D n true) ∈ held.erase (t, g) :=
    fun g hg => (List.mem_erase_of_ne fun he => hg (Prod.mk.inj he).2.symm).mpr h
  cases o with
  | getChannel | getClient | getUdpId =>
    simp only [Op.guards]
    split
    · exact .tail _ h
    · exact h
  | dropChannel k w =>
    obtain rfl : w = false := ho
    exact hne _ fun he => by cases congrArg Guard.write he
  | dropClient k w => exact hne _ fun he => by cases congrArg Guard.table he
  | dropUdpId k => exact hne _ fun he => by cases congrArg Guard.table he
  | _ => exact h

/-- What a mute action of a handler does: nothing to its client, and no member set. -/
theorem mute_step {o : Op} {u v : Watched} (ho : o.Mute) (hu : Poised D c reg mem pend lock u)
    (hstate : v.state = o.apply u.state)
    (hsent : v.sent = o.sent (fun _ => true) u.sent)
    (hheld : v.shared.held = o.guards D (.conn c) u.state u.shared.held)
    (hpend : v.pending = o.watch u.state u.pending) :
    (outline D False).guar (.conn c) () u.shared () v.shared ∧ Effect D (.conn c) γ u γ v ∧
      Poised D c reg mem pend lock v := by
  obtain ⟨hch, hkept, hudp, hsound⟩ := neutral_apply (D := D) ho.neutral u.state
  have hsoundv : Sound D v.state := hstate ▸ hsound hu.stands.sound
  have hmem : ∀ n, v.state.members n = u.state.members n :=
    fun n => by rw [hstate]; exact mute_apply ho u.state n
  have hpend' : v.pending = u.pending := hpend.trans (mute_watch ho _ _)
  refine ⟨⟨fun n => ?_, fun d _ => ?_, fun k hk => ?_, hsoundv⟩, ?_, ?_, ?_, ?_, fun n ms hl => ?_⟩
  · rw [show v.shared.world.state = _ from hstate]
    exact hch n
  · rw [show v.shared.world.state = _ from hstate]
    exact hkept d
  · rw [show v.shared.world.state = _ from hstate] at hk
    exact absurd (congrFun hudp k) hk
  · exact .quiet hmem (fun m => by rw [hsent]; exact mute_view ho u.sent m) hpend'
  · have hk := hkept c
    rw [← hstate] at hk
    refine ⟨hsoundv, hk.reg.trans hu.stands.reg, fun n => (hk.mem n).trans (hu.stands.mem n),
      fun hf => hf.elim⟩
  · rw [hstate]
    refine named_apply (fun d cl he => ?_) hu.named
    subst he
    exact ho.neutral.elim
  · rw [hpend']
    exact hu.pending
  · obtain ⟨hg, hms, hchn⟩ := hu.locked n ms hl
    refine ⟨hheld ▸ mute_guards ho hg, (hmem n).trans hms, ?_⟩
    rw [hstate, hch n]
    exact hchn

theorem tells_mute {o : Op} {f : o.Result → Prog α} {post : α → Debt → Watched → Prop}
    (ho : o.Mute) (hs : Poised D c reg mem pend lock s)
    (h : ∀ u v r, Poised D c reg mem pend lock u →
      o.returns (fun _ => true) u.state = some r → Poised D c reg mem pend lock v →
      Tells D c post (f r) γ v) : Tells D c post (.act o f) γ s :=
  tells_act hs fun u v r hu hret hstate hsent hheld hpend => by
    obtain ⟨hg, hx, hv⟩ := mute_step ho hu hstate hsent hheld hpend
    exact ⟨γ, hg, hv.named, hx, h u v r hu hret hv⟩

theorem tells_done {post : α → Debt → Watched → Prop} {a : α}
    (hs : Poised D c reg mem pend lock s)
    (h : ∀ v, Poised D c reg mem pend lock v → post a γ v) : Tells D c post (.done a) γ s :=
  fun v hv hi => h v (hs.rely hv hi)

theorem tells_bind {β : Type} {p : Prog α} {f : α → Prog β} {post : α → Debt → Watched → Prop}
    {post' : β → Debt → Watched → Prop} (hs : Poised D c reg mem pend lock s)
    (hp : Tells D c post p γ s) (hf : ∀ a γ v, post a γ v → Tells D c post' (f a) γ v) :
    Tells D c post' (p >>= f) γ s :=
  hp.bind hs.inv (fun _ _ _ _ _ _ hg => ⟨hg.1.2.2.2, hg.2.1⟩) fun a γ v _ => hf a γ v

/-- A program of mute actions. -/
theorem tells_all {p : Prog α} (h : p.All Op.Mute) (hs : Poised D c reg mem pend lock s) :
    Tells D c (fun _ γ' v => γ' = γ ∧ Poised D c reg mem pend lock v) p γ s := by
  induction p generalizing s with
  | done a => exact tells_done hs fun _ hv => ⟨rfl, hv⟩
  | act o next ih => exact tells_mute h.1 hs fun _ v r _ _ hv => ih r (h.2 r) hv

/-- Taking the lock of a channel that exists. -/
theorem tells_lock {n : ChannelId} {f : Option Channel → Prog α}
    {post : α → Debt → Watched → Prop} (hs : Poised D c reg mem pend none s)
    (hnone : ∀ v, Poised D c reg mem pend none v → mem ≠ some n → Tells D c post (f none) γ v)
    (hsome : ∀ ch v, Poised D c reg mem pend (some (n, ch.members)) v →
      Tells D c post (f (some ch)) γ v) :
    Tells D c post (.act (.getChannel n true) f) γ s :=
  tells_act hs fun u v r hu hret hstate hsent hheld hpend => by
    obtain ⟨hg, hx, hv⟩ := mute_step (o := .getChannel n true) trivial hu hstate hsent hheld hpend
    have hr : u.state.channels n = r := Option.some.inj hret
    refine ⟨γ, hg, hv.named, hx, ?_⟩
    cases r with
    | none =>
      refine hnone v hv fun hm => ?_
      have := (hu.stands.mem n).mpr hm
      simp [ServerState.members, hr] at this
    | some ch =>
      refine hsome ch v ⟨hv.stands, hv.named, hv.pending, fun k ms hl => ?_⟩
      cases hl
      have hvu : v.state = u.state := hstate
      refine ⟨?_, by rw [hvu, members_eq hr], by rw [hvu, hr]; rfl⟩
      rw [hheld]
      simp [Op.guards, hr]

/-- Releasing it. -/
theorem tells_unlock {n : ChannelId} {f : Unit → Prog α} {post : α → Debt → Watched → Prop}
    (hs : Poised D c reg mem pend lock s)
    (h : ∀ v, Poised D c reg mem pend none v → Tells D c post (f ()) γ v) :
    Tells D c post (.act (.dropChannel n true) f) γ s :=
  tells_act hs fun u v r hu hret hstate hsent hheld hpend => by
    have hvu : v.state = u.state := hstate
    refine ⟨γ, ⟨fun k => ?_, fun d _ => ?_, fun k hk => ?_, ?_⟩, hvu ▸ hu.named,
      .quiet (fun k => by rw [hvu]) (fun m => by rw [hsent]; rfl) hpend,
      h v ⟨hvu ▸ hu.stands, hvu ▸ hu.named, ?_, fun _ _ hl => nomatch hl⟩⟩
    · rw [show v.shared.world.state = _ from hvu]
    · rw [show v.shared.world.state = _ from hvu]
      exact ⟨rfl, fun _ => Iff.rfl⟩
    · exact absurd (by rw [show v.shared.world.state = _ from hvu]) hk
    · exact (hvu ▸ hu.stands.sound : Sound D v.state)
    · rw [hpend]
      exact hu.pending

/-- A handler's write to the record or the route of its client. -/
theorem tells_own {o : Op} {f : o.Result → Prog α} {post : α → Debt → Watched → Prop}
    {reg' : Option (Option ChannelId × Bool)} (hs : Poised D c reg mem pend lock s)
    (hmem : ∀ s n, (o.apply s).members n = s.members n)
    (hsent : ∀ up sent, o.sent up sent = sent) (hwatch : ∀ s p, o.watch s p = p)
    (hheld : ∀ s held, o.guards D (.conn c) s held = held)
    (hname : ∀ d cl, o = .insertClient d cl → cl.id = d)
    (hown : ∀ u, Stands D False c reg mem false u →
      Own D c u (o.apply u) ∧ Stands D False c reg' mem false (o.apply u))
    (h : ∀ u v r, Poised D c reg mem pend lock u → o.returns (fun _ => true) u.state = some r →
      Poised D c reg' mem pend lock v → Tells D c post (f r) γ v) :
    Tells D c post (.act o f) γ s :=
  tells_act hs fun u v r hu hret hstate hsent' hheld' hpend => by
    obtain ⟨hown, hst⟩ := hown u.state hu.stands
    rw [← hstate] at hown hst
    have hmem' : ∀ n, v.state.members n = u.state.members n := fun n => by rw [hstate, hmem]
    have hpend' : v.pending = u.pending := hpend.trans (hwatch _ _)
    have hn : Named v.state := hstate ▸ named_apply hname hu.named
    refine ⟨γ, ⟨hown.channels, fun d hd => hown.kept d fun he => hd (he ▸ rfl), fun k hk => ?_,
      hst.sound⟩, hn, .quiet hmem' (fun m => ?_) hpend',
      h u v r hu hret ⟨hst, hn, ?_, fun n ms hl => ?_⟩⟩
    · exact ⟨c, rfl, hown.routing k hk⟩
    · rw [show v.sent = u.sent from hsent'.trans (hsent _ _)]
    · rw [hpend']
      exact hu.pending
    · obtain ⟨hg, hms, hch⟩ := hu.locked n ms hl
      refine ⟨?_, (hmem' n).trans hms, by rw [hown.channels n]; exact hch⟩
      rw [hheld', hheld]
      exact hg

/-- Listing the client under the channel's lock: its answer and its news are the members
as they are now. -/
theorem tells_insert {n : ChannelId} {ms : MemberSet} {x : Option ChannelId × Bool}
    {f : Bool → Prog α} {post : α → Debt → Watched → Prop} (hdue : γ.due = [])
    (hs : Poised D c (some x) none pend (some (n, ms)) s)
    (h : ∀ v r, Poised D c (some x) (some n) (some (n, ms.insert c)) (some (n, ms.insert c)) v →
      Tells D c post (f r) ⟨true, n, ms.elems⟩ v) :
    Tells D c post (.act (.insertMember n c) f) γ s :=
  tells_act hs fun u v r hu hret hstate hsent hheld hpend => by
    obtain ⟨hg, hms, hch⟩ := hu.locked n ms rfl
    obtain ⟨hown, hst⟩ := own_insertMember hch hu.stands
    have hvu : v.state = u.state.updateMembers n (·.insert c) := hstate
    rw [← hvu] at hown hst
    have hmem : v.state.members n = ms.insert c := by
      rw [hvu, members_updateMembers_self _ hch, hms]
    have hn : Named v.state := by
      rw [hvu]
      exact hu.named
    have hout : ∀ k, c ∉ u.state.members k := fun k hk => nomatch (hu.stands.mem k).mp hk
    have hpend' : v.pending = Function.update u.pending c (some (n, v.state.members n)) := by
      rw [hvu]
      exact hpend
    refine ⟨⟨true, n, ms.elems⟩, ⟨hown.channels, fun d hd => hown.kept d fun he => hd (he ▸ rfl),
      fun k hk => ⟨c, rfl, hown.routing k hk⟩, hst.sound⟩, hn, ?_,
      h v r ⟨hst, hn, by rw [hpend', Function.update_self, hmem], fun k ms' hl => ?_⟩⟩
    · rw [← hms]
      exact .insert n hdue hg hch hout hvu hsent hpend'
    · cases hl
      exact ⟨hheld ▸ hg, hmem, by rw [hown.channels n]; exact hch⟩

/-- Unlisting it: the news goes to the members that remain. -/
theorem tells_remove {n : ChannelId} {ms : MemberSet} {f : Bool → Prog α}
    {post : α → Debt → Watched → Prop} (hdue : γ.due = [])
    (hs : Poised D c reg mem pend (some (n, ms)) s)
    (hin : ∀ v, mem = some n → Poised D c reg none pend (some (n, ms.remove c)) v →
      Tells D c post (f true) ⟨false, n, (ms.remove c).elems⟩ v)
    (hout : ∀ v, mem ≠ some n → Poised D c reg mem pend (some (n, ms)) v →
      Tells D c post (f false) γ v) :
    Tells D c post (.act (.removeMember n c) f) γ s :=
  tells_act hs fun u v r hu hret hstate hsent hheld hpend => by
    obtain ⟨hg, hms, hch⟩ := hu.locked n ms rfl
    obtain ⟨hown, hst⟩ := own_removeMember n hu.stands
    have hvu : v.state = u.state.updateMembers n (·.remove c) := hstate
    have hr : r = decide (c ∈ u.state.members n) := (Option.some.inj hret).symm
    rw [← hvu] at hown hst
    have hmem : v.state.members n = ms.remove c := by
      rw [hvu, members_updateMembers_self _ hch, hms]
    have hguar : (outline D False).guar (.conn c) () u.shared () v.shared :=
      ⟨hown.channels, fun d hd => hown.kept d fun he => hd (he ▸ rfl),
        fun k hk => ⟨c, rfl, hown.routing k hk⟩, hst.sound⟩
    have hn : Named v.state := by
      rw [hvu]
      exact hu.named
    have hpend' : v.pending c = pend := by
      rw [hpend]
      exact hu.pending
    by_cases hm : mem = some n
    · have hc : c ∈ u.state.members n := (hu.stands.mem n).mpr hm
      obtain rfl : r = true := hr.trans (decide_eq_true hc)
      rw [if_pos hm] at hst
      refine ⟨_, hguar, hn, ?_, hin v hm ⟨hst, hn, hpend', fun k ms' hl => ?_⟩⟩
      · rw [← hmem]
        exact .remove n hdue hg hvu hsent hpend
      · cases hl
        exact ⟨hheld ▸ hg, hmem, by rw [hown.channels n]; exact hch⟩
    · have hc : c ∉ u.state.members n := fun hc => hm ((hu.stands.mem n).mp hc)
      obtain rfl : r = false := hr.trans (decide_eq_false hc)
      have hsame : v.state = u.state := hvu.trans (updateMembers_remove_of_notMem hc)
      rw [if_neg hm] at hst
      refine ⟨γ, hguar, hn, .quiet (fun k => by rw [hsame]) (fun m => by rw [hsent]; rfl) hpend,
        hout v hm ⟨hst, hn, hpend', fun k ms' hl => ?_⟩⟩
      cases hl
      exact ⟨hheld ▸ hg, by rw [hsame, hms], by rw [hsame]; exact hch⟩

/-- Under the lock all members are registered, so none is missing from the list. -/
theorem tells_collect {n : ChannelId} {ms : MemberSet} {ids : List ClientId}
    (hids : ∀ m ∈ ids, m ∈ ms) (hs : Poised D c reg mem pend (some (n, ms)) s) :
    Tells D c (fun infos γ' v => γ' = γ ∧ infos.map ChannelMemberInfo.clientId = ids ∧
      Poised D c reg mem pend (some (n, ms)) v) (collectMemberInfo ids) γ s := by
  induction ids generalizing s with
  | nil => exact tells_done hs fun _ hv => ⟨rfl, rfl, hv⟩
  | cons mid rest ih =>
    unfold collectMemberInfo
    refine tells_mute trivial hs fun u v r hu hret hv => ?_
    have hmid : mid ∈ u.state.members n := (hu.locked n ms rfl).2.1 ▸ hids mid (.head rest)
    obtain ⟨cl, hcl⟩ := Option.isSome_iff_exists.mp (hu.stands.sound.registered mid n hmid)
    obtain rfl : r = some cl := (Option.some.inj hret).symm.trans hcl
    refine tells_bind (p := collectMemberInfo rest) hv (ih (fun m hm => hids m (.tail mid hm)) hv)
      fun infos γ' w hw => ?_
    obtain ⟨rfl, hinfos, hw⟩ := hw
    refine tells_done hw fun x hx => ⟨rfl, ?_, hx⟩
    rw [List.map_cons, hinfos, hu.named mid cl hcl]

/-- Telling one recipient after another. `hsend` is what one send does. -/
theorem tells_broadcast {msg : ServerMessage} {b : Bool} {n : ChannelId} {ids : List ClientId}
    (hsend : ∀ m γ u v, γ.joined = b → γ.channel = n → Poised D c reg mem pend lock u →
      v.state = u.state → v.sent = Function.update u.sent m (u.sent m ++ [msg]) →
      v.pending = u.pending → Effect D (.conn c) γ u (γ.paid m) v)
    (hwatch : ∀ m s p, Op.watch (.send m msg) s p = p)
    (hb : γ.joined = b) (hn : γ.channel = n) (hdue : ∀ m ∈ γ.due, m ∈ ids ∧ m ≠ c)
    (hs : Poised D c reg mem pend lock s) :
    Tells D c (fun _ γ' v => γ'.due = [] ∧ Poised D c reg mem pend lock v)
      (broadcastToMembers ids c msg) γ s := by
  induction ids generalizing γ s with
  | nil =>
    refine tells_done hs fun v hv => ⟨?_, hv⟩
    exact List.eq_nil_iff_forall_not_mem.mpr fun m hm => List.not_mem_nil (hdue m hm).1
  | cons mid rest ih =>
    have hpaid : ∀ m ∈ (γ.paid mid).due, m ∈ rest ∧ m ≠ c := by
      intro m hm
      obtain ⟨hm, hne⟩ := List.mem_filter.mp hm
      obtain ⟨hmem, hmc⟩ := hdue m hm
      exact ⟨(List.mem_cons.mp hmem).resolve_left (of_decide_eq_true hne), hmc⟩
    unfold broadcastToMembers
    split
    · refine tells_act hs fun u v r hu hret hstate hsent hheld hpend => ?_
      obtain ⟨hg, hx, hv⟩ := mute_step (o := .getClient mid false) trivial hu hstate hsent
        hheld hpend
      cases r with
      | none =>
        -- Whoever is no longer registered is in no channel.
        have hout : ∀ k, mid ∉ u.state.members k := fun k hk => by
          have := hu.stands.sound.registered mid k hk
          rw [show u.state.clients mid = none from Option.some.inj hret] at this
          cases this
        exact ⟨γ.paid mid, hg, hv.named, .skip mid hout hstate hsent hpend,
          ih hb hn hpaid hv⟩
      | some cl =>
        refine ⟨γ, hg, hv.named, hx, ?_⟩
        refine tells_act hv fun u v r hu hret hstate hsent hheld hpend => ?_
        have hvu : v.state = u.state := hstate
        have hpend' : v.pending = u.pending := hpend.trans (hwatch mid _ _)
        have hpv : Poised D c reg mem pend lock v := by
          refine ⟨hvu ▸ hu.stands, hvu ▸ hu.named, by rw [hpend']; exact hu.pending,
            fun k ms hl => ?_⟩
          rw [hvu, hheld]
          exact hu.locked k ms hl
        refine ⟨γ.paid mid, ⟨fun k => ?_, fun d _ => ?_, fun k hk => ?_, hpv.stands.sound⟩, hpv.named,
          hsend mid γ u v hb hn hu hvu hsent hpend', ?_⟩
        · rw [show v.shared.world.state = _ from hvu]
        · rw [show v.shared.world.state = _ from hvu]
          exact ⟨rfl, fun _ => Iff.rfl⟩
        · exact absurd (by rw [show v.shared.world.state = _ from hvu]) hk
        · exact tells_mute trivial hpv fun _ w _ _ _ hw => ih hb hn hpaid hw
    · rename_i hmid
      refine ih hb hn (fun m hm => ?_) hs
      obtain ⟨hmem, hmc⟩ := hdue m hm
      exact ⟨(List.mem_cons.mp hmem).resolve_left fun he => hmc (he.trans (not_not.mp hmid)), hmc⟩

/-! ### Operations -/

/-- The handler owes nothing, and its client knows what it is to know. -/
def Idle (D : Deployment) (c : ClientId) (γ : Debt) (s : Watched) : Prop :=
  γ.due = [] ∧ ∃ n b, (b = true → n ≠ none) ∧ Poised D c (some (n, b)) n none none s

theorem idle_of {n : Option ChannelId} {b : Bool} (hb : b = true → n ≠ none) (hdue : γ.due = [])
    (hs : Poised D c (some (n, b)) n none lock s) : Idle D c γ s :=
  ⟨hdue, n, b, hb, hs.unlock⟩

/-- A join succeeds with the answer that is due, or leaves everything as it was. -/
structure JoinEnds (D : Deployment) (c : ClientId) (n : ChannelId)
    (r : Except String (List ChannelMemberInfo)) (γ : Debt) (s : Watched) : Prop where
  due : γ.due = []
  error : ∀ e, r = .error e → Idle D c γ s
  ok : ∀ infos, r = .ok infos → ∃ S : MemberSet,
    (∀ y, y ∈ infos.map ChannelMemberInfo.clientId ↔ y ∈ S) ∧
    Poised D c (some (some n, false)) (some n) (some (n, S)) none s

theorem joinEnds_error {n : ChannelId} {e : String} (h : Idle D c γ s) :
    JoinEnds D c n (.error e) γ s :=
  ⟨h.1, fun _ _ => h, fun _ he => nomatch he⟩

theorem tells_joinChannel (n : ChannelId) (hs : Idle D c γ s) :
    Tells D c (fun r γ' v => JoinEnds D c n r γ' v) (joinChannel c n) γ s := by
  obtain ⟨hdue, m, b, hb, hs⟩ := hs
  refine tells_lock hs (fun v hv _ => ?_) fun ch v hv => ?_
  · exact tells_done hv fun w hw => joinEnds_error (idle_of hb hdue hw)
  refine tells_mute trivial hv fun u w r hu hret hw => ?_
  obtain ⟨cl, hcl, hclm, -⟩ := hu.stands.client
  obtain rfl : r = some cl := (Option.some.inj hret).symm.trans hcl
  dsimp only at hclm
  subst hclm
  dsimp only [Program.bind]
  cases hm : cl.channelId with
  | some current =>
    rw [hm] at hw hb
    exact tells_unlock hw fun x hx => tells_done hx fun y hy => joinEnds_error (idle_of hb hdue hy)
  | none =>
    rw [hm] at hw hb
    obtain rfl : b = false := by
      cases b
      · rfl
      · exact absurd rfl (hb rfl)
    refine tells_bind (p := collectMemberInfo _) hw (tells_collect (fun _ hm => hm) hw)
      fun infos γ' x hx => ?_
    obtain ⟨rfl, hinfos, hx⟩ := hx
    have hout : c ∉ ch.members := by
      rw [← (hx.locked n _ rfl).2.1]
      exact fun hc => nomatch (hx.stands.mem n).mp hc
    refine tells_insert hdue hx fun y _ hy => ?_
    refine tells_own (o := .updateClient c (.channelId (some n))) hy (fun _ _ => rfl)
      (fun _ _ => rfl) (fun _ _ => rfl) (fun _ _ => rfl) (fun _ _ he => by cases he)
      (fun u hu => ⟨own_updateClient u c _, stands_setChannel (some n) hu⟩)
      fun u z r hu hret hz => ?_
    obtain ⟨cl', hcl', -, -⟩ := hu.stands.client
    have hname : cl'.id = c := hu.named c cl' hcl'
    obtain rfl : r = some cl' := (Option.some.inj hret).symm.trans hcl'
    refine tells_mute trivial hz fun u w ids hu hret hw => ?_
    have hids : ids = (ch.members.insert c).elems := by
      rw [← (hu.locked n _ rfl).2.1]
      exact (Option.some.inj hret).symm
    refine tells_unlock hw fun x hx => ?_
    have hnews : ∀ m ∈ ch.members.elems, m ∈ ids ∧ m ≠ c := fun m hm =>
      ⟨hids ▸ (MemberSet.mem_insert _ _ _).mpr (.inr hm), fun he => hout (he ▸ hm)⟩
    refine tells_bind (p := broadcastToMembers _ _ _) hx (tells_broadcast (b := true) (n := n)
      (fun d γ u v hj hn hu hst hse hpe => ?_) (fun _ _ _ => rfl) rfl rfl hnews hx)
      fun _ γ' y hy => ?_
    · subst hn
      rw [hname] at hse
      exact .tellJoined d cl'.userName hj ((hu.stands.mem _).mpr rfl) hst hse hpe
    · obtain ⟨hdue', hy⟩ := hy
      refine tells_mute trivial hy fun u z r hu hret hz => ?_
      obtain ⟨cl'', hcl'', -, -⟩ := hu.stands.client
      obtain rfl : r = some cl'' := (Option.some.inj hret).symm.trans hcl''
      refine tells_done hz fun w hw => ⟨hdue', fun _ he => (nomatch he), fun infos' he => ?_⟩
      cases he
      refine ⟨_, fun k => ?_, hw⟩
      rw [List.map_append, hinfos, MemberSet.mem_insert, List.mem_append]
      simp [hu.named c cl'' hcl'', or_comm]

/-- The answer to a join. -/
theorem tells_answer {n : ChannelId} {S : MemberSet} {infos : List ChannelMemberInfo}
    (hdue : γ.due = []) (hinfos : ∀ y, y ∈ infos.map ChannelMemberInfo.clientId ↔ y ∈ S)
    (hs : Poised D c (some (some n, false)) (some n) (some (n, S)) none s) :
    Tells D c (fun _ γ' v => Idle D c γ' v) (sendToClient c (.channelJoined n infos)) γ s := by
  refine tells_mute trivial hs fun u v r hu hret hv => ?_
  obtain ⟨cl, hcl, -, -⟩ := hu.stands.client
  obtain rfl : r = some cl := (Option.some.inj hret).symm.trans hcl
  refine tells_act hv fun u v r hu hret hstate hsent hheld hpend => ?_
  have hvu : v.state = u.state := hstate
  refine ⟨γ, ⟨fun k => ?_, fun d _ => ?_, fun k hk => ?_, ?_⟩, hvu ▸ hu.named,
    .answer n S infos hu.pending hinfos hvu hsent hpend, ?_⟩
  · rw [show v.shared.world.state = _ from hvu]
  · rw [show v.shared.world.state = _ from hvu]
    exact ⟨rfl, fun _ => Iff.rfl⟩
  · exact absurd (by rw [show v.shared.world.state = _ from hvu]) hk
  · exact (hvu ▸ hu.stands.sound : Sound D v.state)
  · have hpv : Poised D c (some (some n, false)) (some n) none none v :=
      ⟨hvu ▸ hu.stands, hvu ▸ hu.named, by rw [hpend]; exact Function.update_self c none u.pending,
        fun _ _ hl => nomatch hl⟩
    exact tells_mute trivial hpv fun _ w _ _ _ hw => tells_done hw fun x hx =>
      idle_of (b := false) (by simp) hdue hx

/-- Every other message to the client itself. -/
theorem tells_reply {msg : ServerMessage} (hmsg : ¬ msg.OnRoster) (hs : Idle D c γ s) :
    Tells D c (fun _ γ' v => Idle D c γ' v) (sendToClient c msg) γ s := by
  obtain ⟨hdue, n, b, hb, hs⟩ := hs
  refine (tells_all (all_sendToClient ⟨trivial, hmsg, trivial⟩) hs).mono fun _ γ' v _ hv => ?_
  obtain ⟨rfl, hv⟩ := hv
  exact idle_of hb hdue hv

/-- Stopping in channel `n`: a client listed there no longer speaks. -/
theorem tells_stopTransmit {m : Option ChannelId} {b : Bool} (n : ChannelId)
    (hb : b = true → m ≠ none) (hs : Poised D c (some (m, b)) m none none s) :
    Tells D c (fun _ γ' v => γ' = γ ∧ ∃ b', (b' = true → m ≠ none ∧ m ≠ some n) ∧
      Poised D c (some (m, b')) m none none v) (stopTransmit c n) γ s := by
  -- Where the client is not in `n`, nothing is written.
  have elsewhere : ∀ {w : Watched} {e : Except String Unit}, m ≠ some n →
      Poised D c (some (m, b)) m none none w →
      Tells D c (fun _ γ' v => γ' = γ ∧ ∃ b', (b' = true → m ≠ none ∧ m ≠ some n) ∧
        Poised D c (some (m, b')) m none none v) (.done e) γ w :=
    fun hm hw => tells_done hw fun x hx => ⟨rfl, b, fun h => ⟨hb h, hm⟩, hx⟩
  refine tells_mute trivial hs fun u v r hu hr hv => ?_
  cases r with
  | none =>
    refine elsewhere (fun hm => ?_) hv
    have := (hu.stands.mem n).mpr hm
    simp [ServerState.members, show u.state.channels n = none from Option.some.inj hr] at this
  | some channel =>
    have hlisted : c ∈ channel.members ↔ m = some n := hu.stands.listed (Option.some.inj hr)
    refine tells_mute rfl hv fun _ w _ _ _ hw => ?_
    dsimp only
    split
    · rename_i hout
      exact elsewhere (fun hm => hout (hlisted.mpr hm)) hw
    · refine tells_own (o := .updateClient c (.speaking false)) hw (fun _ _ => rfl)
        (fun _ _ => rfl) (fun _ _ => rfl) (fun _ _ => rfl) (fun _ _ he => by cases he)
        (fun u hu => ⟨own_updateClient u c _, stands_setSpeaking false hu⟩)
        fun u x r _ _ hx => ?_
      have stopped : ∀ {p : Prog (Except String Unit)}, p.All Op.Mute →
          Tells D c (fun _ γ' v => γ' = γ ∧ ∃ b', (b' = true → m ≠ none ∧ m ≠ some n) ∧
            Poised D c (some (m, b')) m none none v) p γ x :=
        fun hp => (tells_all hp hx).mono fun _ _ y _ hy => ⟨hy.1, false, by simp, hy.2⟩
      cases r with
      | none => exact stopped trivial
      | some client =>
        apply stopped
        dsimp only [Program.bind]
        split
        · exact (all_broadcast fun _ => ⟨trivial, id, trivial⟩).bind fun _ => trivial
        · trivial

theorem tells_startTransmit (n : ChannelId) (hs : Idle D c γ s) :
    Tells D c (fun _ γ' v => Idle D c γ' v) (startTransmit c n) γ s := by
  obtain ⟨hdue, m, b, hb, hs⟩ := hs
  refine tells_mute trivial hs fun u v r hu hr hv => ?_
  cases r with
  | none => exact tells_done hv fun _ hw => idle_of hb hdue hw
  | some channel =>
    have hlisted : c ∈ channel.members ↔ m = some n := hu.stands.listed (Option.some.inj hr)
    refine tells_mute rfl hv fun _ w _ _ _ hw => ?_
    dsimp only
    split
    · exact tells_done hw fun _ hx => idle_of hb hdue hx
    · rename_i hin
      obtain rfl := hlisted.mp (not_not.mp hin)
      refine tells_own (o := .updateClient c (.speaking true)) hw (fun _ _ => rfl)
        (fun _ _ => rfl) (fun _ _ => rfl) (fun _ _ => rfl) (fun _ _ he => by cases he)
        (fun u hu => ⟨own_updateClient u c _, stands_setSpeaking true hu⟩)
        fun _ x _ _ _ hx => ?_
      have hall : (broadcastToMembers channel.members.elems c (.userSpeaking n c) >>= fun _ =>
          .done (.ok ()) : Prog (Except String Unit)).All Op.Mute :=
        (all_broadcast fun _ => ⟨trivial, id, trivial⟩).bind fun _ => trivial
      refine (tells_all hall hx).mono fun _ γ' y _ hy => ?_
      obtain ⟨rfl, hy⟩ := hy
      exact idle_of (b := true) (by simp) hdue hy

/-- Leaving channel `n`: a client listed there is listed nowhere, and all are told. -/
theorem tells_leaveChannel {m : Option ChannelId} {b : Bool} (n : ChannelId) (hdue : γ.due = [])
    (hb : b = true → m ≠ none) (hs : Poised D c (some (m, b)) m none none s) :
    Tells D c (fun r γ' v => γ'.due = [] ∧ (r = .ok () → m = some n) ∧
      ∃ b', (b' = true → m ≠ none ∧ m ≠ some n) ∧
        Poised D c (some (if m = some n then none else m, b')) (if m = some n then none else m)
          none none v) (leaveChannel c n) γ s := by
  refine tells_bind hs (tells_stopTransmit n hb hs) fun _ γ' v hv => ?_
  obtain ⟨rfl, b', hb', hv⟩ := hv
  refine tells_lock hv (fun w hw hm => ?_) fun ch w hw => ?_
  · rw [if_neg hm]
    exact tells_done hw fun x hx => ⟨hdue, fun he => (nomatch he), b', hb', hx⟩
  refine tells_remove hdue hw (fun x hm hx => ?_) fun x hm hx => ?_
  · subst hm
    rw [if_pos rfl]
    obtain rfl : b' = false := by
      cases b'
      · rfl
      · exact absurd rfl (hb' rfl).2
    refine tells_mute trivial hx fun u y ids hu hret hy => ?_
    have hids : ids = (ch.members.remove c).elems := by
      rw [← (hu.locked n _ rfl).2.1]
      exact (Option.some.inj hret).symm
    refine tells_unlock hy fun z hz => ?_
    refine tells_own (o := .updateClient c (.channelId none)) hz (fun _ _ => rfl)
      (fun _ _ => rfl) (fun _ _ => rfl) (fun _ _ => rfl) (fun _ _ he => by cases he)
      (fun u hu => ⟨own_updateClient u c _, stands_setChannel none hu⟩)
      fun _ z _ _ _ hz => ?_
    have hnews : ∀ d ∈ (ch.members.remove c).elems, d ∈ ids ∧ d ≠ c := fun d hd =>
      ⟨hids ▸ hd, ((MemberSet.mem_remove _ _ _).mp hd).1⟩
    refine tells_bind (p := broadcastToMembers _ _ _) hz (tells_broadcast (b := false) (n := n)
      (fun d γ' u' v' hj hn hu' hst hse hpe => ?_) (fun _ _ _ => rfl) rfl rfl hnews hz)
      fun _ γ' w hw => ?_
    · subst hn
      exact .tellLeft d hj (fun k hk => nomatch (hu'.stands.mem k).mp hk) hst hse hpe
    · exact tells_done hw.2 fun y hy => ⟨hw.1, fun _ => rfl, false, by simp, hy⟩
  · rw [if_neg hm]
    exact tells_unlock hx fun y hy => tells_done hy fun z hz =>
      ⟨hdue, fun he => (nomatch he), b', hb', hz⟩

/-- The answer to a leave. -/
theorem tells_depart {n : ChannelId} (hdue : γ.due = [])
    (hs : Poised D c (some (none, false)) none none none s) :
    Tells D c (fun _ γ' v => Idle D c γ' v) (sendToClient c (.channelLeft n)) γ s := by
  refine tells_mute trivial hs fun u v r hu hret hv => ?_
  have hb : false = true → (none : Option ChannelId) ≠ none := by simp
  cases r with
  | none => exact tells_done hv fun _ hw => idle_of hb hdue hw
  | some cl =>
    refine tells_act hv fun u v r hu hret hstate hsent hheld hpend => ?_
    have hvu : v.state = u.state := hstate
    refine ⟨γ, ⟨fun k => ?_, fun d _ => ?_, fun k hk => ?_, ?_⟩, hvu ▸ hu.named,
      .depart n (fun k hk => nomatch (hu.stands.mem k).mp hk) hvu hsent hpend, ?_⟩
    · rw [show v.shared.world.state = _ from hvu]
    · rw [show v.shared.world.state = _ from hvu]
      exact ⟨rfl, fun _ => Iff.rfl⟩
    · exact absurd (by rw [show v.shared.world.state = _ from hvu]) hk
    · exact (hvu ▸ hu.stands.sound : Sound D v.state)
    · have hpv : Poised D c (some (none, false)) none none none v :=
        ⟨hvu ▸ hu.stands, hvu ▸ hu.named, by rw [hpend]; exact hu.pending, fun _ _ hl => nomatch hl⟩
      exact tells_mute trivial hpv fun _ w _ _ _ hw => tells_done hw fun x hx => idle_of hb hdue hx

/-- What holds of a handler at rest. -/
def Rested (D : Deployment) (c : ClientId) (φ : Phase) (γ : Debt) (s : Watched) : Prop :=
  γ.due = [] ∧ ∀ d, Task.conn c = .conn d → Settled D False d φ s.state ∧ s.pending d = none

theorem rested_idle (h : Idle D c γ s) : Rested D c .idle γ s := by
  obtain ⟨hdue, n, b, hb, hs⟩ := h
  refine ⟨hdue, fun d hd => ?_⟩
  cases hd
  exact ⟨⟨n, b, hb, hs.stands.sound, hs.stands.reg, hs.stands.mem, fun hf => hf.elim⟩, hs.pending⟩

theorem rested_closed (hdue : γ.due = []) (hs : Poised D c none none none lock s) :
    Rested D c .closed γ s := by
  refine ⟨hdue, fun d hd => ?_⟩
  cases hd
  exact ⟨hs.stands, hs.pending⟩

/-- The handler owes nothing, and nothing is known of its client. -/
def Gone (D : Deployment) (c : ClientId) (γ : Debt) (s : Watched) : Prop :=
  γ.due = [] ∧ Poised D c none none none none s

theorem tells_removeRecord {b : Bool} (hdue : γ.due = [])
    (hs : Poised D c (some (none, b)) none none none s) :
    Tells D c (fun _ γ' v => Gone D c γ' v) (removeRecord c) γ s := by
  refine tells_own (o := .removeClient c) hs (fun _ _ => rfl) (fun _ _ => rfl) (fun _ _ => rfl)
    (fun _ _ => rfl) (fun _ _ he => by cases he) (fun _ hu => own_removeClient hu)
    fun u x r hu hret hx => ?_
  obtain ⟨cl, hcl, -, -⟩ := hu.stands.client
  obtain rfl : r = some cl := (Option.some.inj hret).symm.trans hcl
  have hid : cl.udpClientId = D.deriveUdpId c := hu.stands.sound.udpClientId c cl hcl
  have unroute : ∀ y, Poised D c none none none none y →
      Tells D c (fun _ γ' v => Gone D c γ' v) (perform (.removeUdpId cl.udpClientId)) γ y := by
    intro y hy
    rw [hid]
    exact tells_own (o := .removeUdpId _) hy (fun _ _ => rfl) (fun _ _ => rfl) (fun _ _ => rfl)
      (fun _ _ => rfl) (fun _ _ he => by cases he) (fun _ hu => own_putUdpId false hu)
      fun _ z _ _ _ hz => tells_done hz fun _ hw => ⟨hdue, hw⟩
  dsimp only [Program.bind]
  split
  · exact tells_mute trivial hx fun _ y _ _ _ hy => unroute y hy
  · exact unroute x hx

theorem tells_removeClient (hs : Idle D c γ s) :
    Tells D c (fun _ γ' v => Gone D c γ' v) (removeClient c) γ s := by
  obtain ⟨hdue, m, b, hb, hs⟩ := hs
  refine tells_mute trivial hs fun u v r hu hret hv => ?_
  obtain ⟨cl, hcl, rfl, -⟩ := hu.stands.client
  obtain rfl : r = some cl := (Option.some.inj hret).symm.trans hcl
  dsimp only [Program.bind, Option.bind_some]
  cases hm : cl.channelId with
  | none =>
    rw [hm] at hv
    exact tells_removeRecord hdue hv
  | some n =>
    rw [hm] at hv
    refine tells_bind hv (tells_leaveChannel n hdue (by simp) hv) fun _ γ' w hw => ?_
    obtain ⟨hdue', -, b', -, hw⟩ := hw
    rw [if_pos rfl] at hw
    exact tells_removeRecord hdue' hw

theorem tells_authenticate (token : String) (hdue : γ.due = [])
    (hs : Poised D c none none none none s) :
    Tells D c (fun φ γ' v => Rested D c φ γ' v)
      (authenticate D.udpPort (D.deriveUdpId c) c token) γ s := by
  refine tells_mute id hs fun u v r hu hret hv => ?_
  cases r with
  | false => exact tells_done hv fun _ hw => rested_closed hdue hw
  | true =>
    refine tells_own (o := .insertClient c _) hv (fun _ _ => rfl) (fun _ _ => rfl) (fun _ _ => rfl)
      (fun _ _ => rfl) (fun _ _ he => by cases he; rfl) (fun _ hu => own_insertClient _ hu)
      fun _ w _ _ _ hw => ?_
    refine tells_own (o := .insertUdpId _ c) hw (fun _ _ => rfl) (fun _ _ => rfl) (fun _ _ => rfl)
      (fun _ _ => rfl) (fun _ _ he => by cases he) (fun _ hu => ?_)
      fun _ x _ _ _ (hx : Poised D c (some (none, false)) none none none x) => ?_
    · obtain ⟨hown, hst⟩ := own_putUdpId true hu
      exact ⟨hown, hst.sound, hst.reg, hst.mem, fun hf => hf.elim⟩
    · exact tells_done hx fun _ hy => rested_idle (idle_of (b := false) (by simp) hdue hy)

/-- **Every request** pays its debts. -/
theorem tells_handleIncoming (now : BitVec 64) (m : Incoming) (hs : Idle D c γ s) :
    Tells D c (fun φ γ' v => Rested D c φ γ' v) (handleIncoming now c m) γ s := by
  have hdone : ∀ {γ v}, Idle D c γ v →
      Tells D c (fun φ γ' v => Rested D c φ γ' v) (.done Phase.idle) γ v := by
    intro γ v hv
    obtain ⟨hdue, n, b, hb, hv⟩ := hv
    exact tells_done hv fun w hw => rested_idle (idle_of hb hdue hw)
  have hreply : ∀ {γ v} {p : Prog Unit}, Idle D c γ v →
      Tells D c (fun _ γ' v => Idle D c γ' v) p γ v →
      Tells D c (fun φ γ' v => Rested D c φ γ' v) (p >>= fun _ => .done Phase.idle) γ v := by
    intro γ v p hv hp
    obtain ⟨hdue, n, b, hb, hv⟩ := hv
    exact tells_bind hv hp fun _ _ _ hw => hdone hw
  have hseq : ∀ {β : Type} {p : Prog β} {f : β → Prog Phase} {post : β → Debt → Watched → Prop},
      Tells D c post p γ s → (∀ r γ v, post r γ v →
        Tells D c (fun φ γ' v => Rested D c φ γ' v) (f r) γ v) →
      Tells D c (fun φ γ' v => Rested D c φ γ' v) (p >>= f) γ s := by
    intro β p f post hp hf
    obtain ⟨hdue, n, b, hb, hs⟩ := hs
    exact tells_bind hs hp hf
  cases m with
  | message m =>
    cases m with
    | auth token => exact hreply hs (tells_reply id hs)
    | joinChannel n =>
      refine hseq (tells_joinChannel n hs) fun r γ v hv => ?_
      cases r with
      | error e => exact hreply (hv.error e rfl) (tells_reply id (hv.error e rfl))
      | ok infos =>
        obtain ⟨S, hinfos, hp⟩ := hv.ok infos rfl
        exact tells_bind (p := sendToClient c _) hp (tells_answer hv.due hinfos hp)
          fun _ _ _ hw => hdone hw
    | leaveChannel n =>
      obtain ⟨hdue, m, b, hb, hs⟩ := hs
      refine hseq (tells_leaveChannel n hdue hb hs) fun r γ v hv => ?_
      obtain ⟨hdue', hok, b', hb', hv⟩ := hv
      cases r with
      | error e =>
        have hidle : Idle D c γ v := by
          refine idle_of (fun h => ?_) hdue' hv
          rw [if_neg (hb' h).2]
          exact (hb' h).1
        exact hreply hidle (tells_reply id hidle)
      | ok u =>
        obtain rfl := hok rfl
        obtain rfl : b' = false := by
          cases b'
          · rfl
          · exact absurd rfl (hb' rfl).2
        rw [if_pos rfl] at hv
        exact tells_bind (p := sendToClient c _) hv (tells_depart hdue' hv) fun _ _ _ hw => hdone hw
    | startTransmit n =>
      refine hseq (tells_startTransmit n hs) fun r γ v hv => ?_
      cases r with
      | error e => exact hreply hv (tells_reply id hv)
      | ok => exact hdone hv
    | stopTransmit n =>
      obtain ⟨hdue, m, b, hb, hs⟩ := hs
      refine hseq (tells_stopTransmit n hb hs) fun r γ v hv => ?_
      obtain ⟨rfl, b', hb', hv⟩ := hv
      have hidle := idle_of (fun h => (hb' h).1) hdue hv
      cases r with
      | error e => exact hreply hidle (tells_reply id hidle)
      | ok => exact hdone hidle
    | ping timestamp => exact hreply hs (tells_reply id hs)
  | invalid e => exact hreply hs (tells_reply id hs)
  | closed =>
    exact hseq (tells_removeClient hs) fun _ γ v hv =>
      tells_done hv.2 fun w hw => rested_closed hv.1 hw

end AudioPlatform.Server
