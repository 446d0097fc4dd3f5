import AudioPlatform.Server.Standing

/-! What clients believe about their channel.

A client is told the members once, when it joins, and the changes after that. The
members are those at the moment it was listed, but they are sent to it at the end
of its request; what changes in between is sent by other tasks, and may come
first. `watched` records for each client that has been listed and not answered
who was listed then, `Orderly` says that no news it does not know of overtakes its
answer, and the invariant is that a client knows the members but for the news
that some handler still owes it. -/
namespace AudioPlatform.Server
open Concurrency

variable (D : Deployment)

/-- What a client makes of the messages it has received. -/
structure View where
  channel : Option ChannelId
  roster : List ClientId
  deriving DecidableEq, Repr

def View.receive (v : View) : ServerMessage → View
  | .channelJoined n members => ⟨some n, members.map ChannelMemberInfo.clientId⟩
  | .userJoined n x _ => if v.channel = some n then { v with roster := v.roster.insert x } else v
  | .userLeft _ x => { v with roster := v.roster.filter (· ≠ x) }
  | .channelLeft _ => ⟨none, []⟩
  | _ => v

def viewOf (msgs : List ServerMessage) : View := msgs.foldl View.receive ⟨none, []⟩

@[simp] theorem viewOf_append (msgs : List ServerMessage) (msg : ServerMessage) :
    viewOf (msgs ++ [msg]) = (viewOf msgs).receive msg := by
  simp [viewOf]

theorem receive_other {msg : ServerMessage} (h : ¬ msg.OnRoster) (v : View) :
    v.receive msg = v := by
  cases msg <;> first | rfl | exact absurd trivial h

/-- The shared state, and for each client that is listed in a channel and has not been
sent its `channelJoined`, that channel and who was listed in it when the client was. -/
structure Watched where
  shared : Shared
  pending : ClientId → Option (ChannelId × MemberSet)

abbrev Watched.state (s : Watched) : ServerState := s.shared.world.state
abbrev Watched.sent (s : Watched) : ClientId → List ServerMessage := s.shared.world.sent

def Op.watch (o : Op) (s : ServerState) (pending : ClientId → Option (ChannelId × MemberSet)) :
    ClientId → Option (ChannelId × MemberSet) :=
  match o with
  | .insertMember n c =>
    Function.update pending c (some (n, (s.updateMembers n (·.insert c)).members n))
  | .send c (.channelJoined _ _) => Function.update pending c none
  | _ => pending

/-- The server whose sends succeed, watched. -/
def watched : System Task Op Op.Result Phase Watched where
  exec t o s r s' := (delivering D).exec t o s.shared r s'.shared ∧
    s'.pending = o.watch s.state s.pending
  starts := Starts D

abbrev WatchedConfig := Config Task Op Op.Result Phase Watched

def watchedInitial : WatchedConfig where
  shared := ⟨(initial D).shared, fun _ => none⟩
  tasks := (initial D).tasks

/-- No news overtakes an answer that does not contain it: while a client's `channelJoined`
is due, it is told of nobody's joining who was not listed when it was, nor of anybody's
leaving who was. -/
def Orderly (c c' : WatchedConfig) : Prop :=
  ∀ m n S, c.shared.pending m = some (n, S) → ∀ x,
    (∀ name, c'.shared.sent m = c.shared.sent m ++ [.userJoined n x name] → x ∈ S) ∧
    (c'.shared.sent m = c.shared.sent m ++ [.userLeft n x] → x ∉ S)

/-! ### News that is owed -/

/-- The news a handler has still to send: that its client joined or left `channel`, to the
clients in `due`. -/
structure Debt where
  joined : Bool
  channel : ChannelId
  due : List ClientId

def Debt.paid (γ : Debt) (m : ClientId) : Debt := { γ with due := γ.due.filter (· ≠ m) }

def Owes (γ : Debt) (m : ClientId) (n : ChannelId) : Prop := m ∈ γ.due ∧ γ.channel = n

theorem owes_paid {γ : Debt} {m m' : ClientId} {n : ChannelId} :
    Owes (γ.paid m) m' n ↔ Owes γ m' n ∧ m' ≠ m := by
  unfold Owes Debt.paid
  rw [List.mem_filter, decide_eq_true_iff, and_right_comm]

theorem not_owes {γ : Debt} {m : ClientId} {n : ChannelId} (h : γ.due = []) : ¬ Owes γ m n :=
  fun ho => List.not_mem_nil (h ▸ ho.1)

/-- What a client will believe once its answer, if one is due, has been sent. -/
def Watched.belief (s : Watched) (m : ClientId) : View :=
  match s.pending m with
  | some (n, S) => ⟨some n, S.elems⟩
  | none => viewOf (s.sent m)

theorem belief_congr {s s' : Watched} {m : ClientId} (hp : s'.pending m = s.pending m)
    (hs : viewOf (s'.sent m) = viewOf (s.sent m)) : s'.belief m = s.belief m := by
  unfold Watched.belief
  rw [hp, hs]

/-- A member of `n` knows the members of `n`, but for the news it is owed. -/
def Informed (γ : Task → Debt) (s : Watched) (m : ClientId) (n : ChannelId) : Prop :=
  (s.belief m).channel = some n ∧
    ∀ x, ¬ Owes (γ (.conn x)) m n → (x ∈ (s.belief m).roster ↔ x ∈ s.state.members n)

/-- What one action of a task does to members, answers and debts. -/
inductive Effect (D : Deployment) : Task → Debt → Watched → Debt → Watched → Prop where
  | quiet {t : Task} {γ : Debt} {s s' : Watched} :
    (∀ n, s'.state.members n = s.state.members n) →
    (∀ m, viewOf (s'.sent m) = viewOf (s.sent m)) → s'.pending = s.pending → Effect D t γ s γ s'
  | insert {x : ClientId} {γ : Debt} {s s' : Watched} (n : ChannelId) : γ.due = [] →
    (Task.conn x, channelGuard D n true) ∈ s.shared.held → (s.state.channels n).isSome →
    (∀ k, x ∉ s.state.members k) → s'.state = s.state.updateMembers n (·.insert x) →
    s'.sent = s.sent → s'.pending = Function.update s.pending x (some (n, s'.state.members n)) →
    Effect D (.conn x) γ s ⟨true, n, (s.state.members n).elems⟩ s'
  | remove {x : ClientId} {γ : Debt} {s s' : Watched} (n : ChannelId) : γ.due = [] →
    (Task.conn x, channelGuard D n true) ∈ s.shared.held →
    s'.state = s.state.updateMembers n (·.remove x) → s'.sent = s.sent →
    s'.pending = s.pending → Effect D (.conn x) γ s ⟨false, n, (s'.state.members n).elems⟩ s'
  | tellJoined {x : ClientId} {γ : Debt} {s s' : Watched} (m : ClientId) (name : String) :
    γ.joined = true → x ∈ s.state.members γ.channel → s'.state = s.state →
    s'.sent = Function.update s.sent m (s.sent m ++ [.userJoined γ.channel x name]) →
    s'.pending = s.pending → Effect D (.conn x) γ s (γ.paid m) s'
  | tellLeft {x : ClientId} {γ : Debt} {s s' : Watched} (m : ClientId) :
    γ.joined = false → (∀ k, x ∉ s.state.members k) → s'.state = s.state →
    s'.sent = Function.update s.sent m (s.sent m ++ [.userLeft γ.channel x]) →
    s'.pending = s.pending → Effect D (.conn x) γ s (γ.paid m) s'
  | skip {x : ClientId} {γ : Debt} {s s' : Watched} (m : ClientId) :
    (∀ k, m ∉ s.state.members k) → s'.state = s.state → s'.sent = s.sent →
    s'.pending = s.pending → Effect D (.conn x) γ s (γ.paid m) s'
  | answer {x : ClientId} {γ : Debt} {s s' : Watched} (n : ChannelId) (S : MemberSet)
    (infos : List ChannelMemberInfo) : s.pending x = some (n, S) →
    (∀ y, y ∈ infos.map ChannelMemberInfo.clientId ↔ y ∈ S) → s'.state = s.state →
    s'.sent = Function.update s.sent x (s.sent x ++ [.channelJoined n infos]) →
    s'.pending = Function.update s.pending x none → Effect D (.conn x) γ s γ s'
  | depart {x : ClientId} {γ : Debt} {s s' : Watched} (n : ChannelId) :
    (∀ k, x ∉ s.state.members k) → s'.state = s.state →
    s'.sent = Function.update s.sent x (s.sent x ++ [.channelLeft n]) →
    s'.pending = s.pending → Effect D (.conn x) γ s γ s'

/-! ### Every effect keeps the members informed -/

variable {D} {γ : Task → Debt} {γ' : Debt} {s s' : Watched} {t : Task}

/-- The members know as much as before if nothing they rely on changed. -/
theorem informed_congr {γ₁ : Task → Debt} {m : ClientId} {n : ChannelId}
    (hm : ∀ x, x ∈ s'.state.members n ↔ x ∈ s.state.members n)
    (hb : s'.belief m = s.belief m)
    (hγ : ∀ x, Owes (γ (.conn x)) m n → Owes (γ₁ (.conn x)) m n) (h : Informed γ s m n) :
    Informed γ₁ s' m n := by
  refine ⟨hb ▸ h.1, fun x hx => ?_⟩
  rw [hb, hm x]
  exact h.2 x fun ho => hx (hγ x ho)

/-- A task's new debt, seen from its own and from the other tasks. -/
theorem owes_update {x y : ClientId} {m : ClientId} {n : ChannelId} :
    Owes (Function.update γ (.conn x) γ' (.conn y)) m n ↔
      (y = x ∧ Owes γ' m n) ∨ (y ≠ x ∧ Owes (γ (.conn y)) m n) := by
  by_cases hy : y = x
  · subst hy
    simp
  · simp [hy]

/-- `x` moves and owes the news from then on: what others believe is right but for `x`. -/
theorem informed_move {x m : ClientId} {n : ChannelId} (hdue : (γ (.conn x)).due = [])
    (hb : s'.belief m = s.belief m)
    (hothers : ∀ y, y ≠ x → (y ∈ s'.state.members n ↔ y ∈ s.state.members n))
    (hx : ¬ Owes γ' m n → (x ∈ s'.state.members n ↔ x ∈ s.state.members n))
    (h : Informed γ s m n) : Informed (Function.update γ (.conn x) γ') s' m n := by
  refine ⟨hb ▸ h.1, fun y hy => ?_⟩
  rw [owes_update] at hy
  push Not at hy
  rw [hb]
  by_cases hyx : y = x
  · subst hyx
    rw [h.2 y (not_owes hdue), hx (hy.1 rfl)]
  · rw [h.2 y (hy.2 hyx), hothers y hyx]

/-- News about `x`: the belief of the one it reaches changes in nothing but `x`. -/
theorem informed_tell {x m : ClientId} {msg : ServerMessage}
    (hstate : s'.state = s.state)
    (hsent : s'.sent = Function.update s.sent m (s.sent m ++ [msg]))
    (hpend : s'.pending = s.pending)
    (hbelief : ∀ n, m ∈ s.state.members n → (s.belief m).channel = some n →
      (s'.belief m).channel = some n ∧
      (∀ y, y ≠ x → (y ∈ (s'.belief m).roster ↔ y ∈ (s.belief m).roster)) ∧
      ((γ (.conn x)).channel = n ∨ (x ∈ (s.belief m).roster ↔ x ∈ s.state.members n) →
        (x ∈ (s'.belief m).roster ↔ x ∈ s.state.members n)))
    (h : ∀ m n, m ∈ s.state.members n → Informed γ s m n) (k : ClientId) (n : ChannelId)
    (hk : k ∈ s'.state.members n) :
    Informed (Function.update γ (.conn x) ((γ (.conn x)).paid m)) s' k n := by
  rw [hstate] at hk
  have hold := h k n hk
  by_cases hkm : k = m
  · subst hkm
    obtain ⟨hchan, hothers, hx⟩ := hbelief n hk hold.1
    refine ⟨hchan, fun y hy => ?_⟩
    rw [owes_update] at hy
    push Not at hy
    rw [hstate]
    by_cases hyx : y = x
    · subst hyx
      by_cases hn : (γ (.conn y)).channel = n
      · exact hx (.inl hn)
      · exact hx (.inr (hold.2 y fun ho => hn ho.2))
    · rw [hothers y hyx]
      exact hold.2 y (hy.2 hyx)
  · refine informed_congr (fun y => by rw [hstate]) ?_ (fun y hy => ?_) hold
    · apply belief_congr (by rw [hpend])
      rw [hsent, Function.update_of_ne hkm]
    · rw [owes_update, owes_paid]
      by_cases hyx : y = x
      · subst hyx
        exact .inl ⟨rfl, hy, hkm⟩
      · exact .inr ⟨hyx, hy⟩

/-- News about `x` that comes before an answer changes no belief, and the answer tells it too. -/
theorem belief_pending {x d : ClientId} {j k : ChannelId} {S : MemberSet}
    (hp : s.pending d = some (j, S)) (hpend : s'.pending = s.pending)
    (hchan : (s.belief d).channel = some k)
    (hS : (γ (.conn x)).channel = k → j = k → (x ∈ S ↔ x ∈ s.state.members k)) :
    (s'.belief d).channel = some k ∧
      (∀ y, y ≠ x → (y ∈ (s'.belief d).roster ↔ y ∈ (s.belief d).roster)) ∧
      ((γ (.conn x)).channel = k ∨ (x ∈ (s.belief d).roster ↔ x ∈ s.state.members k) →
        (x ∈ (s'.belief d).roster ↔ x ∈ s.state.members k)) := by
  have hb : s'.belief d = s.belief d := by simp [Watched.belief, hpend, hp]
  have hbelief : s.belief d = ⟨some j, S.elems⟩ := by simp [Watched.belief, hp]
  have hj : j = k := by
    rw [hbelief] at hchan
    exact Option.some.inj hchan
  rw [hb]
  refine ⟨hchan, fun y _ => Iff.rfl, ?_⟩
  rintro (hk | hxm)
  · rw [hbelief]
    exact hS hk hj
  · exact hxm

/-- **Every effect** keeps the members informed. -/
theorem Effect.informed (he : Effect D t (γ t) s γ' s')
    (horderly : ∀ m n S, s.pending m = some (n, S) → ∀ x,
      (∀ name, s'.sent m = s.sent m ++ [.userJoined n x name] → x ∈ S) ∧
      (s'.sent m = s.sent m ++ [.userLeft n x] → x ∉ S))
    (h : ∀ m n, m ∈ s.state.members n → Informed γ s m n) (m : ClientId) (n : ChannelId)
    (hm : m ∈ s'.state.members n) : Informed (Function.update γ t γ') s' m n := by
  generalize hg : γ t = g at he
  cases he with
  | quiet hmem hview hpend =>
    rw [← hg, Function.update_eq_self]
    refine informed_congr (fun x => by rw [hmem n]) ?_ (fun _ => id) (h m n (hmem n ▸ hm))
    exact belief_congr (by rw [hpend]) (hview m)
  | @insert x _ _ _ k hdue hlock hch hout hstate hsent hpend =>
    rw [hstate, mem_updateMembers_insert _ k n x m hch] at hm
    have hmem : ∀ y, y ∈ s'.state.members n ↔ y ∈ s.state.members n ∨ (y = x ∧ n = k) :=
      fun y => by rw [hstate, mem_updateMembers_insert _ k n x y hch]
    by_cases hmx : m = x
    · -- The client itself: it is to be sent exactly the members.
      subst hmx
      obtain rfl : n = k := (hm.resolve_left (hout n)).2
      have hb : s'.belief m = ⟨some n, (s'.state.members n).elems⟩ := by
        simp [Watched.belief, hpend]
      exact ⟨by rw [hb], fun y _ => by rw [hb]; rfl⟩
    · replace hm := hm.resolve_right fun hx => hmx hx.1
      have hb : s'.belief m = s.belief m :=
        belief_congr (by rw [hpend, Function.update_of_ne hmx]) (by rw [hsent])
      refine informed_move (hg ▸ hdue) hb (fun y hyx => by rw [hmem y]; simp [hyx]) (fun ho => ?_) (h m n hm)
      have hnk : n ≠ k := fun hnk => ho ⟨hnk ▸ hm, hnk.symm⟩
      rw [hmem x]
      simp [hnk]
  | @remove x _ _ _ k hdue hlock hstate hsent hpend =>
    have hmem : ∀ y, y ∈ s'.state.members n ↔ y ∈ s.state.members n ∧ ¬ (y = x ∧ n = k) :=
      fun y => by rw [hstate, mem_updateMembers_remove _ k n x y]
    have hold := h m n ((hmem m).mp hm).1
    have hb : s'.belief m = s.belief m := belief_congr (by rw [hpend]) (by rw [hsent])
    refine informed_move (hg ▸ hdue) hb (fun y hyx => by rw [hmem y]; simp [hyx]) (fun ho => ?_) hold
    have hnk : n ≠ k := fun hnk => ho ⟨hnk ▸ hm, hnk.symm⟩
    rw [hmem x]
    simp [hnk]
  | @tellJoined x _ _ _ d name hjoined hx hstate hsent hpend =>
    rw [← hg] at hx hsent ⊢
    refine informed_tell hstate hsent hpend (fun k hk hchan => ?_) h m n hm
    have hsent' : s'.sent d = s.sent d ++ [.userJoined (γ (.conn x)).channel x name] := by
      rw [hsent, Function.update_self]
    cases hp : s.pending d with
    | some nS =>
      obtain ⟨j, S⟩ := nS
      refine belief_pending hp hpend hchan fun hk hj => ?_
      have hS : x ∈ S := (horderly d j S hp x).1 name (by rw [hsent', hk, hj])
      exact iff_of_true hS (hk ▸ hx)
    | none =>
      have hb : s.belief d = viewOf (s.sent d) := by simp [Watched.belief, hp]
      have hb' : s'.belief d =
          (s.belief d).receive (.userJoined (γ (.conn x)).channel x name) := by
        simp only [Watched.belief, hpend, hp, hsent', viewOf_append]
      rw [hb', View.receive]
      split
      · rename_i hj
        have hjk : (γ (.conn x)).channel = k := Option.some.inj (hj.symm.trans hchan)
        refine ⟨hchan, fun y hy => by simp [hy], fun _ => ?_⟩
        exact iff_of_true (by simp) (hjk ▸ hx)
      · rename_i hj
        exact ⟨hchan, fun y _ => Iff.rfl, fun ho =>
          ho.resolve_left fun hk => hj (hk ▸ hchan)⟩
  | @tellLeft x _ _ _ d hleft hx hstate hsent hpend =>
    rw [← hg] at hsent ⊢
    refine informed_tell hstate hsent hpend (fun k hk hchan => ?_) h m n hm
    have hsent' : s'.sent d = s.sent d ++ [.userLeft (γ (.conn x)).channel x] := by
      rw [hsent, Function.update_self]
    cases hp : s.pending d with
    | some nS =>
      obtain ⟨j, S⟩ := nS
      refine belief_pending hp hpend hchan fun hk hj => ?_
      have hS : x ∉ S := (horderly d j S hp x).2 (by rw [hsent', hk, hj])
      exact iff_of_false hS (hx k)
    | none =>
      have hb' : s'.belief d = (s.belief d).receive (.userLeft (γ (.conn x)).channel x) := by
        simp only [Watched.belief, hpend, hp, hsent', viewOf_append]
      rw [hb', View.receive]
      refine ⟨hchan, fun y hy => by simp [hy], fun _ => ?_⟩
      exact iff_of_false (by simp) (hx k)
  | @skip x _ _ _ d hout hstate hsent hpend =>
    rw [← hg]
    have hmd : m ≠ d := by
      rintro rfl
      exact hout n (hstate ▸ hm)
    refine informed_congr (fun y => by rw [hstate]) ?_ (fun y hy => ?_) (h m n (hstate ▸ hm))
    · exact belief_congr (by rw [hpend]) (by rw [hsent])
    · rw [owes_update, owes_paid]
      by_cases hyx : y = x
      · subst hyx
        exact .inl ⟨rfl, hy, hmd⟩
      · exact .inr ⟨hyx, hy⟩
  | @answer x _ _ _ k S infos hp hinfos hstate hsent hpend =>
    rw [← hg, Function.update_eq_self]
    have hold := h m n (hstate ▸ hm)
    by_cases hmx : m = x
    · subst hmx
      have hb : s.belief m = ⟨some k, S.elems⟩ := by simp [Watched.belief, hp]
      have hb' : s'.belief m = ⟨some k, infos.map ChannelMemberInfo.clientId⟩ := by
        simp [Watched.belief, hpend, hsent, View.receive]
      refine ⟨by rw [hb', ← hold.1, hb], fun y hy => ?_⟩
      rw [hb', hstate]
      exact (hinfos y).trans (by rw [← hold.2 y hy, hb]; rfl)
    · refine informed_congr (fun y => by rw [hstate]) ?_ (fun _ => id) hold
      apply belief_congr (by rw [hpend, Function.update_of_ne hmx])
      rw [hsent, Function.update_of_ne hmx]
  | @depart x _ _ _ k hout hstate hsent hpend =>
    rw [← hg, Function.update_eq_self]
    have hmx : m ≠ x := by
      rintro rfl
      exact hout n (hstate ▸ hm)
    refine informed_congr (fun y => by rw [hstate]) ?_ (fun _ => id) (h m n (hstate ▸ hm))
    exact belief_congr (by rw [hpend]) (by rw [hsent, Function.update_of_ne hmx])

end AudioPlatform.Server
