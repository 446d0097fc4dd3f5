import AudioPlatform.Server.Telling

/-! Rosters agree with the member sets in every orderly run, and not in every run. -/
namespace AudioPlatform.Server
open Concurrency

variable {D : Deployment} {c : ClientId} {s s' : Watched} {γ : Debt} {α : Type}

/-! ### The whole system -/

variable {t : Task} {cfg : WatchedConfig}

/-- A program of mute actions, run by any task. -/
theorem meets_all {p : Prog α} (h : p.All Op.Mute) (hi : (rosters D).inv s) :
    (rosters D).Meets (watched D) t (fun _ γ' _ => γ' = γ) p γ s := by
  induction p generalizing s with
  | done a => exact fun _ _ _ => rfl
  | act o next ih =>
    rintro u hu hiu r v ⟨⟨up, hup, he⟩, hw⟩
    obtain rfl : up = fun _ => true := funext hup
    obtain ⟨_, hret, hv⟩ := act_eq_some D he
    have hstate : v.state = o.apply u.state := congrArg (fun x => x.world.state) hv
    have hsent : v.sent = o.sent (fun _ => true) u.sent := congrArg (fun x => x.world.sent) hv
    obtain ⟨hch, hkept, hudp, hsound⟩ := neutral_apply (D := D) h.1.neutral u.state
    have hnamed : Named v.state := by
      rw [hstate]
      refine named_apply (fun d cl he => ?_) hiu.2
      subst he
      exact h.1.neutral.elim
    have hsoundv : Sound D v.state := hstate ▸ hsound hiu.1
    refine ⟨γ, ⟨⟨fun n => ?_, fun d _ => ?_, fun k hk => ?_, hsoundv⟩, hnamed, .quiet (fun n => ?_)
      (fun m => ?_) (hw.trans (mute_watch h.1 _ _))⟩, ih r (h.2 r) ⟨hsoundv, hnamed⟩⟩
    · rw [show v.shared.world.state = _ from hstate]
      exact hch n
    · rw [show v.shared.world.state = _ from hstate]
      exact hkept d
    · rw [show v.shared.world.state = _ from hstate] at hk
      exact absurd (congrFun hudp k) hk
    · rw [hstate]
      exact mute_apply h.1 u.state n
    · rw [hsent]
      exact mute_view h.1 u.sent m

theorem rosters_start {φ : Phase} {p : Prog Phase} (hi : (rosters D).inv s)
    (hs : (rosters D).rest t φ γ s) (hp : Starts D t φ p) :
    (rosters D).Meets (watched D) t ((rosters D).rest t) p γ s := by
  obtain ⟨hdue, hs⟩ := hs
  cases hp with
  | auth c token =>
    obtain ⟨hst, hpend⟩ := hs c rfl
    exact tells_authenticate token hdue ⟨hst, hi.2, hpend, fun _ _ h => nomatch h⟩
  | hangUp c =>
    obtain ⟨hst, hpend⟩ := hs c rfl
    have hp : Poised D c none none none none s := ⟨hst, hi.2, hpend, fun _ _ h => nomatch h⟩
    exact tells_done hp fun v hv => rested_closed hdue hv
  | incoming c now m =>
    obtain ⟨⟨n, b, hb, hst⟩, hpend⟩ := hs c rfl
    have hst' : Stands D False c (some (n, b)) n false s.state :=
      ⟨hst.sound, hst.reg, hst.mem, fun hf => hf.elim⟩
    exact tells_handleIncoming now m
      (idle_of hb hdue ⟨hst', hi.2, hpend, fun k ms (h : none = some (k, ms)) => nomatch h⟩)
  | datagram bytes src =>
    refine Outline.Meets.bind (meets_all (all_handleDatagram bytes src) hi) hi
      (fun _ _ _ _ _ _ hg => ⟨hg.1.2.2.2, hg.2.1⟩) fun _ γ' v _ hv => ?_
    subst hv
    exact fun w _ _ => ⟨hdue, fun _ h => nomatch h⟩

theorem Effect.pending {γ' : Debt} (he : Effect D t γ s γ' s') (hc : t ≠ .conn c) :
    s'.pending c = s.pending c := by
  cases he with
  | quiet _ _ hp => rw [hp]
  | insert _ _ _ _ _ _ _ hp => rw [hp, Function.update_of_ne (by rintro rfl; exact hc rfl)]
  | remove _ _ _ _ _ hp => rw [hp]
  | tellJoined _ _ _ _ _ _ hp => rw [hp]
  | tellLeft _ _ _ _ _ hp => rw [hp]
  | skip _ _ _ _ hp => rw [hp]
  | answer _ _ _ _ _ _ _ hp => rw [hp, Function.update_of_ne (by rintro rfl; exact hc rfl)]
  | depart _ _ _ _ hp => rw [hp]

/-- A task changes no member set that another has locked. -/
theorem Effect.members {γ' : Debt} {u : Task} {n : ChannelId} (he : Effect D t γ s γ' s')
    (hx : Exclusive s.shared.held) (hu : u ≠ t)
    (hg : (u, channelGuard D n true) ∈ s.shared.held) :
    s'.state.members n = s.state.members n := by
  have other : ∀ k, (t, channelGuard D k true) ∈ s.shared.held → n ≠ k := by
    rintro k hk rfl
    have := hx u _ t _ hg hk hu
    simp [Guard.conflicts, channelGuard] at this
  cases he with
  | quiet hm _ _ => exact hm n
  | insert k _ hk _ _ hst _ _ => rw [hst, members_updateMembers_of_ne _ _ (other k hk)]
  | remove k _ hk hst _ _ => rw [hst, members_updateMembers_of_ne _ _ (other k hk)]
  | tellJoined _ _ _ _ hst _ _ => rw [hst]
  | tellLeft _ _ _ hst _ _ => rw [hst]
  | skip _ _ hst _ _ => rw [hst]
  | answer _ _ _ _ _ hst _ _ => rw [hst]
  | depart _ _ hst _ _ => rw [hst]

theorem rosters_compat {γ : Task → Debt} {γ' : Debt} {o : Op} {next : o.Result → Prog Phase}
    {r : o.Result} (h : (rosters D).Holds (watched D) cfg γ)
    (he : (watched D).exec t o cfg.shared r s')
    (ho : Orderly cfg ⟨s', Function.update cfg.tasks t (next r)⟩)
    (hg : (rosters D).guar t (γ t) cfg.shared γ' s') :
    (∀ u, u ≠ t → (rosters D).rely u cfg.shared s') ∧
      (rosters D).common (Function.update γ t γ') s' := by
  obtain ⟨⟨up, _, hact⟩, _⟩ := he
  obtain ⟨hfree, _, hv⟩ := act_eq_some D hact
  obtain ⟨⟨hch, hkept, -, hsound⟩, hnamed, heff⟩ := hg
  obtain ⟨-, hx, hinf⟩ := h.common
  have hheld : s'.shared.held = o.guards D t cfg.shared.state cfg.shared.shared.held :=
    congrArg Shared.held hv
  refine ⟨fun u hu => ⟨⟨hch, fun c hc => ⟨hkept c fun he => hu (hc.trans he.symm), fun hf => hf.elim⟩⟩,
    fun c hc => heff.pending fun he => hu (hc.trans he.symm), fun g => ?_,
    fun n hn => heff.members hx hu hn⟩, ⟨hsound, hnamed⟩, ?_, fun m n hm => ?_⟩
  · rw [hheld]
    exact mem_guards_of_ne D hu _ _ _ g
  · rw [hheld]
    exact exclusive_guards D hx hfree
  · exact heff.informed ho hinf m n hm

theorem rosters_initial :
    (rosters D).Holds (watched D) (watchedInitial D) fun _ => ⟨true, "", []⟩ := by
  have hsound : Sound D (watchedInitial D).shared.state := (initial_stands False "").sound
  refine ⟨fun t => ?_, ⟨hsound, fun c cl h => (nomatch h)⟩, fun _ _ _ _ h => (nomatch h),
    fun m n hm => absurd hm (notMem_members_new D.udpPort n m)⟩
  cases t with
  | conn c =>
    have hs : Poised D c none none none none (watchedInitial D).shared :=
      ⟨initial_stands False c, fun c cl h => (nomatch h), rfl, fun _ _ h => (nomatch h)⟩
    refine tells_done hs fun v hv => ⟨rfl, fun d hd => ?_⟩
    cases hd
    exact ⟨hv.stands, hv.pending⟩
  | udp => exact fun _ _ _ => ⟨rfl, fun _ h => nomatch h⟩

/-- **Rosters agree** in every state of an orderly run in which no request is in progress. -/
theorem rosters_agree (h : Reaches (watched D) Orderly (watchedInitial D) cfg)
    (hrest : ∀ t, cfg.AtRest t) {m : ClientId} {n : ChannelId}
    (hm : m ∈ cfg.shared.state.members n) :
    (viewOf (cfg.shared.sent m)).channel = some n ∧
      ∀ x, x ∈ (viewOf (cfg.shared.sent m)).roster ↔ x ∈ cfg.shared.state.members n := by
  obtain ⟨γ, hγ⟩ := Outline.invariant
    (fun t φ _ s p hi hs hp => rosters_start hi hs hp)
    (fun c γ t o next r s' γ' hc _ he ho hg => rosters_compat hc he ho hg) rosters_initial h
  have hrested : ∀ x, (γ (.conn x)).due = [] ∧ cfg.shared.pending x = none := fun x => by
    obtain ⟨φ, hφ⟩ := hrest (.conn x)
    obtain ⟨hdue, hx⟩ := hγ.rest hφ
    exact ⟨hdue, (hx x rfl).2⟩
  obtain ⟨hchan, hroster⟩ := hγ.common.2.2 m n hm
  have hb : cfg.shared.belief m = viewOf (cfg.shared.sent m) := by
    simp [Watched.belief, (hrested m).2]
  rw [← hb]
  exact ⟨hchan, fun x => hroster x (not_owes (hrested x).1)⟩

/-- Every run of the server whose sends succeed can be watched. -/
theorem exists_watched {c : ServerConfig}
    (h : Reaches (delivering D) (fun _ _ => True) (initial D) c) :
    ∃ w : WatchedConfig, Reaches (watched D) (fun _ _ => True) (watchedInitial D) w ∧
      w.shared.shared = c.shared ∧ w.tasks = c.tasks := by
  induction h with
  | refl => exact ⟨_, .refl, rfl, rfl⟩
  | step _ hs _ ih =>
    obtain ⟨w, hw, hshared, htasks⟩ := ih
    cases hs with
    | @act t o next r s' ht he =>
      have hexec : (watched D).exec t o w.shared r ⟨s', o.watch w.shared.state w.shared.pending⟩ :=
        ⟨hshared ▸ he, rfl⟩
      refine ⟨_, hw.step (.act (htasks ▸ ht) hexec) trivial, rfl, ?_⟩
      rw [htasks]
    | @start t φ p ht hp =>
      refine ⟨_, hw.step (.start (htasks ▸ ht) hp) trivial, hshared, ?_⟩
      rw [htasks]

/-- The only way for a client to be sent a message. -/
theorem sent_append {o : Op} {up : ClientId → Bool} {sent : ClientId → List ServerMessage}
    {m : ClientId} {msg : ServerMessage} (h : o.sent up sent m = sent m ++ [msg]) :
    o = .send m msg := by
  have hgrew : o.sent up sent m ≠ sent m := fun hs => by
    have := congrArg List.length (hs.symm.trans h)
    simp at this
  cases o with
  | send d msg' =>
    simp only [Op.sent] at h hgrew
    split at h
    · by_cases hm : m = d
      · subst hm
        rw [Function.update_self] at h
        rw [List.singleton_inj.mp (List.append_cancel_left h)]
      · rw [if_pos (by assumption), Function.update_of_ne hm] at hgrew
        exact absurd rfl hgrew
    · rw [if_neg (by assumption)] at hgrew
      exact absurd rfl hgrew
  | _ => exact absurd rfl hgrew

/-- The next action of the task tells nobody of a join or a leave whose answer is due. -/
def calm (w : WatchedConfig) (t : Task) : Bool :=
  match w.tasks t with
  | .act (.send m (.userJoined ..)) _ => (w.shared.pending m).isNone
  | .act (.send m (.userLeft ..)) _ => (w.shared.pending m).isNone
  | _ => true

/-- A move of the watched server, if it is calm. -/
def Move.watch (D : Deployment) (m : Move) (w : WatchedConfig) : Option WatchedConfig :=
  if calm w m.task then
    (m.run D ⟨w.shared.shared, w.tasks⟩).map fun c =>
      match w.tasks m.task with
      | .act o _ => ⟨⟨c.shared, o.watch w.shared.state w.shared.pending⟩, c.tasks⟩
      | .done _ => ⟨⟨c.shared, w.shared.pending⟩, c.tasks⟩
  else none

theorem orderly_watch {m : Move} {w w' : WatchedConfig} (hm : m.Sends fun up => ∀ c, up c = true)
    (h : m.watch D w = some w') : Step (watched D) w w' ∧ Orderly w w' ∧
      ∀ t, t ≠ m.task → w'.tasks t = w.tasks t := by
  unfold Move.watch at h
  split at h
  · rename_i hcalm
    obtain ⟨c, hc, rfl⟩ := Option.map_eq_some_iff.mp h
    unfold Move.run at hc
    split at hc
    · rename_i t up o next ht
      dsimp only at ht hcalm hc
      obtain ⟨⟨r, s⟩, he, rfl⟩ := Option.map_eq_some_iff.mp hc
      rw [show w.tasks (Move.step t up).task = .act o next from ht]
      refine ⟨.act ht ⟨⟨_, hm, he⟩, rfl⟩, fun d n S hp x => ⟨fun name hs => ?_, fun hs => ?_⟩,
        fun u hu => Function.update_of_ne hu _ _⟩
      all_goals
        obtain ⟨_, _, hv⟩ := act_eq_some D he
        have hsent : s.world.sent = o.sent (fun _ => up) w.shared.sent :=
          congrArg (fun x => x.world.sent) hv
        have ho := sent_append ((congrFun hsent d).symm.trans hs)
        subst ho
        unfold calm at hcalm
        rw [show w.tasks (Move.step t up).task = _ from ht] at hcalm
        dsimp only at hcalm
        rw [hp] at hcalm
        cases hcalm
    · rename_i φ ht
      dsimp only at ht
      split at hc
      · rename_i φ' p hprog
        split at hc
        · rename_i hφ
          subst hφ
          cases hc
          rw [ht]
          refine ⟨.start ht (starts_program hprog), fun d n S hp x =>
            ⟨fun name hs => ?_, fun hs => ?_⟩, fun u hu => Function.update_of_ne hu _ _⟩
          all_goals
            have := congrArg List.length hs
            simp at this
        · cases hc
      · cases hc
    · cases hc
  · cases h

def playWatched (D : Deployment) (moves : List Move) (w : WatchedConfig) : Option WatchedConfig :=
  match moves with
  | [] => some w
  | m :: rest => (m.watch D w).bind (playWatched D rest)

theorem reaches_playWatched {moves : List Move} {T : List Task} {w₀ w w' : WatchedConfig}
    (hm : ∀ m ∈ moves, m.Sends fun up => ∀ c, up c = true) (hT : ∀ m ∈ moves, m.task ∈ T)
    (hr : Reaches (watched D) Orderly w₀ w) (h : playWatched D moves w = some w') :
    Reaches (watched D) Orderly w₀ w' ∧ ∀ t, t ∉ T → w'.tasks t = w.tasks t := by
  induction moves generalizing w with
  | nil =>
    cases h
    exact ⟨hr, fun _ _ => rfl⟩
  | cons m rest ih =>
    obtain ⟨v, hv, h⟩ := Option.bind_eq_some_iff.mp h
    obtain ⟨hstep, hord, hframe⟩ := orderly_watch (hm m (.head rest)) hv
    obtain ⟨hreach, hrest⟩ := ih (fun k hk => hm k (.tail m hk)) (fun k hk => hT k (.tail m hk))
      (hr.step hstep hord) h
    exact ⟨hreach, fun t ht => (hrest t ht).trans
      (hframe t fun he => ht (he ▸ hT m (.head rest)))⟩

/-- Where only two handlers have acted and both are done, all tasks are at rest. -/
theorem atRest_pair {c : ServerConfig} (ha : idleAt c (.conn "a") = true)
    (hb : idleAt c (.conn "b") = true)
    (h : ∀ t, t ∉ [Task.conn "a", .conn "b"] → c.tasks t = (initial oneShard).tasks t) (t : Task) :
    c.AtRest t := by
  by_cases hta : t = .conn "a"
  · exact hta ▸ idleAt_iff.mp ha
  by_cases htb : t = .conn "b"
  · exact htb ▸ idleAt_iff.mp hb
  unfold Config.AtRest
  rw [h t (by simp [hta, htb])]
  cases t <;> exact ⟨_, rfl⟩

/-- Two clients, the second of which joins where the first is. -/
def pairInChannel : List Move :=
  .auth "a" "alice" :: List.replicate 3 (.step (.conn "a") true) ++
  .auth "b" "bob" :: List.replicate 3 (.step (.conn "b") true) ++
  .incoming "a" 0 (.message (.joinChannel "channel-1")) ::
    List.replicate 10 (.step (.conn "a") true) ++
  .incoming "b" 0 (.message (.joinChannel "channel-1")) ::
    List.replicate 14 (.step (.conn "b") true)

theorem rosters_agree_pair : ∃ w, Reaches (watched oneShard) Orderly (watchedInitial oneShard) w ∧
    "b" ∈ w.shared.state.members "channel-1" ∧
    (viewOf (w.shared.sent "a")).channel = some "channel-1" ∧
    ∀ x, x ∈ (viewOf (w.shared.sent "a")).roster ↔ x ∈ w.shared.state.members "channel-1" := by
  have hplay : ((playWatched oneShard pairInChannel (watchedInitial oneShard)).map fun w =>
      (decide ("a" ∈ w.shared.state.members "channel-1"),
        decide ("b" ∈ w.shared.state.members "channel-1"),
        idleAt ⟨w.shared.shared, w.tasks⟩ (.conn "a"),
        idleAt ⟨w.shared.shared, w.tasks⟩ (.conn "b"))) = some (true, true, true, true) := by
    decide +kernel
  obtain ⟨w, hw, hobs⟩ := Option.map_eq_some_iff.mp hplay
  obtain ⟨ha, hobs⟩ := Prod.mk.inj hobs
  obtain ⟨hb, hobs⟩ := Prod.mk.inj hobs
  obtain ⟨hidle, hidle'⟩ := Prod.mk.inj hobs
  have hsends : ∀ m ∈ pairInChannel, m.delivers = true := by decide
  obtain ⟨hreach, hothers⟩ := reaches_playWatched (T := [.conn "a", .conn "b"])
    (fun m hm => sends_of_delivers (hsends m hm)) (by decide) .refl hw
  have hrest : ∀ t, w.AtRest t :=
    atRest_pair (c := ⟨w.shared.shared, w.tasks⟩) hidle hidle' hothers
  exact ⟨w, hreach, of_decide_eq_true hb, rosters_agree hreach hrest (of_decide_eq_true ha)⟩

/-- The first client leaves while the second has been listed and not answered. -/
def leaveOvertakes : List Move :=
  .auth "a" "alice" :: List.replicate 3 (.step (.conn "a") true) ++
  .auth "b" "bob" :: List.replicate 3 (.step (.conn "b") true) ++
  .incoming "a" 0 (.message (.joinChannel "channel-1")) ::
    List.replicate 10 (.step (.conn "a") true) ++
  .incoming "b" 0 (.message (.joinChannel "channel-1")) ::
    List.replicate 7 (.step (.conn "b") true) ++
  .incoming "a" 0 (.message (.leaveChannel "channel-1")) ::
    List.replicate 14 (.step (.conn "a") true) ++
  List.replicate 7 (.step (.conn "b") true)

/-- It then believes for good that the first is still there. -/
theorem rosters_disagree : ¬ ∀ cfg : ServerConfig,
    Reaches (delivering oneShard) (fun _ _ => True) (initial oneShard) cfg →
    (∀ t, cfg.AtRest t) → ∀ m n, m ∈ cfg.shared.world.state.members n →
      ∀ x, x ∈ (viewOf (cfg.shared.world.sent m)).roster ↔
        x ∈ cfg.shared.world.state.members n := by
  have hplay : ((play oneShard leaveOvertakes (initial oneShard)).map fun cfg =>
      ((idleAt cfg (.conn "a"), idleAt cfg (.conn "b")),
        (viewOf (cfg.shared.world.sent "b")).roster,
        (cfg.shared.world.state.members "channel-1").elems)) =
          some ((true, true), ["a", "b"], ["b"]) := by decide +kernel
  obtain ⟨cfg, hcfg, hobs⟩ := Option.map_eq_some_iff.mp hplay
  obtain ⟨hidle, hobs⟩ := Prod.mk.inj hobs
  obtain ⟨ha, hb⟩ := Prod.mk.inj hidle
  obtain ⟨hroster, hmembers⟩ := Prod.mk.inj hobs
  intro hagree
  have hsends : ∀ m ∈ leaveOvertakes, m.delivers = true := by decide
  obtain ⟨hreach, hothers⟩ := reaches_play (T := [.conn "a", .conn "b"])
    (fun m hm => sends_of_delivers (hsends m hm)) (by decide) hcfg .refl fun _ _ => rfl
  have hrest : ∀ t, cfg.AtRest t := atRest_pair ha hb hothers
  have hmem : ∀ x, x ∈ cfg.shared.world.state.members "channel-1" ↔ x = "b" := fun x => by
    rw [← MemberSet.mem_elems, hmembers, List.mem_singleton]
  have hghost := hagree cfg (hreach.mono fun _ _ _ => trivial) hrest "b" "channel-1"
    ((hmem "b").mpr rfl) "a"
  rw [hroster, hmem] at hghost
  exact absurd (hghost.mp (by decide)) (by decide)

end AudioPlatform.Server
