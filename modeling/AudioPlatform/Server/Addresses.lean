import AudioPlatform.Concurrency.Machine
import AudioPlatform.Maps.Inverse
import AudioPlatform.Server.Forwarding

/-! The address map and the addresses of the clients.

A datagram moves the client it is from to its source, and a disconnect takes a client
away; both remove the entry of the address that the client had. Two clients may have
one address, and then the entry is the other's as well. -/
namespace AudioPlatform.Server
open Concurrency Maps

variable {D : Deployment} {up : ClientId → Bool} {s s' : ServerState} {c d : ClientId}
  {e : Option Event} {φ : Phase}

def ServerState.addrOf (s : ServerState) (c : ClientId) : Option SocketAddr :=
  (s.clients c).bind Client.udpAddr

/-- The address map is the inverse of the clients' addresses. -/
def ServerState.AddrsInverse (s : ServerState) : Prop := IsInverse s.addrOf s.udpAddrToClient

/-- What happens takes the client away from the address it has. -/
def ServerState.Vacates (s : ServerState) (e : Option Event) (c : ClientId) : Prop :=
  e = some (.disconnected c) ∨
    ∃ u a, e = some (.received u a) ∧ s.udpIdToClient u = some c ∧ s.addrOf c ≠ some a

/-- No client that shares its address is taken away from it. -/
def KeepsShared (D : Deployment) (S : Serial) (i : (ClientId → Bool) × Move) : Prop :=
  ∀ c, S.world.state.Vacates (i.2.event D i.1 S.world) c → ¬ Shares S.world.state.addrOf c

/-! ### One request or datagram -/

theorem addrOf_of_some {cl : Client} (h : s.clients c = some cl) : s.addrOf c = cl.udpAddr := by
  unfold ServerState.addrOf
  rw [h, Option.bind_some]

theorem addrOf_of_none (h : s.clients c = none) : s.addrOf c = none := by
  unfold ServerState.addrOf
  rw [h, Option.bind_none]

/-- The address of a client can be read off its record alone. -/
theorem addrOf_congr (h : s'.clients c = s.clients c) : s'.addrOf c = s.addrOf c :=
  congrArg (·.bind Client.udpAddr) h

theorem addrOf_updateClient {u : ClientUpdate} (hu : ∀ cl, (u.apply cl).udpAddr = cl.udpAddr) :
    (s.updateClient c u).addrOf = s.addrOf := by
  funext d
  unfold ServerState.addrOf
  by_cases hd : d = c
  · subst hd
    rw [clients_updateClient_self]
    cases s.clients d with
    | none => rfl
    | some cl => exact hu cl
  · rw [clients_updateClient_of_ne s u hd]

theorem addrOf_putClient {v : Option Client} {a : Option SocketAddr} (hv : v.bind Client.udpAddr = a) :
    (s.putClient c v).addrOf = Function.update s.addrOf c a := by
  funext d
  unfold ServerState.addrOf
  by_cases hd : d = c
  · subst hd
    rw [clients_putClient_self, Function.update_self, hv]
  · rw [clients_putClient_of_ne s hd, Function.update_of_ne hd]

theorem addrOf_departed (cl : Client) : (s.departed c cl).addrOf = s.addrOf := by
  have hleft : ∀ n, (s.left c n).addrOf = s.addrOf := by
    intro n
    unfold ServerState.left
    rw [addrOf_updateClient (fun _ => rfl)]
    show (s.updateClient c (.speaking false)).addrOf = _
    exact addrOf_updateClient fun _ => rfl
  unfold ServerState.departed
  repeat' split
  · exact hleft _
  · rfl
  · rfl

theorem udpAddrToClient_departed (cl : Client) :
    (s.departed c cl).udpAddrToClient = s.udpAddrToClient := by
  unfold ServerState.departed
  repeat' split
  all_goals rfl

/-- A disconnect takes the client's address and its entry away. -/
theorem addrs_removed {cl : Client} (h : s.clients c = some cl) :
    (s.removed c cl).addrOf = Function.update s.addrOf c none ∧
      (s.removed c cl).udpAddrToClient = clear s.udpAddrToClient (s.addrOf c) := by
  have haddr := addrOf_of_some h
  have hput : ((s.departed c cl).putClient c none).addrOf = Function.update s.addrOf c none := by
    rw [addrOf_putClient rfl, addrOf_departed]
    rfl
  have hmap : ((s.departed c cl).putClient c none).udpAddrToClient = s.udpAddrToClient :=
    udpAddrToClient_departed cl
  unfold ServerState.removed
  rw [haddr]
  cases cl.udpAddr with
  | none => exact ⟨hput, hmap⟩
  | some a =>
    refine ⟨hput, ?_⟩
    show Function.update ((s.departed c cl).putClient c none).udpAddrToClient a none = _
    rw [hmap]
    rfl

/-- A datagram that moves its client to another address. -/
theorem addrs_moved {cl : Client} {u : BitVec 64} {a : SocketAddr} (hu : s.udpIdToClient u = some c)
    (hc : s.clients c = some cl) (ha : s.addrOf c ≠ some a) :
    (s.registered u a).addrOf = Function.update s.addrOf c (some a) ∧
      (s.registered u a).udpAddrToClient =
        Function.update (clear s.udpAddrToClient (s.addrOf c)) a (some c) := by
  have haddr := addrOf_of_some hc
  rw [haddr] at ha ⊢
  constructor
  · funext d
    unfold ServerState.addrOf
    rw [clients_registered]
    by_cases hd : d = c
    · subst hd
      rw [if_pos hu, hc, Function.update_self]
      rfl
    · rw [if_neg fun h => hd (Option.some.inj (h.symm.trans hu)), Function.update_of_ne hd]
  · unfold ServerState.registered
    rw [hu]
    dsimp only
    rw [hc]
    dsimp only
    rw [if_neg ha]
    cases cl.udpAddr <;> rfl

/-- Any other datagram changes no address. -/
theorem addrs_stayed {u : BitVec 64} {a : SocketAddr}
    (h : ∀ c, s.udpIdToClient u = some c → s.clients c = none ∨ s.addrOf c = some a) :
    (s.registered u a).addrOf = s.addrOf ∧
      (s.registered u a).udpAddrToClient = s.udpAddrToClient := by
  cases hu : s.udpIdToClient u with
  | none =>
    unfold ServerState.registered
    rw [hu]
    exact ⟨rfl, rfl⟩
  | some c =>
    unfold ServerState.registered
    rw [hu]
    dsimp only
    cases hc : s.clients c with
    | none => exact ⟨rfl, rfl⟩
    | some cl =>
      have ha : cl.udpAddr = some a := by
        rw [← addrOf_of_some hc]
        exact (h c hu).resolve_left (by rw [hc]; exact Option.some_ne_none cl)
      dsimp only
      rw [if_pos ha]
      refine ⟨?_, rfl⟩
      funext d
      unfold ServerState.addrOf
      by_cases hd : d = c
      · subst hd
        rw [clients_updateClient_self, hc]
        exact ha.symm
      · rw [clients_updateClient_of_ne s _ hd]

/-- What a request or datagram does to the addresses. -/
inductive Relocation (s : ServerState) (e : Option Event) (s' : ServerState) : Prop where
  | stays : (∀ c, s.Vacates e c → s.addrOf c = none) → s'.addrOf = s.addrOf →
    s'.udpAddrToClient = s.udpAddrToClient → Relocation s e s'
  | leaves (c : ClientId) : (∀ d, s.Vacates e d ↔ d = c) →
    s'.addrOf = Function.update s.addrOf c none →
    s'.udpAddrToClient = clear s.udpAddrToClient (s.addrOf c) → Relocation s e s'
  | moves (c : ClientId) (a : SocketAddr) : (∀ d, s.Vacates e d ↔ d = c) → s.addrOf c ≠ some a →
    s'.addrOf = Function.update s.addrOf c (some a) →
    s'.udpAddrToClient = Function.update (clear s.udpAddrToClient (s.addrOf c)) a (some c) →
    Relocation s e s'

/-- The addresses stay an inverse if no shared one is vacated. -/
theorem Relocation.inverse (hr : Relocation s e s') (h : s.AddrsInverse)
    (hkeep : ∀ c, s.Vacates e c → ¬ Shares s.addrOf c) : s'.AddrsInverse := by
  unfold ServerState.AddrsInverse at h ⊢
  cases hr with
  | stays _ haddr hmap =>
    rw [haddr, hmap]
    exact h
  | leaves c hc haddr hmap =>
    rw [haddr, hmap]
    exact h.leave (hkeep c ((hc c).mpr rfl))
  | moves c a hc _ haddr hmap =>
    rw [haddr, hmap]
    exact h.move (hkeep c ((hc c).mpr rfl)) a

/-- A shared address that is vacated loses its entry. -/
theorem Relocation.not_inverse (hr : Relocation s e s') (hc : s.Vacates e c)
    (hs : Shares s.addrOf c) : ¬ s'.AddrsInverse := by
  unfold ServerState.AddrsInverse
  cases hr with
  | stays hnone _ _ => exact absurd hs (not_shares_of_none (hnone c hc))
  | leaves d hd haddr hmap =>
    obtain rfl := (hd c).mp hc
    rw [haddr, hmap]
    refine not_isInverse hs (fun j hj => Function.update_of_ne hj ..) fun a ha => ?_
    rw [ha]
    exact Function.update_self ..
  | moves d b hd hne haddr hmap =>
    obtain rfl := (hd c).mp hc
    rw [haddr, hmap]
    refine not_isInverse hs (fun j hj => Function.update_of_ne hj ..) fun a ha => ?_
    have hab : a ≠ b := fun he => hne (he ▸ ha)
    rw [ha, Function.update_of_ne hab]
    exact Function.update_self ..

theorem not_vacates_none (c : ClientId) : ¬ s.Vacates none c := by
  rintro (h | ⟨_, _, h, -⟩)
  · cases h
  · cases h

/-- A request takes no other client away. -/
theorem Outcome.vacates (ho : Outcome s c e φ s') (hd : s.Vacates e d) : d = c := by
  rcases hd with rfl | ⟨_, _, rfl, -⟩
  · cases ho <;> rfl
  · cases ho

theorem Outcome.relocation (ho : Outcome s c e φ s') : Relocation s e s' := by
  cases ho with
  | @joined n hj =>
    refine .stays (fun d hd => ?_) ?_ rfl
    · rcases hd with h | ⟨_, _, h, -⟩ <;> cases h
    · unfold ServerState.joined
      rw [addrOf_updateClient (fun _ => rfl)]
      rfl
  | @left n hm =>
    refine .stays (fun d hd => ?_) ?_ rfl
    · rcases hd with h | ⟨_, _, h, -⟩ <;> cases h
    · unfold ServerState.left
      rw [addrOf_updateClient (fun _ => rfl)]
      show (s.updateClient c (.speaking false)).addrOf = _
      exact addrOf_updateClient fun _ => rfl
  | speaking b =>
    exact .stays (fun d hd => absurd hd (not_vacates_none d)) (addrOf_updateClient fun _ => rfl) rfl
  | nothing => exact .stays (fun d hd => absurd hd (not_vacates_none d)) rfl rfl
  | removed hcl =>
    obtain ⟨haddr, hmap⟩ := addrs_removed hcl
    refine .leaves c (fun d => ⟨?_, fun h => .inl (h ▸ rfl)⟩) haddr hmap
    rintro (h | ⟨_, _, h, -⟩)
    · cases h
      rfl
    · cases h
  | gone hn =>
    refine .stays (fun d hd => ?_) rfl rfl
    rcases hd with h | ⟨_, _, h, -⟩
    · cases h
      exact addrOf_of_none hn
    · cases h

theorem relocation_registered (s : ServerState) (u : BitVec 64) (a : SocketAddr) :
    Relocation s (some (.received u a)) (s.registered u a) := by
  have hvac : ∀ d, s.Vacates (some (.received u a)) d ↔
      s.udpIdToClient u = some d ∧ s.addrOf d ≠ some a := by
    refine fun d => ⟨?_, fun h => .inr ⟨u, a, rfl, h⟩⟩
    rintro (h | ⟨_, _, h, hroute, hne⟩)
    · cases h
    · cases h
      exact ⟨hroute, hne⟩
  by_cases hmoves : ∃ c cl, s.udpIdToClient u = some c ∧ s.clients c = some cl ∧ s.addrOf c ≠ some a
  · obtain ⟨c, cl, hu, hc, ha⟩ := hmoves
    obtain ⟨haddr, hmap⟩ := addrs_moved hu hc ha
    refine .moves c a (fun d => (hvac d).trans ⟨fun h => ?_, ?_⟩) ha haddr hmap
    · exact Option.some.inj (h.1.symm.trans hu)
    · rintro rfl
      exact ⟨hu, ha⟩
  · have hstay : ∀ c, s.udpIdToClient u = some c → s.clients c = none ∨ s.addrOf c = some a := by
      intro c hu
      cases hc : s.clients c with
      | none => exact .inl rfl
      | some cl => exact .inr (by_contra fun ha => hmoves ⟨c, cl, hu, hc, ha⟩)
    obtain ⟨haddr, hmap⟩ := addrs_stayed hstay
    refine .stays (fun c hc => ?_) haddr hmap
    obtain ⟨hu, hne⟩ := (hvac c).mp hc
    exact addrOf_of_none ((hstay c hu).resolve_right hne)

/-! ### Runs -/

variable {C : Set ClientId} {h : List Event} {S : Serial}

/-- **Every request and datagram**, also one that there cannot be. -/
theorem relocation_attempt (hr : Recorded D C h S) (i : (ClientId → Bool) × Move) :
    Relocation S.world.state (i.2.event D i.1 S.world) (attempt D S i).1.world.state := by
  have hunknown : ∀ c, S.phase (.conn c) ≠ .idle → S.world.state.addrOf c = none := by
    intro c hφ
    exact addrOf_of_none (Option.not_isSome_iff_eq_none.mp fun hsome => hφ ((hr.phase c).mp hsome))
  obtain ⟨up, m⟩ := i
  unfold attempt
  cases m with
  | step t b => exact .stays (fun c hc => absurd hc (not_vacates_none c)) rfl rfl
  | hangUp c =>
    have hsame : ((serve D up (.hangUp c) S).getD S).world = S.world := by
      simp only [serve, Move.program]
      split <;> rfl
    dsimp only
    rw [hsame]
    exact .stays (fun d hd => absurd hd (not_vacates_none d)) rfl rfl
  | auth c token =>
    have hquiet : ∀ d, ¬ S.world.state.Vacates ((Move.auth c token).event D up S.world) d := by
      intro d hd
      unfold Move.event at hd
      dsimp only at hd
      split at hd
      · rcases hd with h | ⟨_, _, h, -⟩ <;> cases h
      · exact not_vacates_none d hd
    cases hs : serve D up (.auth c token) S with
    | none => exact .stays (fun d hd => absurd hd (hquiet d)) rfl rfl
    | some S' =>
      obtain ⟨φ, p, φ', w, hp, hφ, ha, rfl⟩ := serve_eq_some hs
      cases hp
      have hconnecting : S.phase (.conn c) = .connecting := hφ
      have hnone := hunknown c (by rw [hconnecting]; decide)
      have hend := ends_authenticate up S.world.state D.udpPort (D.deriveUdpId c) c token
      refine .stays (fun d hd => absurd hd (hquiet d)) ?_ ?_
      all_goals
        dsimp only [Option.getD_some]
        split at hend
      · obtain ⟨name, hend⟩ := hend
        obtain ⟨-, hw, -⟩ := hend.unique ha
        rw [hw]
        show (S.world.state.putClient c _).addrOf = _
        rw [addrOf_putClient (a := none) rfl, ← hnone, Function.update_eq_self]
      · obtain ⟨-, hw, -⟩ := hend.unique ha
        rw [hw]
      · obtain ⟨name, hend⟩ := hend
        obtain ⟨-, hw, -⟩ := hend.unique ha
        rw [hw]
        rfl
      · obtain ⟨-, hw, -⟩ := hend.unique ha
        rw [hw]
  | incoming c now m =>
    obtain ⟨ψ, s', hend, hout⟩ := ends_handleIncoming D up c now m S.world
    by_cases hφ : S.phase (.conn c) = .idle
    · obtain ⟨sent, ha⟩ := hend.alone S.world rfl
      have hs : serve D up (.incoming c now m) S = some ⟨⟨s', sent, S.world.datagrams⟩,
          Function.update S.phase (.conn c) ψ⟩ := by
        simp only [serve, Move.program, Move.task, hφ, if_true, ha, Option.map_some]
      rw [hs]
      exact hout.relocation
    · have hs : serve D up (.incoming c now m) S = none := by
        simp only [serve, Move.program, Move.task, hφ, if_false]
      rw [hs]
      refine .stays (fun d hd => ?_) rfl rfl
      rw [hout.vacates hd]
      exact hunknown c hφ
  | datagram bytes src =>
    rcases alone_datagram D up bytes src S.world with
      ⟨header, t, sent, dgs, -, -, ha, hevent⟩ | ⟨ha, hevent⟩
    · rw [serve_datagram hr.udp ha, hevent]
      exact relocation_registered _ _ _
    · rw [serve_datagram hr.udp ha, hevent]
      exact .stays (fun c hc => absurd hc (not_vacates_none c)) rfl rfl

/-- The clients that authenticate in a run. -/
def authenticating (is : List ((ClientId → Bool) × Move)) : Set ClientId :=
  {c | ∃ up token, (up, Move.auth c token) ∈ is}

/-- What holds between two requests while no shared address is vacated. -/
structure InStep (D : Deployment) (C : Set ClientId) (S : Serial) : Prop where
  recorded : ∃ h, Recorded D C h S
  inverse : S.world.state.AddrsInverse

theorem inStep_initial : InStep D C (Serial.initial D) where
  recorded := ⟨[], recorded_initial⟩
  inverse := ⟨fun _ _ h => (nomatch h), fun _ _ h => (nomatch h)⟩

theorem InStep.attempt (hk : InStep D C S) (hdistinct : Set.InjOn D.deriveUdpId C)
    {i : (ClientId → Bool) × Move} (hi : ∀ c token, i.2 = .auth c token → c ∈ C)
    (hkeep : KeepsShared D S i) : InStep D C (attempt D S i).1 := by
  obtain ⟨h, hr⟩ := hk.recorded
  refine ⟨?_, (relocation_attempt hr i).inverse hk.inverse hkeep⟩
  unfold Server.attempt
  cases hs : serve D i.1 i.2 S with
  | none => exact ⟨h, hr⟩
  | some S' => exact ⟨_, hr.serve hdistinct hi hs⟩

theorem InStep.lost (hk : InStep D C S) {i : (ClientId → Bool) × Move} (hbreak : ¬ KeepsShared D S i) :
    ¬ (Server.attempt D S i).1.world.state.AddrsInverse := by
  obtain ⟨h, hr⟩ := hk.recorded
  obtain ⟨c, hc⟩ := not_forall.mp hbreak
  obtain ⟨hc, hs⟩ := Classical.not_imp.mp hc
  exact (relocation_attempt hr i).not_inverse hc (not_not.mp hs)

/-- **When the address map is an inverse.** In a run of requests and datagrams served one at a
time, of clients with distinct numeric ids, the map leads from each address of a client back to
a client that has it, and from no other, in every state between two of them, exactly if no
client is moved or disconnected while another one has its address. -/
theorem addrs_inverse_iff (is : List ((ClientId → Bool) × Move))
    (hdistinct : Set.InjOn D.deriveUdpId (authenticating is)) :
    (∀ done, done <+: is →
      (Machine.run (attempt D) (Serial.initial D) done).world.state.AddrsInverse) ↔
    Machine.Along (attempt D) (KeepsShared D) (Serial.initial D) is := by
  refine Machine.kept_iff_along (fun S (hk : InStep D (authenticating is) S) => hk.inverse)
    (fun S i (hi : ∀ c token, i.2 = .auth c token → c ∈ authenticating is) hk hkeep =>
      hk.attempt hdistinct hi hkeep)
    (fun S i _ hk hbreak => hk.lost hbreak) inStep_initial ?_
  rintro ⟨up, m⟩ hi c token rfl
  exact ⟨up, token, hi⟩

/-- Clients "a" and "b" are heard from at one address, and "a" disconnects. -/
def oneAddress : List ((ClientId → Bool) × Move) :=
  [.auth "a" "alice", .auth "b" "bob", .datagram (headerOnly 1 1) ⟨10, 20⟩,
    .datagram (headerOnly 2 1) ⟨10, 20⟩, .incoming "a" 0 .closed].map (fun _ => true, ·)

theorem injOn_oneAddress : Set.InjOn twoIds.deriveUdpId (authenticating oneAddress) := by
  have hsub : authenticating oneAddress ⊆ {"a", "b"} := by
    rintro c ⟨up, token, hc⟩
    simp only [oneAddress, List.map_cons, List.map_nil, List.mem_cons, Prod.mk.injEq, Move.auth.injEq,
      reduceCtorEq, and_false, List.not_mem_nil, or_false] at hc
    rcases hc with ⟨-, rfl, -⟩ | ⟨-, rfl, -⟩
    · exact .inl rfl
    · exact .inr rfl
  refine Set.InjOn.mono hsub ?_
  rintro x (rfl | rfl) y (rfl | rfl) <;> simp [twoIds]

theorem not_inverse_oneAddress : ¬ (Machine.run (attempt twoIds) (Serial.initial twoIds)
    oneAddress).world.state.AddrsInverse := by
  have hlost : (fun s : ServerState => (s.addrOf "b", s.udpAddrToClient ⟨10, 20⟩))
      (Machine.run (attempt twoIds) (Serial.initial twoIds) oneAddress).world.state =
        (some ⟨10, 20⟩, none) := by decide +kernel
  obtain ⟨haddr, hentry⟩ := Prod.mk.inj hlost
  intro h
  obtain ⟨d, hd, -⟩ := h.listed _ _ haddr
  cases hentry.symm.trans hd

theorem addrs_inverse_iff_oneAddress :
    ¬ Machine.Along (attempt twoIds) (KeepsShared twoIds) (Serial.initial twoIds) oneAddress :=
  fun h => not_inverse_oneAddress
    ((addrs_inverse_iff oneAddress injOn_oneAddress).mpr h _ (List.prefix_refl _))

/-- The client that disconnects takes the entry of the other one with it. -/
theorem shared_address_lost : ¬ ∀ (is : List ((ClientId → Bool) × Move)),
    Set.InjOn twoIds.deriveUdpId (authenticating is) → ∀ done, done <+: is →
      (Machine.run (attempt twoIds) (Serial.initial twoIds) done).world.state.AddrsInverse :=
  fun h => not_inverse_oneAddress (h oneAddress injOn_oneAddress _ (List.prefix_refl _))

end AudioPlatform.Server
