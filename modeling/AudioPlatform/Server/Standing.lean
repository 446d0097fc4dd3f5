import AudioPlatform.Server.System

/-! What the maps say about one client, under every interleaving.

The member sets, the client records and the routing map say the same thing about
a client in four places that are written one after the other. Only a client's own
handler writes what they say about it, so the proof follows one handler and lets
the others do anything to the other clients: `Stands` is what the maps say about
one client, half-finished requests included, and each operation is a change of
standing. -/
namespace AudioPlatform.Server
open Concurrency

variable (D : Deployment)

/-- The part of a record that signaling changes. -/
def Client.standing (cl : Client) : Option ChannelId × Bool := (cl.channelId, cl.speaking)

/-- What holds of the maps at every moment. -/
structure Sound (s : ServerState) : Prop where
  registered : ∀ c n, c ∈ s.members n → (s.clients c).isSome
  udpClientId : ∀ c cl, s.clients c = some cl → cl.udpClientId = D.deriveUdpId c
  routed : ∀ u c, s.udpIdToClient u = some c → u = D.deriveUdpId c

/-- What sound maps say about client `c`: its record, the channel that lists it, and
whether its numeric id leads to it. The last is claimed only under `ud`, the
assumption that numeric ids are distinct. -/
structure Stands (ud : Prop) (c : ClientId) (reg : Option (Option ChannelId × Bool))
    (mem : Option ChannelId) (routed : Bool) (s : ServerState) : Prop where
  sound : Sound D s
  reg : (s.clients c).map Client.standing = reg
  mem : ∀ n, c ∈ s.members n ↔ mem = some n
  routed : ud → ∀ u, s.udpIdToClient u = some c ↔ routed = true ∧ u = D.deriveUdpId c

/-- The maps say the same about `c` as before. -/
structure Kept (c : ClientId) (s s' : ServerState) : Prop where
  reg : (s'.clients c).map Client.standing = (s.clients c).map Client.standing
  mem : ∀ n, c ∈ s'.members n ↔ c ∈ s.members n

def SameChannels (s s' : ServerState) : Prop :=
  ∀ n, (s'.channels n).isSome = (s.channels n).isSome

/-- At rest: registered in the channel that lists it, or nowhere. -/
def Settled (ud : Prop) (c : ClientId) (φ : Phase) (s : ServerState) : Prop :=
  match φ with
  | .idle => ∃ n b, (b = true → n ≠ none) ∧ Stands D ud c (some (n, b)) n true s
  | .connecting | .closed => Stands D ud c none none false s

/-- The others leave what the maps say about a handler's client; a handler leaves
what they say about the others, and changes the routing only at its own numeric id. -/
def outline (ud : Prop) : Outline Task Phase Shared Unit where
  rely t s s' := SameChannels s.world.state s'.world.state ∧ ∀ c, t = .conn c →
    Kept c s.world.state s'.world.state ∧
    (ud → ∀ u, s'.world.state.udpIdToClient u = some c ↔ s.world.state.udpIdToClient u = some c)
  guar t _ s _ s' := SameChannels s.world.state s'.world.state ∧
    (∀ c, t ≠ .conn c → Kept c s.world.state s'.world.state) ∧
    (∀ u, s'.world.state.udpIdToClient u ≠ s.world.state.udpIdToClient u → ∃ c, t = .conn c ∧
      u = D.deriveUdpId c ∧ ∀ d, s'.world.state.udpIdToClient u = some d → d = c) ∧
    Sound D s'.world.state
  rest t φ _ s := ∀ c, t = .conn c → Settled D ud c φ s.world.state
  common _ s := Sound D s.world.state
  inv s := Sound D s.world.state
  rely_refl _ _ := ⟨fun _ => rfl, fun _ _ => ⟨⟨rfl, fun _ => Iff.rfl⟩, fun _ _ => Iff.rfl⟩⟩
  rely_trans _ _ _ _ h h' := ⟨fun n => (h'.1 n).trans (h.1 n), fun c hc =>
    ⟨⟨(h'.2 c hc).1.reg.trans (h.2 c hc).1.reg,
      fun n => ((h'.2 c hc).1.mem n).trans ((h.2 c hc).1.mem n)⟩,
      fun hud u => ((h'.2 c hc).2 hud u).trans ((h.2 c hc).2 hud u)⟩⟩
  common_inv _ _ h := h

variable {D} {ud : Prop} {c : ClientId} {reg : Option (Option ChannelId × Bool)}
  {mem : Option ChannelId} {routed : Bool} {s s' : Shared} {α : Type}

/-- The judgement of this file. -/
abbrev Holds (D : Deployment) (ud : Prop) (t : Task) (post : α → Shared → Prop) (p : Prog α)
    (s : Shared) : Prop :=
  (outline D ud).Meets (system D) t (fun a _ s => post a s) p () s

theorem Stands.rely (h : Stands D ud c reg mem routed s.world.state)
    (hr : (outline D ud).rely (.conn c) s s') (hsound : Sound D s'.world.state) :
    Stands D ud c reg mem routed s'.world.state := by
  obtain ⟨hk, hu⟩ := hr.2 c rfl
  exact ⟨hsound, hk.reg.trans h.reg, fun n => (hk.mem n).trans (h.mem n),
    fun hud u => (hu hud u).trans (h.routed hud u)⟩

/-! ### Actions that change nothing the maps say about anyone -/

theorem kept_udpAddr (s : ServerState) (c d : ClientId) (a : SocketAddr) :
    Kept d s (s.updateClient c (.udpAddr a)) := by
  refine ⟨?_, fun n => Iff.rfl⟩
  by_cases hd : d = c
  · subst hd
    rw [clients_updateClient_self, Option.map_map]
    rfl
  · rw [clients_updateClient_of_ne s _ hd]

theorem sound_updateClient {s : ServerState} (h : Sound D s) (c : ClientId) (u : ClientUpdate) :
    Sound D (s.updateClient c u) := by
  refine ⟨fun d n hd => ?_, fun d cl hcl => ?_, h.routed⟩
  · have := h.registered d n hd
    by_cases hd : d = c
    · subst hd
      rw [clients_updateClient_self, Option.isSome_map]
      exact this
    · rw [clients_updateClient_of_ne s _ hd]
      exact this
  · by_cases hd : d = c
    · subst hd
      rw [clients_updateClient_self] at hcl
      obtain ⟨cl', hcl', rfl⟩ := Option.map_eq_some_iff.mp hcl
      rw [← h.udpClientId d cl' hcl']
      cases u <;> rfl
    · rw [clients_updateClient_of_ne s _ hd] at hcl
      exact h.udpClientId d cl hcl

theorem neutral_apply {o : Op} (hn : o.Neutral) (s : ServerState) :
    SameChannels s (o.apply s) ∧ (∀ d, Kept d s (o.apply s)) ∧
      (o.apply s).udpIdToClient = s.udpIdToClient ∧ (Sound D s → Sound D (o.apply s)) := by
  cases o with
  | insertMember | removeMember | insertClient | removeClient | insertUdpId | removeUdpId =>
    exact hn.elim
  | updateClient c u =>
    obtain ⟨a, rfl⟩ := hn
    exact ⟨fun n => rfl, fun d => kept_udpAddr s c d a, rfl, fun h => sound_updateClient h c _⟩
  | setClient c u =>
    obtain ⟨a, rfl⟩ := hn
    exact ⟨fun n => rfl, fun d => kept_udpAddr s c d a, rfl, fun h => sound_updateClient h c _⟩
  | insertUdpAddr | removeUdpAddr =>
    exact ⟨fun n => rfl, fun d => ⟨rfl, fun n => Iff.rfl⟩, rfl,
      fun h => ⟨h.registered, h.udpClientId, h.routed⟩⟩
  | _ => exact ⟨fun n => rfl, fun d => ⟨rfl, fun n => Iff.rfl⟩, rfl, fun h => h⟩

/-- A neutral action of any task. -/
theorem holds_neutral {t : Task} {o : Op} {f : o.Result → Prog α} {post : α → Shared → Prop}
    (hn : o.Neutral)
    (h : ∀ u v r up, (outline D ud).rely t s u → Sound D u.world.state →
      o.returns up u.world.state = some r → (outline D ud).rely t u v → Sound D v.world.state →
      Holds D ud t post (f r) v) : Holds D ud t post (.act o f) s := by
  rintro u hu hsound r v ⟨up, -, he⟩
  obtain ⟨_, hret, rfl⟩ := act_eq_some D he
  obtain ⟨hch, hkept, hudp, hsound'⟩ := neutral_apply (D := D) hn u.world.state
  exact ⟨(), ⟨hch, fun d _ => hkept d, fun k hk => absurd (congrFun hudp k) hk, hsound' hsound⟩,
    h u _ r up hu hsound hret ⟨hch, fun d _ => ⟨hkept d, fun _ k => by rw [hudp]⟩⟩
      (hsound' hsound)⟩

/-- A neutral action of a handler: it keeps its client's standing, and what it
returns was so in a state with that standing. -/
theorem stands_neutral {o : Op} {f : o.Result → Prog α} {post : α → Shared → Prop}
    (hn : o.Neutral) (hs : Stands D ud c reg mem routed s.world.state)
    (h : ∀ (u : ServerState) (v : Shared) r up, SameChannels s.world.state u →
      Stands D ud c reg mem routed u → o.returns up u = some r →
      SameChannels s.world.state v.world.state →
      Stands D ud c reg mem routed v.world.state → Holds D ud (.conn c) post (f r) v) :
    Holds D ud (.conn c) post (.act o f) s :=
  holds_neutral hn fun u v r up hu hsound hret hv hsound' =>
    h u.world.state v r up hu.1 (hs.rely hu hsound) hret
      (fun n => (hv.1 n).trans (hu.1 n)) ((hs.rely hu hsound).rely hv hsound')

/-! ### Actions by which a handler changes its client's standing -/

/-- What a handler may do to the maps: anything to what they say about its own
client, and to the routing of its own numeric id. -/
structure Own (D : Deployment) (c : ClientId) (s s' : ServerState) : Prop where
  channels : SameChannels s s'
  kept : ∀ d, d ≠ c → Kept d s s'
  routing : ∀ u, s'.udpIdToClient u ≠ s.udpIdToClient u →
    u = D.deriveUdpId c ∧ ∀ d, s'.udpIdToClient u = some d → d = c

theorem stands_own {o : Op} {f : o.Result → Prog α} {post : α → Shared → Prop}
    {reg' : Option (Option ChannelId × Bool)} {mem' : Option ChannelId} {routed' : Bool}
    (hs : Stands D ud c reg mem routed s.world.state)
    (hown : ∀ u, SameChannels s.world.state u → Stands D ud c reg mem routed u →
      Own D c u (o.apply u) ∧ Stands D ud c reg' mem' routed' (o.apply u))
    (h : ∀ (u : ServerState) (v : Shared) r up, Stands D ud c reg mem routed u →
      o.returns up u = some r → SameChannels s.world.state v.world.state →
      Stands D ud c reg' mem' routed' v.world.state → Holds D ud (.conn c) post (f r) v) :
    Holds D ud (.conn c) post (.act o f) s := by
  rintro u hu hsound r v ⟨up, -, he⟩
  obtain ⟨_, hret, rfl⟩ := act_eq_some D he
  have hs' := hs.rely hu hsound
  obtain ⟨hown, hs''⟩ := hown _ hu.1 hs'
  refine ⟨(), ⟨hown.channels, fun d hd => hown.kept d fun he => hd (he ▸ rfl), fun k hk => ?_,
    hs''.sound⟩, h u.world.state _ r up hs' hret (fun n => ?_) hs''⟩
  · exact ⟨c, rfl, hown.routing k hk⟩
  · exact (hown.channels n).trans (hu.1 n)

theorem own_updateClient (s : ServerState) (c : ClientId) (u : ClientUpdate) :
    Own D c s (s.updateClient c u) where
  channels _ := rfl
  kept d hd := ⟨by rw [clients_updateClient_of_ne s _ hd], fun _ => Iff.rfl⟩
  routing _ hk := absurd rfl hk

/-- Writing the channel field. -/
theorem stands_setChannel {s : ServerState} {k : Option ChannelId} {b : Bool} (n : Option ChannelId)
    (h : Stands D ud c (some (k, b)) mem routed s) :
    Stands D ud c (some (n, b)) mem routed (s.updateClient c (.channelId n)) where
  sound := sound_updateClient h.sound c _
  reg := by
    have := h.reg
    rw [clients_updateClient_self]
    cases hc : s.clients c with
    | none => rw [hc] at this; cases this
    | some cl =>
      rw [hc] at this
      cases this
      rfl
  mem := h.mem
  routed := h.routed

/-- Writing the speaking field. -/
theorem stands_setSpeaking {s : ServerState} {n : Option ChannelId} {b : Bool} (b' : Bool)
    (h : Stands D ud c (some (n, b)) mem routed s) :
    Stands D ud c (some (n, b')) mem routed (s.updateClient c (.speaking b')) where
  sound := sound_updateClient h.sound c _
  reg := by
    have := h.reg
    rw [clients_updateClient_self]
    cases hc : s.clients c with
    | none => rw [hc] at this; cases this
    | some cl =>
      rw [hc] at this
      cases this
      rfl
  mem := h.mem
  routed := h.routed

theorem own_insertMember {s : ServerState} {n : ChannelId} {x : Option ChannelId × Bool}
    (hex : (s.channels n).isSome) (h : Stands D ud c (some x) none routed s) :
    Own D c s (s.updateMembers n (·.insert c)) ∧
      Stands D ud c (some x) (some n) routed (s.updateMembers n (·.insert c)) := by
  have hreg : (s.clients c).isSome := by
    rw [← Option.isSome_map (f := Client.standing), h.reg]
    rfl
  refine ⟨⟨fun m => by rw [isSome_updateMembers], fun d hd => ⟨rfl, fun m => ?_⟩,
    fun k hk => absurd rfl hk⟩, ⟨fun d m hd => ?_, h.sound.udpClientId, h.sound.routed⟩,
    h.reg, fun m => ?_, h.routed⟩
  · rw [mem_updateMembers_insert s n m c d hex]
    simp [hd]
  · rw [mem_updateMembers_insert s n m c d hex] at hd
    rcases hd with hd | ⟨rfl, rfl⟩
    · exact h.sound.registered d m hd
    · exact hreg
  · rw [mem_updateMembers_insert s n m c c hex, h.mem m]
    simp [eq_comm]

theorem own_removeMember {s : ServerState} (n : ChannelId)
    (h : Stands D ud c reg mem routed s) :
    Own D c s (s.updateMembers n (·.remove c)) ∧
      Stands D ud c reg (if mem = some n then none else mem) routed
        (s.updateMembers n (·.remove c)) := by
  refine ⟨⟨fun m => by rw [isSome_updateMembers], fun d hd => ⟨rfl, fun m => ?_⟩,
    fun k hk => absurd rfl hk⟩, ⟨fun d m hd => ?_, h.sound.udpClientId, h.sound.routed⟩,
    h.reg, fun m => ?_, h.routed⟩
  · rw [mem_updateMembers_remove s n m c d]
    simp [hd]
  · rw [mem_updateMembers_remove s n m c d] at hd
    exact h.sound.registered d m hd.1
  · rw [mem_updateMembers_remove s n m c c, h.mem m]
    split
    · rename_i hmem
      subst hmem
      simp [eq_comm]
    · rename_i hmem
      constructor
      · exact fun hm => hm.1
      · rintro rfl
        exact ⟨rfl, fun he => hmem (by rw [he.2])⟩

theorem own_insertClient {s : ServerState} (name : String)
    (h : Stands D ud c none none false s) :
    Own D c s (s.putClient c (some (Client.new c (D.deriveUdpId c) name))) ∧
      Stands D ud c (some (none, false)) none false
        (s.putClient c (some (Client.new c (D.deriveUdpId c) name))) := by
  refine ⟨⟨fun m => rfl, fun d hd => ⟨?_, fun m => Iff.rfl⟩, fun k hk => absurd rfl hk⟩,
    ⟨fun d m hd => ?_, fun d cl hcl => ?_, h.sound.routed⟩, ?_, h.mem, h.routed⟩
  · rw [clients_putClient_of_ne s hd]
  · by_cases hdc : d = c
    · subst hdc
      rw [clients_putClient_self]
      rfl
    · rw [clients_putClient_of_ne s hdc]
      exact h.sound.registered d m hd
  · by_cases hdc : d = c
    · subst hdc
      rw [clients_putClient_self] at hcl
      cases hcl
      rfl
    · rw [clients_putClient_of_ne s hdc] at hcl
      exact h.sound.udpClientId d cl hcl
  · rw [clients_putClient_self]
    rfl

theorem own_removeClient {s : ServerState}
    (h : Stands D ud c reg none routed s) :
    Own D c s (s.putClient c none) ∧ Stands D ud c none none routed (s.putClient c none) := by
  refine ⟨⟨fun m => rfl, fun d hd => ⟨?_, fun m => Iff.rfl⟩, fun k hk => absurd rfl hk⟩,
    ⟨fun d m hd => ?_, fun d cl hcl => ?_, h.sound.routed⟩, ?_, h.mem, h.routed⟩
  · rw [clients_putClient_of_ne s hd]
  · have hdc : d ≠ c := by
      rintro rfl
      cases (h.mem m).mp hd
    rw [clients_putClient_of_ne s hdc]
    exact h.sound.registered d m hd
  · have hdc : d ≠ c := by
      rintro rfl
      rw [clients_putClient_self] at hcl
      cases hcl
    rw [clients_putClient_of_ne s hdc] at hcl
    exact h.sound.udpClientId d cl hcl
  · rw [clients_putClient_self]
    rfl

/-- Setting or clearing the routing of the client's own numeric id. -/
theorem own_putUdpId {s : ServerState} (b : Bool)
    (h : Stands D ud c reg mem routed s) :
    Own D c s (s.putUdpId (D.deriveUdpId c) (if b then some c else none)) ∧
      Stands D ud c reg mem b (s.putUdpId (D.deriveUdpId c) (if b then some c else none)) := by
  refine ⟨⟨fun m => rfl, fun d _ => ⟨rfl, fun m => Iff.rfl⟩, fun k hk => ?_⟩,
    ⟨h.sound.registered, h.sound.udpClientId, fun k d hd => ?_⟩, h.reg, h.mem, fun hud k => ?_⟩
  · have hkc : k = D.deriveUdpId c := by
      by_contra hkc
      exact hk (udpIdToClient_putUdpId_of_ne s hkc _)
    subst hkc
    cases b <;> simp
  · by_cases hkc : k = D.deriveUdpId c
    · subst hkc
      cases b <;> simp at hd
      rw [hd]
    · rw [udpIdToClient_putUdpId_of_ne s hkc] at hd
      exact h.sound.routed k d hd
  · by_cases hkc : k = D.deriveUdpId c
    · subst hkc
      cases b <;> simp
    · rw [udpIdToClient_putUdpId_of_ne s hkc]
      constructor
      · exact fun hk => absurd ((h.routed hud k).mp hk).2 hkc
      · exact fun hk => absurd hk.2 hkc

end AudioPlatform.Server
