import AudioPlatform.Server.Standing

/-! Membership coherence under every interleaving: each operation is followed action
by action, from a client at rest to a client at rest. -/
namespace AudioPlatform.Server
open Concurrency

variable {D : Deployment} {ud : Prop} {c : ClientId} {reg : Option (Option ChannelId × Bool)}
  {mem : Option ChannelId} {routed : Bool} {s s' : Shared} {α : Type}

/-! ### The operations -/

theorem holds_bind {t : Task} {β : Type} {p : Prog α} {f : α → Prog β} {post : α → Shared → Prop}
    {post' : β → Shared → Prop} (h : Holds D ud t post p s) (hsound : Sound D s.world.state)
    (hf : ∀ a v, Sound D v.world.state → post a v → Holds D ud t post' (f a) v) :
    Holds D ud t post' (p >>= f) s :=
  h.bind hsound (fun _ _ _ _ _ _ hg => hg.2.2.2) fun a _ v hv hp => hf a v hv hp

/-- A program that keeps its client's standing. -/
abbrev Keeps (D : Deployment) (ud : Prop) (c : ClientId) (reg : Option (Option ChannelId × Bool))
    (mem : Option ChannelId) (routed : Bool) (p : Prog α) : Prop :=
  ∀ s : Shared, Stands D ud c reg mem routed s.world.state →
    Holds D ud (.conn c) (fun _ v => SameChannels s.world.state v.world.state ∧
      Stands D ud c reg mem routed v.world.state) p s

theorem holds_done {post : α → Shared → Prop} {a : α}
    (hs : Stands D ud c reg mem routed s.world.state)
    (h : ∀ v : Shared, SameChannels s.world.state v.world.state →
      Stands D ud c reg mem routed v.world.state → post a v) :
    Holds D ud (.conn c) post (.done a) s :=
  fun v hv hsound => h v hv.1 (hs.rely hv hsound)

theorem keeps_done (a : α) : Keeps D ud c reg mem routed (.done a : Prog α) :=
  fun _ hs => holds_done hs fun _ hch hv => ⟨hch, hv⟩

theorem holds_keeps {p : Prog α} {post : α → Shared → Prop} (hp : Keeps D ud c reg mem routed p)
    (hs : Stands D ud c reg mem routed s.world.state)
    (h : ∀ a (v : Shared), SameChannels s.world.state v.world.state →
      Stands D ud c reg mem routed v.world.state → post a v) : Holds D ud (.conn c) post p s :=
  (hp s hs).mono fun a _ v _ hv => h a v hv.1 hv.2

theorem keeps_act {o : Op} {f : o.Result → Prog α} (hn : o.Neutral)
    (hf : ∀ r, Keeps D ud c reg mem routed (f r)) : Keeps D ud c reg mem routed (.act o f) :=
  fun _ hs => stands_neutral hn hs fun _ v r _ _ _ _ hch hv =>
    (hf r v hv).mono fun _ _ _ _ h => ⟨fun n => (h.1 n).trans (hch n), h.2⟩

theorem keeps_bind {β : Type} {p : Prog α} {f : α → Prog β} (hp : Keeps D ud c reg mem routed p)
    (hf : ∀ a, Keeps D ud c reg mem routed (f a)) : Keeps D ud c reg mem routed (p >>= f) :=
  fun s hs => holds_bind (hp s hs) hs.sound fun a v _ hv =>
    (hf a v hv.2).mono fun _ _ _ _ h => ⟨fun n => (h.1 n).trans (hv.1 n), h.2⟩

theorem keeps_all {p : Prog α} (h : p.All Op.Neutral) : Keeps D ud c reg mem routed p := by
  induction p with
  | done a => exact keeps_done a
  | act o next ih => exact keeps_act h.1 fun r => ih r (h.2 r)

theorem keeps_broadcast (ids : List ClientId) (ex : ClientId) (msg : ServerMessage) :
    Keeps D ud c reg mem routed (broadcastToMembers ids ex msg) :=
  keeps_all (all_broadcast fun _ => ⟨trivial, trivial, trivial⟩)

theorem keeps_collect (ids : List ClientId) :
    Keeps D ud c reg mem routed (collectMemberInfo ids) :=
  keeps_all ((all_collect ids).mono fun _ => Op.Mute.neutral)

theorem keeps_sendToClient (d : ClientId) (msg : ServerMessage) :
    Keeps D ud c reg mem routed (sendToClient d msg) :=
  keeps_all (all_sendToClient ⟨trivial, trivial, trivial⟩)

/-- The record a handler reads is its standing. -/
theorem Stands.client {s : ServerState} {x : Option ChannelId × Bool}
    (h : Stands D ud c (some x) mem routed s) :
    ∃ cl, s.clients c = some cl ∧ cl.channelId = x.1 ∧ cl.speaking = x.2 := by
  have hreg := h.reg
  cases hc : s.clients c with
  | none => rw [hc] at hreg; cases hreg
  | some cl =>
    rw [hc] at hreg
    cases hreg
    exact ⟨cl, rfl, rfl, rfl⟩

/-- A snapshot of a channel lists the client if its standing says so. -/
theorem Stands.listed {s : ServerState} {n : ChannelId} {ch : Channel}
    (h : Stands D ud c reg mem routed s) (hch : s.channels n = some ch) :
    c ∈ ch.members ↔ mem = some n := by
  rw [← members_eq hch]
  exact h.mem n

/-- The standing of a registered client at rest. -/
def Seated (D : Deployment) (ud : Prop) (c : ClientId) (s : Shared) : Prop :=
  Settled D ud c .idle s.world.state

theorem seated_of {n : Option ChannelId} {b : Bool} {s : Shared} (hb : b = true → n ≠ none)
    (h : Stands D ud c (some (n, b)) n true s.world.state) : Seated D ud c s := ⟨n, b, hb, h⟩

/-- The operation ends with the client registered where it is listed. -/
abbrev Seats (D : Deployment) (ud : Prop) (c : ClientId) (p : Prog α) (s : Shared) : Prop :=
  Holds D ud (.conn c) (fun _ v => Seated D ud c v) p s

theorem seats_of_keeps {p : Prog α} {n : Option ChannelId} {b : Bool} (hb : b = true → n ≠ none)
    (hp : Keeps D ud c (some (n, b)) n true p)
    (hs : Stands D ud c (some (n, b)) n true s.world.state) : Seats D ud c p s :=
  holds_keeps hp hs fun _ _ _ => seated_of hb

theorem seats_joinChannel (n : ChannelId) (hs : Seated D ud c s) :
    Seats D ud c (joinChannel c n) s := by
  obtain ⟨m, b, hb, hs⟩ := hs
  have fails : ∀ e : String, Keeps D ud c (some (m, b)) m true
      (.act (.dropChannel n true) fun _ => .done (.error e) :
        Prog (Except String (List ChannelMemberInfo))) :=
    fun e => keeps_act trivial fun _ => keeps_done _
  refine stands_neutral trivial hs fun u v r _ huch hu hr hvch hv => ?_
  cases r with
  | none => exact seats_of_keeps hb (keeps_done _) hv
  | some channel =>
    have hch : (s.world.state.channels n).isSome := by
      rw [← huch n, Option.some.inj hr]
      rfl
    refine stands_neutral trivial hv fun u' w r _ _ hu' hr hwch hw => ?_
    cases r with
    | none => exact seats_of_keeps hb (fails _) hw
    | some client =>
      obtain ⟨cl, hcl, hclm, -⟩ := hu'.client
      obtain rfl : cl = client := Option.some.inj (hcl.symm.trans (Option.some.inj hr))
      dsimp only at hclm
      subst hclm
      dsimp only [Program.bind]
      cases hm : cl.channelId with
      | some current =>
        rw [hm] at hw hb fails
        exact seats_of_keeps hb (fails _) hw
      | none =>
        rw [hm] at hw hb
        obtain rfl : b = false := by
          cases b
          · rfl
          · exact absurd rfl (hb rfl)
        -- The channel exists and the client is in none: it is inserted, then marked.
        refine holds_bind (keeps_collect _ w hw) hw.sound fun infos x _ hx => ?_
        have hxch : (x.world.state.channels n).isSome := by
          rw [hx.1 n, hwch n, hvch n]
          exact hch
        refine stands_own hx.2 (fun u huch hu => own_insertMember ((huch n).trans hxch) hu)
          fun _ y _ _ _ _ _ hy => ?_
        refine stands_own hy (fun u _ hu => ⟨own_updateClient u c _, stands_setChannel (some n) hu⟩)
          fun u z r _ hu hr _ hz => ?_
        cases r with
        | none =>
          obtain ⟨_, hcl', _⟩ := hu.client
          cases hcl'.symm.trans (Option.some.inj hr)
        | some client =>
          refine seats_of_keeps (b := false) (by simp) (keeps_act trivial fun ids =>
            keeps_act trivial fun _ => keeps_bind (p := broadcastToMembers _ _ _)
              (keeps_broadcast _ _ _) fun _ => keeps_act trivial fun r => ?_) hz
          cases r <;> exact keeps_done _

/-- Stopping in channel `n`: a client listed there no longer speaks. -/
theorem holds_stopTransmit {m : Option ChannelId} {b : Bool} (n : ChannelId)
    (hb : b = true → m ≠ none) (hs : Stands D ud c (some (m, b)) m true s.world.state) :
    Holds D ud (.conn c) (fun _ v => ∃ b', (b' = true → m ≠ none ∧ m ≠ some n) ∧
      SameChannels s.world.state v.world.state ∧
      Stands D ud c (some (m, b')) m true v.world.state) (stopTransmit c n) s := by
  refine stands_neutral trivial hs fun u v r _ huch hu hr hvch hv => ?_
  -- Where the client is not in `n`, nothing is written.
  have elsewhere : ∀ {w : Shared} {e : Except String Unit}, m ≠ some n →
      SameChannels s.world.state w.world.state →
      Stands D ud c (some (m, b)) m true w.world.state →
      Holds D ud (.conn c) (fun _ v => ∃ b', (b' = true → m ≠ none ∧ m ≠ some n) ∧
        SameChannels s.world.state v.world.state ∧
        Stands D ud c (some (m, b')) m true v.world.state) (.done e) w :=
    fun hm hwch hw => holds_done hw fun x hx hxs =>
      ⟨b, fun h => ⟨hb h, hm⟩, fun k => (hx k).trans (hwch k), hxs⟩
  cases r with
  | none =>
    refine elsewhere (fun hm => ?_) hvch hv
    have := (hu.mem n).mpr hm
    simp [ServerState.members, Option.some.inj hr] at this
  | some channel =>
    have hlisted : c ∈ channel.members ↔ m = some n := hu.listed (Option.some.inj hr)
    refine stands_neutral trivial hv fun _ w _ _ _ _ _ hwch hw => ?_
    have hwch : SameChannels s.world.state w.world.state := fun k => (hwch k).trans (hvch k)
    dsimp only
    split
    · rename_i hout
      exact elsewhere (fun hm => hout (hlisted.mpr hm)) hwch hw
    · refine stands_own hw
        (fun u _ hu => ⟨own_updateClient u c _, stands_setSpeaking false hu⟩)
        fun _ x r _ _ _ hxch hx => ?_
      have stopped : ∀ {p : Prog (Except String Unit)}, Keeps D ud c (some (m, false)) m true p →
          Holds D ud (.conn c) (fun _ v => ∃ b', (b' = true → m ≠ none ∧ m ≠ some n) ∧
            SameChannels s.world.state v.world.state ∧
            Stands D ud c (some (m, b')) m true v.world.state) p x :=
        fun hp => holds_keeps hp hx fun _ y hych hy =>
          ⟨false, by simp, fun k => ((hych k).trans (hxch k)).trans (hwch k), hy⟩
      cases r with
      | none => exact stopped (keeps_done _)
      | some client =>
        apply stopped
        dsimp only [Program.bind]
        split
        · exact keeps_bind (keeps_broadcast _ _ _) fun _ => keeps_done _
        · exact keeps_done _

theorem seats_stopTransmit (n : ChannelId) (hs : Seated D ud c s) :
    Seats D ud c (stopTransmit c n) s := by
  obtain ⟨m, b, hb, hs⟩ := hs
  refine (holds_stopTransmit n hb hs).mono fun _ _ v _ hv => ?_
  obtain ⟨b', hb', -, hv⟩ := hv
  exact seated_of (fun h => (hb' h).1) hv

theorem seats_startTransmit (n : ChannelId) (hs : Seated D ud c s) :
    Seats D ud c (startTransmit c n) s := by
  obtain ⟨m, b, hb, hs⟩ := hs
  refine stands_neutral trivial hs fun u v r _ huch hu hr hvch hv => ?_
  cases r with
  | none => exact seats_of_keeps hb (keeps_done _) hv
  | some channel =>
    have hlisted : c ∈ channel.members ↔ m = some n := hu.listed (Option.some.inj hr)
    refine stands_neutral trivial hv fun _ w _ _ _ _ _ _ hw => ?_
    dsimp only
    split
    · exact seats_of_keeps hb (keeps_done _) hw
    · rename_i hin
      obtain rfl := hlisted.mp (not_not.mp hin)
      refine stands_own hw
        (fun u _ hu => ⟨own_updateClient u c _, stands_setSpeaking true hu⟩)
        fun _ x r _ _ _ _ hx => ?_
      exact seats_of_keeps (b := true) (by simp)
        (keeps_bind (p := broadcastToMembers _ _ _) (keeps_broadcast _ _ _) fun _ => keeps_done _) hx

/-- Leaving channel `n`: a client listed there is listed nowhere. -/
theorem holds_leaveChannel {m : Option ChannelId} {b : Bool} (n : ChannelId)
    (hb : b = true → m ≠ none) (hs : Stands D ud c (some (m, b)) m true s.world.state) :
    Holds D ud (.conn c) (fun _ v => ∃ b', (b' = true → m ≠ none ∧ m ≠ some n) ∧
      Stands D ud c (some (if m = some n then none else m, b')) (if m = some n then none else m)
        true v.world.state) (leaveChannel c n) s := by
  refine holds_bind (holds_stopTransmit n hb hs) hs.sound fun _ v _ hv => ?_
  obtain ⟨b', hb', -, hv⟩ := hv
  have elsewhere : ∀ {w : Shared} {p : Prog (Except String Unit)}, m ≠ some n →
      Keeps D ud c (some (m, b')) m true p → Stands D ud c (some (m, b')) m true w.world.state →
      Holds D ud (.conn c) (fun _ v => ∃ b', (b' = true → m ≠ none ∧ m ≠ some n) ∧
        Stands D ud c (some (if m = some n then none else m, b')) (if m = some n then none else m)
          true v.world.state) p w := by
    intro w p hm hp hw
    rw [if_neg hm]
    exact holds_keeps hp hw fun _ _ _ h => ⟨b', hb', h⟩
  refine stands_neutral trivial hv fun u w r _ _ hu hr _ hw => ?_
  cases r with
  | none =>
    refine elsewhere (fun hm => ?_) (keeps_done _) hw
    have := (hu.mem n).mpr hm
    simp [ServerState.members, Option.some.inj hr] at this
  | some channel =>
    refine stands_own hw (fun u _ hu => own_removeMember n hu) fun u x r _ hu hr _ hx => ?_
    have hlisted : r = decide (m = some n) := by
      rw [← Option.some.inj hr]
      exact decide_eq_decide.mpr (hu.mem n)
    subst hlisted
    by_cases hm : m = some n
    · subst hm
      obtain rfl : b' = false := by
        cases b'
        · rfl
        · exact absurd rfl (hb' rfl).2
      rw [if_pos rfl] at hx ⊢
      rw [decide_eq_true rfl]
      refine stands_neutral trivial hx fun _ y _ _ _ _ _ _ hy => ?_
      refine stands_neutral trivial hy fun _ z _ _ _ _ _ _ hz => ?_
      refine stands_own hz
        (fun u _ hu => ⟨own_updateClient u c _, stands_setChannel none hu⟩)
        fun _ v _ _ _ _ _ hv => ?_
      exact holds_keeps (keeps_bind (p := broadcastToMembers _ _ _) (keeps_broadcast _ _ _)
        fun _ => keeps_done _) hv fun _ _ _ h => ⟨false, by simp, h⟩
    · rw [if_neg hm] at hx
      rw [decide_eq_false hm]
      exact elsewhere hm (keeps_act trivial fun _ => keeps_done _) hx

theorem seats_leaveChannel (n : ChannelId) (hs : Seated D ud c s) :
    Seats D ud c (leaveChannel c n) s := by
  obtain ⟨m, b, hb, hs⟩ := hs
  refine (holds_leaveChannel n hb hs).mono fun _ _ v _ hv => ?_
  obtain ⟨b', hb', hv⟩ := hv
  refine seated_of (fun h => ?_) hv
  rw [if_neg (hb' h).2]
  exact (hb' h).1

theorem holds_removeRecord {b : Bool}
    (hs : Stands D ud c (some (none, b)) none true s.world.state) :
    Holds D ud (.conn c) (fun _ v => Settled D ud c .closed v.world.state) (removeRecord c) s := by
  refine stands_own hs (fun _ _ hu => own_removeClient hu) fun u x r _ hu hr _ hx => ?_
  obtain ⟨cl, hcl, -, -⟩ := hu.client
  obtain rfl : r = some cl := (Option.some.inj hr).symm.trans hcl
  have hid : cl.udpClientId = D.deriveUdpId c := hu.sound.udpClientId c cl hcl
  have unroute : ∀ y : Shared, Stands D ud c none none true y.world.state →
      Holds D ud (.conn c) (fun _ v => Settled D ud c .closed v.world.state)
        (perform (.removeUdpId cl.udpClientId)) y := by
    intro y hy
    rw [hid]
    exact stands_own hy (fun _ _ hu => own_putUdpId false hu) fun _ _ _ _ _ _ _ hz =>
      holds_done hz fun _ _ h => h
  dsimp only [Program.bind]
  split
  · exact stands_neutral trivial hx fun _ y _ _ _ _ _ _ hy => unroute y hy
  · exact unroute x hx

/-- After the cleanup the maps say nothing about the client. -/
theorem holds_removeClient (hs : Seated D ud c s) :
    Holds D ud (.conn c) (fun _ v => Settled D ud c .closed v.world.state) (removeClient c) s := by
  obtain ⟨m, b, hb, hs⟩ := hs
  refine stands_neutral trivial hs fun u v r _ _ hu hr _ hv => ?_
  obtain ⟨cl, hcl, rfl, -⟩ := hu.client
  obtain rfl : r = some cl := (Option.some.inj hr).symm.trans hcl
  dsimp only [Program.bind, Option.bind_some]
  cases hm : cl.channelId with
  | none =>
    rw [hm] at hv
    exact holds_removeRecord hv
  | some n =>
    rw [hm] at hv
    refine holds_bind (holds_leaveChannel n (by simp) hv) hv.sound fun _ w _ hw => ?_
    obtain ⟨b', -, hw⟩ := hw
    rw [if_pos rfl] at hw
    exact holds_removeRecord hw

theorem holds_authenticate (token : String) (hs : Settled D ud c .connecting s.world.state) :
    Holds D ud (.conn c) (fun φ v => Settled D ud c φ v.world.state)
      (authenticate D.udpPort (D.deriveUdpId c) c token) s := by
  refine stands_neutral trivial hs fun _ v r _ _ _ _ _ hv => ?_
  cases r with
  | false => exact holds_done hv fun _ _ h => h
  | true =>
    refine stands_own hv (fun _ _ hu => own_insertClient _ hu) fun _ w _ _ _ _ _ hw => ?_
    refine stands_own hw (fun _ _ hu => own_putUdpId true hu) fun _ x _ _ _ _ _ hx => ?_
    exact holds_done hx fun _ _ h => ⟨none, false, by simp, h⟩

/-- The reply to a request, after which the client is idle. -/
theorem settled_reply (d : ClientId) (msg : ServerMessage) (hs : Seated D ud c s) :
    Holds D ud (.conn c) (fun φ v => Settled D ud c φ v.world.state)
      (sendToClient d msg >>= fun _ => .done .idle) s := by
  obtain ⟨n, b, hb, hs⟩ := hs
  exact holds_bind (keeps_sendToClient d msg s hs) hs.sound fun _ v _ hv =>
    holds_done hv.2 fun _ _ h => ⟨n, b, hb, h⟩

theorem settled_idle (hs : Seated D ud c s) :
    Holds D ud (.conn c) (fun φ v => Settled D ud c φ v.world.state) (.done .idle) s := by
  obtain ⟨n, b, hb, hs⟩ := hs
  exact holds_done hs fun _ _ h => ⟨n, b, hb, h⟩

/-- **Every request** leaves its client settled. -/
theorem holds_handleIncoming (now : BitVec 64) (m : Incoming) (hs : Seated D ud c s)
    (hsound : Sound D s.world.state) :
    Holds D ud (.conn c) (fun φ v => Settled D ud c φ v.world.state)
      (handleIncoming now c m) s := by
  cases m with
  | message m =>
    cases m with
    | auth token => exact settled_reply c _ hs
    | joinChannel n =>
      refine holds_bind (seats_joinChannel n hs) hsound fun r v _ hv => ?_
      cases r <;> exact settled_reply c _ hv
    | leaveChannel n =>
      refine holds_bind (seats_leaveChannel n hs) hsound fun r v _ hv => ?_
      cases r <;> exact settled_reply c _ hv
    | startTransmit n =>
      refine holds_bind (seats_startTransmit n hs) hsound fun r v _ hv => ?_
      cases r with
      | error e => exact settled_reply c _ hv
      | ok => exact settled_idle hv
    | stopTransmit n =>
      refine holds_bind (seats_stopTransmit n hs) hsound fun r v _ hv => ?_
      cases r with
      | error e => exact settled_reply c _ hv
      | ok => exact settled_idle hv
    | ping timestamp => exact settled_reply c _ hs
  | invalid e => exact settled_reply c _ hs
  | closed =>
    exact holds_bind (holds_removeClient hs) hsound fun _ v hv h =>
      fun w hw hws => h.rely hw hws

/-- A program of neutral actions, run by any task. -/
theorem holds_all {t : Task} {p : Prog α} (h : p.All Op.Neutral) (hsound : Sound D s.world.state) :
    Holds D ud t (fun _ _ => True) p s := by
  induction p generalizing s with
  | done a => exact fun _ _ _ => trivial
  | act o next ih => exact holds_neutral h.1 fun _ v r _ _ _ _ _ hv => ih r (h.2 r) hv

/-! ### The whole system -/

variable (D)

/-- Connected clients use distinct numeric ids. -/
def Distinct (cfg : ServerConfig) : Prop :=
  ∀ c d, Connected cfg c → Connected cfg d → D.deriveUdpId c = D.deriveUdpId d → c = d

variable {D} {cfg : ServerConfig}

theorem holds_start {t : Task} {φ : Phase} {p : Prog Phase}
    (hsound : Sound D s.world.state) (hs : ∀ c, t = .conn c → Settled D ud c φ s.world.state)
    (hp : Starts D t φ p) :
    Holds D ud t (fun φ s => ∀ c, t = .conn c → Settled D ud c φ s.world.state) p s := by
  have own : ∀ {c : ClientId} {p : Prog Phase},
      Holds D ud (.conn c) (fun φ v => Settled D ud c φ v.world.state) p s →
      Holds D ud (.conn c) (fun φ v => ∀ d, Task.conn c = .conn d → Settled D ud d φ v.world.state)
        p s :=
    fun h => h.mono fun φ _ v _ hv d hd => by cases hd; exact hv
  cases hp with
  | auth c token => exact own (holds_authenticate token (hs c rfl))
  | hangUp c => exact own fun v hv hvs => (hs c rfl : Stands D ud c none none false _).rely hv hvs
  | incoming c now m => exact own (holds_handleIncoming now m (hs c rfl) hsound)
  | datagram bytes src =>
    have hall := (all_handleDatagram bytes src).mono fun _ => Op.Mute.neutral
    exact holds_bind (holds_all hall hsound) hsound
      fun _ v hv _ => fun _ _ _ _ h => nomatch h

/-- A task at rest that is not connected has no record and no route. -/
theorem unrouted {γ : Task → Unit} (h : (outline D ud).Holds (system D) cfg γ)
    {c : ClientId} (hc : ¬ Connected cfg c) :
    Stands D ud c none none false cfg.shared.world.state := by
  unfold Connected at hc
  rw [not_and_or, not_not, not_not] at hc
  rcases hc with hc | hc
  · exact h.rest hc c rfl
  · exact h.rest hc c rfl

theorem compat {γ : Task → Unit} {t : Task} {o : Op} {next : o.Result → Prog Phase}
    {s' : Shared} (h : (outline D ud).Holds (system D) cfg γ) (ht : cfg.tasks t = .act o next)
    (hud : ud → Distinct D cfg) (hg : (outline D ud).guar t () cfg.shared () s') (u : Task)
    (hu : u ≠ t) : (outline D ud).rely u cfg.shared s' := by
  obtain ⟨hch, hkept, hroute, -⟩ := hg
  refine ⟨hch, fun c hc => ⟨hkept c fun he => hu (hc.trans he.symm), fun hudp k => ?_⟩⟩
  by_cases hk : s'.world.state.udpIdToClient k = cfg.shared.world.state.udpIdToClient k
  · rw [hk]
  -- Only another connected client routes `k`, and `c` uses another id or is not connected.
  obtain ⟨d, hd, hkd, hother⟩ := hroute k hk
  have hdc : c ≠ d := fun he => hu (by rw [hc, he, hd])
  refine iff_of_false (fun hc' => hdc (hother c hc')) fun hc' => ?_
  have hconn : Connected cfg c := by
    by_contra hconn
    cases (((unrouted h hconn).routed hudp k).mp hc').1
  have hdconn : Connected cfg d := by
    subst hd
    simp [Connected, ht]
  have hkc : k = D.deriveUdpId c := h.common.routed k c hc'
  exact hdc (hud hudp c d hconn hdconn (hkc.symm.trans hkd))

theorem initial_stands (ud : Prop) (c : ClientId) :
    Stands D ud c none none false (initial D).shared.world.state := by
  refine ⟨⟨fun d n hd => ?_, fun _ _ h => (nomatch h), fun _ _ h => (nomatch h)⟩, rfl, fun n => ?_,
    fun _ u => ?_⟩
  · exact absurd hd (notMem_members_new D.udpPort n d)
  · simp [initial, World.new]
  · simp [initial, World.new, ServerState.new]

theorem initial_holds : (outline D ud).Holds (system D) (initial D) fun _ => () := by
  refine ⟨fun t => ?_, (initial_stands ud "").sound⟩
  cases t with
  | conn c =>
    intro s' hr hs' d hd
    cases hd
    exact (initial_stands ud c).rely hr hs'
  | udp => exact fun _ _ _ _ h => nomatch h

/-- The outline holds in every state reached by steps from distinct configurations,
or in every state reached at all where nothing is claimed about numeric ids. -/
theorem outline_holds (ud : Prop) {P : ServerConfig → ServerConfig → Prop}
    (hP : ∀ c c', P c c' → ud → Distinct D c) (h : Reaches (system D) P (initial D) cfg) :
    ∃ γ, (outline D ud).Holds (system D) cfg γ := by
  refine Outline.invariant (fun t φ _ s p hsound hs hp => holds_start hsound hs hp)
    (fun c γ t o next r s' γ' hc ht _ hp hg => ⟨fun u hu => ?_, hg.2.2.2⟩) initial_holds h
  exact compat hc ht (hP _ _ hp) hg u hu

theorem sound_of_reaches {P : ServerConfig → ServerConfig → Prop}
    (h : Reaches (system D) P (initial D) cfg) : Sound D cfg.shared.world.state := by
  have hnone : ∀ c c' : ServerConfig, P c c' → False → Distinct D c := fun _ _ _ h => h.elim
  obtain ⟨_, hγ⟩ := outline_holds False hnone h
  exact hγ.common

theorem settled_of_atRest {γ : Task → Unit} (h : (outline D ud).Holds (system D) cfg γ)
    {c : ClientId} (hc : cfg.AtRest (.conn c)) :
    ∃ n b, (b = true → n ≠ none) ∧
      (Stands D ud c (some (n, b)) n true cfg.shared.world.state ∨
        Stands D ud c none none false cfg.shared.world.state ∧ n = none) := by
  obtain ⟨φ, hφ⟩ := hc
  have hs := h.rest hφ c rfl
  cases φ with
  | idle =>
    obtain ⟨n, b, hb, hs⟩ := hs
    exact ⟨n, b, hb, .inl hs⟩
  | connecting => exact ⟨none, false, by simp, .inr ⟨hs, rfl⟩⟩
  | closed => exact ⟨none, false, by simp, .inr ⟨hs, rfl⟩⟩

/-- **Membership coherence.** In every state the server reaches, a client at rest is
listed in channel `n` exactly if its record names `n`, and speaks only in a channel;
nobody is listed without a record; and if all numeric ids in use were distinct
throughout, each leads exactly to the client whose record carries it. -/
theorem membership_coherent (h : Reaches (system D) (fun _ _ => True) (initial D) cfg) :
    (∀ c, cfg.AtRest (.conn c) →
      (∀ n, c ∈ cfg.shared.world.state.members n ↔
        ∃ cl, cfg.shared.world.state.clients c = some cl ∧ cl.channelId = some n) ∧
      (∀ n m, c ∈ cfg.shared.world.state.members n → c ∈ cfg.shared.world.state.members m →
        n = m) ∧
      ∀ cl, cfg.shared.world.state.clients c = some cl → cl.speaking = true →
        cl.channelId ≠ none) ∧
    (∀ c n, cfg.shared.world.state.clients c = none → c ∉ cfg.shared.world.state.members n) ∧
    (Reaches (system D) (fun c _ => Distinct D c) (initial D) cfg →
      ∀ c, cfg.AtRest (.conn c) → ∀ u, cfg.shared.world.state.udpIdToClient u = some c ↔
        ∃ cl, cfg.shared.world.state.clients c = some cl ∧ cl.udpClientId = u) := by
  obtain ⟨γ, hγ⟩ := outline_holds False (fun _ _ _ h => h.elim) h
  refine ⟨fun c hc => ?_, fun c n hc hn => ?_, fun hd c hc u => ?_⟩
  · obtain ⟨k, b, hb, hs | ⟨hs, rfl⟩⟩ := settled_of_atRest hγ hc
    · obtain ⟨cl, hcl, rfl, rfl⟩ := hs.client
      refine ⟨fun n => ?_, fun n m hn hm => ?_, fun cl' hcl' => ?_⟩
      · rw [hs.mem n, hcl]
        simp
      · exact Option.some.inj (((hs.mem n).mp hn).symm.trans ((hs.mem m).mp hm))
      · obtain rfl : cl = cl' := Option.some.inj (hcl.symm.trans hcl')
        exact hb
    · have hnone : cfg.shared.world.state.clients c = none := by
        simpa using hs.reg
      refine ⟨fun n => ?_, fun n m hn => ?_, fun cl hcl => ?_⟩
      · rw [hs.mem n, hnone]
        simp
      · cases (hs.mem n).mp hn
      · cases hnone.symm.trans hcl
  · have := hγ.common.registered c n hn
    rw [hc] at this
    cases this
  · obtain ⟨γ', hγ'⟩ := outline_holds True (fun _ _ h _ => h) hd
    obtain ⟨k, b, -, hs | ⟨hs, -⟩⟩ := settled_of_atRest hγ' hc
    · obtain ⟨cl, hcl, -, -⟩ := hs.client
      rw [hs.routed trivial u, hcl, eq_comm, ← hs.sound.udpClientId c cl hcl]
      simp [eq_comm]
    · have hnone : cfg.shared.world.state.clients c = none := by
        simpa using hs.reg
      rw [hs.routed trivial u, hnone]
      simp

/-- Every key in the shard 0, every numeric id 7. -/
def oneShard : Deployment := ⟨9000, fun _ => 7, fun _ => 0, fun _ => 0, fun _ => 0, fun _ => 0⟩

/-- One client authenticates, joins a channel and starts to transmit. -/
def aloneInChannel : List Move :=
  .auth "a" "alice" :: List.replicate 3 (.step (.conn "a") true) ++
  .incoming "a" 0 (.message (.joinChannel "channel-1")) ::
    List.replicate 10 (.step (.conn "a") true) ++
  .incoming "a" 0 (.message (.startTransmit "channel-1")) ::
    List.replicate 3 (.step (.conn "a") true)

theorem membership_coherent_alone : ∃ cfg, play oneShard aloneInChannel (initial oneShard) = some cfg ∧
    (∃ cl, cfg.shared.world.state.clients "a" = some cl ∧ cl.channelId = some "channel-1" ∧
      cl.speaking = true) ∧
    (∀ n, "a" ∈ cfg.shared.world.state.members n ↔
      ∃ cl, cfg.shared.world.state.clients "a" = some cl ∧ cl.channelId = some n) ∧
    ∀ u, cfg.shared.world.state.udpIdToClient u = some "a" ↔
      ∃ cl, cfg.shared.world.state.clients "a" = some cl ∧ cl.udpClientId = u := by
  have hplay : ((play oneShard aloneInChannel (initial oneShard)).map fun cfg =>
      (idleAt cfg (.conn "a"), (cfg.shared.world.state.clients "a").map Client.standing)) =
        some (true, some (some "channel-1", true)) := by decide
  obtain ⟨cfg, hcfg, hobs⟩ := Option.map_eq_some_iff.mp hplay
  obtain ⟨hrest, hreg⟩ := Prod.mk.inj hobs
  obtain ⟨cl, hcl, hst⟩ := Option.map_eq_some_iff.mp hreg
  have hreach := (reaches_play (T := [.conn "a"]) (fun m _ => sends_any m) (by decide) hcfg .refl fun _ _ => rfl).1
  have hall := membership_coherent (hreach.mono fun _ _ _ => trivial)
  have hdistinct : Reaches (system oneShard) (fun c _ => Distinct oneShard c)
      (initial oneShard) cfg := by
    refine hreach.mono fun c _ hc d e hd he _ => ?_
    have only : ∀ x, Connected c x → x = "a" := fun x hx => by
      by_contra hxa
      exact hx.1 (hc (.conn x) (by simp [hxa]))
    rw [only d hd, only e he]
  exact ⟨cfg, hcfg, ⟨cl, hcl, congrArg Prod.fst hst, congrArg Prod.snd hst⟩,
    (hall.1 "a" (idleAt_iff.mp hrest)).1, hall.2.2 hdistinct "a" (idleAt_iff.mp hrest)⟩

end AudioPlatform.Server
