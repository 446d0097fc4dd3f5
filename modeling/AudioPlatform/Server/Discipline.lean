import AudioPlatform.Concurrency.Machine
import AudioPlatform.Server.System

/-! Which guards a task holds, read off its program.

A handler drops every guard before it is done, and the only guard it ever holds across a
send is that of the recipient. `Disciplined Q` says so of a program whose actions also
satisfy `Q`; each operation keeps the discipline for every `Q` that its own actions
satisfy, so one walk through the operations serves different conditions on actions. -/
namespace AudioPlatform.Server
open Concurrency

variable (D : Deployment)

/-- The guards of a task after an action, by what the action returned. -/
def Op.keeps (g : List Guard) : (o : Op) → o.Result → List Guard
  | .getChannel n w, r => if r.isSome then channelGuard D n w :: g else g
  | .dropChannel n w, _ => g.erase (channelGuard D n w)
  | .getClient c w, r => if r.isSome then clientGuard D c w :: g else g
  | .dropClient c w, _ => g.erase (clientGuard D c w)
  | .getUdpId u, r => if r.isSome then udpIdGuard D u false :: g else g
  | .dropUdpId u, _ => g.erase (udpIdGuard D u false)
  | _, _ => g

def ServerMessage.isWelcome : ServerMessage → Bool
  | .authOk .. => true
  | _ => false

/-- The guards across a write to a socket: the recipient's in a send, but for the `authOk`,
which precedes the recipient's record; none in a datagram. -/
def Op.Shared (g : List Guard) : Op → Prop
  | .send c msg => g = if msg.isWelcome then [] else [clientGuard D c false]
  | .sendTo _ _ => g = []
  | _ => True

/-- The program keeps its guards in order and performs actions that satisfy `Q`. -/
abbrev Disciplined (Q : Op → Prop) {α : Type} (fin : α → List Guard → Prop) (p : Prog α)
    (g : List Guard) : Prop :=
  p.Obeys (fun g o => Q o ∧ o.Shared D g) (Op.keeps D) fin g

/-- And it ends with the guards it had. -/
abbrev Balanced (Q : Op → Prop) {α : Type} (p : Prog α) (g : List Guard) : Prop :=
  Disciplined D Q (fun _ g' => g' = g) p g

/-- The action inserts and removes no record and moves no address. -/
def Op.Still : Op → Prop
  | .insertClient .. | .removeClient _ => False
  | .updateClient _ u | .setClient _ u => ∀ a, u ≠ .udpAddr a
  | _ => True

variable {D} {Q : Op → Prop} {α β : Type} {g : List Guard} {fin : β → List Guard → Prop}

theorem Balanced.bind {p : Prog α} {f : α → Prog β} (hp : Balanced D Q p g)
    (hf : ∀ a, Disciplined D Q fin (f a) g) : Disciplined D Q fin (p >>= f) g :=
  Program.Obeys.bind hp fun a _ hg => hg ▸ hf a

/-! ### Operations on channels -/

section Still
variable (hQ : ∀ o : Op, o.Still → Q o)
include hQ

/-- A send through the guard of its recipient, which is dropped again. -/
theorem disciplined_through {d : ClientId} {msg : ServerMessage} (hmsg : msg.isWelcome = false)
    {next : Bool → Unit → Prog β} (hnext : ∀ b, Disciplined D Q fin (next b ()) []) :
    Disciplined D Q fin (.act (.send d msg) fun b => .act (.dropClient d false) (next b))
      [clientGuard D d false] := by
  have hguard : [clientGuard D d false] = if msg.isWelcome then [] else [clientGuard D d false] := by
    rw [hmsg]
    rfl
  refine ⟨⟨hQ _ trivial, hguard⟩, fun b => ⟨⟨hQ _ trivial, trivial⟩, fun _ => ?_⟩⟩
  show Disciplined D Q fin (next b ()) ([clientGuard D d false].erase (clientGuard D d false))
  rw [List.erase_cons_head]
  exact hnext b

theorem balanced_broadcast {msg : ServerMessage} (hmsg : msg.isWelcome = false)
    (ids : List ClientId) (ex : ClientId) : Balanced D Q (broadcastToMembers ids ex msg) [] := by
  induction ids with
  | nil => rfl
  | cons mid rest ih =>
    unfold broadcastToMembers
    split
    · refine ⟨⟨hQ _ trivial, trivial⟩, fun r => ?_⟩
      cases r with
      | none => exact ih
      | some cl => exact disciplined_through hQ hmsg fun _ => ih
    · exact ih

/-- What follows a broadcast. -/
theorem disciplined_broadcast {msg : ServerMessage} (hmsg : msg.isWelcome = false)
    {ids : List ClientId} {ex : ClientId} {f : Unit → Prog β} (hf : Disciplined D Q fin (f ()) []) :
    Disciplined D Q fin (broadcastToMembers ids ex msg >>= f) [] :=
  Balanced.bind (balanced_broadcast hQ hmsg ids ex) fun _ => hf

theorem balanced_sendToClient {msg : ServerMessage} (hmsg : msg.isWelcome = false) (d : ClientId) :
    Balanced D Q (sendToClient d msg) [] := by
  refine ⟨⟨hQ _ trivial, trivial⟩, fun r => ?_⟩
  cases r with
  | none => rfl
  | some cl => exact disciplined_through hQ hmsg fun _ => rfl

theorem balanced_collect (ids : List ClientId) (g : List Guard) :
    Balanced D Q (collectMemberInfo ids) g := by
  induction ids with
  | nil => rfl
  | cons mid rest ih =>
    unfold collectMemberInfo
    refine ⟨⟨hQ _ trivial, trivial⟩, fun r => ?_⟩
    exact Balanced.bind (p := collectMemberInfo rest) ih fun infos => rfl

/-- What follows when a channel's guard is dropped. -/
theorem disciplined_dropChannel {n : ChannelId} {w : Bool} {next : Unit → Prog β}
    (hnext : Disciplined D Q fin (next ()) []) :
    Disciplined D Q fin (.act (.dropChannel n w) next) [channelGuard D n w] := by
  refine ⟨⟨hQ _ trivial, trivial⟩, fun _ => ?_⟩
  show Disciplined D Q fin (next ()) ([channelGuard D n w].erase (channelGuard D n w))
  rw [List.erase_cons_head]
  exact hnext

theorem balanced_joinChannel (c : ClientId) (n : ChannelId) :
    Balanced D Q (joinChannel c n) [] := by
  refine ⟨⟨hQ _ trivial, trivial⟩, fun r => ?_⟩
  cases r with
  | none => rfl
  | some channel =>
    refine ⟨⟨hQ _ trivial, trivial⟩, fun r => ?_⟩
    cases r with
    | none => exact disciplined_dropChannel hQ rfl
    | some client =>
      dsimp only [Program.bind]
      split
      · exact disciplined_dropChannel hQ rfl
      · refine Balanced.bind (balanced_collect hQ _ _) fun infos => ?_
        refine ⟨⟨hQ _ trivial, trivial⟩, fun _ => ⟨⟨hQ _ nofun, trivial⟩, fun r => ?_⟩⟩
        cases r with
        | none => exact ⟨⟨hQ _ trivial, trivial⟩, fun e => Empty.elim e⟩
        | some client =>
          refine ⟨⟨hQ _ trivial, trivial⟩, fun ids => disciplined_dropChannel hQ ?_⟩
          refine disciplined_broadcast hQ rfl ⟨⟨hQ _ trivial, trivial⟩, fun r => ?_⟩
          cases r <;> rfl

theorem balanced_stopTransmit (c : ClientId) (n : ChannelId) :
    Balanced D Q (stopTransmit c n) [] := by
  refine ⟨⟨hQ _ trivial, trivial⟩, fun r => ?_⟩
  cases r with
  | none => rfl
  | some channel =>
    refine disciplined_dropChannel hQ ?_
    dsimp only [Program.bind]
    split
    · rfl
    · refine ⟨⟨hQ _ nofun, trivial⟩, fun r => ?_⟩
      cases r with
      | none => rfl
      | some client =>
        dsimp only [Program.bind]
        split
        · exact disciplined_broadcast hQ rfl rfl
        · rfl

theorem balanced_startTransmit (c : ClientId) (n : ChannelId) :
    Balanced D Q (startTransmit c n) [] := by
  refine ⟨⟨hQ _ trivial, trivial⟩, fun r => ?_⟩
  cases r with
  | none => rfl
  | some channel =>
    refine disciplined_dropChannel hQ ?_
    dsimp only [Program.bind]
    split
    · rfl
    · refine ⟨⟨hQ _ nofun, trivial⟩, fun r => ?_⟩
      exact disciplined_broadcast hQ rfl rfl

theorem balanced_leaveChannel (c : ClientId) (n : ChannelId) :
    Balanced D Q (leaveChannel c n) [] := by
  refine Balanced.bind (balanced_stopTransmit hQ c n) fun _ => ?_
  refine ⟨⟨hQ _ trivial, trivial⟩, fun r => ?_⟩
  cases r with
  | none => rfl
  | some channel =>
    refine ⟨⟨hQ _ trivial, trivial⟩, fun removed => ?_⟩
    cases removed with
    | false => exact disciplined_dropChannel hQ rfl
    | true =>
      refine ⟨⟨hQ _ trivial, trivial⟩, fun ids => disciplined_dropChannel hQ ?_⟩
      refine ⟨⟨hQ _ nofun, trivial⟩, fun _ => ?_⟩
      exact disciplined_broadcast hQ rfl rfl

theorem balanced_removeClient (c : ClientId) (hc : Q (.removeClient c)) :
    Balanced D Q (removeClient c) [] := by
  have hrecord : Balanced D Q (removeRecord c) [] := by
    refine ⟨⟨hc, trivial⟩, fun r => ?_⟩
    cases r with
    | none => rfl
    | some client =>
      dsimp only [Program.bind]
      split
      · exact ⟨⟨hQ _ trivial, trivial⟩, fun _ => ⟨⟨hQ _ trivial, trivial⟩, fun _ => rfl⟩⟩
      · exact ⟨⟨hQ _ trivial, trivial⟩, fun _ => rfl⟩
  refine ⟨⟨hQ _ trivial, trivial⟩, fun client => ?_⟩
  dsimp only [Program.bind]
  split
  · exact Balanced.bind (balanced_leaveChannel hQ c _) fun _ => hrecord
  · exact hrecord

/-! ### Handlers -/

/-- How a handler ends: without guards, and not to authenticate again. -/
def HandlerEnds (φ : Phase) (g : List Guard) : Prop := φ ≠ .connecting ∧ g = []

theorem disciplined_reply {msg : ServerMessage} (hmsg : msg.isWelcome = false) (c : ClientId) :
    Disciplined D Q HandlerEnds (sendToClient c msg >>= fun _ => .done .idle) [] :=
  Balanced.bind (balanced_sendToClient hQ hmsg c) fun _ => ⟨nofun, rfl⟩

theorem disciplined_handleIncoming (now : BitVec 64) (c : ClientId) {m : Incoming}
    (hc : m = .closed → Q (.removeClient c)) :
    Disciplined D Q HandlerEnds (handleIncoming now c m) [] := by
  cases m with
  | message m =>
    cases m with
    | auth token => exact disciplined_reply hQ rfl c
    | joinChannel n =>
      refine Balanced.bind (balanced_joinChannel hQ c n) fun r => ?_
      cases r <;> exact disciplined_reply hQ rfl c
    | leaveChannel n =>
      refine Balanced.bind (balanced_leaveChannel hQ c n) fun r => ?_
      cases r <;> exact disciplined_reply hQ rfl c
    | startTransmit n =>
      refine Balanced.bind (balanced_startTransmit hQ c n) fun r => ?_
      cases r with
      | error e => exact disciplined_reply hQ rfl c
      | ok => exact ⟨nofun, rfl⟩
    | stopTransmit n =>
      refine Balanced.bind (balanced_stopTransmit hQ c n) fun r => ?_
      cases r with
      | error e => exact disciplined_reply hQ rfl c
      | ok => exact ⟨nofun, rfl⟩
    | ping timestamp => exact disciplined_reply hQ rfl c
  | invalid e => exact disciplined_reply hQ rfl c
  | closed => exact Balanced.bind (balanced_removeClient hQ c (hc rfl)) fun _ => ⟨nofun, rfl⟩

theorem disciplined_authenticate (port : BitVec 16) (u : BitVec 64) (c : ClientId) (token : String)
    (hc : ∀ cl, Q (.insertClient c cl)) :
    Disciplined D Q HandlerEnds (authenticate port u c token) [] := by
  refine ⟨⟨hQ _ trivial, rfl⟩, fun sent => ?_⟩
  cases sent with
  | false => exact ⟨nofun, rfl⟩
  | true =>
    exact ⟨⟨hc _, trivial⟩, fun _ => ⟨⟨hQ _ trivial, trivial⟩, fun _ => ⟨nofun, rfl⟩⟩⟩

/-! ### UDP loop -/

theorem balanced_forwardTargets (u : BitVec 64) (ids : List ClientId) (g : List Guard) :
    Balanced D Q (forwardTargets u ids) g := by
  induction ids with
  | nil => rfl
  | cons mid rest ih =>
    unfold forwardTargets
    refine ⟨⟨hQ _ trivial, trivial⟩, fun r => ?_⟩
    refine Balanced.bind (p := forwardTargets u rest) ih fun targets => ?_
    cases r with
    | none => rfl
    | some cl =>
      dsimp only
      split <;> rfl

theorem balanced_collectForwardTargets (n : BitVec 32) (u : BitVec 64) :
    Balanced D Q (collectForwardTargets n u) [] := by
  refine ⟨⟨hQ _ trivial, trivial⟩, fun r => ?_⟩
  cases r with
  | none => rfl
  | some channel =>
    exact Balanced.bind (p := forwardTargets u _) (balanced_forwardTargets hQ u _ _)
      fun _ => disciplined_dropChannel hQ rfl

theorem balanced_sendToAll (targets : List SocketAddr) (bytes : List Byte) :
    Balanced D Q (sendToAll targets bytes) [] := by
  induction targets with
  | nil => rfl
  | cons a rest ih => exact ⟨⟨hQ _ trivial, rfl⟩, fun _ => ih⟩

theorem balanced_registerUdpAddr (hmove : ∀ c a, Q (.setClient c (.udpAddr a))) (u : BitVec 64)
    (a : SocketAddr) : Balanced D Q (registerUdpAddr u a) [] := by
  refine ⟨⟨hQ _ trivial, trivial⟩, fun r => ?_⟩
  cases r with
  | none => rfl
  | some uuid =>
    have hclose : Disciplined D Q (fun _ g' => g' = [])
        (.act (.dropUdpId u) .done : Prog Unit) [udpIdGuard D u false] :=
      ⟨⟨hQ _ trivial, trivial⟩, fun _ => List.erase_cons_head ..⟩
    refine ⟨⟨hQ _ trivial, trivial⟩, fun r => ?_⟩
    cases r with
    | none => exact hclose
    | some client =>
      have hdone : Disciplined D Q (fun _ g' => g' = [])
          (.act (.dropClient uuid true) fun _ => .act (.dropUdpId u) .done : Prog Unit)
          [clientGuard D uuid true, udpIdGuard D u false] := by
        refine ⟨⟨hQ _ trivial, trivial⟩, fun _ => ?_⟩
        show Disciplined D Q _ _ (List.erase _ _)
        rw [List.erase_cons_head]
        exact hclose
      refine ⟨⟨hmove uuid a, trivial⟩, fun _ => ?_⟩
      dsimp only [Program.bind]
      split
      · split
        · exact ⟨⟨hQ _ trivial, trivial⟩, fun _ => ⟨⟨hQ _ trivial, trivial⟩, fun _ => hdone⟩⟩
        · exact ⟨⟨hQ _ trivial, trivial⟩, fun _ => hdone⟩
      · exact hdone

/-- What the loop does once the sender is registered. -/
theorem balanced_forward (header : RoutingHeader) (packetType : PacketType) (buf : List Byte)
    (src : SocketAddr) : Balanced D Q (match packetType with
      | .audio => do
        let targets ← collectForwardTargets header.channelId header.clientId
        sendToAll targets buf
      | .keepalive => return
      | .ping => perform (.sendTo src (buf.set 16 PacketType.pong.toU8))
      | .pong => return) [] := by
  cases packetType with
  | audio =>
    exact Balanced.bind (balanced_collectForwardTargets hQ _ _) fun _ => balanced_sendToAll hQ _ _
  | ping => exact ⟨⟨hQ _ trivial, rfl⟩, fun _ => rfl⟩
  | keepalive => rfl
  | pong => rfl

theorem balanced_handleDatagram (hmove : ∀ c a, Q (.setClient c (.udpAddr a))) (bytes : List Byte)
    (src : SocketAddr) : Balanced D Q (handleDatagram bytes src) [] := by
  unfold handleDatagram
  dsimp only
  split
  · rfl
  split
  · split
    · refine Balanced.bind (balanced_registerUdpAddr hQ hmove _ _) fun _ => ?_
      exact balanced_forward hQ _ _ _ _
    · rfl
  · rfl

end Still

/-! ### The guards of every task -/

variable {cfg : ServerConfig} {held : List (Task × Guard)} {s : ServerState} {t u : Task}

/-- What an action returns says which guards its task holds after it. -/
theorem own_guards_self {up : ClientId → Bool} {o : Op} {r : o.Result}
    (hr : o.returns up s = some r) :
    Machine.own t (o.guards D t s held) = o.keeps D (Machine.own t held) r := by
  have htake : ∀ (found : Bool) (k : Guard),
      Machine.own t (if found then (t, k) :: held else held) =
        if found then k :: Machine.own t held else Machine.own t held := by
    intro found k
    cases found with
    | false => rfl
    | true => exact Machine.own_cons_self t k held
  cases o with
  | getChannel | getClient | getUdpId =>
    cases Option.some.inj hr
    exact htake _ _
  | dropChannel | dropClient | dropUdpId => exact Machine.own_erase_self t _ held
  | _ => rfl

theorem own_guards_of_ne (hu : t ≠ u) (o : Op) :
    Machine.own u (o.guards D t s held) = Machine.own u held := by
  have htake : ∀ (found : Bool) (k : Guard),
      Machine.own u (if found then (t, k) :: held else held) = Machine.own u held := by
    intro found k
    cases found with
    | false => rfl
    | true => exact Machine.own_cons_of_ne hu k held
  cases o with
  | getChannel | getClient | getUdpId => exact htake _ _
  | dropChannel | dropClient | dropUdpId => exact Machine.own_erase_of_ne hu _ held
  | _ => rfl

/-- Every task is in order, with the guards it holds. -/
def InOrder (D : Deployment) (cfg : ServerConfig) : Prop :=
  ∀ t, Disciplined D (fun _ => True) (fun _ g => g = []) (cfg.tasks t)
    (Machine.own t cfg.shared.held)

theorem disciplined_starts {φ : Phase} {p : Prog Phase} (h : Starts D t φ p) :
    Disciplined D (fun _ => True) (fun _ g => g = []) p [] := by
  have hends : ∀ {p : Prog Phase}, Disciplined D (fun _ => True) HandlerEnds p [] →
      Disciplined D (fun _ => True) (fun _ g => g = []) p [] :=
    fun h => h.mono (fun _ _ => id) fun _ _ => And.right
  have hany : ∀ o : Op, o.Still → True := fun _ _ => trivial
  cases h with
  | auth c token => exact hends (disciplined_authenticate hany _ _ c token fun _ => trivial)
  | hangUp c => rfl
  | incoming c now m => exact hends (disciplined_handleIncoming hany now c fun _ => trivial)
  | datagram bytes src =>
    exact Balanced.bind (balanced_handleDatagram hany (fun _ _ => trivial) bytes src) fun _ => rfl

theorem inOrder_step {cfg' : ServerConfig} (h : InOrder D cfg) (hs : Step (system D) cfg cfg') :
    InOrder D cfg' := by
  cases hs with
  | @act t o next r s' ht he =>
    obtain ⟨up, -, he⟩ := he
    obtain ⟨-, hret, rfl⟩ := act_eq_some D he
    intro u
    dsimp only
    by_cases hu : t = u
    · subst hu
      have ht' := h t
      rw [ht] at ht'
      rw [Function.update_self, own_guards_self hret]
      exact ht'.2 r
    · rw [Function.update_of_ne (Ne.symm hu), own_guards_of_ne hu]
      exact h u
  | @start t φ p ht hp =>
    intro u
    dsimp only
    by_cases hu : u = t
    · subst hu
      have hrest := h u
      rw [ht] at hrest
      rw [Function.update_self, show Machine.own u cfg.shared.held = [] from hrest]
      exact disciplined_starts hp
    · rw [Function.update_of_ne hu]
      exact h u

/-- **Every task is in order** in every state the server reaches. -/
theorem inOrder_of_reaches {P : ServerConfig → ServerConfig → Prop}
    (h : Reaches (system D) P (initial D) cfg) : InOrder D cfg := by
  induction h with
  | refl =>
    intro t
    cases t <;> rfl
  | step _ hs _ ih => exact inOrder_step ih hs

end AudioPlatform.Server
