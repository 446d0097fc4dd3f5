import AudioPlatform.Server.System

/-! Requests served one at a time.

Run alone, each operation is a function of the maps, which this file computes:
what it returns, what it leaves and which messages it writes. `Writes` says so of a
program that hands nothing to the UDP socket, whatever has been sent before it;
`Ends` leaves the messages out. -/
namespace AudioPlatform.Server
open Concurrency

variable {α β : Type} {up : ClientId → Bool} {s s' s'' : ServerState}

/-- Run alone from `s` the program returns `a` and leaves `s'`; the UDP socket is not used. -/
def Ends (up : ClientId → Bool) (p : Prog α) (s : ServerState) (a : α) (s' : ServerState) : Prop :=
  ∀ sent dgs, ∃ sent', p.alone (effect up) ⟨s, sent, dgs⟩ = some (a, ⟨s', sent', dgs⟩)

def Op.OnSocket : Op → Prop
  | .sendTo .. => True
  | _ => False

theorem ends_done (a : α) : Ends up (.done a) s a s :=
  fun sent _ => ⟨sent, rfl⟩

theorem ends_act {o : Op} {f : o.Result → Prog α} {r : o.Result} {a : α} (ho : ¬ o.OnSocket)
    (hr : o.returns up s = some r) (h : Ends up (f r) (o.apply s) a s') :
    Ends up (.act o f) s a s' := by
  intro sent dgs
  obtain ⟨sent', h⟩ := h (o.sent up sent) dgs
  refine ⟨sent', ?_⟩
  have hd : o.datagrams dgs = dgs := by
    cases o with
    | sendTo => exact absurd trivial ho
    | _ => rfl
  rw [Program.alone_act (effect_eq_some.mpr ⟨hr, rfl⟩), hd]
  exact h

theorem ends_bind {p : Prog α} {f : α → Prog β} {a : α} {b : β} (hp : Ends up p s a s')
    (hf : Ends up (f a) s' b s'') : Ends up (p >>= f) s b s'' := by
  intro sent dgs
  obtain ⟨sent', hp⟩ := hp sent dgs
  obtain ⟨sent'', hf⟩ := hf sent' dgs
  exact ⟨sent'', by rw [Program.alone_bind_some hp, hf]⟩

theorem Ends.alone {p : Prog α} {a : α} (h : Ends up p s a s') (w : World) (hw : w.state = s) :
    ∃ sent, p.alone (effect up) w = some (a, ⟨s', sent, w.datagrams⟩) := by
  subst hw
  exact h w.sent w.datagrams

/-! ### Messages -/

/-- A message and the client it is for. -/
abbrev Letter := ClientId × ServerMessage

/-- The WebSockets after the messages `out`. -/
def delivered (up : ClientId → Bool) (out : List Letter) (sent : ClientId → List ServerMessage) :
    ClientId → List ServerMessage :=
  out.foldl (fun sent x => (Op.send x.1 x.2).sent up sent) sent

/-- Run alone from `s` the program writes the messages `out`, returns `a` and leaves `s'`. -/
def Writes (up : ClientId → Bool) (p : Prog α) (s : ServerState) (out : List Letter) (a : α)
    (s' : ServerState) : Prop :=
  ∀ sent dgs, p.alone (effect up) ⟨s, sent, dgs⟩ = some (a, ⟨s', delivered up out sent, dgs⟩)

variable {out out' : List Letter}

theorem Writes.ends {p : Prog α} {a : α} (h : Writes up p s out a s') : Ends up p s a s' :=
  fun sent dgs => ⟨_, h sent dgs⟩

def Op.OnNetwork : Op → Prop
  | .send .. | .sendTo .. => True
  | _ => False

theorem writes_done (a : α) : Writes up (.done a) s [] a s := fun _ _ => rfl

theorem writes_done_of {a : α} (h : s = s') : Writes up (.done a) s [] a s' :=
  h ▸ writes_done a

theorem writes_act {o : Op} {f : o.Result → Prog α} {r : o.Result} {a : α}
    (ho : ¬ o.OnNetwork) (hr : o.returns up s = some r)
    (h : Writes up (f r) (o.apply s) out a s') : Writes up (.act o f) s out a s' := by
  intro sent dgs
  have hd : o.sent up sent = sent ∧ o.datagrams dgs = dgs := by
    cases o with
    | send => exact absurd trivial ho
    | sendTo => exact absurd trivial ho
    | _ => exact ⟨rfl, rfl⟩
  rw [Program.alone_act (effect_eq_some.mpr ⟨hr, rfl⟩), hd.1, hd.2]
  exact h sent dgs

theorem writes_send {c : ClientId} {msg : ServerMessage} {f : Bool → Prog α} {b : Bool} {a : α}
    (hb : up c = b) (h : Writes up (f b) s out a s') :
    Writes up (.act (.send c msg) f) s ((c, msg) :: out) a s' := by
  intro sent dgs
  have hret : (Op.send c msg).returns up s = some b := congrArg some hb
  rw [Program.alone_act (effect_eq_some.mpr ⟨hret, rfl⟩)]
  exact h _ dgs

theorem writes_bind {p : Prog α} {f : α → Prog β} {a : α} {b : β} (hp : Writes up p s out a s')
    (hf : Writes up (f a) s' out' b s'') : Writes up (p >>= f) s (out ++ out') b s'' := by
  intro sent dgs
  rw [Program.alone_bind_some (hp sent dgs), hf, delivered, delivered, delivered, List.foldl_append]

/-- If only one of the two writes messages, they are its own. -/
theorem writes_bind_left {p : Prog α} {f : α → Prog β} {a : α} {b : β}
    (hp : Writes up p s out a s') (hf : Writes up (f a) s' [] b s'') :
    Writes up (p >>= f) s out b s'' := by
  have := writes_bind hp hf
  rwa [List.append_nil] at this

theorem writes_bind_right {p : Prog α} {f : α → Prog β} {a : α} {b : β}
    (hp : Writes up p s [] a s') (hf : Writes up (f a) s' out b s'') :
    Writes up (p >>= f) s out b s'' := writes_bind hp hf

/-! ### Operations -/

theorem updateClient_of_none {c : ClientId} (u : ClientUpdate) (h : s.clients c = none) :
    s.updateClient c u = s := by
  unfold ServerState.updateClient
  rw [h, Option.map_none, ← h, Function.update_eq_self]

/-- A message to the registered clients of a list but one. -/
def ServerState.broadcast (s : ServerState) (ids : List ClientId) (ex : ClientId)
    (msg : ServerMessage) : List Letter :=
  (ids.filter fun mid => mid ≠ ex && (s.clients mid).isSome).map (·, msg)

theorem writes_broadcast (ids : List ClientId) (ex : ClientId) (msg : ServerMessage) :
    Writes up (broadcastToMembers ids ex msg) s (s.broadcast ids ex msg) () s := by
  induction ids with
  | nil => exact writes_done ()
  | cons mid rest ih =>
    unfold broadcastToMembers ServerState.broadcast
    rw [List.filter_cons]
    split
    · rename_i hne
      apply writes_act id rfl
      dsimp only [Program.bind]
      cases hc : s.clients mid with
      | none =>
        rw [if_neg (by simp)]
        exact ih
      | some cl =>
        rw [if_pos (by simp [hne])]
        exact writes_send rfl (writes_act id rfl ih)
    · rename_i hne
      rw [if_neg (by simp [not_not.mp hne])]
      exact ih

/-- What a joining client is told about the clients of a list. -/
def ServerState.infos (s : ServerState) (ids : List ClientId) : List ChannelMemberInfo :=
  ids.filterMap fun mid => (s.clients mid).map fun c => ⟨c.id, c.userName, c.speaking⟩

theorem writes_collect (ids : List ClientId) :
    Writes up (collectMemberInfo ids) s [] (s.infos ids) s := by
  induction ids with
  | nil => exact writes_done []
  | cons mid rest ih =>
    unfold collectMemberInfo ServerState.infos
    refine writes_act (f := fun r => collectMemberInfo rest >>= fun infos => _) id rfl
      (writes_bind_right ih ?_)
    cases hc : s.clients mid with
    | none =>
      rw [List.filterMap_cons_none (by rw [hc]; rfl)]
      exact writes_done _
    | some cl =>
      rw [List.filterMap_cons_some (by rw [hc]; rfl)]
      exact writes_done _

/-- A message to one client, if it is registered. -/
def ServerState.reply (s : ServerState) (c : ClientId) (msg : ServerMessage) : List Letter :=
  if (s.clients c).isSome then [(c, msg)] else []

theorem writes_sendToClient (c : ClientId) (msg : ServerMessage) :
    Writes up (sendToClient c msg) s (s.reply c msg) () s := by
  unfold ServerState.reply
  apply writes_act id rfl
  dsimp only [Program.bind]
  cases hc : s.clients c with
  | none => exact writes_done ()
  | some cl => exact writes_send rfl (writes_act id rfl (writes_done ()))

theorem ends_sendToClient (c : ClientId) (msg : ServerMessage) :
    Ends up (sendToClient c msg) s () s := (writes_sendToClient c msg).ends

/-- The maps after a join that succeeds. -/
def ServerState.joined (s : ServerState) (c : ClientId) (n : ChannelId) : ServerState :=
  (s.updateMembers n (·.insert c)).updateClient c (.channelId (some n))

/-- A join succeeds if the channel exists and the client is registered and in no channel. -/
def ServerState.Joins (s : ServerState) (c : ClientId) (n : ChannelId) : Prop :=
  (s.channels n).isSome ∧ ∃ cl, s.clients c = some cl ∧ cl.channelId = none

theorem writes_joinChannel_ok (up : ClientId → Bool) {c : ClientId} {n : ChannelId} {cl : Client}
    (hch : (s.channels n).isSome) (hcl : s.clients c = some cl) (hn : cl.channelId = none) :
    Writes up (joinChannel c n) s
      ((s.joined c n).broadcast ((s.joined c n).members n).elems c (.userJoined n cl.id cl.userName))
      (.ok (s.infos (s.members n).elems ++ [⟨cl.id, cl.userName, cl.speaking⟩])) (s.joined c n) := by
  obtain ⟨ch, hch⟩ := Option.isSome_iff_exists.mp hch
  have hcl' : (s.joined c n).clients c = some { cl with channelId := some n } := by
    unfold ServerState.joined
    rw [clients_updateClient_self, clients_updateMembers, hcl]
    rfl
  rw [members_eq hch]
  refine writes_act id (congrArg some hch) (writes_act id (congrArg some hcl) ?_)
  dsimp only [Program.bind]
  rw [hn]
  refine writes_bind_right (writes_collect _) (writes_act id rfl ?_)
  refine writes_act id (congrArg some hcl) (writes_act id rfl (writes_act id rfl ?_))
  refine writes_bind_left (p := broadcastToMembers _ _ _) (writes_broadcast _ _ _) ?_
  exact writes_act id (congrArg some hcl') (writes_done _)

theorem ends_joinChannel_ok (up : ClientId → Bool) {c : ClientId} {n : ChannelId} (h : s.Joins c n) :
    ∃ infos, Ends up (joinChannel c n) s (.ok infos) (s.joined c n) := by
  obtain ⟨hch, cl, hcl, hn⟩ := h
  exact ⟨_, (writes_joinChannel_ok up hch hcl hn).ends⟩

theorem writes_joinChannel_error (up : ClientId → Bool) {c : ClientId} {n : ChannelId}
    (h : ¬ s.Joins c n) : ∃ e, Writes up (joinChannel c n) s [] (.error e) s := by
  cases hch : s.channels n with
  | none => exact ⟨_, writes_act id (congrArg some hch) (writes_done _)⟩
  | some ch =>
    cases hcl : s.clients c with
    | none =>
      exact ⟨_, writes_act id (congrArg some hch) (writes_act id (congrArg some hcl)
        (writes_act id rfl (writes_done _)))⟩
    | some cl =>
      cases hn : cl.channelId with
      | none => exact absurd ⟨by rw [hch]; rfl, cl, hcl, hn⟩ h
      | some current =>
        refine ⟨"already in channel '" ++ current ++ "'; leave first",
          writes_act id (congrArg some hch) (writes_act id (congrArg some hcl) ?_)⟩
        dsimp only [Program.bind]
        rw [hn]
        exact writes_act id rfl (writes_done _)

theorem ends_joinChannel_error (up : ClientId → Bool) {c : ClientId} {n : ChannelId}
    (h : ¬ s.Joins c n) : ∃ e, Ends up (joinChannel c n) s (.error e) s := by
  obtain ⟨e, he⟩ := writes_joinChannel_error up h
  exact ⟨e, he.ends⟩

/-- What stopping tells the other members, if the client was speaking. -/
def ServerState.stopLetters (s : ServerState) (c : ClientId) (n : ChannelId) : List Letter :=
  if (s.clients c).any Client.speaking then
    (s.updateClient c (.speaking false)).broadcast (s.members n).elems c (.userStopped n c)
  else []

/-- Stopping and starting write the flag of a registered member, and nothing else. -/
theorem writes_stopTransmit_ok {c : ClientId} {n : ChannelId} (h : c ∈ s.members n)
    (hcl : (s.clients c).isSome) : Writes up (stopTransmit c n) s (s.stopLetters c n) (.ok ())
      (s.updateClient c (.speaking false)) := by
  obtain ⟨ch, hch, hc⟩ := mem_members_iff.mp h
  obtain ⟨cl, hcl⟩ := Option.isSome_iff_exists.mp hcl
  unfold ServerState.stopLetters
  rw [hcl, Option.any_some, members_eq hch]
  refine writes_act id (congrArg some hch) (writes_act id rfl ?_)
  dsimp only [Program.bind]
  rw [if_neg (not_not.mpr hc)]
  refine writes_act id (congrArg some hcl) ?_
  dsimp only [Program.bind]
  split
  · exact writes_bind_left (p := broadcastToMembers _ _ _) (writes_broadcast _ _ _) (writes_done _)
  · exact writes_done _

theorem ends_stopTransmit_ok {c : ClientId} {n : ChannelId} (h : c ∈ s.members n)
    (hcl : (s.clients c).isSome) :
    Ends up (stopTransmit c n) s (.ok ()) (s.updateClient c (.speaking false)) :=
  (writes_stopTransmit_ok h hcl).ends

theorem writes_stopTransmit_error (up : ClientId → Bool) {c : ClientId} {n : ChannelId}
    (h : ¬ (c ∈ s.members n ∧ (s.clients c).isSome)) :
    ∃ e, Writes up (stopTransmit c n) s [] (.error e) s := by
  cases hch : s.channels n with
  | none => exact ⟨_, writes_act id (congrArg some hch) (writes_done _)⟩
  | some ch =>
    by_cases hc : c ∈ ch.members
    · cases hcl : s.clients c with
      | none =>
        refine ⟨"client not found", writes_act id (congrArg some hch) (writes_act id rfl ?_)⟩
        dsimp only [Program.bind]
        rw [if_neg (not_not.mpr hc)]
        exact writes_act id (congrArg some hcl) (writes_done_of (updateClient_of_none _ hcl))
      | some cl => exact absurd ⟨mem_members_iff.mpr ⟨ch, hch, hc⟩, by rw [hcl]; rfl⟩ h
    · refine ⟨"not in that channel", writes_act id (congrArg some hch) (writes_act id rfl ?_)⟩
      dsimp only [Program.bind]
      rw [if_pos hc]
      exact writes_done _

theorem ends_stopTransmit_error (up : ClientId → Bool) {c : ClientId} {n : ChannelId}
    (h : ¬ (c ∈ s.members n ∧ (s.clients c).isSome)) :
    ∃ e, Ends up (stopTransmit c n) s (.error e) s := by
  obtain ⟨e, he⟩ := writes_stopTransmit_error up h
  exact ⟨e, he.ends⟩

theorem writes_startTransmit_ok {c : ClientId} {n : ChannelId} (h : c ∈ s.members n) :
    Writes up (startTransmit c n) s
      ((s.updateClient c (.speaking true)).broadcast (s.members n).elems c (.userSpeaking n c))
      (.ok ()) (s.updateClient c (.speaking true)) := by
  obtain ⟨ch, hch, hc⟩ := mem_members_iff.mp h
  rw [members_eq hch]
  refine writes_act id (congrArg some hch) (writes_act id rfl ?_)
  dsimp only [Program.bind]
  rw [if_neg (not_not.mpr hc)]
  refine writes_act id rfl ?_
  exact writes_bind_left (p := broadcastToMembers _ _ _) (writes_broadcast _ _ _) (writes_done _)

theorem ends_startTransmit_ok {c : ClientId} {n : ChannelId} (h : c ∈ s.members n) :
    Ends up (startTransmit c n) s (.ok ()) (s.updateClient c (.speaking true)) :=
  (writes_startTransmit_ok h).ends

theorem writes_startTransmit_error (up : ClientId → Bool) {c : ClientId} {n : ChannelId}
    (h : c ∉ s.members n) : ∃ e, Writes up (startTransmit c n) s [] (.error e) s := by
  cases hch : s.channels n with
  | none => exact ⟨_, writes_act id (congrArg some hch) (writes_done _)⟩
  | some ch =>
    refine ⟨"not in that channel", writes_act id (congrArg some hch) (writes_act id rfl ?_)⟩
    dsimp only [Program.bind]
    rw [if_pos fun hc => h (mem_members_iff.mpr ⟨ch, hch, hc⟩)]
    exact writes_done _

theorem ends_startTransmit_error (up : ClientId → Bool) {c : ClientId} {n : ChannelId}
    (h : c ∉ s.members n) : ∃ e, Ends up (startTransmit c n) s (.error e) s := by
  obtain ⟨e, he⟩ := writes_startTransmit_error up h
  exact ⟨e, he.ends⟩

/-- The maps after a leave that succeeds. -/
def ServerState.left (s : ServerState) (c : ClientId) (n : ChannelId) : ServerState :=
  ((s.updateClient c (.speaking false)).updateMembers n (·.remove c)).updateClient c
    (.channelId none)

/-- What leaving tells the other members. -/
def ServerState.leaveLetters (s : ServerState) (c : ClientId) (n : ChannelId) : List Letter :=
  s.stopLetters c n ++ (s.left c n).broadcast ((s.left c n).members n).elems c (.userLeft n c)

theorem writes_leaveChannel_ok (up : ClientId → Bool) {c : ClientId} {n : ChannelId}
    (h : c ∈ s.members n) :
    Writes up (leaveChannel c n) s (s.leaveLetters c n) (.ok ()) (s.left c n) := by
  have hstop : ∃ r, Writes up (stopTransmit c n) s (s.stopLetters c n) r
      (s.updateClient c (.speaking false)) := by
    by_cases hcl : (s.clients c).isSome
    · exact ⟨_, writes_stopTransmit_ok h hcl⟩
    · obtain ⟨e, he⟩ := writes_stopTransmit_error up fun hs => hcl hs.2
      have hnone := Option.not_isSome_iff_eq_none.mp hcl
      unfold ServerState.stopLetters
      rw [updateClient_of_none _ hnone, hnone]
      exact ⟨_, he⟩
  obtain ⟨r, hstop⟩ := hstop
  obtain ⟨ch, hch, -⟩ := mem_members_iff.mp h
  refine writes_bind hstop (writes_act id (congrArg some hch) ?_)
  refine writes_act id (congrArg some (decide_eq_true h)) ?_
  refine writes_act id rfl (writes_act id rfl (writes_act id rfl ?_))
  exact writes_bind_left (p := broadcastToMembers _ _ _) (writes_broadcast _ _ _) (writes_done _)

theorem ends_leaveChannel_ok (up : ClientId → Bool) {c : ClientId} {n : ChannelId}
    (h : c ∈ s.members n) : Ends up (leaveChannel c n) s (.ok ()) (s.left c n) :=
  (writes_leaveChannel_ok up h).ends

theorem writes_leaveChannel_error (up : ClientId → Bool) {c : ClientId} {n : ChannelId}
    (h : c ∉ s.members n) : ∃ e, Writes up (leaveChannel c n) s [] (.error e) s := by
  obtain ⟨e, hstop⟩ := writes_stopTransmit_error (s := s) up fun hs => h hs.1
  cases hch : s.channels n with
  | none =>
    exact ⟨_, writes_bind_right hstop (writes_act id (congrArg some hch) (writes_done _))⟩
  | some ch =>
    refine ⟨"not in that channel", writes_bind_right hstop (writes_act id (congrArg some hch) ?_)⟩
    refine writes_act id (congrArg some (decide_eq_false h)) ?_
    exact writes_act id rfl (writes_done_of (updateMembers_remove_of_notMem h))

theorem ends_leaveChannel_error (up : ClientId → Bool) {c : ClientId} {n : ChannelId}
    (h : c ∉ s.members n) : ∃ e, Ends up (leaveChannel c n) s (.error e) s := by
  obtain ⟨e, he⟩ := writes_leaveChannel_error up h
  exact ⟨e, he.ends⟩

/-- The maps once the client has left the channel its record names. -/
def ServerState.departed (s : ServerState) (c : ClientId) (cl : Client) : ServerState :=
  match cl.channelId with
  | some n => if c ∈ s.members n then s.left c n else s
  | none => s

/-- What that tells the other members. -/
def ServerState.departLetters (s : ServerState) (c : ClientId) (cl : Client) : List Letter :=
  match cl.channelId with
  | some n => if c ∈ s.members n then s.leaveLetters c n else []
  | none => []

/-- The maps after the disconnect cleanup of a registered client. -/
def ServerState.removed (s : ServerState) (c : ClientId) (cl : Client) : ServerState :=
  match cl.udpAddr with
  | some a => (((s.departed c cl).putClient c none).putUdpAddr a none).putUdpId cl.udpClientId none
  | none => ((s.departed c cl).putClient c none).putUdpId cl.udpClientId none

/-- Leaving keeps the fields of the record that the cleanup reads. -/
theorem clients_departed {c : ClientId} {cl : Client} (h : s.clients c = some cl) :
    ∃ cl', (s.departed c cl).clients c = some cl' ∧ cl'.udpAddr = cl.udpAddr ∧
      cl'.udpClientId = cl.udpClientId := by
  unfold ServerState.departed ServerState.left
  split
  · split
    · rw [clients_updateClient_self, clients_updateMembers, clients_updateClient_self, h]
      exact ⟨_, rfl, rfl, rfl⟩
    · exact ⟨cl, h, rfl, rfl⟩
  · exact ⟨cl, h, rfl, rfl⟩

theorem writes_removeRecord {c : ClientId} {cl : Client} (h : s.clients c = some cl) :
    Writes up (removeRecord c) (s.departed c cl) [] () (s.removed c cl) := by
  obtain ⟨cl', hcl', haddr, hid⟩ := clients_departed h
  refine writes_act id (congrArg some hcl') ?_
  dsimp only [Program.bind]
  unfold ServerState.removed
  rw [haddr, hid]
  cases cl.udpAddr with
  | none => exact writes_act id rfl (writes_done ())
  | some a => exact writes_act id rfl (writes_act id rfl (writes_done ()))

theorem writes_removeClient {c : ClientId} {cl : Client} (h : s.clients c = some cl) :
    Writes up (removeClient c) s (s.departLetters c cl) () (s.removed c cl) := by
  have hrecord : Writes up (removeRecord c) _ _ _ _ := writes_removeRecord h
  refine writes_act id (congrArg some h) ?_
  dsimp only [Program.bind, Option.bind_some]
  cases hn : cl.channelId with
  | none =>
    have hsame : s.departed c cl = s := by
      simp only [ServerState.departed, hn]
    rw [hsame] at hrecord
    simp only [ServerState.departLetters, hn]
    exact hrecord
  | some n =>
    have hleave : ∃ r, Writes up (leaveChannel c n) s (s.departLetters c cl) r
        (s.departed c cl) := by
      simp only [ServerState.departed, ServerState.departLetters, hn]
      split
      · rename_i hc
        exact ⟨_, writes_leaveChannel_ok up hc⟩
      · rename_i hc
        obtain ⟨e, he⟩ := writes_leaveChannel_error up hc
        exact ⟨_, he⟩
    obtain ⟨r, hleave⟩ := hleave
    exact writes_bind_left hleave hrecord

theorem ends_removeClient {c : ClientId} {cl : Client} (h : s.clients c = some cl) :
    Ends up (removeClient c) s () (s.removed c cl) :=
  (writes_removeClient h).ends

theorem writes_removeClient_none {c : ClientId} (h : s.clients c = none) :
    Writes up (removeClient c) s [] () s := by
  have hsame : s.putClient c none = s := by
    unfold ServerState.putClient
    rw [← h, Function.update_eq_self]
  exact writes_act id (congrArg some h) (writes_act id (congrArg some h) (writes_done_of hsame))

theorem ends_removeClient_none {c : ClientId} (h : s.clients c = none) :
    Ends up (removeClient c) s () s :=
  (writes_removeClient_none h).ends

/-- The maps after a client has authenticated. -/
def ServerState.authenticated (s : ServerState) (c : ClientId) (u : BitVec 64) (name : String) :
    ServerState :=
  (s.putClient c (some (Client.new c u name))).putUdpId u (some c)

theorem writes_authenticate (up : ClientId → Bool) (s : ServerState) (udpPort : BitVec 16)
    (u : BitVec 64) (c : ClientId) (token : String) :
    if up c then ∃ name, Writes up (authenticate udpPort u c token) s [(c, .authOk c udpPort)] .idle
      (s.authenticated c u name)
    else Writes up (authenticate udpPort u c token) s [(c, .authOk c udpPort)] .closed s := by
  split
  · rename_i hup
    exact ⟨_, writes_send hup (writes_act id rfl (writes_act id rfl (writes_done _)))⟩
  · rename_i hup
    exact writes_send (Bool.not_eq_true _ ▸ hup) (writes_done _)

theorem ends_authenticate (up : ClientId → Bool) (s : ServerState) (udpPort : BitVec 16)
    (u : BitVec 64) (c : ClientId) (token : String) :
    if up c then ∃ name, Ends up (authenticate udpPort u c token) s .idle (s.authenticated c u name)
    else Ends up (authenticate udpPort u c token) s .closed s := by
  have h := writes_authenticate up s udpPort u c token
  split at h
  · rename_i hup
    obtain ⟨name, h⟩ := h
    rw [if_pos hup]
    exact ⟨name, h.ends⟩
  · rename_i hup
    rw [if_neg hup]
    exact h.ends

/-! ### Requests -/

theorem ends_handleJoin_ok (up : ClientId → Bool) (now : BitVec 64) {c : ClientId} {n : ChannelId}
    (h : s.Joins c n) :
    Ends up (handleIncoming now c (.message (.joinChannel n))) s .idle (s.joined c n) := by
  obtain ⟨infos, h⟩ := ends_joinChannel_ok up h
  exact ends_bind h (ends_bind (p := sendToClient c _) (ends_sendToClient c _) (ends_done _))

theorem ends_handleJoin_error (up : ClientId → Bool) (now : BitVec 64) {c : ClientId} {n : ChannelId}
    (h : ¬ s.Joins c n) :
    Ends up (handleIncoming now c (.message (.joinChannel n))) s .idle s := by
  obtain ⟨e, h⟩ := ends_joinChannel_error up h
  exact ends_bind h (ends_bind (p := sendError c _) (ends_sendToClient c _) (ends_done _))

theorem ends_handleLeave_ok (up : ClientId → Bool) (now : BitVec 64) {c : ClientId} {n : ChannelId}
    (h : c ∈ s.members n) :
    Ends up (handleIncoming now c (.message (.leaveChannel n))) s .idle (s.left c n) :=
  ends_bind (ends_leaveChannel_ok up h)
    (ends_bind (p := sendToClient c _) (ends_sendToClient c _) (ends_done _))

theorem ends_handleStart_ok (up : ClientId → Bool) (now : BitVec 64) {c : ClientId} {n : ChannelId}
    (h : c ∈ s.members n) :
    Ends up (handleIncoming now c (.message (.startTransmit n))) s .idle
      (s.updateClient c (.speaking true)) :=
  ends_bind (ends_startTransmit_ok h) (ends_done _)

theorem ends_handleStop_ok (up : ClientId → Bool) (now : BitVec 64) {c : ClientId} {n : ChannelId}
    (h : c ∈ s.members n) (hcl : (s.clients c).isSome) :
    Ends up (handleIncoming now c (.message (.stopTransmit n))) s .idle
      (s.updateClient c (.speaking false)) :=
  ends_bind (ends_stopTransmit_ok h hcl) (ends_done _)

/-! ### Datagrams -/

/-- The maps after a datagram from `a` with the numeric id `u`. -/
def ServerState.registered (s : ServerState) (u : BitVec 64) (a : SocketAddr) : ServerState :=
  match s.udpIdToClient u with
  | none => s
  | some c =>
    match s.clients c with
    | none => s
    | some cl =>
      if cl.udpAddr = some a then s.updateClient c (.udpAddr a)
      else
        match cl.udpAddr with
        | some old => ((s.updateClient c (.udpAddr a)).putUdpAddr old none).putUdpAddr a (some c)
        | none => (s.updateClient c (.udpAddr a)).putUdpAddr a (some c)

theorem registered_channels (u : BitVec 64) (a : SocketAddr) :
    (s.registered u a).channels = s.channels := by
  unfold ServerState.registered
  repeat' split
  all_goals rfl

@[simp] theorem members_registered (u : BitVec 64) (a : SocketAddr) (n : ChannelId) :
    (s.registered u a).members n = s.members n := by
  unfold ServerState.members
  rw [registered_channels]

@[simp] theorem udpIdToClient_registered (u : BitVec 64) (a : SocketAddr) :
    (s.registered u a).udpIdToClient = s.udpIdToClient := by
  unfold ServerState.registered
  repeat' split
  all_goals rfl

/-- Only the record that the numeric id leads to changes, and only in its address. -/
theorem clients_registered (u : BitVec 64) (a : SocketAddr) (d : ClientId) :
    (s.registered u a).clients d =
      if s.udpIdToClient u = some d then
        (s.clients d).map fun cl => { cl with udpAddr := some a }
      else s.clients d := by
  unfold ServerState.registered
  cases hu : s.udpIdToClient u with
  | none => rw [if_neg (by simp)]
  | some c =>
    dsimp only
    by_cases hd : d = c
    · subst hd
      rw [if_pos rfl]
      cases hc : s.clients d with
      | none => rw [hc, Option.map_none]
      | some cl =>
        have hupd : (s.updateClient d (.udpAddr a)).clients d = some { cl with udpAddr := some a } := by
          rw [clients_updateClient_self, hc]
          rfl
        dsimp only
        repeat' split
        all_goals exact hupd
    · rw [if_neg fun h => hd (Option.some.inj h).symm]
      repeat' split
      all_goals first
        | rfl
        | exact clients_updateClient_of_ne s _ hd

theorem ends_registerUdpAddr (up : ClientId → Bool) (s : ServerState) (u : BitVec 64)
    (a : SocketAddr) :
    Ends up (registerUdpAddr u a) s () (s.registered u a) := by
  unfold ServerState.registered
  cases hu : s.udpIdToClient u with
  | none => exact ends_act id (congrArg some hu) (ends_done ())
  | some c =>
    refine ends_act id (congrArg some hu) ?_
    dsimp only
    cases hc : s.clients c with
    | none => exact ends_act id (congrArg some hc) (ends_act id rfl (ends_done ()))
    | some cl =>
      refine ends_act id (congrArg some hc) (ends_act id rfl ?_)
      dsimp only [Program.bind]
      by_cases ha : cl.udpAddr = some a
      · rw [if_neg (not_not.mpr ha), if_pos ha]
        exact ends_act id rfl (ends_act id rfl (ends_done ()))
      · rw [if_pos ha, if_neg ha]
        cases cl.udpAddr with
        | none => exact ends_act id rfl (ends_act id rfl (ends_act id rfl (ends_done ())))
        | some old =>
          exact ends_act id rfl
            (ends_act id rfl (ends_act id rfl (ends_act id rfl (ends_done ()))))

/-- Where a member's copy goes, if the sender's numeric id is `u`. -/
def ServerState.target (s : ServerState) (u : BitVec 64) (m : ClientId) : Option SocketAddr :=
  (s.clients m).bind fun cl => if cl.udpClientId ≠ u then cl.udpAddr else none

theorem ends_forwardTargets (u : BitVec 64) (ids : List ClientId) :
    Ends up (forwardTargets u ids) s (ids.filterMap (s.target u)) s := by
  induction ids with
  | nil => exact ends_done []
  | cons m rest ih =>
    unfold forwardTargets
    refine ends_act (f := fun r => forwardTargets u rest >>= fun targets => _) id rfl
      (ends_bind ih ?_)
    cases hm : s.clients m with
    | none =>
      have : s.target u m = none := by simp [ServerState.target, hm]
      rw [List.filterMap_cons_none this]
      exact ends_done _
    | some cl =>
      dsimp only
      split
      · rename_i hu
        have : s.target u m = cl.udpAddr := by simp [ServerState.target, hm, hu]
        cases haddr : cl.udpAddr with
        | none =>
          rw [List.filterMap_cons_none (this.trans haddr)]
          exact ends_done _
        | some a =>
          rw [List.filterMap_cons_some (this.trans haddr)]
          exact ends_done _
      · rename_i hu
        have : s.target u m = none := by simp [ServerState.target, hm, not_not.mp hu]
        rw [List.filterMap_cons_none this]
        exact ends_done _

theorem ends_collectForwardTargets (n : BitVec 32) (u : BitVec 64) :
    Ends up (collectForwardTargets n u) s
      ((s.members (channelName n)).elems.filterMap (s.target u)) s := by
  cases hch : s.channels (channelName n) with
  | none =>
    refine ends_act id (congrArg some hch) ?_
    simp only [ServerState.members, hch]
    exact ends_done _
  | some ch =>
    rw [members_eq hch]
    exact ends_act id (congrArg some hch) (ends_bind (p := forwardTargets u _)
      (ends_forwardTargets u _) (ends_act id rfl (ends_done _)))

theorem alone_sendToAll (targets : List SocketAddr) (bytes : List Byte) (w : World) :
    (sendToAll targets bytes).alone (effect up) w =
      some ((), { w with datagrams := w.datagrams ++ targets.map fun a => (a, bytes) }) := by
  induction targets generalizing w with
  | nil => simp [sendToAll]
  | cons a rest ih =>
    show ((sendToAll rest bytes).alone (effect up) { w with datagrams := w.datagrams ++ [(a, bytes)] })
      = _
    rw [ih]
    simp

/-- A datagram that is no packet changes nothing. -/
theorem alone_handleDatagram_invalid (up : ClientId → Bool) {bytes : List Byte} (src : SocketAddr) (w : World)
    (h : (RoutingHeader.parse (bytes.take maxUdpPacketSize)).bind
      (fun header => PacketType.fromU8 header.packetType) = none) :
    (handleDatagram bytes src).alone (effect up) w = some ((), w) := by
  unfold handleDatagram
  dsimp only
  split
  · rfl
  · cases hp : RoutingHeader.parse (bytes.take maxUdpPacketSize) with
    | none => rfl
    | some header =>
      rw [hp, Option.bind_some] at h
      dsimp only
      rw [h]
      rfl

/-- A packet registers its source; an audio packet goes to every target, a ping comes back as a pong. -/
theorem alone_handleDatagram (up : ClientId → Bool) {bytes : List Byte} (src : SocketAddr) (w : World)
    {header : RoutingHeader} {t : PacketType}
    (hp : RoutingHeader.parse (bytes.take maxUdpPacketSize) = some header)
    (ht : PacketType.fromU8 header.packetType = some t) :
    ∃ sent dgs, (handleDatagram bytes src).alone (effect up) w =
      some ((), ⟨w.state.registered header.clientId src, sent, w.datagrams ++ dgs⟩) ∧
      (t = .audio → dgs = ((w.state.members (channelName header.channelId)).elems.filterMap
        ((w.state.registered header.clientId src).target header.clientId)).map
          fun a => (a, bytes.take maxUdpPacketSize)) ∧
      (t = .ping → dgs = [(src, (bytes.take maxUdpPacketSize).set 16 PacketType.pong.toU8)]) := by
  have hbuf : ¬ (bytes.take maxUdpPacketSize).length < routingHeaderSize := fun hlt => by
    unfold RoutingHeader.parse at hp
    rw [if_pos hlt] at hp
    cases hp
  have hreg := ends_registerUdpAddr up w.state header.clientId src
  have hcollect := ends_bind (f := fun _ => collectForwardTargets header.channelId header.clientId)
    hreg (ends_collectForwardTargets header.channelId header.clientId)
  obtain ⟨sent, hreg⟩ := hreg.alone w rfl
  obtain ⟨sent', hcollect⟩ := hcollect.alone w rfl
  rw [members_registered] at hcollect
  unfold handleDatagram
  dsimp only
  rw [if_neg hbuf, hp]
  dsimp only
  rw [ht]
  dsimp only
  cases t with
  | audio =>
    dsimp only
    rw [← Program.bind_assoc, Program.alone_bind_some hcollect, alone_sendToAll]
    exact ⟨sent', _, rfl, fun _ => rfl, nofun⟩
  | keepalive =>
    rw [Program.alone_bind_some hreg]
    exact ⟨sent, [], by simp, nofun, nofun⟩
  | ping =>
    rw [Program.alone_bind_some hreg]
    exact ⟨sent, _, rfl, nofun, fun _ => rfl⟩
  | pong =>
    rw [Program.alone_bind_some hreg]
    exact ⟨sent, [], by simp, nofun, nofun⟩

end AudioPlatform.Server
