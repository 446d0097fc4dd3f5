import AudioPlatform.Concurrency.Machine
import AudioPlatform.Server.Coherence
import AudioPlatform.Server.History

/-! Who is taken to be speaking.

A client is told the members' flags when it joins and the changes after that. Served
one at a time, every request tells each other member of the channel what it changes,
and nobody else; so a member's picture of the speakers is the one of the maps. -/
namespace AudioPlatform.Server
open Concurrency

/-- Who a client takes to be speaking, after one more message. -/
def hear (speakers : List ClientId) : ServerMessage → List ClientId
  | .channelJoined _ members =>
    (members.filter ChannelMemberInfo.speaking).map ChannelMemberInfo.clientId
  | .userSpeaking _ x => speakers.insert x
  | .userStopped _ x => speakers.filter (· ≠ x)
  | .userLeft _ x => speakers.filter (· ≠ x)
  | .channelLeft _ => []
  | _ => speakers

def speakersOf (msgs : List ServerMessage) : List ClientId := msgs.foldl hear []

def ServerState.Speaks (s : ServerState) (x : ClientId) : Prop :=
  ∃ cl, s.clients x = some cl ∧ cl.speaking = true

/-- If `m` is a member of a channel, these are the other members that speak. -/
def Heard (s : ServerState) (m : ClientId) (speakers : List ClientId) : Prop :=
  ∀ n, m ∈ s.members n → ∀ x, x ∈ speakers ↔ x ≠ m ∧ x ∈ s.members n ∧ s.Speaks x

/-- A record has its client's id, names the channel that lists the client, and is flagged as
speaking only in a channel. -/
structure Tidy (s : ServerState) (c : ClientId) : Prop where
  named : ∀ cl, s.clients c = some cl → cl.id = c
  member : ∀ n, c ∈ s.members n ↔ (s.clients c).bind Client.channelId = some n
  quiet : ∀ cl, s.clients c = some cl → cl.channelId = none → cl.speaking = false

variable {D : Deployment} {up : ClientId → Bool} {s s' : ServerState} {c d m : ClientId}
  {n : ChannelId} {out : List Letter} {speakers speakers' : List ClientId}

/-! ### Letters -/

theorem delivered_apply (hup : up m = true) (out : List Letter)
    (sent : ClientId → List ServerMessage) :
    delivered up out sent m = sent m ++ Machine.own m out := by
  induction out generalizing sent with
  | nil => exact (List.append_nil _).symm
  | cons x rest ih =>
    obtain ⟨d, msg⟩ := x
    show delivered up rest ((Op.send d msg).sent up sent) m = _
    rw [ih]
    by_cases hd : d = m
    · subst hd
      simp [Op.sent, Machine.own, hup]
    · have hsame : (Op.send d msg).sent up sent m = sent m := by
        unfold Op.sent
        dsimp only
        split
        · exact Function.update_of_ne (Ne.symm hd) _ _
        · rfl
      rw [hsame]
      simp [Machine.own, hd]

theorem own_map_const {ids : List ClientId} (hnodup : ids.Nodup) (m : ClientId) (msg : ServerMessage) :
    Machine.own m (ids.map (·, msg)) = if m ∈ ids then [msg] else [] := by
  induction ids with
  | nil => rfl
  | cons d rest ih =>
    obtain ⟨hd, hrest⟩ := List.nodup_cons.mp hnodup
    have hcons : Machine.own m ((d :: rest).map (·, msg)) =
        (if d = m then [msg] else []) ++ Machine.own m (rest.map (·, msg)) := by
      by_cases h : d = m <;> simp [Machine.own, h]
    rw [hcons, ih hrest]
    by_cases h : d = m
    · subst h
      simp [hd]
    · simp [h, Ne.symm h]

/-- A broadcast reaches each registered member of the list but the excluded one, once. -/
theorem own_broadcast (members : MemberSet) (ex : ClientId) (msg : ServerMessage) (m : ClientId) :
    Machine.own m (s.broadcast members.elems ex msg) =
      if m ∈ members ∧ m ≠ ex ∧ (s.clients m).isSome then [msg] else [] := by
  unfold ServerState.broadcast
  rw [own_map_const (members.nodup.filter _)]
  simp

theorem own_reply (msg : ServerMessage) (m : ClientId) :
    Machine.own m (s.reply c msg) = if m = c ∧ (s.clients c).isSome then [msg] else [] := by
  unfold ServerState.reply
  by_cases hm : m = c
  · subst hm
    by_cases hs : (s.clients m).isSome <;> simp [Machine.own, hs]
  · by_cases hs : (s.clients c).isSome <;> simp [Machine.own, hs, hm, Ne.symm hm]

/-! ### What a request changes -/

theorem Tidy.notMem (h : Tidy s c) (hc : (s.clients c).bind Client.channelId = none) (n : ChannelId) :
    c ∉ s.members n := by
  rw [h.member n, hc]
  exact nofun

/-- A client is listed in one channel. -/
theorem Tidy.unique (h : Tidy s c) {k : ChannelId} (hn : c ∈ s.members n) (hk : c ∈ s.members k) :
    n = k :=
  Option.some.inj (((h.member n).mp hn).symm.trans ((h.member k).mp hk))

theorem Tidy.registered (h : Tidy s c) (hn : c ∈ s.members n) : (s.clients c).isSome := by
  have := (h.member n).mp hn
  cases hc : s.clients c with
  | none =>
    rw [hc] at this
    cases this
  | some cl => rfl

theorem Tidy.frame (h : Tidy s d) (hf : Frame D c s s') (hd : d ≠ c) : Tidy s' d where
  named cl hcl := h.named cl (hf.clients d hd ▸ hcl)
  member k := by rw [hf.members d k hd, hf.clients d hd, h.member k]
  quiet cl hcl := h.quiet cl (hf.clients d hd ▸ hcl)

theorem Frame.speaks (hf : Frame D c s s') (hd : d ≠ c) : s'.Speaks d ↔ s.Speaks d := by
  unfold ServerState.Speaks
  rw [hf.clients d hd]

/-- What another member hears of the client decides whether its picture is still right. -/
theorem Heard.other (h : Heard s m speakers) (hf : Frame D c s s') (hm : m ≠ c)
    (hheard : ∀ n, m ∈ s.members n → (∀ x, x ≠ c → (x ∈ speakers' ↔ x ∈ speakers)) ∧
      (c ∈ speakers' ↔ c ∈ s'.members n ∧ s'.Speaks c)) :
    Heard s' m speakers' := by
  intro n hn x
  rw [hf.members m n hm] at hn
  obtain ⟨hothers, hself⟩ := hheard n hn
  by_cases hx : x = c
  · subst hx
    rw [hself]
    exact ⟨fun h => ⟨Ne.symm hm, h⟩, fun h => h.2⟩
  · rw [hothers x hx, h n hn x, hf.members x n hx, hf.speaks hx]

/-- The client hears nothing of itself. -/
theorem Heard.same (h : Heard s c speakers) (hf : Frame D c s s')
    (hmem : ∀ n, c ∈ s'.members n → c ∈ s.members n) : Heard s' c speakers := by
  intro n hn x
  rw [h n (hmem n hn) x]
  refine and_congr_right fun hx => ?_
  rw [hf.members x n hx, hf.speaks hx]

theorem heard_of_notMem (h : ∀ n, m ∉ s.members n) : Heard s m speakers :=
  fun n hn => absurd hn (h n)

theorem Heard.notMem (h : Heard s m speakers) (hm : m ∈ s.members n) (hc : ¬ (c ∈ s.members n ∧ s.Speaks c)) :
    c ∉ speakers := fun hmem => hc ((h n hm c).mp hmem).2

/-! ### Operations -/

theorem clients_joined {cl : Client} (h : s.clients c = some cl) :
    (s.joined c n).clients c = some { cl with channelId := some n } := by
  unfold ServerState.joined
  rw [clients_updateClient_self, clients_updateMembers, h]
  rfl

theorem mem_joined (h : (s.channels n).isSome) (x : ClientId) (k : ChannelId) :
    x ∈ (s.joined c n).members k ↔ x ∈ s.members k ∨ (x = c ∧ k = n) := by
  unfold ServerState.joined
  rw [members_updateClient, mem_updateMembers_insert s n k c x h]

theorem tidy_joined {cl : Client} (h : Tidy s c) (hch : (s.channels n).isSome)
    (hcl : s.clients c = some cl) (hn : cl.channelId = none) : Tidy (s.joined c n) c := by
  have hout := h.notMem (by rw [hcl]; exact hn)
  refine ⟨fun cl' hcl' => ?_, fun k => ?_, fun cl' hcl' hnone => ?_⟩
  · cases (clients_joined hcl).symm.trans hcl'
    exact h.named cl hcl
  · rw [mem_joined hch, clients_joined hcl, Option.bind_some]
    simp [hout k, eq_comm]
  · cases (clients_joined hcl).symm.trans hcl'
    cases hnone

/-- The joining client is told who speaks. -/
theorem mem_hear_infos (h : ∀ d, Tidy s d) {ids : List ClientId} {cl : Client}
    (hquiet : cl.speaking = false) (x : ClientId) :
    x ∈ hear speakers (.channelJoined n (s.infos ids ++ [⟨cl.id, cl.userName, cl.speaking⟩])) ↔
      x ∈ ids ∧ s.Speaks x := by
  simp only [hear, ServerState.infos, List.filter_append, List.map_append, List.mem_append,
    List.mem_map, List.mem_filter, List.mem_filterMap, Option.map_eq_some_iff]
  constructor
  · rintro (⟨info, ⟨⟨d, hd, cld, hcld, rfl⟩, hspeaks⟩, rfl⟩ | ⟨info, ⟨hinfo, hspeaks⟩, -⟩)
    · dsimp only
      rw [(h d).named cld hcld]
      exact ⟨hd, cld, hcld, hspeaks⟩
    · rw [List.mem_singleton.mp hinfo, hquiet] at hspeaks
      cases hspeaks
  · rintro ⟨hx, cl', hcl', hspeaks⟩
    exact .inl ⟨_, ⟨⟨x, hx, cl', hcl', rfl⟩, hspeaks⟩, (h x).named cl' hcl'⟩

theorem not_speaks_of_quiet {cl : Client} (hcl : s.clients c = some cl) (hq : cl.speaking = false) :
    ¬ s.Speaks c := by
  rintro ⟨cl', hcl', hspeaks⟩
  cases hcl.symm.trans hcl'
  rw [hq] at hspeaks
  cases hspeaks

theorem heard_joined (D : Deployment) {cl : Client} (htidy : ∀ d, Tidy s d)
    (hch : (s.channels n).isSome) (hcl : s.clients c = some cl) (hn : cl.channelId = none)
    (h : Heard s m speakers) :
    Heard (s.joined c n) m ((Machine.own m
      ((s.joined c n).broadcast ((s.joined c n).members n).elems c (.userJoined n cl.id cl.userName) ++
        (s.joined c n).reply c (.channelJoined n
          (s.infos (s.members n).elems ++ [⟨cl.id, cl.userName, cl.speaking⟩])))).foldl
      hear speakers) := by
  have hf : Frame D c s (s.joined c n) := frame_joined ⟨hch, cl, hcl, hn⟩
  have hquiet := (htidy c).quiet cl hcl hn
  have hout := (htidy c).notMem (by rw [hcl]; exact hn)
  rw [Machine.own_append, own_broadcast, own_reply, List.foldl_append]
  by_cases hm : m = c
  · subst hm
    rw [if_neg (by simp), if_pos ⟨rfl, by rw [clients_joined hcl]; rfl⟩]
    intro k hk x
    obtain rfl : k = n := (((mem_joined hch m k).mp hk).resolve_left (hout k)).2
    show x ∈ hear speakers (.channelJoined k _) ↔ _
    rw [mem_hear_infos htidy hquiet, mem_joined hch]
    by_cases hx : x = m
    · subst hx
      simp [hout k]
    · rw [hf.speaks hx]
      simp [hx]
  · have hsame : (if m ∈ (s.joined c n).members n ∧ m ≠ c ∧ ((s.joined c n).clients m).isSome then
        [ServerMessage.userJoined n cl.id cl.userName] else []).foldl hear speakers = speakers := by
      split <;> rfl
    rw [hsame, if_neg fun h => hm h.1]
    refine h.other hf hm fun k hk => ⟨fun _ _ => Iff.rfl, iff_of_false ?_ ?_⟩
    · exact h.notMem hk fun hc => hout k hc.1
    · exact fun hc => not_speaks_of_quiet (clients_joined hcl) hquiet hc.2

theorem mem_left (x : ClientId) (k : ChannelId) :
    x ∈ (s.left c n).members k ↔ x ∈ s.members k ∧ ¬ (x = c ∧ k = n) := by
  unfold ServerState.left
  rw [members_updateClient, mem_updateMembers_remove, members_updateClient]

/-- Whoever leaves is in no channel. -/
theorem notMem_left (h : Tidy s c) (hn : c ∈ s.members n) (k : ChannelId) :
    c ∉ (s.left c n).members k := by
  rw [mem_left]
  rintro ⟨hk, hne⟩
  exact hne ⟨rfl, h.unique hk hn⟩

theorem clients_left {cl : Client} (h : s.clients c = some cl) :
    (s.left c n).clients c = some { cl with speaking := false, channelId := none } := by
  unfold ServerState.left
  rw [clients_updateClient_self, clients_updateMembers, clients_updateClient_self, h]
  rfl

theorem tidy_left (h : Tidy s c) (hn : c ∈ s.members n) : Tidy (s.left c n) c := by
  obtain ⟨cl, hcl⟩ := Option.isSome_iff_exists.mp (h.registered hn)
  refine ⟨fun cl' hcl' => ?_, fun k => ?_, fun cl' hcl' _ => ?_⟩
  · cases (clients_left hcl).symm.trans hcl'
    exact h.named cl hcl
  · rw [clients_left hcl]
    exact iff_of_false (notMem_left h hn k) (by simp)
  · cases (clients_left hcl).symm.trans hcl'
    rfl

/-- Whoever stops is heard of by the members, if it was speaking. -/
theorem mem_stopped (htidy : ∀ d, Tidy s d) (hm : m ≠ c) (hn : c ∈ s.members n)
    (h : Heard s m speakers) (x : ClientId) (k : ChannelId) (hk : m ∈ s.members k) :
    x ∈ (Machine.own m (s.stopLetters c n)).foldl hear speakers ↔ x ∈ speakers ∧ x ≠ c := by
  have hquiet : ¬ (k = n ∧ s.Speaks c) → (x ∈ speakers ↔ x ∈ speakers ∧ x ≠ c) := by
    intro hno
    refine ⟨fun hx => ⟨hx, ?_⟩, fun hx => hx.1⟩
    rintro rfl
    refine h.notMem hk (fun hc => hno ⟨?_, hc.2⟩) hx
    exact (htidy x).unique hc.1 hn
  obtain ⟨cl, hcl⟩ := Option.isSome_iff_exists.mp ((htidy c).registered hn)
  unfold ServerState.stopLetters
  rw [hcl, Option.any_some]
  split
  · rw [own_broadcast]
    split
    · simp [hear]
    · rename_i hno
      apply hquiet
      rintro ⟨rfl, -⟩
      refine hno ⟨hk, hm, ?_⟩
      rw [clients_updateClient_of_ne s _ hm]
      exact (htidy m).registered hk
  · rename_i hq
    exact hquiet fun hc => not_speaks_of_quiet hcl (Bool.not_eq_true _ ▸ hq) hc.2

theorem heard_left (D : Deployment) (htidy : ∀ d, Tidy s d) (hn : c ∈ s.members n)
    (h : Heard s m speakers) :
    Heard (s.left c n) m ((Machine.own m (s.leaveLetters c n)).foldl hear speakers) := by
  by_cases hm : m = c
  · subst hm
    exact heard_of_notMem (notMem_left (htidy m) hn)
  · have hf : Frame D c s (s.left c n) := frame_left n
    have hheard : ∀ k, m ∈ s.members k → ∀ x,
        x ∈ (Machine.own m (s.leaveLetters c n)).foldl hear speakers ↔ x ∈ speakers ∧ x ≠ c := by
      intro k hk x
      unfold ServerState.leaveLetters
      rw [Machine.own_append, own_broadcast, List.foldl_append]
      split
      · simp [hear, mem_stopped htidy hm hn h x k hk]
      · exact mem_stopped htidy hm hn h x k hk
    refine h.other hf hm fun k hk => ⟨fun x hx => ?_, ?_⟩
    · rw [hheard k hk x]
      exact and_iff_left hx
    · rw [hheard k hk c]
      exact iff_of_false (fun hc => hc.2 rfl) fun hc => notMem_left (htidy c) hn k hc.1

theorem clients_speaking (b : Bool) {cl : Client} (h : s.clients c = some cl) :
    (s.updateClient c (.speaking b)).clients c = some { cl with speaking := b } := by
  rw [clients_updateClient_self, h]
  rfl

theorem tidy_speaking (b : Bool) (h : Tidy s c) (hn : c ∈ s.members n) :
    Tidy (s.updateClient c (.speaking b)) c := by
  obtain ⟨cl, hcl⟩ := Option.isSome_iff_exists.mp (h.registered hn)
  have hchannel := (h.member n).mp hn
  rw [hcl, Option.bind_some] at hchannel
  refine ⟨fun cl' hcl' => ?_, fun k => ?_, fun cl' hcl' hnone => ?_⟩
  · cases (clients_speaking b hcl).symm.trans hcl'
    exact h.named cl hcl
  · rw [members_updateClient, h.member k, clients_speaking b hcl, hcl]
    rfl
  · cases (clients_speaking b hcl).symm.trans hcl'
    cases hchannel.symm.trans hnone

theorem heard_started (D : Deployment) (htidy : ∀ d, Tidy s d) (hn : c ∈ s.members n)
    (h : Heard s m speakers) :
    Heard (s.updateClient c (.speaking true)) m ((Machine.own m
      ((s.updateClient c (.speaking true)).broadcast (s.members n).elems c
        (.userSpeaking n c))).foldl hear speakers) := by
  have hf : Frame D c s (s.updateClient c (.speaking true)) := frame_updateClient _
  obtain ⟨cl, hcl⟩ := Option.isSome_iff_exists.mp ((htidy c).registered hn)
  have hspeaks : (s.updateClient c (.speaking true)).Speaks c := ⟨_, clients_speaking true hcl, rfl⟩
  rw [own_broadcast]
  by_cases hm : m = c
  · subst hm
    rw [if_neg (by simp)]
    exact h.same hf fun _ => id
  · refine h.other hf hm fun k hk => ?_
    have hreg : ((s.updateClient c (.speaking true)).clients m).isSome := by
      rw [clients_updateClient_of_ne s _ hm]
      exact (htidy m).registered hk
    split
    · rename_i hyes
      obtain rfl := (htidy m).unique hk hyes.1
      exact ⟨fun x hx => by simp [hear, hx], by simp [hear, hn, hspeaks]⟩
    · rename_i hno
      have hkn : ¬ c ∈ s.members k := fun hc => hno ⟨(htidy c).unique hc hn ▸ hk, hm, hreg⟩
      exact ⟨fun _ _ => Iff.rfl, iff_of_false (h.notMem hk fun hc => hkn hc.1) fun hc => hkn hc.1⟩

theorem heard_stopped (D : Deployment) (htidy : ∀ d, Tidy s d) (hn : c ∈ s.members n)
    (h : Heard s m speakers) :
    Heard (s.updateClient c (.speaking false)) m
      ((Machine.own m (s.stopLetters c n)).foldl hear speakers) := by
  have hf : Frame D c s (s.updateClient c (.speaking false)) := frame_updateClient _
  obtain ⟨cl, hcl⟩ := Option.isSome_iff_exists.mp ((htidy c).registered hn)
  by_cases hm : m = c
  · subst hm
    have hnone : Machine.own m (s.stopLetters m n) = [] := by
      unfold ServerState.stopLetters
      split
      · rw [own_broadcast, if_neg (by simp)]
      · rfl
    rw [hnone]
    exact h.same hf fun _ => id
  · refine h.other hf hm fun k hk => ⟨fun x hx => ?_, ?_⟩
    · rw [mem_stopped htidy hm hn h x k hk]
      exact and_iff_left hx
    · rw [mem_stopped htidy hm hn h c k hk]
      exact iff_of_false (fun hc => hc.2 rfl)
        fun hc => not_speaks_of_quiet (clients_speaking false hcl) rfl hc.2

theorem members_removed (cl : Client) (k : ChannelId) :
    (s.removed c cl).members k = (s.departed c cl).members k := by
  unfold ServerState.members
  rw [removed_channels]

theorem notMem_departed {cl : Client} (h : Tidy s c) (hcl : s.clients c = some cl) (k : ChannelId) :
    c ∉ (s.departed c cl).members k := by
  unfold ServerState.departed
  cases hn : cl.channelId with
  | none => exact h.notMem (by rw [hcl]; exact hn) k
  | some n =>
    have hmem : c ∈ s.members n := (h.member n).mpr (by rw [hcl]; exact hn)
    dsimp only
    rw [if_pos hmem]
    exact notMem_left h hmem k

theorem tidy_removed {cl : Client} (h : Tidy s c) (hcl : s.clients c = some cl) :
    Tidy (s.removed c cl) c := by
  have hnone := clients_removed (s := s) (c := c) cl
  refine ⟨fun cl' hcl' => ?_, fun k => ?_, fun cl' hcl' _ => ?_⟩
  · cases hnone.symm.trans hcl'
  · rw [members_removed, hnone]
    exact iff_of_false (notMem_departed h hcl k) nofun
  · cases hnone.symm.trans hcl'

/-- The records, members and routes of the others, whatever the ids are. -/
theorem frame_removed_any (D : Deployment) (cl : Client) :
    Frame { D with deriveUdpId := fun _ => cl.udpClientId } c s (s.removed c cl) :=
  frame_removed rfl

theorem heard_removed (D : Deployment) {cl : Client} (htidy : ∀ d, Tidy s d)
    (hcl : s.clients c = some cl) (h : Heard s m speakers) :
    Heard (s.removed c cl) m ((Machine.own m (s.departLetters c cl)).foldl hear speakers) := by
  by_cases hm : m = c
  · subst hm
    apply heard_of_notMem
    intro k
    rw [members_removed]
    exact notMem_departed (htidy m) hcl k
  · have hf := frame_removed_any D (c := c) (s := s) cl
    have hgone : ¬ (s.removed c cl).Speaks c := by
      rintro ⟨cl', hcl', -⟩
      cases (clients_removed cl).symm.trans hcl'
    unfold ServerState.departLetters
    cases hn : cl.channelId with
    | none =>
      have hout := (htidy c).notMem (by rw [hcl]; exact hn)
      refine h.other hf hm fun k hk => ⟨fun _ _ => Iff.rfl, ?_⟩
      exact iff_of_false (h.notMem hk fun hc => hout k hc.1) fun hc => hgone hc.2
    | some n =>
      have hmem : c ∈ s.members n := ((htidy c).member n).mpr (by rw [hcl]; exact hn)
      dsimp only
      rw [if_pos hmem]
      have hleft := heard_left D htidy hmem h
      have hl : Frame D c s (s.left c n) := frame_left n
      have hmembers : ∀ k, (s.removed c cl).members k = (s.left c n).members k := by
        intro k
        rw [members_removed]
        unfold ServerState.departed
        rw [hn]
        dsimp only
        rw [if_pos hmem]
      intro k hk x
      rw [hmembers k] at hk ⊢
      rw [hleft k hk x]
      refine and_congr_right fun _ => and_congr_right fun hx => ?_
      have hxc : x ≠ c := by
        rintro rfl
        exact notMem_left (htidy x) hmem k hx
      rw [hf.speaks hxc, hl.speaks hxc]

theorem tidy_authenticated (u : BitVec 64) (name : String) (h : Tidy s c) (hc : s.clients c = none) :
    Tidy (s.authenticated c u name) c := by
  have hclients : (s.authenticated c u name).clients c = some (Client.new c u name) :=
    clients_putClient_self s c _
  refine ⟨fun cl hcl => ?_, fun k => ?_, fun cl hcl _ => ?_⟩
  · cases hclients.symm.trans hcl
    rfl
  · rw [hclients]
    exact iff_of_false (h.notMem (by rw [hc]; rfl) k) nofun
  · cases hclients.symm.trans hcl
    rfl

theorem heard_authenticated (D : Deployment) (name : String) (h : Heard s m speakers)
    (ht : Tidy s c) (hc : s.clients c = none) :
    Heard (s.authenticated c (D.deriveUdpId c) name) m speakers := by
  have hf : Frame D c s (s.authenticated c (D.deriveUdpId c) name) :=
    (frame_putClient _).trans (frame_putUdpId fun _ h => (Option.some.inj h).symm)
  have hout := ht.notMem (by rw [hc]; rfl)
  by_cases hm : m = c
  · subst hm
    exact heard_of_notMem hout
  · refine h.other hf hm fun k hk => ⟨fun _ _ => Iff.rfl, ?_⟩
    exact iff_of_false (h.notMem hk fun hc => hout k hc.1) fun hc => hout k hc.1

/-! ### Requests -/

/-- The message changes nobody's picture of the speakers. -/
def ServerMessage.Mute : ServerMessage → Prop
  | .authOk .. | .userJoined .. | .pong .. | .error _ => True
  | _ => False

theorem foldl_hear_mute {msg : ServerMessage} (hmute : msg.Mute) (m : ClientId)
    (speakers : List ClientId) :
    (Machine.own m (s.reply c msg)).foldl hear speakers = speakers := by
  rw [own_reply]
  split
  · cases msg with
    | authOk | userJoined | pong | error => rfl
    | _ => exact hmute.elim
  · rfl

/-- What serving client `c` comes to: what it writes, the next phase and the maps. -/
inductive Told (s : ServerState) (c : ClientId) : List Letter → Phase → ServerState → Prop where
  | joined {n : ChannelId} {cl : Client} : (s.channels n).isSome → s.clients c = some cl →
    cl.channelId = none → Told s c
      ((s.joined c n).broadcast ((s.joined c n).members n).elems c (.userJoined n cl.id cl.userName) ++
        (s.joined c n).reply c (.channelJoined n
          (s.infos (s.members n).elems ++ [⟨cl.id, cl.userName, cl.speaking⟩])))
      .idle (s.joined c n)
  | left {n : ChannelId} : c ∈ s.members n →
    Told s c (s.leaveLetters c n ++ (s.left c n).reply c (.channelLeft n)) .idle (s.left c n)
  | started {n : ChannelId} : c ∈ s.members n → Told s c
      ((s.updateClient c (.speaking true)).broadcast (s.members n).elems c (.userSpeaking n c))
      .idle (s.updateClient c (.speaking true))
  | stopped {n : ChannelId} : c ∈ s.members n → (s.clients c).isSome →
    Told s c (s.stopLetters c n) .idle (s.updateClient c (.speaking false))
  | replied {msg : ServerMessage} : msg.Mute → Told s c (s.reply c msg) .idle s
  | removed {cl : Client} : s.clients c = some cl →
    Told s c (s.departLetters c cl) .closed (s.removed c cl)
  | gone : s.clients c = none → Told s c [] .closed s

theorem writes_handleIncoming (up : ClientId → Bool) (c : ClientId) (now : BitVec 64) (m : Incoming)
    (s : ServerState) :
    ∃ out φ s', Writes up (handleIncoming now c m) s out φ s' ∧ Told s c out φ s' := by
  have reply : ∀ msg : ServerMessage, msg.Mute →
      Writes up (sendToClient c msg >>= fun _ => .done Phase.idle) s (s.reply c msg) .idle s :=
    fun msg _ => writes_bind_left (writes_sendToClient c msg) (writes_done _)
  cases m with
  | invalid e => exact ⟨_, _, _, reply (.error _) trivial, .replied trivial⟩
  | closed =>
    cases hc : s.clients c with
    | none =>
      exact ⟨_, _, _, writes_bind_left (writes_removeClient_none hc) (writes_done _), .gone hc⟩
    | some cl =>
      exact ⟨_, _, _, writes_bind_left (writes_removeClient hc) (writes_done _), .removed hc⟩
  | message m =>
    cases m with
    | auth token => exact ⟨_, _, _, reply (.error _) trivial, .replied trivial⟩
    | ping timestamp => exact ⟨_, _, _, reply (.pong ..) trivial, .replied trivial⟩
    | joinChannel n =>
      by_cases hj : s.Joins c n
      · obtain ⟨hch, cl, hcl, hn⟩ := hj
        refine ⟨_, _, _, writes_bind (writes_joinChannel_ok up hch hcl hn) ?_, .joined hch hcl hn⟩
        exact writes_bind_left (p := sendToClient c _) (writes_sendToClient c _) (writes_done _)
      · obtain ⟨e, h⟩ := writes_joinChannel_error up hj
        exact ⟨_, _, _, writes_bind_right h (reply (.error e) trivial), .replied trivial⟩
    | leaveChannel n =>
      by_cases hm : c ∈ s.members n
      · refine ⟨_, _, _, writes_bind (writes_leaveChannel_ok up hm) ?_, .left hm⟩
        exact writes_bind_left (p := sendToClient c _) (writes_sendToClient c _) (writes_done _)
      · obtain ⟨e, h⟩ := writes_leaveChannel_error up hm
        exact ⟨_, _, _, writes_bind_right h (reply (.error e) trivial), .replied trivial⟩
    | startTransmit n =>
      by_cases hm : c ∈ s.members n
      · exact ⟨_, _, _, writes_bind_left (writes_startTransmit_ok hm) (writes_done _), .started hm⟩
      · obtain ⟨e, h⟩ := writes_startTransmit_error up hm
        exact ⟨_, _, _, writes_bind_right h (reply (.error e) trivial), .replied trivial⟩
    | stopTransmit n =>
      by_cases hm : c ∈ s.members n ∧ (s.clients c).isSome
      · exact ⟨_, _, _, writes_bind_left (writes_stopTransmit_ok hm.1 hm.2) (writes_done _),
          .stopped hm.1 hm.2⟩
      · obtain ⟨e, h⟩ := writes_stopTransmit_error up hm
        exact ⟨_, _, _, writes_bind_right h (reply (.error e) trivial), .replied trivial⟩

variable {φ : Phase}

theorem Told.frame (D : Deployment) (ht : Told s c out φ s') : ∃ D', Frame D' c s s' := by
  cases ht with
  | joined hch hcl hn => exact ⟨D, frame_joined ⟨hch, _, hcl, hn⟩⟩
  | left hn => exact ⟨D, frame_left _⟩
  | started hn => exact ⟨D, frame_updateClient _⟩
  | stopped hn hcl => exact ⟨D, frame_updateClient _⟩
  | replied hmute => exact ⟨D, .refl⟩
  | removed hcl => exact ⟨_, frame_removed_any D _⟩
  | gone hc => exact ⟨D, .refl⟩

theorem Told.tidy (D : Deployment) (ht : Told s c out φ s') (h : ∀ d, Tidy s d) (d : ClientId) :
    Tidy s' d := by
  obtain ⟨D', hf⟩ := ht.frame D
  by_cases hd : d = c
  · subst hd
    cases ht with
    | joined hch hcl hn => exact tidy_joined (h d) hch hcl hn
    | left hn => exact tidy_left (h d) hn
    | started hn => exact tidy_speaking true (h d) hn
    | stopped hn hcl => exact tidy_speaking false (h d) hn
    | replied hmute => exact h d
    | removed hcl => exact tidy_removed (h d) hcl
    | gone hc => exact h d
  · exact (h d).frame hf hd

theorem Told.heard (D : Deployment) (ht : Told s c out φ s') (htidy : ∀ d, Tidy s d)
    (h : Heard s m speakers) : Heard s' m ((Machine.own m out).foldl hear speakers) := by
  cases ht with
  | joined hch hcl hn => exact heard_joined D htidy hch hcl hn h
  | left hn =>
    by_cases hm : m = c
    · subst hm
      exact heard_of_notMem (notMem_left (htidy m) hn)
    · rw [Machine.own_append, List.foldl_append, own_reply, if_neg fun he => hm he.1]
      exact heard_left D htidy hn h
  | started hn => exact heard_started D htidy hn h
  | stopped hn hcl => exact heard_stopped D htidy hn h
  | replied hmute =>
    rw [foldl_hear_mute hmute]
    exact h
  | removed hcl => exact heard_removed D htidy hcl h
  | gone hc => exact h

theorem Told.idle (ht : Told s c out φ s') (hc : (s'.clients c).isSome) : φ = .idle := by
  cases ht with
  | removed hcl =>
    rw [clients_removed] at hc
    cases hc
  | gone hn =>
    rw [hn] at hc
    cases hc
  | _ => rfl

/-! ### Runs -/

/-- What holds between two requests for a client `m` that every message to it has reached. -/
structure Tuned (m : ClientId) (S : Serial) : Prop where
  tidy : ∀ c, Tidy S.world.state c
  phase : ∀ c, (S.world.state.clients c).isSome → S.phase (.conn c) = .idle
  heard : Heard S.world.state m (speakersOf (S.world.sent m))

theorem tuned_initial (D : Deployment) (m : ClientId) : Tuned m (Serial.initial D) where
  tidy c := ⟨fun _ h => (nomatch h), fun n => iff_of_false (notMem_members_new _ n c) nofun,
    fun _ h => (nomatch h)⟩
  phase _ h := nomatch h
  heard n hn := absurd hn (notMem_members_new _ n m)

variable {S : Serial}

/-- What a served request has written is heard. -/
theorem tuned_served {p : Prog Phase} {w : World} (hup : up m = true)
    (hw : Writes up p S.world.state out φ s')
    (ha : p.alone (effect up) S.world = some (φ, w)) (htidy : ∀ d, Tidy s' d)
    (hphase : ∀ d, (s'.clients d).isSome → Function.update S.phase (.conn c) φ (.conn d) = .idle)
    (hheard : Heard s' m ((Machine.own m out).foldl hear (speakersOf (S.world.sent m)))) :
    Tuned m ⟨w, Function.update S.phase (.conn c) φ⟩ := by
  cases (hw S.world.sent S.world.datagrams).symm.trans ha
  refine ⟨htidy, hphase, ?_⟩
  dsimp only
  rw [delivered_apply hup, speakersOf, List.foldl_append]
  exact hheard

/-- A request of a connection, as opposed to a datagram. -/
def Move.IsRequest : Move → Prop
  | .datagram .. => False
  | _ => True

/-- **Every request**, if no message to `m` is lost. -/
theorem Tuned.attempt (h : Tuned m S) {i : (ClientId → Bool) × Move} (hup : i.1 m = true)
    (hreq : i.2.IsRequest) : Tuned m (attempt D S i).1 := by
  obtain ⟨up, k⟩ := i
  unfold Server.attempt
  cases hs : serve D up k S with
  | none => exact h
  | some S' =>
    obtain ⟨φ, p, φ', w, hp, hφ, ha, rfl⟩ := serve_eq_some hs
    -- A connection that ends before it is registered leaves everything but its phase.
    have hunknown : ∀ c, S.phase (.conn c) = .connecting → S.world.state.clients c = none := by
      intro c hφ
      by_contra hsome
      cases hφ.symm.trans (h.phase c (Option.isSome_iff_ne_none.mpr hsome))
    have hothers : ∀ (c : ClientId) (s' : ServerState), (∀ d, d ≠ c → s'.clients d = S.world.state.clients d) →
        ((s'.clients c).isSome → φ' = .idle) → ∀ d, (s'.clients d).isSome →
          Function.update S.phase (.conn c) φ' (.conn d) = .idle := by
      intro c s' hsame hself d hd
      by_cases hdc : d = c
      · subst hdc
        rw [Function.update_self]
        exact hself hd
      · rw [Function.update_of_ne fun he => hdc (Task.conn.inj he)]
        exact h.phase d (hsame d hdc ▸ hd)
    cases k with
    | step t b => cases hp
    | datagram bytes src => exact hreq.elim
    | hangUp c =>
      cases hp
      cases ha
      refine tuned_served hup (writes_done _) rfl h.tidy (hothers c _ (fun _ _ => rfl) ?_) h.heard
      rw [hunknown c hφ]
      exact nofun
    | auth c token =>
      cases hp
      have hc := hunknown c hφ
      have hw := writes_authenticate up S.world.state D.udpPort (D.deriveUdpId c) c token
      have hmute : (Machine.own m [(c, ServerMessage.authOk c D.udpPort)]).foldl hear
          (speakersOf (S.world.sent m)) = speakersOf (S.world.sent m) := by
        by_cases hcm : c = m <;> simp [Machine.own, hcm, hear]
      split at hw
      · obtain ⟨name, hw⟩ := hw
        obtain ⟨rfl, -, -⟩ := hw.ends.unique ha
        have hf : Frame D c S.world.state (S.world.state.authenticated c (D.deriveUdpId c) name) :=
          (frame_putClient _).trans (frame_putUdpId fun _ h => (Option.some.inj h).symm)
        refine tuned_served hup hw ha (fun d => ?_) (hothers c _ hf.clients fun _ => rfl) ?_
        · by_cases hd : d = c
          · subst hd
            exact tidy_authenticated _ name (h.tidy d) hc
          · exact (h.tidy d).frame hf hd
        · rw [hmute]
          exact heard_authenticated D name h.heard (h.tidy c) hc
      · obtain ⟨rfl, -, -⟩ := hw.ends.unique ha
        refine tuned_served hup hw ha h.tidy (hothers c _ (fun _ _ => rfl) ?_) ?_
        · rw [hc]
          exact nofun
        · rw [hmute]
          exact h.heard
    | incoming c now msg =>
      cases hp
      obtain ⟨out, ψ, s', hw, ht⟩ := writes_handleIncoming up c now msg S.world.state
      obtain ⟨rfl, -, -⟩ := hw.ends.unique ha
      obtain ⟨D', hf⟩ := ht.frame D
      exact tuned_served hup hw ha (ht.tidy D h.tidy) (hothers c _ hf.clients ht.idle)
        (ht.heard D h.tidy h.heard)

/-- **Speaking indicators agree.** After any requests, served one at a time, a member of a channel
that every message has reached takes exactly those other members to be speaking that are flagged
as speaking. -/
theorem speakers_agree (is : List ((ClientId → Bool) × Move)) (m : ClientId)
    (hup : ∀ i ∈ is, i.1 m = true) (hreq : ∀ i ∈ is, i.2.IsRequest) :
    let S := Machine.run (attempt D) (Serial.initial D) is
    ∀ n, m ∈ S.world.state.members n → ∀ x, x ∈ speakersOf (S.world.sent m) ↔
      x ≠ m ∧ x ∈ S.world.state.members n ∧
        ∃ cl, S.world.state.clients x = some cl ∧ cl.speaking = true := by
  have hrun : Tuned m (Machine.run (attempt D) (Serial.initial D) is) :=
    Machine.run_induction
      (fun S (i : (ClientId → Bool) × Move) (hi : i.1 m = true ∧ i.2.IsRequest) (h : Tuned m S) =>
        h.attempt hi.1 hi.2)
      (tuned_initial D m) fun i hi => ⟨hup i hi, hreq i hi⟩
  exact hrun.heard

/-- "a" joins, speaks, and "b" joins; then "a" stops and starts again. -/
def heardTwice : List ((ClientId → Bool) × Move) :=
  [.auth "a" "alice", .auth "b" "bob", .incoming "a" 0 (.message (.joinChannel "channel-1")),
    .incoming "a" 0 (.message (.startTransmit "channel-1")),
    .incoming "b" 0 (.message (.joinChannel "channel-1")),
    .incoming "a" 0 (.message (.stopTransmit "channel-1")),
    .incoming "a" 0 (.message (.startTransmit "channel-1"))].map (fun _ => true, ·)

theorem speakers_agree_pair :
    "a" ∈ speakersOf ((Machine.run (attempt oneShard) (Serial.initial oneShard)
      heardTwice).world.sent "b") := by
  have hstate : (fun s : ServerState => (decide ("a" ∈ s.members "channel-1"),
      decide ("b" ∈ s.members "channel-1"), (s.clients "a").map Client.speaking))
        (Machine.run (attempt oneShard) (Serial.initial oneShard) heardTwice).world.state =
      (true, true, some true) := by decide +kernel
  obtain ⟨ha, hstate⟩ := Prod.mk.inj hstate
  obtain ⟨hb, hspeaks⟩ := Prod.mk.inj hstate
  obtain ⟨cl, hcl, hspeaking⟩ := Option.map_eq_some_iff.mp hspeaks
  refine (speakers_agree heardTwice "b" ?_ ?_ "channel-1" (of_decide_eq_true hb) "a").mpr
    ⟨by decide, of_decide_eq_true ha, cl, hcl, hspeaking⟩
  · intro i hi
    obtain ⟨k, -, rfl⟩ := List.mem_map.mp hi
    rfl
  · intro i hi
    obtain ⟨k, hk, rfl⟩ := List.mem_map.mp hi
    simp only [List.mem_cons, List.not_mem_nil, or_false] at hk
    rcases hk with rfl | rfl | rfl | rfl | rfl | rfl | rfl <;> trivial

end AudioPlatform.Server
