import AudioPlatform.Server.Serial

/-! Requests that are refused.

A client asks to join or leave a channel, or to start or stop transmitting there. When
the server refuses, nothing has happened: leaving first stops transmitting, which writes
and tells the others, but the two refuse for the same reasons. -/
namespace AudioPlatform.Server
open Concurrency

/-- The four requests that name a channel. -/
inductive Request where
  | join
  | leave
  | start
  | stop
  deriving DecidableEq, Repr

/-- The operation that serves a request; of what a join returns, whether it was an error. -/
def Request.perform (q : Request) (c : ClientId) (n : ChannelId) : Prog (Except String Unit) :=
  match q with
  | .join => do
    let members ← joinChannel c n
    return members.map fun _ => ()
  | .leave => leaveChannel c n
  | .start => startTransmit c n
  | .stop => stopTransmit c n

/-- Why a registered client is refused: there is no such channel, or it is already in one,
or it is not a member of this one. -/
def Request.Refused (s : ServerState) (c : ClientId) (n : ChannelId) : Request → Prop
  | .join => s.channels n = none ∨ ∃ cl current, s.clients c = some cl ∧ cl.channelId = some current
  | .leave => s.channels n = none ∨ c ∉ s.members n
  | .start => s.channels n = none ∨ c ∉ s.members n
  | .stop => s.channels n = none ∨ c ∉ s.members n

variable {s : ServerState} {c : ClientId} {n : ChannelId}

theorem notMem_of_missing (h : s.channels n = none) : c ∉ s.members n := by
  unfold ServerState.members
  rw [h]
  exact MemberSet.notMem_empty c

theorem refused_members : (s.channels n = none ∨ c ∉ s.members n) ↔ c ∉ s.members n :=
  or_iff_right_of_imp notMem_of_missing

theorem refused_join (hc : (s.clients c).isSome) :
    Request.join.Refused s c n ↔ ¬ s.Joins c n := by
  obtain ⟨cl, hcl⟩ := Option.isSome_iff_exists.mp hc
  unfold Request.Refused ServerState.Joins
  rw [hcl]
  cases s.channels n with
  | none => simp
  | some ch =>
    cases hn : cl.channelId with
    | none => simp [hn]
    | some current => simp [hn]

/-! ### Served or refused -/

variable {up : ClientId → Bool}

/-- A request that is refused returns an error, writes no message and leaves the maps as they
are. -/
theorem writes_refused (up : ClientId → Bool) (hc : (s.clients c).isSome) (q : Request)
    (h : q.Refused s c n) : ∃ e, Writes up (q.perform c n) s [] (.error e) s := by
  cases q with
  | join =>
    obtain ⟨e, he⟩ := writes_joinChannel_error up ((refused_join hc).mp h)
    exact ⟨e, writes_bind_left he (writes_done _)⟩
  | leave => exact writes_leaveChannel_error up (refused_members.mp h)
  | start => exact writes_startTransmit_error up (refused_members.mp h)
  | stop => exact writes_stopTransmit_error up fun hs => refused_members.mp h hs.1

theorem writes_granted (up : ClientId → Bool) (hc : (s.clients c).isSome) (q : Request)
    (h : ¬ q.Refused s c n) : ∃ out s', Writes up (q.perform c n) s out (.ok ()) s' := by
  have hmem : ¬ (s.channels n = none ∨ c ∉ s.members n) → c ∈ s.members n := fun h =>
    not_not.mp fun hn => h (refused_members.mpr hn)
  cases q with
  | join =>
    obtain ⟨hch, cl, hcl, hn⟩ := not_not.mp fun hj => h ((refused_join hc).mpr hj)
    exact ⟨_, _, writes_bind_left (writes_joinChannel_ok up hch hcl hn) (writes_done _)⟩
  | leave => exact ⟨_, _, writes_leaveChannel_ok up (hmem h)⟩
  | start => exact ⟨_, _, writes_startTransmit_ok (hmem h)⟩
  | stop => exact ⟨_, _, writes_stopTransmit_ok (hmem h) hc⟩

/-- What has been refused has not happened: a request of a registered client, served from any
world with nothing in between, returns an error exactly if it is refused, and then the maps
and all that has been sent are as they were. -/
theorem refusal_atomic (up : ClientId → Bool) (w : World) {c : ClientId} (n : ChannelId)
    (q : Request) (hc : (w.state.clients c).isSome) :
    ∃ r w', (q.perform c n).alone (effect up) w = some (r, w') ∧
      ((∃ e, r = .error e) → w' = w) ∧ ((∃ e, r = .error e) ↔ q.Refused w.state c n) := by
  by_cases h : q.Refused w.state c n
  · obtain ⟨e, he⟩ := writes_refused up hc q h
    exact ⟨.error e, w, he w.sent w.datagrams, fun _ => rfl, fun _ => h, fun _ => ⟨e, rfl⟩⟩
  · obtain ⟨out, s', hok⟩ := writes_granted up hc q h
    refine ⟨.ok (), _, hok w.sent w.datagrams, ?_, ?_, fun hr => absurd hr h⟩
    · rintro ⟨e, he⟩
      cases he
    · rintro ⟨e, he⟩
      cases he

/-- A server with one client, which is in no channel. -/
def lobby : World := { World.new 0 with state := (ServerState.new 0).authenticated "a" 1 "alice" }

theorem refusal_atomic_lobby : ∃ e,
    (Request.leave.perform "a" "channel-1").alone (effect fun _ => true) lobby =
      some (.error e, lobby) := by
  obtain ⟨r, w', halone, hsame, hrefused⟩ :=
    refusal_atomic (fun _ => true) lobby "channel-1" .leave (c := "a") rfl
  obtain ⟨e, he⟩ := hrefused.mpr (.inr (notMem_members_new 0 "channel-1" "a"))
  rw [halone, hsame ⟨e, he⟩, he]
  exact ⟨e, rfl⟩

end AudioPlatform.Server
