import AudioPlatform.Core.Process

/-! The stream table: what finding, creating and destroying a stream does to an engine. -/
namespace AudioPlatform.Core

variable {Frame : Type} {L : Library Frame} {e e' : Engine L} {c : BitVec 64} {i : StreamIndex}
  {alloc : Allocation}

/-- The engines differ in nothing but the stream table and its count. -/
def SameButStreams (e e' : Engine L) : Prop :=
  ∃ streams count active,
    e' = { e with streams := streams, streamCount := count, activeStreams := active }

theorem SameButStreams.refl (e : Engine L) : SameButStreams e e := ⟨_, _, _, rfl⟩

theorem SameButStreams.trans {e'' : Engine L} (h : SameButStreams e e')
    (h' : SameButStreams e' e'') : SameButStreams e e'' := by
  obtain ⟨_, _, _, rfl⟩ := h
  obtain ⟨s, n, a, rfl⟩ := h'
  exact ⟨s, n, a, rfl⟩

/-! ### Finding and creating -/

theorem findStream_some (h : findStream e c = some i) :
    (e.streams i).active = true ∧ (e.streams i).clientId = c := by
  have := List.find?_some h
  simpa using this

theorem findStream_isSome : (findStream e c).isSome ↔
    ∃ i, (e.streams i).active = true ∧ (e.streams i).clientId = c := by
  unfold findStream
  rw [List.find?_isSome]
  simp

theorem sameButStreams_createStream : SameButStreams e (createStream e c alloc).1 := by
  unfold createStream
  split
  · exact .refl e
  · split
    · exact .refl e
    · split
      · exact ⟨_, _, _, rfl⟩
      · exact .refl e

theorem sameButStreams_streamFor : SameButStreams e (streamFor e c alloc).1 := by
  unfold streamFor
  split
  · exact .refl e
  · exact sameButStreams_createStream

/-- The stream that is found or created is active and the sender's. -/
theorem streamFor_some (h : (streamFor e c alloc).2 = some i) :
    ((streamFor e c alloc).1.streams i).active = true ∧
      ((streamFor e c alloc).1.streams i).clientId = c := by
  revert h
  unfold streamFor createStream
  cases hf : findStream e c with
  | some j =>
    intro h
    obtain rfl : j = i := Option.some.inj h
    exact findStream_some hf
  | none =>
    dsimp only
    split
    · exact fun h => absurd h (by simp)
    · split
      · intro h
        obtain rfl := Option.some.inj h
        simp [newStream]
      · exact fun h => absurd h (by simp)

/-- Without a stream, the sender gets a new one. -/
theorem streamFor_new (hf : findStream e c = none) (h : (streamFor e c alloc).2 = some i) :
    (streamFor e c alloc).1.streams i = newStream e c alloc := by
  revert h
  unfold streamFor createStream
  rw [hf]
  dsimp only
  split
  · exact fun h => absurd h (by simp)
  · split
    · intro h
      obtain rfl := Option.some.inj h
      simp
    · exact fun h => absurd h (by simp)

/-- Another client has a stream, or gets one if a slot is free. -/
theorem streamFor_isSome (alloc : Allocation) (hc : c ≠ e.clientId) : (streamFor e c alloc).2.isSome ↔
    (findStream e c).isSome ∨ ∃ i, (e.streams i).active = false := by
  have hfree : ((List.finRange aeMaxUsersPerCh).find? fun i => !(e.streams i).active).isSome ↔
      ∃ i, (e.streams i).active = false := by
    rw [List.find?_isSome]
    simp
  unfold streamFor createStream
  cases hf : findStream e c with
  | some j => simp
  | none =>
    dsimp only
    rw [if_neg hc, ← hfree]
    split
    · rename_i h
      simp [h]
    · rename_i h
      simp [h]

/-- The engine with a new stream in a slot. -/
def Engine.opening (e : Engine L) (c : BitVec 64) (alloc : Allocation) (i : StreamIndex) : Engine L :=
  { e with
    streams := Function.update e.streams i (newStream e c alloc)
    streamCount := e.streamCount + 1
    activeStreams := e.streamCount + 1 }

/-- A stream is found, or there is none to be had, or one is opened in a free slot. -/
theorem streamFor_cases (e : Engine L) (c : BitVec 64) (alloc : Allocation) :
    (∃ i, findStream e c = some i ∧ streamFor e c alloc = (e, some i)) ∨
    findStream e c = none ∧ (c = e.clientId ∨ ∀ i, (e.streams i).active = true) ∧
      streamFor e c alloc = (e, none) ∨
    findStream e c = none ∧ c ≠ e.clientId ∧
      ∃ i, (e.streams i).active = false ∧ streamFor e c alloc = (e.opening c alloc i, some i) := by
  cases hf : findStream e c with
  | some i =>
    refine .inl ⟨i, rfl, ?_⟩
    unfold streamFor
    rw [hf]
  | none =>
    right
    unfold streamFor createStream
    rw [hf]
    dsimp only
    by_cases hc : c = e.clientId
    · rw [if_pos hc]
      exact .inl ⟨rfl, .inl hc, rfl⟩
    · rw [if_neg hc]
      cases hfree : (List.finRange aeMaxUsersPerCh).find? fun i => !(e.streams i).active with
      | none =>
        refine .inl ⟨rfl, .inr fun i => ?_, rfl⟩
        have := List.find?_eq_none.mp hfree i (List.mem_finRange i)
        simpa using this
      | some i =>
        have := List.find?_some hfree
        exact .inr ⟨rfl, hc, i, by simpa using this, rfl⟩

/-! ### Destroying -/

theorem sameButStreams_destroyStream (e : Engine L) (i : StreamIndex) :
    SameButStreams e (destroyStream e i) := by
  unfold destroyStream
  split
  · exact .refl e
  · exact ⟨_, _, _, rfl⟩

theorem inactive_destroyStream (e : Engine L) (i j : StreamIndex)
    (h : j = i ∨ (e.streams j).active = false) : ((destroyStream e i).streams j).active = false := by
  unfold destroyStream
  by_cases hact : (e.streams i).active = true
  · rw [if_neg (by simp [hact])]
    show ((Function.update e.streams i _) j).active = false
    by_cases hj : j = i
    · subst hj
      rw [Function.update_self]
    · rw [Function.update_of_ne hj]
      exact h.resolve_left hj
  · rw [if_pos (by simpa using hact)]
    rcases h with rfl | h
    · simpa using hact
    · exact h

/-- What destroying a stream preserves, destroying one after the other preserves. -/
theorem foldl_destroyStream {P : Engine L → Prop} (hP : ∀ e i, P e → P (destroyStream e i))
    (h : P e) (slots : List StreamIndex) :
    P (slots.foldl (fun e i => if (e.streams i).active then destroyStream e i else e) e) := by
  induction slots generalizing e with
  | nil => exact h
  | cons i rest ih =>
    rw [List.foldl_cons]
    apply ih
    split
    · exact hP e i h
    · exact h

/-- Leaving destroys every stream. -/
theorem inactive_leaveChannel (e : Engine L) (channelId : CString) (j : StreamIndex) :
    ((aeEngineLeaveChannel e channelId).1.streams j).active = false := by
  have hloop : ∀ (slots : List StreamIndex) (e : Engine L),
      j ∈ slots ∨ (e.streams j).active = false →
      ((slots.foldl (fun e i => if (e.streams i).active then destroyStream e i else e)
        e).streams j).active = false := by
    intro slots
    induction slots with
    | nil => exact fun e h => h.resolve_left List.not_mem_nil
    | cons i rest ih =>
      intro e h
      rw [List.foldl_cons]
      apply ih _
      rw [List.mem_cons, or_assoc] at h
      rcases h with h | h | h
      · right
        split
        · exact inactive_destroyStream e i j (.inl h)
        · rename_i hoff
          rw [h]
          simpa using hoff
      · exact .inl h
      · right
        split
        · exact inactive_destroyStream e i j (.inr h)
        · exact h
  unfold aeEngineLeaveChannel
  dsimp only
  rw [hloop (List.finRange aeMaxUsersPerCh) _ (.inl (List.mem_finRange j))]

theorem streams_enterChannel (e : Engine L) (channelId : CString) :
    (enterChannel e channelId).streams = e.streams := rfl

/-- A join from an active channel destroys every stream. -/
theorem inactive_joinChannel {e : Engine L} (hon : e.connected = true)
    (hact : e.channel.active = true) (channelId : CString) (j : StreamIndex) :
    ((aeEngineJoinChannel e channelId).1.streams j).active = false := by
  unfold aeEngineJoinChannel
  rw [if_neg (show ¬ (!e.connected) = true by simp [hon])]
  dsimp only
  rw [if_pos hact, streams_enterChannel, inactive_leaveChannel]

/-- The engine out of its channel, its streams still there. -/
def Engine.hungUp (e : Engine L) : Engine L :=
  { e with
    transmitting := false
    channel := { e.channel with active := false, transmitting := false } }

theorem sameButStreams_leaveChannel (e : Engine L) (channelId : CString) :
    SameButStreams e.hungUp (aeEngineLeaveChannel e channelId).1 := by
  obtain ⟨_, _, _, h⟩ := foldl_destroyStream
    (fun e' i h => h.trans (sameButStreams_destroyStream e' i))
    (SameButStreams.refl
      { e with transmitting := false, channel := { e.channel with transmitting := false } })
    (List.finRange aeMaxUsersPerCh)
  unfold aeEngineLeaveChannel
  dsimp only
  rw [h]
  exact ⟨_, _, _, rfl⟩

end AudioPlatform.Core
