import AudioPlatform.Core.StreamLog
import AudioPlatform.Core.StreamTable

/-! The end of a stream.

The mix loop comes by every slot once. A stream that has been silent for too long is
destroyed there, any other gives a frame to the mix or is passed over, and the frames
stand one after the other in as many places as there are slots at most. Nothing else in
a tick destroys a stream. -/
namespace AudioPlatform.Core
open Concurrency Maps

variable {Frame : Type} {L : Library Frame}

/-! ### The mix loop -/

/-- The stream has been silent for longer than a stream may be. -/
def RemoteStream.Stale (nowMix : BitVec 64) (s : RemoteStream L) : Prop :=
  s.active = true ∧ s.jitter.isSome = true ∧ streamDestroyMs < nowMix - s.lastRecvMs

instance (nowMix : BitVec 64) (s : RemoteStream L) : Decidable (s.Stale nowMix) :=
  inferInstanceAs (Decidable (_ ∧ _ ∧ _))

section Loop
variable {nowMix : BitVec 64} {m : Mixing L} {i : StreamIndex}

theorem mixStream_stale (h : (m.engine.streams i).Stale nowMix) :
    mixStream nowMix m i = { m with engine := destroyStream m.engine i } := by
  obtain ⟨hact, hjitter, hsilent⟩ := h
  obtain ⟨jb, hjb⟩ := Option.isSome_iff_exists.mp hjitter
  unfold mixStream
  dsimp only
  rw [hact, hjb]
  dsimp only
  rw [if_pos hsilent]

/-- A stream that is not stale goes on, its decoder apart. -/
theorem goesOn_mixed {s : RemoteStream L} (h : ¬ s.Stale nowMix) (decoder : Option L.Decoder) :
    GoesOn nowMix s { s.mixed nowMix with decoder := decoder } := by
  unfold RemoteStream.mixed
  split
  · rename_i jb hact hjb
    have hrecent : ¬ streamDestroyMs < nowMix - s.lastRecvMs := fun hsilent =>
      h ⟨hact, by rw [hjb]; rfl, hsilent⟩
    rw [if_neg hrecent]
    split
    · exact ⟨rfl, rfl, rfl, .inl rfl⟩
    · exact ⟨rfl, rfl, by rw [hjb]; rfl, .inl rfl⟩
  · exact ⟨rfl, rfl, rfl, .inl rfl⟩

theorem counts_mixStream (h : ¬ (m.engine.streams i).Stale nowMix) :
    (mixStream nowMix m i).engine.streamCount = m.engine.streamCount ∧
      (mixStream nowMix m i).engine.activeStreams = m.engine.activeStreams := by
  unfold mixStream
  dsimp only
  split
  · exact ⟨rfl, rfl⟩
  · exact ⟨rfl, rfl⟩
  · rename_i jb hact hjb
    rw [if_neg fun hsilent => h ⟨hact, by rw [hjb]; rfl, hsilent⟩]
    split
    · exact ⟨rfl, rfl⟩
    · split
      · exact ⟨rfl, rfl⟩
      · split
        · exact ⟨rfl, rfl⟩
        · split <;> exact ⟨rfl, rfl⟩

theorem continues_mixStream (h : ¬ (m.engine.streams i).Stale nowMix) :
    Continues nowMix i m.engine (mixStream nowMix m i).engine := by
  obtain ⟨decoder, hstreams⟩ := streams_mixStream nowMix m i
  obtain ⟨hcount, hactive⟩ := counts_mixStream h
  refine ⟨hcount, hactive, fun j hj => by rw [hstreams, Function.update_of_ne hj], ?_⟩
  rw [hstreams, Function.update_self]
  exact goesOn_mixed h decoder

/-- A slot takes one place in the mix at most. -/
theorem count_mixStream (nowMix : BitVec 64) (m : Mixing L) (i : StreamIndex) :
    (mixStream nowMix m i).count ≤ m.count + 1 := by
  have hadd : ∀ e : Engine L, (({ m with engine := e } : Mixing L).add i).count = m.count + 1 :=
    fun e => by simp [Mixing.add, Mixing.count]
  unfold mixStream
  dsimp only
  split
  · exact Nat.le_succ _
  · exact Nat.le_succ _
  · split
    · exact Nat.le_succ _
    · split
      · exact Nat.le_succ _
      · split
        · exact (hadd _).le
        · split
          · exact Nat.le_succ _
          · split
            · exact (hadd _).le
            · exact Nat.le_succ _

theorem tabled_mixStream (h : Tabled m.engine) : Tabled (mixStream nowMix m i).engine := by
  by_cases hstale : (m.engine.streams i).Stale nowMix
  · rw [mixStream_stale hstale]
    exact tabled_destroyStream h i
  · exact (continues_mixStream hstale).tabled h

end Loop

theorem tabled_mix {e : Engine L} (h : Tabled e) (isConnected : Bool) (nowMix : BitVec 64) :
    Tabled (mix isConnected e nowMix) := by
  obtain ⟨_, _, hmix⟩ := mix_eq isConnected e nowMix
  have hend : Tabled ((List.finRange aeMaxUsersPerCh).foldl (mixStream nowMix) ⟨e, []⟩).engine :=
    foldl_mixStream (P := Tabled) (fun _ _ h => tabled_mixStream h) h _
  rw [hmix]
  generalize (List.finRange aeMaxUsersPerCh).foldl (mixStream nowMix) ⟨e, []⟩ = m at hend ⊢
  exact SameTable.tabled (e := m.engine) ⟨rfl, rfl, rfl⟩ hend

/-! ### What is destroyed -/

/-- The slots whose streams are active in the one engine and not in the other. -/
def ended (e e' : Engine L) : List StreamIndex :=
  (List.finRange aeMaxUsersPerCh).filter fun i => (e.streams i).active && !(e'.streams i).active

theorem ended_eq_nil {e e' : Engine L}
    (h : ∀ i, (e.streams i).active = true → (e'.streams i).active = true) : ended e e' = [] := by
  unfold ended
  rw [List.filter_eq_nil_iff]
  intro i _ hi
  rw [Bool.and_eq_true, Bool.not_eq_true'] at hi
  cases (h i hi.1).symm.trans hi.2

theorem ended_destroyStream {e : Engine L} {i : StreamIndex} (hi : (e.streams i).active = true) :
    ended e (destroyStream e i) = [i] := by
  have honly : ∀ j, ((e.streams j).active && !((destroyStream e i).streams j).active) = (j == i) := by
    intro j
    rw [streams_destroyStream hi]
    by_cases hj : j = i
    · subst hj
      simp [hi]
    · simp [hj]
  unfold ended
  rw [List.filter_congr fun j _ => honly j, List.filter_beq,
    List.count_eq_one_of_mem (List.nodup_finRange _) (List.mem_finRange i)]
  rfl

/-- One turn of the mix loop, and the stream that it destroys. -/
def mixTurn (nowMix : BitVec 64) (m : Mixing L) (i : StreamIndex) : Mixing L × List StreamIndex :=
  (mixStream nowMix m i, ended m.engine (mixStream nowMix m i).engine)

theorem mixTurn_ends (nowMix : BitVec 64) (m : Mixing L) (i : StreamIndex) :
    (mixTurn nowMix m i).2 = if (m.engine.streams i).Stale nowMix then [i] else [] := by
  show ended _ _ = _
  by_cases h : (m.engine.streams i).Stale nowMix
  · rw [if_pos h, mixStream_stale h]
    exact ended_destroyStream h.1
  · rw [if_neg h]
    exact ended_eq_nil fun j hj => ((continues_mixStream h).each j).active.trans hj

/-- The mix loop destroys the streams that are stale when it starts. -/
theorem outputs_mixTurn (nowMix : BitVec 64) {slots : List StreamIndex} (hnodup : slots.Nodup)
    (m : Mixing L) : Machine.outputs (mixTurn nowMix) m slots =
      slots.filter fun i => (m.engine.streams i).Stale nowMix := by
  induction slots generalizing m with
  | nil => rfl
  | cons i rest ih =>
    obtain ⟨hi, hrest⟩ := List.nodup_cons.mp hnodup
    obtain ⟨decoder, hstreams⟩ := streams_mixStream nowMix m i
    -- the turn at `i` leaves the streams in the slots to come as they are
    have hlater : ∀ j ∈ rest, (mixStream nowMix m i).engine.streams j = m.engine.streams j := by
      intro j hj
      have hji : j ≠ i := by
        rintro rfl
        exact hi hj
      rw [hstreams, Function.update_of_ne hji]
    show (mixTurn nowMix m i).2 ++ Machine.outputs (mixTurn nowMix) (mixStream nowMix m i) rest = _
    rw [mixTurn_ends, ih hrest, List.filter_cons,
      List.filter_congr fun j hj => by rw [hlater j hj]]
    by_cases h : (m.engine.streams i).Stale nowMix
    · simp [h]
    · simp [h]

/-- The places in the mix are fewer than the slots. -/
theorem along_mixTurn (nowMix : BitVec 64) {slots : List StreamIndex} {m : Mixing L}
    (h : m.count + slots.length ≤ aeMaxUsersPerCh) :
    Machine.Along (mixTurn nowMix) (fun m _ => m.count < aeMaxUsersPerCh) m slots := by
  induction slots generalizing m with
  | nil => trivial
  | cons i rest ih =>
    have hnext := count_mixStream nowMix m i
    rw [List.length_cons] at h
    refine ⟨by omega, ih ?_⟩
    show (mixStream nowMix m i).count + rest.length ≤ aeMaxUsersPerCh
    omega

theorem count_mixTurn (nowMix : BitVec 64) (slots : List StreamIndex) (m : Mixing L) :
    (slots.foldl (mixStream nowMix) m).count ≤ m.count + slots.length := by
  induction slots generalizing m with
  | nil => exact Nat.le_refl _
  | cons i rest ih =>
    have hnext := count_mixStream nowMix m i
    have hrest := ih (mixStream nowMix m i)
    rw [List.foldl_cons, List.length_cons]
    omega

/-! ### Ticks -/

/-- The steps of a tick before it mixes. -/
def Engine.beforeMix (e : Engine L) (t : Tick) : List (EngineStep Frame) :=
  if e.connected then .capture :: (taken e t).map .arrive ++ [.keepalive t.now, .ping t.now] else []

theorem steps_tick (e : Engine L) (t : Tick) :
    e.steps (.process t) = e.beforeMix t ++ [.mix e.connected t.nowMix] := by
  rw [steps_process]
  unfold Engine.beforeMix
  cases e.connected with
  | false => rfl
  | true => simp

/-- The engine when the tick mixes. -/
def Engine.atMix (e : Engine L) (t : Tick) : Engine L :=
  Machine.run Engine.step e (e.beforeMix t)

theorem process_atMix (e : Engine L) (t : Tick) :
    (aeEngineProcess e t).1 = mix e.connected (e.atMix t) t.nowMix := by
  have hsteps := run_steps e (.process t)
  rw [steps_tick, Machine.run_append] at hsteps
  exact hsteps.symm.trans (step_mix (e.atMix t) e.connected t.nowMix)

/-- The slots of the streams that a step destroys, one after the other. -/
def EngineStep.ends (e : Engine L) : EngineStep Frame → List StreamIndex
  | .mix _ nowMix =>
    Machine.outputs (mixTurn nowMix) ⟨e, []⟩ (List.finRange aeMaxUsersPerCh)
  | s => ended e (e.step s).1

def Engine.endStep (e : Engine L) (s : EngineStep Frame) : Engine L × List StreamIndex :=
  ((e.step s).1, s.ends e)

/-- The slots of the streams that a tick destroys, one after the other. -/
def destroyed (e : Engine L) (t : Tick) : List StreamIndex :=
  Machine.outputs Engine.endStep e (e.steps (.process t))

theorem mem_beforeMix {e : Engine L} {t : Tick} {s : EngineStep Frame} (h : s ∈ e.beforeMix t) :
    (∀ c hc, s ≠ .command c hc) ∧ ∀ isConnected nowMix, s ≠ .mix isConnected nowMix := by
  refine ⟨ne_command (t := t) (by rw [steps_tick]; exact List.mem_append_left _ h), ?_⟩
  rintro isConnected nowMix rfl
  unfold Engine.beforeMix at h
  split at h
  · simp at h
  · cases h

/-- A datagram destroys no stream. -/
theorem active_receive {e : Engine L} (a : Arrival) {i : StreamIndex}
    (hi : (e.streams i).active = true) : ((receive e a).1.streams i).active = true := by
  rcases receive_seats e a with h | ⟨hdr, j, e', -, hseat, hnext⟩
  · rwa [h.streams]
  · rw [(hnext.each i).active]
    cases hseat with
    | found hf h => rwa [h.streams]
    | opened hf hj h =>
      rw [h.streams]
      have hij : i ≠ j := by
        rintro rfl
        cases hi.symm.trans hj
      show (Function.update e.streams j _ i).active = true
      rwa [Function.update_of_ne hij]

/-- Before it mixes, a tick destroys no stream. -/
theorem ends_beforeMix {e : Engine L} {t : Tick} {s : EngineStep Frame} (h : s ∈ e.beforeMix t)
    (r : Engine L) : s.ends r = [] := by
  obtain ⟨hcommand, hmix⟩ := mem_beforeMix h
  have hsame : ∀ r' : Engine L, SameTable r r' → ended r r' = [] := by
    intro r' htable
    apply ended_eq_nil
    intro i hi
    rwa [htable.streams]
  cases s with
  | command c hc => exact absurd rfl (hcommand c hc)
  | capture => exact hsame _ (sameTable_transmit r)
  | arrive a => exact ended_eq_nil fun i hi => active_receive a hi
  | keepalive now => exact hsame _ (sameTable_keepalive r now)
  | ping now => exact hsame _ (sameTable_ping r now)
  | mix isConnected nowMix => exact absurd rfl (hmix isConnected nowMix)

theorem run_endStep (e : Engine L) (steps : List (EngineStep Frame)) :
    Machine.run Engine.endStep e steps = Machine.run Engine.step e steps := by
  rw [show (Engine.endStep : Engine L → _) = fun e s => ((e.step s).1, s.ends e) from rfl,
    Machine.run_eq_foldl]
  exact (Machine.run_eq_foldl steps).symm

/-- A tick destroys the streams that are stale when it mixes. -/
theorem destroyed_eq (e : Engine L) (t : Tick) : destroyed e t =
    (List.finRange aeMaxUsersPerCh).filter fun i => ((e.atMix t).streams i).Stale t.nowMix := by
  have hnone : Machine.outputs Engine.endStep e (e.beforeMix t) = [] :=
    Machine.outputs_eq_nil fun s hs r => ends_beforeMix hs r
  unfold destroyed
  rw [steps_tick, Machine.outputs_append, hnone, List.nil_append, run_endStep]
  show EngineStep.ends (e.atMix t) (.mix e.connected t.nowMix) ++ [] = _
  rw [List.append_nil]
  exact outputs_mixTurn t.nowMix (List.nodup_finRange _) ⟨e.atMix t, []⟩

/-! ### The clock -/

/-- What a step reads from the clock, in order. The keepalive and the ping of a tick share
one reading. -/
def EngineStep.readings : EngineStep Frame → List (BitVec 64)
  | .command (.connect _ now) _ => [now]
  | .command _ _ => []
  | .capture => []
  | .arrive a => [a.alloc.now, a.now]
  | .keepalive now => [now]
  | .ping now => [now]
  | .mix _ nowMix => [nowMix]

/-- No stream has been heard after this time. -/
def HeardBy (u : BitVec 64) (e : Engine L) : Prop :=
  ∀ i, (e.streams i).active = true → (e.streams i).lastRecvMs ≤ u

section Clock
variable {u : BitVec 64} {e e' : Engine L}

theorem SameTable.heardBy (h : SameTable e e') (hu : HeardBy u e) : HeardBy u e' := by
  intro i hi
  rw [h.streams] at hi ⊢
  exact hu i hi

theorem Continues.heardBy {now : BitVec 64} {i : StreamIndex} (h : Continues now i e e')
    (hnow : now ≤ u) (hu : HeardBy u e) : HeardBy u e' := by
  intro j hj
  rw [(h.each j).active] at hj
  rcases (h.each j).heard with hsame | hheard
  · rw [hsame]
    exact hu j hj
  · rwa [hheard]

theorem Seats.heardBy {c : BitVec 64} {alloc : Allocation} {i : StreamIndex}
    (h : Seats e c alloc i e') (halloc : alloc.now ≤ u) (hu : HeardBy u e) : HeardBy u e' := by
  cases h with
  | found hf h => exact h.heardBy hu
  | opened hf hi h =>
    apply h.heardBy
    intro j hj
    replace hj : (Function.update e.streams i (newStream e c alloc) j).active = true := hj
    show (Function.update e.streams i (newStream e c alloc) j).lastRecvMs ≤ u
    by_cases hji : j = i
    · subst hji
      rw [Function.update_self]
      exact halloc
    · rw [Function.update_of_ne hji] at hj ⊢
      exact hu j hj

theorem lastRecvMs_mixed (nowMix : BitVec 64) (s : RemoteStream L) :
    (s.mixed nowMix).lastRecvMs = s.lastRecvMs := by
  unfold RemoteStream.mixed
  split
  · split
    · rfl
    · split <;> rfl
  · rfl

theorem heardBy_mix (hu : HeardBy u e) (isConnected : Bool) (nowMix : BitVec 64) :
    HeardBy u (mix isConnected e nowMix) := by
  intro i hi
  obtain ⟨decoder, hstream⟩ := streams_mix isConnected e nowMix i
  rw [hstream] at hi ⊢
  show ((e.streams i).mixed nowMix).lastRecvMs ≤ u
  rw [lastRecvMs_mixed]
  apply hu
  by_contra hoff
  cases hi.symm.trans (inactive_mixed (by simpa using hoff) nowMix)

theorem heardBy_step (s : EngineStep Frame) (hs : ∀ r ∈ s.readings, r ≤ u) (hu : HeardBy u e) :
    HeardBy u (e.step s).1 := by
  cases s with
  | command c hc =>
    rcases streams_command e hc with hsame | hnone
    · intro i hi
      rw [step_command, hsame] at hi ⊢
      exact hu i hi
    · intro i hi
      rw [step_command, hnone i] at hi
      cases hi
  | capture => exact (sameTable_transmit e).heardBy hu
  | arrive a =>
    have halloc : a.alloc.now ≤ u := hs _ (List.mem_cons_self ..)
    have hnow : a.now ≤ u := hs _ (List.mem_cons_of_mem _ (List.mem_singleton_self _))
    rcases receive_seats e a with h | ⟨hdr, i, e', -, hseat, hnext⟩
    · exact h.heardBy hu
    · exact hnext.heardBy hnow (hseat.heardBy halloc hu)
  | keepalive now => exact (sameTable_keepalive e now).heardBy hu
  | ping now => exact (sameTable_ping e now).heardBy hu
  | mix isConnected nowMix =>
    rw [step_mix]
    exact heardBy_mix hu isConnected nowMix

theorem heardBy_run {steps : List (EngineStep Frame)}
    (hsteps : ∀ r ∈ steps.flatMap EngineStep.readings, r ≤ u) (hu : HeardBy u e) :
    HeardBy u (Machine.run Engine.step e steps) :=
  Machine.run_induction (P := fun s => ∀ r ∈ s.readings, r ≤ u)
    (fun _ s hs h => heardBy_step s hs h) hu
    fun s hs r hr => hsteps r (List.mem_flatMap.mpr ⟨s, hs, hr⟩)

end Clock

/-! ### Runs -/

theorem tabled_step {e : Engine L} {s : EngineStep Frame}
    (hs : ∀ a, s = .arrive a → a.alloc.jitter = true) (h : Tabled e) : Tabled (e.step s).1 := by
  cases s with
  | command c hc => exact tabled_command h hc
  | capture => exact (sameTable_transmit e).tabled h
  | arrive a => exact tabled_receive h (hs a rfl)
  | keepalive now => exact (sameTable_keepalive e now).tabled h
  | ping now => exact (sameTable_ping e now).tabled h
  | mix isConnected nowMix =>
    rw [step_mix]
    exact tabled_mix h isConnected nowMix

theorem tabled_run {e : Engine L} {steps : List (EngineStep Frame)} (h : Tabled e)
    (halloc : ∀ a, .arrive a ∈ steps → a.alloc.jitter = true) :
    Tabled (Machine.run Engine.step e steps) :=
  Machine.run_induction (P := fun s => ∀ a, s = .arrive a → a.alloc.jitter = true)
    (fun _ _ hs h => tabled_step hs h) h fun _ hs a ha => halloc a (ha ▸ hs)

theorem tabled_create [Zero Frame] {config : Option AeConfig} {e : Engine L}
    (hnew : aeEngineCreate L config = some e) : Tabled e ∧ ∀ u, HeardBy u e := by
  have hoff : ∀ i, (e.streams i).active = false := by
    intro i
    rw [(fresh_create hnew).streams i]
    rfl
  have hempty : (held e.holders).card = 0 := by
    rw [held_eq_empty fun i => holders_eq_none.mpr (hoff i), Finset.card_empty]
  refine ⟨⟨?_, ?_, distinct_of_none fun i => holders_eq_none.mpr (hoff i), ?_⟩, ?_⟩
  · rw [hempty, (idle_create hnew).streamCount]
    rfl
  · rw [hempty, (idle_create hnew).activeStreams]
    rfl
  · intro i hi
    cases hi.symm.trans (hoff i)
  · intro u i hi
    cases hi.symm.trans (hoff i)

/-- What a tick does to the table: it destroys each stream once that was last heard more than
five seconds before it mixes, and no other. Every place in the mix is below the last one, where
a frame is put and where the mixer takes it. -/
structure Tidies (e : Engine L) (t : Tick) : Prop where
  mixes : (aeEngineProcess e t).1 = mix e.connected (e.atMix t) t.nowMix
  destroyed : destroyed e t = (List.finRange aeMaxUsersPerCh).filter fun i =>
    ((e.atMix t).streams i).active ∧
      ((e.atMix t).streams i).lastRecvMs.toNat + 5000 < t.nowMix.toNat
  places : Machine.Along (mixTurn t.nowMix) (fun m _ => m.count < aeMaxUsersPerCh)
    ⟨e.atMix t, []⟩ (List.finRange aeMaxUsersPerCh)
  inputs : ∀ k, k < ((List.finRange aeMaxUsersPerCh).foldl (mixStream t.nowMix)
    ⟨e.atMix t, []⟩).count → k < aeMaxUsersPerCh

/-- A stream that was heard by then has been silent for the time between. -/
theorem stale_iff {e : Engine L} {nowMix : BitVec 64} (ht : Tabled e) (hu : HeardBy nowMix e)
    (i : StreamIndex) : (e.streams i).Stale nowMix ↔ (e.streams i).active = true ∧
      (e.streams i).lastRecvMs.toNat + 5000 < nowMix.toNat := by
  unfold RemoteStream.Stale
  constructor
  · rintro ⟨hact, -, hsilent⟩
    have hle := hu i hact
    refine ⟨hact, ?_⟩
    unfold streamDestroyMs at hsilent
    bv_omega
  · rintro ⟨hact, hsilent⟩
    have hle := hu i hact
    refine ⟨hact, ht.buffered i hact, ?_⟩
    unfold streamDestroyMs
    bv_omega

theorem tidies {e : Engine L} {t : Tick} (ht : Tabled (e.atMix t))
    (hu : HeardBy t.nowMix (e.atMix t)) : Tidies e t := by
  refine ⟨process_atMix e t, ?_, along_mixTurn t.nowMix (by simp [Mixing.count]), fun k hk => ?_⟩
  · rw [destroyed_eq]
    exact List.filter_congr fun i _ => decide_eq_decide.mpr (stale_iff ht hu i)
  · have hcount := count_mixTurn t.nowMix (List.finRange aeMaxUsersPerCh) ⟨e.atMix t, []⟩
    rw [List.length_finRange, show (⟨e.atMix t, []⟩ : Mixing L).count = 0 from rfl] at hcount
    omega

/-- The steps of a run up to where a tick mixes. -/
theorem stepsOf_tick (e : Engine L) (before : List (Call Frame)) (t : Tick) (after : List (Call Frame)) :
    ∃ later, stepsOf e (before ++ .process t :: after) =
      stepsOf e before ++ (Machine.run Engine.call e before).beforeMix t ++
        .mix (Machine.run Engine.call e before).connected t.nowMix :: later := by
  refine ⟨stepsOf ((Machine.run Engine.call e before).call (.process t)).1 after, ?_⟩
  unfold stepsOf
  rw [Machine.expansion_append]
  show _ ++ ((Machine.run Engine.call e before).steps (.process t) ++ _) = _
  rw [steps_tick]
  simp only [List.append_assoc, List.singleton_append]

/-- **The stream table.** In every run of a new engine whose allocations succeed, under a
clock that does not go back, the counts are right in every state, also in the middle of a
tick; a datagram touches no slot but its sender's; and a tick destroys the streams that have
been silent for too long. -/
theorem stream_table [Zero Frame] {config : Option AeConfig} {e : Engine L}
    (hnew : aeEngineCreate L config = some e) {calls : List (Call Frame)}
    (halloc : ∀ a, .arrive a ∈ stepsOf e calls → a.alloc.decoder = true ∧ a.alloc.jitter = true)
    (hclock : ((stepsOf e calls).flatMap EngineStep.readings).Pairwise (· ≤ ·)) :
    (∀ done, done <+: stepsOf e calls → Tabled (Machine.run Engine.step e done) ∧
      0 ≤ (Machine.run Engine.step e done).streamCount ∧
      (Machine.run Engine.step e done).streamCount ≤ aeMaxUsersPerCh) ∧
    Machine.Along Engine.step (fun e s => ∀ a, s = .arrive a → OneSlot e a) e (stepsOf e calls) ∧
    Machine.Along Engine.call (fun e c => ∀ t, c = .process t → Tidies e t) e calls := by
  obtain ⟨hstart, hheard⟩ := tabled_create hnew
  have htabled : ∀ done, done <+: stepsOf e calls → Tabled (Machine.run Engine.step e done) :=
    fun done hdone => tabled_run hstart fun a ha => (halloc a (hdone.subset ha)).2
  refine ⟨fun done hdone => ⟨htabled done hdone, (htabled done hdone).bounds⟩, ?_, ?_⟩
  · apply Machine.along_of_split
    rintro before s after heq a rfl
    exact oneSlot (htabled before (heq ▸ List.prefix_append before _)) a
  · apply Machine.along_of_split
    rintro before c after rfl t rfl
    obtain ⟨later, hsteps⟩ := stepsOf_tick e before t after
    have hmix : (Machine.run Engine.call e before).atMix t = Machine.run Engine.step e
        (stepsOf e before ++ (Machine.run Engine.call e before).beforeMix t) := by
      rw [Machine.run_append, run_stepsOf]
      rfl
    rw [hsteps] at hclock htabled
    rw [List.flatMap_append, List.pairwise_append] at hclock
    apply tidies
    · rw [hmix]
      exact htabled _ (List.prefix_append ..)
    · rw [hmix]
      exact heardBy_run (fun r hr => hclock.2.2 r hr _ (List.mem_cons_self ..)) (hheard t.nowMix)

/-- Client 7 hears client 8 and has not mixed for six seconds since. -/
theorem stream_table_silence : ∃ a : Arrival,
    audioPacket (speaker 8 silence).encoding [1] = some a.data ∧
      Tabled (Machine.run Engine.step newEngine
        (stepsOf newEngine (tuneIn ++ [.process ⟨[a], 0, 6000⟩]))) := by
  obtain ⟨a, hp, -, hne, halloc, hnow⟩ := late_packet
  have hsteps : stepsOf newEngine (tuneIn ++ [.process ⟨[a], 0, 6000⟩]) = _ :=
    stepsOf_hearing (show 1 ≤ maxRecvPerTick by decide) fun b hb => by rwa [List.mem_singleton.mp hb]
  have htuneIn : ∃ c₁ c₂ c₃ h₁ h₂ h₃, stepsOf newEngine tuneIn =
      [.command c₁ h₁, .command c₂ h₂, .command c₃ h₃] ∧
        (stepsOf newEngine tuneIn).flatMap EngineStep.readings = [0] :=
    ⟨.setClientId 7, .connect .connected 0, .joinChannel channelOne, rfl, rfl, rfl, rfl, rfl⟩
  obtain ⟨c₁, c₂, c₃, h₁, h₂, h₃, hcommands, hreadings⟩ := htuneIn
  refine ⟨a, hp, ((stream_table create_newEngine ?_ ?_).1 _ (List.prefix_refl _)).1⟩
  · intro b hb
    rw [hsteps, hcommands] at hb
    obtain rfl : b = a := by simpa using hb
    rw [halloc]
    exact ⟨rfl, rfl⟩
  · rw [hsteps, List.flatMap_append, hreadings]
    simp [EngineStep.readings, halloc, hnow]

end AudioPlatform.Core
