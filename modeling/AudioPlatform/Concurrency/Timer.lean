import AudioPlatform.Concurrency.Machine

/-! Timers of a machine.

Some inputs come with a reading of a clock. A timer compares the reading with its last beat, in
fixed width, and beats when a period has passed; it can also be set, with a beat or without. If the
clock does not go back, its beats are a period apart, and it is never late by more than the
readings are. -/
namespace AudioPlatform.Concurrency.Timer

variable {σ I O : Type} {w : Nat}

/-- A beat, and whether the timer made it or it was set so. -/
structure Beat (w : Nat) where
  time : BitVec w
  due : Bool

/-- What an input does with a timer: nothing, a beat that is due, or a setting. -/
inductive Turns (period : BitVec w) (last : BitVec w) : BitVec w → Option (BitVec w) → List (Beat w) → Prop
  | rest (reading : Option (BitVec w)) : Turns period last last reading []
  | beat (now : BitVec w) (h : period ≤ now - last) : Turns period last now (some now) [⟨now, true⟩]
  | set (now : BitVec w) : Turns period last now (some now) []
  | start (now : BitVec w) : Turns period last now (some now) [⟨now, false⟩]

/-- The beats so far: those that were due came a period after all before them, and none is later than the
last reading that counts. -/
structure Paced (period last : BitVec w) (beats : List (Beat w)) : Prop where
  spaced : beats.Pairwise fun a b => b.due = true → a.time.toNat + period.toNat ≤ b.time.toNat
  past : ∀ a ∈ beats, a.time ≤ last

variable {period last last' : BitVec w} {beats new : List (Beat w)} {reading : Option (BitVec w)}

theorem Turns.le (h : Turns period last last' reading new) (hle : ∀ now, reading = some now → last ≤ now) :
    last ≤ last' := by
  cases h with
  | rest => exact BitVec.le_refl last
  | beat => exact hle _ rfl
  | set => exact hle _ rfl
  | start => exact hle _ rfl

theorem Turns.le_reading (h : Turns period last last' reading new) {t : BitVec w} (ht : last ≤ t)
    (hle : ∀ now, reading = some now → now ≤ t) : last' ≤ t := by
  cases h with
  | rest => exact ht
  | beat => exact hle _ rfl
  | set => exact hle _ rfl
  | start => exact hle _ rfl

/-- One more beat. -/
theorem Paced.snoc (h : Paced period last beats) {b : Beat w} (hle : last ≤ b.time)
    (hdue : b.due = true → period ≤ b.time - last) : Paced period b.time (beats ++ [b]) where
  spaced := by
    refine List.pairwise_append.mpr ⟨h.spaced, List.pairwise_singleton .., fun a ha b' hb' hb => ?_⟩
    obtain rfl := List.mem_singleton.mp hb'
    have hperiod := BitVec.le_def.mp (hdue hb)
    rw [BitVec.toNat_sub_of_le hle] at hperiod
    have hlast := BitVec.le_def.mp hle
    have hpast := BitVec.le_def.mp (h.past a ha)
    omega
  past a ha := by
    rcases List.mem_append.mp ha with ha | ha
    · exact BitVec.le_trans (h.past a ha) hle
    · obtain rfl := List.mem_singleton.mp ha
      exact BitVec.le_refl _

theorem Paced.turns (h : Paced period last beats) (ht : Turns period last last' reading new)
    (hle : ∀ now, reading = some now → last ≤ now) : Paced period last' (beats ++ new) := by
  cases ht with
  | rest => rwa [List.append_nil]
  | beat _ hdue => exact h.snoc (b := ⟨_, true⟩) (hle _ rfl) fun _ => hdue
  | set =>
    rw [List.append_nil]
    exact ⟨h.spaced, fun a ha => BitVec.le_trans (h.past a ha) (hle _ rfl)⟩
  | start => exact h.snoc (b := ⟨_, false⟩) (hle _ rfl) fun hdue => Bool.noConfusion hdue

section Run
variable {step : σ → I → σ × List O} {readingOf : I → Option (BitVec w)} {lastOf : σ → BitVec w}
  {beatsOf : σ → I → List (Beat w)} {s : σ}

/-- In a run whose clock does not go back. -/
theorem Paced.run (hturn : ∀ s i, Turns period (lastOf s) (lastOf (step s i).1) (readingOf i) (beatsOf s i))
    (h : Paced period (lastOf s) beats) {is : List I}
    (hclock : (is.filterMap readingOf).Pairwise (· ≤ ·)) (hstart : ∀ t ∈ is.filterMap readingOf, lastOf s ≤ t) :
    Paced period (lastOf (Machine.run step s is)) (beats ++ Machine.collect step beatsOf s is) ∧
      lastOf s ≤ lastOf (Machine.run step s is) := by
  induction is generalizing s beats with
  | nil =>
    refine ⟨?_, BitVec.le_refl _⟩
    show Paced period (lastOf s) (beats ++ [])
    rwa [List.append_nil]
  | cons i rest ih =>
    have hle : ∀ now, readingOf i = some now → lastOf s ≤ now := fun now hnow =>
      hstart now (List.mem_filterMap.mpr ⟨i, List.mem_cons_self .., hnow⟩)
    have hrest : (rest.filterMap readingOf).Pairwise (· ≤ ·) ∧
        ∀ t ∈ rest.filterMap readingOf, ∀ now, readingOf i = some now → now ≤ t := by
      cases hi : readingOf i with
      | none =>
        rw [List.filterMap_cons_none hi] at hclock
        exact ⟨hclock, fun _ _ _ h => absurd h nofun⟩
      | some now =>
        rw [List.filterMap_cons_some hi, List.pairwise_cons] at hclock
        refine ⟨hclock.2, fun t ht now' hnow' => ?_⟩
        obtain rfl := Option.some.inj hnow'
        exact hclock.1 t ht
    have hnext : ∀ t ∈ rest.filterMap readingOf, lastOf (step s i).1 ≤ t := by
      intro t ht
      refine (hturn s i).le_reading (hstart t ?_) (hrest.2 t ht)
      obtain ⟨j, hj, hjt⟩ := List.mem_filterMap.mp ht
      exact List.mem_filterMap.mpr ⟨j, List.mem_cons_of_mem i hj, hjt⟩
    obtain ⟨hpaced, hmono⟩ := ih (h.turns (hturn s i) hle) hrest.1 hnext
    rw [List.append_assoc] at hpaced
    exact ⟨hpaced, BitVec.le_trans ((hturn s i).le hle) hmono⟩

/-- A run whose timer starts at 0. -/
theorem paced_run (hturn : ∀ s i, Turns period (lastOf s) (lastOf (step s i).1) (readingOf i) (beatsOf s i))
    (hzero : lastOf s = 0) {is : List I} (hclock : (is.filterMap readingOf).Pairwise (· ≤ ·)) :
    Paced period (lastOf (Machine.run step s is)) (Machine.collect step beatsOf s is) := by
  have h : Paced period (lastOf s) [] := ⟨List.Pairwise.nil, fun _ ha => absurd ha List.not_mem_nil⟩
  refine (h.run hturn hclock fun t _ => ?_).1
  rw [hzero]
  exact BitVec.le_def.mpr (Nat.zero_le _)

/-- The timer is not ahead of the clock. -/
theorem last_le (hturn : ∀ s i, Turns period (lastOf s) (lastOf (step s i).1) (readingOf i) (beatsOf s i))
    {t : BitVec w} (hstart : lastOf s ≤ t) {is : List I} (his : ∀ now ∈ is.filterMap readingOf, now ≤ t) :
    lastOf (Machine.run step s is) ≤ t := by
  induction is generalizing s with
  | nil => exact hstart
  | cons i rest ih =>
    refine ih ((hturn s i).le_reading hstart fun now hnow => ?_) fun now hnow => ?_
    · exact his now (List.mem_filterMap.mpr ⟨i, List.mem_cons_self .., hnow⟩)
    · obtain ⟨j, hj, hjnow⟩ := List.mem_filterMap.mp hnow
      exact his now (List.mem_filterMap.mpr ⟨j, List.mem_cons_of_mem i hj, hjnow⟩)

end Run

end AudioPlatform.Concurrency.Timer
