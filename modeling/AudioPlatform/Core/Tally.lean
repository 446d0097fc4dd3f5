import AudioPlatform.Concurrency.Machine
import AudioPlatform.Core.Rtp
import AudioPlatform.Sets.Gaps

/-! What the sequence tracker says of the numbers that have arrived.

The tracker keeps counters and not the set of numbers. Its window starts at the largest
number less 1000, in unsigned arithmetic: from 1000 on the window holds whatever arrives late,
be it the first of its number or a duplicate; below 1000 the difference wraps and the window
holds nothing. And its count of packets wraps, which makes the tracker start anew. -/
namespace AudioPlatform.Core
open Concurrency Sets

/-- The tracker beside the numbers that have arrived, the last one first. -/
structure Tally where
  tracker : RtpSeqTracker
  arrived : List ℕ
  deriving DecidableEq

def Tally.numbers (t : Tally) : Finset ℕ := t.arrived.toFinset

def Tally.start : Tally := ⟨aeRtpSeqInit, []⟩

def Tally.arrive (t : Tally) (seq : BitVec 32) : Tally × List Int :=
  (⟨(aeRtpSeqUpdate t.tracker seq).1, seq.toNat :: t.arrived⟩, [(aeRtpSeqUpdate t.tracker seq).2])

@[simp] theorem numbers_arrive (t : Tally) (seq : BitVec 32) :
    (t.arrive seq).1.numbers = insert seq.toNat t.numbers := List.toFinset_cons

/-- What an arrival is among the numbers before it: a duplicate, late, or a new largest. -/
def verdict (numbers : Finset ℕ) (seq : ℕ) : Int :=
  if seq ∈ numbers then -1 else if seq < largest numbers then 1 else 0

/-- After the arrival the tracker says how many numbers are missing and which one is next, and
its answer says what the arrival was. -/
structure Tallied (first : BitVec 32) (t : Tally) (seq : BitVec 32) : Prop where
  lost : (t.arrive seq).1.tracker.lost.toNat =
    (gaps first.toNat (t.arrive seq).1.numbers).card
  nextSeq : (t.arrive seq).1.tracker.nextSeq =
    BitVec.ofNat 32 (largest (t.arrive seq).1.numbers + 1)
  answer : (t.arrive seq).2 = [verdict t.numbers seq.toNat]

/-- Not below the first number, not the last number there is, and less than 1000 below the
largest. -/
structure InWindow (first : BitVec 32) (t : Tally) (seq : BitVec 32) : Prop where
  first_le : first.toNat ≤ seq.toNat
  le_last : seq.toNat ≤ 2 ^ 32 - 2
  recent : largest t.numbers < seq.toNat + 1000

/-- The arrivals that the tracker counts right. -/
def Counted (t : Tally) (seq : BitVec 32) : Prop :=
  if t.arrived.length % 2 ^ 32 = 0 then seq.toNat = largest t.numbers + 1
  else largest t.numbers < seq.toNat ∨
    (if seq.toNat ∈ t.numbers then largest t.numbers < 1000 else 1000 ≤ largest t.numbers)

instance (t : Tally) (seq : BitVec 32) : Decidable (Counted t seq) :=
  inferInstanceAs (Decidable (if t.arrived.length % 2 ^ 32 = 0 then seq.toNat = largest t.numbers + 1
    else largest t.numbers < seq.toNat ∨
      (if seq.toNat ∈ t.numbers then largest t.numbers < 1000 else 1000 ≤ largest t.numbers)))

/-! ### The invariant -/

/-- The tracker's counters are about the numbers that have arrived. -/
structure Tracks (first : ℕ) (t : Tally) : Prop where
  first_mem : first ∈ t.numbers
  bound : largest t.numbers = first ∨ largest t.numbers ≤ 2 ^ 32 - 2
  nextSeq : t.tracker.nextSeq = t.tracker.maxSeq + 1
  maxSeq : t.tracker.maxSeq.toNat = largest t.numbers
  received : t.tracker.received = BitVec.ofNat 32 t.arrived.length
  lost : t.tracker.lost.toNat = (gaps first t.numbers).card

variable {first seq : BitVec 32} {t : Tally}

theorem tracks_start (first : BitVec 32) :
    Tracks first.toNat (Tally.start.arrive first).1 ∧ Tallied first Tally.start first := by
  have hnumbers : (Tally.start.arrive first).1.numbers = {first.toNat} := by
    rw [numbers_arrive]
    rfl
  refine ⟨⟨?_, ?_, rfl, ?_, rfl, ?_⟩, ⟨?_, ?_, rfl⟩⟩
  · simp [hnumbers]
  · simp [hnumbers]
  · rw [hnumbers, largest_singleton]
    rfl
  · rw [hnumbers, gaps_singleton]
    rfl
  · rw [hnumbers, gaps_singleton]
    rfl
  · rw [hnumbers, largest_singleton]
    show first + 1 = _
    apply BitVec.eq_of_toNat_eq
    simp

/-- The count of packets is at its start again. -/
theorem received_wraps (h : Tracks first.toNat t) :
    t.tracker.received + 1 = 1 ↔ t.arrived.length % 2 ^ 32 = 0 := by
  rw [h.received, ← BitVec.toNat_inj]
  simp only [BitVec.toNat_add, BitVec.toNat_ofNat]
  omega

theorem update_wrapped (h : t.tracker.received + 1 = 1) (seq : BitVec 32) :
    aeRtpSeqUpdate t.tracker seq =
      ({ t.tracker with received := 1, nextSeq := seq + 1, maxSeq := seq }, 0) := by
  unfold aeRtpSeqUpdate
  dsimp only
  rw [if_pos h, h]

/-- A number above the largest: the next one, or one beyond a gap. -/
theorem update_above (h : Tracks first.toNat t) (hgoes : t.tracker.received + 1 ≠ 1)
    (hlarge : largest t.numbers < seq.toNat) : aeRtpSeqUpdate t.tracker seq =
      ({ t.tracker with
          received := t.tracker.received + 1
          lost := t.tracker.lost + (seq - t.tracker.nextSeq)
          nextSeq := seq + 1
          maxSeq := seq }, 0) := by
  have hmax := h.maxSeq
  have hnext : t.tracker.nextSeq.toNat = largest t.numbers + 1 := by
    rw [h.nextSeq, BitVec.toNat_add, hmax]
    have := seq.isLt
    simp only [BitVec.ofNat_eq_ofNat, BitVec.toNat_ofNat]
    omega
  unfold aeRtpSeqUpdate
  dsimp only
  rw [if_neg hgoes]
  by_cases heq : seq = t.tracker.nextSeq
  · rw [if_pos heq, if_pos (by rw [BitVec.lt_def]; omega), ← heq]
    simp
  · rw [if_neg heq, if_pos]
    rw [BitVec.lt_def]
    have hne : seq.toNat ≠ t.tracker.nextSeq.toNat := fun h => heq (BitVec.eq_of_toNat_eq h)
    omega

/-- A number not above the largest: the window decides. -/
theorem update_below (h : Tracks first.toNat t) (hgoes : t.tracker.received + 1 ≠ 1)
    (hw : InWindow first t seq) (hlarge : seq.toNat ≤ largest t.numbers) :
    aeRtpSeqUpdate t.tracker seq = if largest t.numbers < 1000 then
        ({ t.tracker with received := t.tracker.received + 1 }, -1)
      else
        ({ t.tracker with
            received := t.tracker.received + 1
            reordered := t.tracker.reordered + 1
            lost := if 0 < t.tracker.lost then t.tracker.lost - 1 else t.tracker.lost }, 1) := by
  have hmax := h.maxSeq
  have hbound := h.bound
  obtain ⟨hfirst, hlast, hrecent⟩ := hw
  have hnext : t.tracker.nextSeq.toNat = largest t.numbers + 1 := by
    rw [h.nextSeq, BitVec.toNat_add, hmax]
    simp only [BitVec.ofNat_eq_ofNat, BitVec.toNat_ofNat]
    omega
  unfold aeRtpSeqUpdate
  dsimp only
  rw [if_neg hgoes, if_neg, if_neg]
  · by_cases hsmall : largest t.numbers < 1000
    · rw [if_pos hsmall, if_neg]
      rw [BitVec.lt_def, BitVec.toNat_sub, hmax]
      simp only [BitVec.ofNat_eq_ofNat, BitVec.toNat_ofNat]
      omega
    · rw [if_neg hsmall, if_pos]
      rw [BitVec.lt_def, BitVec.toNat_sub, hmax]
      simp only [BitVec.ofNat_eq_ofNat, BitVec.toNat_ofNat]
      omega
  · rw [BitVec.lt_def]
    omega
  · rintro rfl
    omega

/-! ### Verdicts -/

theorem verdict_duplicate {numbers : Finset ℕ} {a : ℕ} (h : a ∈ numbers) :
    verdict numbers a = -1 := if_pos h

theorem verdict_late {numbers : Finset ℕ} {a : ℕ} (h : a ∉ numbers) (ha : a < largest numbers) :
    verdict numbers a = 1 := by
  unfold verdict
  rw [if_neg h, if_pos ha]

theorem verdict_largest {numbers : Finset ℕ} {a : ℕ} (ha : largest numbers < a) :
    verdict numbers a = 0 := by
  have h : a ∉ numbers := fun h => absurd (le_largest h) (Nat.not_le.mpr ha)
  unfold verdict
  rw [if_neg h, if_neg (Nat.not_lt.mpr (le_of_lt ha))]

theorem verdict_ne_zero (h : Tracks first.toNat t) {a : ℕ} (ha : a ≤ largest t.numbers) :
    verdict t.numbers a ≠ 0 := by
  by_cases hmem : a ∈ t.numbers
  · rw [verdict_duplicate hmem]
    decide
  · have hne : a ≠ largest t.numbers := by
      rintro rfl
      exact hmem (largest_mem ⟨_, h.first_mem⟩)
    rw [verdict_late hmem (lt_of_le_of_ne ha hne)]
    decide

/-! ### One arrival -/

theorem Tracks.first_le (h : Tracks first.toNat t) : first.toNat ≤ largest t.numbers :=
  le_largest h.first_mem

/-- Where the counters are right afterwards and the answer is right, all is. -/
theorem Tracks.tallied (h : Tracks first.toNat (t.arrive seq).1)
    (hanswer : (aeRtpSeqUpdate t.tracker seq).2 = verdict t.numbers seq.toNat) :
    Tallied first t seq where
  lost := h.lost
  nextSeq := by
    rw [h.nextSeq, ← h.maxSeq]
    apply BitVec.eq_of_toNat_eq
    simp
  answer := congrArg (fun answer => [answer]) hanswer

theorem Tallied.answer_eq (h : Tallied first t seq) :
    (aeRtpSeqUpdate t.tracker seq).2 = verdict t.numbers seq.toNat := (List.cons.inj h.answer).1

/-- A new largest number, next in order or counted with its gap. -/
theorem Tracks.above (h : Tracks first.toNat t) (hw : InWindow first t seq)
    (hlarge : largest t.numbers < seq.toNat)
    (hupdate : (t.arrive seq).1.tracker.maxSeq = seq ∧ (t.arrive seq).1.tracker.nextSeq = seq + 1 ∧
      (t.arrive seq).1.tracker.received = t.tracker.received + 1 ∧
      (t.arrive seq).1.tracker.lost.toNat =
        t.tracker.lost.toNat + (seq.toNat - (largest t.numbers + 1))) :
    Tracks first.toNat (t.arrive seq).1 := by
  obtain ⟨hmax, hnext, hreceived, hlost⟩ := hupdate
  have hlargest : largest (t.arrive seq).1.numbers = seq.toNat := by
    rw [numbers_arrive, largest_insert, max_eq_left (le_of_lt hlarge)]
  refine ⟨?_, .inr ?_, ?_, ?_, ?_, ?_⟩
  · rw [numbers_arrive]
    exact Finset.mem_insert_of_mem h.first_mem
  · rw [hlargest]
    exact hw.le_last
  · rw [hnext, hmax]
  · rw [hmax, hlargest]
  · rw [hreceived, h.received]
    show _ = BitVec.ofNat 32 (t.arrived.length + 1)
    rw [BitVec.ofNat_add]
    rfl
  · rw [hlost, numbers_arrive, card_gaps_above h.first_le hlarge, h.lost]

/-- A number not above the largest, which at most closes its gap. -/
theorem Tracks.below (h : Tracks first.toNat t) (hlarge : seq.toNat ≤ largest t.numbers)
    (hupdate : (t.arrive seq).1.tracker.maxSeq = t.tracker.maxSeq ∧
      (t.arrive seq).1.tracker.nextSeq = t.tracker.nextSeq ∧
      (t.arrive seq).1.tracker.received = t.tracker.received + 1 ∧
      (t.arrive seq).1.tracker.lost.toNat =
        (gaps first.toNat (insert seq.toNat t.numbers)).card) :
    Tracks first.toNat (t.arrive seq).1 := by
  obtain ⟨hmax, hnext, hreceived, hlost⟩ := hupdate
  have hlargest : largest (t.arrive seq).1.numbers = largest t.numbers := by
    rw [numbers_arrive, largest_insert, max_eq_right hlarge]
  refine ⟨?_, ?_, ?_, ?_, ?_, ?_⟩
  · rw [numbers_arrive]
    exact Finset.mem_insert_of_mem h.first_mem
  · rw [hlargest]
    exact h.bound
  · rw [hnext, hmax]
    exact h.nextSeq
  · rw [hmax, hlargest]
    exact h.maxSeq
  · rw [hreceived, h.received]
    show _ = BitVec.ofNat 32 (t.arrived.length + 1)
    rw [BitVec.ofNat_add]
    rfl
  · rw [hlost, numbers_arrive]

/-- What an arrival does: it is one that the tracker counts right, or one that it does not. -/
def Settled (first : BitVec 32) (t : Tally) (seq : BitVec 32) : Prop :=
  (Counted t seq ∧ Tracks first.toNat (t.arrive seq).1 ∧ Tallied first t seq) ∨
    (¬ Counted t seq ∧ ¬ Tallied first t seq)

/-- The tracker has started anew: only the next number in order is counted right. -/
theorem Tracks.settled_wrapped (h : Tracks first.toNat t) (hw : InWindow first t seq)
    (hwraps : t.arrived.length % 2 ^ 32 = 0) : Settled first t seq := by
  have hupdate := update_wrapped ((received_wraps h).mpr hwraps) seq
  have hcounted : Counted t seq ↔ seq.toNat = largest t.numbers + 1 := by
    unfold Counted
    rw [if_pos hwraps]
  by_cases hnext : seq.toNat = largest t.numbers + 1
  · have hlarge : largest t.numbers < seq.toNat := by omega
    have htracks : Tracks first.toNat (t.arrive seq).1 := by
      apply h.above hw hlarge
      unfold Tally.arrive
      rw [hupdate]
      refine ⟨rfl, rfl, ((received_wraps h).mpr hwraps).symm, ?_⟩
      show t.tracker.lost.toNat = _
      omega
    refine .inl ⟨hcounted.mpr hnext, htracks, htracks.tallied ?_⟩
    rw [hupdate, verdict_largest hlarge]
  · refine .inr ⟨fun hc => hnext (hcounted.mp hc), fun htallied => ?_⟩
    have hanswer : verdict t.numbers seq.toNat = 0 := by
      rw [← htallied.answer_eq, hupdate]
    have hlarge : largest t.numbers < seq.toNat := by
      by_contra hle
      exact verdict_ne_zero h (Nat.not_lt.mp hle) hanswer
    -- the gap before the number is not added
    have hlost := htallied.lost
    rw [numbers_arrive, card_gaps_above h.first_le hlarge, ← h.lost] at hlost
    unfold Tally.arrive at hlost
    rw [hupdate] at hlost
    dsimp only at hlost
    omega

section Counting
variable (h : Tracks first.toNat t) (hw : InWindow first t seq)
  (hwraps : t.arrived.length % 2 ^ 32 ≠ 0)
include h hw hwraps

/-- A new largest number is counted right. -/
theorem Tracks.settled_above (hlarge : largest t.numbers < seq.toNat) : Settled first t seq := by
  have hupdate := update_above h (fun h' => hwraps ((received_wraps h).mp h')) hlarge
  have hbound : (gaps first.toNat t.numbers).card ≤ largest t.numbers := card_gaps_le ⟨_, h.first_mem⟩
  rw [← h.lost] at hbound
  have htracks : Tracks first.toNat (t.arrive seq).1 := by
    apply h.above hw hlarge
    unfold Tally.arrive
    rw [hupdate]
    refine ⟨rfl, rfl, rfl, ?_⟩
    have hmax := h.maxSeq
    have hseq := seq.isLt
    show (t.tracker.lost + (seq - t.tracker.nextSeq)).toNat = _
    rw [h.nextSeq, BitVec.toNat_add, BitVec.toNat_sub, BitVec.toNat_add, hmax]
    simp only [BitVec.ofNat_eq_ofNat, BitVec.toNat_ofNat]
    omega
  refine .inl ⟨?_, htracks, htracks.tallied ?_⟩
  · unfold Counted
    rw [if_neg hwraps]
    exact .inl hlarge
  · rw [hupdate, verdict_largest hlarge]

/-- A duplicate is counted right while the window is empty. -/
theorem Tracks.settled_duplicate (hmem : seq.toNat ∈ t.numbers) : Settled first t seq := by
  have hle : seq.toNat ≤ largest t.numbers := le_largest hmem
  have hupdate := update_below h (fun h' => hwraps ((received_wraps h).mp h')) hw hle
  have hcounted : Counted t seq ↔ largest t.numbers < 1000 := by
    unfold Counted
    rw [if_neg hwraps, if_pos hmem, or_iff_right (Nat.not_lt.mpr hle)]
  by_cases hsmall : largest t.numbers < 1000
  · rw [if_pos hsmall] at hupdate
    have htracks : Tracks first.toNat (t.arrive seq).1 := by
      apply h.below hle
      unfold Tally.arrive
      rw [hupdate, Finset.insert_eq_of_mem hmem]
      exact ⟨rfl, rfl, rfl, h.lost⟩
    refine .inl ⟨hcounted.mpr hsmall, htracks, htracks.tallied ?_⟩
    rw [hupdate, verdict_duplicate hmem]
  · rw [if_neg hsmall] at hupdate
    refine .inr ⟨fun hc => hsmall (hcounted.mp hc), fun htallied => ?_⟩
    have hanswer := htallied.answer_eq
    rw [hupdate, verdict_duplicate hmem] at hanswer
    dsimp only at hanswer
    exact absurd hanswer (by decide)

/-- A late number is counted right once the window is not empty. -/
theorem Tracks.settled_late (hmem : seq.toNat ∉ t.numbers) (hlate : seq.toNat < largest t.numbers) :
    Settled first t seq := by
  have hle := le_of_lt hlate
  have hupdate := update_below h (fun h' => hwraps ((received_wraps h).mp h')) hw hle
  have hcounted : Counted t seq ↔ 1000 ≤ largest t.numbers := by
    unfold Counted
    rw [if_neg hwraps, if_neg hmem, or_iff_right (Nat.not_lt.mpr hle)]
  by_cases hsmall : largest t.numbers < 1000
  · rw [if_pos hsmall] at hupdate
    refine .inr ⟨fun hc => Nat.not_le.mpr hsmall (hcounted.mp hc), fun htallied => ?_⟩
    have hanswer := htallied.answer_eq
    rw [hupdate, verdict_late hmem hlate] at hanswer
    dsimp only at hanswer
    exact absurd hanswer (by decide)
  · rw [if_neg hsmall] at hupdate
    have hcard := card_gaps_below hw.first_le hlate hmem
    have hlost := h.lost
    have htracks : Tracks first.toNat (t.arrive seq).1 := by
      apply h.below hle
      unfold Tally.arrive
      rw [hupdate]
      refine ⟨rfl, rfl, rfl, ?_⟩
      dsimp only
      rw [if_pos (by rw [BitVec.lt_def]; simp; omega), BitVec.toNat_sub]
      simp only [BitVec.ofNat_eq_ofNat, BitVec.toNat_ofNat]
      omega
    refine .inl ⟨hcounted.mpr (Nat.not_lt.mp hsmall), htracks, htracks.tallied ?_⟩
    rw [hupdate, verdict_late hmem hlate]

end Counting

theorem Tracks.settled (h : Tracks first.toNat t) (hw : InWindow first t seq) :
    Settled first t seq := by
  by_cases hwraps : t.arrived.length % 2 ^ 32 = 0
  · exact h.settled_wrapped hw hwraps
  · by_cases hlarge : largest t.numbers < seq.toNat
    · exact h.settled_above hw hwraps hlarge
    · by_cases hmem : seq.toNat ∈ t.numbers
      · exact h.settled_duplicate hw hwraps hmem
      · have hne : seq.toNat ≠ largest t.numbers := by
          intro heq
          exact hmem (heq ▸ largest_mem ⟨_, h.first_mem⟩)
        exact h.settled_late hw hwraps hmem (lt_of_le_of_ne (Nat.not_lt.mp hlarge) hne)

/-! ### Every list of arrivals -/

/-- **Loss accounting.** Let numbers arrive that are not below the first, nor the last number there
is, each less than 1000 below the largest before it. After each of them the tracker tells the
gaps, the next number and what the arrival was, exactly if each arrival is one that it counts
right: a new largest number, a late one once the largest is at least 1000, a duplicate until
then; and where the count of packets has wrapped, only the next number in order. -/
theorem tallied_iff (first : BitVec 32) (seqs : List (BitVec 32))
    (hw : Machine.Along Tally.arrive (InWindow first) (Tally.start.arrive first).1 seqs) :
    Machine.Along Tally.arrive (Tallied first) Tally.start (first :: seqs) ↔
      Machine.Along Tally.arrive Counted (Tally.start.arrive first).1 seqs := by
  obtain ⟨htracks, htallied⟩ := tracks_start first
  show Tallied first Tally.start first ∧ Machine.Along Tally.arrive (Tallied first) _ seqs ↔ _
  rw [and_iff_right htallied]
  refine Machine.along_congr_of_invariant (fun t seq (h : Tracks first.toNat t) hw hc => ?_)
    (fun t seq h hw => ?_) htracks hw
  · rcases h.settled hw with ⟨-, hafter, -⟩ | ⟨hnot, -⟩
    · exact hafter
    · exact absurd hc hnot
  · rcases h.settled hw with ⟨hc, -, ht⟩ | ⟨hnot, hnot'⟩
    · exact iff_of_true ht hc
    · exact iff_of_false hnot' hnot

/-- From 1000 on: 1003 leaves two gaps, 1001 closes one and 1004 is next. -/
theorem tallied_iff_late : Machine.Along Tally.arrive (Tallied 1000) Tally.start
    [1000, 1003, 1001, 1004] :=
  (tallied_iff 1000 [1003, 1001, 1004]
    ⟨⟨by decide, by decide, by decide⟩, ⟨by decide, by decide, by decide⟩,
      ⟨by decide, by decide, by decide⟩, trivial⟩).mpr (by decide)

/-- The number 1000 arrives twice and the second one is answered as a late arrival. -/
theorem duplicate_taken_for_late :
    Machine.Along Tally.arrive (InWindow 1000) (Tally.start.arrive 1000).1 [1000] ∧
      ¬ Machine.Along Tally.arrive (Tallied 1000) Tally.start [1000, 1000] := by
  refine ⟨⟨⟨by decide, by decide, by decide⟩, trivial⟩, fun ⟨_, h, _⟩ => ?_⟩
  exact absurd h.answer (by decide)

end AudioPlatform.Core
