import Mathlib.Data.Finset.Card
import Mathlib.Order.Interval.Finset.Nat
import AudioPlatform.Core.StreamLog

/-! The loss that is reported.

The tracker of a stream is given the number after the greatest so far, not the number
that the packet carries: it counts packets and never finds one missing. So the loss that
an engine reports is the loss of the sender's packets only as long as there is none. -/
namespace AudioPlatform.Core
open Concurrency

variable {Frame : Type} {L : Library Frame} {e : Engine L}

/-! ### The tracker -/

/-- The tracker after `k + 1` packets. -/
theorem trackerAfter_succ {k : Nat} (h : k + 1 < 2 ^ 32) : trackerAfter (k + 1) =
    ⟨BitVec.ofNat 32 (k + 2), BitVec.ofNat 32 (k + 1), BitVec.ofNat 32 (k + 1), 0, 0⟩ := by
  induction k with
  | zero => rfl
  | succ k ih =>
    have hnext : ∀ n : Nat, BitVec.ofNat 32 n + 1 = BitVec.ofNat 32 (n + 1) :=
      fun n => (BitVec.ofNat_add ..).symm
    have hfirst : BitVec.ofNat 32 (k + 2) ≠ 1 := by
      intro heq
      have := congrArg BitVec.toNat heq
      rw [BitVec.toNat_ofNat, Nat.mod_eq_of_lt (by omega)] at this
      change k + 2 = 1 at this
      omega
    have hlt : BitVec.ofNat 32 (k + 1) < BitVec.ofNat 32 (k + 2) := by
      rw [BitVec.lt_def, BitVec.toNat_ofNat, BitVec.toNat_ofNat, Nat.mod_eq_of_lt (by omega),
        Nat.mod_eq_of_lt (by omega)]
      omega
    show (aeRtpSeqUpdate (trackerAfter (k + 1)) ((trackerAfter (k + 1)).maxSeq + 1)).1 = _
    rw [ih (by omega)]
    unfold aeRtpSeqUpdate
    dsimp only
    rw [hnext, hnext, if_neg hfirst, if_pos rfl, if_pos hlt]

/-- Nothing is missing, and every packet is counted. -/
theorem trackerAfter_counts {k : Nat} (h : k < 2 ^ 32) :
    (trackerAfter k).lost = 0 ∧ (trackerAfter k).received.toNat = k := by
  cases k with
  | zero => exact ⟨rfl, rfl⟩
  | succ k =>
    rw [trackerAfter_succ h]
    exact ⟨rfl, by rw [BitVec.toNat_ofNat, Nat.mod_eq_of_lt h]⟩

/-! ### Reports -/

/-- Of a sender's packets, numbered from 0 on, those between the first and the last of `ds`
that are not among `ds`. -/
def missing (ds : List ℕ) : Finset ℕ :=
  match ds.head?, ds.getLast? with
  | some first, some last => Finset.Icc first last \ ds.toFinset
  | _, _ => ∅

/-- What is reported of the packets `ds` of the sender whose stream is in slot `i`: the tracker
counts those that are missing and those that are delivered, and if the stream is the only
one, the statistics show the fraction. -/
structure ReportsLoss (e : Engine L) (i : StreamIndex) (ds : List ℕ) : Prop where
  lost : (e.streams i).seqTracker.lost.toNat = (missing ds).card
  received : (e.streams i).seqTracker.received.toNat = ds.length
  percent : (∀ j, (e.streams j).active = true → j = i) → (aeEngineGetStats e).packetLossPct =
    (missing ds).card / (ds.length + (missing ds).card : ℚ) * 100

/-- The totals of a single active stream are that stream's. -/
theorem totals_single {i : StreamIndex} (hi : (e.streams i).active = true)
    (honly : ∀ j, (e.streams j).active = true → j = i) (slots : List StreamIndex)
    (total : BitVec 32 × BitVec 32) (hslots : slots.Nodup) :
    totals e slots total = if i ∈ slots then
      (total.1 + (e.streams i).seqTracker.lost, total.2 + (e.streams i).seqTracker.received)
    else total := by
  induction slots generalizing total with
  | nil => rfl
  | cons j rest ih =>
    obtain ⟨hj, hrest⟩ := List.nodup_cons.mp hslots
    obtain ⟨lost, received⟩ := total
    show totals e rest _ = _
    rw [ih _ hrest]
    by_cases hji : j = i
    · subst hji
      rw [if_neg hj, if_pos (List.mem_cons_self ..)]
      exact if_pos hi
    · have hoff : ¬ (e.streams j).active = true := fun h => hji (honly j h)
      dsimp only
      rw [if_neg hoff]
      simp [Ne.symm hji]

theorem length_le_of_pairwise {ds : List ℕ} {n : ℕ} (hds : ds.Pairwise (· < ·))
    (hbound : ∀ d ∈ ds, d < n) : ds.length ≤ n := by
  have hnodup : ds.Nodup := hds.imp fun h => Nat.ne_of_lt h
  rw [← List.toFinset_card_of_nodup hnodup]
  have hsub : ds.toFinset ⊆ Finset.range n :=
    fun d hd => Finset.mem_range.mpr (hbound d (List.mem_toFinset.mp hd))
  exact (Finset.card_le_card hsub).trans_eq (Finset.card_range n)

theorem reportsLoss_iff {c : BitVec 64} {log : Log} (h : Follows c e log) {i : StreamIndex}
    (hi : Owns e c i) {ds : List ℕ} (hlen : log.heard.length = ds.length)
    (hshort : ds.length < 2 ^ 32) : ReportsLoss e i ds ↔ missing ds = ∅ := by
  have htracker := (h.logged i hi).tracker
  rw [hlen] at htracker
  obtain ⟨hlost, hreceived⟩ := trackerAfter_counts hshort
  rw [← htracker] at hlost hreceived
  constructor
  · intro hreports
    have := hreports.lost
    rw [hlost] at this
    exact Finset.card_eq_zero.mp this.symm
  · intro hnone
    refine ⟨by rw [hlost, hnone]; rfl, hreceived, fun honly => ?_⟩
    have htotals := totals_single hi.1 honly (List.finRange aeMaxUsersPerCh) (0, 0)
      (List.nodup_finRange _)
    rw [if_pos (List.mem_finRange i), hlost] at htotals
    unfold aeEngineGetStats
    rw [htotals, hnone]
    simp

/-- **Loss.** In every run of a new engine, after every step: if the packets that were accepted
on the stream of client `c` are those with the numbers `ds` of the fewer than 2^32 that
were sent, in order, then the engine reports their loss exactly if no packet between the
first and the last of them is missing. -/
theorem reports_loss_iff [Zero Frame] {config : Option AeConfig}
    (hnew : aeEngineCreate L config = some e) (steps : List (EngineStep Frame)) {c : BitVec 64}
    {sent : List (List Byte)} (hshort : sent.length < 2 ^ 32) {ds : List ℕ}
    (hds : ds.Pairwise (· < ·)) (hbound : ∀ d ∈ ds, d < sent.length)
    (hheard : (logOf c e steps).heard = ds.map fun d => sent.getD d []) {i : StreamIndex}
    (hi : Owns (Machine.run Engine.step e steps) c i) :
    ReportsLoss (Machine.run Engine.step e steps) i ds ↔ missing ds = ∅ := by
  have hlen : (logOf c e steps).heard.length = ds.length := by rw [hheard, List.length_map]
  exact reportsLoss_iff (follows_run hnew c steps) hi hlen
    ((length_le_of_pairwise hds hbound).trans_lt hshort)

/-- Of three tones two are heard, and none between them is missing. -/
theorem reports_loss_iff_tones : ∃ (sent : List (List Byte)) (steps : List (EngineStep (ℚ × ℚ)))
    (i : StreamIndex), Numbered 8 0 sent ∧ sent.length = 3 ∧
      (logOf 8 newEngine steps).heard = [1, 2].map (fun d => sent.getD d []) ∧
      ReportsLoss (Machine.run Engine.step newEngine steps) i [1, 2] := by
  obtain ⟨lost, hlost⟩ : ∃ lost : Arrival, Bears 1 8 0 lost.data :=
    (tone_arrives 0).imp fun _ h => h.2.1
  obtain ⟨a, hp, hbears, -⟩ := tone_arrives 1
  obtain ⟨b, hp', hbears', -⟩ := tone_arrives 2
  obtain ⟨hrun, ⟨i, hi⟩, hheard⟩ := hears_second hp hp'
  refine ⟨[lost.data, a.data, b.data], stepsOf newEngine tuneIn ++ [.capture, .arrive a, .arrive b],
    i, ⟨⟨1, hlost⟩, ⟨1, hbears⟩, ⟨1, hbears'⟩, trivial⟩, rfl, hheard, ?_⟩
  have hshort : [lost.data, a.data, b.data].length < 2 ^ 32 := by
    show 3 < 2 ^ 32
    decide
  exact (reports_loss_iff create_newEngine _ hshort (by decide) (show ∀ d ∈ [1, 2], d < 3 by decide)
    hheard (by rw [hrun]; exact hi)).mpr (by decide)

/-- Of the tones 0, 1 and 2 the middle one is lost, and none is reported. -/
theorem loss_unreported : ∃ (sent : List (List Byte)) (t : Tick)
    (steps : List (EngineStep (ℚ × ℚ))) (i : StreamIndex),
    Numbered 8 0 sent ∧ steps <+: stepsOf newEngine (tuneIn ++ [.process t]) ∧
      (logOf 8 newEngine steps).heard = [0, 2].map (fun d => sent.getD d []) ∧
      Owns (Machine.run Engine.step newEngine steps) 8 i ∧
      ¬ ReportsLoss (Machine.run Engine.step newEngine steps) i [0, 2] := by
  obtain ⟨a, hp, hbears, hne, -⟩ := tone_arrives 0
  obtain ⟨lost, hlost⟩ : ∃ lost : Arrival, Bears 1 8 1 lost.data :=
    (tone_arrives 1).imp fun _ h => h.2.1
  obtain ⟨b, hp', hbears', hne', -⟩ := tone_arrives 2
  obtain ⟨hrun, ⟨i, hi⟩, hheard⟩ := hears_second hp hp'
  have hdata : ∀ d ∈ [a, b], d.data ≠ [] := by
    simp [hne, hne']
  refine ⟨[a.data, lost.data, b.data], ⟨[a, b], 0, 0⟩,
    stepsOf newEngine tuneIn ++ [.capture, .arrive a, .arrive b], i,
    ⟨⟨1, hbears⟩, ⟨1, hlost⟩, ⟨1, hbears'⟩, trivial⟩, ?_, hheard, by rw [hrun]; exact hi, ?_⟩
  · have hn : [a, b].length ≤ maxRecvPerTick := by
      show 2 ≤ maxRecvPerTick
      decide
    rw [stepsOf_hearing hn hdata]
    exact (List.prefix_append_right_inj _).mpr ⟨[.keepalive 0, .ping 0, .mix true 0], rfl⟩
  · intro hreports
    have hfollows := follows_run create_newEngine 8 (stepsOf newEngine tuneIn ++ [.capture, .arrive a, .arrive b])
    have hshort : ([0, 2] : List ℕ).length < 2 ^ 32 := by decide
    have hnone := (reportsLoss_iff hfollows (by rw [hrun]; exact hi) (by rw [hheard]; rfl)
      hshort).mp hreports
    exact absurd hnone (by decide)

end AudioPlatform.Core
