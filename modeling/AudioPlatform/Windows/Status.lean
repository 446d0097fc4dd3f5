import AudioPlatform.Core.Naming
import AudioPlatform.Core.Timers
import AudioPlatform.Windows.Console

/-! What the console shows.

The status lists the channels that are joined and those that are talked in, from the console's own tables.
The engine is in one channel at most, and leaves it, or stops transmitting in it, whatever channel the
command names. So the tables go wrong exactly with a command for another channel. -/
namespace AudioPlatform.Windows
open AudioPlatform.Core Concurrency Wire

variable {Frame : Type} {L : Library Frame}

/-! ### Marks -/

section Marks
variable {ι : Type} [DecidableEq ι] {table : ι → Bool} {i : ι}

/-- Unmarking one leaves none exactly if there was no other. -/
theorem unmarked_iff : (∀ j, Function.update table i false j = false) ↔ ∀ j, table j = true → j = i := by
  refine forall_congr' fun j => ?_
  rw [Function.update_apply]
  by_cases h : j = i
  · simp [h]
  · simp [h]

/-- Marking one leaves it alone exactly if there was no other. -/
theorem marked_iff : (∀ j, Function.update table i true j = true ↔ j = i) ↔ ∀ j, table j = true → j = i := by
  refine forall_congr' fun j => ?_
  rw [Function.update_apply]
  by_cases h : j = i
  · simp [h]
  · simp [h]

end Marks

/-! ### Where the engine is -/

def In (e : Engine L) (idx : ChannelIndex) : Prop :=
  e.channel.active = true ∧ e.channel.channelIdStr = cString (channelIds idx)

instance (e : Engine L) (idx : ChannelIndex) : Decidable (In e idx) := inferInstanceAs (Decidable (_ ∧ _))

/-- It is in one of the three channels if it is in any, and transmits only there. -/
structure Placed (e : Engine L) : Prop where
  transmitting : e.transmitting = true → e.channel.active = true
  active : e.channel.active = true → ∃ idx, In e idx

/-- What the status tells about the engine. -/
def place (e : Engine L) : Bool × CString × Bool := (e.channel.active, e.channel.channelIdStr, e.transmitting)

theorem In.unique {e : Engine L} {idx idx' : ChannelIndex} (h : In e idx) (h' : In e idx') : idx = idx' :=
  cString_channelIds_inj (h.2.symm.trans h'.2)

section Place
variable {e e' : Engine L} {idx : ChannelIndex}

theorem In.moved (h : In e idx) (hplace : place e' = place e) : In e' idx :=
  ⟨(congrArg Prod.fst hplace).trans h.1, (congrArg (·.2.1) hplace).trans h.2⟩

theorem in_iff (hplace : place e' = place e) : In e' idx ↔ In e idx :=
  ⟨fun h => h.moved hplace.symm, fun h => h.moved hplace⟩

theorem transmitting_eq (hplace : place e' = place e) : e'.transmitting = e.transmitting :=
  congrArg (·.2.2) hplace

theorem Placed.moved (h : Placed e) (hplace : place e' = place e) : Placed e' := by
  have hactive : e'.channel.active = e.channel.active := congrArg Prod.fst hplace
  refine ⟨fun hon => ?_, fun hon => ?_⟩
  · rw [hactive]
    exact h.transmitting ((transmitting_eq hplace).symm.trans hon)
  · obtain ⟨idx, hidx⟩ := h.active (hactive.symm.trans hon)
    exact ⟨idx, hidx.moved hplace⟩

/-- The engine is nowhere. -/
structure Away (e : Engine L) : Prop where
  active : e.channel.active = false
  transmitting : e.transmitting = false

theorem Away.not_in (h : Away e) (idx : ChannelIndex) : ¬ In e idx :=
  fun hin => Bool.false_ne_true (h.active.symm.trans hin.1)

theorem Away.not_transmitting (h : Away e) : ¬ e.transmitting = true := Bool.eq_false_iff.mp h.transmitting

theorem Away.placed (h : Away e) : Placed e where
  transmitting hon := absurd hon h.not_transmitting
  active hon := absurd hon (Bool.eq_false_iff.mp h.active)

/-- The engine has just entered the channel. -/
structure Entered (e : Engine L) (idx : ChannelIndex) : Prop where
  seat : In e idx
  transmitting : e.transmitting = false

theorem Entered.not_transmitting (h : Entered e idx) : ¬ e.transmitting = true :=
  Bool.eq_false_iff.mp h.transmitting

theorem Entered.in_iff (h : Entered e idx) (idx' : ChannelIndex) : In e idx' ↔ idx' = idx :=
  ⟨fun hin => hin.unique h.seat, fun heq => heq ▸ h.seat⟩

theorem Entered.placed (h : Entered e idx) : Placed e where
  transmitting hon := absurd hon h.not_transmitting
  active _ := ⟨idx, h.seat⟩

end Place

/-! ### Its calls -/

section Calls
variable (e : Engine L)

theorem away_leave (channelId : CString) : Away (aeEngineLeaveChannel e channelId).1 :=
  ⟨(engine_leave e channelId).2.1, (engine_leave e channelId).2.2⟩

theorem away_disconnect : Away (aeEngineDisconnect e) := ⟨rfl, rfl⟩

theorem entered_join {e : Engine L} (h : Placed e) (hon : e.connected = true) (idx : ChannelIndex) :
    Entered (aeEngineJoinChannel e (cString (channelIds idx))).1 idx := by
  obtain ⟨-, hactive, hname, -⟩ := engine_join e (cString (channelIds idx)) hon
  refine ⟨⟨hactive, hname.trans (take_cString idx)⟩, ?_⟩
  have hcontrol := control_joinChannel e (cString (channelIds idx))
  dsimp only [Control.after] at hcontrol
  rw [if_pos (show e.control.connected = true from hon)] at hcontrol
  rw [← control_transmitting, hcontrol]
  split
  · rfl
  · rename_i hactive
    -- an engine that is in no channel does not transmit
    exact Bool.eq_false_iff.mpr fun htransmitting => hactive (h.transmitting htransmitting)

/-- Calls other than those for channels leave the engine where it is. -/
theorem place_control {e e' : Engine L} (hchannel : e'.control.channel = e.control.channel)
    (htransmitting : e'.control.transmitting = e.control.transmitting) : place e' = place e := by
  have hchannel : e'.channel = e.channel := hchannel
  have htransmitting : e'.transmitting = e.transmitting := htransmitting
  unfold place
  rw [hchannel, htransmitting]

theorem place_audio {c : Call Frame} (hc : c.ofAudio = true) : place (e.call c).1 = place e := by
  cases c with
  | process t =>
    obtain ⟨_, _, _, htick⟩ := control_tick e t
    show place (aeEngineProcess e t).1 = _
    exact place_control (by rw [htick]) (by rw [htick])
  | writeCapture samples =>
    show place (aeEngineWriteCapture e samples).1 = _
    exact place_control (by rw [control_writeCapture]; rfl) (by rw [control_writeCapture]; rfl)
  | readPlayback n => rfl
  | _ => cases hc

theorem place_connect (outcome : NetOutcome) (now : BitVec 64) :
    place (aeEngineConnect e outcome now).1 = place e := by
  unfold aeEngineConnect
  dsimp only
  split
  · rfl
  · rfl

end Calls

/-! ### The tables -/

namespace Console

/-- The status is true: it shows the channel that the engine is in, and whether the engine transmits there. -/
structure Truthful (c : Console L) : Prop where
  joined : ∀ idx, c.channelJoined idx = true ↔ In c.engine idx
  transmitting : ∀ idx, c.transmitting idx = true ↔ In c.engine idx ∧ c.engine.transmitting = true

/-- The command is for the channel that the engine is in, if it is in one. -/
def Suits (c : Console L) : Command → Prop
  | .join idx => c.engine.connected = true →
    (∀ idx', In c.engine idx' → idx' = idx) ∧ c.engine.transmitting = false
  | .leave idx => ∀ idx', In c.engine idx' → idx' = idx
  | .stop idx => c.engine.transmitting = true → In c.engine idx
  | _ => True

/-- While the program runs, its commands are for the channel that the engine is in. -/
def Apt (c : Console L) : Input Frame → Prop
  | .line line _ _ => c.running = true → c.Suits (parse line)
  | .audio _ => True

instance (c : Console L) : ∀ command, Decidable (c.Suits command)
  | .join idx => inferInstanceAs
      (Decidable (_ = _ → (∀ idx', In c.engine idx' → idx' = idx) ∧ c.engine.transmitting = false))
  | .leave idx => inferInstanceAs (Decidable (∀ idx', In c.engine idx' → idx' = idx))
  | .stop idx => inferInstanceAs (Decidable (_ = _ → In c.engine idx))
  | .quit => inferInstanceAs (Decidable True)
  | .connect .. => inferInstanceAs (Decidable True)
  | .disconnect => inferInstanceAs (Decidable True)
  | .talk _ => inferInstanceAs (Decidable True)
  | .vol _ => inferInstanceAs (Decidable True)
  | .chvol _ _ => inferInstanceAs (Decidable True)
  | .mute _ => inferInstanceAs (Decidable True)
  | .nothing => inferInstanceAs (Decidable True)

instance (c : Console L) : ∀ input : Input Frame, Decidable (c.Apt input)
  | .line line _ _ => inferInstanceAs (Decidable (_ = _ → c.Suits (parse line)))
  | .audio _ => inferInstanceAs (Decidable True)

/-- The tables are kept, and the engine stays where it is. -/
theorem Truthful.moved {c c' : Console L} (h : c.Truthful) (hplace : place c'.engine = place c.engine)
    (hjoined : c'.channelJoined = c.channelJoined) (htransmitting : c'.transmitting = c.transmitting) :
    c'.Truthful := by
  refine ⟨fun idx => ?_, fun idx => ?_⟩
  · rw [hjoined, in_iff hplace]
    exact h.joined idx
  · rw [htransmitting, in_iff hplace, transmitting_eq hplace]
    exact h.transmitting idx

/-- Nothing is shown of an engine that is nowhere. -/
theorem truthful_away {c : Console L} (h : Away c.engine) :
    c.Truthful ↔ (∀ idx, c.channelJoined idx = false) ∧ ∀ idx, c.transmitting idx = false := by
  constructor
  · intro ht
    exact ⟨fun idx => Bool.eq_false_iff.mpr fun hj => h.not_in idx ((ht.joined idx).mp hj),
      fun idx => Bool.eq_false_iff.mpr fun hj => h.not_in idx ((ht.transmitting idx).mp hj).1⟩
  · intro hnone
    refine ⟨fun idx => ?_, fun idx => ?_⟩
    · simp [hnone.1 idx, h.not_in idx]
    · simp [hnone.2 idx, h.not_in idx]

/-- Nothing but the channel is shown of an engine that has just entered it. -/
theorem truthful_entered {c : Console L} {idx : ChannelIndex} (h : Entered c.engine idx) :
    c.Truthful ↔ (∀ idx', c.channelJoined idx' = true ↔ idx' = idx) ∧ ∀ idx', c.transmitting idx' = false := by
  constructor
  · intro ht
    exact ⟨fun idx' => (ht.joined idx').trans (h.in_iff idx'),
      fun idx' => Bool.eq_false_iff.mpr fun hon => h.not_transmitting ((ht.transmitting idx').mp hon).2⟩
  · intro hone
    refine ⟨fun idx' => (hone.1 idx').trans (h.in_iff idx').symm, fun idx' => ?_⟩
    simp [hone.2 idx', h.transmitting]

/-! ### A command -/

section Commands
variable {c : Console L} {idx : ChannelIndex}

theorem truthful_leave (h : c.Truthful) :
    (c.leave idx).Truthful ↔ ∀ idx', In c.engine idx' → idx' = idx := by
  rw [truthful_away (c := c.leave idx) (away_leave c.engine (cString (channelIds idx)))]
  show (∀ idx', Function.update c.channelJoined idx false idx' = false) ∧
    (∀ idx', Function.update c.transmitting idx false idx' = false) ↔ _
  rw [unmarked_iff, unmarked_iff]
  constructor
  · intro hmarks idx' hin
    exact hmarks.1 idx' ((h.joined idx').mpr hin)
  · intro hin
    exact ⟨fun idx' hj => hin idx' ((h.joined idx').mp hj),
      fun idx' hj => hin idx' ((h.transmitting idx').mp hj).1⟩

theorem join_off (hoff : c.engine.connected = false) : c.join idx = c := by
  unfold join aeEngineJoinChannel
  simp [hoff]

theorem join_on (hon : c.engine.connected = true) : c.join idx =
    { c with
      engine := (aeEngineJoinChannel c.engine (cString (channelIds idx))).1
      channelJoined := Function.update c.channelJoined idx true } := by
  unfold join
  dsimp only
  rw [if_pos ((join_ok ..).mpr hon)]

theorem truthful_join (h : c.Truthful) (hplaced : Placed c.engine) (hon : c.engine.connected = true) :
    (c.join idx).Truthful ↔ (∀ idx', In c.engine idx' → idx' = idx) ∧ c.engine.transmitting = false := by
  rw [join_on hon, truthful_entered (entered_join hplaced hon idx)]
  dsimp only
  rw [marked_iff]
  constructor
  · intro hmarks
    refine ⟨fun idx' hin => hmarks.1 idx' ((h.joined idx').mpr hin), Bool.eq_false_iff.mpr fun htalk => ?_⟩
    -- the mark of the channel that it was in is still there
    obtain ⟨idx', hin⟩ := hplaced.active (hplaced.transmitting htalk)
    exact Bool.false_ne_true ((hmarks.2 idx').symm.trans ((h.transmitting idx').mpr ⟨hin, htalk⟩))
  · intro hsuits
    exact ⟨fun idx' hj => hsuits.1 idx' ((h.joined idx').mp hj), fun idx' =>
      Bool.eq_false_iff.mpr fun hmark => Bool.eq_false_iff.mp hsuits.2 ((h.transmitting idx').mp hmark).2⟩

theorem truthful_stop (h : c.Truthful) (hplaced : Placed c.engine) :
    (c.stop idx).Truthful ↔ (c.engine.transmitting = true → In c.engine idx) := by
  -- the engine has stopped, and is where it was
  have hstopped : (c.stop idx).Truthful ↔ ∀ idx', Function.update c.transmitting idx false idx' = false := by
    constructor
    · intro ht idx'
      exact Bool.eq_false_iff.mpr fun hmark => Bool.false_ne_true ((ht.transmitting idx').mp hmark).2
    · intro hmarks
      exact ⟨fun idx' => h.joined idx', fun idx' => ⟨fun hmark => absurd hmark (Bool.eq_false_iff.mp (hmarks idx')),
        fun hx => absurd hx.2 Bool.false_ne_true⟩⟩
  rw [hstopped, unmarked_iff]
  constructor
  · intro hmarks hon
    obtain ⟨idx', hin⟩ := hplaced.active (hplaced.transmitting hon)
    exact hmarks idx' ((h.transmitting idx').mpr ⟨hin, hon⟩) ▸ hin
  · intro hin idx' hmark
    obtain ⟨hin', hon⟩ := (h.transmitting idx').mp hmark
    exact hin'.unique (hin hon)

theorem talk_cases (c : Console L) (idx : ChannelIndex) : c.talk idx = c ∨
    c.channelJoined idx = true ∧ c.engine.channel.active = true ∧ c.talk idx = { c with
      engine := (aeEngineStartTransmit c.engine (cString (channelIds idx))).1
      transmitting := Function.update c.transmitting idx true } := by
  unfold Console.talk
  dsimp only
  cases hjoined : c.channelJoined idx with
  | false => exact .inl rfl
  | true =>
    rw [if_neg (show ¬ (!true) = true by decide)]
    cases hactive : c.engine.channel.active with
    | false =>
      left
      unfold aeEngineStartTransmit
      simp [hactive]
    | true => exact .inr ⟨rfl, rfl, if_pos ((start_ok ..).mpr hactive)⟩

theorem truthful_talk (h : c.Truthful) : (c.talk idx).Truthful := by
  obtain heq | ⟨hjoined, hactive, heq⟩ := c.talk_cases idx
  · rwa [heq]
  · have hin := (h.joined idx).mp hjoined
    rw [heq, engine_start c.engine _ hactive]
    refine ⟨fun idx' => h.joined idx', fun idx' => ?_⟩
    show Function.update c.transmitting idx true idx' = true ↔ In c.engine idx' ∧ true = true
    rw [Function.update_apply]
    split
    · rename_i heq
      exact ⟨fun _ => ⟨heq ▸ hin, rfl⟩, fun _ => rfl⟩
    · rename_i hne
      exact ⟨fun hon => ⟨((h.transmitting idx').mp hon).1, rfl⟩, fun hx => absurd (hx.1.unique hin) hne⟩

section Perform
variable {outcome : NetOutcome} {now : BitVec 64}

/-- Every command leaves the engine in one of the three channels or in none. -/
theorem placed_perform (h : Placed c.engine) (command : Command) :
    Placed (c.perform outcome now command).1.engine := by
  cases command with
  | quit => exact (away_disconnect c.engine).placed
  | connect => exact h.moved (place_connect c.engine outcome now)
  | disconnect => exact (away_disconnect c.engine).placed
  | join idx =>
    show Placed (c.join idx).engine
    cases hon : c.engine.connected with
    | false => rwa [join_off hon]
    | true =>
      rw [join_on hon]
      exact (entered_join h hon idx).placed
  | leave idx => exact (away_leave c.engine (cString (channelIds idx))).placed
  | talk idx =>
    show Placed (c.talk idx).engine
    obtain heq | ⟨-, hactive, heq⟩ := c.talk_cases idx
    · rwa [heq]
    · rw [heq, engine_start c.engine _ hactive]
      exact ⟨fun _ => hactive, fun _ => h.active hactive⟩
  | stop idx => exact ⟨nofun, fun hon => h.active hon⟩
  | vol vol => exact h.moved rfl
  | chvol idx vol => exact h.moved rfl
  | mute idx => exact h.moved rfl
  | nothing => exact h

/-- The status stays true exactly if the command suits the state. -/
theorem truthful_perform (h : c.Truthful) (hplaced : Placed c.engine) {command : Command}
    (hquit : command ≠ .quit) : (c.perform outcome now command).1.Truthful ↔ c.Suits command := by
  have hkept : c.Suits command → (c.perform outcome now command).1.Truthful →
      ((c.perform outcome now command).1.Truthful ↔ c.Suits command) := fun hs ht => ⟨fun _ => hs, fun _ => ht⟩
  cases command with
  | quit => exact absurd rfl hquit
  | connect => exact hkept trivial (h.moved (place_connect c.engine outcome now) rfl rfl)
  | disconnect =>
    have haway := truthful_away (c := c.disconnect) (away_disconnect c.engine)
    exact hkept trivial (haway.mpr ⟨fun _ => rfl, fun _ => rfl⟩)
  | join idx =>
    show (c.join idx).Truthful ↔ (c.engine.connected = true → _)
    cases hon : c.engine.connected with
    | false =>
      rw [join_off hon]
      exact ⟨fun _ hf => absurd hf Bool.false_ne_true, fun _ => h⟩
    | true =>
      rw [truthful_join h hplaced hon]
      exact ⟨fun hs _ => hs, fun hs => hs rfl⟩
  | leave idx => exact truthful_leave h
  | talk idx => exact hkept trivial (truthful_talk h)
  | stop idx => exact truthful_stop h hplaced
  | vol vol => exact hkept trivial (h.moved rfl rfl rfl)
  | chvol idx vol => exact hkept trivial (h.moved rfl rfl rfl)
  | mute idx => exact hkept trivial (h.moved rfl rfl rfl)
  | nothing => exact hkept trivial h

/-- Nothing but `quit` ends the program. -/
theorem running_perform {command : Command} (hquit : command ≠ .quit) :
    (c.perform outcome now command).1.running = c.running := by
  cases command with
  | quit => exact absurd rfl hquit
  | join idx =>
    show (c.join idx).running = _
    cases hon : c.engine.connected with
    | false => rw [join_off hon]
    | true => rw [join_on hon]
  | talk idx =>
    show (c.talk idx).running = _
    obtain heq | ⟨-, -, heq⟩ := c.talk_cases idx
    · rw [heq]
    · rw [heq]
  | leave idx =>
    show (c.leave idx).running = _
    unfold leave
    rfl
  | _ => rfl

end Perform

end Commands

/-! ### A step -/

section Step
variable {c : Console L}

theorem step_line (hrun : c.running = true) (line : List Byte) (outcome : NetOutcome) (now : BitVec 64) :
    c.step (.line line outcome now : Input Frame) = c.perform outcome now (parse line) := if_pos hrun

/-- What the audio thread does leaves the engine where it is and the tables as they are. -/
theorem step_audio (c : Console L) (call : Call Frame) : ∃ e, place e = place c.engine ∧
    (c.step (.audio call)).1 = { c with engine := e } := by
  show ∃ e, _ ∧ (if c.running && call.ofAudio then _ else _ : Console L × List (Action Frame)).1 = _
  split
  · rename_i hcall
    rw [Bool.and_eq_true] at hcall
    exact ⟨_, place_audio c.engine hcall.2, rfl⟩
  · exact ⟨c.engine, rfl, rfl⟩

theorem placed_step (h : Placed c.engine) (input : Input Frame) : Placed (c.step input).1.engine := by
  cases input with
  | line line outcome now =>
    cases hrun : c.running with
    | false =>
      show Placed (if c.running then _ else _ : Console L × List (Action Frame)).1.engine
      rwa [hrun]
    | true =>
      rw [step_line hrun]
      exact placed_perform h _
  | audio call =>
    obtain ⟨e, hplace, heq⟩ := c.step_audio call
    rw [heq]
    exact h.moved hplace

end Step

/-! ### When the status is true -/

/-- The engine is placed, and the status is true while the program runs. -/
structure Sound (c : Console L) : Prop where
  placed : Placed c.engine
  truthful : c.running = true → c.Truthful

theorem Sound.step {c : Console L} (h : c.Sound) {input : Input Frame} (hapt : c.Apt input) :
    (c.step input).1.Sound := by
  refine ⟨placed_step h.placed input, ?_⟩
  cases input with
  | line line outcome now =>
    cases hrun : c.running with
    | false =>
      show (if c.running then _ else _ : Console L × List (Action Frame)).1.running = true → _
      rw [hrun]
      exact fun hgoes => absurd (hrun.symm.trans hgoes) Bool.false_ne_true
    | true =>
      rw [step_line hrun]
      intro hgoes
      have hquit : parse line ≠ .quit := fun heq => by
        rw [heq] at hgoes
        cases hgoes
      exact (truthful_perform (h.truthful hrun) h.placed hquit).mpr (hapt hrun)
  | audio call =>
    obtain ⟨e, hplace, heq⟩ := c.step_audio call
    rw [heq]
    exact fun hrun => (h.truthful hrun).moved hplace rfl rfl

/-- A command that does not suit the state makes the status wrong, and the program goes on. -/
theorem Sound.misled {c : Console L} (h : c.Sound) {input : Input Frame} (hapt : ¬ c.Apt input) :
    ¬ ((c.step input).1.running = true → (c.step input).1.Truthful) := by
  intro hgood
  cases input with
  | audio call => exact hapt trivial
  | line line outcome now =>
    have hrun : c.running = true := by
      by_contra hoff
      exact hapt fun hrun => absurd hrun hoff
    have hquit : parse line ≠ .quit := fun heq => hapt fun _ => by
      rw [heq]
      trivial
    rw [step_line hrun, running_perform hquit] at hgood
    exact hapt fun _ => (truthful_perform (h.truthful hrun) h.placed hquit).mp (hgood hrun)

theorem away_create [Zero Frame] {config : Option AeConfig} {e : Engine L}
    (hnew : aeEngineCreate L config = some e) : Away e :=
  ⟨(idle_create hnew).channel, (fresh_create hnew).transmitting⟩

theorem sound_new [Zero Frame] {config : Option AeConfig} {e : Engine L}
    (hnew : aeEngineCreate L config = some e) : (new e).Sound :=
  ⟨(away_create hnew).placed,
    fun _ => (truthful_away (c := new e) (away_create hnew)).mpr ⟨fun _ => rfl, fun _ => rfl⟩⟩

/-- **When the status is true.** In every run of the program, the status is true in every state in which it
runs exactly if every join, leave and stop is for the channel that the engine is in, if it is in one, and
nobody joins while talking. -/
theorem status_true_iff [Zero Frame] {config : Option AeConfig} {e : Engine L}
    (hnew : aeEngineCreate L config = some e) (inputs : List (Input Frame)) :
    (∀ done, done <+: inputs → (Machine.run step (new e) done).running = true →
      (Machine.run step (new e) done).Truthful) ↔ Machine.Along step Apt (new e) inputs := by
  have hgood : ∀ c : Console L, c.Sound → c.running = true → c.Truthful := fun _ h => h.truthful
  exact Machine.kept_iff_along (P := fun _ => True) hgood (fun _ _ _ h hapt => h.step hapt)
    (fun _ _ _ h hapt => h.misled hapt) (sound_new hnew) fun _ _ => trivial

/-- Lines that are typed while the network is there. -/
def typing (ls : List String) : List (Input (ℚ × ℚ)) := ls.map fun l => .line (utf8 l) .connected 0

/-- One channel at a time. -/
def evening : List (Input (ℚ × ℚ)) :=
  typing ["connect host\n", "join 1\n", "talk 1\n", "stop 1\n", "leave 1\n", "join 2\n", "talk 2\r\n"]

/-- From one channel to the next. -/
def switching : List (Input (ℚ × ℚ)) := typing ["connect host\n", "join 1\n", "join 2\n"]

theorem status_true_iff_evening :
    (Machine.run step (new newEngine) evening).Truthful ∧
    ¬ ∀ done, done <+: switching → (Machine.run step (new newEngine) done).running = true →
      (Machine.run step (new newEngine) done).Truthful := by
  constructor
  · have hapt : Machine.Along step Apt (new newEngine) evening := by decide +kernel
    exact (status_true_iff create_newEngine evening).mpr hapt evening (List.prefix_refl _) (by decide +kernel)
  · intro hall
    exact absurd ((status_true_iff create_newEngine switching).mp hall) (by decide +kernel)

/-! ### Nothing is hidden -/

/-- The channel that the engine is in is shown as joined, and while it transmits, some channel is shown as
talked in. -/
structure Open (c : Console L) : Prop where
  joined : ∀ idx, In c.engine idx → c.channelJoined idx = true
  transmitting : c.engine.transmitting = true → ∃ idx, c.transmitting idx = true

theorem open_away {c : Console L} (h : Away c.engine) : c.Open :=
  ⟨fun idx hin => absurd hin (h.not_in idx), fun hon => absurd hon h.not_transmitting⟩

theorem Open.moved {c c' : Console L} (h : c.Open) (hplace : place c'.engine = place c.engine)
    (hjoined : c'.channelJoined = c.channelJoined) (htransmitting : c'.transmitting = c.transmitting) :
    c'.Open := by
  refine ⟨fun idx hin => ?_, fun hon => ?_⟩
  · rw [hjoined]
    exact h.joined idx ((in_iff hplace).mp hin)
  · rw [htransmitting]
    exact h.transmitting ((transmitting_eq hplace).symm.trans hon)

theorem Open.perform {c : Console L} (h : c.Open) (hplaced : Placed c.engine) (outcome : NetOutcome)
    (now : BitVec 64) (command : Command) : (c.perform outcome now command).1.Open := by
  cases command with
  | quit => exact open_away (c := c.quit) (away_disconnect c.engine)
  | connect => exact h.moved (place_connect c.engine outcome now) rfl rfl
  | disconnect => exact open_away (c := c.disconnect) (away_disconnect c.engine)
  | join idx =>
    show (c.join idx).Open
    cases hon : c.engine.connected with
    | false => rwa [join_off hon]
    | true =>
      have hentered := entered_join hplaced hon idx
      rw [join_on hon]
      refine ⟨fun idx' hin => ?_, fun hon => absurd hon hentered.not_transmitting⟩
      rw [hin.unique hentered.seat]
      exact Function.update_self ..
  | leave idx => exact open_away (c := c.leave idx) (away_leave c.engine (cString (channelIds idx)))
  | talk idx =>
    show (c.talk idx).Open
    obtain heq | ⟨-, hactive, heq⟩ := c.talk_cases idx
    · rwa [heq]
    · rw [heq, engine_start c.engine _ hactive]
      exact ⟨fun idx' hin => h.joined idx' hin, fun _ => ⟨idx, Function.update_self ..⟩⟩
  | stop idx => exact ⟨fun idx' hin => h.joined idx' hin, nofun⟩
  | vol vol => exact h.moved rfl rfl rfl
  | chvol idx vol => exact h.moved rfl rfl rfl
  | mute idx => exact h.moved rfl rfl rfl
  | nothing => exact h

theorem Open.step {c : Console L} (h : c.Open) (hplaced : Placed c.engine) (input : Input Frame) :
    (c.step input).1.Open := by
  cases input with
  | line line outcome now =>
    show (if c.running then _ else _ : Console L × List (Action Frame)).1.Open
    split
    · exact h.perform hplaced outcome now _
    · exact h
  | audio call =>
    obtain ⟨e, hplace, heq⟩ := c.step_audio call
    rw [heq]
    exact h.moved hplace rfl rfl

/-- While the engine does not transmit, nothing that is done sends audio. -/
theorem step_silent {c : Console L} (hoff : c.engine.transmitting = false) (input : Input Frame) :
    (c.step input).2.any (Action.isOf aeRtpTypeAudio) = false := by
  cases input with
  | line line outcome now =>
    show (if c.running then _ else _ : Console L × List (Action Frame)).2.any _ = false
    split
    · cases parse line with
      | connect => exact silent_call hoff (.connect outcome now)
      | _ => rfl
    · rfl
  | audio call =>
    show (if c.running && call.ofAudio then _ else _ : Console L × List (Action Frame)).2.any _ = false
    split
    · exact silent_call hoff call
    · rfl

/-- **The status hides nothing.** In every run of the program, whatever is typed, the channel that the engine
is in is shown as joined, and while the engine transmits, some channel is shown as talked in; so audio is sent
only while one is. The calls of the audio thread fall between the commands here: `talk` starts the engine before
it marks the channel, and a call in between would send with no channel marked. -/
theorem status_hides_nothing [Zero Frame] {config : Option AeConfig} {e : Engine L}
    (hnew : aeEngineCreate L config = some e) (inputs : List (Input Frame)) :
    (Machine.run step (new e) inputs).Open ∧
    ∀ input, ((Machine.run step (new e) inputs).step input).2.any (Action.isOf aeRtpTypeAudio) = true →
      ∃ idx, (Machine.run step (new e) inputs).transmitting idx = true := by
  have hstep : ∀ (c : Console L) (input : Input Frame), True → Placed c.engine ∧ c.Open →
      Placed (c.step input).1.engine ∧ (c.step input).1.Open :=
    fun c input _ h => ⟨placed_step h.1 input, h.2.step h.1 input⟩
  have hstart : Placed (new e).engine ∧ (new e).Open :=
    ⟨(away_create hnew).placed, open_away (c := new e) (away_create hnew)⟩
  have hopen : (Machine.run step (new e) inputs).Open :=
    (Machine.run_induction (P := fun _ => True) hstep hstart fun _ _ => trivial).2
  refine ⟨hopen, fun input hsent => hopen.transmitting ?_⟩
  by_contra hoff
  exact Bool.false_ne_true ((step_silent (Bool.eq_false_iff.mpr hoff) input).symm.trans hsent)

theorem status_hides_nothing_switching : (Machine.run step (new newEngine) switching).Open :=
  (status_hides_nothing create_newEngine switching).1

end Console

end AudioPlatform.Windows
