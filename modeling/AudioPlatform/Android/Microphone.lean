import AudioPlatform.Android.Activity
import AudioPlatform.Core.Timers

/-! Push to talk.

Pressing the button launches a coroutine that opens the microphone, and releasing it launches one that closes
it, if the first has said by then which channel is open. If the button is left alone while either is under way,
the microphone is closed whenever the button is up; if it is not, the microphone can stay open. All this takes
calls of the engine one at a time. -/
namespace AudioPlatform.Android
open AudioPlatform.Core Concurrency

variable {Frame : Type} {L : Library Frame}

/-! ### What the engine does -/

/-- No call but a start opens the microphone. -/
theorem transmitting_call (e : Engine L) {c : Call Frame} (hc : ∀ channelId, c ≠ .startTransmit channelId) :
    (e.call c).1.transmitting = true → e.transmitting = true := by
  have hafter : ∀ {c : Call Frame}, ¬ c.Ticks → (e.call c).1.transmitting = (e.control.after c).transmitting :=
    fun hc => congrArg Control.transmitting (control_call e hc)
  cases c with
  | process t =>
    obtain ⟨_, _, _, h⟩ := control_tick e t
    exact fun hon => (congrArg Control.transmitting h).symm.trans hon
  | startTransmit channelId => exact absurd rfl (hc channelId)
  | joinChannel channelId =>
    rw [hafter id]
    dsimp only [Control.after]
    split
    · split
      · exact fun h => absurd h Bool.false_ne_true
      · exact id
    · exact id
  | leaveAllChannels =>
    rw [hafter id]
    dsimp only [Control.after]
    split
    · exact fun h => absurd h Bool.false_ne_true
    · exact id
  | disconnect => exact fun h => absurd h Bool.false_ne_true
  | leaveChannel channelId =>
    rw [hafter id]
    exact fun h => absurd h Bool.false_ne_true
  | stopTransmit channelId => exact fun h => absurd h Bool.false_ne_true
  | _ =>
    rw [hafter id]
    exact id

/-- The audio thread does not open it. -/
theorem transmitting_callback (e : Engine L) (cb : Callback Frame) :
    (Machine.run Engine.call e cb.calls).transmitting = true → e.transmitting = true := by
  have hcalls : ∀ c ∈ cb.calls, ∀ channelId, c ≠ .startTransmit channelId := by
    intro c hc channelId
    unfold Callback.calls at hc
    rintro rfl
    split at hc <;> simp at hc
  have hstep : ∀ (e : Engine L) (c : Call Frame), (∀ channelId, c ≠ .startTransmit channelId) →
      ¬ e.transmitting = true → ¬ (e.call c).1.transmitting = true :=
    fun e c hc hoff hon => hoff (transmitting_call e hc hon)
  intro hon
  by_contra hoff
  exact Machine.run_induction hstep hoff hcalls hon

/-! ### The coroutines of the button -/

/-- The coroutine was launched by the button. -/
def Task.ofButton : Task → Bool
  | .startTransmit _ => true
  | .transmitting _ => true
  | .stopTransmit _ => true
  | .stopped => true
  | _ => false

/-- Those that have not ended. -/
def MainActivity.pending (a : MainActivity L) : List Task := a.tasks.filter Task.ofButton

/-- How far the button, the microphone and what is launched have come. -/
inductive Phase : (held transmitting : Bool) → (activeTransmitChannel : Option CString) → List Task → Prop
  | idle : Phase false false none []
  | talking {transmitting active} (h : transmitting = true → active.isSome = true) : Phase true transmitting active []
  | starting (channelId) : Phase true false none [.startTransmit channelId]
  | started (transmitting channelId) : Phase true transmitting none [.transmitting channelId]
  | stopping (transmitting active channelId) : Phase false transmitting active [.stopTransmit channelId]
  | stopped (active) : Phase false false active [.stopped]

/-- The microphone may be closed. -/
theorem Phase.mono {held transmitting transmitting' : Bool} {active : Option CString} {tasks : List Task}
    (h : Phase held transmitting active tasks) (hle : transmitting' = true → transmitting = true) :
    Phase held transmitting' active tasks := by
  have hoff : transmitting = false → transmitting' = false := fun hoff =>
    Bool.eq_false_iff.mpr fun hon => absurd (hle hon) (by simp [hoff])
  cases h with
  | idle =>
    rw [hoff rfl]
    exact .idle
  | talking hactive => exact .talking fun hon => hactive (hle hon)
  | starting channelId =>
    rw [hoff rfl]
    exact .starting channelId
  | started _ channelId => exact .started _ channelId
  | stopping _ _ channelId => exact .stopping _ _ channelId
  | stopped active =>
    rw [hoff rfl]
    exact .stopped active

/-- Disconnecting closes the microphone and forgets the channel. -/
theorem Phase.cut {held transmitting : Bool} {active : Option CString} {tasks : List Task}
    (h : Phase held transmitting active tasks) : Phase held false none tasks := by
  cases h with
  | idle => exact .idle
  | talking => exact .talking fun hon => absurd hon Bool.false_ne_true
  | starting channelId => exact .starting channelId
  | started _ channelId => exact .started _ channelId
  | stopping _ _ channelId => exact .stopping _ _ channelId
  | stopped => exact .stopped _

/-- The phase of an activity. -/
def MainActivity.Steady (a : MainActivity L) : Prop :=
  Phase a.held a.engine.transmitting a.activeTransmitChannel a.pending

/-! ### What does not concern the button -/

/-- The button and its coroutines are as they were, and the microphone and the channel as they were or cut
off. -/
def Still (a a' : MainActivity L) : Prop :=
  a'.held = a.held ∧ a'.pending = a.pending ∧
    ((a'.engine.transmitting = true → a.engine.transmitting = true) ∧
        a'.activeTransmitChannel = a.activeTransmitChannel ∨
      a'.engine.transmitting = false ∧ a'.activeTransmitChannel = none)

theorem Still.steady {a a' : MainActivity L} (h : Still a a') (hs : a.Steady) : a'.Steady := by
  obtain ⟨hheld, hpending, ⟨hle, hactive⟩ | ⟨hoff, hnone⟩⟩ := h
  · unfold MainActivity.Steady
    rw [hheld, hpending, hactive]
    exact hs.mono hle
  · unfold MainActivity.Steady
    rw [hheld, hpending, hoff, hnone]
    exact hs.cut

theorem Still.refl (a : MainActivity L) : Still a a := ⟨rfl, rfl, .inl ⟨id, rfl⟩⟩

theorem pending_append (tasks next : List Task) (hnext : next.filter Task.ofButton = []) :
    (tasks ++ next).filter Task.ofButton = tasks.filter Task.ofButton := by
  rw [List.filter_append, hnext, List.append_nil]

theorem still_launch (a : MainActivity L) {task : Task} (ht : task.ofButton = false) : Still a (a.launch task) :=
  ⟨rfl, pending_append _ _ (by simp [ht]), .inl ⟨id, rfl⟩⟩

/-- What is drawn does not concern it. -/
theorem updateUI_eq (a : MainActivity L) : ∃ connectEnabled pttEnabled,
    a.updateUI = { a with connectEnabled, pttEnabled } := by
  unfold MainActivity.updateUI
  split
  · exact ⟨true, a.pttEnabled, rfl⟩
  · exact ⟨true, false, rfl⟩

theorem still_updateUI (a : MainActivity L) : Still a a.updateUI := by
  obtain ⟨_, _, h⟩ := updateUI_eq a
  rw [h]
  exact .refl a

theorem still_toggleConnection (a : MainActivity L) (host : CString) : Still a (a.toggleConnection host) := by
  unfold MainActivity.toggleConnection
  split
  · unfold MainActivity.onDisconnected
    dsimp only
    obtain ⟨_, _, hinner⟩ := updateUI_eq
      { a with audio := false, engine := aeEngineDisconnect a.engine, isConnected := false, joinedChannels := [],
               activeTransmitChannel := none }
    rw [hinner]
    obtain ⟨_, _, houter⟩ := updateUI_eq
      { a with audio := false, engine := aeEngineDisconnect a.engine, isConnected := false, joinedChannels := [],
               activeTransmitChannel := none, connectEnabled := _, pttEnabled := _ }
    rw [houter]
    exact ⟨rfl, rfl, .inr ⟨rfl, rfl⟩⟩
  · split
    · exact .refl a
    · exact still_launch _ rfl

/-- A call of the engine other than a start. -/
theorem still_call (a : MainActivity L) {c : Call Frame} (hc : ∀ channelId, c ≠ .startTransmit channelId) :
    Still a { a with engine := (a.engine.call c).1 } :=
  ⟨rfl, rfl, .inl ⟨transmitting_call a.engine hc, rfl⟩⟩

/-- A coroutine that is not the button's. -/
theorem still_proceed (a : MainActivity L) (outcome : NetOutcome) (now : BitVec 64) {task : Task}
    (ht : task.ofButton = false) : Still a (a.proceed outcome now task).1 ∧
      (a.proceed outcome now task).2.1.filter Task.ofButton = [] := by
  cases task with
  | connect =>
    have hcall := still_call a (c := .connect outcome now) nofun
    unfold MainActivity.proceed
    dsimp only
    split
    · exact ⟨hcall, rfl⟩
    · exact ⟨hcall, rfl⟩
  | connected result =>
    refine ⟨?_, rfl⟩
    show Still a (if _ then _ else _)
    split <;> exact .refl a
  | updateUI => exact ⟨still_updateUI a, rfl⟩
  | toggle index =>
    refine ⟨.refl a, ?_⟩
    show (if _ then _ else _ : List Task).filter _ = []
    split <;> rfl
  | leave index => exact ⟨still_call a (c := .leaveChannel (channelIds index)) nofun, rfl⟩
  | left index => exact ⟨.refl a, rfl⟩
  | join index => exact ⟨still_call a (c := .joinChannel (channelIds index)) nofun, rfl⟩
  | joined index result =>
    refine ⟨?_, rfl⟩
    show Still a (if _ then _ else _)
    split <;> exact .refl a
  | toggled => exact ⟨.refl a, rfl⟩
  | _ => cases ht

/-! ### A step -/

/-- One finger: the button is pressed when it is up, and released when it is held. -/
def Alternates (a : MainActivity L) : Event Frame → Prop
  | .touch .down => a.held = false
  | .touch .up => a.held = true
  | .touch .cancel => a.held = true
  | _ => True

/-- The button is touched only when nothing that it launched is under way, and released only where that is
noticed. -/
def Calm (a : MainActivity L) : Event Frame → Prop
  | .touch .down => a.pending = []
  | .touch .up => a.pending = [] ∧ a.pttEnabled = true
  | .touch .cancel => a.pending = [] ∧ a.pttEnabled = true
  | _ => True

instance (a : MainActivity L) : ∀ ev : Event Frame, Decidable (Alternates a ev ∧ Calm a ev)
  | .touch .down => inferInstanceAs (Decidable (_ = _ ∧ _ = _))
  | .touch .up => inferInstanceAs (Decidable (_ = _ ∧ _ = _ ∧ _ = _))
  | .touch .cancel => inferInstanceAs (Decidable (_ = _ ∧ _ = _ ∧ _ = _))
  | .touch .other => inferInstanceAs (Decidable (True ∧ True))
  | .tapConnect _ => inferInstanceAs (Decidable (True ∧ True))
  | .tapChannel _ => inferInstanceAs (Decidable (True ∧ True))
  | .volume _ => inferInstanceAs (Decidable (True ∧ True))
  | .channelVolume _ _ => inferInstanceAs (Decidable (True ∧ True))
  | .resume _ _ _ => inferInstanceAs (Decidable (True ∧ True))
  | .callback _ => inferInstanceAs (Decidable (True ∧ True))

/-- Where a coroutine stands in the list. -/
theorem resume_cases (a : MainActivity L) (k : Nat) (outcome : NetOutcome) (now : BitVec 64) :
    (a.resume k outcome now).1 = a ∨ ∃ before task rest, a.tasks = before ++ task :: rest ∧
      ∃ a' next, a' = ({ a with tasks := before ++ rest }.proceed outcome now task).1 ∧
        next = ({ a with tasks := before ++ rest }.proceed outcome now task).2.1 ∧
        (a.resume k outcome now).1 = { a' with tasks := a'.tasks ++ next } := by
  unfold MainActivity.resume
  cases hk : a.tasks[k]? with
  | none => exact .inl rfl
  | some task =>
    obtain ⟨hlt, hget⟩ := List.getElem?_eq_some_iff.mp hk
    refine .inr ⟨a.tasks.take k, task, a.tasks.drop (k + 1), ?_, _, _, rfl, rfl, ?_⟩
    · rw [← hget, List.getElem_cons_drop, List.take_append_drop]
    · rw [List.eraseIdx_eq_take_drop_succ]

theorem tasks_proceed (a : MainActivity L) (outcome : NetOutcome) (now : BitVec 64) (task : Task) :
    (a.proceed outcome now task).1.tasks = a.tasks := by
  cases task with
  | connect =>
    unfold MainActivity.proceed
    dsimp only
    split <;> rfl
  | connected result =>
    show (if _ then _ else _ : MainActivity L).tasks = _
    split <;> rfl
  | updateUI =>
    obtain ⟨_, _, h⟩ := updateUI_eq a
    show a.updateUI.tasks = _
    rw [h]
  | joined index result =>
    show (if _ then _ else _ : MainActivity L).tasks = _
    split <;> rfl
  | _ => dsimp only [MainActivity.proceed]

/-- The one coroutine of the button that has not ended. -/
theorem filter_eq_singleton {before rest : List Task} {task u : Task} (ht : task.ofButton = true)
    (h : (before ++ task :: rest).filter Task.ofButton = [u]) :
    (before ++ rest).filter Task.ofButton = [] ∧ task = u := by
  rw [List.filter_append, List.filter_cons_of_pos ht] at h
  rw [List.filter_append]
  rcases List.append_eq_singleton_iff.mp h with ⟨hbefore, hrest⟩ | ⟨-, hrest⟩
  · obtain ⟨htask, hrest⟩ := List.cons.inj hrest
    exact ⟨by rw [hbefore, hrest]; rfl, htask⟩
  · exact absurd hrest (by simp)

theorem pending_ne_nil {before rest : List Task} {task : Task} (ht : task.ofButton = true) :
    (before ++ task :: rest).filter Task.ofButton ≠ [] := fun h =>
  List.filter_eq_nil_iff.mp h task (by simp) ht

/-- A coroutine of the button. -/
theorem Phase.proceed {a : MainActivity L} {before rest : List Task} {task : Task} (ht : task.ofButton = true)
    (h : Phase a.held a.engine.transmitting a.activeTransmitChannel
      ((before ++ task :: rest).filter Task.ofButton)) (outcome : NetOutcome) (now : BitVec 64) :
    Phase (a.proceed outcome now task).1.held (a.proceed outcome now task).1.engine.transmitting
      (a.proceed outcome now task).1.activeTransmitChannel
      ((before ++ rest).filter Task.ofButton ++ (a.proceed outcome now task).2.1.filter Task.ofButton) := by
  generalize hpending : (before ++ task :: rest).filter Task.ofButton = pending at h
  generalize hheld : a.held = held at h
  generalize hon : a.engine.transmitting = transmitting at h
  generalize hactive : a.activeTransmitChannel = active at h
  cases h with
  | idle => exact absurd hpending (pending_ne_nil ht)
  | talking => exact absurd hpending (pending_ne_nil ht)
  | starting channelId =>
    obtain ⟨hnil, rfl⟩ := filter_eq_singleton ht hpending
    rw [hnil]
    show Phase a.held _ a.activeTransmitChannel [.transmitting channelId]
    rw [hheld, hactive]
    exact .started _ channelId
  | started _ channelId =>
    obtain ⟨hnil, rfl⟩ := filter_eq_singleton ht hpending
    rw [hnil]
    show Phase a.held _ (some channelId) []
    rw [hheld]
    exact .talking fun _ => rfl
  | stopping _ _ channelId =>
    obtain ⟨hnil, rfl⟩ := filter_eq_singleton ht hpending
    rw [hnil]
    show Phase a.held false a.activeTransmitChannel [.stopped]
    rw [hheld]
    exact .stopped _
  | stopped =>
    obtain ⟨hnil, rfl⟩ := filter_eq_singleton ht hpending
    rw [hnil]
    show Phase a.held a.engine.transmitting none []
    rw [hheld, hon]
    exact .idle

theorem MainActivity.Steady.resume {a : MainActivity L} (h : a.Steady) (k : Nat) (outcome : NetOutcome)
    (now : BitVec 64) :
    (a.resume k outcome now).1.Steady := by
  rcases resume_cases a k outcome now with hsame | ⟨before, task, rest, htasks, a', next, ha', hnext, hresume⟩
  · rwa [hsame]
  have htasks' : a'.tasks = before ++ rest := by
    rw [ha']
    exact tasks_proceed ..
  have hpending : ({ a' with tasks := a'.tasks ++ next } : MainActivity L).pending =
      (before ++ rest).filter Task.ofButton ++ next.filter Task.ofButton := by
    show (a'.tasks ++ next).filter _ = _
    rw [htasks', List.filter_append]
  have hbefore : a.pending = (before ++ task :: rest).filter Task.ofButton := congrArg _ htasks
  rw [hresume]
  cases hbutton : task.ofButton with
  | false =>
    obtain ⟨hstill, hnone⟩ := still_proceed { a with tasks := before ++ rest } outcome now hbutton
    rw [← ha'] at hstill
    rw [← hnext] at hnone
    have hsame : Still a { a' with tasks := a'.tasks ++ next } := by
      refine ⟨hstill.1, ?_, hstill.2.2⟩
      rw [hpending, hnone, List.append_nil, hbefore, List.filter_append, List.filter_append,
        List.filter_cons_of_neg (by simp [hbutton])]
    exact hsame.steady h
  | true =>
    unfold MainActivity.Steady at h ⊢
    rw [hbefore] at h
    rw [hpending, hnext]
    subst ha'
    exact Phase.proceed (a := { a with tasks := before ++ rest }) hbutton h outcome now

/-- Nothing is under way, and the button is up. -/
theorem Phase.up {transmitting : Bool} {active : Option CString} (h : Phase false transmitting active []) :
    transmitting = false ∧ active = none := by
  cases h
  exact ⟨rfl, rfl⟩

theorem Phase.down {transmitting : Bool} {active : Option CString} (h : Phase true transmitting active []) :
    transmitting = true → active.isSome = true := by
  cases h with
  | talking h => exact h

theorem MainActivity.Steady.press {a : MainActivity L} (h : a.Steady) (hheld : a.held = false)
    (hpending : a.pending = []) :
    ({ a with held := true } : MainActivity L).Steady ∧
      (MainActivity.startTransmitting { a with held := true }).Steady := by
  unfold MainActivity.Steady at h
  rw [hheld, hpending] at h
  obtain ⟨hoff, hnone⟩ := h.up
  have hheld : ({ a with held := true } : MainActivity L).Steady := by
    show Phase true a.engine.transmitting a.activeTransmitChannel a.pending
    rw [hoff, hnone, hpending]
    exact .talking fun hon => absurd hon Bool.false_ne_true
  refine ⟨hheld, ?_⟩
  unfold MainActivity.startTransmitting
  split
  · exact hheld
  · rename_i channelId _ _
    show Phase true a.engine.transmitting a.activeTransmitChannel ((a.tasks ++ [_]).filter Task.ofButton)
    rw [hoff, hnone, List.filter_append, show a.tasks.filter Task.ofButton = [] from hpending]
    exact .starting channelId

theorem MainActivity.Steady.release {a : MainActivity L} (h : a.Steady) (hheld : a.held = true)
    (hpending : a.pending = []) :
    (MainActivity.stopTransmitting { a with held := false }).Steady := by
  unfold MainActivity.Steady at h
  rw [hheld, hpending] at h
  have hactive := h.down
  unfold MainActivity.stopTransmitting
  split
  · rename_i hnone
    have hnone : a.activeTransmitChannel = none := hnone
    have hoff : a.engine.transmitting = false :=
      Bool.eq_false_iff.mpr fun hon => absurd (hactive hon) (by simp [hnone])
    show Phase false a.engine.transmitting a.activeTransmitChannel a.pending
    rw [hoff, hnone, hpending]
    exact .idle
  · rename_i channelId _
    show Phase false a.engine.transmitting a.activeTransmitChannel ((a.tasks ++ [_]).filter Task.ofButton)
    rw [List.filter_append, show a.tasks.filter Task.ofButton = [] from hpending]
    exact .stopping _ _ channelId

theorem MainActivity.Steady.touch {a : MainActivity L} (h : a.Steady) (action : MotionAction)
    (hev : Alternates a (.touch action) ∧ Calm a (.touch action)) : (a.step (.touch action)).1.Steady := by
  cases action with
  | other =>
    show (if a.pttEnabled then a else a).Steady
    rwa [ite_self]
  | down =>
    obtain ⟨hheld, hstart⟩ := h.press hev.1 hev.2
    show (if a.pttEnabled then _ else _ : MainActivity L).Steady
    split
    · exact hstart
    · exact hheld
  | up =>
    obtain ⟨hheld, hpending, henabled⟩ := hev
    show (if a.pttEnabled then _ else _ : MainActivity L).Steady
    rw [if_pos henabled]
    exact h.release hheld hpending
  | cancel =>
    obtain ⟨hheld, hpending, henabled⟩ := hev
    show (if a.pttEnabled then _ else _ : MainActivity L).Steady
    rw [if_pos henabled]
    exact h.release hheld hpending

theorem MainActivity.Steady.step {a : MainActivity L} {ev : Event Frame} (h : a.Steady)
    (hev : Alternates a ev ∧ Calm a ev) : (a.step ev).1.Steady := by
  cases ev with
  | tapConnect host =>
    show (if a.connectEnabled then a.toggleConnection host else a).Steady
    split
    · exact (still_toggleConnection a host).steady h
    · exact h
  | tapChannel index =>
    show (a.toggleChannel index).Steady
    unfold MainActivity.toggleChannel
    split
    · exact h
    · exact (still_launch a rfl).steady h
  | touch action => exact h.touch action hev
  | volume volume => exact (still_call a (c := .setMasterVolume volume) nofun).steady h
  | channelVolume index volume =>
    exact (still_call a (c := .setChannelVolume (channelIds index) volume) nofun).steady h
  | resume k outcome now => exact h.resume k outcome now
  | callback cb =>
    show (if a.audio then _ else _ : MainActivity L × List (Action Frame)).1.Steady
    split
    · exact Still.steady (a := a) ⟨rfl, rfl, .inl ⟨transmitting_callback a.engine cb, rfl⟩⟩ h
    · exact h

/-! ### Closed -/

theorem steady_onCreate [Zero Frame] {config : Option AeConfig} {e : Engine L}
    (hnew : aeEngineCreate L config = some e) : (MainActivity.onCreate e).Steady := by
  show Phase false e.transmitting none []
  rw [(fresh_create hnew).transmitting]
  exact .idle

/-- **The microphone is closed when the button is up.** In every run whose calls of the engine do not overlap,
and in which the button is left alone while something that it launched is under way, and is released where
that is noticed: once nothing is under way and the button is up, the engine does not transmit, and no tick
sends audio. -/
theorem microphone_closed [Zero Frame] {config : Option AeConfig} {e : Engine L}
    (hnew : aeEngineCreate L config = some e) {events : List (Event Frame)}
    (hcalm : Machine.Along MainActivity.step (fun a ev => Alternates a ev ∧ Calm a ev) (.onCreate e) events)
    (hup : (Machine.run MainActivity.step (.onCreate e) events).held = false)
    (hquiet : (Machine.run MainActivity.step (.onCreate e) events).pending = []) :
    (Machine.run MainActivity.step (.onCreate e) events).engine.transmitting = false ∧
    ∀ t, (aeEngineProcess (Machine.run MainActivity.step (.onCreate e) events).engine t).2.any
      (Action.isOf aeRtpTypeAudio) = false := by
  have hsteady : (Machine.run MainActivity.step (.onCreate e) events).Steady :=
    Machine.inv_of_along (fun _ _ h hev => h.step hev) (steady_onCreate hnew) hcalm
  unfold MainActivity.Steady at hsteady
  rw [hup, hquiet] at hsteady
  have hoff := hsteady.up.1
  exact ⟨hoff, silent_process hoff⟩

/-- Connecting and joining "channel-1". -/
def settingOut : List (Event (ℚ × ℚ)) :=
  [.tapConnect [0x61], .resume 0 .connected 0, .resume 0 .connected 0, .resume 0 .connected 0,
    .tapChannel 0, .resume 0 .connected 0, .resume 0 .connected 0, .resume 0 .connected 0, .resume 0 .connected 0]

/-- A client that talks, and waits before it lets go. -/
def talk : List (Event (ℚ × ℚ)) :=
  settingOut ++ [.touch .down, .resume 0 .connected 0, .resume 0 .connected 0, .touch .up, .resume 0 .connected 0,
    .resume 0 .connected 0]

set_option maxRecDepth 4000 in
theorem microphone_closed_talk :
    (Machine.run MainActivity.step (.onCreate newEngine) talk).engine.transmitting = false := by
  have hcalm : Machine.Along MainActivity.step (fun a ev => Alternates a ev ∧ Calm a ev)
      (.onCreate newEngine) talk := by
    decide +kernel
  exact (microphone_closed create_newEngine hcalm (by decide +kernel) (by decide +kernel)).1

/-! ### Left open -/

/-- The microphone is open, the button is up, and nothing is under way that would close it. -/
def LeftOpen (a : MainActivity L) : Prop := a.held = false ∧ a.pending = [] ∧ a.engine.transmitting = true

/-- A coroutine proceeds. -/
def Event.Resumes : Event Frame → Prop
  | .resume .. => True
  | _ => False

theorem resume_mem {a : MainActivity L} {task : Task} (h : task ∈ a.tasks) : ∃ k, (a.resume k .connected 0).1 =
    { ({ a with tasks := a.tasks.erase task }.proceed .connected 0 task).1 with
      tasks := a.tasks.erase task ++ ({ a with tasks := a.tasks.erase task }.proceed .connected 0 task).2.1 } := by
  have htasks := tasks_proceed { a with tasks := a.tasks.erase task } .connected 0 task
  refine ⟨a.tasks.idxOf task, ?_⟩
  unfold MainActivity.resume
  rw [List.getElem?_idxOf h, List.eraseIdx_idxOf_eq_erase]
  dsimp only at htasks ⊢
  rw [htasks]

theorem pending_erase (tasks next : List Task) (task : Task) :
    (tasks.erase task ++ next).filter Task.ofButton =
      (tasks.filter Task.ofButton).erase task ++ next.filter Task.ofButton := by
  rw [List.filter_append, List.erase_filter]

theorem mem_of_pending {a : MainActivity L} {task : Task} (h : task ∈ a.pending) : task ∈ a.tasks :=
  (List.mem_filter.mp h).1

section Schedule
variable {a : MainActivity L} {channelId : CString}

theorem resume_start (h : .startTransmit channelId ∈ a.tasks) : ∃ k, (a.resume k .connected 0).1 =
    { a with
      engine := (aeEngineStartTransmit a.engine channelId).1
      tasks := a.tasks.erase (.startTransmit channelId) ++ [.transmitting channelId] } := resume_mem h

theorem resume_started (h : .transmitting channelId ∈ a.tasks) : ∃ k, (a.resume k .connected 0).1 =
    { a with
      activeTransmitChannel := some channelId
      tasks := a.tasks.erase (.transmitting channelId) ++ [] } := resume_mem h

theorem resume_stop (h : .stopTransmit channelId ∈ a.tasks) : ∃ k, (a.resume k .connected 0).1 =
    { a with
      engine := (aeEngineStopTransmit a.engine channelId).1
      tasks := a.tasks.erase (.stopTransmit channelId) ++ [.stopped] } := resume_mem h

theorem resume_stopped (h : .stopped ∈ a.tasks) : ∃ k, (a.resume k .connected 0).1 =
    { a with
      activeTransmitChannel := none
      tasks := a.tasks.erase .stopped ++ [] } := resume_mem h

/-- A start that is under way is made. -/
theorem starts (h : .startTransmit channelId ∈ a.pending) (hnone : .transmitting channelId ∉ a.pending)
    (hchannel : a.engine.channel.active = true) : ∃ k k',
    ∃ a', ((a.resume k .connected 0).1.resume k' .connected 0).1 = a' ∧ a'.held = a.held ∧
      a'.pttEnabled = a.pttEnabled ∧ a'.engine.transmitting = true ∧
      a'.pending = a.pending.erase (.startTransmit channelId) := by
  obtain ⟨k, hk⟩ := resume_start (mem_of_pending h)
  have hstart : (aeEngineStartTransmit a.engine channelId).1.transmitting = true := by
    unfold aeEngineStartTransmit
    rw [hchannel]
    rfl
  have hmem : Task.transmitting channelId ∈ (a.resume k .connected 0).1.tasks := by
    rw [hk]
    exact List.mem_append_right _ (List.mem_singleton_self _)
  obtain ⟨k', hk'⟩ := resume_started hmem
  have hpending : (a.resume k .connected 0).1.pending =
      a.pending.erase (.startTransmit channelId) ++ [.transmitting channelId] := by
    rw [hk]
    exact pending_erase ..
  refine ⟨k, k', _, hk', ?_, ?_, ?_, ?_⟩
  · rw [hk]
  · rw [hk]
  · rw [hk]
    exact hstart
  · refine (pending_erase ..).trans ?_
    rw [show (a.resume k .connected 0).1.tasks.filter Task.ofButton = _ from hpending,
      List.erase_append_right _ fun hin => hnone (List.mem_of_mem_erase hin), List.erase_cons_head]
    simp

/-- A release before the start is made. -/
theorem left_open_release (hheld : a.held = false) (hpending : a.pending = [.startTransmit channelId])
    (hchannel : a.engine.channel.active = true) : ∃ later : List (Event Frame), (∀ ev ∈ later, ev.Resumes) ∧
      LeftOpen (Machine.run MainActivity.step a later) := by
  have hmem : .startTransmit channelId ∈ a.pending := by simp [hpending]
  obtain ⟨k, k', a', ha', hheld', -, hon, hpending'⟩ := starts hmem (by simp [hpending]) hchannel
  refine ⟨[.resume k .connected 0, .resume k' .connected 0], by simp [Event.Resumes], ?_⟩
  show LeftOpen ((a.resume k .connected 0).1.resume k' .connected 0).1
  rw [ha']
  refine ⟨hheld'.trans hheld, ?_, hon⟩
  rw [hpending', hpending, List.erase_cons_head]

/-- A press before the last stop has ended. -/
theorem left_open_press (channelId : CString) (henabled : a.pttEnabled = true)
    (hmem : .startTransmit channelId ∈ a.pending) (hnone : .transmitting channelId ∉ a.pending)
    (herase : a.pending.erase (.startTransmit channelId) = [.stopped]) (hchannel : a.engine.channel.active = true) :
    ∃ later : List (Event Frame), (∀ ev ∈ later, ev.Resumes) ∧
      LeftOpen (Machine.run MainActivity.step a (later ++ [.touch .up])) := by
  obtain ⟨k, k', a', ha', hheld', henabled', hon, hpending'⟩ := starts hmem hnone hchannel
  rw [herase] at hpending'
  obtain ⟨j, hj⟩ := resume_stopped (a := a') (mem_of_pending (by simp [hpending']))
  refine ⟨[.resume k .connected 0, .resume k' .connected 0, .resume j .connected 0], by simp [Event.Resumes], ?_⟩
  show LeftOpen ((((a.resume k .connected 0).1.resume k' .connected 0).1.resume j .connected 0).1.step (.touch .up)).1
  rw [ha', hj]
  show LeftOpen (if a'.pttEnabled then _ else _ : MainActivity L)
  rw [henabled', henabled, if_pos rfl]
  refine ⟨rfl, ?_, hon⟩
  refine (pending_erase ..).trans ?_
  rw [show a'.tasks.filter Task.ofButton = _ from hpending']
  rfl

end Schedule

theorem Phase.of_start {held transmitting : Bool} {active : Option CString} {tasks : List Task} {channelId : CString}
    (h : Phase held transmitting active tasks) (hmem : .startTransmit channelId ∈ tasks) :
    active = none ∧ tasks = [.startTransmit channelId] := by
  cases h with
  | starting =>
    obtain rfl := Task.startTransmit.inj (List.mem_singleton.mp hmem)
    exact ⟨rfl, rfl⟩
  | _ => simp at hmem

theorem Phase.single {held transmitting : Bool} {active : Option CString} {tasks : List Task}
    (h : Phase held transmitting active tasks) {task : Task} (hmem : task ∈ tasks) : tasks = [task] := by
  have hsingle : ∀ u, tasks = [u] → tasks = [task] := by
    rintro u rfl
    rw [List.mem_singleton.mp hmem]
  cases h with
  | idle => simp at hmem
  | talking => simp at hmem
  | _ => exact hsingle _ rfl

/-- The activity after a press. -/
def pressed (a : MainActivity L) (channelId : CString) : MainActivity L :=
  { a with held := true, tasks := a.tasks ++ [.startTransmit channelId] }

/-- The button is pressed where a channel has been joined. -/
theorem press_eq {a : MainActivity L} (henabled : a.pttEnabled = true) (hjoined : a.joinedChannels ≠ []) :
    ∃ channelId, (a.step (.touch .down : Event Frame)).1 = pressed a channelId := by
  obtain ⟨_, _, _, joinedChannels, _, _, _, _, _⟩ := a
  cases joinedChannels with
  | nil => exact absurd rfl hjoined
  | cons channelId _ =>
    obtain rfl := henabled
    exact ⟨channelId, rfl⟩

theorem pending_pressed {a : MainActivity L} (h : a.Steady) {task : Task} (htask : task ∈ a.tasks)
    (hbutton : task.ofButton = true) (channelId : CString) :
    (pressed a channelId).pending = [task, .startTransmit channelId] := by
  show (a.tasks ++ [_]).filter Task.ofButton = _
  rw [List.filter_append, show a.tasks.filter Task.ofButton = [task] from
    Phase.single h (List.mem_filter.mpr ⟨htask, hbutton⟩)]
  rfl

/-- The button is released where no channel is known to be open. -/
theorem release_eq {a : MainActivity L} (hnone : a.activeTransmitChannel = none) :
    (a.step (.touch .up : Event Frame)).1 = { a with held := false } := by
  show (if a.pttEnabled then MainActivity.stopTransmitting { a with held := false } else { a with held := false }) = _
  unfold MainActivity.stopTransmitting
  rw [hnone, ite_self]

theorem release_leaves_open {a : MainActivity L} (h : a.Steady) (hchannel : a.engine.channel.active = true)
    {channelId : CString} (hmem : .startTransmit channelId ∈ a.tasks) : ∃ later : List (Event Frame),
      (∀ ev ∈ later, ev.Resumes) ∧ LeftOpen (Machine.run MainActivity.step a (.touch .up :: later)) := by
  obtain ⟨hnone, hpending⟩ := Phase.of_start h (List.mem_filter.mpr ⟨hmem, rfl⟩)
  obtain ⟨later, hlater, hopen⟩ := left_open_release (a := { a with held := false }) rfl hpending hchannel
  refine ⟨later, hlater, ?_⟩
  show LeftOpen (Machine.run MainActivity.step (a.step (.touch .up)).1 later)
  rwa [release_eq hnone]

theorem press_leaves_open {a : MainActivity L} (h : a.Steady) (hchannel : a.engine.channel.active = true)
    (henabled : a.pttEnabled = true) (hjoined : a.joinedChannels ≠ [])
    (hmem : .stopped ∈ a.tasks ∨ ∃ channelId, .stopTransmit channelId ∈ a.tasks) : ∃ later : List (Event Frame),
      (∀ ev ∈ later, ev.Resumes) ∧
        LeftOpen (Machine.run MainActivity.step a (.touch .down :: (later ++ [.touch .up]))) := by
  obtain ⟨channelId, hpress⟩ := press_eq henabled hjoined
  rcases hmem with hstopped | ⟨channelId', hstop⟩
  · have hpending := pending_pressed h hstopped rfl channelId
    obtain ⟨later, hlater, hopen⟩ := left_open_press channelId (a := pressed a channelId) henabled
      (by simp [hpending]) (by simp [hpending]) (by simp [hpending]) hchannel
    refine ⟨later, hlater, ?_⟩
    show LeftOpen (Machine.run MainActivity.step (a.step (.touch .down)).1 (later ++ [.touch .up]))
    rwa [hpress]
  · have hpending := pending_pressed h hstop rfl channelId
    obtain ⟨j, hj⟩ := resume_stop (a := pressed a channelId) (List.mem_append_left _ hstop)
    have hpending' : ((pressed a channelId).resume j .connected 0).1.pending =
      [.startTransmit channelId, .stopped] := by
      rw [hj]
      refine (pending_erase ..).trans ?_
      rw [show (pressed a channelId).tasks.filter Task.ofButton = _ from hpending]
      simp [Task.ofButton]
    obtain ⟨later, hlater, hopen⟩ := left_open_press channelId (a := ((pressed a channelId).resume j .connected 0).1)
      (by rw [hj]; exact henabled) (by rw [hpending']; simp) (by rw [hpending']; simp) (by rw [hpending']; simp)
      (by rw [hj]; exact hchannel)
    refine ⟨.resume j .connected 0 :: later, List.forall_mem_cons.mpr ⟨trivial, hlater⟩, ?_⟩
    show LeftOpen (Machine.run MainActivity.step ((a.step (.touch .down)).1.resume j .connected 0).1
      (later ++ [.touch .up]))
    rwa [hpress]

/-- **A hasty touch can leave the microphone open.** In a run as above, with the engine in a channel: if the
button is released before the start is made, then what is under way can proceed so that the microphone stays
open; and so it can if the button is pressed again before the last stop has ended and then released, where
the button is enabled and the list has a channel to talk in. -/
theorem microphone_left_open [Zero Frame] {config : Option AeConfig} {e : Engine L}
    (hnew : aeEngineCreate L config = some e) {events : List (Event Frame)}
    (hcalm : Machine.Along MainActivity.step (fun a ev => Alternates a ev ∧ Calm a ev) (.onCreate e) events)
    (hchannel : (Machine.run MainActivity.step (.onCreate e) events).engine.channel.active = true) :
    ((∃ channelId, .startTransmit channelId ∈ (Machine.run MainActivity.step (.onCreate e) events).tasks) →
      ∃ later : List (Event Frame), (∀ ev ∈ later, ev.Resumes) ∧
        LeftOpen (Machine.run MainActivity.step (.onCreate e) (events ++ .touch .up :: later))) ∧
    ((Machine.run MainActivity.step (.onCreate e) events).pttEnabled = true →
      (Machine.run MainActivity.step (.onCreate e) events).joinedChannels ≠ [] →
      (.stopped ∈ (Machine.run MainActivity.step (.onCreate e) events).tasks ∨
        ∃ channelId, .stopTransmit channelId ∈ (Machine.run MainActivity.step (.onCreate e) events).tasks) →
      ∃ later : List (Event Frame), (∀ ev ∈ later, ev.Resumes) ∧
        LeftOpen (Machine.run MainActivity.step (.onCreate e) (events ++ .touch .down :: (later ++ [.touch .up])))) := by
  have hsteady : (Machine.run MainActivity.step (.onCreate e) events).Steady :=
    Machine.inv_of_along (fun _ _ h hev => h.step hev) (steady_onCreate hnew) hcalm
  refine ⟨fun ⟨channelId, hmem⟩ => ?_, fun henabled hjoined hmem => ?_⟩
  · obtain ⟨later, hlater, hopen⟩ := release_leaves_open hsteady hchannel hmem
    exact ⟨later, hlater, by rwa [Machine.run_append]⟩
  · obtain ⟨later, hlater, hopen⟩ := press_leaves_open hsteady hchannel henabled hjoined hmem
    exact ⟨later, hlater, by rwa [Machine.run_append]⟩

set_option maxRecDepth 4000 in
/-- A tap on the button that is too quick. -/
theorem microphone_left_open_tap : ∃ later : List (Event (ℚ × ℚ)), (∀ ev ∈ later, ev.Resumes) ∧
    LeftOpen (Machine.run MainActivity.step (.onCreate newEngine)
      ((settingOut ++ [.touch .down]) ++ .touch .up :: later)) := by
  have hcalm : Machine.Along MainActivity.step (fun a ev => Alternates a ev ∧ Calm a ev) (.onCreate newEngine)
      (settingOut ++ [.touch .down]) := by decide +kernel
  exact (microphone_left_open create_newEngine hcalm (by decide +kernel)).1 ⟨channelOne, by decide +kernel⟩

end AudioPlatform.Android
