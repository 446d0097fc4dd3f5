import AudioPlatform.Core.Calls

/-! Whether the engine is connected.

The engine keeps a flag of its own beside the network context, which `connect` gives up
before it knows whether it will have a new socket. -/
namespace AudioPlatform.Core
open Concurrency

variable {Frame : Type} {L : Library Frame}

/-- The engine is connected exactly if its network is, over an open socket. -/
def Usable (e : Engine L) : Prop :=
  aeEngineIsConnected e = true ↔ e.network.connected = true ∧ e.network.sock = true

/-- No connection is given up for one that does not come about: where connecting fails, the
engine is not connected. -/
def ReplacesNone (e : Engine L) : Call Frame → Prop
  | .connect outcome _ => outcome ≠ .connected → e.connected = false
  | _ => True

/-! ### Connecting -/

/-- Connecting fails at one of four points, and leaves no socket. -/
theorem aeNetConnect_cases (net : Net) (outcome : NetOutcome) :
    outcome = .connected ∧ aeNetConnect net outcome = (⟨true, true⟩, true) ∨
    outcome ≠ .connected ∧ (aeNetConnect net outcome).1.sock = false ∧
      (aeNetConnect net outcome).2 = false := by
  obtain ⟨sock, connected⟩ := net
  cases outcome with
  | connected => exact .inl ⟨rfl, rfl⟩
  | unresolved => cases sock <;> exact .inr ⟨by decide, rfl, rfl⟩
  | _ => exact .inr ⟨by decide, rfl, rfl⟩

/-- The call connects or disconnects. -/
def Call.Links : Call Frame → Prop
  | .connect .. => True
  | .disconnect => True
  | _ => False

/-- Only connecting and disconnecting touch the connection. -/
theorem connection_call (e : Engine L) {c : Call Frame} (hc : ¬ c.Links) :
    (e.call c).1.connected = e.connected ∧ (e.call c).1.network = e.network := by
  have hcontrol : (e.call c).1.control.connected = e.control.connected ∧
      (e.call c).1.control.network = e.control.network := by
    cases c with
    | connect outcome now => exact absurd trivial hc
    | disconnect => exact absurd trivial hc
    | process t =>
      obtain ⟨_, _, _, h⟩ := control_tick e t
      show (aeEngineProcess e t).1.control.connected = _ ∧ (aeEngineProcess e t).1.control.network = _
      rw [h]
      exact ⟨rfl, rfl⟩
    | joinChannel channelId =>
      rw [control_call e id]
      dsimp only [Control.after]
      split
      · split <;> exact ⟨rfl, rfl⟩
      · exact ⟨rfl, rfl⟩
    | leaveAllChannels =>
      rw [control_call e id]
      dsimp only [Control.after]
      split <;> exact ⟨rfl, rfl⟩
    | startTransmit channelId =>
      rw [control_call e id]
      dsimp only [Control.after]
      split <;> exact ⟨rfl, rfl⟩
    | _ =>
      rw [control_call e id]
      exact ⟨rfl, rfl⟩
  exact hcontrol

theorem connection_connect (e : Engine L) (outcome : NetOutcome) (now : BitVec 64) :
    (e.call (.connect outcome now)).1.connected = ((aeNetConnect e.network outcome).2 || e.connected) ∧
      (e.call (.connect outcome now)).1.network = (aeNetConnect e.network outcome).1 := by
  have h := control_call e (c := .connect outcome now) id
  exact ⟨congrArg Control.connected h, congrArg Control.network h⟩

theorem usable_off {e : Engine L} (hoff : e.connected = false) (hnetwork : e.network = ⟨false, false⟩) :
    Usable e := by
  unfold Usable aeEngineIsConnected
  rw [hoff, hnetwork]
  simp

/-- A call that replaces no connection leaves the engine usable. -/
theorem usable_call {e : Engine L} {c : Call Frame} (h : Usable e) (hc : ReplacesNone e c) :
    Usable (e.call c).1 := by
  by_cases hlinks : c.Links
  · cases c with
    | connect outcome now =>
      obtain ⟨hconnected, hnetwork⟩ := connection_connect e outcome now
      unfold Usable aeEngineIsConnected
      rw [hconnected, hnetwork]
      rcases aeNetConnect_cases e.network outcome with ⟨-, heq⟩ | ⟨hfail, hsock, hok⟩
      · rw [heq]
        simp
      · rw [hok, hsock, hc hfail]
        simp
    | disconnect => exact usable_off rfl rfl
    | _ => exact hlinks.elim
  · obtain ⟨hconnected, hnetwork⟩ := connection_call e hlinks
    unfold Usable aeEngineIsConnected
    rw [hconnected, hnetwork]
    exact h

/-- An engine that fails to replace its connection believes in it. -/
theorem not_usable_connect {e : Engine L} {outcome : NetOutcome} (now : BitVec 64)
    (hon : e.connected = true) (hfail : outcome ≠ .connected) :
    ¬ Usable (e.call (.connect outcome now)).1 := by
  obtain ⟨hconnected, hnetwork⟩ := connection_connect e outcome now
  unfold Usable aeEngineIsConnected
  rw [hconnected, hnetwork]
  rcases aeNetConnect_cases e.network outcome with ⟨hok, -⟩ | ⟨-, hsock, -⟩
  · exact absurd hok hfail
  · rw [hsock, hon]
    simp

/-! ### A run -/

theorem usable_create [Zero Frame] {config : Option AeConfig} {e : Engine L}
    (h : aeEngineCreate L config = some e) : Usable e :=
  usable_off (idle_create h).connected (idle_create h).network

/-- **Connected means usable**, in every state of a run of a new engine, exactly if no
connection is given up in it for one that does not come about. -/
theorem usable_iff [Zero Frame] {config : Option AeConfig} {e : Engine L}
    (hnew : aeEngineCreate L config = some e) (calls : List (Call Frame)) :
    (∀ done, done <+: calls → Usable (Machine.run Engine.call e done)) ↔
      Machine.Along Engine.call ReplacesNone e calls := by
  refine Machine.kept_iff_along (P := fun _ => True) (fun _ h => h)
    (fun e c _ h hc => usable_call h hc) ?_ (usable_create hnew) fun _ _ => trivial
  intro e c _ _ hc
  cases c with
  | connect outcome now =>
    have hlost : outcome ≠ .connected ∧ e.connected ≠ false := by
      simpa [ReplacesNone] using hc
    exact not_usable_connect now (by simpa using hlost.2) hlost.1
  | _ => exact absurd trivial hc

/-- A client whose connection fails, that hangs up, and then connects. -/
def redial : List (Call (ℚ × ℚ)) :=
  [.connect .refused 0, .connect .connected 0, .disconnect, .connect .unresolved 0]

theorem usable_iff_redial : Usable (Machine.run Engine.call newEngine redial) := by
  refine (usable_iff create_newEngine redial).mpr ?_ redial (List.prefix_refl _)
  exact ⟨fun _ => rfl, fun h => absurd rfl h, trivial, fun _ => rfl, trivial⟩

/-- A client that is connected connects to a host that is not found. -/
theorem connected_without_socket :
    ¬ Usable (Machine.run Engine.call newEngine [.connect .connected 0, .connect .unresolved 0]) :=
  fun h => absurd (h.mp rfl).2 (by decide)

end AudioPlatform.Core
