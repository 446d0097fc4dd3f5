import AudioPlatform.Core.Datagrams
import AudioPlatform.Windows.Console

/-! The console client has no id.

Nothing tells the console's engine which client it is, so it stays the client 0: all that it sends bears that
id, and it takes audio that bears it for its own. So consoles never hear each other, whatever is typed and
whatever the network does. -/
namespace AudioPlatform.Windows
open AudioPlatform.Core AudioPlatform.Server Concurrency Wire

variable {Frame : Type} {L : Library Frame}

/-! ### The id -/

theorem clientId_create [Zero Frame] {config : Option AeConfig} {e : Engine L}
    (h : aeEngineCreate L config = some e) : e.clientId = 0 := by
  unfold aeEngineCreate at h
  simp only [Option.bind_eq_bind, Option.bind_eq_some_iff, Option.pure_def, Option.some.injEq] at h
  obtain ⟨_, -, _, -, _, -, rfl⟩ := h
  rfl

/-- An engine that is told no id keeps the one that it has. -/
theorem clientId_run {e : Engine L} {calls : List (Call Frame)} (h : ∀ c ∈ calls, c.KeepsId) :
    (Machine.run Engine.call e calls).clientId = e.clientId := by
  have hstep : ∀ (r : Engine L) (c : Call Frame), c.KeepsId → r.clientId = e.clientId →
      (r.call c).1.clientId = e.clientId :=
    fun r c hc hr => (numbers_call r hc).2.trans hr
  exact Machine.run_induction hstep rfl h

namespace Console

/-- No command tells the engine an id. -/
theorem keepsId_command (c : Console L) (outcome : NetOutcome) (now : BitVec 64) (command : Command) :
    ∀ d ∈ c.commandCalls outcome now command, d.KeepsId := by
  intro d hd
  cases command with
  | talk idx =>
    unfold commandCalls at hd
    dsimp only at hd
    split at hd
    · rw [List.mem_singleton.mp hd]
      trivial
    · cases hd
  | nothing => cases hd
  | _ =>
    rw [List.mem_singleton.mp hd]
    trivial

theorem keepsId_calls (c : Console L) (input : Input Frame) : ∀ d ∈ c.calls input, d.KeepsId := by
  intro d hd
  cases input with
  | line line outcome now =>
    unfold calls at hd
    dsimp only at hd
    split at hd
    · exact c.keepsId_command outcome now (parse line) d hd
    · cases hd
  | audio call =>
    unfold calls at hd
    dsimp only at hd
    split at hd
    · rename_i hcall
      rw [List.mem_singleton.mp hd]
      cases call with
      | setClientId clientId => simp [Call.ofAudio] at hcall
      | _ => trivial
    · cases hd

theorem keepsId_expansion (c : Console L) (inputs : List (Input Frame)) :
    ∀ d ∈ Machine.expansion step calls c inputs, d.KeepsId := by
  induction inputs generalizing c with
  | nil => exact fun d hd => absurd hd List.not_mem_nil
  | cons input rest ih =>
    intro d hd
    obtain hd | hd := List.mem_append.mp hd
    · exact c.keepsId_calls input d hd
    · exact ih _ d hd

/-- The console's engine is the client 0 all along. -/
theorem clientId_console [Zero Frame] {config : Option AeConfig} {e : Engine L}
    (hnew : aeEngineCreate L config = some e) (inputs : List (Input Frame)) :
    (Machine.run step (new e) inputs).engine.clientId = 0 := by
  rw [← (console_refines (new e) inputs).1, clientId_run ((new e).keepsId_expansion inputs)]
  exact clientId_create hnew

/-- Every datagram that a console sends is one of the client 0. -/
theorem sent_unnamed [Zero Frame] {config : Option AeConfig} {e : Engine L}
    (hnew : aeEngineCreate L config = some e) {inputs : List (Input Frame)} {packet : List Byte} {sock : Bool}
    (hsent : Action.send packet sock ∈ Machine.outputs step (new e) inputs) :
    ∃ hdr, RoutingHeader.parse packet = some hdr ∧ hdr.clientId = 0 := by
  rw [← (console_refines (new e) inputs).2] at hsent
  obtain ⟨before, c, after, hcalls, hsend⟩ := Machine.exists_of_mem_outputs hsent
  obtain ⟨hdr, t, hissues⟩ := datagrams_issued hnew before c hsend
  have hkeeps : ∀ d ∈ before, d.KeepsId := fun d hd =>
    (new e).keepsId_expansion inputs d (hcalls ▸ List.mem_append_left _ hd)
  refine ⟨hdr, hissues.header, ?_⟩
  rw [hissues.clientId, clientId_run hkeeps]
  exact clientId_create hnew

/-- An engine takes nothing in of a datagram that bears its own id. -/
theorem receive_own {r : Engine L} {a : Arrival} {hdr : RoutingHeader}
    (hparse : RoutingHeader.parse a.data = some hdr) (hown : hdr.clientId = r.clientId) :
    (receive r a).2 = [] ∧ (receive r a).1.streams = r.streams := by
  have hheader : packetHeader a.data = some (ofRoutingHeader hdr) := by
    have heq := parseHeader_eq a.data fun _ => 0
    rw [hparse] at heq
    exact heq
  have hdropped : receive r a = (r.holding a, []) ∨ receive r a = (handlePong (r.holding a) a.now, []) := by
    refine receive_other fun hdr' hhdr' _ => ?_
    obtain rfl := Option.some.inj (hheader.symm.trans hhdr')
    exact hown
  obtain h | h := hdropped
  · rw [h]
    exact ⟨rfl, rfl⟩
  · rw [h]
    refine ⟨rfl, ?_⟩
    unfold handlePong
    split
    · rfl
    · rfl

/-- **Consoles never hear each other.** Whatever is typed in two consoles, and whatever else reaches the second
one: what the first one sends bears the id 0, and the second one is the client 0. So where a tick of it takes
in a datagram that the first one has sent, nothing is decoded or buffered, and its streams stay as they are. -/
theorem consoles_unheard {Frame' : Type} {K : Library Frame'} [Zero Frame] [Zero Frame']
    {config config' : Option AeConfig} {e : Engine L} {e' : Engine K}
    (hnew : aeEngineCreate L config = some e) (hnew' : aeEngineCreate K config' = some e')
    {inputs : List (Input Frame)} {packet : List Byte} {sock : Bool}
    (hsent : Action.send packet sock ∈ Machine.outputs step (new e) inputs)
    (inputs' : List (Input Frame')) (t : Tick) :
    (∃ hdr, RoutingHeader.parse packet = some hdr ∧ hdr.clientId = 0) ∧
    (Machine.run step (new e') inputs').engine.clientId = 0 ∧
    ∀ x ∈ handled maxRecvPerTick t.arrivals (transmit (Machine.run step (new e') inputs').engine).1,
      x.2.data = packet → (receive x.1 x.2).2 = [] ∧ (receive x.1 x.2).1.streams = x.1.streams := by
  obtain ⟨hdr, hparse, hid⟩ := sent_unnamed hnew hsent
  refine ⟨⟨hdr, hparse, hid⟩, clientId_console hnew' inputs', fun x hx hdata => ?_⟩
  have hown : x.1.clientId = 0 := by
    have hcontrol : x.1.clientId = (transmit (Machine.run step (new e') inputs').engine).1.clientId :=
      congrArg Control.clientId (control_handled hx)
    rw [hcontrol, clientId_transmit]
    exact clientId_console hnew' inputs'
  exact receive_own (hdata ▸ hparse) (hid.trans hown.symm)

/-- A console that connects and joins "channel-1". -/
def joining : List (Input (ℚ × ℚ)) :=
  [.line (utf8 "connect host\n") .connected 0, .line (utf8 "join 1\n") .connected 0]

/-- One that goes on to talk there. -/
def talking : List (Input (ℚ × ℚ)) :=
  joining ++ [.line (utf8 "talk 1\n") .connected 0, .audio (.writeCapture silence), .audio (.process ⟨[], 0, 0⟩)]

/-- What it says. -/
def wordOf0 : List Byte :=
  [0, 0, 0, 0, 0, 0, 0, 1, 0, 0, 0, 0, 0, 0, 0, 0, 0, 1, 0, 29, 0, 0, 0, 1, 0, 0, 0, 0, 0, 0, 0, 0, 59,
    92, 199, 96, 98, 90, 75, 22, 81, 62, 52, 135, 150, 20, 245, 144, 154]

set_option maxRecDepth 4000 in
theorem sent_wordOf0 : ∃ sock, Action.send wordOf0 sock ∈ Machine.outputs step (new newEngine) talking := by
  have hsent : wordOf0 ∈ audioPackets (Machine.outputs step (new newEngine) talking) := by decide +kernel
  obtain ⟨act, hact, haudio⟩ := List.mem_filterMap.mp hsent
  cases act with
  | send packet sock =>
    unfold Action.audio at haudio
    dsimp only at haudio
    split at haudio
    · split at haudio
      · exact ⟨sock, Option.some.inj haudio ▸ hact⟩
      · cases haudio
    · cases haudio
  | _ => cases haudio

/-- The engine of the one that has joined, as it comes to receive. -/
def joined : Engine toneLibrary := (transmit (Machine.run step (new newEngine) joining).engine).1

/-- One console talks in the channel that the other is in, and is not heard. -/
theorem consoles_unheard_word : joined.channel.active = true ∧ joined.channel.channelIdNum = 1 ∧
    packetChannel wordOf0 = some 1 ∧ ∃ x ∈ handled maxRecvPerTick [arriving wordOf0 (by decide)] joined,
      x = (joined, arriving wordOf0 (by decide)) ∧ (receive x.1 x.2).2 = [] := by
  obtain ⟨sock, hsent⟩ := sent_wordOf0
  obtain ⟨-, -, hunheard⟩ := consoles_unheard create_newEngine create_newEngine hsent joining
    ⟨[arriving wordOf0 (by decide)], 0, 0⟩
  have hsock : joined.network.sock = true := by decide +kernel
  have hmem : (joined, arriving wordOf0 (by decide)) ∈
      handled maxRecvPerTick [arriving wordOf0 (by decide)] joined := by
    show _ ∈ handled (19 + 1) _ joined
    unfold handled
    rw [if_neg (by simp [hsock, arriving, wordOf0])]
    exact List.mem_cons_self ..
  exact ⟨by decide +kernel, by decide +kernel, by decide +kernel, _, hmem, rfl, (hunheard _ hmem rfl).1⟩

end Console

end AudioPlatform.Windows
