import AudioPlatform.Core.Backlog
import AudioPlatform.Windows.Gui
import AudioPlatform.Windows.Signaling
import AudioPlatform.Wire.Words

/-! The console client for Windows.

It reads commands line by line and carries them out on the engine, and keeps for each of three channels
whether it is joined and whether the client transmits in it. The engine is in one channel at most, and leaves
it whatever channel it is told to leave. -/
namespace AudioPlatform.Windows
open AudioPlatform.Core Concurrency Wire

variable {Frame : Type} {L : Library Frame}

/-! ### Reading -/

/-- A line as a string: up to a NUL, without the end of the line. -/
def stripNewline (line : List Byte) : CString :=
  let str := line.takeWhile (· ≠ 0)
  if 1 < str.length ∧ str[str.length - 2]? = some 0x0D then str.take (str.length - 2)
  else if str.getLast? = some 0x0A then str.dropLast
  else str

/-- `atoi` as the runtime of Windows has it: an `int`, or the nearest one. -/
def toInt (str : CString) : Int :=
  let str := str.dropWhile isSpace
  let digits := (if str.head? = some 0x2D ∨ str.head? = some 0x2B then str.tail else str).takeWhile Wire.isDigit
  let magnitude : Int := readDigits digits
  max (-2147483648) (min 2147483647 (if str.head? = some 0x2D then -magnitude else magnitude))

/-- The widths of `cmd` and the four arguments. -/
def widths : List Nat := [63, 255, 255, 255, 255]

def channelArg (arg : CString) : Option ChannelIndex :=
  let ch := toInt arg
  if h : 1 ≤ ch ∧ ch ≤ 3 then some ⟨(ch - 1).toNat, by omega⟩ else none

def volumeArg (arg : CString) : Option Nat :=
  let vol := toInt arg
  if 0 ≤ vol ∧ vol ≤ 100 then some vol.toNat else none

/-- What a line asks for; `nothing` for what only prints. -/
inductive Command where
  | quit
  | connect (host : CString) (udpPort wsPort : Int) (token : CString)
  | disconnect
  | join (idx : ChannelIndex)
  | leave (idx : ChannelIndex)
  | talk (idx : ChannelIndex)
  | stop (idx : ChannelIndex)
  | vol (vol : Nat)
  | chvol (idx : ChannelIndex) (vol : Nat)
  | mute (idx : ChannelIndex)
  | nothing
  deriving DecidableEq, Repr

/-- A command for one channel, or its usage. -/
def forChannel (arg : CString) (command : ChannelIndex → Command) : Command :=
  (channelArg arg).elim .nothing command

/-- The port that is given, or the usual one. -/
def portArg (arg : CString) (usual : Int) : Int := if arg.isEmpty then usual else toInt arg

def tokenArg (arg : CString) : CString := if arg.isEmpty then utf8 "test-token" else arg

/-- The first word that is the name of a command decides. -/
def dispatch (cmd arg1 arg2 arg3 arg4 : CString) : Command :=
  if cmd = utf8 "quit" ∨ cmd = utf8 "exit" ∨ cmd = utf8 "q" then .quit
  else if cmd = utf8 "help" ∨ cmd = utf8 "?" then .nothing
  else if cmd = utf8 "connect" then
    if arg1.isEmpty then .nothing
    else .connect arg1 (portArg arg2 10000) (portArg arg3 8080) (tokenArg arg4)
  else if cmd = utf8 "disconnect" then .disconnect
  else if cmd = utf8 "join" then forChannel arg1 .join
  else if cmd = utf8 "leave" then forChannel arg1 .leave
  else if cmd = utf8 "talk" then forChannel arg1 .talk
  else if cmd = utf8 "stop" then forChannel arg1 .stop
  else if cmd = utf8 "vol" then (volumeArg arg1).elim .nothing .vol
  else if cmd = utf8 "chvol" then forChannel arg1 fun idx => (volumeArg arg2).elim .nothing (.chvol idx)
  else if cmd = utf8 "mute" then forChannel arg1 .mute
  else .nothing

def parse (line : List Byte) : Command :=
  let text := stripNewline line
  if text.isEmpty then .nothing
  else
    let words := scanWords isSpace widths text
    dispatch (words.getD 0 []) (words.getD 1 []) (words.getD 2 []) (words.getD 3 []) (words.getD 4 [])

/-! ### Commands -/

structure Console (L : Library Frame) where
  running : Bool
  engine : Engine L
  channelJoined : ChannelIndex → Bool
  transmitting : ChannelIndex → Bool

namespace Console

def new (engine : Engine L) : Console L := ⟨true, engine, fun _ => false, fun _ => false⟩

/-- The engine is disconnected as the program ends. -/
def quit (c : Console L) : Console L := { c with running := false, engine := aeEngineDisconnect c.engine }

def disconnect (c : Console L) : Console L :=
  { c with
    engine := aeEngineDisconnect c.engine
    channelJoined := fun _ => false
    transmitting := fun _ => false }

def join (c : Console L) (idx : ChannelIndex) : Console L :=
  let (engine, result) := aeEngineJoinChannel c.engine (cString (channelIds idx))
  if result = .ok then { c with engine, channelJoined := Function.update c.channelJoined idx true }
  else { c with engine }

def leave (c : Console L) (idx : ChannelIndex) : Console L :=
  { c with
    engine := (aeEngineLeaveChannel c.engine (cString (channelIds idx))).1
    channelJoined := Function.update c.channelJoined idx false
    transmitting := Function.update c.transmitting idx false }

def talk (c : Console L) (idx : ChannelIndex) : Console L :=
  if !c.channelJoined idx then c
  else
    let (engine, result) := aeEngineStartTransmit c.engine (cString (channelIds idx))
    if result = .ok then { c with engine, transmitting := Function.update c.transmitting idx true }
    else { c with engine }

def stop (c : Console L) (idx : ChannelIndex) : Console L :=
  { c with
    engine := (aeEngineStopTransmit c.engine (cString (channelIds idx))).1
    transmitting := Function.update c.transmitting idx false }

/-- What a command does; connecting meets the network and the clock. -/
def perform (c : Console L) (outcome : NetOutcome) (now : BitVec 64) :
    Command → Console L × List (Action Frame)
  | .quit => (c.quit, [])
  -- what comes of the host and the ports is the outcome
  | .connect .. =>
    let (engine, _, sent) := aeEngineConnect c.engine outcome now
    ({ c with engine }, sent)
  | .disconnect => (c.disconnect, [])
  | .join idx => (c.join idx, [])
  | .leave idx => (c.leave idx, [])
  | .talk idx => (c.talk idx, [])
  | .stop idx => (c.stop idx, [])
  | .vol vol => ({ c with engine := aeEngineSetMasterVolume c.engine (vol / 100) }, [])
  | .chvol idx vol =>
    ({ c with engine := (aeEngineSetChannelVolume c.engine (cString (channelIds idx)) (vol / 100)).1 }, [])
  -- it never unmutes
  | .mute idx => ({ c with engine := (aeEngineSetChannelMuted c.engine (cString (channelIds idx)) true).1 }, [])
  | .nothing => (c, [])

/-- A line is read, or the audio thread makes a call of its own. -/
inductive Input (Frame : Type) where
  | line (line : List Byte) (outcome : NetOutcome) (now : BitVec 64)
  | audio (call : Call Frame)

def step (c : Console L) : Input Frame → Console L × List (Action Frame)
  | .line line outcome now => if c.running then c.perform outcome now (parse line) else (c, [])
  | .audio call =>
    if c.running && call.ofAudio then
      ({ c with engine := (c.engine.call call).1 }, (c.engine.call call).2)
    else (c, [])

/-! ### Calls of the engine -/

/-- The calls that a command makes. -/
def commandCalls (c : Console L) (outcome : NetOutcome) (now : BitVec 64) : Command → List (Call Frame)
  | .quit => [.disconnect]
  | .connect .. => [.connect outcome now]
  | .disconnect => [.disconnect]
  | .join idx => [.joinChannel (cString (channelIds idx))]
  | .leave idx => [.leaveChannel (cString (channelIds idx))]
  | .talk idx => if c.channelJoined idx then [.startTransmit (cString (channelIds idx))] else []
  | .stop idx => [.stopTransmit (cString (channelIds idx))]
  | .vol vol => [.setMasterVolume (vol / 100)]
  | .chvol idx vol => [.setChannelVolume (cString (channelIds idx)) (vol / 100)]
  | .mute idx => [.setChannelMuted (cString (channelIds idx)) true]
  | .nothing => []

def calls (c : Console L) : Input Frame → List (Call Frame)
  | .line line outcome now => if c.running then c.commandCalls outcome now (parse line) else []
  | .audio call => if c.running && call.ofAudio then [call] else []

theorem perform_calls (c : Console L) (outcome : NetOutcome) (now : BitVec 64) (command : Command) :
    Machine.run Engine.call c.engine (c.commandCalls outcome now command) =
        (c.perform outcome now command).1.engine ∧
      Machine.outputs Engine.call c.engine (c.commandCalls outcome now command) =
        (c.perform outcome now command).2 := by
  cases command with
  | connect => exact ⟨rfl, List.append_nil _⟩
  | join idx =>
    refine ⟨?_, rfl⟩
    show (aeEngineJoinChannel c.engine _).1 = (c.join idx).engine
    unfold join
    dsimp only
    split
    · rfl
    · rfl
  | talk idx =>
    show Machine.run Engine.call c.engine (if c.channelJoined idx then _ else _) = (c.talk idx).engine ∧
      Machine.outputs Engine.call c.engine (if c.channelJoined idx then _ else _) = []
    unfold talk
    dsimp only
    cases c.channelJoined idx with
    | false => exact ⟨rfl, rfl⟩
    | true =>
      refine ⟨?_, rfl⟩
      rw [if_pos rfl, if_neg (show ¬ (!true) = true by decide)]
      show (aeEngineStartTransmit c.engine _).1 = _
      split
      · rfl
      · rfl
  | _ => exact ⟨rfl, rfl⟩

theorem step_calls (c : Console L) (input : Input Frame) :
    Machine.run Engine.call c.engine (c.calls input) = (c.step input).1.engine ∧
      Machine.outputs Engine.call c.engine (c.calls input) = (c.step input).2 := by
  cases input with
  | line line outcome now =>
    unfold calls step
    dsimp only
    cases c.running with
    | false => exact ⟨rfl, rfl⟩
    | true => exact c.perform_calls outcome now (parse line)
  | audio call =>
    unfold calls step
    dsimp only
    split
    · exact ⟨rfl, List.append_nil _⟩
    · exact ⟨rfl, rfl⟩

/-- **The console drives the engine by its calls.** In every run, the engine is where the calls of the
commands and of the audio thread take it, and what is sent is what they send. -/
theorem console_refines (c : Console L) (inputs : List (Input Frame)) :
    Machine.run Engine.call c.engine (Machine.expansion step calls c inputs) =
        (Machine.run step c inputs).engine ∧
      Machine.outputs Engine.call c.engine (Machine.expansion step calls c inputs) =
        Machine.outputs step c inputs :=
  ⟨Machine.run_view engine (fun c input => (c.step_calls input).1) inputs,
    Machine.outputs_view engine (fun c input => (c.step_calls input).1) (fun c input => (c.step_calls input).2)
      inputs⟩

end Console

end AudioPlatform.Windows
