import AudioPlatform.Android.AudioCallback

/-! The activity of the Android client.

Taps and touches are handled on the main thread, and most of what they do is launched: a coroutine calls the
engine on a worker thread and then goes on, on the main thread or where it is. What is launched proceeds in
any order. A call of the engine is one step, and so is what a tap or a touch does on the main thread: the
engine takes no lock, and nothing is said here of calls that overlap. -/
namespace AudioPlatform.Android
open AudioPlatform.Core Concurrency

variable {Frame : Type} {L : Library Frame}

abbrev ChannelIndex := Fin 3

/-- "channel-1", "channel-2" and "channel-3" -/
def channelIds (index : ChannelIndex) : CString :=
  [0x63, 0x68, 0x61, 0x6E, 0x6E, 0x65, 0x6C, 0x2D, 0x31 + BitVec.ofNat 8 index]

/-- Where a coroutine stands that has not ended. -/
inductive Task where
  | connect
  | connected (result : AeError)
  | updateUI
  | toggle (index : ChannelIndex)
  | leave (index : ChannelIndex)
  | left (index : ChannelIndex)
  | join (index : ChannelIndex)
  | joined (index : ChannelIndex) (result : AeError)
  | toggled
  | startTransmit (channelId : CString)
  | transmitting (channelId : CString)
  | stopTransmit (channelId : CString)
  | stopped
  deriving DecidableEq

inductive MotionAction where
  | down
  | up
  | cancel
  | other
  deriving DecidableEq

/-- The finger is on the button after it. -/
def MotionAction.holds (held : Bool) : MotionAction → Bool
  | .down => true
  | .up => false
  | .cancel => false
  | .other => held

structure MainActivity (L : Library Frame) where
  engine : Engine L
  audio : Bool
  isConnected : Bool
  joinedChannels : List CString
  activeTransmitChannel : Option CString
  connectEnabled : Bool
  pttEnabled : Bool
  /-- A finger is on the button. -/
  held : Bool
  tasks : List Task

namespace MainActivity

/-- The set keeps the order in which its elements came. -/
def add (channels : List CString) (channelId : CString) : List CString :=
  if channels.contains channelId then channels else channels ++ [channelId]

/-- As it is created; the button is enabled with the first channel. -/
def onCreate (engine : Engine L) : MainActivity L :=
  { engine
    audio := false
    isConnected := false
    joinedChannels := []
    activeTransmitChannel := none
    connectEnabled := true
    pttEnabled := false
    held := false
    tasks := [] }

def launch (a : MainActivity L) (task : Task) : MainActivity L := { a with tasks := a.tasks ++ [task] }

def updateUI (a : MainActivity L) : MainActivity L :=
  if a.isConnected then { a with connectEnabled := true }
  else { a with connectEnabled := true, pttEnabled := false }

def onDisconnected (a : MainActivity L) : MainActivity L :=
  updateUI { a with isConnected := false, joinedChannels := [], activeTransmitChannel := none }

/-! ### On the main thread -/

/-- The engine reports that it is disconnected before `nativeDisconnect` returns. -/
def toggleConnection (a : MainActivity L) (host : CString) : MainActivity L :=
  if a.isConnected then
    let a := onDisconnected { a with audio := false, engine := aeEngineDisconnect a.engine }
    updateUI { a with joinedChannels := [], activeTransmitChannel := none }
  else if host.isEmpty then a
  else launch { a with connectEnabled := false } .connect

def toggleChannel (a : MainActivity L) (index : ChannelIndex) : MainActivity L :=
  if !a.isConnected then a else a.launch (.toggle index)

def startTransmitting (a : MainActivity L) : MainActivity L :=
  match a.joinedChannels with
  | [] => a
  | channelId :: _ => a.launch (.startTransmit channelId)

def stopTransmitting (a : MainActivity L) : MainActivity L :=
  match a.activeTransmitChannel with
  | none => a
  | some channelId => a.launch (.stopTransmit channelId)

/-- The listener of the button. -/
def onTouch (a : MainActivity L) : MotionAction → MainActivity L
  | .down => a.startTransmitting
  | .up => a.stopTransmitting
  | .cancel => a.stopTransmitting
  | .other => a

/-! ### Coroutines -/

/-- A coroutine proceeds to where it may have to wait again. What connecting meets is given. -/
def proceed (a : MainActivity L) (outcome : NetOutcome) (now : BitVec 64) :
    Task → MainActivity L × List Task × List (Action Frame)
  | .connect =>
    let (engine, result, sent) := aeEngineConnect a.engine outcome now
    -- `onConnected` is called on the worker thread
    if result = .ok then ({ a with engine, isConnected := true }, [.updateUI, .connected result], sent)
    else ({ a with engine }, [.connected result], sent)
  | .connected result =>
    (if result = .ok then { a with audio := true } else { a with connectEnabled := true }, [], [])
  | .updateUI => (a.updateUI, [], [])
  | .toggle index =>
    (a, if a.joinedChannels.contains (channelIds index) then [.leave index] else [.join index], [])
  | .leave index => ({ a with engine := (aeEngineLeaveChannel a.engine (channelIds index)).1 }, [.left index], [])
  | .left index => ({ a with joinedChannels := a.joinedChannels.erase (channelIds index) }, [.toggled], [])
  | .join index =>
    let (engine, result) := aeEngineJoinChannel a.engine (channelIds index)
    ({ a with engine }, [.joined index result], [])
  | .joined index result =>
    (if result = .ok then { a with joinedChannels := add a.joinedChannels (channelIds index) } else a,
      [.toggled], [])
  | .toggled => ({ a with pttEnabled := !a.joinedChannels.isEmpty }, [], [])
  | .startTransmit channelId =>
    ({ a with engine := (aeEngineStartTransmit a.engine channelId).1 }, [.transmitting channelId], [])
  | .transmitting channelId => ({ a with activeTransmitChannel := some channelId }, [], [])
  | .stopTransmit channelId => ({ a with engine := (aeEngineStopTransmit a.engine channelId).1 }, [.stopped], [])
  | .stopped => ({ a with activeTransmitChannel := none }, [], [])

/-- The coroutine at this place of the list. -/
def resume (a : MainActivity L) (k : Nat) (outcome : NetOutcome) (now : BitVec 64) :
    MainActivity L × List (Action Frame) :=
  match a.tasks[k]? with
  | none => (a, [])
  | some task =>
    let (a, next, sent) := proceed { a with tasks := a.tasks.eraseIdx k } outcome now task
    ({ a with tasks := a.tasks ++ next }, sent)

end MainActivity

/-! ### Events -/

inductive Event (Frame : Type) where
  | tapConnect (host : CString)
  | tapChannel (index : ChannelIndex)
  | touch (action : MotionAction)
  | volume (volume : ℚ)
  | channelVolume (index : ChannelIndex) (volume : ℚ)
  | resume (k : Nat) (outcome : NetOutcome) (now : BitVec 64)
  | callback (cb : Callback Frame)

/-- A button that is not enabled does not tell its listener, and there are callbacks only while the audio
is on. -/
def MainActivity.step (a : MainActivity L) : Event Frame → MainActivity L × List (Action Frame)
  | .tapConnect host => (if a.connectEnabled then a.toggleConnection host else a, [])
  | .tapChannel index => (a.toggleChannel index, [])
  | .touch action =>
    let a := { a with held := action.holds a.held }
    (if a.pttEnabled then a.onTouch action else a, [])
  | .volume volume => ({ a with engine := aeEngineSetMasterVolume a.engine volume }, [])
  | .channelVolume index volume =>
    ({ a with engine := (aeEngineSetChannelVolume a.engine (channelIds index) volume).1 }, [])
  | .resume k outcome now => a.resume k outcome now
  | .callback cb =>
    if a.audio then
      ({ a with engine := Machine.run Engine.call a.engine cb.calls },
        Machine.outputs Engine.call a.engine cb.calls)
    else (a, [])

example : channelIds 0 = channelOne := rfl

end AudioPlatform.Android
