import AudioPlatform.Server.State

/-! The operations on channels, action by action in the order of the source. -/
namespace AudioPlatform.Server

/-- Send a message to every client in `memberIds` except `excludeId`, holding the
recipient's guard across the send. -/
def broadcastToMembers (memberIds : List ClientId) (excludeId : ClientId) (msg : ServerMessage) :
    Prog Unit :=
  match memberIds with
  | [] => return
  | mid :: rest => do
    if mid ≠ excludeId then
      if let some _ ← perform (.getClient mid false) then
        -- A failed send is only logged.
        let _ ← perform (.send mid msg)
        perform (.dropClient mid false)
    broadcastToMembers rest excludeId msg

/-- The members that are still registered, as they are reported to a joining client. -/
def collectMemberInfo (memberIds : List ClientId) : Prog (List ChannelMemberInfo) :=
  match memberIds with
  | [] => return []
  | mid :: rest => do
    let client ← perform (.readClient mid)
    let infos ← collectMemberInfo rest
    return match client with
      | some c => ⟨c.id, c.userName, c.speaking⟩ :: infos
      | none => infos

def channelMissing (channelId : ChannelId) : String :=
  "channel '" ++ channelId ++ "' does not exist"

/-- Add a client to a channel. Returns the members for the `channelJoined` reply
and broadcasts `userJoined` to the members that were there. -/
def joinChannel (clientId : ClientId) (channelId : ChannelId) :
    Prog (Except String (List ChannelMemberInfo)) := do
  let some channel ← perform (.getChannel channelId true)
    | return .error (channelMissing channelId)
  let some client ← perform (.readClient clientId)
    | do
      perform (.dropChannel channelId true)
      return .error "client not found"
  if let some current := client.channelId then
    perform (.dropChannel channelId true)
    return .error ("already in channel '" ++ current ++ "'; leave first")
  -- Collected before inserting, so that the broadcast goes to the others.
  let existingMembers ← collectMemberInfo channel.members.elems
  let _ ← perform (.insertMember channelId clientId)
  let some client ← perform (.updateClient clientId (.channelId (some channelId)))
    | do
      let e ← perform .panic
      nomatch e
  let memberIds ← perform (.members channelId)
  -- The channel guard is dropped before broadcasting.
  perform (.dropChannel channelId true)
  broadcastToMembers memberIds clientId (.userJoined channelId client.id client.userName)
  match ← perform (.readClient clientId) with
  | some c => return .ok (existingMembers ++ [⟨c.id, c.userName, c.speaking⟩])
  | none => return .ok existingMembers

/-- Mark a client as no longer transmitting. -/
def stopTransmit (clientId : ClientId) (channelId : ChannelId) : Prog (Except String Unit) := do
  let some channel ← perform (.getChannel channelId false)
    | return .error (channelMissing channelId)
  perform (.dropChannel channelId false)
  if clientId ∉ channel.members then
    return .error "not in that channel"
  let memberIds := channel.members.elems
  let some client ← perform (.updateClient clientId (.speaking false))
    | return .error "client not found"
  if client.speaking then
    broadcastToMembers memberIds clientId (.userStopped channelId clientId)
  return .ok ()

/-- Mark a client as transmitting in a channel. -/
def startTransmit (clientId : ClientId) (channelId : ChannelId) : Prog (Except String Unit) := do
  let some channel ← perform (.getChannel channelId false)
    | return .error (channelMissing channelId)
  perform (.dropChannel channelId false)
  if clientId ∉ channel.members then
    return .error "not in that channel"
  let memberIds := channel.members.elems
  let _ ← perform (.updateClient clientId (.speaking true))
  broadcastToMembers memberIds clientId (.userSpeaking channelId clientId)
  return .ok ()

/-- Remove a client from a channel, after it has stopped transmitting there.
Broadcasts `userLeft` to the members that remain. -/
def leaveChannel (clientId : ClientId) (channelId : ChannelId) : Prog (Except String Unit) := do
  -- The outcome of stopping is discarded.
  let _ ← stopTransmit clientId channelId
  let some _ ← perform (.getChannel channelId true)
    | return .error (channelMissing channelId)
  let removed ← perform (.removeMember channelId clientId)
  if !removed then
    perform (.dropChannel channelId true)
    return .error "not in that channel"
  let memberIds ← perform (.members channelId)
  perform (.dropChannel channelId true)
  let _ ← perform (.updateClient clientId (.channelId none))
  broadcastToMembers memberIds clientId (.userLeft channelId clientId)
  return .ok ()

/-- The second half of `removeClient`: the record and the UDP bookkeeping. -/
def removeRecord (clientId : ClientId) : Prog Unit := do
  if let some client ← perform (.removeClient clientId) then
    if let some addr := client.udpAddr then
      perform (.removeUdpAddr addr)
    perform (.removeUdpId client.udpClientId)

/-- Disconnect cleanup: leave the channel the client is in and remove all bookkeeping. -/
def removeClient (clientId : ClientId) : Prog Unit := do
  let client ← perform (.readClient clientId)
  if let some channelId := client.bind Client.channelId then
    let _ ← leaveChannel clientId channelId
  removeRecord clientId

/-- The addresses of the members that are registered, have an address and do not
use the numeric id `excludeClientUdpId`. -/
def forwardTargets (excludeClientUdpId : BitVec 64) (memberIds : List ClientId) :
    Prog (List SocketAddr) :=
  match memberIds with
  | [] => return []
  | mid :: rest => do
    let client ← perform (.readClient mid)
    let targets ← forwardTargets excludeClientUdpId rest
    match client with
    | some c =>
      if c.udpClientId ≠ excludeClientUdpId then
        return c.udpAddr.toList ++ targets
      else
        return targets
    | none => return targets

/-- The name of the channel a header's number stands for. -/
def channelName (channelId : BitVec 32) : ChannelId := "channel-" ++ toString channelId.toNat

def collectForwardTargets (channelId : BitVec 32) (excludeClientUdpId : BitVec 64) :
    Prog (List SocketAddr) := do
  let some channel ← perform (.getChannel (channelName channelId) false)
    | return []
  let targets ← forwardTargets excludeClientUdpId channel.members.elems
  perform (.dropChannel (channelName channelId) false)
  return targets

end AudioPlatform.Server
