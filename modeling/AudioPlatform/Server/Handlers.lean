import AudioPlatform.Server.Channel

/-! The signaling handler of a connection and the UDP loop. -/
namespace AudioPlatform.Server
open Concurrency

/-- Where a task is between two requests. The UDP loop is always `idle`. -/
inductive Phase where
  /-- Connected, not yet authenticated. -/
  | connecting
  | idle
  | closed
  deriving DecidableEq, Repr

/-! ### WebSocket handler -/

/-- What the receive half of a connection yields after authentication. -/
inductive Incoming where
  | message (m : ClientMessage)
  /-- A text that does not parse, with the parser's error. -/
  | invalid (error : String)
  /-- A close frame, a read error or the end of the stream. -/
  | closed
  deriving DecidableEq, Repr

def sendToClient (clientId : ClientId) (msg : ServerMessage) : Prog Unit := do
  if let some _ ← perform (.getClient clientId false) then
    let _ ← perform (.send clientId msg)
    perform (.dropClient clientId false)

def sendError (clientId : ClientId) (message : String) : Prog Unit :=
  sendToClient clientId (.error message)

/-- The first `auth` message of a connection. The token serves as user name; an
empty one is replaced by the first characters of the id. -/
def authenticate (udpPort : BitVec 16) (udpClientId : BitVec 64) (id : ClientId)
    (token : String) : Prog Phase := do
  let userName := if token.isEmpty then "user-" ++ (id.take 8).copy else token
  let client := Client.new id udpClientId userName
  -- Sent before the client is in any map; on failure the handler returns.
  let sent ← perform (.send id (.authOk id udpPort))
  if !sent then
    return .closed
  perform (.insertClient id client)
  perform (.insertUdpId udpClientId id)
  return .idle

/-- One round of the main message loop; `serverTime` is what the clock reads. -/
def handleIncoming (serverTime : BitVec 64) (clientId : ClientId) : Incoming → Prog Phase
  | .message (.auth _) => do
    sendError clientId "already authenticated"
    return .idle
  | .message (.joinChannel channelId) => do
    match ← joinChannel clientId channelId with
    | .ok members => sendToClient clientId (.channelJoined channelId members)
    | .error e => sendError clientId e
    return .idle
  | .message (.leaveChannel channelId) => do
    match ← leaveChannel clientId channelId with
    | .ok () => sendToClient clientId (.channelLeft channelId)
    | .error e => sendError clientId e
    return .idle
  | .message (.startTransmit channelId) => do
    if let .error e ← startTransmit clientId channelId then
      sendError clientId e
    return .idle
  | .message (.stopTransmit channelId) => do
    if let .error e ← stopTransmit clientId channelId then
      sendError clientId e
    return .idle
  | .message (.ping timestamp) => do
    sendToClient clientId (.pong timestamp serverTime)
    return .idle
  | .invalid e => do
    sendError clientId ("invalid message: " ++ e)
    return .idle
  | .closed => do
    removeClient clientId
    return .closed

/-! ### UDP loop -/

/-- Associate a socket address with the client that uses the numeric id. -/
def registerUdpAddr (udpClientId : BitVec 64) (addr : SocketAddr) : Prog Unit := do
  if let some clientUuid ← perform (.getUdpId udpClientId) then
    if let some client ← perform (.getClient clientUuid true) then
      perform (.setClient clientUuid (.udpAddr addr))
      if client.udpAddr ≠ some addr then
        -- The address changed: update the reverse map.
        if let some oldAddr := client.udpAddr then
          perform (.removeUdpAddr oldAddr)
        perform (.insertUdpAddr addr clientUuid)
      perform (.dropClient clientUuid true)
    perform (.dropUdpId udpClientId)

def sendToAll (targets : List SocketAddr) (bytes : List Byte) : Prog Unit :=
  match targets with
  | [] => return
  | target :: rest => do
    perform (.sendTo target bytes)
    sendToAll rest bytes

/-- One round of the receive loop. -/
def handleDatagram (datagram : List Byte) (srcAddr : SocketAddr) : Prog Unit := do
  let buf := datagram.take maxUdpPacketSize
  if buf.length < routingHeaderSize then
    return
  let some header := RoutingHeader.parse buf
    | return
  let some packetType := PacketType.fromU8 header.packetType
    | return
  registerUdpAddr header.clientId srcAddr
  match packetType with
  | .audio =>
    let targets ← collectForwardTargets header.channelId header.clientId
    sendToAll targets buf
  | .keepalive => return
  | .ping => perform (.sendTo srcAddr (buf.set 16 PacketType.pong.toU8))
  | .pong => return

/-! ### Actions without effect on memberships -/

/-- The messages that tell a client who is in its channel. -/
def ServerMessage.OnRoster : ServerMessage → Prop
  | .channelJoined .. | .channelLeft .. | .userJoined .. | .userLeft .. => True
  | _ => False

/-- The action changes no member set, no channel or speaking field, and no route. -/
def Op.Neutral : Op → Prop
  | .insertMember .. | .removeMember .. | .insertClient .. | .removeClient .. => False
  | .insertUdpId .. | .removeUdpId .. => False
  | .updateClient _ u | .setClient _ u => ∃ a, u = .udpAddr a
  | _ => True

/-- A neutral action that also tells nobody about a channel and releases no member set. -/
def Op.Mute : Op → Prop
  | .send _ msg => ¬ msg.OnRoster
  | .dropChannel _ write => write = false
  | o => o.Neutral

theorem Op.Mute.neutral {o : Op} (h : o.Mute) : o.Neutral := by
  cases o with
  | send | dropChannel => trivial
  | _ => exact h

section All
variable {Q : Op → Prop}

theorem all_broadcast {ids : List ClientId} {ex : ClientId} {msg : ServerMessage}
    (hQ : ∀ d, Q (.getClient d false) ∧ Q (.send d msg) ∧ Q (.dropClient d false)) :
    (broadcastToMembers ids ex msg).All Q := by
  induction ids with
  | nil => trivial
  | cons mid rest ih =>
    unfold broadcastToMembers
    split
    · refine ⟨(hQ mid).1, fun r => ?_⟩
      cases r with
      | none => exact ih
      | some cl => exact ⟨(hQ mid).2.1, fun _ => ⟨(hQ mid).2.2, fun _ => ih⟩⟩
    · exact ih

theorem all_sendToClient {d : ClientId} {msg : ServerMessage}
    (hQ : Q (.getClient d false) ∧ Q (.send d msg) ∧ Q (.dropClient d false)) :
    (sendToClient d msg).All Q := by
  refine ⟨hQ.1, fun r => ?_⟩
  cases r with
  | none => trivial
  | some cl => exact ⟨hQ.2.1, fun _ => ⟨hQ.2.2, fun _ => trivial⟩⟩

theorem all_collect (ids : List ClientId) : (collectMemberInfo ids).All Op.Mute := by
  induction ids with
  | nil => trivial
  | cons mid rest ih =>
    unfold collectMemberInfo
    exact ⟨trivial, fun r => ih.bind fun infos => trivial⟩

theorem all_registerUdpAddr (u : BitVec 64) (a : SocketAddr) :
    (registerUdpAddr u a).All Op.Mute := by
  refine ⟨trivial, fun r => ?_⟩
  cases r with
  | none => trivial
  | some uuid =>
    refine ⟨trivial, fun r => ?_⟩
    cases r with
    | none => exact ⟨trivial, fun _ => trivial⟩
    | some client =>
      have close : (do perform (.dropClient uuid true); perform (.dropUdpId u) : Prog Unit).All
          Op.Mute := ⟨trivial, fun _ => ⟨trivial, fun _ => trivial⟩⟩
      refine ⟨⟨a, rfl⟩, fun _ => ?_⟩
      dsimp only [Program.bind]
      split
      · split
        · exact ⟨trivial, fun _ => ⟨trivial, fun _ => close⟩⟩
        · exact ⟨trivial, fun _ => close⟩
      · exact close

theorem all_forwardTargets (u : BitVec 64) (ids : List ClientId) :
    (forwardTargets u ids).All Op.Mute := by
  induction ids with
  | nil => trivial
  | cons mid rest ih =>
    unfold forwardTargets
    refine ⟨trivial, fun r => ih.bind fun targets => ?_⟩
    cases r with
    | none => trivial
    | some cl =>
      dsimp only
      split <;> trivial

theorem all_collectForwardTargets (n : BitVec 32) (u : BitVec 64) :
    (collectForwardTargets n u).All Op.Mute := by
  refine ⟨trivial, fun r => ?_⟩
  cases r with
  | none => trivial
  | some channel =>
    exact (all_forwardTargets u _).bind fun _ => ⟨rfl, fun _ => trivial⟩

theorem all_sendToAll (targets : List SocketAddr) (bytes : List Byte) :
    (sendToAll targets bytes).All Op.Mute := by
  induction targets with
  | nil => trivial
  | cons a rest ih => exact ⟨trivial, fun _ => ih⟩

/-- The UDP loop touches no membership. -/
theorem all_handleDatagram (bytes : List Byte) (src : SocketAddr) :
    (handleDatagram bytes src).All Op.Mute := by
  unfold handleDatagram
  dsimp only
  split
  · trivial
  split
  · rename_i header _
    split
    · rename_i packetType _
      refine (all_registerUdpAddr _ _).bind fun _ => ?_
      cases packetType with
      | audio => exact (all_collectForwardTargets _ _).bind fun _ => all_sendToAll _ _
      | ping => exact ⟨trivial, fun _ => trivial⟩
      | keepalive => trivial
      | pong => trivial
    · trivial
  · trivial

end All

end AudioPlatform.Server
