import Mathlib.Logic.Function.Basic
import AudioPlatform.Wire.BigEndian

/-! Wire formats of the server: the UDP routing header and the signaling messages. -/
namespace AudioPlatform.Server

/-! ### UDP routing header -/

/-- Size of the routing header that precedes every UDP packet. -/
def routingHeaderSize : Nat := 20

/-- Maximum UDP packet size accepted (header and encrypted payload). -/
def maxUdpPacketSize : Nat := 1500

inductive PacketType where
  | audio
  | keepalive
  | ping
  | pong
  deriving DecidableEq, Repr

def PacketType.toU8 : PacketType → Byte
  | .audio => 0
  | .keepalive => 1
  | .ping => 2
  | .pong => 3

def PacketType.fromU8 (v : Byte) : Option PacketType :=
  if v = 0 then some .audio
  else if v = 1 then some .keepalive
  else if v = 2 then some .ping
  else if v = 3 then some .pong
  else none

structure RoutingHeader where
  serverId : BitVec 32
  channelId : BitVec 32
  clientId : BitVec 64
  packetType : Byte
  flags : Byte
  length : BitVec 16
  deriving DecidableEq, Repr

def u16FromBeBytes (a b : Byte) : BitVec 16 := a ++ b

def u32FromBeBytes (a b c d : Byte) : BitVec 32 := a ++ b ++ c ++ d

def u64FromBeBytes (a b c d e f g h : Byte) : BitVec 64 := a ++ b ++ c ++ d ++ e ++ f ++ g ++ h

theorem ofBytes_two (a b : Byte) : BigEndian.ofBytes 16 [a, b] = u16FromBeBytes a b := by
  apply BitVec.eq_of_getLsbD_eq
  intro i hi
  unfold u16FromBeBytes
  simp only [BigEndian.ofBytes, BitVec.getLsbD_or, BitVec.getLsbD_shiftLeft, BitVec.getLsbD_setWidth,
    BitVec.getLsbD_append, List.length_cons, List.length_nil]
  grind

theorem ofBytes_four (a b c d : Byte) :
    BigEndian.ofBytes 32 [a, b, c, d] = u32FromBeBytes a b c d := by
  apply BitVec.eq_of_getLsbD_eq
  intro i hi
  unfold u32FromBeBytes
  simp only [BigEndian.ofBytes, BitVec.getLsbD_or, BitVec.getLsbD_shiftLeft, BitVec.getLsbD_setWidth,
    BitVec.getLsbD_append, List.length_cons, List.length_nil]
  grind

theorem ofBytes_eight (a b c d e f g h : Byte) :
    BigEndian.ofBytes 64 [a, b, c, d, e, f, g, h] = u64FromBeBytes a b c d e f g h := by
  apply BitVec.eq_of_getLsbD_eq
  intro i hi
  unfold u64FromBeBytes
  simp only [BigEndian.ofBytes, BitVec.getLsbD_or, BitVec.getLsbD_shiftLeft, BitVec.getLsbD_setWidth,
    BitVec.getLsbD_append, List.length_cons, List.length_nil]
  grind

/-- `none` if the slice is shorter than the header. -/
def RoutingHeader.parse (buf : List Byte) : Option RoutingHeader :=
  if buf.length < routingHeaderSize then none
  else
    let b := fun i => buf.getD i 0
    some
      { serverId := u32FromBeBytes (b 0) (b 1) (b 2) (b 3)
        channelId := u32FromBeBytes (b 4) (b 5) (b 6) (b 7)
        clientId := u64FromBeBytes (b 8) (b 9) (b 10) (b 11) (b 12) (b 13) (b 14) (b 15)
        packetType := b 16
        flags := b 17
        length := u16FromBeBytes (b 18) (b 19) }

theorem RoutingHeader.parse_isSome (buf : List Byte) :
    (RoutingHeader.parse buf).isSome ↔ routingHeaderSize ≤ buf.length := by
  unfold RoutingHeader.parse
  split <;> simp <;> omega

theorem PacketType.fromU8_toU8 (t : PacketType) : PacketType.fromU8 t.toU8 = some t := by
  cases t <;> rfl

/-! ### Signaling messages -/

abbrev ClientId := String
abbrev ChannelId := String

/-- Client to server. -/
inductive ClientMessage where
  | auth (token : String)
  | joinChannel (channelId : ChannelId)
  | leaveChannel (channelId : ChannelId)
  | startTransmit (channelId : ChannelId)
  | stopTransmit (channelId : ChannelId)
  | ping (timestamp : BitVec 64)
  deriving DecidableEq, Repr

structure ChannelMemberInfo where
  clientId : ClientId
  userName : String
  speaking : Bool
  deriving DecidableEq, Repr

/-- Server to client. -/
inductive ServerMessage where
  | authOk (clientId : ClientId) (udpPort : BitVec 16)
  | channelJoined (channelId : ChannelId) (members : List ChannelMemberInfo)
  | channelLeft (channelId : ChannelId)
  | userJoined (channelId : ChannelId) (clientId : ClientId) (userName : String)
  | userLeft (channelId : ChannelId) (clientId : ClientId)
  | userSpeaking (channelId : ChannelId) (clientId : ClientId)
  | userStopped (channelId : ChannelId) (clientId : ClientId)
  | pong (timestamp serverTime : BitVec 64)
  | error (message : String)
  deriving DecidableEq, Repr

end AudioPlatform.Server
