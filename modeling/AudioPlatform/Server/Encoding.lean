import AudioPlatform.Server.Protocol
import AudioPlatform.Wire.Json

/-! The texts that the server writes: its messages as JSON, and client ids.

A message is an object whose first field is the tag. A client id is a UUID in its
hyphenated form, and the numeric id of a client is the first half of its UUID. -/
namespace AudioPlatform.Server
open Wire Wire.Json

/-! ### Messages -/

def ServerMessage.tag : ServerMessage → String
  | .authOk .. => "auth_ok"
  | .channelJoined .. => "channel_joined"
  | .channelLeft .. => "channel_left"
  | .userJoined .. => "user_joined"
  | .userLeft .. => "user_left"
  | .userSpeaking .. => "user_speaking"
  | .userStopped .. => "user_stopped"
  | .pong .. => "pong"
  | .error .. => "error"

def ChannelMemberInfo.toJson (info : ChannelMemberInfo) : Value :=
  .object
    [(utf8 "client_id", .string (utf8 info.clientId)),
      (utf8 "user_name", .string (utf8 info.userName)),
      (utf8 "speaking", .bool info.speaking)]

/-- The fields of a message after its tag, in the order of their declaration. -/
def ServerMessage.fields : ServerMessage → List (List Byte × Value)
  | .authOk clientId udpPort =>
    [(utf8 "client_id", .string (utf8 clientId)), (utf8 "udp_port", .number udpPort.toNat)]
  | .channelJoined channelId members =>
    [(utf8 "channel_id", .string (utf8 channelId)),
      (utf8 "members", .array (members.map ChannelMemberInfo.toJson))]
  | .channelLeft channelId => [(utf8 "channel_id", .string (utf8 channelId))]
  | .userJoined channelId clientId userName =>
    [(utf8 "channel_id", .string (utf8 channelId)), (utf8 "client_id", .string (utf8 clientId)),
      (utf8 "user_name", .string (utf8 userName))]
  | .userLeft channelId clientId | .userSpeaking channelId clientId
  | .userStopped channelId clientId =>
    [(utf8 "channel_id", .string (utf8 channelId)), (utf8 "client_id", .string (utf8 clientId))]
  | .pong timestamp serverTime =>
    [(utf8 "timestamp", .number timestamp.toNat), (utf8 "server_time", .number serverTime.toNat)]
  | .error message => [(utf8 "message", .string (utf8 message))]

def ServerMessage.toJson (m : ServerMessage) : Value :=
  .object ((utf8 "type", .string (utf8 m.tag)) :: m.fields)

/-- What `Client::send` puts into a WebSocket text frame. -/
def ServerMessage.text (m : ServerMessage) : List Byte := m.toJson.write

example : (ServerMessage.error "no \"room\"").text =
    utf8 "\x7b\"type\":\"error\",\"message\":\"no \\\"room\\\"\"\x7d" := by decide

/-! ### Requests -/

def ClientMessage.tag : ClientMessage → String
  | .auth _ => "auth"
  | .joinChannel _ => "join_channel"
  | .leaveChannel _ => "leave_channel"
  | .startTransmit _ => "start_transmit"
  | .stopTransmit _ => "stop_transmit"
  | .ping _ => "ping"

def ClientMessage.field : ClientMessage → List Byte × Value
  | .auth token => (utf8 "token", .string (utf8 token))
  | .joinChannel channelId | .leaveChannel channelId | .startTransmit channelId
  | .stopTransmit channelId => (utf8 "channel_id", .string (utf8 channelId))
  | .ping timestamp => (utf8 "timestamp", .number timestamp.toNat)

/-- The JSON that is parsed as the message: its tag and its field, compactly. -/
def ClientMessage.text (m : ClientMessage) : List Byte :=
  (Value.object [(utf8 "type", .string (utf8 m.tag)), m.field]).write

/-! ### UUIDs -/

abbrev Uuid := BitVec 128

def Uuid.asBytes (uuid : Uuid) : List Byte := BigEndian.toBytes 16 uuid

def hexChar (d : Nat) : Char := if d < 10 then Char.ofNat (0x30 + d) else Char.ofNat (0x57 + d)

/-- Bytes in lower-case hexadecimal. -/
def hexChars (bytes : List Byte) : List Char :=
  bytes.flatMap fun b => [hexChar (b.toNat / 16), hexChar (b.toNat % 16)]

/-- Eight digits, three times four and twelve, with hyphens between them. -/
def hyphenated (bytes : List Byte) : List Char :=
  hexChars (bytes.take 4) ++ '-' :: hexChars ((bytes.drop 4).take 2) ++
    '-' :: hexChars ((bytes.drop 6).take 2) ++ '-' :: hexChars ((bytes.drop 8).take 2) ++
    '-' :: hexChars (bytes.drop 10)

def Uuid.toString (uuid : Uuid) : ClientId := String.ofList (hyphenated uuid.asBytes)

/-- The numeric id for a client id; `parseStr` is the parser of the `uuid` crate. A client id
that does not parse is a panic. -/
def deriveUdpId (parseStr : String → Option Uuid) (uuidStr : ClientId) : Option (BitVec 64) :=
  (parseStr uuidStr).map fun uuid =>
    let b := fun i => uuid.asBytes.getD i 0
    u64FromBeBytes (b 0) (b 1) (b 2) (b 3) (b 4) (b 5) (b 6) (b 7)

/-! ### The text of a UUID -/

/-- Bytes in hexadecimal, as bytes. -/
def hexText (bytes : List Byte) : List Byte :=
  bytes.flatMap fun b => [hexDigit (b.toNat / 16), hexDigit (b.toNat % 16)]

def hyphen : Byte := 0x2d

theorem hexChar_ascii {d : Nat} (h : d < 16) :
    (hexChar d).toNat < 0x80 ∧ BitVec.ofNat 8 (hexChar d).toNat = hexDigit d := by
  revert d
  decide

theorem hexChars_ascii (bytes : List Byte) : ∀ c ∈ hexChars bytes, c.toNat < 0x80 := by
  intro c hc
  obtain ⟨b, -, hc⟩ := List.mem_flatMap.mp hc
  have hb := b.isLt
  simp only [List.mem_cons, List.not_mem_nil, or_false] at hc
  rcases hc with rfl | rfl
  · exact (hexChar_ascii (by omega)).1
  · exact (hexChar_ascii (by omega)).1

theorem map_hexChars (bytes : List Byte) :
    (hexChars bytes).map (fun c => BitVec.ofNat 8 c.toNat) = hexText bytes := by
  unfold hexChars hexText
  rw [List.map_flatMap]
  congr 1
  funext b
  have hb := b.isLt
  rw [List.map_cons, List.map_cons, (hexChar_ascii (by omega)).2, (hexChar_ascii (by omega)).2]
  rfl

theorem utf8_toString (uuid : Uuid) : utf8 uuid.toString =
    hexText (uuid.asBytes.take 4) ++ hyphen :: (hexText ((uuid.asBytes.drop 4).take 2) ++
      hyphen :: (hexText ((uuid.asBytes.drop 6).take 2) ++
        hyphen :: (hexText ((uuid.asBytes.drop 8).take 2) ++
          hyphen :: hexText (uuid.asBytes.drop 10)))) := by
  unfold Uuid.toString
  rw [utf8_ofList]
  · unfold hyphenated
    simp only [List.map_append, List.map_cons, map_hexChars, List.append_assoc, List.cons_append]
    rfl
  · intro c hc
    unfold hyphenated at hc
    simp only [List.mem_append, List.mem_cons] at hc
    have hhyphen : c = '-' → c.toNat < 0x80 := by
      rintro rfl
      decide
    have hhex := fun bytes => hexChars_ascii bytes c
    grind

/-- Neither a quote nor a backslash nor a control character, and a hyphen. -/
theorem inert_toString (uuid : Uuid) : Inert (utf8 uuid.toString) := by
  have hdigit : ∀ d < 16, hexDigit d ≠ quote ∧ hexDigit d ≠ backslash ∧ ¬ hexDigit d < 0x20 := by
    decide
  have hhex : ∀ bytes, Plain (hexText bytes) := by
    intro bytes c hc
    obtain ⟨b, -, hc⟩ := List.mem_flatMap.mp hc
    have hb := b.isLt
    simp only [List.mem_cons, List.not_mem_nil, or_false] at hc
    rcases hc with rfl | rfl
    · exact hdigit _ (by omega)
    · exact hdigit _ (by omega)
  have hhyphen : hyphen ≠ quote ∧ hyphen ≠ backslash ∧ ¬ hyphen < 0x20 := by decide
  rw [utf8_toString]
  constructor
  · intro c hc
    simp only [List.mem_append, List.mem_cons] at hc
    rcases hc with hc | rfl | hc | rfl | hc | rfl | hc | rfl | hc
    · exact hhex _ c hc
    · exact hhyphen
    · exact hhex _ c hc
    · exact hhyphen
    · exact hhex _ c hc
    · exact hhyphen
    · exact hhex _ c hc
    · exact hhyphen
    · exact hhex _ c hc
  · intro h
    exact absurd (h hyphen (List.mem_append_right _ (List.mem_cons_self ..))) (by decide)

end AudioPlatform.Server
