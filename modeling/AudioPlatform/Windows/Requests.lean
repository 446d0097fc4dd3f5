import AudioPlatform.Windows.Framing
import AudioPlatform.Server.Encoding

/-! The requests of the Windows client.

Each is printed into a buffer of fixed size, with what it names as it is. So it is the JSON of the
message as long as nothing in it needs an escape and the buffer holds it. -/
namespace AudioPlatform.Windows
open Wire Wire.Json
open AudioPlatform.Server (ClientMessage)

/-- What is printed into a buffer, whose last byte ends the string. -/
def snprintf (size : Nat) (text : Text) : Text := text.take (size - 1)

/-- The requests that name something. -/
def stringMsg (tag field : String) (value : Text) : Text :=
  snprintf 256 (utf8 "\x7b\"type\":\"" ++ utf8 tag ++ utf8 "\",\"" ++ utf8 field ++ utf8 "\":\"" ++
    value ++ utf8 "\"\x7d")

def authMsg (token : Text) : Text := stringMsg "auth" "token" token

def pingMsg (timestamp : BitVec 64) : Text :=
  snprintf 128 (utf8 "\x7b\"type\":\"ping\",\"timestamp\":" ++ decimal timestamp.toNat ++ utf8 "\x7d")

variable {Seed : Type} (rand : Seed → Nat × Seed) (c : WsConnection Seed)

def joinChannel (channelId : Text) : Bool × WsConnection Seed :=
  sendWsText rand c (stringMsg "join_channel" "channel_id" channelId)

def leaveChannel (channelId : Text) : Bool × WsConnection Seed :=
  sendWsText rand c (stringMsg "leave_channel" "channel_id" channelId)

def startTransmit (channelId : Text) : Bool × WsConnection Seed :=
  sendWsText rand c (stringMsg "start_transmit" "channel_id" channelId)

def stopTransmit (channelId : Text) : Bool × WsConnection Seed :=
  sendWsText rand c (stringMsg "stop_transmit" "channel_id" channelId)

def sendPing (timestamp : BitVec 64) : Bool × WsConnection Seed := sendWsText rand c (pingMsg timestamp)

/-! ### What is printed -/

/-- The text for a message. -/
def requestMsg : ClientMessage → Text
  | .auth token => authMsg (utf8 token)
  | .joinChannel channelId => stringMsg "join_channel" "channel_id" (utf8 channelId)
  | .leaveChannel channelId => stringMsg "leave_channel" "channel_id" (utf8 channelId)
  | .startTransmit channelId => stringMsg "start_transmit" "channel_id" (utf8 channelId)
  | .stopTransmit channelId => stringMsg "stop_transmit" "channel_id" (utf8 channelId)
  | .ping timestamp => pingMsg timestamp

/-- What the message names; nothing for a ping. -/
def named : ClientMessage → Text
  | .auth name | .joinChannel name | .leaveChannel name | .startTransmit name | .stopTransmit name => utf8 name
  | .ping _ => []

/-- The text is cut, or it has an escape, or it is that of the message. -/
theorem take_escape_iff (pre s post : Text) (n : Nat) :
    (pre ++ s ++ post).take n = pre ++ escape s ++ post ↔
      Plain s ∧ (pre ++ escape s ++ post).length ≤ n := by
  constructor
  · intro h
    have hlen := congrArg List.length h
    rw [List.length_take] at hlen
    have hplain : Plain s := by
      by_contra hplain
      have := length_lt_escape hplain
      simp only [List.length_append] at hlen
      omega
    exact ⟨hplain, by omega⟩
  · rintro ⟨hplain, hle⟩
    rw [escape_plain hplain] at hle ⊢
    exact List.take_of_length_le hle

/-- An object with a tag and a string. -/
theorem write_tagged {tag field : String} (htag : Plain (utf8 tag)) (hfield : Plain (utf8 field)) (s : Text) :
    (Value.object [(utf8 "type", .string (utf8 tag)), (utf8 field, .string s)]).write =
      utf8 "\x7b\"type\":\"" ++ utf8 tag ++ utf8 "\",\"" ++ utf8 field ++ utf8 "\":\"" ++ escape s ++
        utf8 "\"\x7d" := by
  have htype : Plain (utf8 "type") := by decide
  have hopen : utf8 "\x7b\"type\":\"" = [0x7b, quote] ++ utf8 "type" ++ [quote, colon, quote] := by decide
  have hcomma : utf8 "\",\"" = [quote, comma, quote] := by decide
  have hcolon : utf8 "\":\"" = [quote, colon, quote] := by decide
  have hclose : utf8 "\"\x7d" = [quote, 0x7d] := by decide
  simp only [Value.write, writeFields, writeString, escape_plain htype, escape_plain htag, escape_plain hfield, hopen,
    hcomma, hcolon, hclose, List.append_assoc, List.cons_append, List.nil_append]

theorem stringMsg_iff (tag field : String) (htag : Plain (utf8 tag)) (hfield : Plain (utf8 field)) (s : Text) :
    stringMsg tag field s = (Value.object [(utf8 "type", .string (utf8 tag)), (utf8 field, .string s)]).write ↔
      Plain s ∧ (Value.object [(utf8 "type", .string (utf8 tag)), (utf8 field, .string s)]).write.length < 256 := by
  rw [write_tagged htag hfield, Nat.lt_succ_iff]
  unfold stringMsg snprintf
  exact take_escape_iff _ s _ 255

/-- A ping fits. -/
theorem pingMsg_eq (timestamp : BitVec 64) : pingMsg timestamp = (ClientMessage.ping timestamp).text ∧
    (ClientMessage.ping timestamp).text.length < 256 := by
  have hdigits := length_decimal timestamp.isLt
  have htext : (ClientMessage.ping timestamp).text =
      utf8 "\x7b\"type\":\"ping\",\"timestamp\":" ++ decimal timestamp.toNat ++ utf8 "\x7d" := by
    have hopen : utf8 "\x7b\"type\":\"ping\",\"timestamp\":" =
      [0x7b] ++ writeString (utf8 "type") ++ [colon] ++ writeString (utf8 "ping") ++ [comma] ++
        writeString (utf8 "timestamp") ++ [colon] := by decide
    have hclose : utf8 "\x7d" = [0x7d] := by decide
    simp [ClientMessage.text, ClientMessage.tag, ClientMessage.field, Value.write, writeFields, hopen, hclose]
  have hlen : (utf8 "\x7b\"type\":\"ping\",\"timestamp\":").length = 27 ∧ (utf8 "\x7d").length = 1 := by decide
  rw [htext]
  refine ⟨List.take_of_length_le ?_, ?_⟩
  all_goals
    rw [List.length_append, List.length_append, hlen.1, hlen.2]
    omega

/-- What is printed is the text of the message exactly if the name needs no escape and the buffer holds
it. -/
theorem requestMsg_iff (m : ClientMessage) :
    requestMsg m = m.text ↔ Plain (named m) ∧ m.text.length < 256 := by
  cases m with
  | auth token => exact stringMsg_iff "auth" "token" (by decide) (by decide) _
  | joinChannel n => exact stringMsg_iff "join_channel" "channel_id" (by decide) (by decide) _
  | leaveChannel n => exact stringMsg_iff "leave_channel" "channel_id" (by decide) (by decide) _
  | startTransmit n => exact stringMsg_iff "start_transmit" "channel_id" (by decide) (by decide) _
  | stopTransmit n => exact stringMsg_iff "stop_transmit" "channel_id" (by decide) (by decide) _
  | ping timestamp =>
    exact iff_of_true (pingMsg_eq timestamp).1 ⟨fun _ h => absurd h List.not_mem_nil, (pingMsg_eq timestamp).2⟩

/-- No request is too long for a frame. -/
theorem length_requestMsg (m : ClientMessage) : (requestMsg m).length < 65536 := by
  have htake : ∀ size text, size ≤ 256 → (snprintf size text).length < 65536 := by
    intro size text h
    unfold snprintf
    rw [List.length_take]
    omega
  cases m <;> exact htake _ _ (by decide)

end AudioPlatform.Windows
