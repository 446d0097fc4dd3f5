import AudioPlatform.Server.Encoding
import AudioPlatform.Server.State
import AudioPlatform.Windows.Signaling

/-! What the client's events carry of the server's messages.

The ids in a message and its tag are texts that the search passes or reads as they are. What
other people have chosen, a user name or the text of an error, comes last in its message: it
cannot mislead the search, but it is read only up to its first escape. -/
namespace AudioPlatform.Windows
open Wire Wire.Json
open AudioPlatform.Server (ServerMessage ClientId ChannelId Uuid channelNames inert_toString)

/-- A message with ids as the server has them: its three channels, and client ids that are
UUIDs. User names, error texts and numbers are arbitrary. -/
def Sendable : ServerMessage → Prop
  | .authOk clientId _ => ∃ uuid : Uuid, clientId = uuid.toString
  | .channelJoined channelId _ => channelId ∈ channelNames
  | .channelLeft channelId => channelId ∈ channelNames
  | .userJoined channelId clientId _ => channelId ∈ channelNames ∧ ∃ uuid : Uuid, clientId = uuid.toString
  | .userLeft channelId clientId => channelId ∈ channelNames ∧ ∃ uuid : Uuid, clientId = uuid.toString
  | .userSpeaking channelId clientId =>
    channelId ∈ channelNames ∧ ∃ uuid : Uuid, clientId = uuid.toString
  | .userStopped channelId clientId =>
    channelId ∈ channelNames ∧ ∃ uuid : Uuid, clientId = uuid.toString
  | .pong .. | .error _ => True

/-- The event has the tag of the message and each of its fields, the member list apart. -/
def WsEvent.Carries (ev : WsEvent) (m : ServerMessage) : Prop :=
  ev.type = utf8 m.tag ∧
    match m with
    | .authOk clientId udpPort => ev.clientId = utf8 clientId ∧ ev.udpPort = udpPort
    | .channelJoined channelId _ => ev.channelId = utf8 channelId
    | .channelLeft channelId => ev.channelId = utf8 channelId
    | .userJoined channelId clientId userName =>
      ev.channelId = utf8 channelId ∧ ev.clientId = utf8 clientId ∧ ev.userName = utf8 userName
    | .userLeft channelId clientId => ev.channelId = utf8 channelId ∧ ev.clientId = utf8 clientId
    | .userSpeaking channelId clientId =>
      ev.channelId = utf8 channelId ∧ ev.clientId = utf8 clientId
    | .userStopped channelId clientId =>
      ev.channelId = utf8 channelId ∧ ev.clientId = utf8 clientId
    | .pong timestamp serverTime => ev.timestamp = timestamp ∧ ev.serverTime = serverTime
    | .error message => ev.message = utf8 message

/-- The text in a message that is not the server's own; empty if there is none. -/
def freeText : ServerMessage → String
  | .userJoined _ _ userName => userName
  | .error message => message
  | _ => ""

/-! ### Tags and ids -/

/-- The names that are searched for after the tag. -/
def names : List Text :=
  ["client_id", "channel_id", "user_name", "message", "udp_port", "timestamp", "server_time"].map utf8

def tags : List String :=
  ["auth_ok", "channel_joined", "channel_left", "user_joined", "user_left", "user_speaking",
    "user_stopped", "pong", "error"]

theorem tag_mem (m : ServerMessage) : m.tag ∈ tags := by
  cases m <;> simp [ServerMessage.tag, tags]

theorem identifier_tag (m : ServerMessage) : Identifier (utf8 m.tag) := by
  have : ∀ tag ∈ tags, Identifier (utf8 tag) := by decide
  exact this m.tag (tag_mem m)

theorem identifier_name : ∀ name ∈ names, Identifier name := by decide

theorem name_ne_tag (m : ServerMessage) {name : Text} (h : name ∈ names) : name ≠ utf8 m.tag := by
  have : ∀ tag ∈ tags, utf8 tag ∉ names := by decide
  exact fun heq => this m.tag (tag_mem m) (heq ▸ h)

theorem passed_tag (m : ServerMessage) {name : Text} (h : name ∈ names) :
    Passed name (utf8 "type", .string (utf8 m.tag)) := by
  have htype : Identifier (utf8 "type") ∧ utf8 "type" ∉ names := by decide
  exact ⟨htype.1, fun heq => htype.2 (heq ▸ h), (identifier_tag m).plain, name_ne_tag m h⟩

theorem seen_tag (m : ServerMessage) : seen (utf8 m.tag) = utf8 m.tag :=
  (seen_eq_iff _).mpr (identifier_tag m).plain

theorem inert_channel {n : ChannelId} (h : n ∈ channelNames) : Inert (utf8 n) := by
  have : ∀ n ∈ channelNames, Inert (utf8 n) := by decide
  exact this n h

theorem inert_client {c : ClientId} (h : ∃ uuid : Uuid, c = uuid.toString) : Inert (utf8 c) := by
  obtain ⟨uuid, rfl⟩ := h
  exact inert_toString uuid

theorem seen_inert {s : Text} (h : Inert s) : seen s = s := (seen_eq_iff s).mpr h.1

/-! ### Fields -/

section Fields
variable {m : ServerMessage} {name : Text}

theorem read_type (m : ServerMessage) : jsonGetString m.text (utf8 "type") = utf8 m.tag := by
  rw [← seen_tag m]
  exact jsonGetString_field [] (by decide) fun _ h => absurd h List.not_mem_nil

/-- A string field is read as what is seen of it, if the fields between the tag and it are
passed. -/
theorem read_string (before : List (Text × Value)) {after : List (Text × Value)} {s : Text}
    (hfields : m.fields = before ++ (name, .string s) :: after) (hname : name ∈ names)
    (hpassed : ∀ f ∈ before, Passed name f) : jsonGetString m.text name = seen s := by
  unfold ServerMessage.text ServerMessage.toJson
  rw [hfields, ← List.cons_append]
  refine jsonGetString_field _ (identifier_name name hname) fun f hf => ?_
  rcases List.mem_cons.mp hf with rfl | hf
  · exact passed_tag m hname
  · exact hpassed f hf

theorem read_number (before : List (Text × Value)) {after : List (Text × Value)} {n : Nat}
    (hfields : m.fields = before ++ (name, .number n) :: after) (hname : name ∈ names)
    (hpassed : ∀ f ∈ before, Passed name f) (hlt : n < 2 ^ 64) :
    jsonGetUint64 m.text name = BitVec.ofNat 64 n := by
  unfold ServerMessage.text ServerMessage.toJson
  rw [hfields, ← List.cons_append]
  refine jsonGetUint64_field _ (identifier_name name hname) (fun f hf => ?_) hlt
  rcases List.mem_cons.mp hf with rfl | hf
  · exact passed_tag m hname
  · exact hpassed f hf

/-- A string that comes first after the tag. -/
theorem read_first {after : List (Text × Value)} {s : Text}
    (hfields : m.fields = (name, .string s) :: after) (hname : name ∈ names) :
    jsonGetString m.text name = seen s :=
  read_string [] hfields hname fun _ h => absurd h List.not_mem_nil

/-- A client id after a channel id. -/
theorem read_client {after : List (Text × Value)} {n : ChannelId} {c : ClientId}
    (hfields : m.fields = (utf8 "channel_id", .string (utf8 n)) ::
      (utf8 "client_id", .string (utf8 c)) :: after)
    (hn : n ∈ channelNames) (hc : ∃ uuid : Uuid, c = uuid.toString) :
    jsonGetString m.text (utf8 "channel_id") = utf8 n ∧
      jsonGetString m.text (utf8 "client_id") = utf8 c := by
  have hname : utf8 "client_id" ∈ names := by decide
  refine ⟨(read_first hfields (by decide)).trans (seen_inert (inert_channel hn)), ?_⟩
  refine (read_string [_] hfields hname fun f hf => ?_).trans
    (seen_inert (inert_client hc))
  rw [List.mem_singleton.mp hf]
  exact (inert_channel hn).passed (identifier_name _ hname) (identifier_name _ (by decide)) (by decide)

end Fields

/-! ### Events -/

/-- A user name is read as what is seen of it. -/
theorem read_userName {n : ChannelId} {c : ClientId} (userName : String) (hn : n ∈ channelNames)
    (hc : ∃ uuid : Uuid, c = uuid.toString) :
    jsonGetString (ServerMessage.userJoined n c userName).text (utf8 "user_name") =
      seen (utf8 userName) := by
  have hname : utf8 "user_name" ∈ names := by decide
  have hid := identifier_name _ hname
  refine read_string [_, _] rfl hname fun f hf => ?_
  simp only [List.mem_cons, List.not_mem_nil, or_false] at hf
  rcases hf with rfl | rfl
  · exact (inert_channel hn).passed hid (identifier_name _ (by decide)) (by decide)
  · exact (inert_client hc).passed hid (identifier_name _ (by decide)) (by decide)

theorem plain_empty : Plain (utf8 "") := by decide

theorem read_authOk {c : ClientId} (hc : ∃ uuid : Uuid, c = uuid.toString) (port : BitVec 16) :
    jsonGetString (ServerMessage.authOk c port).text (utf8 "client_id") = utf8 c ∧
      jsonGetUint64 (ServerMessage.authOk c port).text (utf8 "udp_port") = port.setWidth 64 := by
  have hname : utf8 "udp_port" ∈ names := by decide
  refine ⟨(read_first rfl (by decide)).trans (seen_inert (inert_client hc)), ?_⟩
  have hport := port.isLt
  refine (read_number [_] rfl hname (fun f hf => ?_) (by omega)).trans ?_
  · rw [List.mem_singleton.mp hf]
    exact (inert_client hc).passed (identifier_name _ hname) (identifier_name _ (by decide))
      (by decide)
  · exact BitVec.ofNat_toNat ..

theorem read_pong (timestamp serverTime : BitVec 64) :
    jsonGetUint64 (ServerMessage.pong timestamp serverTime).text (utf8 "timestamp") = timestamp ∧
      jsonGetUint64 (ServerMessage.pong timestamp serverTime).text (utf8 "server_time") =
        serverTime := by
  have hname : utf8 "server_time" ∈ names := by decide
  have htime : utf8 "timestamp" ∈ names := by decide
  constructor
  · refine (read_number [] rfl htime (fun _ h => absurd h List.not_mem_nil)
      timestamp.isLt).trans ?_
    rw [BitVec.ofNat_toNat, BitVec.setWidth_eq]
  · refine (read_number [_] rfl hname (fun f hf => ?_) serverTime.isLt).trans ?_
    · rw [List.mem_singleton.mp hf]
      exact ⟨identifier_name _ htime, by decide⟩
    · rw [BitVec.ofNat_toNat, BitVec.setWidth_eq]

/-- **What an event carries.** The event of a message that the server can send has the tag of
the message and each of its fields exactly if nothing in the user name or error text needs an
escape. -/
theorem carries_iff (m : ServerMessage) (h : Sendable m) :
    (parseAndDispatch m.text).Carries m ↔ Plain (utf8 (freeText m)) := by
  have htype := read_type m
  unfold WsEvent.Carries parseAndDispatch
  rw [and_iff_right htype]
  cases m with
  | authOk clientId udpPort =>
    obtain ⟨hclient, hport⟩ := read_authOk h udpPort
    dsimp only [freeText]
    refine iff_of_true ⟨hclient, ?_⟩ plain_empty
    rw [hport, BitVec.setWidth_setWidth_of_le _ (by decide), BitVec.setWidth_eq]
  | channelJoined channelId members =>
    have hchannel := read_first (m := .channelJoined channelId members) rfl
      (show utf8 "channel_id" ∈ names by decide)
    rw [seen_inert (inert_channel h)] at hchannel
    dsimp only [freeText]
    exact iff_of_true hchannel plain_empty
  | channelLeft channelId =>
    have hchannel := read_first (m := .channelLeft channelId) rfl
      (show utf8 "channel_id" ∈ names by decide)
    rw [seen_inert (inert_channel h)] at hchannel
    dsimp only [freeText]
    exact iff_of_true hchannel plain_empty
  | userJoined channelId clientId userName =>
    obtain ⟨hchannel, hclient⟩ :=
      read_client (m := .userJoined channelId clientId userName) rfl h.1 h.2
    dsimp only [freeText]
    rw [and_iff_right hchannel, and_iff_right hclient, read_userName userName h.1 h.2]
    exact seen_eq_iff _
  | userLeft channelId clientId =>
    dsimp only [freeText]
    exact iff_of_true (read_client (m := .userLeft channelId clientId) rfl h.1 h.2) plain_empty
  | userSpeaking channelId clientId =>
    dsimp only [freeText]
    exact iff_of_true (read_client (m := .userSpeaking channelId clientId) rfl h.1 h.2) plain_empty
  | userStopped channelId clientId =>
    dsimp only [freeText]
    exact iff_of_true (read_client (m := .userStopped channelId clientId) rfl h.1 h.2) plain_empty
  | pong timestamp serverTime =>
    dsimp only [freeText]
    exact iff_of_true (read_pong timestamp serverTime) plain_empty
  | error message =>
    have hmessage := read_first (m := .error message) rfl (show utf8 "message" ∈ names by decide)
    dsimp only [freeText]
    rw [hmessage]
    exact seen_eq_iff _

/-- The nil UUID, as a client id. -/
def nilId : ClientId := Uuid.toString 0

theorem carries_iff_alice : (parseAndDispatch
    (ServerMessage.userJoined "channel-1" nilId "alice").text).Carries
      (.userJoined "channel-1" nilId "alice") :=
  (carries_iff (.userJoined "channel-1" nilId "alice")
    ⟨List.mem_cons_self .., 0, rfl⟩).mpr (by decide)

/-- A quote in a user name ends it for the client, which takes the escape for its last
character. -/
theorem name_cut_at_quote : ¬ (parseAndDispatch
    (ServerMessage.userJoined "channel-1" nilId "a\"b").text).Carries
      (.userJoined "channel-1" nilId "a\"b") := by
  rintro ⟨-, -, -, hname⟩
  unfold parseAndDispatch at hname
  dsimp only at hname
  rw [read_userName (c := nilId) _ (List.mem_cons_self ..) ⟨0, rfl⟩, seen_eq_iff] at hname
  exact absurd hname (by decide)

end AudioPlatform.Windows
