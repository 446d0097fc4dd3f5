import AudioPlatform.Windows.Handshake
import AudioPlatform.Windows.Identity

/-! A session of the Windows client.

Once it is let in, the user's requests go out, while the receive thread takes frame after frame off what
the server sends. A request and a turn of the thread are one step each. The requests keep out of each
other by `sendMutex_`, which the thread does not take for its pongs: so what is said of the bytes that go
out holds as long as no pong is written while a request is being sent in pieces. -/
namespace AudioPlatform.Windows
open Concurrency Wire Wire.Json
open AudioPlatform.Server (ClientMessage ServerMessage ChannelId Uuid hexText utf8_toString inert_toString)

variable {Seed : Type} (rand : Seed → Nat × Seed)

/-! ### Calls -/

/-- One turn of `recvLoop`, and the events for the callback; the thread returns when the connection is
down. -/
def recvTurn (c : WsConnection Seed) : WsConnection Seed × List WsEvent :=
  if c.ws.recvThread ≠ .running then (c, [])
  else if !c.ws.connected then ({ c with ws.recvThread := .finished }, [])
  else
    match recvWsMessage rand c with
    | none => ({ c with ws.connected := false, ws.recvThread := .finished }, [disconnectedEvent])
    | some (msg, c) => (c, if msg = [] then [] else [parseAndDispatch msg])

/-- The user asks for something, or the receive thread takes its turn. -/
inductive Use where
  | joinChannel (channelId : ChannelId)
  | leaveChannel (channelId : ChannelId)
  | startTransmit (channelId : ChannelId)
  | stopTransmit (channelId : ChannelId)
  | sendPing (timestamp : BitVec 64)
  | recvTurn
  deriving DecidableEq, Repr

/-- A request is sent as a whole before the thread writes a pong, and the other way round. -/
def WsConnection.use (c : WsConnection Seed) : Use → WsConnection Seed × List WsEvent
  | .joinChannel channelId => ((joinChannel rand c (utf8 channelId)).2, [])
  | .leaveChannel channelId => ((leaveChannel rand c (utf8 channelId)).2, [])
  | .startTransmit channelId => ((startTransmit rand c (utf8 channelId)).2, [])
  | .stopTransmit channelId => ((stopTransmit rand c (utf8 channelId)).2, [])
  | .sendPing timestamp => ((sendPing rand c timestamp).2, [])
  | .recvTurn => recvTurn rand c

/-- What the user asks for. -/
def Use.message : Use → Option ClientMessage
  | .joinChannel channelId => some (.joinChannel channelId)
  | .leaveChannel channelId => some (.leaveChannel channelId)
  | .startTransmit channelId => some (.startTransmit channelId)
  | .stopTransmit channelId => some (.stopTransmit channelId)
  | .sendPing timestamp => some (.ping timestamp)
  | .recvTurn => none

/-- Each request prints its message and sends it. -/
theorem use_message {u : Use} {m : ClientMessage} (h : u.message = some m) (c : WsConnection Seed) :
    c.use rand u = ((sendWsText rand c (requestMsg m)).2, []) := by
  cases u with
  | recvTurn => cases h
  | _ =>
    obtain rfl := Option.some.inj h
    rfl

inductive Act where
  | connect (host : Text) (port : BitVec 16) (token : Text) (net : Net)
  | disconnect
  | use (u : Use)

def WsConnection.act (c : WsConnection Seed) : Act → WsConnection Seed × List Assignment
  | .connect host port token net =>
    ((connect rand c host port token net).1, (connect rand c host port token net).2.2)
  | .disconnect => (disconnect c, [])
  | .use u => ((c.use rand u).1, [])

/-- The turn of the receive thread is its last. -/
def WsConnection.ending (c : WsConnection Seed) : Bool :=
  !c.ws.connected || (recvWsMessage rand c).isNone

/-- What a call is without its bytes. -/
def happenings (c : WsConnection Seed) : Act → List Happening
  | .connect host port token net => [.connect (dial rand c host port token net)]
  | .disconnect => [.disconnect]
  | .use .recvTurn => if c.ending rand then [.loss] else []
  | .use _ => []

section Acts

theorem ws_recvTurn (c : WsConnection Seed) :
    (recvTurn rand c).1.ws = if c.ending rand then c.ws.recvLoopEnds else c.ws := by
  unfold recvTurn WsConnection.ending WsSignaling.recvLoopEnds
  by_cases hrunning : c.ws.recvThread = .running
  · rw [if_neg (not_not_intro hrunning), if_pos hrunning]
    cases hup : c.ws.connected with
    | false =>
      show { c.ws with recvThread := .finished } = { c.ws with connected := false, recvThread := .finished }
      dsimp only
      rw [hup]
    | true =>
      cases hrecv : recvWsMessage rand c with
      | none => rfl
      | some r => exact (recvWsMessage_some hrecv).1
  · rw [if_pos hrunning, if_neg hrunning, ite_self]

theorem act_happenings (c : WsConnection Seed) (a : Act) :
    Machine.run WsSignaling.step c.ws (happenings rand c a) = (c.act rand a).1.ws ∧
      Machine.outputs WsSignaling.step c.ws (happenings rand c a) = (c.act rand a).2 := by
  cases a with
  | connect host port token net =>
    have hdial := connect_dial rand c host port token net
    refine ⟨congrArg Prod.fst hdial.symm, ?_⟩
    exact (List.append_nil _).trans (congrArg (fun r => r.2.2) hdial.symm)
  | disconnect => exact ⟨rfl, rfl⟩
  | use u =>
    cases hu : u.message with
    | some m =>
      have hws : (c.act rand (.use u)).1.ws = c.ws := by
        show (c.use rand u).1.ws = c.ws
        rw [use_message rand hu]
        exact ws_sendWsText rand _ _
      have hnone : happenings rand c (.use u) = [] := by
        cases u with
        | recvTurn => cases hu
        | _ => rfl
      rw [hnone, hws]
      exact ⟨rfl, rfl⟩
    | none =>
      cases u with
      | recvTurn =>
        have hws : (c.act rand (.use .recvTurn)).1.ws = _ := ws_recvTurn rand c
        have hturn : happenings rand c (.use .recvTurn) = if c.ending rand then [.loss] else [] := rfl
        rw [hws, hturn]
        split <;> exact ⟨rfl, rfl⟩
      | _ => cases hu

/-- **The phases are those of the bytes.** Whatever goes over the wire, a run of calls and of turns of
the receive thread takes socket, thread and ids as the run of what happens without the bytes does, with
the same assignments. -/
theorem session_refines (c : WsConnection Seed) (acts : List Act) :
    (Machine.run (WsConnection.act rand) c acts).ws =
        Machine.run WsSignaling.step c.ws (Machine.expansion (WsConnection.act rand) (happenings rand) c acts) ∧
      Machine.outputs (WsConnection.act rand) c acts =
        Machine.outputs WsSignaling.step c.ws
          (Machine.expansion (WsConnection.act rand) (happenings rand) c acts) := by
  have hrun : ∀ (c : WsConnection Seed) a, _ := fun c a => (act_happenings rand c a).1
  have hout : ∀ (c : WsConnection Seed) a, _ := fun c a => (act_happenings rand c a).2
  exact ⟨(Machine.run_view WsConnection.ws hrun acts).symm,
    (Machine.outputs_view WsConnection.ws hrun hout acts).symm⟩

end Acts

/-! ### A connection that comes through -/

section Connects
variable {c : WsConnection Seed} {host token response : Text} {port : BitVec 16}

theorem keyBytes_length (seed : Seed) : (keyBytes rand seed).1.length = 16 := by
  simp [keyBytes]

/-- The request is whole unless the host's name is very long. -/
theorem upgradeRequest_eq {wsKey : Text} (hhost : host.length ≤ 350) (hkey : wsKey.length = 24) :
    upgradeRequest host port wsKey = upgradeText host port wsKey := by
  refine List.take_of_length_le ?_
  have hport := length_decimal (n := port.toNat) (by have := port.isLt; omega)
  have hfixed : (utf8 "GET / HTTP/1.1\r\nHost: ").length = 22 ∧ (utf8 ":").length = 1 ∧
      (utf8 "\r\nUpgrade: websocket\r\nConnection: Upgrade\r\nSec-WebSocket-Key: ").length = 62 ∧
      (utf8 "\r\nSec-WebSocket-Version: 13\r\n\r\n").length = 31 := by decide
  obtain ⟨h₁, h₂, h₃, h₄⟩ := hfixed
  unfold upgradeText
  simp only [List.length_append, h₁, h₂, h₃, h₄]
  omega

/-- The upgrade succeeds if the server answers it. -/
theorem upgrade_response (host : Text) (port : BitVec 16) (hopen : c.outgoing.Open) (hr : Response response)
    (hfound : (find (utf8 "101") response).isSome = true) {rest : List Byte}
    (h : c.incoming.bytes = response ++ rest) :
    (upgrade rand c host port).1 = true ∧ (upgrade rand c host port).2.incoming.bytes = rest ∧
      (upgrade rand c host port).2.outgoing.Open ∧ (upgrade rand c host port).2.outgoing.written =
        c.outgoing.written ++ upgradeRequest host port (base64Encode (keyBytes rand c.seed).1) := by
  obtain ⟨hsent, hwritten, hopen'⟩ :=
    sendAll_open hopen (upgradeRequest host port (base64Encode (keyBytes rand c.seed).1))
  obtain ⟨incoming', hrecv, hrest⟩ := hr.received h
  unfold upgrade
  dsimp only
  rw [hsent, hrecv]
  exact ⟨hfound, hrest, hopen', hwritten⟩

/-- The receive thread runs, and these frames are still to be received. -/
structure Live (c : WsConnection Seed) (frames : List Frame) : Prop where
  sock : c.ws.sock = true
  connected : c.ws.connected = true
  running : c.ws.recvThread = .running
  incoming : c.incoming.bytes = frames.flatMap Frame.encode
  outgoing : c.outgoing.Open

/-- A request goes out as a frame. -/
theorem send_request (hsock : c.ws.sock = true) (hopen : c.outgoing.Open) (m : ClientMessage) :
    ∃ mask outgoing seed, sendWsText rand c (requestMsg m) = (true, { c with outgoing, seed }) ∧
      outgoing.Open ∧ outgoing.written =
        c.outgoing.written ++ (textFrame mask (requestMsg m) (length_requestMsg m)).encode := by
  obtain ⟨hsent, hwritten, hopen'⟩ := sendAll_open hopen
    (textFrame (randomMask rand c.seed).1 (requestMsg m) (length_requestMsg m)).encode
  refine ⟨_, _, (randomMask rand c.seed).2, ?_, hopen', hwritten⟩
  rw [sendWsText_short rand (length_requestMsg m) hsock, hsent]

theorem length_hexText (bytes : List Byte) : (hexText bytes).length = 2 * bytes.length := by
  simp [hexText, List.length_flatMap, Nat.mul_comm]

theorem length_authOk (uuid : Uuid) (udpPort : BitVec 16) :
    (ServerMessage.authOk uuid.toString udpPort).text.length ≤ 1024 * 1024 := by
  have hport := length_decimal (n := udpPort.toNat) (by have := udpPort.isLt; omega)
  have hbytes : uuid.asBytes.length = 16 := BigEndian.length_toBytes uuid
  have hid : (escape (utf8 uuid.toString)).length = 36 := by
    rw [escape_plain (inert_toString uuid).1, utf8_toString]
    simp [length_hexText, hbytes]
  have hwords : (writeString (utf8 "type")).length = 6 ∧ (writeString (utf8 "auth_ok")).length = 9 ∧
      (writeString (utf8 "client_id")).length = 11 ∧ (writeString (utf8 "udp_port")).length = 10 := by decide
  obtain ⟨h₁, h₂, h₃, h₄⟩ := hwords
  simp only [ServerMessage.text, ServerMessage.toJson, ServerMessage.fields, ServerMessage.tag, Value.write,
    writeFields, List.length_cons, List.length_append, h₁, h₂, h₃, h₄, List.length_nil]
  simp only [writeString, List.length_cons, List.length_append, hid, List.length_nil]
  omega

theorem authenticate_answered {c₁ c₂ : WsConnection Seed} (hsend : sendWsText rand c (authMsg token) = (true, c₁))
    (hrecv : recvWsMessage rand c₁ = some (response, c₂))
    (htype : jsonGetString response (utf8 "type") = utf8 "auth_ok") (assigned : List Assignment) :
    authenticate rand c token assigned =
      ({ c₂ with
          ws.clientId := jsonGetString response (utf8 "client_id")
          ws.udpPort := (jsonGetUint64 response (utf8 "udp_port")).setWidth 16
          ws.udpClientId := deriveUdpId (jsonGetString response (utf8 "client_id"))
          ws.recvThread := .running },
        true, assigned ++ [.recvThread c₂.ws.recvThread.joinable]) := by
  unfold authenticate
  rw [hsend]
  dsimp only
  rw [hrecv]
  dsimp only
  rw [if_neg (show ¬ (!true) = true by decide), if_neg (not_not_intro htype)]

/-- The client comes to know its ids from the answer. -/
theorem authenticate_authOk (hsock : c.ws.sock = true) (hconnected : c.ws.connected = true)
    (hopen : c.outgoing.Open) (token : String) {uuid : Uuid} {udpPort : BitVec 16} {hello : Frame}
    (htext : hello.opcode = Frame.opText)
    (hpayload : hello.payload = (ServerMessage.authOk uuid.toString udpPort).text) {frames : List Frame}
    (h : c.incoming.bytes = hello.encode ++ frames.flatMap Frame.encode) (assigned : List Assignment) :
    (authenticate rand c (utf8 token) assigned).2.1 = true ∧
      Live (authenticate rand c (utf8 token) assigned).1 frames ∧
      (authenticate rand c (utf8 token) assigned).1.ws.clientId = utf8 uuid.toString ∧
      (authenticate rand c (utf8 token) assigned).1.ws.udpPort = udpPort ∧
      (authenticate rand c (utf8 token) assigned).1.ws.udpClientId = BigEndian.ofBytes 64 (uuid.asBytes.take 8) ∧
      ∃ mask, (authenticate rand c (utf8 token) assigned).1.outgoing.written = c.outgoing.written ++
        (textFrame mask (requestMsg (.auth token)) (length_requestMsg (.auth token))).encode := by
  obtain ⟨mask, outgoing, seed, hsend, hopen', hwritten⟩ := send_request rand hsock hopen (.auth token)
  have hsend : sendWsText rand c (authMsg (utf8 token)) = (true, { c with outgoing, seed }) := hsend
  obtain ⟨incoming', hrest, hrecv⟩ := recvWsMessage_encode rand (c := { c with outgoing, seed }) hello hsock
    (by rw [htext]; decide) h
  have hends : ¬ Ends hello := by
    rintro (hclose | hlong)
    · rw [htext] at hclose
      exact absurd hclose (by decide)
    · rw [hpayload] at hlong
      exact absurd (length_authOk uuid udpPort) (Nat.not_le.mpr hlong)
  have htextOf : textOf hello = (ServerMessage.authOk uuid.toString udpPort).text := by
    rw [textOf, if_pos htext, hpayload]
  have hanswer : ∀ c : WsConnection Seed, answer rand c hello = c := fun c =>
    if_neg (by rw [htext]; decide)
  rw [if_neg hends, htextOf, hanswer] at hrecv
  obtain ⟨hclient, hport⟩ := read_authOk ⟨uuid, rfl⟩ udpPort
  have htype : jsonGetString (ServerMessage.authOk uuid.toString udpPort).text (utf8 "type") = utf8 "auth_ok" :=
    read_type _
  rw [authenticate_answered rand hsend hrecv htype assigned, hclient, hport, deriveUdpId_toString]
  dsimp only
  refine ⟨rfl, ⟨hsock, hconnected, rfl, hrest, hopen'⟩, rfl, ?_, rfl, mask, hwritten⟩
  rw [BitVec.setWidth_setWidth_of_le _ (by decide), BitVec.setWidth_eq]

/-- A server that lets the client in: its response, the frame with its `authOk`, and the frames after
it. -/
structure Welcoming (net : Net) (response : Text) (uuid : Uuid) (udpPort : BitVec 16) (frames : List Frame) :
    Prop where
  resolves : net.resolves = true
  socket : net.socket = true
  accepts : net.accepts = true
  outgoing : net.outgoing.Open
  answers : Response response
  upgrades : (find (utf8 "101") response).isSome = true
  incoming : ∃ hello : Frame, hello.opcode = Frame.opText ∧
    hello.payload = (ServerMessage.authOk uuid.toString udpPort).text ∧
    net.incoming.bytes = response ++ (hello.encode ++ frames.flatMap Frame.encode)

theorem connect_shaken {c₂ : WsConnection Seed} {net : Net} {assigned : List Assignment}
    (h : doHandshake rand (if c.ws.connected then disconnect c else c) host port net = (c₂, true, assigned)) :
    connect rand c host port token net = authenticate rand { c₂ with ws.connected := true } token assigned := by
  unfold connect
  dsimp only
  rw [h]
  rfl

/-- The client is let in. -/
theorem connect_welcoming {net : Net} {uuid : Uuid} {udpPort : BitVec 16} {frames : List Frame}
    (h : Welcoming net response uuid udpPort frames) (c : WsConnection Seed) (host : Text) (port : BitVec 16)
    (token : String) :
    (connect rand c host port (utf8 token) net).2.1 = true ∧
      Live (connect rand c host port (utf8 token) net).1 frames ∧
      (connect rand c host port (utf8 token) net).1.ws.clientId = utf8 uuid.toString ∧
      (connect rand c host port (utf8 token) net).1.ws.udpPort = udpPort ∧
      (connect rand c host port (utf8 token) net).1.ws.udpClientId =
        BigEndian.ofBytes 64 (uuid.asBytes.take 8) ∧
      ∃ key mask, key.length = 16 ∧ (connect rand c host port (utf8 token) net).1.outgoing.written =
        net.outgoing.written ++ upgradeRequest host port (base64Encode key) ++
          (textFrame mask (requestMsg (.auth token)) (length_requestMsg (.auth token))).encode := by
  obtain ⟨hello, htext, hpayload, hbytes⟩ := h.incoming
  have hshake : ∀ c₁ : WsConnection Seed, (upgrade rand (dialed c₁ net) host port).1 = true →
      doHandshake rand c₁ host port net =
        ((upgrade rand (dialed c₁ net) host port).2, true, [Assignment.sock c₁.ws.sock]) := by
    intro c₁ hup
    unfold doHandshake
    rw [h.resolves, h.socket, h.accepts]
    exact congrArg (fun up => ((upgrade rand (dialed c₁ net) host port).2, up, [Assignment.sock c₁.ws.sock])) hup
  obtain ⟨hup, hrest, hopen, hwritten⟩ := upgrade_response rand
    (c := dialed (if c.ws.connected then disconnect c else c) net) host port h.outgoing h.answers h.upgrades hbytes
  have hws := ws_upgrade rand (dialed (if c.ws.connected then disconnect c else c) net) host port
  rw [connect_shaken rand (hshake _ hup)]
  generalize (if c.ws.connected then disconnect c else c) = c₁ at hrest hopen hwritten hws ⊢
  obtain ⟨hin, hlive, hclient, hport, hudp, mask, hauth⟩ := authenticate_authOk rand
    (c := { (upgrade rand (dialed c₁ net) host port).2 with ws.connected := true })
    (by dsimp only; rw [hws]; rfl) rfl hopen token htext hpayload hrest [Assignment.sock c₁.ws.sock]
  refine ⟨hin, hlive, hclient, hport, hudp, _, mask, keyBytes_length rand c₁.seed, ?_⟩
  rw [hauth, hwritten]
  rfl

end Connects

/-! ### A session -/

/-- A frame that the client sends: whole, masked, a text or a pong. -/
def Goes (f : Frame) : Prop := f.fin = true ∧ f.mask.isSome = true ∧ (f.opcode = Frame.opText ∨ f.opcode = Frame.opPong)

/-- The texts in what is sent. -/
def spoken (frames : List Frame) : List Text :=
  (frames.filter fun f => f.opcode = Frame.opText).map Frame.payload

def pongs (frames : List Frame) : Nat := frames.countP fun f => f.opcode = Frame.opPong

/-- How often the receive thread takes its turn. -/
def turns (uses : List Use) : Nat := uses.count .recvTurn

theorem goes_textFrame (mask : Mask) (text : Text) (h : text.length < 65536) : Goes (textFrame mask text h) :=
  ⟨rfl, rfl, .inl rfl⟩

theorem goes_pongFrame (mask : Mask) : Goes (pongFrame mask) := ⟨rfl, rfl, .inr rfl⟩

section Session
variable {c : WsConnection Seed}

/-- What a run of calls adds to what is sent. -/
structure Sent (before after : List Byte) (messages : List Text) (pings : Nat) : Prop where
  sent : ∃ frames : List Frame, after = before ++ frames.flatMap Frame.encode ∧ (∀ f ∈ frames, Goes f) ∧
    spoken frames = messages ∧ pongs frames = pings

theorem Sent.none (w : List Byte) : Sent w w [] 0 :=
  ⟨[], (List.append_nil w).symm, fun _ h => absurd h List.not_mem_nil, rfl, rfl⟩

theorem Sent.append {w₀ w₁ w₂ : List Byte} {m n : List Text} {k l : Nat} (h : Sent w₀ w₁ m k)
    (h' : Sent w₁ w₂ n l) : Sent w₀ w₂ (m ++ n) (k + l) := by
  obtain ⟨frames, rfl, hgoes, rfl, rfl⟩ := h
  obtain ⟨frames', rfl, hgoes', rfl, rfl⟩ := h'
  refine ⟨frames ++ frames', ?_, fun f hf => ?_, ?_, ?_⟩
  · rw [List.flatMap_append, List.append_assoc]
  · rcases List.mem_append.mp hf with hf | hf
    · exact hgoes f hf
    · exact hgoes' f hf
  · simp [spoken]
  · simp [pongs]

theorem Sent.text {w w' : List Byte} {mask : Mask} {text : Text} {h : text.length < 65536}
    (hw : w' = w ++ (textFrame mask text h).encode) : Sent w w' [text] 0 := by
  refine ⟨[textFrame mask text h], ?_, ?_, rfl, rfl⟩
  · rw [hw, List.flatMap_singleton]
  · simpa using goes_textFrame mask text h

/-- A request goes out, and nothing else changes. -/
theorem use_request {u : Use} {m : ClientMessage} (hu : u.message = some m) (hsock : c.ws.sock = true)
    (hopen : c.outgoing.Open) : ∃ outgoing seed, c.use rand u = ({ c with outgoing, seed }, []) ∧
      outgoing.Open ∧ Sent c.outgoing.written outgoing.written [requestMsg m] 0 := by
  obtain ⟨mask, outgoing, seed, hsend, hopen', hwritten⟩ := send_request rand hsock hopen m
  refine ⟨outgoing, seed, ?_, hopen', Sent.text hwritten⟩
  rw [use_message rand hu, hsend]

/-- The receive thread has returned, and the socket is there still. -/
structure Over (c : WsConnection Seed) : Prop where
  sock : c.ws.sock = true
  finished : c.ws.recvThread = .finished
  outgoing : c.outgoing.Open

/-- After the end the requests go out still, and nothing is received. -/
theorem Over.run (h : Over c) (uses : List Use) :
    Sent c.outgoing.written (Machine.run (WsConnection.use rand) c uses).outgoing.written
        ((uses.filterMap Use.message).map requestMsg) 0 ∧
      Machine.outputs (WsConnection.use rand) c uses = [] := by
  induction uses generalizing c with
  | nil => exact ⟨.none _, rfl⟩
  | cons u rest ih =>
    cases hu : u.message with
    | some m =>
      obtain ⟨outgoing, seed, huse, hopen, hsent⟩ := use_request rand hu h.sock h.outgoing
      obtain ⟨hrest, hnone⟩ := ih (c := { c with outgoing, seed }) ⟨h.sock, h.finished, hopen⟩
      rw [Machine.run, Machine.outputs, huse, List.filterMap_cons, hu]
      exact ⟨hsent.append hrest, hnone⟩
    | none =>
      have huse : c.use rand u = (c, []) := by
        cases u with
        | recvTurn => exact if_pos (by rw [h.finished]; decide)
        | _ => cases hu
      obtain ⟨hrest, hnone⟩ := ih h
      rw [Machine.run, Machine.outputs, huse, List.filterMap_cons, hu]
      exact ⟨hrest, hnone⟩

/-- The last turn of the receive thread. -/
theorem recvTurn_none {frames : List Frame} (h : Live c frames) (hrecv : recvWsMessage rand c = none) :
    ∃ c', recvTurn rand c = (c', [disconnectedEvent]) ∧ Over c' ∧ c'.outgoing.written = c.outgoing.written := by
  refine ⟨{ c with ws.connected := false, ws.recvThread := .finished }, ?_, ⟨h.sock, rfl, h.outgoing⟩, rfl⟩
  unfold recvTurn
  rw [h.running, h.connected, hrecv]
  rfl

/-- Any other turn takes one frame. -/
theorem recvTurn_some {f : Frame} {frames : List Frame} (h : Live c (f :: frames)) (hop : f.opcode ≠ 0)
    (hends : ¬ Ends f) : ∃ c', recvTurn rand c =
        (c', if textOf f = [] then [] else [parseAndDispatch (textOf f)]) ∧ Live c' frames ∧
      Sent c.outgoing.written c'.outgoing.written [] (if f.opcode = Frame.opPing then 1 else 0) := by
  obtain ⟨incoming', hrest, hrecv⟩ := recvWsMessage_encode rand f h.sock hop h.incoming
  rw [if_neg hends] at hrecv
  obtain ⟨hopen, masks, hlen, hwritten⟩ :=
    answer_open rand (c := { c with incoming := incoming' }) h.outgoing f
  have hws : (answer rand { c with incoming := incoming' } f).ws = c.ws := ws_answer rand _ f
  have hin : (answer rand { c with incoming := incoming' } f).incoming = incoming' := incoming_answer rand _ f
  refine ⟨answer rand { c with incoming := incoming' } f, ?_, ?_, masks.map pongFrame, ?_, ?_, ?_, ?_⟩
  · unfold recvTurn
    rw [h.running, h.connected, hrecv]
    rfl
  · exact ⟨by rw [hws]; exact h.sock, by rw [hws]; exact h.connected, by rw [hws]; exact h.running,
      by rw [hin]; exact hrest, hopen⟩
  · rw [hwritten, List.flatMap_map]
  · intro g hg
    obtain ⟨mask, -, rfl⟩ := List.mem_map.mp hg
    exact goes_pongFrame mask
  · simp [spoken, pongFrame, Frame.opPong, Frame.opText]
  · rw [← hlen]
    simp [pongs, pongFrame, List.countP_map, Function.comp_def]

/-- After its last turn. -/
theorem Live.run_last {frames : List Frame} (h : Live c frames) (hrecv : recvWsMessage rand c = none)
    (rest : List Use) :
    Sent c.outgoing.written (Machine.run (WsConnection.use rand) c (.recvTurn :: rest)).outgoing.written
        ((rest.filterMap Use.message).map requestMsg) 0 ∧
      Machine.outputs (WsConnection.use rand) c (.recvTurn :: rest) = [disconnectedEvent] := by
  obtain ⟨c', hturn, hover, hwritten⟩ := recvTurn_none rand h hrecv
  obtain ⟨hsent, hnone⟩ := hover.run rand rest
  have huse : c.use rand .recvTurn = _ := hturn
  rw [Machine.run, Machine.outputs, huse, hnone, ← hwritten]
  exact ⟨hsent, rfl⟩

/-- While the user asks and the receive thread takes its turns. -/
theorem Live.run {frames : List Frame} (h : Live c frames) (hop : ∀ f ∈ frames, f.opcode ≠ 0)
    (uses : List Use) :
    Sent c.outgoing.written (Machine.run (WsConnection.use rand) c uses).outgoing.written
        ((uses.filterMap Use.message).map requestMsg) (pings (frames.take (turns uses))) ∧
      Machine.outputs (WsConnection.use rand) c uses =
        (texts (frames.take (turns uses))).map parseAndDispatch ++
          if (heard frames).length < turns uses then [disconnectedEvent] else [] := by
  induction uses generalizing c frames with
  | nil => exact ⟨.none _, rfl⟩
  | cons u rest ih =>
    cases hu : u.message with
    | some m =>
      obtain ⟨outgoing, seed, huse, hopen, hsent⟩ := use_request rand hu h.sock h.outgoing
      have hturns : turns (u :: rest) = turns rest := List.count_cons_of_ne (by rintro rfl; cases hu)
      obtain ⟨hrest, hevents⟩ := ih (c := { c with outgoing, seed })
        ⟨h.sock, h.connected, h.running, h.incoming, hopen⟩ hop
      rw [Machine.run, Machine.outputs, huse, List.filterMap_cons, hu, hturns]
      refine ⟨?_, hevents⟩
      have hall := hsent.append hrest
      rwa [Nat.zero_add] at hall
    | none =>
      obtain rfl : u = .recvTurn := by
        cases u with
        | recvTurn => rfl
        | _ => cases hu
      have hturns : turns (.recvTurn :: rest) = turns rest + 1 := List.count_cons_self
      rw [List.filterMap_cons, hu, hturns]
      cases frames with
      | nil =>
        obtain ⟨hsent, hevents⟩ := h.run_last rand (recvWsMessage_end h.incoming) rest
        rw [hevents]
        exact ⟨hsent, rfl⟩
      | cons f frames =>
        have hop' : ∀ g ∈ frames, g.opcode ≠ 0 := fun g hg => hop g (List.mem_cons_of_mem f hg)
        rw [List.take_succ_cons]
        by_cases hends : Ends f
        · have hheard : heard (f :: frames) = [] := List.takeWhile_cons_of_neg (by simp [hends])
          obtain ⟨_, -, hrecv⟩ :=
            recvWsMessage_encode rand f h.sock (hop f (List.mem_cons_self ..)) h.incoming
          rw [if_pos hends] at hrecv
          obtain ⟨hsent, hevents⟩ := h.run_last rand hrecv rest
          rw [hevents, pings_of_ends hends, texts_of_ends hends, hheard]
          exact ⟨hsent, rfl⟩
        · obtain ⟨c', hturn, hlive, hpong⟩ := recvTurn_some rand h (hop f (List.mem_cons_self ..)) hends
          obtain ⟨hsent, hevents⟩ := ih hlive hop'
          have huse : c.use rand .recvTurn = _ := hturn
          rw [Machine.run, Machine.outputs, huse, hevents, pings_cons hends, texts_cons hends, heard_cons hends,
            List.length_cons]
          constructor
          · have hall := hpong.append hsent
            rwa [List.nil_append, Nat.add_comm] at hall
          · simp only [Nat.add_lt_add_iff_right, List.map_append, List.append_assoc]
            split <;> rfl

/-- **A session.** A server that answers the upgrade and lets the client in comes to be known to it by its
ids; and however its stream is cut into chunks, and in whatever order the user's requests and the turns of
the receive thread come, each of them as a whole, the client sends the upgrade request, its key in it, and
then masked frames with the token and the requests in order, between pongs for the pings received, and
passes on the texts of the server in order, up to the end of the connection. What it sends is the JSON of
the messages exactly if no name in them needs an escape and each fits into its buffer. -/
theorem session_in_order {net : Net} {response : Text} {uuid : Uuid} {udpPort : BitVec 16} {frames : List Frame}
    (h : Welcoming net response uuid udpPort frames) (hop : ∀ f ∈ frames, f.opcode ≠ 0) (c : WsConnection Seed)
    (host : Text) (port : BitVec 16) (token : String) (uses : List Use) :
    (connect rand c host port (utf8 token) net).2.1 = true ∧
    (connect rand c host port (utf8 token) net).1.ws.clientId = utf8 uuid.toString ∧
    (connect rand c host port (utf8 token) net).1.ws.udpPort = udpPort ∧
    (∀ parseStr : String → Option Uuid, parseStr uuid.toString = some uuid →
      Server.deriveUdpId parseStr uuid.toString =
        some (connect rand c host port (utf8 token) net).1.ws.udpClientId) ∧
    (∃ key sent, key.length = 16 ∧ Base64.decode base64 (base64Encode key) = some key ∧
      (host.length ≤ 350 →
        upgradeRequest host port (base64Encode key) = upgradeText host port (base64Encode key)) ∧
      (Machine.run (WsConnection.use rand) (connect rand c host port (utf8 token) net).1 uses).outgoing.written =
        net.outgoing.written ++ upgradeRequest host port (base64Encode key) ++ sent.flatMap Frame.encode ∧
      (∀ f ∈ sent, Goes f) ∧ pongs sent = pings (frames.take (turns uses)) ∧
      spoken sent = (.auth token :: uses.filterMap Use.message).map requestMsg ∧
      (spoken sent = (.auth token :: uses.filterMap Use.message).map ClientMessage.text ↔
        ∀ m ∈ .auth token :: uses.filterMap Use.message, Plain (named m) ∧ m.text.length < 256)) ∧
    Machine.outputs (WsConnection.use rand) (connect rand c host port (utf8 token) net).1 uses =
      (texts (frames.take (turns uses))).map parseAndDispatch ++
        if (heard frames).length < turns uses then [disconnectedEvent] else [] := by
  obtain ⟨hin, hlive, hclient, hport, hudp, key, mask, hkey, hwritten⟩ :=
    connect_welcoming rand h c host port token
  obtain ⟨hsent, hevents⟩ := hlive.run rand hop uses
  obtain ⟨sent, hall, hgoes, hspoken, hpongs⟩ := (Sent.text hwritten).append hsent
  rw [List.singleton_append, ← List.map_cons] at hspoken
  refine ⟨hin, hclient, hport, fun parseStr hparse => ?_, ⟨key, sent, hkey, Base64.decode_encode key,
    fun hhost => upgradeRequest_eq hhost ?_, hall, hgoes, ?_, hspoken, ?_⟩, hevents⟩
  · rw [server_deriveUdpId hparse, hudp]
  · rw [base64Encode, Base64.length_encode, hkey]
  · rw [hpongs, Nat.zero_add]
  · rw [hspoken, List.map_inj_left]
    exact forall₂_congr fun m _ => requestMsg_iff m

end Session

/-- The nil UUID answers, and then come some frames, all in one chunk. -/
def someNet : Net where
  resolves := true
  socket := true
  accepts := true
  incoming := [⟨utf8 "HTTP/1.1 101\r\n\r\n" ++ ((⟨true, Frame.opText, none,
    (ServerMessage.authOk (Uuid.toString 0) 10000).text, by decide⟩ : Frame).encode ++
      someFrames.flatMap Frame.encode), nofun⟩]
  outgoing := ⟨fun _ => 1, []⟩

theorem response_some : Response (utf8 "HTTP/1.1 101\r\n\r\n") where
  ends := by decide
  first := by
    have hinits : ∀ p ∈ (utf8 "HTTP/1.1 101\r\n\r\n").inits, blankLine <:+ p → p = utf8 "HTTP/1.1 101\r\n\r\n" := by
      decide
    exact fun p hp => hinits p ((List.mem_inits ..).mpr hp)
  short := by decide

theorem welcoming_some : Welcoming someNet (utf8 "HTTP/1.1 101\r\n\r\n") 0 10000 someFrames where
  resolves := rfl
  socket := rfl
  accepts := rfl
  outgoing := fun _ => Nat.one_pos
  answers := response_some
  upgrades := by decide
  incoming := ⟨_, rfl, rfl, List.append_nil _⟩

/-- The user joins between the turns of the receive thread. -/
theorem session_in_order_some :
    Machine.outputs (WsConnection.use fun seed => (seed, seed + 1))
      (connect (fun seed => (seed, seed + 1)) someConnection (utf8 "localhost") 8080 (utf8 "token") someNet).1
      [.recvTurn, .joinChannel "channel-1", .recvTurn, .recvTurn, .recvTurn, .recvTurn] =
        [parseAndDispatch (utf8 "hello"), disconnectedEvent] :=
  (session_in_order (fun seed => (seed, seed + 1)) welcoming_some (by decide) someConnection (utf8 "localhost")
    8080 "token" [.recvTurn, .joinChannel "channel-1", .recvTurn, .recvTurn, .recvTurn, .recvTurn]).2.2.2.2.2

end AudioPlatform.Windows
