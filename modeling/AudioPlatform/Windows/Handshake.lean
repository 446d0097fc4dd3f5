import AudioPlatform.Wire.Base64
import AudioPlatform.Windows.Lifecycle
import AudioPlatform.Windows.Requests

/-! The handshake of the Windows client, byte for byte.

`connect` upgrades the connection, names itself and waits for the answer. What it comes to is a `Dial`:
the bytes decide what that is, and nothing else of them matters to socket, thread and ids. -/
namespace AudioPlatform.Windows
open Wire

variable {Seed : Type} (rand : Seed → Nat × Seed)

/-! ### The upgrade -/

def b64chars (d : BitVec 6) : Byte :=
  (utf8 "ABCDEFGHIJKLMNOPQRSTUVWXYZabcdefghijklmnopqrstuvwxyz0123456789+/").getD d.toNat 0

/-- The digit that is written so. -/
def b64digit (b : Byte) : Option (BitVec 6) :=
  if 0x41 ≤ b && b ≤ 0x5a then some ((b - 0x41).setWidth 6)
  else if 0x61 ≤ b && b ≤ 0x7a then some ((b - 0x61 + 26).setWidth 6)
  else if isDigit b then some ((b - 0x30 + 52).setWidth 6)
  else if b = 0x2b then some 62
  else if b = 0x2f then some 63
  else none

def base64 : Base64.Alphabet where
  char := b64chars
  digit := b64digit
  pad := 0x3d
  digit_char := by decide +kernel
  digit_pad := by decide

def base64Encode (data : List Byte) : Text := Base64.encode base64 data

/-- The 16 random bytes. -/
def keyBytes (seed : Seed) : List Byte × Seed :=
  let (k₀, seed) := randomMask rand seed
  let (k₁, seed) := randomMask rand seed
  let (k₂, seed) := randomMask rand seed
  let (k₃, seed) := randomMask rand seed
  (k₀.toList ++ k₁.toList ++ k₂.toList ++ k₃.toList, seed)

/-- The request with the headers that the protocol asks for. -/
def upgradeText (host : Text) (port : BitVec 16) (wsKey : Text) : Text :=
  utf8 "GET / HTTP/1.1\r\nHost: " ++ host ++ utf8 ":" ++ decimal port.toNat ++
    utf8 "\r\nUpgrade: websocket\r\nConnection: Upgrade\r\nSec-WebSocket-Key: " ++ wsKey ++
    utf8 "\r\nSec-WebSocket-Version: 13\r\n\r\n"

def upgradeRequest (host : Text) (port : BitVec 16) (wsKey : Text) : Text :=
  snprintf 512 (upgradeText host port wsKey)

/-- What an HTTP response ends with. -/
def blankLine : Text := utf8 "\r\n\r\n"

/-- One byte at a time, `n` more at most, after `out`. -/
def recvHttpResponse : Nat → Text → Incoming → Option (Text × Incoming)
  | 0, _, _ => none
  | n + 1, out, incoming =>
    match recv incoming 1 with
    | none => none
    | some (c, incoming) =>
      if blankLine <:+ out ++ c then some (out ++ c, incoming) else recvHttpResponse n (out ++ c) incoming

/-- A response that is read to its end: the first blank line ends it, and it fits in what is read. -/
structure Response (r : Text) : Prop where
  ends : blankLine <:+ r
  first : ∀ p, p <+: r → blankLine <:+ p → p = r
  short : r.length ≤ 4096

theorem recv_one {incoming : Incoming} {b : Byte} {rest : List Byte} (h : incoming.bytes = b :: rest) :
    ∃ incoming' : Incoming, recv incoming 1 = some ([b], incoming') ∧ incoming'.bytes = rest := by
  obtain ⟨got, incoming', hrecv⟩ := recv_of_ne_nil (by rw [h]; exact List.cons_ne_nil b rest) 1
  obtain ⟨hbytes, hle, hpos⟩ := recv_eq_some hrecv
  obtain ⟨d, rfl⟩ := List.length_eq_one_iff.mp (le_antisymm hle (hpos Nat.one_pos))
  rw [h, List.singleton_append, List.cons.injEq] at hbytes
  obtain ⟨rfl, hrest⟩ := hbytes
  exact ⟨incoming', hrecv, hrest.symm⟩

theorem recvHttpResponse_append {b rest : Text} {n : Nat} {out : Text} {incoming : Incoming}
    (hends : blankLine <:+ out ++ b) (hfirst : ∀ p, p <+: out ++ b → blankLine <:+ p → p = out ++ b)
    (hb : b ≠ []) (hn : b.length ≤ n) (h : incoming.bytes = b ++ rest) :
    ∃ incoming' : Incoming, recvHttpResponse n out incoming = some (out ++ b, incoming') ∧
      incoming'.bytes = rest := by
  induction b generalizing n out incoming with
  | nil => exact absurd rfl hb
  | cons x b ih =>
    obtain ⟨n, rfl⟩ : ∃ m, n = m + 1 := ⟨n - 1, by rw [List.length_cons] at hn; omega⟩
    obtain ⟨incoming₁, hrecv, hrest⟩ := recv_one h
    have hout : out ++ [x] ++ b = out ++ x :: b := by simp
    rw [recvHttpResponse, hrecv]
    dsimp only
    by_cases hend : blankLine <:+ out ++ [x]
    · have hall := hfirst _ ⟨b, hout⟩ hend
      rw [← hout, List.self_eq_append_right] at hall
      subst hall
      exact ⟨incoming₁, if_pos hend, hrest⟩
    · rw [if_neg hend, ← hout]
      rw [← hout] at hends hfirst
      refine ih hends hfirst ?_ (by rw [List.length_cons] at hn; omega) hrest
      rintro rfl
      exact hend (by simpa using hends)

/-- The next response is read, and nothing of what comes after it. -/
theorem Response.received {r rest : Text} {incoming : Incoming} (hr : Response r)
    (h : incoming.bytes = r ++ rest) : ∃ incoming' : Incoming,
      recvHttpResponse 4096 [] incoming = some (r, incoming') ∧ incoming'.bytes = rest := by
  have hne : r ≠ [] := by
    rintro rfl
    exact absurd hr.ends (by decide)
  exact recvHttpResponse_append hr.ends hr.first hne hr.short h

/-! ### Connecting -/

/-- What a call of `connect` meets: whether the host resolves, whether there is a socket, whether it
connects, and the two ends of the connection. -/
structure Net where
  resolves : Bool
  socket : Bool
  accepts : Bool
  incoming : Incoming
  outgoing : Outgoing

/-- The frame that says goodbye. -/
def closeFrame : List Byte := [0x88, 0x80, 0, 0, 0, 0]

def disconnect (c : WsConnection Seed) : WsConnection Seed :=
  { c with
    ws := c.ws.disconnect
    outgoing := if c.ws.sock then (c.outgoing.send closeFrame).2 else c.outgoing }

/-- The rest of the handshake, once the socket is connected. -/
def upgrade (c : WsConnection Seed) (host : Text) (port : BitVec 16) : Bool × WsConnection Seed :=
  let (key, seed) := keyBytes rand c.seed
  let (sent, outgoing) := sendAll c.outgoing (upgradeRequest host port (base64Encode key))
  let c := { c with outgoing, seed }
  if !sent then (false, c)
  else
    match recvHttpResponse 4096 [] c.incoming with
    | none => (false, c)
    | some (response, incoming) => ((find (utf8 "101") response).isSome, { c with incoming })

def doHandshake (c : WsConnection Seed) (host : Text) (port : BitVec 16) (net : Net) :
    WsConnection Seed × Bool × List Assignment :=
  if !net.resolves then (c, false, [])
  else
    let assigned := [Assignment.sock c.ws.sock]
    let c := { c with ws.sock := net.socket }
    if !net.socket then (c, false, assigned)
    else if !net.accepts then ({ c with ws.sock := false }, false, assigned)
    else
      let c := { c with incoming := net.incoming, outgoing := net.outgoing }
      let (upgraded, c) := upgrade rand c host port
      (c, upgraded, assigned)

/-- The rest of `connect`, once the connection is upgraded. -/
def authenticate (c : WsConnection Seed) (token : Text) (assigned : List Assignment) :
    WsConnection Seed × Bool × List Assignment :=
  let (sent, c) := sendWsText rand c (authMsg token)
  if !sent then (disconnect c, false, assigned)
  else
    match recvWsMessage rand c with
    | none => (disconnect c, false, assigned)
    | some (response, c) =>
      if jsonGetString response (utf8 "type") ≠ utf8 "auth_ok" then (disconnect c, false, assigned)
      else
        let clientId := jsonGetString response (utf8 "client_id")
        ({ c with
            ws.clientId := clientId
            ws.udpPort := (jsonGetUint64 response (utf8 "udp_port")).setWidth 16
            ws.udpClientId := deriveUdpId clientId
            ws.recvThread := .running },
          true, assigned ++ [.recvThread c.ws.recvThread.joinable])

def connect (c : WsConnection Seed) (host : Text) (port : BitVec 16) (token : Text) (net : Net) :
    WsConnection Seed × Bool × List Assignment :=
  let c := if c.ws.connected then disconnect c else c
  let (c, shaken, assigned) := doHandshake rand c host port net
  if !shaken then ({ c with ws.sock := false }, false, assigned)
  else authenticate rand { c with ws.connected := true } token assigned

section Members
variable {c : WsConnection Seed}

@[simp] theorem ws_disconnect (c : WsConnection Seed) : (disconnect c).ws = c.ws.disconnect := rfl

@[simp] theorem ws_upgrade (c : WsConnection Seed) (host : Text) (port : BitVec 16) :
    (upgrade rand c host port).2.ws = c.ws := by
  unfold upgrade
  dsimp only
  split
  · rfl
  · split <;> rfl

@[simp] theorem ws_sendWsText (c : WsConnection Seed) (text : Text) : (sendWsText rand c text).2.ws = c.ws := by
  unfold sendWsText
  split
  · rfl
  · split <;> rfl

end Members

/-- The connection when the socket is connected. -/
def dialed (c : WsConnection Seed) (net : Net) : WsConnection Seed :=
  { c with ws.sock := true, incoming := net.incoming, outgoing := net.outgoing }

/-- What the call comes to, of all the bytes that go to and fro. -/
def dial (c : WsConnection Seed) (host : Text) (port : BitVec 16) (token : Text) (net : Net) : Dial :=
  let upgraded := upgrade rand (dialed (if c.ws.connected then disconnect c else c) net) host port
  let sent := sendWsText rand { upgraded.2 with ws.connected := true } (authMsg token)
  { resolves := net.resolves
    socket := net.socket
    accepts := net.accepts
    upgrades := upgraded.1
    authSent := sent.1
    response := (recvWsMessage rand sent.2).map Prod.fst }

/-- The rest of `connect`, without the bytes. -/
def WsSignaling.authenticate (s : WsSignaling) (d : Dial) (assigned : List Assignment) :
    WsSignaling × Bool × List Assignment :=
  if !d.authSent then (s.disconnect, false, assigned)
  else
    match d.response with
    | none => (s.disconnect, false, assigned)
    | some response =>
      if jsonGetString response (utf8 "type") ≠ utf8 "auth_ok" then (s.disconnect, false, assigned)
      else
        let clientId := jsonGetString response (utf8 "client_id")
        ({ s with
            clientId
            udpPort := (jsonGetUint64 response (utf8 "udp_port")).setWidth 16
            udpClientId := deriveUdpId clientId
            recvThread := .running },
          true, assigned ++ [.recvThread s.recvThread.joinable])

theorem authenticate_dial (c : WsConnection Seed) (token : Text) (d : Dial) (assigned : List Assignment)
    (hsent : d.authSent = (sendWsText rand c (authMsg token)).1)
    (hresponse : d.response = (recvWsMessage rand (sendWsText rand c (authMsg token)).2).map Prod.fst) :
    ((authenticate rand c token assigned).1.ws, (authenticate rand c token assigned).2) =
      c.ws.authenticate d assigned := by
  have hws := ws_sendWsText rand c (authMsg token)
  unfold authenticate WsSignaling.authenticate
  rw [hsent, hresponse]
  generalize sendWsText rand c (authMsg token) = r at hws ⊢
  obtain ⟨sent, c₁⟩ := r
  dsimp only at hws ⊢
  cases sent with
  | false => exact congrArg (fun s : WsSignaling => (s.disconnect, false, assigned)) hws
  | true =>
    cases hrecv : recvWsMessage rand c₁ with
    | none => exact congrArg (fun s : WsSignaling => (s.disconnect, false, assigned)) hws
    | some r =>
      obtain ⟨response, c₂⟩ := r
      have hws₂ : c₂.ws = c.ws := (recvWsMessage_some hrecv).1.trans hws
      simp only [Option.map_some, Bool.not_true, Bool.false_eq_true, if_false]
      split
      · rw [ws_disconnect, hws₂]
      · rw [hws₂]

theorem doHandshake_dial (c : WsConnection Seed) (host : Text) (port : BitVec 16) (net : Net) (d : Dial)
    (hresolves : d.resolves = net.resolves) (hsocket : d.socket = net.socket)
    (haccepts : d.accepts = net.accepts) (hupgrades : d.upgrades = (upgrade rand (dialed c net) host port).1) :
    ((doHandshake rand c host port net).1.ws, (doHandshake rand c host port net).2) = c.ws.doHandshake d ∧
      ((doHandshake rand c host port net).2.1 = true →
        (doHandshake rand c host port net).1 = (upgrade rand (dialed c net) host port).2) := by
  have hws := ws_upgrade rand (dialed c net) host port
  unfold doHandshake WsSignaling.doHandshake
  rw [hresolves, hsocket, haccepts, hupgrades]
  cases hres : net.resolves with
  | false => exact ⟨rfl, nofun⟩
  | true =>
    cases hsock : net.socket with
    | false => exact ⟨rfl, nofun⟩
    | true =>
      cases hacc : net.accepts with
      | false => exact ⟨rfl, nofun⟩
      | true =>
        refine ⟨?_, fun _ => rfl⟩
        exact congrArg (fun s => (s, (upgrade rand (dialed c net) host port).1, [Assignment.sock c.ws.sock])) hws

/-- What becomes of socket, thread and ids depends on that only. -/
theorem connect_dial (c : WsConnection Seed) (host : Text) (port : BitVec 16) (token : Text) (net : Net) :
    ((connect rand c host port token net).1.ws, (connect rand c host port token net).2) =
      c.ws.connect (dial rand c host port token net) := by
  have hclean : (if c.ws.connected then disconnect c else c).ws =
      if c.ws.connected then c.ws.disconnect else c.ws := by
    split <;> rfl
  obtain ⟨hshake, hup⟩ := doHandshake_dial rand (if c.ws.connected then disconnect c else c) host port net
    (dial rand c host port token net) rfl rfl rfl rfl
  have hauth := fun c' assigned => authenticate_dial rand c' token (dial rand c host port token net) assigned
  rw [hclean] at hshake
  unfold connect WsSignaling.connect
  dsimp only
  rw [← hshake]
  generalize hr : doHandshake rand _ host port net = r at hup ⊢
  obtain ⟨c₁, shaken, assigned⟩ := r
  dsimp only at hup ⊢
  cases shaken with
  | false => rfl
  | true =>
    rw [hup rfl]
    exact hauth _ assigned rfl rfl

end AudioPlatform.Windows
