import AudioPlatform.Concurrency.Machine
import AudioPlatform.Windows.Signaling

/-! The socket and the receive thread of the Windows client's signaling connection.

`connect` cleans up if it finds the connection up. But the receive thread takes the
connection down when the remote side is gone, and leaves the socket open and itself to be
joined: what `connect` then finds is nothing to clean up. -/
namespace AudioPlatform.Windows
open Concurrency Wire

/-- The thread object: without a thread, with one in `recvLoop`, or with one that has
returned and has not been joined. -/
inductive RecvThread where
  | none
  | running
  | finished
  deriving DecidableEq, Repr

def RecvThread.joinable (t : RecvThread) : Bool := t != .none

structure WsSignaling where
  /-- `sock_` holds a socket, which is open. -/
  sock : Bool
  connected : Bool
  recvThread : RecvThread
  clientId : Text
  udpClientId : BitVec 64
  udpPort : BitVec 16
  deriving DecidableEq, Repr

def WsSignaling.new : WsSignaling := ⟨false, false, .none, [], 0, 0⟩

/-- What a call of `connect` meets: whether the host resolves, whether there is a socket, whether
it connects, whether the request goes out and the answer has a 101 in it, whether the auth
message goes out, and the text that comes back. -/
structure Dial where
  resolves : Bool
  socket : Bool
  accepts : Bool
  upgrades : Bool
  authSent : Bool
  response : Option Text
  deriving DecidableEq, Repr

/-- An assignment to a member that owns something: whether `sock_` held an open socket, whether
the thread object was joinable. The latter terminates the process. -/
inductive Assignment where
  | sock (held : Bool)
  | recvThread (joinable : Bool)
  deriving DecidableEq, Repr

/-- Nothing is lost by the assignment. -/
def Assignment.Clean : Assignment → Prop
  | .sock held => held = false
  | .recvThread joinable => joinable = false

namespace WsSignaling

/-- The destructor does the same. -/
def disconnect (s : WsSignaling) : WsSignaling :=
  { s with connected := false, sock := false, recvThread := .none, clientId := [], udpClientId := 0 }

def doHandshake (s : WsSignaling) (d : Dial) : WsSignaling × Bool × List Assignment :=
  if !d.resolves then (s, false, [])
  else
    let assigned := [Assignment.sock s.sock]
    let s := { s with sock := d.socket }
    if !d.socket then (s, false, assigned)
    else if !d.accepts then ({ s with sock := false }, false, assigned)
    else (s, d.upgrades, assigned)

def connect (s : WsSignaling) (d : Dial) : WsSignaling × Bool × List Assignment :=
  let s := if s.connected then s.disconnect else s
  let (s, shaken, assigned) := s.doHandshake d
  if !shaken then
    -- closed if there is one
    ({ s with sock := false }, false, assigned)
  else
    let s := { s with connected := true }
    if !d.authSent then (s.disconnect, false, assigned)
    else
      match d.response with
      | none => (s.disconnect, false, assigned)
      | some response =>
        if jsonGetString response (utf8 "type") ≠ utf8 "auth_ok" then (s.disconnect, false, assigned)
        else
          let clientId := jsonGetString response (utf8 "client_id")
          ({ s with
              clientId
              udpPort := (jsonGetUint64 response (utf8 "udp_port")).setWidth 16
              udpClientId := deriveUdpId clientId
              recvThread := .running },
            true, assigned ++ [.recvThread s.recvThread.joinable])

/-- `recvLoop` ends by itself, when a message cannot be received. -/
def recvLoopEnds (s : WsSignaling) : WsSignaling :=
  if s.recvThread = .running then { s with connected := false, recvThread := .finished } else s

end WsSignaling

inductive Happening where
  | connect (d : Dial)
  | disconnect
  /-- The remote side closes the connection, or it breaks. -/
  | loss
  deriving DecidableEq, Repr

def WsSignaling.step (s : WsSignaling) : Happening → WsSignaling × List Assignment
  | .connect d => ((s.connect d).1, (s.connect d).2.2)
  | .disconnect => (s.disconnect, [])
  | .loss => (s.recvLoopEnds, [])

/-! ### Phases -/

/-- The handshake succeeds. -/
def Dial.shaken (d : Dial) : Bool := d.resolves && d.socket && d.accepts && d.upgrades

/-- The server lets the client in. -/
def Dial.authenticates (d : Dial) : Bool :=
  d.shaken && d.authSent &&
    d.response.any fun response => jsonGetString response (utf8 "type") == utf8 "auth_ok"

/-- Where the connection is: not there, up, lost with socket and thread left over, or lost with
only the thread left over. -/
inductive Link where
  | idle
  | live
  | lost
  | orphaned
  deriving DecidableEq, Repr

def Link.next (l : Link) : Happening → Link
  | .connect d =>
    if d.authenticates then .live
    else if d.shaken then .idle
    else
      match l with
      | .idle | .live => .idle
      | .lost | .orphaned => .orphaned
  | .disconnect => .idle
  | .loss => if l = .live then .lost else l

def Link.step (l : Link) (h : Happening) : Link × List Empty := (l.next h, [])

/-- No connect that resolves the host while the old socket is open, and none that comes through
while the old thread has not been joined. -/
def Link.Allows (l : Link) : Happening → Prop
  | .connect d => (l = .lost → d.resolves = false) ∧ (l = .orphaned → d.authenticates = false)
  | _ => True

instance (l : Link) (h : Happening) : Decidable (l.Allows h) := by
  unfold Link.Allows
  split <;> infer_instance

/-- Socket, flag and thread. -/
def WsSignaling.members (s : WsSignaling) : Bool × Bool × RecvThread :=
  (s.sock, s.connected, s.recvThread)

/-- What they are in each phase. -/
def Link.members : Link → Bool × Bool × RecvThread
  | .idle => (false, false, .none)
  | .live => (true, true, .running)
  | .lost => (true, false, .finished)
  | .orphaned => (false, false, .finished)

variable {s : WsSignaling} {d : Dial} {l : Link}

@[simp] theorem members_disconnect (s : WsSignaling) : s.disconnect.members = Link.idle.members := rfl

theorem members_recvLoopEnds (h : s.members = l.members) :
    s.recvLoopEnds.members = (l.next .loss).members := by
  obtain ⟨hsock, hconnected, hthread⟩ : s.sock = l.members.1 ∧ s.connected = l.members.2.1 ∧
      s.recvThread = l.members.2.2 := by
    simpa [WsSignaling.members, Prod.ext_iff] using h
  unfold WsSignaling.recvLoopEnds
  cases l with
  | live =>
    rw [if_pos (show s.recvThread = .running from hthread)]
    simp [WsSignaling.members, Link.next, Link.members, hsock]
  | idle | lost | orphaned =>
    rw [if_neg (by rw [hthread]; decide)]
    exact h

/-! ### Calls of `connect` -/

/-- The four ways a call goes when the connection is down: the host does not resolve, the
handshake fails, the server does not let the client in, or it does. -/
theorem connect_outcomes (s : WsSignaling) (d : Dial) (hdown : s.connected = false) :
    (d.resolves = false ∧ d.shaken = false ∧ d.authenticates = false ∧
      (s.connect d).1.members = (false, false, s.recvThread) ∧ (s.connect d).2.2 = []) ∨
    (d.resolves = true ∧ d.shaken = false ∧ d.authenticates = false ∧
      (s.connect d).1.members = (false, false, s.recvThread) ∧
      (s.connect d).2.2 = [.sock s.sock]) ∨
    (d.resolves = true ∧ d.shaken = true ∧ d.authenticates = false ∧
      (s.connect d).1.members = (false, false, .none) ∧ (s.connect d).2.2 = [.sock s.sock]) ∨
    (d.resolves = true ∧ d.shaken = true ∧ d.authenticates = true ∧
      (s.connect d).1.members = (true, true, .running) ∧
      (s.connect d).2.2 = [.sock s.sock, .recvThread s.recvThread.joinable]) := by
  obtain ⟨resolves, socket, accepts, upgrades, authSent, response⟩ := d
  unfold WsSignaling.connect WsSignaling.doHandshake Dial.authenticates Dial.shaken
  rw [if_neg (by simp [hdown])]
  cases resolves with
  | false => simp [WsSignaling.members, hdown]
  | true =>
    cases socket with
    | false => simp [WsSignaling.members, hdown]
    | true =>
      cases accepts with
      | false => simp [WsSignaling.members, hdown]
      | true =>
        cases upgrades with
        | false => simp [WsSignaling.members, hdown]
        | true =>
          cases authSent with
          | false => simp [WsSignaling.members, WsSignaling.disconnect]
          | true =>
            cases response with
            | none => simp [WsSignaling.members, WsSignaling.disconnect]
            | some response =>
              by_cases hok : jsonGetString response (utf8 "type") = utf8 "auth_ok"
              · simp [WsSignaling.members, hok]
              · simp [WsSignaling.members, WsSignaling.disconnect, hok]

/-- A connection that is up is taken down first. -/
theorem connect_up (d : Dial) (hup : s.connected = true) : s.connect d = s.disconnect.connect d := by
  unfold WsSignaling.connect
  rw [if_pos hup, if_neg (by simp [WsSignaling.disconnect])]

/-- A call that finds the connection down, whatever has been left over. -/
theorem connect_down (h : s.members = l.members) (hl : l ≠ .live) (d : Dial) :
    (s.connect d).1.members = (l.next (.connect d)).members ∧
      ((∀ a ∈ (s.connect d).2.2, a.Clean) ↔ l.Allows (.connect d)) := by
  obtain ⟨hsock, hconnected, hthread⟩ : s.sock = l.members.1 ∧ s.connected = l.members.2.1 ∧
      s.recvThread = l.members.2.2 := by
    simpa [WsSignaling.members, Prod.ext_iff] using h
  have hdown : s.connected = false := by
    rw [hconnected]
    cases l with
    | live => exact absurd rfl hl
    | idle | lost | orphaned => rfl
  dsimp only [Link.next, Link.Allows]
  rcases connect_outcomes s d hdown with ⟨hr, hs, ha, hm, hout⟩ | ⟨hr, hs, ha, hm, hout⟩ |
    ⟨hr, hs, ha, hm, hout⟩ | ⟨hr, hs, ha, hm, hout⟩
  · rw [hm, hout, hr, hs, ha, hthread]
    cases l <;> simp [Link.members] at hl ⊢
  · rw [hm, hout, hr, hs, ha, hthread, hsock]
    cases l <;> simp [Link.members, Assignment.Clean] at hl ⊢
  · rw [hm, hout, hr, hs, ha, hsock]
    cases l <;> simp [Link.members, Assignment.Clean] at hl ⊢
  · rw [hm, hout, hr, hs, ha, hthread, hsock]
    cases l <;> simp [Link.members, Assignment.Clean, RecvThread.joinable] at hl ⊢

/-- The members follow the phases, and an input loses nothing exactly if its phase allows it. -/
theorem step_follows (h : s.members = l.members) (i : Happening) :
    (s.step i).1.members = (l.step i).1.members ∧
      ((∀ a ∈ (s.step i).2, a.Clean) ↔ l.Allows i) := by
  cases i with
  | connect d =>
    by_cases hl : l = .live
    · subst hl
      have hup : s.connected = true := (Prod.mk.inj (Prod.mk.inj h).2).1
      obtain ⟨hmembers, hclean⟩ := connect_down (l := .idle) (members_disconnect s) (by decide) d
      rw [← connect_up d hup] at hmembers hclean
      refine ⟨hmembers, hclean.trans ?_⟩
      simp [Link.Allows]
    · exact connect_down h hl d
  | disconnect => exact ⟨rfl, iff_of_true (fun _ ha => absurd ha List.not_mem_nil) trivial⟩
  | loss =>
    exact ⟨members_recvLoopEnds h, iff_of_true (fun _ ha => absurd ha List.not_mem_nil) trivial⟩

/-! ### Runs -/

/-- **Socket and thread.** In a run from construction on, no assignment overwrites an open socket
or a joinable thread exactly if no call of `connect` resolves the host while the old socket is
open, nor comes through while the old thread has not been joined. -/
theorem assignments_clean_iff (run : List Happening) :
    (∀ a ∈ Machine.outputs WsSignaling.step .new run, a.Clean) ↔
      Machine.Along Link.step Link.Allows .idle run :=
  Machine.outputs_iff_along (R := fun s l => s.members = l.members)
    (fun _ _ i h => step_follows h i) rfl run

/-- A call that comes through. -/
def Dial.welcome : Dial := ⟨true, true, true, true, true, some (utf8 "\x7b\"type\":\"auth_ok\"\x7d")⟩

/-- The server goes away and the client connects again: the socket is overwritten while it is
open, and the thread is assigned while it is joinable. -/
theorem reconnect_after_loss :
    ¬ ∀ a ∈ Machine.outputs WsSignaling.step .new [.connect .welcome, .loss, .connect .welcome],
      a.Clean := by
  intro h
  have hsock := h (.sock true) (by decide)
  cases hsock

end AudioPlatform.Windows
