import AudioPlatform.Server.System

/-! What the server hands to its UDP socket.

Only the UDP loop writes to it, and only what it has received: an audio datagram as it is, a
ping with its type turned into a pong. -/
namespace AudioPlatform.Server
open Concurrency

/-- The action hands no datagram to the socket. -/
def Op.Wordless : Op → Prop
  | .sendTo .. => False
  | _ => True

/-- What an operation on channels may do: it keeps no exclusive guard of a client, and changes the
records only in what they say about channels. -/
def Op.Plain : Op → Prop
  | .getChannel .. | .members _ | .insertMember .. | .removeMember .. | .dropChannel .. => True
  | .readClient _ | .send .. | .panic => True
  | .updateClient _ u => ∀ a, u ≠ .udpAddr a
  | .getClient _ write | .dropClient _ write => write = false
  | _ => False

/-- What a handler may do: it writes no datagram, and no address. -/
def Op.Signaling : Op → Prop
  | .sendTo .. | .setClient .. | .insertUdpAddr .. => False
  | .updateClient _ u => ∀ a, u ≠ .udpAddr a
  | .insertClient _ cl => cl.udpAddr = none
  | _ => True

/-- What the loop may send for a datagram. -/
def Answers (datagram out : List Byte) : Prop :=
  ∃ header, RoutingHeader.parse (datagram.take maxUdpPacketSize) = some header ∧
    (header.packetType = PacketType.audio.toU8 ∧ out = datagram.take maxUdpPacketSize ∨
      header.packetType = PacketType.ping.toU8 ∧
        out = (datagram.take maxUdpPacketSize).set 16 PacketType.pong.toU8)

/-- If the action hands a datagram to the socket, it is one of these. -/
def Op.Sends (good : List Byte → Prop) : Op → Prop
  | .sendTo _ out => good out
  | _ => True

variable {good good' : List Byte → Prop} {α : Type} {p : Prog α}

theorem Op.Plain.signaling {o : Op} (h : o.Plain) : o.Signaling := by
  cases o with
  | sendTo | setClient | insertUdpAddr | insertClient => exact h.elim
  | updateClient => exact h
  | _ => trivial

theorem Op.Signaling.wordless {o : Op} (h : o.Signaling) : o.Wordless := by
  cases o with
  | sendTo => exact h.elim
  | _ => trivial

theorem Op.Wordless.sends {o : Op} (h : o.Wordless) : o.Sends good := by
  cases o with
  | sendTo => exact h.elim
  | _ => trivial

theorem Op.Sends.mono {o : Op} (h : o.Sends good) (hgood : ∀ out, good out → good' out) :
    o.Sends good' := by
  cases o with
  | sendTo a out => exact hgood out h
  | _ => trivial

theorem PacketType.toU8_of_fromU8 {b : Byte} {t : PacketType} (h : PacketType.fromU8 b = some t) :
    b = t.toU8 := by
  unfold PacketType.fromU8 at h
  split at h
  · cases h
    assumption
  · split at h
    · cases h
      assumption
    · split at h
      · cases h
        assumption
      · split at h
        · cases h
          assumption
        · cases h

/-! ### Handlers -/

theorem plain_broadcast (ids : List ClientId) (ex : ClientId) (msg : ServerMessage) :
    (broadcastToMembers ids ex msg).All Op.Plain :=
  all_broadcast fun _ => ⟨rfl, trivial, rfl⟩

theorem plain_sendToClient (c : ClientId) (msg : ServerMessage) :
    (sendToClient c msg).All Op.Plain :=
  all_sendToClient ⟨rfl, trivial, rfl⟩

theorem plain_collect (ids : List ClientId) : (collectMemberInfo ids).All Op.Plain := by
  induction ids with
  | nil => trivial
  | cons mid rest ih =>
    unfold collectMemberInfo
    exact ⟨trivial, fun r => ih.bind fun infos => trivial⟩

theorem plain_joinChannel (c : ClientId) (n : ChannelId) : (joinChannel c n).All Op.Plain := by
  refine ⟨trivial, fun r => ?_⟩
  cases r with
  | none => trivial
  | some channel =>
    refine ⟨trivial, fun r => ?_⟩
    cases r with
    | none => exact ⟨trivial, fun _ => trivial⟩
    | some client =>
      dsimp only [Program.bind]
      split
      · exact ⟨trivial, fun _ => trivial⟩
      · refine (plain_collect _).bind fun infos => ⟨trivial, fun _ => ⟨nofun, fun r => ?_⟩⟩
        cases r with
        | none => exact ⟨trivial, fun e => Empty.elim e⟩
        | some client =>
          refine ⟨trivial, fun ids => ⟨trivial, fun _ => ?_⟩⟩
          refine (plain_broadcast _ _ _).bind fun _ => ⟨trivial, fun r => ?_⟩
          cases r <;> trivial

theorem plain_stopTransmit (c : ClientId) (n : ChannelId) :
    (stopTransmit c n).All Op.Plain := by
  refine ⟨trivial, fun r => ?_⟩
  cases r with
  | none => trivial
  | some channel =>
    refine ⟨trivial, fun _ => ?_⟩
    dsimp only [Program.bind]
    split
    · trivial
    · refine ⟨nofun, fun r => ?_⟩
      cases r with
      | none => trivial
      | some client =>
        dsimp only [Program.bind]
        split
        · exact (plain_broadcast _ _ _).bind fun _ => trivial
        · trivial

theorem plain_startTransmit (c : ClientId) (n : ChannelId) :
    (startTransmit c n).All Op.Plain := by
  refine ⟨trivial, fun r => ?_⟩
  cases r with
  | none => trivial
  | some channel =>
    refine ⟨trivial, fun _ => ?_⟩
    dsimp only [Program.bind]
    split
    · trivial
    · exact ⟨nofun, fun _ => (plain_broadcast _ _ _).bind fun _ => trivial⟩

theorem plain_leaveChannel (c : ClientId) (n : ChannelId) :
    (leaveChannel c n).All Op.Plain := by
  refine (plain_stopTransmit c n).bind fun _ => ⟨trivial, fun r => ?_⟩
  cases r with
  | none => trivial
  | some channel =>
    refine ⟨trivial, fun removed => ?_⟩
    cases removed with
    | false => exact ⟨trivial, fun _ => trivial⟩
    | true =>
      refine ⟨trivial, fun ids => ⟨trivial, fun _ => ⟨nofun, fun _ => ?_⟩⟩⟩
      exact (plain_broadcast _ _ _).bind fun _ => trivial

theorem signaling_removeClient (c : ClientId) : (removeClient c).All Op.Signaling := by
  have hrecord : (removeRecord c).All Op.Signaling := by
    refine ⟨trivial, fun r => ?_⟩
    cases r with
    | none => trivial
    | some client =>
      dsimp only [Program.bind]
      split
      · exact ⟨trivial, fun _ => ⟨trivial, fun _ => trivial⟩⟩
      · exact ⟨trivial, fun _ => trivial⟩
  refine ⟨trivial, fun client => ?_⟩
  dsimp only [Program.bind]
  split
  · exact ((plain_leaveChannel c _).mono fun _ => Op.Plain.signaling).bind fun _ => hrecord
  · exact hrecord

/-- What a handler does with the result of a channel operation: it goes on, or reports the error. -/
def answer {β : Type} (c : ClientId) (ok : β → Prog Unit) : Except String β → Prog Unit
  | .ok b => ok b
  | .error e => sendError c e

theorem plain_answer {β : Type} {c : ClientId} {ok : β → Prog Unit} (hok : ∀ b, (ok b).All Op.Plain)
    (r : Except String β) : (answer c ok r).All Op.Plain := by
  cases r with
  | ok b => exact hok b
  | error e => exact plain_sendToClient c _

/-- A request of a client is an operation on channels and replies to it. -/
theorem plain_handleIncoming (now : BitVec 64) (c : ClientId) {m : Incoming} (hm : m ≠ .closed) :
    ∃ p : Prog Unit, p.All Op.Plain ∧ handleIncoming now c m = p >>= fun _ => .done .idle := by
  have hreply : ∀ msg, (sendToClient c msg).All Op.Plain := plain_sendToClient c
  have hsilent : (.done () : Prog Unit).All Op.Plain := trivial
  cases m with
  | message m =>
    cases m with
    | auth token => exact ⟨_, hreply _, rfl⟩
    | joinChannel n =>
      refine ⟨joinChannel c n >>= answer c fun members => sendToClient c (.channelJoined n members),
        (plain_joinChannel c n).bind fun r => plain_answer (fun _ => hreply _) r, ?_⟩
      rw [Program.bind_assoc]
      exact congrArg (joinChannel c n >>= ·) (funext fun r => by cases r <;> rfl)
    | leaveChannel n =>
      refine ⟨leaveChannel c n >>= answer c fun _ => sendToClient c (.channelLeft n),
        (plain_leaveChannel c n).bind fun r => plain_answer (fun _ => hreply _) r, ?_⟩
      rw [Program.bind_assoc]
      exact congrArg (leaveChannel c n >>= ·) (funext fun r => by cases r <;> rfl)
    | startTransmit n =>
      refine ⟨startTransmit c n >>= answer c fun _ => .done (),
        (plain_startTransmit c n).bind fun r => plain_answer (fun _ => hsilent) r, ?_⟩
      rw [Program.bind_assoc]
      exact congrArg (startTransmit c n >>= ·) (funext fun r => by cases r <;> rfl)
    | stopTransmit n =>
      refine ⟨stopTransmit c n >>= answer c fun _ => .done (),
        (plain_stopTransmit c n).bind fun r => plain_answer (fun _ => hsilent) r, ?_⟩
      rw [Program.bind_assoc]
      exact congrArg (stopTransmit c n >>= ·) (funext fun r => by cases r <;> rfl)
    | ping timestamp => exact ⟨_, hreply _, rfl⟩
  | invalid e => exact ⟨_, hreply _, rfl⟩
  | closed => exact absurd rfl hm

theorem signaling_handleIncoming (now : BitVec 64) (c : ClientId) (m : Incoming) :
    (handleIncoming now c m).All Op.Signaling := by
  by_cases hm : m = .closed
  · subst hm
    exact (signaling_removeClient c).bind fun _ => trivial
  · obtain ⟨p, hp, h⟩ := plain_handleIncoming now c hm
    rw [h]
    exact (hp.mono fun _ => Op.Plain.signaling).bind fun _ => trivial

theorem signaling_authenticate (port : BitVec 16) (u : BitVec 64) (c : ClientId) (token : String) :
    (authenticate port u c token).All Op.Signaling := by
  refine ⟨trivial, fun sent => ?_⟩
  cases sent with
  | false => trivial
  | true => exact ⟨rfl, fun _ => ⟨trivial, fun _ => trivial⟩⟩

/-! ### The UDP loop -/

theorem wordless_registerUdpAddr (u : BitVec 64) (a : SocketAddr) :
    (registerUdpAddr u a).All Op.Wordless := by
  refine ⟨trivial, fun r => ?_⟩
  cases r with
  | none => trivial
  | some uuid =>
    refine ⟨trivial, fun r => ?_⟩
    cases r with
    | none => exact ⟨trivial, fun _ => trivial⟩
    | some client =>
      have hclose : (do perform (.dropClient uuid true); perform (.dropUdpId u) : Prog Unit).All
          Op.Wordless := ⟨trivial, fun _ => ⟨trivial, fun _ => trivial⟩⟩
      refine ⟨trivial, fun _ => ?_⟩
      dsimp only [Program.bind]
      split
      · split
        · exact ⟨trivial, fun _ => ⟨trivial, fun _ => hclose⟩⟩
        · exact ⟨trivial, fun _ => hclose⟩
      · exact hclose

theorem plain_forwardTargets (u : BitVec 64) (ids : List ClientId) :
    (forwardTargets u ids).All Op.Plain := by
  induction ids with
  | nil => trivial
  | cons mid rest ih =>
    unfold forwardTargets
    refine ⟨trivial, fun r => ih.bind fun targets => ?_⟩
    cases r with
    | none => trivial
    | some cl =>
      dsimp only
      split <;> trivial

theorem plain_collectForwardTargets (n : BitVec 32) (u : BitVec 64) :
    (collectForwardTargets n u).All Op.Plain := by
  refine ⟨trivial, fun r => ?_⟩
  cases r with
  | none => trivial
  | some channel => exact (plain_forwardTargets u _).bind fun _ => ⟨trivial, fun _ => trivial⟩

theorem sends_sendToAll {targets : List SocketAddr} {bytes : List Byte} (h : good bytes) :
    (sendToAll targets bytes).All (Op.Sends good) := by
  induction targets with
  | nil => trivial
  | cons a rest ih => exact ⟨h, fun _ => ih⟩

theorem Program.All.sends (h : p.All Op.Wordless) : p.All (Op.Sends good) :=
  h.mono fun _ => Op.Wordless.sends

/-- The loop sends what answers the datagram. -/
theorem sends_handleDatagram (bytes : List Byte) (src : SocketAddr) :
    (handleDatagram bytes src).All (Op.Sends (Answers bytes)) := by
  unfold handleDatagram
  dsimp only
  split
  · trivial
  split
  · rename_i header hparse
    split
    · rename_i packetType htype
      refine (Program.All.sends (wordless_registerUdpAddr _ _)).bind fun _ => ?_
      have hbyte := PacketType.toU8_of_fromU8 htype
      cases packetType with
      | audio =>
        refine ((plain_collectForwardTargets _ _).mono fun _ h => h.signaling.wordless.sends).bind fun _ => ?_
        exact sends_sendToAll ⟨header, hparse, .inl ⟨hbyte, rfl⟩⟩
      | ping => exact ⟨⟨header, hparse, .inr ⟨hbyte, rfl⟩⟩, fun _ => trivial⟩
      | keepalive => trivial
      | pong => trivial
    · trivial
  · trivial

end AudioPlatform.Server
