import AudioPlatform.Core.Capture
import AudioPlatform.EndToEnd.Air

/-! Who is heard.

What a client hands to a decoder is a payload that another client has said before, as it is. It came in
a datagram that the server has forwarded, it is decoded on the stream of the one that said it, and both
hold the same key for its channel. What a decoder makes of it is the codec's. -/
namespace AudioPlatform.EndToEnd
open AudioPlatform.Core AudioPlatform.Server Concurrency

variable {Frame ι : Type} {L : Library Frame} {D : Deployment} {air : Air L ι}
  {packet : List Byte}

variable [DecidableEq ι]

/-- Client `i` decodes the payload on the stream in the move. -/
def Air.Decodes (D : Deployment) (air : Air L ι) (m : AirMove Frame ι) (i : ι)
    (slot : StreamIndex) (data : List Byte) : Prop :=
  (i, Action.decode slot data) ∈ (air.step D m).2

/-- What is said in `x` comes in the packet to client `i`, which decodes it on the stream in the step to `after`. -/
structure Conveyed (air after : Air L ι) (i : ι) (slot : StreamIndex) (x : ι × Utterance)
    (packet : List Byte) : Prop where
  said : x ∈ air.said
  /-- The packet is the one that the payload was sent in, under the derived key of the channel. -/
  sent : x.2.SentAs L packet
  uplink : packet ∈ air.uplink
  forwarded : packet ∈ air.downlink
  other : x.2.clientId ≠ (air.clients i).clientId
  key : findKey (air.clients i).crypto x.2.channelId = some (deriveKeyFromChannel x.2.channelId)
  stream : ((after.clients i).streams slot).clientId = x.2.clientId

/-- What a client decodes was said, and its stream is the speaker's. -/
theorem Air.Sound.decodes {m : AirMove Frame ι} {i : ι} {slot : StreamIndex}
    {data : List Byte} (h : air.Sound) (hdecodes : air.Decodes D m i slot data) :
    ∃ x packet, x.2.payload = data ∧ Conveyed air (air.step D m).1 i slot x packet := by
  unfold Air.Decodes at hdecodes
  cases m with
  | server m => cases m <;> cases hdecodes
  | deliver packet src =>
    unfold Air.step at hdecodes
    dsimp only at hdecodes
    split at hdecodes <;> cases hdecodes
  | call j c =>
    unfold Air.step at hdecodes ⊢
    dsimp only at hdecodes ⊢
    split at hdecodes
    · rename_i hhears
      rw [if_pos hhears]
      obtain ⟨act, hact, heq⟩ := List.mem_map.mp hdecodes
      obtain ⟨rfl, rfl⟩ := Prod.mk.inj heq
      obtain ⟨t, e', a, hdr, rfl, ha, hcrypto, hid, hacc, hslot⟩ := decode_call hact
      have hdata : a.data ∈ air.downlink := by
        refine (hhears a ha).resolve_left fun hempty => ?_
        have hlong := hacc.payload
        rw [hempty] at hlong
        exact absurd hlong (by decide)
      obtain ⟨hup, x, hx, hsent⟩ := h.spoken hdata hacc.header hacc.audio
      have hkeys : e'.crypto.Derived := hcrypto ▸ (h.clients j).keys
      obtain ⟨rfl, hclient, hchannel⟩ := accepts_sentAs hkeys hsent hacc
      refine ⟨x, a.data, rfl, hx, hsent, hup, hdata, ?_, ?_, ?_⟩
      · rw [← hclient, ← hid]
        exact hacc.other
      · obtain ⟨key, hkey⟩ := Option.isSome_iff_exists.mp (findKey_of_decrypted hacc.decrypted)
        rw [← hchannel, ← hcrypto, hkey, hkeys _ key hkey]
      · dsimp only
        rw [Function.update_self]
        exact hslot.trans hclient
    · cases hdecodes

/-- **What is heard was said.** In every run of the server and its clients, whatever is lost, late,
repeated, out of order or misdirected on the way, a payload that a client decodes was returned by
another client's encoder before, as it is. It was sent in a datagram under the key of its channel, and
the server has sent that datagram on; the listener has the same key for the channel, and the stream that
the payload is decoded on bears the id of the client that said it. -/
theorem decoded_was_said [Zero Frame] {clients : ι → Engine L}
    (hnew : ∀ i, ∃ config, aeEngineCreate L config = some (clients i)) (moves : List (AirMove Frame ι))
    (m : AirMove Frame ι) {i : ι} {slot : StreamIndex} {data : List Byte}
    (hdecodes : (Machine.run (Air.step D) (Air.initial D clients) moves).Decodes D m i slot data) :
    ∃ x packet, x.2.payload = data ∧ Conveyed (Machine.run (Air.step D) (Air.initial D clients) moves)
      (Machine.run (Air.step D) (Air.initial D clients) (moves ++ [m])) i slot x packet := by
  rw [Machine.run_append]
  exact (sound_run hnew moves).decodes hdecodes

/-! ### A word through the server -/

/-- What client 8 sends on "channel-1". -/
def wordOf8 : List Byte :=
  [0, 0, 0, 0, 0, 0, 0, 1, 0, 0, 0, 0, 0, 0, 0, 8, 0, 1, 0, 29, 0, 0, 0, 1, 0, 0, 0, 8, 0, 0, 0, 0, 59,
    84, 207, 104, 106, 82, 67, 30, 89, 54, 60, 143, 158, 28, 253, 152, 146]

/-- The keepalive of client 7. -/
def keepaliveOf7 : List Byte := [0, 0, 0, 0, 0, 0, 0, 0, 0, 0, 0, 0, 0, 0, 0, 7, 1, 0, 0, 0]

set_option maxRecDepth 4000 in
theorem audioPacket_wordOf8 : audioPacket (speaker 8 silence).encoding [1] = some wordOf8 := by
  show audioPacket (listener 8) [1] = _
  decide +kernel

/-- Client 7 listens, and client 8 talks. -/
def listening : List (Call (ℚ × ℚ)) := tuneIn

def talking : List (Call (ℚ × ℚ)) :=
  [.setClientId 8, .connect .connected 0, .joinChannel channelOne] ++ talk silence

/-- The server is told of client 7, and forwards. -/
def forwarding : List Move :=
  aloneInChannel ++ .datagram keepaliveOf7 ⟨10, 20⟩ :: List.replicate 6 (.step .udp true) ++
    .datagram wordOf8 ⟨30, 40⟩ :: List.replicate 5 (.step .udp true)

def wordThroughServer : List (AirMove (ℚ × ℚ) Bool) :=
  listening.map (.call false) ++ talking.map (.call true) ++ forwarding.map ofMove

theorem play_forwarding : ∃ cfg, play oneShard forwarding (Server.initial oneShard) = some cfg ∧
    cfg.shared.world.datagrams.map Prod.snd = [wordOf8] := by
  have hplay : (play oneShard forwarding (Server.initial oneShard)).map
      (fun cfg => cfg.shared.world.datagrams.map Prod.snd) = some [wordOf8] := by decide +kernel
  exact Option.map_eq_some_iff.mp hplay

theorem outputs_talk (clientId : BitVec 64) {frames : List (ℚ × ℚ)} (hne : frames ≠ []) :
    Machine.outputs Engine.call (listener clientId) (talk frames) =
      (aeEngineProcess (speaker clientId frames) ⟨[], 0, 0⟩).2 := by
  have hwrite := writeCapture_eq (aeEngineStartTransmit (listener clientId) channelOne).1 hne
  show [] ++ ([] ++ ((aeEngineProcess (aeEngineWriteCapture
    (aeEngineStartTransmit (listener clientId) channelOne).1 frames).1 _).2 ++ [])) = _
  rw [hwrite, List.nil_append, List.nil_append, List.append_nil]
  rfl

theorem leaves_talking : wordOf8 ∈ (Machine.outputs Engine.call newEngine talking).filterMap
    Action.leaves := by
  have hsent : Action.send wordOf8 true ∈ (transmit (speaker 8 silence)).2 := by
    obtain ⟨packet, hp, hsent⟩ := transmit_speaker 8 length_silence
    obtain rfl := Option.some.inj (audioPacket_wordOf8.symm.trans hp)
    rw [hsent]
    exact List.mem_cons_of_mem _ (List.mem_singleton_self _)
  have hprocess : Action.send wordOf8 true ∈ (aeEngineProcess (speaker 8 silence) ⟨[], 0, 0⟩).2 := by
    rcases process_cases (speaker 8 silence) ⟨[], 0, 0⟩ with ⟨hoff, -⟩ | ⟨-, service, -, h⟩
    · cases hoff
    · rw [h]
      exact List.mem_append_left _ (List.mem_append_left _ hsent)
  refine List.mem_filterMap.mpr ⟨Action.send wordOf8 true, ?_, rfl⟩
  show _ ∈ Machine.outputs Engine.call newEngine
    ([.setClientId 8, .connect .connected 0, .joinChannel channelOne] ++ talk silence)
  rw [Machine.outputs_append]
  refine List.mem_append_right _ ?_
  have hlistener : Machine.run Engine.call newEngine
      [.setClientId 8, .connect .connected 0, .joinChannel channelOne] = listener 8 := rfl
  rw [hlistener, outputs_talk 8 silence_ne_nil]
  exact hprocess

theorem leaves_listening : keepaliveOf7 ∈ (Machine.outputs Engine.call newEngine listening).filterMap
    Action.leaves :=
  List.mem_singleton_self keepaliveOf7

theorem quiet_calls {c : Call (ℚ × ℚ)} (hc : c ∈ listening ++ talking) (downlink : List (List Byte)) :
    Call.Hears c downlink := by
  simp only [listening, talking, tuneIn, talk, List.cons_append, List.nil_append, List.mem_cons,
    List.not_mem_nil, or_false] at hc
  rcases hc with rfl | rfl | rfl | rfl | rfl | rfl | rfl | rfl | rfl <;> simp [Call.Hears]

/-- The word is on the air, and client 7 is where it was. -/
theorem run_wordThroughServer : ∃ air : Air toneLibrary Bool,
    Machine.run (Air.step oneShard) (Air.initial oneShard fun _ => newEngine) wordThroughServer = air ∧
      air.clients false = listener 7 ∧ air.downlink = [wordOf8] := by
  obtain ⟨cfg, hplay, hdownlink⟩ := play_forwarding
  obtain ⟨heard, hlistening, hserver, hclients, huplink⟩ := run_calls (D := oneShard)
    (Air.initial oneShard fun _ => newEngine) false
    fun c (hc : c ∈ listening) => quiet_calls (List.mem_append_left _ hc)
  obtain ⟨said, htalking, hserver', hclients', huplink'⟩ := run_calls (D := oneShard) heard true
    fun c (hc : c ∈ talking) => quiet_calls (List.mem_append_right _ hc)
  have hnew : heard.clients true = newEngine := by
    rw [hclients, Function.update_of_ne (by decide)]
    rfl
  have hsent : ∀ bytes src, .datagram bytes src ∈ forwarding → bytes ∈ said.uplink := by
    intro bytes src hmem
    rw [huplink', huplink, hnew]
    simp [forwarding, aloneInChannel] at hmem
    rcases hmem with ⟨rfl, -⟩ | ⟨rfl, -⟩
    · exact List.mem_append_left _ (List.mem_append_right _ leaves_listening)
    · exact List.mem_append_right _ leaves_talking
  unfold wordThroughServer
  rw [Machine.run_append, Machine.run_append, hlistening, htalking,
    run_play said hsent ((congrArg (play oneShard forwarding) (hserver'.trans hserver)).trans hplay)]
  refine ⟨_, rfl, ?_, hdownlink⟩
  show said.clients false = _
  rw [hclients', Function.update_of_ne (by decide), hclients, Function.update_self]
  rfl

/-- Client 7 decodes what client 8 has said. -/
theorem decoded_was_said_word : ∃ (a : Arrival) (slot : StreamIndex) (x : Bool × Utterance)
    (packet : List Byte), a.data = wordOf8 ∧ x.2.payload = [1] ∧
    Conveyed (Machine.run (Air.step oneShard) (Air.initial oneShard fun _ => newEngine) wordThroughServer)
      (Machine.run (Air.step oneShard) (Air.initial oneShard fun _ => newEngine)
        (wordThroughServer ++ [.call false (.process ⟨[a], 0, 0⟩)])) false slot x packet := by
  obtain ⟨air, hrun, hlistener, hdownlink⟩ := run_wordThroughServer
  have hfits : wordOf8.length ≤ aeMaxPacketSize := by decide
  have hacc : Accepts (listener 7) (arriving wordOf8 hfits)
      ((audioHeader (speaker 8 silence).encoding).withLength (receivedLength [1])) [1] :=
    accepts_audioPacket audioPacket_wordOf8 (by decide) rfl rfl (by decide) (.inr ⟨⟨0, by decide⟩, rfl⟩)
  obtain ⟨slot, hdecode⟩ := decode_receive hacc
  have hprocess : Action.decode slot [1] ∈
      (aeEngineProcess (listener 7) ⟨[arriving wordOf8 hfits], 0, 0⟩).2 := by
    rcases process_cases (listener 7) ⟨[arriving wordOf8 hfits], 0, 0⟩ with
      ⟨hoff, -⟩ | ⟨-, service, -, hacts⟩
    · cases hoff
    · rw [hacts, transmit_silent rfl, show maxRecvPerTick = 19 + 1 from rfl,
        receiveLoop_cons (show wordOf8 ≠ [] by decide) rfl]
      exact List.mem_append_left _ (List.mem_append_right _ (List.mem_append_left _ hdecode))
  have hdecodes : air.Decodes oneShard (.call false (.process ⟨[arriving wordOf8 hfits], 0, 0⟩)) false
      slot [1] := by
    have hhears : Call.Hears (.process ⟨[arriving wordOf8 hfits], 0, 0⟩ : Call (ℚ × ℚ)) air.downlink := by
      intro a ha
      obtain rfl := List.mem_singleton.mp ha
      rw [hdownlink]
      exact .inr (List.mem_singleton_self _)
    unfold Air.Decodes Air.step
    dsimp only
    rw [if_pos hhears, hlistener]
    exact List.mem_map_of_mem hprocess
  rw [← hrun] at hdecodes
  obtain ⟨x, packet, hpayload, hconveyed⟩ := decoded_was_said (fun _ => ⟨none, create_newEngine⟩)
    wordThroughServer _ hdecodes
  exact ⟨_, slot, x, packet, rfl, hpayload, hconveyed⟩

end AudioPlatform.EndToEnd
