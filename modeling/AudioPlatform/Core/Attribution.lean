import AudioPlatform.Core.Datagrams
import AudioPlatform.Core.StreamTable

/-! To whom the engine attributes what it decodes.

A stream keeps its client for as long as the slot is taken, and what is decoded on it comes from a
datagram that bears the client's id. A datagram that is the packet of something said, and is
accepted, is decoded to what was said. -/
namespace AudioPlatform.Core
open AudioPlatform.Server Concurrency

variable {Frame : Type} {L : Library Frame} {e : Engine L} {i : StreamIndex} {c : BitVec 64}

/-- The slot is taken, for this client. -/
def Engine.Seated (e : Engine L) (i : StreamIndex) (c : BitVec 64) : Prop :=
  (e.streams i).active = true ∧ (e.streams i).clientId = c

theorem SameTable.seated {e' : Engine L} (h : SameTable e e') (hi : e.Seated i c) : e'.Seated i c := by
  unfold Engine.Seated
  rw [h.streams]
  exact hi

/-- A datagram leaves taken slots to their clients. -/
theorem Engine.Seated.receive (hi : e.Seated i c) (a : Arrival) :
    (Core.receive e a).1.Seated i c := by
  rcases receive_seats e a with h | ⟨hdr, j, e', -, hseat, hnext⟩
  · exact h.seated hi
  · have hseated : e'.Seated i c := by
      cases hseat with
      | found hf h => exact h.seated hi
      | opened hf hj h =>
        have hij : i ≠ j := by
          rintro rfl
          cases hi.1.symm.trans hj
        refine h.seated ?_
        show ((Function.update e.streams j _) i).active = true ∧ ((Function.update e.streams j _) i).clientId = c
        rw [Function.update_of_ne hij]
        exact hi
    have hgoes := hnext.each i
    exact ⟨hgoes.active.trans hseated.1, hgoes.clientId.trans hseated.2⟩

theorem Engine.Seated.receiveLoop (hi : e.Seated i c) (n : Nat) (arrivals : List Arrival) :
    (Core.receiveLoop n arrivals e).1.Seated i c := by
  induction n generalizing arrivals e with
  | zero => exact hi
  | succ n ih =>
    cases arrivals with
    | nil => exact hi
    | cons a rest =>
      unfold Core.receiveLoop
      split
      · exact hi
      · exact ih (hi.receive a) rest

/-- Mixing clears slots, but leaves their clients' ids where they are. -/
theorem clientId_mix (isConnected : Bool) (e : Engine L) (nowMix : BitVec 64) (i : StreamIndex) :
    ((mix isConnected e nowMix).streams i).clientId = (e.streams i).clientId := by
  obtain ⟨decoder, h⟩ := streams_mix isConnected e nowMix i
  rw [h]
  show ((e.streams i).mixed nowMix).clientId = _
  unfold RemoteStream.mixed
  split
  · split
    · rfl
    · split <;> rfl
  · rfl

/-! ### Decoding -/

/-- What is decoded is decoded for the sender of the datagram. -/
theorem seated_decode {a : Arrival} {data : List Byte} (h : Action.decode i data ∈ (receive e a).2) :
    ∃ hdr, Accepts e a hdr data ∧ (receive e a).1.Seated i hdr.clientId := by
  obtain ⟨-, hdr, data', hacc, -⟩ := mem_receive h
  obtain ⟨j, hs, hstreams, hacts⟩ := streams_receive hacc
  have heq : i = j ∧ data = data' := by
    rw [hacts] at h
    unfold RemoteStream.handsOut at h
    dsimp only at h
    split at h
    · rcases List.mem_cons.mp h with h | h
      · cases h
        exact ⟨rfl, rfl⟩
      · cases List.mem_singleton.mp h
    · cases List.mem_singleton.mp h
      exact ⟨rfl, rfl⟩
  obtain ⟨rfl, rfl⟩ := heq
  obtain ⟨hact, hid⟩ := streamFor_some hs
  refine ⟨hdr, hacc, ?_⟩
  unfold Engine.Seated
  rw [hstreams, Function.update_self, RemoteStream.accepted_active, RemoteStream.accepted_clientId]
  exact ⟨hact, hid⟩

/-- The slot is still the sender's when the loop has ended. -/
theorem seated_receiveLoop {n : Nat} {arrivals : List Arrival} {data : List Byte}
    (h : Action.decode i data ∈ (receiveLoop n arrivals e).2) : ∃ e' a hdr,
      (e', a) ∈ handled n arrivals e ∧ Accepts e' a hdr data ∧
        (receiveLoop n arrivals e).1.Seated i hdr.clientId := by
  induction n generalizing arrivals e with
  | zero => cases h
  | succ n ih =>
    cases arrivals with
    | nil => cases h
    | cons a rest =>
      unfold receiveLoop at h ⊢
      unfold handled
      split at h
      · cases h
      · rename_i hgoes
        rw [if_neg hgoes, if_neg hgoes]
        rcases List.mem_append.mp h with h | h
        · obtain ⟨hdr, hacc, hseated⟩ := seated_decode h
          exact ⟨e, a, hdr, List.mem_cons_self .., hacc, hseated.receiveLoop n rest⟩
        · obtain ⟨e', b, hdr, hmem, hacc, hseated⟩ := ih h
          exact ⟨e', b, hdr, List.mem_cons_of_mem _ hmem, hacc, hseated⟩

/-- What a tick decodes on a slot, it decodes for the client that the slot has after it. -/
theorem decode_process {t : Tick} {data : List Byte}
    (h : Action.decode i data ∈ (aeEngineProcess e t).2) : ∃ e' a hdr,
      (e', a) ∈ handled maxRecvPerTick t.arrivals (transmit e).1 ∧ Accepts e' a hdr data ∧
        ((aeEngineProcess e t).1.streams i).clientId = hdr.clientId := by
  unfold aeEngineProcess at h ⊢
  by_cases hon : e.connected = true
  · rw [if_pos hon] at h ⊢
    have hloop : Action.decode i data ∈
        (receiveLoop maxRecvPerTick t.arrivals (transmit e).1).2 := by
      rcases List.mem_append.mp h with h | h
      · rcases List.mem_append.mp h with h | h
        · rcases List.mem_append.mp h with h | h
          · rcases mem_transmit h with ⟨-, h⟩ | ⟨_, _, h⟩ <;> cases h
          · exact h
        · exact (service_keepalive h).elim
      · exact (service_ping h).elim
    obtain ⟨e', a, hdr, hmem, hacc, hseated⟩ := seated_receiveLoop hloop
    refine ⟨e', a, hdr, hmem, hacc, ?_⟩
    dsimp only
    rw [clientId_mix, (sameTable_ping _ _).streams, (sameTable_keepalive _ _).streams]
    exact hseated.2
  · rw [if_neg hon] at h
    cases h

/-- Only ticks decode, and what they decode has arrived. -/
theorem decode_call {c : Call Frame} {data : List Byte} (h : Action.decode i data ∈ (e.call c).2) :
    ∃ (t : Tick) (e' : Engine L) (a : Arrival) (hdr : RtpHeader), c = .process t ∧ a ∈ t.arrivals ∧
      e'.crypto = e.crypto ∧ e'.clientId = e.clientId ∧
      Accepts e' a hdr data ∧ ((aeEngineProcess e t).1.streams i).clientId = hdr.clientId := by
  cases c with
  | process t =>
    obtain ⟨e', a, hdr, hmem, hacc, hslot⟩ := decode_process h
    have hcontrol := control_handled hmem
    have hcrypto : e'.crypto = e.crypto :=
      (congrArg Control.crypto hcontrol).trans (crypto_transmit e)
    have hid : e'.clientId = e.clientId :=
      (congrArg Control.clientId hcontrol).trans (clientId_transmit e)
    exact ⟨t, e', a, hdr, rfl, arrived_handled hmem, hcrypto, hid, hacc, hslot⟩
  | connect outcome now =>
    have hsends : Action.decode i data ∈ (aeEngineConnect e outcome now).2.2 := h
    unfold aeEngineConnect at hsends
    dsimp only at hsends
    split at hsends
    · cases hsends
    · split at hsends
      · cases mem_aeNetSend hsends
      · cases hsends
  | _ => cases h

/-! ### What was said -/

/-- The packet of something said, where it is accepted, decrypts to what was said. -/
theorem accepts_sentAs {r : Engine L} {a : Arrival} {hdr : RtpHeader} {data : List Byte} {u : Utterance}
    (hkeys : r.crypto.Derived) (hu : u.SentAs L a.data) (h : Accepts r a hdr data) :
    data = u.payload ∧ hdr.clientId = u.clientId ∧ hdr.channelId = u.channelId := by
  obtain ⟨e, hid, hchannel, hkey, hp⟩ := hu
  obtain ⟨encrypted, -, -, hdata⟩ := audioPacket_eq_some.mp hp
  have hheader : packetHeader a.data =
      some ((audioHeader e).withLength (BitVec.ofNat 16 encrypted.length)) := by
    rw [hdata]
    exact packetHeader_serialize _ _
  have hfields := Option.some.inj (hheader.symm.trans h.header)
  have hhdrChannel : hdr.channelId = e.channel.channelIdNum := (congrArg RtpHeader.channelId hfields).symm
  have hsame : findKey r.crypto e.channel.channelIdNum = findKey e.crypto e.channel.channelIdNum := by
    obtain ⟨key, hrkey⟩ := Option.isSome_iff_exists.mp (findKey_of_decrypted h.decrypted)
    rw [hhdrChannel] at hrkey
    rw [hrkey, hkeys _ key hrkey, hchannel, hkey]
  obtain ⟨hread, hlen, -, haad, hdec⟩ := audioPacket_arrives (r := r) hp hsame
  have hhdr := Option.some.inj (hread.symm.trans h.header)
  have hdecrypted := h.decrypted
  unfold Engine.decrypted at hdecrypted
  dsimp only at hdecrypted
  rw [haad, hhdrChannel, ← hhdr] at hdecrypted
  refine ⟨?_, (congrArg RtpHeader.clientId hfields).symm.trans hid, hhdrChannel.trans hchannel⟩
  have hpayload := hlen ▸ hdec
  exact Option.some.inj (hdecrypted.symm.trans hpayload)

end AudioPlatform.Core
