import AudioPlatform.Core.Codecs
import AudioPlatform.Core.KeyTable
import AudioPlatform.Core.Naming
import AudioPlatform.Server.Serial
import AudioPlatform.Wire.Text
import AudioPlatform.Windows.Gui

/-! The names of the channels and their numbers.

The server turns the number in a header into a name; the engine takes the number from the
name it joins. The two undo each other as long as the number fits an `int`. -/
namespace AudioPlatform.Windows
open AudioPlatform.Concurrency AudioPlatform.Core AudioPlatform.Server AudioPlatform.Wire

variable {Frame : Type} {L : Library Frame}

/-! ### The number at the end of a name -/

theorem strrchr_eq_none {c : Byte} {text : CString} (h : c ∉ text) : strrchr c text = none := by
  induction text with
  | nil => rfl
  | cons b rest ih =>
    have hb : b ≠ c := fun hbc => h (hbc ▸ List.mem_cons_self ..)
    rw [strrchr, ih fun hc => h (List.mem_cons_of_mem b hc), if_neg hb]

/-- The last mark is the one with no mark behind it. -/
theorem strrchr_last {c : Byte} {tail : CString} (head : CString) (h : c ∉ tail) :
    strrchr c (head ++ c :: tail) = some tail := by
  induction head with
  | nil => rw [List.nil_append, strrchr, strrchr_eq_none h, if_pos rfl]
  | cons b rest ih => rw [List.cons_append, strrchr, ih]

/-- The digits of a number, as the name has them. -/
def digitBytes (n : Nat) : CString :=
  (Nat.toDigits 10 n).map fun digit => BitVec.ofNat 8 digit.toNat

theorem channelNumbered_eq (n : Nat) :
    channelNumbered n = [0x63, 0x68, 0x61, 0x6E, 0x6E, 0x65, 0x6C] ++ 0x2D :: digitBytes n := rfl

theorem toNat_digit {n : Nat} {c : Char} (hc : c ∈ Nat.toDigits 10 n) :
    0x30 ≤ c.toNat ∧ c.toNat ≤ 0x39 := by
  have hdigit := Nat.isDigit_of_mem_toDigits (by decide) (by decide) hc
  simpa [Char.isDigit, UInt32.le_iff_toNat_le] using hdigit

theorem isDigit_digitBytes {n : Nat} {b : Byte} (hb : b ∈ digitBytes n) :
    Core.isDigit b = true := by
  obtain ⟨c, hc, rfl⟩ := List.mem_map.mp hb
  have := toNat_digit hc
  simp only [Core.isDigit, Bool.and_eq_true, decide_eq_true_eq]
  constructor <;> bv_omega

/-- The digits are read as the number. -/
theorem atoi_digitBytes (n : Nat) : atoi (digitBytes n) = n := by
  have hall : (digitBytes n).takeWhile Core.isDigit = digitBytes n :=
    List.takeWhile_eq_self_iff.mpr fun _ => isDigit_digitBytes
  have hfold : ∀ (cs : List Char) (m : Nat), (∀ c ∈ cs, 0x30 ≤ c.toNat ∧ c.toNat ≤ 0x39) →
      (cs.map fun c => BitVec.ofNat 8 c.toNat).foldl (fun m b => 10 * m + (b.toNat - 0x30)) m =
        Nat.ofDigitChars 10 cs m := by
    intro cs
    induction cs with
    | nil => exact fun _ _ => Nat.ofDigitChars_nil.symm
    | cons c cs ih =>
      intro m hcs
      have hc := hcs c (List.mem_cons_self ..)
      have hbyte : (BitVec.ofNat 8 c.toNat).toNat = c.toNat := by
        rw [BitVec.toNat_ofNat]
        omega
      rw [List.map_cons, List.foldl_cons, hbyte, Nat.ofDigitChars_cons,
        ih _ fun d hd => hcs d (List.mem_cons_of_mem c hd)]
      rfl
  rw [atoi, hall, digitBytes, hfold _ _ fun _ => toNat_digit, Nat.ofDigitChars_ten_toDigits]

/-- The last dash is the one before the digits, of which there is at least one. -/
theorem channelStrToId_numbered (n : Nat) :
    channelStrToId (channelNumbered n) = BitVec.ofNat 32 n := by
  have hdash : (0x2D : Byte) ∉ digitBytes n := fun hmem => by
    have := isDigit_digitBytes hmem
    cases this
  have hne : digitBytes n ≠ [] := by simp [digitBytes, Nat.toDigits_ne_nil]
  obtain ⟨d, ds, hds⟩ := List.exists_cons_of_ne_nil hne
  have hd : Core.isDigit d = true := isDigit_digitBytes (hds ▸ List.mem_cons_self ..)
  rw [channelStrToId, channelNumbered_eq, strrchr_last _ hdash, hds]
  dsimp only
  rw [if_pos hd, ← hds, atoi_digitBytes]

/-! ### The name the server forms -/

theorem cString_channelName (n : BitVec 32) : cString (channelName n) = channelNumbered n.toNat := by
  have hname : channelName n = String.ofList ("channel-".toList ++ Nat.toDigits 10 n.toNat) := by
    rw [channelName, String.ofList_append, Nat.toString_eq_ofList_toDigits]
    rfl
  have hascii : ∀ c ∈ "channel-".toList ++ Nat.toDigits 10 n.toNat, c.toNat < 0x80 := by
    intro c hc
    rcases List.mem_append.mp hc with hword | hc
    · have hall : ("channel-".toList.all fun c => c.toNat < 0x80) = true := by decide
      exact of_decide_eq_true (List.all_eq_true.mp hall c hword)
    · exact lt_of_le_of_lt (toNat_digit hc).2 (by decide)
  show utf8 (channelName n) = _
  rw [hname, utf8_ofList hascii, List.map_append]
  rfl

theorem channelStrToId_channelName (n : BitVec 32) : channelStrToId (cString (channelName n)) = n := by
  rw [cString_channelName, channelStrToId_numbered, BitVec.ofNat_toNat, BitVec.setWidth_eq]

/-! ### What a client sends -/

/-- The call, naming channel `b` if it names one that is joined. -/
def renamed (b : CString) : Call Frame → Call Frame
  | .leaveChannel _ => .leaveChannel b
  | .startTransmit _ => .startTransmit b
  | .stopTransmit _ => .stopTransmit b
  | .setChannelVolume _ volume => .setChannelVolume b volume
  | .setChannelMuted _ muted => .setChannelMuted b muted
  | c => c

theorem named_renamed {a b : CString} (c : Call Frame) (h : (renamed b c).named = some a) : a = b := by
  cases c <;> simp_all [renamed, Call.named]

/-- The number of the channel is that of the name last joined, and the engine transmits only in
a channel. -/
structure Seated (s : Named L) : Prop where
  number : s.engine.channel.active = true →
    s.engine.channel.channelIdNum = channelStrToId s.joined
  active : s.engine.transmitting = true → s.engine.channel.active = true

variable {s : Named L}

theorem Seated.tuned (h : Seated s) : Tuned { s with started := s.joined } :=
  ⟨h.number, h.active, fun ht => h.number (h.active ht)⟩

/-- The engine does not look at the names of the other calls. -/
theorem call_renamed (e : Engine L) (b : CString) (c : Call Frame) : e.call (renamed b c) = e.call c := by
  cases c <;> rfl

/-- So it is as if they named the joined channel. -/
theorem seated_call (h : Seated s) (c : Call Frame) : Seated (s.call c).1 := by
  have hnames : NamesJoined { s with started := s.joined } (renamed s.joined c) :=
    fun a ha _ hne => absurd (named_renamed c ha) hne
  have hengine : ({ s with started := s.joined }.call (renamed s.joined c)).1.engine =
      (s.call c).1.engine := congrArg Prod.fst (call_renamed s.engine s.joined c)
  have hjoined : ({ s with started := s.joined }.call (renamed s.joined c)).1.joined =
      (s.call c).1.joined := by
    cases c <;> rfl
  obtain ⟨hnumber, hactive, -⟩ := tuned_call h.tuned hnames
  rw [hengine, hjoined] at hnumber
  rw [hengine] at hactive
  exact ⟨hnumber, hactive⟩

theorem seated_create [Zero Frame] {config : Option AeConfig} {e : Engine L}
    (h : aeEngineCreate L config = some e) : Seated ⟨e, [], []⟩ :=
  ⟨(tuned_create h).number, (tuned_create h).active⟩

/-- Whatever has been called, audio is for the channel that was joined last. -/
theorem packets_joined (h : Seated s) (c : Call Frame) : ∀ packet ∈ audioPackets (s.call c).2,
    packetChannel packet = some (channelStrToId s.joined) := by
  intro packet hpacket
  by_cases htick : c.Ticks
  · cases c with
    | process t =>
      obtain ⟨htx, hchannel⟩ := audio_process hpacket
      rw [hchannel, h.number (h.active htx)]
    | _ => exact absurd htick id
  · have hmem : packet ∈ audioPackets (s.engine.call c).2 := hpacket
    rw [audioPackets_call s.engine htick] at hmem
    cases hmem

/-! ### What the server makes of it -/

theorem parse_take (bytes : List Byte) {k : Nat} (hk : routingHeaderSize ≤ k) :
    RoutingHeader.parse (bytes.take k) = RoutingHeader.parse bytes := by
  have hget : ∀ i < routingHeaderSize, (bytes.take k).getD i 0 = bytes.getD i 0 := by
    intro i hi
    rw [List.getD_eq_getElem?_getD, List.getD_eq_getElem?_getD, List.getElem?_take_of_lt (by omega)]
  unfold RoutingHeader.parse
  rw [List.length_take]
  by_cases hlen : bytes.length < routingHeaderSize
  · rw [if_pos hlen, if_pos (by omega)]
  · rw [if_neg hlen, if_neg (by omega)]
    unfold routingHeaderSize at hget
    simp only [hget, Nat.reduceLT]

/-- An audio packet parses as one, for the channel its header has. -/
theorem parse_audio {packet : List Byte} {acts : List (Action Frame)} {n : BitVec 32}
    (hmem : packet ∈ audioPackets acts) (hchannel : packetChannel packet = some n) :
    ∃ header, RoutingHeader.parse packet = some header ∧
      PacketType.fromU8 header.packetType = some .audio ∧ header.channelId = n := by
  obtain ⟨act, -, hact⟩ := List.mem_filterMap.mp hmem
  cases act with
  | send p sock =>
    unfold Action.audio at hact
    dsimp only at hact
    split at hact
    · rename_i hdr hparse
      split at hact
      · rename_i htype
        obtain rfl := Option.some.inj hact
        rw [packetChannel, hparse] at hchannel
        have hmap := (parseHeader_eq p fun _ => 0).symm.trans hparse
        obtain ⟨header, hheader, rfl⟩ := Option.map_eq_some_iff.mp hmap
        refine ⟨header, hheader, ?_, Option.some.inj hchannel⟩
        show PacketType.fromU8 (ofRoutingHeader header).packetType = _
        rw [htype]
        rfl
      · cases hact
    · cases hact
  | _ => cases hact

/-- **Names and numbers agree.** The engine's number for the name that the server gives to channel
`N` is `N`; names of that form have the numbers that tell them apart; and whatever calls follow
the join of such a name, the server takes the audio packets that are sent to its members. -/
theorem channel_names_agree [Zero Frame] {config : Option AeConfig} {e : Engine L}
    (hnew : aeEngineCreate L config = some e) {N : Nat} (hN : N < 2 ^ 31) :
    (channelStrToId (cString (channelName (BitVec.ofNat 32 N)))).toNat = N ∧
    (∀ M < 2 ^ 31, channelName (BitVec.ofNat 32 M) ≠ channelName (BitVec.ofNat 32 N) →
      channelStrToId (cString (channelName (BitVec.ofNat 32 M))) ≠
        channelStrToId (cString (channelName (BitVec.ofNat 32 N)))) ∧
    ∀ calls : List (Call Frame),
      (Machine.run Named.call ⟨e, [], []⟩ calls).joined = cString (channelName (BitVec.ofNat 32 N)) →
      ∀ c, ∀ packet ∈ audioPackets ((Machine.run Named.call ⟨e, [], []⟩ calls).call c).2,
        ∃ header, RoutingHeader.parse packet = some header ∧
          channelName header.channelId = channelName (BitVec.ofNat 32 N) ∧
          ∀ up src w, ∃ sent, (handleDatagram packet src).alone (effect up) w =
            some ((), ⟨w.state.registered header.clientId src, sent, w.datagrams ++
              ((w.state.members (channelName (BitVec.ofNat 32 N))).elems.filterMap
                ((w.state.registered header.clientId src).target header.clientId)).map
                  fun a => (a, packet.take maxUdpPacketSize)⟩) := by
  refine ⟨?_, fun M _ hne hsame => hne ?_, fun calls hjoined c packet hpacket => ?_⟩
  · rw [channelStrToId_channelName, BitVec.toNat_ofNat]
    exact Nat.mod_eq_of_lt (by omega)
  · rw [channelStrToId_channelName, channelStrToId_channelName] at hsame
    rw [hsame]
  · have hstep : ∀ (s : Named L) (c : Call Frame), True → Seated s → Seated (s.call c).1 :=
      fun _ c _ h => seated_call h c
    have hseated : Seated (Machine.run Named.call ⟨e, [], []⟩ calls) :=
      Machine.run_induction hstep (seated_create hnew) fun _ _ => trivial
    have hchannel := packets_joined hseated c packet hpacket
    rw [hjoined, channelStrToId_channelName] at hchannel
    obtain ⟨header, hparse, haudio, hnum⟩ := parse_audio hpacket hchannel
    refine ⟨header, hparse, by rw [hnum], fun up src w => ?_⟩
    have hparse' : RoutingHeader.parse (packet.take maxUdpPacketSize) = some header := by
      rw [parse_take packet (by decide), hparse]
    obtain ⟨sent, dgs, ha, hdgs, -⟩ := alone_handleDatagram up src w hparse' haudio
    rw [ha, hdgs rfl, hnum]
    exact ⟨sent, rfl⟩

/-- Calls before the first tick send no audio. -/
theorem audioPackets_outputs (e : Engine L) {calls : List (Call Frame)} (h : ∀ c ∈ calls, ¬ c.Ticks)
    (c : Call Frame) : audioPackets (Machine.outputs Engine.call e (calls ++ [c])) =
      audioPackets ((Machine.run Engine.call e calls).call c).2 := by
  induction calls generalizing e with
  | nil => exact congrArg audioPackets (List.append_nil _)
  | cons first rest ih =>
    rw [List.cons_append, Machine.outputs, audioPackets_append,
      audioPackets_call e (h first (List.mem_cons_self ..)), List.nil_append,
      ih _ fun d hd => h d (List.mem_cons_of_mem first hd)]
    rfl

/-- A client that talks on "channel-1". -/
theorem channel_names_agree_talk : ∃ packet ∈ audioPackets ((Machine.run Named.call
    ⟨newEngine, [], []⟩ (tuneIn ++ [.startTransmit channelOne, .writeCapture silence])).call
      (.process ⟨[], 0, 0⟩)).2,
    ∃ header, RoutingHeader.parse packet = some header ∧
      channelName header.channelId = "channel-1" := by
  obtain ⟨packet, hsent, -⟩ := audioPackets_talk 7 length_silence
  have hquiet : ∀ c ∈ [Call.startTransmit channelOne, .writeCapture silence], ¬ c.Ticks := by
    intro c hc
    rcases List.mem_pair.mp hc with rfl | rfl <;> exact id
  have hcall : ∀ (s : Named toneLibrary) (c : Call (ℚ × ℚ)), (s.call c).2 = (s.engine.call c).2 :=
    fun _ _ => rfl
  have hlistens : Machine.run Engine.call newEngine tuneIn = listener 7 := rfl
  have hmem : packet ∈ audioPackets ((Machine.run Named.call
      ⟨newEngine, [], []⟩ (tuneIn ++ [.startTransmit channelOne, .writeCapture silence])).call
        (.process ⟨[], 0, 0⟩)).2 := by
    rw [hcall, engine_run, Machine.run_append, hlistens, ← audioPackets_outputs _ hquiet]
    exact hsent ▸ List.mem_singleton_self packet
  obtain ⟨header, hparse, hname, -⟩ := (channel_names_agree create_newEngine (N := 1)
    (by decide)).2.2 _ rfl _ packet hmem
  exact ⟨packet, hmem, header, hparse, hname.trans (by decide)⟩

end AudioPlatform.Windows
