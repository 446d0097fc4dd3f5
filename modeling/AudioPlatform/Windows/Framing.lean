import AudioPlatform.Windows.WebSocket

/-! What the Windows client receives of a stream of WebSocket frames.

However the stream is cut into chunks, one message takes one frame off it. So the events are those of
the texts, and the pongs are those of the pings, until the connection ends. -/
namespace AudioPlatform.Windows
open Wire

variable {Seed : Type} (rand : Seed → Nat × Seed)

/-! ### The receive thread -/

def disconnectedEvent : WsEvent := ⟨utf8 "disconnected", [], [], [], [], 0, 0, 0⟩

/-- The events for the callback, and the connection at the end. -/
def recvLoop (c : WsConnection Seed) : List WsEvent × WsConnection Seed :=
  if c.ws.connected then
    match _h : recvWsMessage rand c with
    | none => ([disconnectedEvent], { c with ws := { c.ws with connected := false } })
    | some (msg, c') =>
      let r := recvLoop c'
      (if msg = [] then r.1 else parseAndDispatch msg :: r.1, r.2)
  else ([], c)
termination_by c.incoming.bytes.length
decreasing_by exact (recvWsMessage_some _h).2

section Loop
variable {rand} {c c' : WsConnection Seed}

theorem recvLoop_none (hconnected : c.ws.connected = true) (h : recvWsMessage rand c = none) :
    recvLoop rand c = ([disconnectedEvent], { c with ws := { c.ws with connected := false } }) := by
  rw [recvLoop, if_pos hconnected]
  split
  · rfl
  · rename_i hsome
    rw [h] at hsome
    cases hsome

theorem recvLoop_some {msg : Text} (hconnected : c.ws.connected = true)
    (h : recvWsMessage rand c = some (msg, c')) : recvLoop rand c =
      ((if msg = [] then [] else [parseAndDispatch msg]) ++ (recvLoop rand c').1,
        (recvLoop rand c').2) := by
  rw [recvLoop, if_pos hconnected]
  split
  · rename_i hnone
    rw [h] at hnone
    cases hnone
  · rename_i hsome
    obtain ⟨rfl, rfl⟩ := Prod.mk.inj (Option.some.inj (h.symm.trans hsome))
    split <;> rfl

end Loop

/-! ### A stream of frames -/

/-- The frames that are handled: those before the first that ends the connection. -/
def heard (frames : List Frame) : List Frame := frames.takeWhile fun f => !decide (Ends f)

/-- The texts in them that are not empty. -/
def texts (frames : List Frame) : List Text :=
  ((heard frames).filter fun f => f.opcode = Frame.opText ∧ f.payload ≠ []).map Frame.payload

/-- How many of them are pings. -/
def pings (frames : List Frame) : Nat := (heard frames).countP fun f => f.opcode = Frame.opPing

/-- A pong has no payload. -/
def pongFrame (mask : Mask) : Frame := ⟨true, Frame.opPong, some mask, [], by decide⟩

section Stream
variable {c : WsConnection Seed} {f : Frame}

theorem texts_of_ends (h : Ends f) (frames : List Frame) : texts (f :: frames) = [] := by
  simp [texts, heard, h]

theorem pings_of_ends (h : Ends f) (frames : List Frame) : pings (f :: frames) = 0 := by
  simp [pings, heard, h]

theorem heard_cons (h : ¬ Ends f) (frames : List Frame) : heard (f :: frames) = f :: heard frames :=
  List.takeWhile_cons_of_pos (by simp [h])

theorem texts_cons (h : ¬ Ends f) (frames : List Frame) :
    texts (f :: frames) = (if textOf f = [] then [] else [textOf f]) ++ texts frames := by
  unfold texts textOf
  rw [heard_cons h, List.filter_cons]
  by_cases htext : f.opcode = Frame.opText
  · by_cases hpayload : f.payload = [] <;> simp [htext, hpayload]
  · simp [htext]

theorem pings_cons (h : ¬ Ends f) (frames : List Frame) :
    pings (f :: frames) = pings frames + if f.opcode = Frame.opPing then 1 else 0 := by
  unfold pings
  rw [heard_cons h, List.countP_cons]
  simp

theorem encode_pongFrame (mask : Mask) : (pongFrame mask).encode = [0x8a, 0x80] ++ mask.toList := by
  simp [Frame.encode, pongFrame, maskBit, lengthCode, Frame.maskBytes, Frame.masked, Frame.opPong,
    Mask.apply]

@[simp] theorem ws_answer (c : WsConnection Seed) (f : Frame) : (answer rand c f).ws = c.ws := by
  unfold answer
  split <;> rfl

@[simp] theorem incoming_answer (c : WsConnection Seed) (f : Frame) :
    (answer rand c f).incoming = c.incoming := by
  unfold answer
  split <;> rfl

/-- A ping is answered with a pong, and nothing else is. -/
theorem answer_open (h : c.outgoing.Open) (f : Frame) : (answer rand c f).outgoing.Open ∧
    ∃ masks : List Mask, masks.length = (if f.opcode = Frame.opPing then 1 else 0) ∧
      (answer rand c f).outgoing.written =
        c.outgoing.written ++ masks.flatMap fun mask => (pongFrame mask).encode := by
  unfold answer
  split
  · obtain ⟨-, hwritten, hopen⟩ := sendAll_open h ([0x8a, 0x80] ++ (randomMask rand c.seed).1.toList)
    refine ⟨hopen, [(randomMask rand c.seed).1], rfl, ?_⟩
    rw [List.flatMap_singleton, encode_pongFrame]
    exact hwritten
  · exact ⟨h, [], rfl, (List.append_nil _).symm⟩

/-- The events for a stream of frames, and the pongs. -/
theorem recvLoop_frames (frames : List Frame) (hop : ∀ f ∈ frames, f.opcode ≠ 0)
    (hsock : c.ws.sock = true) (hconnected : c.ws.connected = true)
    (h : c.incoming.bytes = frames.flatMap Frame.encode) :
    (recvLoop rand c).1 = (texts frames).map parseAndDispatch ++ [disconnectedEvent] ∧
      (c.outgoing.Open → ∃ masks : List Mask, masks.length = pings frames ∧
        (recvLoop rand c).2.outgoing.written =
          c.outgoing.written ++ masks.flatMap fun mask => (pongFrame mask).encode) := by
  induction frames generalizing c with
  | nil =>
    rw [recvLoop_none hconnected (recvWsMessage_end h)]
    exact ⟨rfl, fun _ => ⟨[], rfl, (List.append_nil _).symm⟩⟩
  | cons f frames ih =>
    obtain ⟨incoming', hrest, hrecv⟩ :=
      recvWsMessage_encode rand f hsock (hop f (List.mem_cons_self ..)) h
    by_cases hends : Ends f
    · rw [if_pos hends] at hrecv
      rw [recvLoop_none hconnected hrecv, texts_of_ends hends, pings_of_ends hends]
      exact ⟨rfl, fun _ => ⟨[], rfl, (List.append_nil _).symm⟩⟩
    · rw [if_neg hends] at hrecv
      have hop' : ∀ f ∈ frames, f.opcode ≠ 0 := fun g hg => hop g (List.mem_cons_of_mem f hg)
      rw [recvLoop_some hconnected hrecv, texts_cons hends, pings_cons hends]
      obtain ⟨hevents, hpongs⟩ := ih (c := answer rand { c with incoming := incoming' } f) hop'
        (by rwa [ws_answer]) (by rwa [ws_answer]) (by rwa [incoming_answer])
      constructor
      · rw [hevents, List.map_append, List.append_assoc]
        split <;> rfl
      · intro hopen
        obtain ⟨hopen', masks, hlen, hwritten⟩ :=
          answer_open rand (c := { c with incoming := incoming' }) hopen f
        obtain ⟨masks', hlen', hwritten'⟩ := hpongs hopen'
        refine ⟨masks ++ masks', ?_, ?_⟩
        · rw [List.length_append, hlen, hlen', Nat.add_comm]
        · rw [hwritten', hwritten, List.flatMap_append, List.append_assoc]

/-! ### Sending a text -/

/-- The frame that a text is sent in. -/
def textFrame (mask : Mask) (text : Text) (h : text.length < 65536) : Frame :=
  ⟨true, Frame.opText, some mask, text, by omega⟩

/-- The two bytes of a length that does not fit in one. -/
theorem toBytes_length {n : Nat} (h : n < 65536) :
    BigEndian.toBytes 2 (BitVec.ofNat 64 n) = [BitVec.ofNat 8 (n >>> 8), BitVec.ofNat 8 (n &&& 0xff)] := by
  have hhigh : (BitVec.ofNat 64 n >>> (8 * 1)).setWidth 8 = BitVec.ofNat 8 (n >>> 8) := by
    apply BitVec.eq_of_toNat_eq
    rw [BitVec.toNat_setWidth, BitVec.toNat_ushiftRight, BitVec.toNat_ofNat, BitVec.toNat_ofNat,
      Nat.mod_eq_of_lt (show n < 2 ^ 64 by omega)]
  have hlow : (BitVec.ofNat 64 n >>> (8 * 0)).setWidth 8 = BitVec.ofNat 8 (n &&& 0xff) := by
    apply BitVec.eq_of_toNat_eq
    rw [BitVec.toNat_setWidth, BitVec.toNat_ushiftRight, BitVec.toNat_ofNat, BitVec.toNat_ofNat,
      Nat.mod_eq_of_lt (show n < 2 ^ 64 by omega), show 0xff = 2 ^ 8 - 1 from rfl,
      Nat.and_two_pow_sub_one_eq_mod, Nat.mod_mod]
    rfl
  rw [BigEndian.toBytes, BigEndian.toBytes, BigEndian.toBytes, hhigh, hlow]

/-- The header has the length in its shortest form. -/
theorem textHeader_short {n : Nat} (h : n < 65536) :
    textHeader n = some ([0x81, 0x80 ||| (lengthCode n).1] ++ (lengthCode n).2) := by
  unfold textHeader lengthCode
  by_cases hshort : n < 126
  · rw [if_pos hshort, if_pos hshort]
    rfl
  · rw [if_neg hshort, if_neg hshort, if_pos h, if_pos (show n < 2 ^ 16 from h), ← toBytes_length h]
    rfl

/-- The frame of a text goes out. -/
theorem sendWsText_short {text : Text} (h : text.length < 65536) (hsock : c.ws.sock = true) :
    sendWsText rand c text =
      ((sendAll c.outgoing (textFrame (randomMask rand c.seed).1 text h).encode).1,
        { c with
          outgoing := (sendAll c.outgoing (textFrame (randomMask rand c.seed).1 text h).encode).2
          seed := (randomMask rand c.seed).2 }) := by
  have hencode : (textFrame (randomMask rand c.seed).1 text h).encode =
      [0x81, 0x80 ||| (lengthCode text.length).1] ++ ((lengthCode text.length).2 ++
        ((randomMask rand c.seed).1.toList ++ (randomMask rand c.seed).1.apply text)) := by
    simp [Frame.encode, textFrame, maskBit, Frame.maskBytes, Frame.masked, Frame.opText]
  unfold sendWsText
  rw [hsock, textHeader_short h, hencode]
  simp only [List.append_assoc]
  rfl

/-- Nothing is written of a text that is too long. -/
theorem sendWsText_long {text : Text} (h : 65536 ≤ text.length) :
    sendWsText rand c text = (false, c) := by
  have hnone : textHeader text.length = none := by
    unfold textHeader
    rw [if_neg (Nat.not_lt.mpr (Nat.le_trans (by decide) h)), if_neg (Nat.not_lt.mpr h)]
  unfold sendWsText
  rw [hnone]
  split <;> rfl

/-- A text that was sent is received. -/
theorem recvWsMessage_textFrame (mask : Mask) {text : Text} (h : text.length < 65536)
    (hsock : c.ws.sock = true) {rest : List Byte}
    (hbytes : c.incoming.bytes = (textFrame mask text h).encode ++ rest) :
    ∃ incoming' : Incoming, incoming'.bytes = rest ∧
      recvWsMessage rand c = some (text, { c with incoming := incoming' }) := by
  obtain ⟨incoming', hrest, hrecv⟩ := recvWsMessage_encode rand _ hsock
    (show Frame.opText ≠ 0 by decide) hbytes
  have hends : ¬ Ends (textFrame mask text h) := by
    rintro (hclose | hlong)
    · exact absurd hclose (show Frame.opText ≠ Frame.opClose by decide)
    · exact absurd hlong (Nat.not_lt.mpr (Nat.le_of_lt (Nat.lt_of_lt_of_le h (by decide))))
  rw [if_neg hends] at hrecv
  exact ⟨incoming', hrest, hrecv⟩

/-- **WebSocket framing.** However it is cut into chunks, a stream of frames, none of them a continuation,
is received as its texts in order, each once, up to the frame that ends the connection or to the end of
the stream, and then as one 'disconnected' event; each ping until then is answered. And a text that is
short enough goes out as a frame that is received as that text, whatever its mask; a longer one is
refused, and nothing is written. -/
theorem websocket_framing (hsock : c.ws.sock = true) :
    (∀ frames : List Frame, (∀ f ∈ frames, f.opcode ≠ 0) → c.ws.connected = true →
      c.incoming.bytes = frames.flatMap Frame.encode →
      (recvLoop rand c).1 = (texts frames).map parseAndDispatch ++ [disconnectedEvent] ∧
        (c.outgoing.Open → ∃ masks : List Mask, masks.length = pings frames ∧
          (recvLoop rand c).2.outgoing.written =
            c.outgoing.written ++ masks.flatMap fun mask => (pongFrame mask).encode)) ∧
    (∀ (text : Text) (h : text.length < 65536),
      (c.outgoing.Open → (sendWsText rand c text).1 = true) ∧
        ((sendWsText rand c text).1 = true → (sendWsText rand c text).2.outgoing.written =
          c.outgoing.written ++ (textFrame (randomMask rand c.seed).1 text h).encode) ∧
        ∀ (mask : Mask) (rest : List Byte),
          c.incoming.bytes = (textFrame mask text h).encode ++ rest →
          ∃ incoming' : Incoming, incoming'.bytes = rest ∧
            recvWsMessage rand c = some (text, { c with incoming := incoming' })) ∧
    ∀ text : Text, 65536 ≤ text.length → sendWsText rand c text = (false, c) := by
  refine ⟨fun frames hop hconnected => recvLoop_frames rand frames hop hsock hconnected,
    fun text h => ?_, fun text => sendWsText_long rand⟩
  rw [sendWsText_short rand h hsock]
  exact ⟨fun hopen => (sendAll_open hopen _).1, written_sendAll,
    fun mask rest => recvWsMessage_textFrame rand mask h hsock⟩

end Stream

/-! ### A stream in three chunks -/

/-- A masked text, a ping, a binary frame and a close frame. -/
def someFrames : List Frame :=
  [⟨true, Frame.opText, some #v[1, 2, 3, 4], utf8 "hello", by decide⟩,
    ⟨true, Frame.opPing, none, [], by decide⟩, ⟨true, 0x2, none, [7], by decide⟩,
    ⟨true, Frame.opClose, none, [], by decide⟩]

/-- The first chunk ends within a header, the second within a payload. -/
def someChunks : Incoming :=
  [⟨(someFrames.flatMap Frame.encode).take 1, by decide⟩,
    ⟨((someFrames.flatMap Frame.encode).drop 1).take 8, by decide⟩,
    ⟨(someFrames.flatMap Frame.encode).drop 9, by decide⟩]

def someConnection : WsConnection Nat :=
  { ws := { WsSignaling.new with sock := true, connected := true, recvThread := .running }
    incoming := someChunks
    outgoing := ⟨fun _ => 1, []⟩
    seed := 0 }

/-- The text and nothing else is passed on, one pong is sent, and "bye" can be sent as well. -/
theorem websocket_framing_some :
    ((recvLoop (fun seed => (seed, seed + 1)) someConnection).1 =
      [parseAndDispatch (utf8 "hello"), disconnectedEvent] ∧
    ∃ masks : List Mask, masks.length = 1 ∧
      (recvLoop (fun seed => (seed, seed + 1)) someConnection).2.outgoing.written =
        masks.flatMap fun mask => (pongFrame mask).encode) ∧
    (sendWsText (fun seed => (seed, seed + 1)) someConnection (utf8 "bye")).1 = true := by
  obtain ⟨hstream, htext, -⟩ := websocket_framing (fun seed => (seed, seed + 1)) (c := someConnection) rfl
  have hopen : someConnection.outgoing.Open := fun _ => Nat.one_pos
  obtain ⟨hevents, hpongs⟩ := hstream someFrames (by decide) rfl (by decide)
  exact ⟨⟨hevents, hpongs hopen⟩, (htext (utf8 "bye") (by decide)).1 hopen⟩

end AudioPlatform.Windows
