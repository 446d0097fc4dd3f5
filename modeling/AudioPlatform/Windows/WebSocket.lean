import AudioPlatform.Wire.Frame
import AudioPlatform.Wire.Socket
import AudioPlatform.Windows.Lifecycle

/-! The WebSocket of the Windows client.

What is sent is one masked text frame for each text. What is received is read frame by frame: a text is
passed on, a ping is answered, a close frame ends the connection, as a payload that is too long
does, and anything else is read and ignored. -/
namespace AudioPlatform.Windows
open Wire

/-! ### TCP send and receive helpers -/

def sendAll (o : Outgoing) (buf : List Byte) : Bool × Outgoing :=
  if buf = [] then (true, o)
  else
    let sent := (o.send buf).1
    if sent = 0 then (false, (o.send buf).2) else sendAll (o.send buf).2 (buf.drop sent)
termination_by buf.length
decreasing_by
  rename_i hbuf hsent
  have := List.length_pos_iff.mpr hbuf
  rw [List.length_drop]
  omega

/-- Nothing more arrives where this fails. -/
def recvAll (incoming : Incoming) (len : Nat) : Option (List Byte × Incoming) :=
  if len = 0 then some ([], incoming)
  else
    match _h : recv incoming len with
    | none => none
    | some (got, incoming) =>
      (recvAll incoming (len - got.length)).map fun r => (got ++ r.1, r.2)
termination_by len
decreasing_by
  rename_i hlen
  have := (recv_eq_some _h).2.2 (Nat.pos_of_ne_zero hlen)
  omega

/-- Everything is written if no call of `send` fails. -/
theorem sendAll_open {o : Outgoing} (h : o.Open) (buf : List Byte) :
    (sendAll o buf).1 = true ∧ (sendAll o buf).2.written = o.written ++ buf ∧
      (sendAll o buf).2.Open := by
  fun_induction sendAll o buf with
  | case1 o => exact ⟨rfl, (List.append_nil _).symm, h⟩
  | case2 o buf hbuf sent hsent => exact absurd hsent (Nat.ne_of_gt (h.sent_pos hbuf))
  | case3 o buf hbuf sent hsent ih =>
    obtain ⟨hall, hwritten, hopen⟩ := ih (h.send buf)
    refine ⟨hall, ?_, hopen⟩
    rw [hwritten, Outgoing.written_send, List.append_assoc, List.take_append_drop]

/-- Success means that everything is written. -/
theorem written_sendAll {o : Outgoing} {buf : List Byte} (h : (sendAll o buf).1 = true) :
    (sendAll o buf).2.written = o.written ++ buf := by
  fun_induction sendAll o buf with
  | case1 o => exact (List.append_nil _).symm
  | case2 o buf hbuf sent hsent => cases h
  | case3 o buf hbuf sent hsent ih =>
    rw [ih h, Outgoing.written_send, List.append_assoc, List.take_append_drop]

section RecvAll
variable {incoming incoming' : Incoming} {len : Nat} {got : List Byte}

theorem recvAll_eq_some (h : recvAll incoming len = some (got, incoming')) :
    incoming.bytes = got ++ incoming'.bytes ∧ got.length = len := by
  fun_induction recvAll incoming len generalizing got incoming' with
  | case1 incoming =>
    obtain ⟨rfl, rfl⟩ := Prod.mk.inj (Option.some.inj h)
    exact ⟨rfl, rfl⟩
  | case2 incoming len hlen hrecv => cases h
  | case3 incoming len hlen first incoming₁ hrecv ih =>
    obtain ⟨⟨more, incoming₂⟩, hmore, heq⟩ := Option.map_eq_some_iff.mp h
    obtain ⟨rfl, rfl⟩ := Prod.mk.inj heq
    obtain ⟨hbytes, hle, -⟩ := recv_eq_some hrecv
    obtain ⟨hbytes', hlen'⟩ := ih hmore
    refine ⟨by rw [hbytes, hbytes', List.append_assoc], ?_⟩
    rw [List.length_append, hlen']
    omega

/-- However they are cut into chunks, the next `len` bytes are received. -/
theorem recvAll_append {a b : List Byte} (h : incoming.bytes = a ++ b) :
    ∃ incoming', recvAll incoming a.length = some (a, incoming') ∧ incoming'.bytes = b := by
  generalize hlen : a.length = len
  fun_induction recvAll incoming len generalizing a b with
  | case1 incoming =>
    obtain rfl := List.eq_nil_of_length_eq_zero hlen
    exact ⟨incoming, rfl, h⟩
  | case2 incoming len hne hrecv =>
    have hbytes : incoming.bytes ≠ [] := by
      rw [h]
      intro hnil
      rw [(List.append_eq_nil_iff.mp hnil).1] at hlen
      exact hne hlen.symm
    obtain ⟨got, incoming', hsome⟩ := recv_of_ne_nil hbytes len
    rw [hrecv] at hsome
    cases hsome
  | case3 incoming len hne got incoming₁ hrecv ih =>
    obtain ⟨hbytes, hle, -⟩ := recv_eq_some hrecv
    obtain ⟨more, rfl⟩ : got <+: a :=
      List.prefix_of_prefix_length_le ⟨_, hbytes.symm⟩ ⟨b, h.symm⟩ (hlen ▸ hle)
    rw [hbytes, List.append_assoc] at h
    have hmore : more.length = len - got.length := by
      rw [List.length_append] at hlen
      omega
    obtain ⟨incoming', hsome, hrest⟩ := ih (List.append_cancel_left h) hmore
    exact ⟨incoming', by rw [hsome]; rfl, hrest⟩

end RecvAll

/-! ### Texts -/

/-- The two ends of the connection, and what `rand` goes on from. -/
structure WsConnection (Seed : Type) where
  ws : WsSignaling
  incoming : Incoming
  outgoing : Outgoing
  seed : Seed

variable {Seed : Type} (rand : Seed → Nat × Seed)

def randomMask (seed : Seed) : Mask × Seed :=
  let (b0, seed) := rand seed
  let (b1, seed) := rand seed
  let (b2, seed) := rand seed
  let (b3, seed) := rand seed
  (#v[BitVec.ofNat 8 b0, BitVec.ofNat 8 b1, BitVec.ofNat 8 b2, BitVec.ofNat 8 b3], seed)

/-- Opcode and length of a text; none of a text of 64K or more. -/
def textHeader (len : Nat) : Option (List Byte) :=
  if len < 126 then some [0x81, 0x80 ||| BitVec.ofNat 8 len]
  else if len < 65536 then
    some [0x81, 0x80 ||| 126, BitVec.ofNat 8 (len >>> 8), BitVec.ofNat 8 (len &&& 0xff)]
  else none

def sendWsText (c : WsConnection Seed) (text : Text) : Bool × WsConnection Seed :=
  if !c.ws.sock then (false, c)
  else
    match textHeader text.length with
    | none => (false, c)
    | some header =>
      let (mask, seed) := randomMask rand c.seed
      let frame := header ++ mask.toList ++ mask.apply text
      let (sent, outgoing) := sendAll c.outgoing frame
      (sent, { c with outgoing, seed })

/-! ### Messages -/

/-- What is read of a frame before its payload. -/
structure FrameHeader where
  opcode : Byte
  masked : Bool
  payloadLen : BitVec 64
  mask : Mask

/-- The length in the second byte, or in the bytes after it. -/
def recvPayloadLen (incoming : Incoming) (payloadLen : BitVec 64) : Option (BitVec 64 × Incoming) :=
  if payloadLen = 126 then
    (recvAll incoming 2).map fun (ext, incoming) =>
      ((ext.getD 0 0).setWidth 64 <<< 8 ||| (ext.getD 1 0).setWidth 64, incoming)
  else if payloadLen = 127 then
    (recvAll incoming 8).map fun (ext, incoming) =>
      (ext.foldl (fun payloadLen b => payloadLen <<< 8 ||| b.setWidth 64) 0, incoming)
  else some (payloadLen, incoming)

def recvMask (incoming : Incoming) (masked : Bool) : Option (Mask × Incoming) :=
  if masked then
    (recvAll incoming 4).map fun (mask, incoming) => (.ofBytes mask, incoming)
  else some (.replicate 4 0, incoming)

def recvHeader (incoming : Incoming) : Option (FrameHeader × Incoming) := do
  let (header, incoming) ← recvAll incoming 2
  let opcode := header.getD 0 0 &&& 0x0f
  let masked := header.getD 1 0 &&& 0x80 != 0
  let (payloadLen, incoming) ← recvPayloadLen incoming ((header.getD 1 0 &&& 0x7f).setWidth 64)
  let (mask, incoming) ← recvMask incoming masked
  return (⟨opcode, masked, payloadLen, mask⟩, incoming)

/-- The pong is written without `sendMutex_`. -/
def answerPing (c : WsConnection Seed) : WsConnection Seed :=
  let (pmask, seed) := randomMask rand c.seed
  { c with outgoing := (sendAll c.outgoing ([0x8a, 0x80] ++ pmask.toList)).2, seed }

/-- What is done with a frame once its payload is there. -/
def handleFrame (c : WsConnection Seed) (opcode : Byte) (payload : List Byte) :
    Option (Text × WsConnection Seed) :=
  if opcode = 0x08 then none
  else if opcode = 0x09 then some ([], answerPing rand c)
  else if opcode = 0x01 || opcode = 0x00 then some (payload, c)
  else some ([], c)

/-- The text of the next frame, empty if it is none; nothing where `recvWsMessage` returns false. -/
def recvWsMessage (c : WsConnection Seed) : Option (Text × WsConnection Seed) :=
  if !c.ws.sock then none
  else do
    let (header, incoming) ← recvHeader c.incoming
    if 1024 * 1024 < header.payloadLen then none
    else do
      let (payload, incoming) ← recvAll incoming header.payloadLen.toNat
      let payload := if header.masked then header.mask.apply payload else payload
      handleFrame rand { c with incoming } header.opcode payload

/-! ### Reading a frame -/

/-- The frame ends the connection: it says so, or it is too long. -/
def Ends (f : Frame) : Prop := f.opcode = Frame.opClose ∨ 1024 * 1024 < f.payload.length

instance (f : Frame) : Decidable (Ends f) := inferInstanceAs (Decidable (_ ∨ _))

/-- The text in a frame. -/
def textOf (f : Frame) : Text := if f.opcode = Frame.opText then f.payload else []

/-- A pong goes out for a ping. -/
def answer (c : WsConnection Seed) (f : Frame) : WsConnection Seed :=
  if f.opcode = Frame.opPing then answerPing rand c else c

section Frames
variable {incoming : Incoming} {rest : List Byte} {c : WsConnection Seed}

theorem pair_ofBytes {ext : List Byte} (h : ext.length = 2) :
    (ext.getD 0 0).setWidth 64 <<< 8 ||| (ext.getD 1 0).setWidth 64 = BigEndian.ofBytes 64 ext := by
  match ext, h with
  | [hi, lo], _ => simp [BigEndian.ofBytes]

theorem short_payloadLen {n : Nat} (h : n < 126) :
    (BitVec.ofNat 8 n).setWidth 64 = BitVec.ofNat 64 n ∧ BitVec.ofNat 64 n ≠ 126 ∧
      BitVec.ofNat 64 n ≠ 127 := by
  have hval : (BitVec.ofNat 64 n).toNat = n := by
    rw [BitVec.toNat_ofNat]
    omega
  refine ⟨BitVec.eq_of_toNat_eq ?_, fun heq => ?_, fun heq => ?_⟩
  · rw [BitVec.toNat_setWidth, BitVec.toNat_ofNat, BitVec.toNat_ofNat]
    omega
  · rw [heq] at hval
    exact absurd hval.symm (Nat.ne_of_lt h)
  · rw [heq] at hval
    exact absurd hval.symm (Nat.ne_of_lt (Nat.lt_succ_of_lt h))

/-- Each of the three forms of the length is read back. -/
theorem recvPayloadLen_append {n : Nat} (h : incoming.bytes = (lengthCode n).2 ++ rest) :
    ∃ incoming', recvPayloadLen incoming ((lengthCode n).1.setWidth 64) =
      some (BitVec.ofNat 64 n, incoming') ∧ incoming'.bytes = rest := by
  obtain ⟨incoming', hrecv, hrest⟩ := recvAll_append h
  unfold recvPayloadLen
  by_cases hshort : n < 126
  · have hcode : lengthCode n = (BitVec.ofNat 8 n, []) := if_pos hshort
    obtain ⟨hval, hne, hne'⟩ := short_payloadLen hshort
    rw [hcode] at h ⊢
    dsimp only
    rw [hval, if_neg hne, if_neg hne']
    exact ⟨incoming, rfl, h⟩
  by_cases hmiddle : n < 2 ^ 16
  · have hcode : lengthCode n = (126, BigEndian.toBytes 2 (BitVec.ofNat 64 n)) := by
      unfold lengthCode
      rw [if_neg hshort, if_pos hmiddle]
    rw [hcode, BigEndian.length_toBytes] at hrecv
    have hlen : (lengthCode n).1.setWidth 64 = (126 : BitVec 64) := by
      rw [hcode]
      rfl
    rw [hlen, if_pos rfl, hrecv]
    refine ⟨incoming', ?_, hrest⟩
    have hlt : (BitVec.ofNat 64 n).toNat < 2 ^ (8 * 2) := by
      rw [BitVec.toNat_ofNat]
      omega
    rw [Option.map_some]
    dsimp only
    rw [pair_ofBytes (BigEndian.length_toBytes _), BigEndian.ofBytes_toBytes_of_lt hlt]
  · have hcode : lengthCode n = (127, BigEndian.toBytes 8 (BitVec.ofNat 64 n)) := by
      unfold lengthCode
      rw [if_neg hshort, if_neg hmiddle]
    rw [hcode, BigEndian.length_toBytes] at hrecv
    have hlen : (lengthCode n).1.setWidth 64 = (127 : BitVec 64) := by
      rw [hcode]
      rfl
    rw [hlen, if_neg (by decide), if_pos rfl, hrecv]
    refine ⟨incoming', ?_, hrest⟩
    rw [Option.map_some]
    dsimp only
    rw [BigEndian.foldl_zero]
    exact congrArg (fun v => some (v, incoming')) (BigEndian.ofBytes_toBytes (BitVec.ofNat (8 * 8) n))

theorem recvMask_append (f : Frame) (h : incoming.bytes = f.maskBytes ++ rest) :
    ∃ incoming', recvMask incoming f.mask.isSome = some (f.mask.getD (.replicate 4 0), incoming') ∧
      incoming'.bytes = rest := by
  unfold Frame.maskBytes at h
  unfold recvMask
  cases hmask : f.mask with
  | none =>
    rw [hmask] at h
    exact ⟨incoming, rfl, h⟩
  | some mask =>
    rw [hmask] at h
    obtain ⟨incoming', hrecv, hrest⟩ := recvAll_append h
    have hrecv' : recvAll incoming 4 = some (mask.toList, incoming') := by
      rw [Option.elim_some, Vector.length_toList] at hrecv
      exact hrecv
    refine ⟨incoming', ?_, hrest⟩
    rw [Option.isSome_some, if_pos rfl, hrecv', Option.map_some, Option.getD_some]
    dsimp only
    rw [Mask.ofBytes_toList]

theorem recvHeader_encode (f : Frame) (h : incoming.bytes = f.encode ++ rest) :
    ∃ incoming', recvHeader incoming = some (⟨f.opcode.setWidth 8, f.mask.isSome,
      BitVec.ofNat 64 f.payload.length, f.mask.getD (.replicate 4 0)⟩, incoming') ∧
      incoming'.bytes = f.masked ++ rest := by
  unfold Frame.encode at h
  rw [List.append_assoc, List.append_assoc, List.append_assoc] at h
  obtain ⟨incoming₁, hheader, hrest₁⟩ := recvAll_append h
  obtain ⟨incoming₂, hlen, hrest₂⟩ := recvPayloadLen_append hrest₁
  obtain ⟨incoming₃, hmask, hrest₃⟩ := recvMask_append f hrest₂
  refine ⟨incoming₃, ?_, hrest₃⟩
  have hheader' : recvAll incoming 2 = some ([(if f.fin then 0x80 else 0) ||| f.opcode.setWidth 8,
      maskBit f.mask ||| (lengthCode f.payload.length).1], incoming₁) := hheader
  have hmasked : ((maskBit f.mask ||| (lengthCode f.payload.length).1) &&& 0x80 != 0) =
      f.mask.isSome := by
    rw [Bool.eq_iff_iff, bne_iff_ne]
    exact maskBit_of_header f.mask (lengthCode_lt _)
  unfold recvHeader
  simp only [hheader', Option.bind_eq_bind, Option.bind_some, List.getD_cons_zero, List.getD_cons_succ,
    opcode_of_header, hmasked, length_of_header f.mask (lengthCode_lt _), hlen, hmask]
  rfl

/-! ### One message -/

theorem handleFrame_eq {opcode : BitVec 4} (hop : opcode ≠ 0) (c : WsConnection Seed)
    (payload : List Byte) : handleFrame rand c (opcode.setWidth 8) payload =
      if opcode = Frame.opClose then none
      else some (if opcode = Frame.opText then payload else [],
        if opcode = Frame.opPing then answerPing rand c else c) := by
  have hwide : ∀ opcode : BitVec 4, (opcode.setWidth 8 = (0x08 : Byte) ↔ opcode = Frame.opClose) ∧
      (opcode.setWidth 8 = (0x09 : Byte) ↔ opcode = Frame.opPing) ∧
      (opcode.setWidth 8 = (0x01 : Byte) ↔ opcode = Frame.opText) ∧
      (opcode.setWidth 8 = (0x00 : Byte) ↔ opcode = 0) := by decide
  obtain ⟨hclose, hping, htext, hcont⟩ := hwide opcode
  unfold handleFrame
  simp only [hclose, hping, htext, hcont, hop]
  by_cases hp : opcode = Frame.opPing
  · subst hp
    rfl
  · by_cases ht : opcode = Frame.opText
    · subst ht
      rfl
    · simp [hp, ht]

theorem recvWsMessage_encode (f : Frame) (hsock : c.ws.sock = true) (hop : f.opcode ≠ 0)
    (h : c.incoming.bytes = f.encode ++ rest) :
    ∃ incoming' : Incoming, incoming'.bytes = rest ∧ recvWsMessage rand c =
      if Ends f then none
      else some (textOf f, answer rand { c with incoming := incoming' } f) := by
  obtain ⟨incoming₁, hheader, hrest₁⟩ := recvHeader_encode f h
  obtain ⟨incoming₂, hpayload, hrest₂⟩ := recvAll_append hrest₁
  refine ⟨incoming₂, hrest₂, ?_⟩
  have hlen : (BitVec.ofNat 64 f.payload.length).toNat = f.payload.length := by
    rw [BitVec.toNat_ofNat]
    have := f.length_lt
    omega
  have hlong : 1024 * 1024 < BitVec.ofNat 64 f.payload.length ↔ 1024 * 1024 < f.payload.length := by
    rw [BitVec.lt_def, hlen]
    rfl
  rw [Frame.length_masked] at hpayload
  unfold recvWsMessage
  simp only [hsock, Bool.not_true, Bool.false_eq_true, if_false, hheader, Option.bind_eq_bind,
    Option.bind_some, hlong, hlen, hpayload, f.unmask]
  by_cases hmuch : 1024 * 1024 < f.payload.length
  · rw [if_pos hmuch, if_pos (.inr hmuch)]
  · have hends : f.opcode = Frame.opClose ↔ Ends f := by simp [Ends, hmuch]
    rw [if_neg hmuch, handleFrame_eq rand hop]
    simp only [hends]
    rfl

end Frames

/-! ### Progress -/

section Progress
variable {rand} {incoming incoming' : Incoming} {c c' : WsConnection Seed}

theorem length_recvAll {len : Nat} {got : List Byte}
    (h : recvAll incoming len = some (got, incoming')) :
    incoming'.bytes.length + len = incoming.bytes.length := by
  obtain ⟨hbytes, hlen⟩ := recvAll_eq_some h
  rw [hbytes, List.length_append, hlen, Nat.add_comm]

/-- What is made of the bytes does not matter. -/
theorem length_recvAll_map {α : Type} {len : Nat} {g : List Byte × Incoming → α × Incoming} {a : α}
    (h : (recvAll incoming len).map g = some (a, incoming')) (hg : ∀ r, (g r).2 = r.2) :
    incoming'.bytes.length ≤ incoming.bytes.length := by
  obtain ⟨⟨bytes, next⟩, hbytes, heq⟩ := Option.map_eq_some_iff.mp h
  obtain rfl : incoming' = next := (congrArg Prod.snd heq).symm.trans (hg _)
  exact Nat.le.intro (length_recvAll hbytes)

theorem recvPayloadLen_length_le {payloadLen len : BitVec 64}
    (h : recvPayloadLen incoming payloadLen = some (len, incoming')) :
    incoming'.bytes.length ≤ incoming.bytes.length := by
  unfold recvPayloadLen at h
  split at h
  · exact length_recvAll_map h fun _ => rfl
  split at h
  · exact length_recvAll_map h fun _ => rfl
  · obtain ⟨-, rfl⟩ := Prod.mk.inj (Option.some.inj h)
    exact Nat.le_refl _

theorem recvMask_length_le {masked : Bool} {mask : Mask}
    (h : recvMask incoming masked = some (mask, incoming')) :
    incoming'.bytes.length ≤ incoming.bytes.length := by
  unfold recvMask at h
  split at h
  · exact length_recvAll_map h fun _ => rfl
  · obtain ⟨-, rfl⟩ := Prod.mk.inj (Option.some.inj h)
    exact Nat.le_refl _

theorem recvHeader_length_lt {header : FrameHeader}
    (h : recvHeader incoming = some (header, incoming')) :
    incoming'.bytes.length < incoming.bytes.length := by
  unfold recvHeader at h
  simp only [Option.bind_eq_bind, Option.bind_eq_some_iff, Option.pure_def, Option.some.injEq,
    Prod.mk.injEq] at h
  obtain ⟨⟨_, incoming₁⟩, hheader, ⟨_, incoming₂⟩, hlen, ⟨_, incoming₃⟩, hmask, -, rfl⟩ := h
  dsimp only at hlen hmask ⊢
  have h₁ := length_recvAll hheader
  have h₂ := recvPayloadLen_length_le hlen
  have h₃ := recvMask_length_le hmask
  omega

theorem handleFrame_some {opcode : Byte} {payload : List Byte} {msg : Text}
    (h : handleFrame rand c opcode payload = some (msg, c')) :
    c'.ws = c.ws ∧ c'.incoming = c.incoming := by
  unfold handleFrame at h
  split at h
  · cases h
  split at h
  · obtain ⟨-, rfl⟩ := Prod.mk.inj (Option.some.inj h)
    exact ⟨rfl, rfl⟩
  split at h
  · obtain ⟨-, rfl⟩ := Prod.mk.inj (Option.some.inj h)
    exact ⟨rfl, rfl⟩
  · obtain ⟨-, rfl⟩ := Prod.mk.inj (Option.some.inj h)
    exact ⟨rfl, rfl⟩

/-- A message takes at least its header off the stream, and leaves the connection up. -/
theorem recvWsMessage_some {msg : Text} (h : recvWsMessage rand c = some (msg, c')) :
    c'.ws = c.ws ∧ c'.incoming.bytes.length < c.incoming.bytes.length := by
  unfold recvWsMessage at h
  split at h
  · cases h
  simp only [Option.bind_eq_bind, Option.bind_eq_some_iff] at h
  obtain ⟨⟨header, incoming₁⟩, hheader, h⟩ := h
  dsimp only at h
  split at h
  · cases h
  obtain ⟨⟨payload, incoming₂⟩, hpayload, hhandle⟩ := Option.bind_eq_some_iff.mp h
  obtain ⟨hws, hincoming⟩ := handleFrame_some hhandle
  have h₁ := recvHeader_length_lt hheader
  have h₂ := length_recvAll hpayload
  refine ⟨hws, ?_⟩
  rw [hincoming]
  dsimp only
  omega

/-- Nothing is received at the end of the stream. -/
theorem recvWsMessage_end (h : c.incoming.bytes = []) : recvWsMessage rand c = none := by
  cases hrecv : recvWsMessage rand c with
  | none => rfl
  | some r =>
    have hlt := (recvWsMessage_some hrecv).2
    rw [h] at hlt
    exact absurd hlt (Nat.not_lt_zero _)

end Progress

end AudioPlatform.Windows
