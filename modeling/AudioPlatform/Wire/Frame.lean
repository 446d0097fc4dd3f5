import AudioPlatform.Wire.BigEndian

/-! WebSocket frames.

Two bytes with the opcode and seven bits of the length, the length itself in two or eight bytes
more if it does not fit, the mask if there is one, and the payload. The mask has four bytes, which
are combined with the payload over and over. -/
namespace AudioPlatform.Wire

/-! ### Masks -/

abbrev Mask := Vector Byte 4

namespace Mask

/-- The payload combined with the mask. -/
def apply (mask : Mask) (payload : List Byte) : List Byte :=
  payload.mapIdx fun i b => b ^^^ mask[i % 4]

def ofBytes (bytes : List Byte) : Mask := Vector.ofFn fun i => bytes.getD i 0

variable (mask : Mask)

@[simp] theorem ofBytes_toList : ofBytes mask.toList = mask := by
  apply Vector.ext
  intro i hi
  simp [ofBytes]

@[simp] theorem length_apply (payload : List Byte) : (mask.apply payload).length = payload.length := by
  simp [apply]

/-- Masking twice is not masking. -/
@[simp] theorem apply_apply (payload : List Byte) : mask.apply (mask.apply payload) = payload := by
  apply List.ext_getElem
  · simp
  · intro i _ _
    simp [apply, BitVec.xor_assoc]

end Mask

/-! ### Frames -/

/-- The seven bits, and the bytes after them. -/
def lengthCode (n : Nat) : Byte × List Byte :=
  if n < 126 then (BitVec.ofNat 8 n, [])
  else if n < 2 ^ 16 then (126, BigEndian.toBytes 2 (BitVec.ofNat 64 n))
  else (127, BigEndian.toBytes 8 (BitVec.ofNat 64 n))

def maskBit (mask : Option Mask) : Byte := if mask.isSome then 0x80 else 0

/-- A frame whose length 63 bits can hold. -/
structure Frame where
  fin : Bool
  opcode : BitVec 4
  mask : Option Mask
  payload : List Byte
  length_lt : payload.length < 2 ^ 63

namespace Frame

def opText : BitVec 4 := 0x1

def opClose : BitVec 4 := 0x8

def opPing : BitVec 4 := 0x9

def opPong : BitVec 4 := 0xa

/-- The payload as it goes over the wire. -/
def masked (f : Frame) : List Byte := f.mask.elim f.payload fun mask => mask.apply f.payload

def maskBytes (f : Frame) : List Byte := f.mask.elim [] Vector.toList

def encode (f : Frame) : List Byte :=
  [(if f.fin then 0x80 else 0) ||| f.opcode.setWidth 8,
    maskBit f.mask ||| (lengthCode f.payload.length).1] ++
    ((lengthCode f.payload.length).2 ++ (f.maskBytes ++ f.masked))

variable (f : Frame)

@[simp] theorem length_masked : f.masked.length = f.payload.length := by
  unfold masked
  cases f.mask with
  | none => rfl
  | some mask => exact mask.length_apply f.payload

/-- The mask of a frame gives the payload back. -/
theorem unmask (mask : Mask) :
    (if f.mask.isSome then (f.mask.getD mask).apply f.masked else f.masked) = f.payload := by
  unfold masked
  cases f.mask with
  | none => rfl
  | some mask => exact mask.apply_apply f.payload

end Frame

/-! ### The two bytes of the header -/

theorem opcode_of_header (fin : Bool) (opcode : BitVec 4) :
    ((if fin then 0x80 else 0) ||| opcode.setWidth 8) &&& (0x0f : Byte) = opcode.setWidth 8 := by
  revert fin opcode
  decide

theorem maskBit_of_header (mask : Option Mask) {n : Byte} (h : n.toNat < 128) :
    (maskBit mask ||| n) &&& 0x80 ≠ 0 ↔ mask.isSome = true := by
  have hbits : ∀ n : Byte, n.toNat < 128 → (0x80 ||| n) &&& 0x80 ≠ 0 ∧ (0 ||| n) &&& 0x80 = 0 := by
    decide
  unfold maskBit
  cases mask with
  | none => exact iff_of_false (fun hset => hset (hbits n h).2) nofun
  | some mask => exact iff_of_true (hbits n h).1 rfl

theorem length_of_header (mask : Option Mask) {n : Byte} (h : n.toNat < 128) :
    (maskBit mask ||| n) &&& 0x7f = n := by
  have hbits : ∀ n : Byte, n.toNat < 128 → (0x80 ||| n) &&& 0x7f = n ∧ (0 ||| n) &&& 0x7f = n := by
    decide
  unfold maskBit
  cases mask with
  | none => exact (hbits n h).2
  | some mask => exact (hbits n h).1

theorem lengthCode_lt (n : Nat) : (lengthCode n).1.toNat < 128 := by
  unfold lengthCode
  split
  · simp
    omega
  · split <;> simp

end AudioPlatform.Wire
