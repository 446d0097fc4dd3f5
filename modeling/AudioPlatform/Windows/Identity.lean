import Mathlib.Data.List.GetD
import AudioPlatform.Server.Encoding
import AudioPlatform.Windows.Dispatch

/-! The numeric id on both sides.

The server parses the UUID and takes its first eight bytes; the client pairs the first 16
digits of its text. What the client reads the UUID from is the server's `authOk`. -/
namespace AudioPlatform.Windows
open Wire Wire.Json
open AudioPlatform.Server (Uuid ServerMessage hexText hyphen u64FromBeBytes utf8_toString
  ofBytes_eight)

/-! ### Pairing digits -/

/-- With 16 digits taken the scan is over. -/
theorem pairNibbles_full (text : Text) (bytes : List Byte) : pairNibbles text bytes 16 = bytes := by
  cases text with
  | nil => rfl
  | cons c rest => rfl

/-- A hyphen is passed over, whatever the parity. -/
theorem pairNibbles_hyphen (text : Text) (bytes : List Byte) {bi : Nat} (hbi : bi < 16) :
    pairNibbles (hyphen :: text) bytes bi = pairNibbles text bytes bi := by
  have hnone : nibble hyphen = none := by decide
  rw [pairNibbles, if_pos hbi, hnone]

theorem nibble_hexDigit {d : Nat} (h : d < 16) : nibble (hexDigit d) = some (BitVec.ofNat 8 d) := by
  revert d
  decide

theorem byte_halves (b : Byte) :
    BitVec.ofNat 8 (b.toNat / 16) <<< 4 ||| BitVec.ofNat 8 (b.toNat % 16) = b := by
  revert b
  decide

/-- The two digits of a byte fill one cell: the scan is at an even digit before and after. -/
theorem pairNibbles_byte (b : Byte) (text : Text) (done : List Byte) (zeros : List Byte) (z : Byte)
    (h : done.length < 8) :
    pairNibbles (hexDigit (b.toNat / 16) :: hexDigit (b.toNat % 16) :: text)
        (done ++ z :: zeros) (2 * done.length) =
      pairNibbles text (done ++ b :: zeros) (2 * (done.length + 1)) := by
  have hb := b.isLt
  have hcell : ∀ c : Byte, (done ++ c :: zeros).getD done.length 0 = c := by
    intro c
    simp [List.getD_eq_getElem?_getD]
  rw [pairNibbles, if_pos (by omega), nibble_hexDigit (by omega)]
  dsimp only
  rw [if_pos (by omega), show 2 * done.length / 2 = done.length by omega,
    List.set_append_right _ _ (le_refl _), Nat.sub_self, List.set_cons_zero]
  rw [pairNibbles, if_pos (by omega), nibble_hexDigit (by omega)]
  dsimp only
  rw [if_neg (by omega), show (2 * done.length + 1) / 2 = done.length by omega,
    List.set_append_right _ _ (le_refl _), Nat.sub_self, List.set_cons_zero,
    hcell, byte_halves]
  rfl

/-- The digits of a byte string fill one cell after another. -/
theorem pairNibbles_hexText (bytes : List Byte) (text : Text) (done : List Byte) (k : Nat)
    (h : done.length + bytes.length ≤ 8) :
    pairNibbles (hexText bytes ++ text) (done ++ List.replicate (bytes.length + k) 0)
        (2 * done.length) =
      pairNibbles text (done ++ bytes ++ List.replicate k 0) (2 * (done ++ bytes).length) := by
  induction bytes generalizing done with
  | nil => simp [hexText]
  | cons b rest ih =>
    rw [List.length_cons] at h
    have hnext := ih (done ++ [b]) (by simp; omega)
    have htext : hexText (b :: rest) ++ text =
        hexDigit (b.toNat / 16) :: hexDigit (b.toNat % 16) :: (hexText rest ++ text) := rfl
    rw [htext, List.length_cons, Nat.add_right_comm, List.replicate_succ,
      pairNibbles_byte _ _ _ _ _ (by omega)]
    simpa using hnext

/-- The first 16 digits of a UUID are those of its first eight bytes, two hyphens or none
between them. -/
theorem pairNibbles_toString (uuid : Uuid) :
    pairNibbles (utf8 uuid.toString) (List.replicate 16 0) 0 =
      uuid.asBytes.take 8 ++ List.replicate 8 0 := by
  have hlen : uuid.asBytes.length = 16 := BigEndian.length_toBytes uuid
  have hfirst : (uuid.asBytes.take 4).length = 4 := by simp [hlen]
  have hsecond : ((uuid.asBytes.drop 4).take 2).length = 2 := by simp [hlen]
  have hthird : ((uuid.asBytes.drop 6).take 2).length = 2 := by simp [hlen]
  have htake : uuid.asBytes.take 4 ++ (uuid.asBytes.drop 4).take 2 ++ (uuid.asBytes.drop 6).take 2 =
      uuid.asBytes.take 8 := by
    rw [show 8 = 4 + 2 + 2 from rfl, List.take_add, List.take_add]
  have hone := fun text => pairNibbles_hexText (uuid.asBytes.take 4) text [] 12 (by simp [hlen])
  have htwo := fun text => pairNibbles_hexText ((uuid.asBytes.drop 4).take 2) text
    (uuid.asBytes.take 4) 10 (by simp [hlen])
  have hthree := fun text => pairNibbles_hexText ((uuid.asBytes.drop 6).take 2) text
    (uuid.asBytes.take 4 ++ (uuid.asBytes.drop 4).take 2) 8 (by simp [hlen])
  simp only [List.length_append, List.length_nil, List.nil_append, hfirst, hsecond, hthird,
    Nat.reduceAdd, Nat.reduceMul] at hone htwo hthree
  rw [utf8_toString, hone, pairNibbles_hyphen _ _ (by decide), htwo,
    pairNibbles_hyphen _ _ (by decide), hthree, pairNibbles_full, htake]

/-- The cells of a list one by one are its first part. -/
theorem map_getD_range {α : Type} (z : α) (l : List α) {n : Nat} (h : n ≤ l.length) :
    (List.range n).map (fun i => l.getD i z) = l.take n := by
  induction n with
  | zero => rfl
  | succ n ih =>
    rw [List.range_succ, List.map_append, ih (by omega), List.take_succ_eq_append_getElem (by omega),
      List.map_cons, List.getD_eq_getElem _ _ (by omega)]
    rfl

/-- The client's numeric id of a UUID is the number that its first eight bytes spell. -/
theorem deriveUdpId_toString (uuid : Uuid) :
    deriveUdpId (utf8 uuid.toString) = BigEndian.ofBytes 64 (uuid.asBytes.take 8) := by
  have hlen : uuid.asBytes.length = 16 := BigEndian.length_toBytes uuid
  have hcells := map_getD_range (0 : Byte) (uuid.asBytes.take 8 ++ List.replicate 8 0) (n := 8)
    (by simp [hlen])
  rw [List.take_append_of_le_length (by simp [hlen]), List.take_take, Nat.min_self] at hcells
  have hfold := BigEndian.foldl_zero (w := 64) ((List.range 8).map fun i =>
    (uuid.asBytes.take 8 ++ List.replicate 8 (0 : Byte)).getD i 0)
  rw [List.foldl_map, hcells] at hfold
  unfold deriveUdpId
  rw [pairNibbles_toString]
  exact hfold

/-- So is the server's. -/
theorem server_deriveUdpId {parseStr : String → Option Uuid} {uuid : Uuid}
    (hparse : parseStr uuid.toString = some uuid) :
    Server.deriveUdpId parseStr uuid.toString =
      some (BigEndian.ofBytes 64 (uuid.asBytes.take 8)) := by
  have hlen : uuid.asBytes.length = 16 := BigEndian.length_toBytes uuid
  unfold Server.deriveUdpId
  rw [hparse, Option.map_some, ← map_getD_range 0 uuid.asBytes (by omega)]
  exact congrArg some (ofBytes_eight ..).symm

/-- **One id on both sides.** From the text of the server's `authOk` the client reads the UUID
and the port, and it derives the numeric id that the server derives. -/
theorem same_udpId (parseStr : String → Option Uuid) (uuid : Uuid) (port : BitVec 16)
    (hparse : parseStr uuid.toString = some uuid) :
    jsonGetString (ServerMessage.authOk uuid.toString port).text (utf8 "client_id") =
        utf8 uuid.toString ∧
      jsonGetUint64 (ServerMessage.authOk uuid.toString port).text (utf8 "udp_port") =
        port.setWidth 64 ∧
      Server.deriveUdpId parseStr uuid.toString = some (deriveUdpId (utf8 uuid.toString)) := by
  obtain ⟨hclient, hport⟩ := read_authOk ⟨uuid, rfl⟩ port
  refine ⟨hclient, hport, ?_⟩
  rw [server_deriveUdpId hparse, deriveUdpId_toString]

/-- A UUID of 16 different digits. -/
def counting : Uuid := 0x0123456789abcdeffedcba9876543210

/-- A parser that knows its text. -/
theorem same_udpId_counting : counting.toString = "01234567-89ab-cdef-fedc-ba9876543210" ∧
    jsonGetString (ServerMessage.authOk counting.toString 9001).text (utf8 "client_id") =
        utf8 counting.toString ∧
      jsonGetUint64 (ServerMessage.authOk counting.toString 9001).text (utf8 "udp_port") = 9001 ∧
      Server.deriveUdpId (fun s => if s = counting.toString then some counting else none) counting.toString =
        some (deriveUdpId (utf8 counting.toString)) ∧
      deriveUdpId (utf8 counting.toString) = 0x0123456789abcdef := by
  have hsame := same_udpId (fun s => if s = counting.toString then some counting else none) counting 9001
    (if_pos rfl)
  exact ⟨by decide +kernel, hsame.1, hsame.2.1, hsame.2.2, by decide +kernel⟩

end AudioPlatform.Windows
