import AudioPlatform.Wire.BigEndian

/-! Stream sockets.

Bytes arrive in the order in which they were sent. But a call of `recv` gets as many of them as happen to
be there, and a call of `send` may take only some of those it is given. -/
namespace AudioPlatform.Wire

/-! ### Receiving -/

/-- What one call of `recv` can get. -/
structure Chunk where
  bytes : List Byte
  nonempty : bytes ≠ []

/-- What arrives before the end of the stream. -/
abbrev Incoming := List Chunk

def Incoming.bytes (incoming : Incoming) : List Byte := incoming.flatMap Chunk.bytes

/-- At most `len` bytes of the next chunk; nothing at the end of the stream. -/
def recv : Incoming → Nat → Option (List Byte × Incoming)
  | [], _ => none
  | c :: rest, len =>
    if h : len < c.bytes.length then
      some (c.bytes.take len, ⟨c.bytes.drop len, by simpa using h⟩ :: rest)
    else some (c.bytes, rest)

section Recv
variable {incoming incoming' : Incoming} {len : Nat} {got : List Byte}

theorem recv_eq_some (h : recv incoming len = some (got, incoming')) :
    incoming.bytes = got ++ incoming'.bytes ∧ got.length ≤ len ∧ (0 < len → 0 < got.length) := by
  cases incoming with
  | nil => cases h
  | cons c rest =>
    have hpos := List.length_pos_iff.mpr c.nonempty
    rw [recv] at h
    split at h
    · rename_i hlt
      obtain ⟨rfl, rfl⟩ := Prod.mk.inj (Option.some.inj h)
      refine ⟨?_, List.length_take_le len _, fun hlen => ?_⟩
      · simp [Incoming.bytes, ← List.append_assoc]
      · rw [List.length_take]
        omega
    · rename_i hle
      obtain ⟨rfl, rfl⟩ := Prod.mk.inj (Option.some.inj h)
      exact ⟨rfl, Nat.le_of_not_lt hle, fun _ => hpos⟩

/-- `recv` gets something unless the stream is at its end. -/
theorem recv_of_ne_nil (h : incoming.bytes ≠ []) (len : Nat) :
    ∃ got incoming', recv incoming len = some (got, incoming') := by
  cases incoming with
  | nil => exact absurd rfl h
  | cons c rest =>
    rw [recv]
    split
    · exact ⟨_, _, rfl⟩
    · exact ⟨_, _, rfl⟩

end Recv

/-! ### Sending -/

/-- How many bytes each of the next calls of `send` takes at most, none if it fails, and what has
been written. -/
structure Outgoing where
  takes : Nat → Nat
  written : List Byte

namespace Outgoing

def send (o : Outgoing) (buf : List Byte) : Nat × Outgoing :=
  let sent := min (o.takes 0) buf.length
  (sent, ⟨fun n => o.takes (n + 1), o.written ++ buf.take sent⟩)

/-- No call of `send` fails. -/
def Open (o : Outgoing) : Prop := ∀ n, 0 < o.takes n

variable {o : Outgoing}

theorem Open.send (h : o.Open) (buf : List Byte) : (o.send buf).2.Open := fun n => h (n + 1)

theorem Open.sent_pos (h : o.Open) {buf : List Byte} (hbuf : buf ≠ []) : 0 < (o.send buf).1 :=
  Nat.lt_min.mpr ⟨h 0, List.length_pos_iff.mpr hbuf⟩

theorem written_send (o : Outgoing) (buf : List Byte) :
    (o.send buf).2.written = o.written ++ buf.take (o.send buf).1 := rfl

end Outgoing

end AudioPlatform.Wire
