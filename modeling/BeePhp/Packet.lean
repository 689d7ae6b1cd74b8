import BeePhp.Response
import BeePhp.Codec.Doc

/-!
# The bounds of a packet

What `php_tp_response` may do with a packet (`StaysInside`), and which packets let it (`PacketInside`). It
looks at no size, so a packet has to end behind what its heads announce.
-/

namespace BeePhp

open Codec (Bytes Doc IntWidth StrWidth SeqWidth)

/-- `php_tp_response` on the packet `buf`, behind which there is no memory: it reads nothing there and
applies no decoder to a byte of another type (it returns), it shifts by less than 64 bits, and if it does
not return -1 it returns an `n` up to the size with the error and the data it points at in the packet. -/
def StaysInside (buf : Bytes) : Prop :=
  ∃ r cursor, phpTpResponse buf = .ok (r, cursor) ∧ r.wideShift = false ∧
    ∀ p, cursor = some p → (∃ n ≤ buf.length, p = buf.drop n) ∧
      (∀ error, r.error = some error → error <:+: buf) ∧
      ∀ data, r.data = some data → ∃ k, data = buf.drop k ∧ k + r.dataLen ≤ buf.length

/-- There is a byte ahead, of another type. -/
def Foreign (t : MpType) (p : Bytes) : Prop := ∃ c p', p = c :: p' ∧ mpTypeof c ≠ t

/-- The key of an entry, as `php_tp_response` keeps it. -/
def IsKey (key : UInt32) (k : Nat) : Prop := toUint32 k = key.toNat

/-- What is ahead of the loop over the body when `n` entries are still to come. The values of entries
that mean nothing to it, and the data, are whatever `mp_next` skips. -/
inductive BodyInside : Nat → Bytes → Prop
  | done {p : Bytes} : BodyInside 0 p
  /-- the error is no text: -1 -/
  | noText {n : Nat} {w : IntWidth} {k : Nat} {p : Bytes} : k < w.uintBound → IsKey beexError k →
    Foreign .str p → BodyInside (n + 1) ((Doc.uint w k).encode ++ p)
  | error {n : Nat} {w : IntWidth} {k : Nat} {ws : StrWidth} {s p : Bytes} : k < w.uintBound →
    IsKey beexError k → s.length < ws.bound → BodyInside n p →
    BodyInside (n + 1) ((Doc.uint w k).encode ++ ((Doc.str ws s).encode ++ p))
  /-- the data are no array: -1 -/
  | noArray {n : Nat} {w : IntWidth} {k : Nat} {p : Bytes} : k < w.uintBound → IsKey beexData k →
    Foreign .array p → BodyInside (n + 1) ((Doc.uint w k).encode ++ p)
  | data {n : Nat} {w : IntWidth} {k : Nat} {c : UInt8} {p p' : Bytes} : k < w.uintBound →
    IsKey beexData k → mpTypeof c = .array → mpNext (c :: p) = .ok p' → BodyInside n p' →
    BodyInside (n + 1) ((Doc.uint w k).encode ++ c :: p)
  | other {n : Nat} {w : IntWidth} {k : Nat} {p p' : Bytes} : k < w.uintBound → ¬ IsKey beexError k →
    ¬ IsKey beexData k → toUint32 k < 64 → mpNext p = .ok p' → BodyInside n p' →
    BodyInside (n + 1) ((Doc.uint w k).encode ++ p)

/-- There is a map ahead whose entries are as `entries` wants, or a byte of another type. -/
def MapInside (entries : Nat → Bytes → Prop) (p : Bytes) : Prop :=
  Foreign .map p ∨ ∃ (w : SeqWidth) (n : Nat) (p' : Bytes), n < w.bound ∧ p = w.mapHead n ++ p' ∧
    entries n p'

/-- What is ahead of the loop over the header when `n` entries are still to come. -/
inductive HeaderInside : Nat → Bytes → Prop
  | done {p : Bytes} : MapInside BodyInside p → HeaderInside 0 p
  /-- the key is no unsigned number: -1 -/
  | noKey {n : Nat} {p : Bytes} : Foreign .uint p → HeaderInside (n + 1) p
  /-- the value is no unsigned number: -1 -/
  | noNumber {n : Nat} {w : IntWidth} {k : Nat} {p : Bytes} : k < w.uintBound → Foreign .uint p →
    HeaderInside (n + 1) ((Doc.uint w k).encode ++ p)
  | number {n : Nat} {w w' : IntWidth} {k v : Nat} {p : Bytes} : k < w.uintBound → v < w'.uintBound →
    toUint32 k < 64 → HeaderInside n p →
    HeaderInside (n + 1) ((Doc.uint w k).encode ++ ((Doc.uint w' v).encode ++ p))

/-- The packet holds what `php_tp_response` takes from it. -/
def PacketInside (buf : Bytes) : Prop := MapInside HeaderInside buf

end BeePhp
