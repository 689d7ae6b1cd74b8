import BeePhp.Msgpack.Meaning
import BeePhp.Received

/-!
# Receiving any bytes

`bee_step_recv` is meant to end well whatever the server sends (`Total`). The bytes on which it does
(`Sound`): every byte string handed to a decoder is one the decoder can read (`Unpacks`), and what is
looked up in the header and the body has the type it is taken for (`Legible`).
-/

namespace BeePhp

open Codec

/-- The values `Z_LVAL` is applied to, which are those of SYNC and CODE. -/
def lvalReads (P : Platform) (sync : UInt64) (header : List (Key × PVal)) : List PVal :=
  let val := indexFind header beexSync
  if val.any fun val => (zLval P val).toUInt64 != sync then val.toList
  else val.toList ++ (indexFind header beexCode).toList

/-- The tag is `IS_LONG`. -/
def PVal.IsLong (v : PVal) : Prop := ∃ n, v = .long n

/-- `bee_step_recv` comes to look into the header and the body. -/
def Finishes (P : Platform) (w : World) (header : List (Key × PVal)) (next : UInt64) (body : PVal) :
    Prop :=
  ∃ payload w' pos rest, Receives checkStatus w payload w' ∧
    checkStatus (payload ++ w.obj.value.behind payload.length) payload.length = .ok 0 ∧
    phpMpUnpack P.ndebug (payload ++ w.obj.value.behind payload.length) = .ok (.arr header next, pos) ∧
    checkStatus pos payload.length = .ok 0 ∧ phpMpUnpack P.ndebug pos = .ok (body, rest)

/-- `bee_step_recv` returns, with an empty buffer if it returns `FAILURE`, and reads no payload of a
value as that of a `long` unless it is one. -/
structure Total (P : Platform) (sync : UInt64) (w : World) : Prop where
  returns : ∃ answer w', beeStepRecv P sync w = .ok (answer, w') ∧
    (answer = none → w'.obj.value.len = 0)
  typed : ∀ header next body, Finishes P w header next body →
    ∀ val ∈ lvalReads P sync header, val.IsLong

/-! ## Bytes that are read without a fault -/

/-- The validator comes to an end, and what it accepts satisfies `Q`. -/
def Validated (bs : Bytes) (size : Nat) (Q : Prop) : Prop :=
  ∃ status, checkStatus bs size = .ok status ∧ (status = 0 → Q)

/-- The bytes begin with an unsigned number. -/
def BeginsUint (bs : Bytes) : Prop :=
  ∃ (w : IntWidth) (n : Nat) (rest : Bytes), n < w.uintBound ∧ bs = w.uintHead n ++ rest

/-- The bytes begin with a document that stands for a value, or are refused before they end. -/
def Unpackable (ndebug : Bool) (bs : Bytes) : Prop :=
  (∃ d rest, Decodable ndebug d ∧ bs = d.encode ++ rest) ∨ Refused ndebug bs

/-- Bytes that the validator lets through can be unpacked, and a value unpacked from them, together with
the bytes behind it, satisfies `Q`. -/
def Unpacks (ndebug : Bool) (bs : Bytes) (size : Nat) (Q : PVal → Bytes → Prop) : Prop :=
  Validated bs size (Unpackable ndebug bs ∧
    ∀ v rest, Begins ndebug bs v rest → Q v rest)

/-- The body is an array with a text under ERROR that ends in a NUL. -/
def HasError (body : PVal) : Prop :=
  ∃ entries next text, body = .arr entries next ∧ (indexFind entries beexError = some (.str text) ∨
    indexFind entries beexError = some (.bin text) ∧ 0 ∈ text)

/-- The header has no sync other than that of the request. -/
def SyncFits (P : Platform) (sync : UInt64) (header : List (Key × PVal)) : Prop :=
  ∀ val, indexFind header beexSync = some val → (zLval P val).toUInt64 = sync

/-- What is looked up in the header and the body has the type it is taken for: SYNC, and if it fits, CODE
and for a code other than 0 the text of the error. -/
structure Legible (P : Platform) (sync : UInt64) (header : List (Key × PVal)) (body : PVal) : Prop where
  longSync : ∀ val, indexFind header beexSync = some val → val.IsLong
  longCode : SyncFits P sync header → ∀ val, indexFind header beexCode = some val → val.IsLong
  errorText : SyncFits P sync header → ∀ val, indexFind header beexCode = some val →
    zLval P val ≠ 0 → HasError body

/-- The bytes ahead in the stream are read without a fault: five bytes of length, and a payload, which
is read together with what stands behind it in the buffer. -/
structure Sound (P : Platform) (sync : UInt64) (w : World) : Prop where
  length : ∀ packLen w', readLength .length w = .ok ((5, packLen), w') →
    Validated packLen 5 (BeginsUint packLen)
  payload : ∀ payload w', Receives checkStatus w payload w' →
    Unpacks P.ndebug (payload ++ w.obj.value.behind payload.length) payload.length fun header rest =>
      ∀ entries next, header = .arr entries next →
        Unpacks P.ndebug rest payload.length fun body _ => Legible P sync entries body

end BeePhp
