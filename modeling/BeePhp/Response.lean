import BeePhp.Proto
import BeePhp.Schema

/-!
# bee_proto.c: responses

`php_tp_response`, the parser of the responses that the name lookups and the authentication await. It
gets the size of the packet but never looks at it.
-/

namespace BeePhp

open Codec (Bytes)

/-- A `beex_response`. The error is the text it points at, `data` the memory from the pointer on.
`wideShift` says that a bit beyond the 64 of the bitmap was asked for. -/
structure BeexResponse where
  bitmap : Nat
  wideShift : Bool
  code : UInt32
  sync : UInt32
  error : Option Bytes
  data : Option Bytes
  dataLen : Nat

def BeexResponse.zero : BeexResponse := ⟨0, false, 0, 0, none, none, 0⟩

/-- `r->bitmap |= (1ULL << key)`. -/
def BeexResponse.mark (r : BeexResponse) (key : Nat) : BeexResponse :=
  if key < 64 then { r with bitmap := r.bitmap ||| 2 ^ key } else { r with wideShift := true }

/-- The loop over the header; it gives up with the cursor `none`. -/
def responseHeader : Nat → BeexResponse → Bytes → Except Fault (BeexResponse × Option Bytes)
  | 0, r, p => .ok (r, some p)
  | n + 1, r, p => do
    if (← typeAt p) ≠ .uint then return (r, none)
    let (key, p) ← mpDecodeUint p
    let key := toUint32 key
    if (← typeAt p) ≠ .uint then return (r, none)
    if key = beexSync.toNat then
      let (sync, p) ← mpDecodeUint p
      responseHeader n ({ r with sync := UInt32.ofNat sync }.mark key) p
    else if key = beexCode.toNat then
      let (code, p) ← mpDecodeUint p
      responseHeader n ({ r with code := UInt32.ofNat code }.mark key) p
    else
      let p ← mpNext p
      responseHeader n (r.mark key) p

/-- The loop over the body. -/
def responseBody : Nat → BeexResponse → Bytes → Except Fault (BeexResponse × Option Bytes)
  | 0, r, p => .ok (r, some p)
  | n + 1, r, p => do
    let (key, p) ← mpDecodeUint p
    let key := toUint32 key
    if key = beexError.toNat then
      if (← typeAt p) ≠ .str then return (r, none)
      let (error, p) ← mpDecodeStr p
      let r := { r with error := some error, code := r.code &&& 0x7fff }
      responseBody n (r.mark key) p
    else if key = beexData.toNat then
      if (← typeAt p) ≠ .array then return (r, none)
      let end' ← mpNext p
      let r := { r with data := some p, dataLen := p.length - end'.length }
      responseBody n (r.mark key) end'
    else
      let p ← mpNext p
      responseBody n (r.mark key) p

/-- `php_tp_response`: what it has filled in, and the cursor it leaves, or `none` when it returns
-1. -/
def phpTpResponse (buf : Bytes) : Except Fault (BeexResponse × Option Bytes) := do
  if (← typeAt buf) ≠ .map then return (.zero, none)
  let (n, p) ← mpDecodeMap buf
  match ← responseHeader n .zero p with
  | (r, none) => return (r, none)
  | (r, some p) =>
    if (← typeAt p) ≠ .map then return (r, none)
    let (n, p) ← mpDecodeMap p
    responseBody n r p

end BeePhp
