import BeePhp.Codec.Bytes
import BeePhp.Machine

/-!
# PMurHash.c

`PMurHash32`, the hash of all bytes at once. The four bytes of a block count from the least significant one
on, whatever the order of the machine.
-/

namespace BeePhp

open Codec (Bytes)

/-- `ROTL32`. -/
def rotl32 (x r : UInt32) : UInt32 := (x <<< r) ||| (x >>> (32 - r))

/-- What `DOBLOCK` makes of a block before it goes into the hash. -/
def mixBlock (k1 : UInt32) : UInt32 := rotl32 (k1 * 0xcc9e2d51) 15 * 0x1b873593

/-- `DOBLOCK`. -/
def doBlock (h1 k1 : UInt32) : UInt32 := rotl32 (h1 ^^^ mixBlock k1) 13 * 5 + 0xe6546b64

/-- A block of at most four bytes. -/
def blockOf (bs : Bytes) : UInt32 := bs.foldr (fun b k1 => k1 <<< 8 ||| b.toUInt32) 0

/-- `PMurHash32_Process`: the hash, and the bytes that are carried. -/
def pMurHash32Process (h1 : UInt32) : Bytes → UInt32 × Bytes
  | a :: b :: c :: d :: bs => pMurHash32Process (doBlock h1 (blockOf [a, b, c, d])) bs
  | carry => (h1, carry)

/-- `PMurHash32_Result`. -/
def pMurHash32Result (h : UInt32) (carry : Bytes) (totalLength : Nat) : UInt32 :=
  let h := if carry.length = 0 then h else h ^^^ mixBlock (blockOf carry)
  let h := h ^^^ UInt32.ofNat totalLength
  let h := (h ^^^ (h >>> 16)) * 0x85ebca6b
  let h := (h ^^^ (h >>> 13)) * 0xc2b2ae35
  h ^^^ (h >>> 16)

/-- `PMurHash32`. The length is an `int`, and when it is negative there are no blocks. -/
def pMurHash32 (seed : UInt32) (key : Bytes) : UInt32 :=
  if key.length < 2 ^ 31 then
    let (h1, carry) := pMurHash32Process seed key
    pMurHash32Result h1 carry key.length
  else pMurHash32Result seed [] key.length

end BeePhp
