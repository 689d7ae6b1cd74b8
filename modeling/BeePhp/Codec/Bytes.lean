import Mathlib.Data.List.Basic
import Mathlib.Tactic.Ring
import Mathlib.Tactic.Linarith

/-!
# Byte strings and big-endian numbers

Byte strings are lists of `UInt8`. `toBE k n` writes the `k` low-order bytes of `n`, most significant
byte first, and `ofBE` reads such a number back. `twos k i` is the `k`-byte two's complement image of
an integer and `signed k n` reads it back.
-/

namespace BeePhp.Codec

/-- A string of bytes. -/
abbrev Bytes := List UInt8

/-- The `k` low-order bytes of `n`, most significant byte first. -/
def toBE : Nat → Nat → Bytes
  | 0, _ => []
  | k + 1, n => UInt8.ofNat (n / 256 ^ k) :: toBE k n

/-- The number written by a big-endian byte string. -/
def ofBE : Bytes → Nat
  | [] => 0
  | b :: bs => b.toNat * 256 ^ bs.length + ofBE bs

/-- The two's complement image of `i` in `k` bytes. -/
def twos (k : Nat) (i : Int) : Nat := (i % (256 ^ k : Nat)).toNat

/-- The signed number whose two's complement image in `k` bytes is `n`. -/
def signed (k : Nat) (n : Nat) : Int := (n : Int).bmod (256 ^ k)

end BeePhp.Codec
