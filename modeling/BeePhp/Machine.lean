import BeePhp.Codec.Bytes

/-!
# The C program and its machine

Memory is a list of bytes: a pointer is the list of the readable bytes it points at, up to the end of
the object, and moving it drops bytes. A run that leaves what C defines, or that meets a failing
assertion, ends in a `Fault`.

`int` is a 32-bit integer kept as an `Int` in range; PHP's `long` is an `Int64`, a `double` is its
64-bit image.
-/

namespace BeePhp

open Codec (Bytes)

/-- The ways a run of the C program ends without returning. -/
inductive Fault where
  /-- a read past the end of an object -/
  | oob
  /-- a write past the end of an object -/
  | overrun
  /-- a decoder applied to a lead byte of another type -/
  | wrongType
  /-- a failing `assert` -/
  | assertion
  /-- a signed overflow -/
  | signedOverflow
  /-- a null pointer followed -/
  | nullDeref
  /-- an indeterminate pointer followed -/
  | uninit
  /-- the recursion bound of the model is used up -/
  | fuel
  deriving DecidableEq, Repr

/-- How a decoder of the extension ends when it returns no value: `FAILURE`, with the exception it has
thrown if any, or a fault. -/
inductive Halt where
  | failure (thrown : Option String)
  | fault (f : Fault)
  deriving DecidableEq, Repr

def intMin : Int := -2 ^ 31
def intMax : Int := 2 ^ 31 - 1

/-- The value of a signed operation on `int`s, which must not leave the type. -/
def signedInt (i : Int) : Except Fault Int :=
  if intMin ≤ i ∧ i ≤ intMax then .ok i else .error .signedOverflow

/-- Conversion to `int`. -/
def toInt (i : Int) : Int := i.bmod (2 ^ 32)

/-- Conversion to `uint32_t`. -/
def toUint32 (n : Nat) : Nat := n % 2 ^ 32

/-- Conversion of a `long` to `uint32_t`. -/
def longToUint32 (n : Int64) : UInt32 := n.toUInt64.toUInt32

/-- Conversion of an `int` or a `ptrdiff_t` to `size_t`. -/
def toSize (i : Int) : Nat := (i % 2 ^ 64).toNat

/-- The bytes of a text in ASCII. -/
def ascii (s : String) : Bytes := s.toList.map fun c => UInt8.ofNat c.toNat

/-- A C string: what stands before the first NUL. -/
def cString (s : Bytes) : Bytes := s.takeWhile (· ≠ 0)

/-- Write `bs` at the offset `pos` of an object. -/
def writeAt (c : Bytes) (pos : Nat) (bs : Bytes) : Except Fault Bytes :=
  if pos + bs.length ≤ c.length then .ok (c.take pos ++ bs ++ c.drop (pos + bs.length))
  else .error .overrun

end BeePhp
