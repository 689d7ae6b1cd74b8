import BeePhp.Codec.Bytes

/-!
# Base64

Three bytes are written as four numbers of six bits, and these as characters. One or two bytes at the end are
written as two or three numbers, and the characters are filled up to four. A text has lines of 18 times four
characters.
-/

namespace BeePhp.Codec.Base64

/-- The numbers that stand for bytes. -/
def sextets : Bytes → List Nat
  | x :: y :: z :: bs =>
    x.toNat / 4 :: (x.toNat % 4 * 16 + y.toNat / 16) :: (y.toNat % 16 * 4 + z.toNat / 64) :: z.toNat % 64 ::
      sextets bs
  | [x, y] => [x.toNat / 4, x.toNat % 4 * 16 + y.toNat / 16, y.toNat % 16 * 4]
  | [x] => [x.toNat / 4, x.toNat % 4 * 16]
  | [] => []

/-- The whole bytes that numbers stand for. -/
def bytes : List Nat → Bytes
  | p :: q :: r :: s :: ns =>
    UInt8.ofNat (p * 4 + q / 16) :: UInt8.ofNat (q % 16 * 16 + r / 4) :: UInt8.ofNat (r % 4 * 64 + s) :: bytes ns
  | [p, q, r] => [UInt8.ofNat (p * 4 + q / 16), UInt8.ofNat (q % 16 * 16 + r / 4)]
  | [p, q] => [UInt8.ofNat (p * 4 + q / 16)]
  | _ => []

/-- The character of a number below 64. -/
def char (n : Nat) : UInt8 :=
  if n < 26 then UInt8.ofNat (65 + n)
  else if n < 52 then UInt8.ofNat (71 + n)
  else if n < 62 then UInt8.ofNat (n - 4)
  else if n = 62 then 43
  else 47

/-- The number of a character. -/
def value (c : UInt8) : Option Nat :=
  if 65 ≤ c ∧ c ≤ 90 then some (c.toNat - 65)
  else if 97 ≤ c ∧ c ≤ 122 then some (c.toNat - 71)
  else if 48 ≤ c ∧ c ≤ 57 then some (c.toNat + 4)
  else if c = 43 then some 62
  else if c = 47 then some 63
  else none

/-- The text of bytes, `n` times four characters from the beginning of a line. -/
def text : Nat → Bytes → Bytes
  | n, x :: y :: z :: bs => (sextets [x, y, z]).map char ++ if n + 1 = 18 then 10 :: text 0 bs else text (n + 1) bs
  | _, [x, y] => (sextets [x, y]).map char ++ [61]
  | _, [x] => (sextets [x]).map char ++ [61, 61]
  | _, [] => []

end BeePhp.Codec.Base64
