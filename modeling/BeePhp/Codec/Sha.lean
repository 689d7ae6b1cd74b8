import BeePhp.Codec.Blocks
import BeePhp.Codec.Bytes

/-!
# The secure hash algorithm

SHA-1 as it is defined: a message is padded to whole blocks of 64 bytes, the 16 words of a block are expanded
to 80, and in 80 rounds these are worked into five words.
-/

namespace BeePhp.Codec.Sha

/-- The circular left shift. -/
def rotl (x n : UInt32) : UInt32 := (x <<< n) ||| (x >>> (32 - n))

/-- Five words. -/
@[ext]
structure Words where
  a : UInt32
  b : UInt32
  c : UInt32
  d : UInt32
  e : UInt32
  deriving DecidableEq, Repr

/-- The initial hash value. -/
def initial : Words := ⟨0x67452301, 0xEFCDAB89, 0x98BADCFE, 0x10325476, 0xC3D2E1F0⟩

def ch (x y z : UInt32) : UInt32 := (x &&& y) ^^^ (~~~x &&& z)

def parity (x y z : UInt32) : UInt32 := x ^^^ y ^^^ z

def maj (x y z : UInt32) : UInt32 := (x &&& y) ^^^ (x &&& z) ^^^ (y &&& z)

/-- The function of the round `t`. -/
def logical (t : Nat) : UInt32 → UInt32 → UInt32 → UInt32 :=
  if t < 20 then ch else if t < 40 then parity else if t < 60 then maj else parity

/-- The constant of the round `t`. -/
def constant (t : Nat) : UInt32 :=
  if t < 20 then 0x5A827999 else if t < 40 then 0x6ED9EBA1 else if t < 60 then 0x8F1BBCDC else 0xCA62C1D6

/-- The message schedule of 16 words. -/
def schedule (m : Nat → UInt32) (t : Nat) : UInt32 :=
  if t < 16 then m t
  else rotl (schedule m (t - 3) ^^^ schedule m (t - 8) ^^^ schedule m (t - 14) ^^^ schedule m (t - 16)) 1

/-- The round `t`. -/
def round (w : Nat → UInt32) (s : Words) (t : Nat) : Words :=
  ⟨rotl s.a 5 + logical t s.b s.c s.d + s.e + constant t + w t, s.a, rotl s.b 30, s.c, s.d⟩

/-- The word `t` of a block. -/
def word (block : Bytes) (t : Nat) : UInt32 := UInt32.ofNat (ofBE ((block.drop (4 * t)).take 4))

def Words.add (s t : Words) : Words := ⟨s.a + t.a, s.b + t.b, s.c + t.c, s.d + t.d, s.e + t.e⟩

/-- The hash value after one block more. -/
def compress (h : Words) (block : Bytes) : Words :=
  h.add ((List.range 80).foldl (round (schedule (word block))) h)

/-- What is appended to a message of `n` bytes. -/
def padding (n : Nat) : Bytes := 0x80 :: List.replicate ((119 - n % 64) % 64) 0 ++ toBE 8 (8 * n)

/-- The words as bytes. -/
def Words.bytes (s : Words) : Bytes := [s.a, s.b, s.c, s.d, s.e].flatMap fun x => toBE 4 x.toNat

/-- The hash of a message. -/
def digest (message : Bytes) : Bytes :=
  (Blocks.absorb 64 compress (initial, []) (message ++ padding message.length)).1.bytes

theorem digest_length (message : Bytes) : (digest message).length = 20 := rfl

end BeePhp.Codec.Sha
