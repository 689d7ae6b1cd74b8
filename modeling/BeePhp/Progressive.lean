import BeePhp.Murmur

/-!
# PMurHash.c: the hash of a key that comes in pieces

`PMurHash32_Process` carries the bytes of a block that is not full yet in a word: they are its most significant
bytes, and their number is in its two low bits. It has two paths: one for machines that read words at any address
(`UNALIGNED_SAFE`), and one for the others, which reads words at multiples of four only.
-/

namespace BeePhp

open Codec (Bytes)

/-- The running hash and the carry. -/
structure PMurHash32 where
  h1 : UInt32
  carry : UInt32
  deriving DecidableEq, Repr

namespace PMurHash32

/-- The variables `h1`, `c` and `n` of `PMurHash32_Process`. -/
structure Work where
  h1 : UInt32
  c : UInt32
  n : Nat

/-- One byte of `DOBYTES`. `DOBLOCK` leaves what it has mixed in `c`. -/
def doByte (w : Work) (b : UInt8) : Work :=
  let c := w.c >>> 8 ||| b.toUInt32 <<< 24
  if w.n + 1 = 4 then ⟨doBlock w.h1 c, mixBlock c, 0⟩ else ⟨w.h1, c, w.n + 1⟩

/-- `DOBYTES`. -/
def doBytes (w : Work) (bs : Bytes) : Work := bs.foldl doByte w

/-- The loop over whole blocks that leaves the carry as it is. -/
def doWords (w : Work) : Bytes → Work
  | p :: q :: r :: s :: bs => doWords { w with h1 := doBlock w.h1 (blockOf [p, q, r, s]) } bs
  | _ => w

/-- The body of the loop when `n` bytes are in the carry: the word that has been read completes them, and leaves
its own last bytes in their place. -/
def doAligned (w : Work) (word : UInt32) : Work :=
  match w.n with
  | 1 => ⟨doBlock w.h1 (w.c >>> 24 ||| word <<< 8), word, w.n⟩
  | 2 => ⟨doBlock w.h1 (w.c >>> 16 ||| word <<< 16), word, w.n⟩
  | 3 => ⟨doBlock w.h1 (w.c >>> 8 ||| word <<< 24), word, w.n⟩
  | _ => { w with h1 := doBlock w.h1 word }

/-- The four loops over aligned words. -/
def doAlignedWords (w : Work) : Bytes → Work
  | p :: q :: r :: s :: bs => doAlignedWords (doAligned w (blockOf [p, q, r, s])) bs
  | _ => w

/-- What the words are read with. -/
inductive Access where
  /-- `UNALIGNED_SAFE` -/
  | unalignedSafe
  /-- the address of the key -/
  | aligned (address : Nat)

/-- The number of bytes before the words. -/
def Access.head (n : Nat) : Access → Nat
  | unalignedSafe => (4 - n) % 4
  | aligned address => (4 - address % 4) % 4

def Access.words (w : Work) (key : Bytes) : Access → Work
  | unalignedSafe => doWords w key
  | aligned _ => doAlignedWords w key

/-- `PMurHash32_Process`, of a key whose length is an `int`. -/
def process (h : PMurHash32) (access : Access) (key : Bytes) : PMurHash32 :=
  let n := (h.carry &&& 3).toNat
  let i := access.head n
  let head := if i ≠ 0 ∧ i ≤ key.length then i else 0
  let w := doBytes ⟨h.h1, h.carry, n⟩ (key.take head)
  let key := key.drop head
  let whole := key.length / 4 * 4
  let w := access.words w (key.take whole)
  let w := doBytes w (key.drop whole)
  ⟨w.h1, (w.c &&& ~~~0xff) ||| UInt32.ofNat w.n⟩

/-- `PMurHash32_Result`. -/
def result (h : PMurHash32) (totalLength : UInt32) : UInt32 :=
  let n := (h.carry &&& 3).toNat
  let x := if n ≠ 0 then h.h1 ^^^ mixBlock (h.carry >>> UInt32.ofNat ((4 - n) * 8)) else h.h1
  let x := x ^^^ totalLength
  let x := (x ^^^ (x >>> 16)) * 0x85ebca6b
  let x := (x ^^^ (x >>> 13)) * 0xc2b2ae35
  x ^^^ (x >>> 16)

/-- A `PMurHash32_Process` of each piece of a key. -/
def processAll (seed : UInt32) (pieces : List (Access × Bytes)) : PMurHash32 :=
  pieces.foldl (fun h piece => h.process piece.1 piece.2) ⟨seed, 0⟩

end PMurHash32

end BeePhp
