import BeePhp.Codec.Sha
import BeePhp.Machine

/-!
# third_party/sha1.c

SHA-1, on a machine whose words are stored with the least significant byte first. The working words of
`SHA1Transform` change their roles from one round to the next instead of their contents, and its block of 16
words is expanded in place.
-/

namespace BeePhp

open Codec (Bytes)
open Codec.Sha (Words)

/-- `memcpy` of `n` bytes to the offset `pos` of an object. -/
def memcpyAt (c : Bytes) (pos : Nat) (src : Bytes) (n : Nat) : Except Fault Bytes :=
  if n ≤ src.length then writeAt c pos (src.take n) else .error .oob

/-! ## SHA1Transform -/

/-- `rol`. -/
def rol (value bits : UInt32) : UInt32 := (value <<< bits) ||| (value >>> (32 - bits))

/-- The working words. -/
inductive Reg where
  | a | b | c | d | e
  deriving DecidableEq, Repr

def Reg.get (s : Words) : Reg → UInt32
  | a => s.a
  | b => s.b
  | c => s.c
  | d => s.d
  | e => s.e

def Reg.set (s : Words) (x : UInt32) : Reg → Words
  | a => { s with a := x }
  | b => { s with b := x }
  | c => { s with c := x }
  | d => { s with d := x }
  | e => { s with e := x }

/-- The working words and `block->l`. -/
structure Sha1Work where
  regs : Words
  block : List UInt32

/-- `block->l[i & 15]`. -/
def blockWord (block : List UInt32) (i : Nat) : UInt32 := block.getD (i % 16) 0

/-- `blk0`: the block after it; its value is the word that it sets. -/
def blk0 (block : List UInt32) (i : Nat) : List UInt32 :=
  let l := blockWord block i
  block.set (i % 16) ((rol l 24 &&& 0xFF00FF00) ||| (rol l 8 &&& 0x00FF00FF))

/-- `blk`. -/
def blk (block : List UInt32) (i : Nat) : List UInt32 :=
  block.set (i % 16) (rol (blockWord block (i + 13) ^^^ blockWord block (i + 8) ^^^ blockWord block (i + 2) ^^^
    blockWord block i) 1)

/-- What `R0` to `R4` have in common. -/
def sha1Round (f : UInt32 → UInt32 → UInt32 → UInt32) (k : UInt32) (blk : List UInt32 → Nat → List UInt32)
    (v w x y z : Reg) (i : Nat) (s : Sha1Work) : Sha1Work :=
  let block := blk s.block i
  let regs := z.set s.regs (z.get s.regs + (f (w.get s.regs) (x.get s.regs) (y.get s.regs) + blockWord block i +
    k + rol (v.get s.regs) 5))
  ⟨w.set regs (rol (w.get regs) 30), block⟩

/-- `R0`. -/
def r0 : Reg → Reg → Reg → Reg → Reg → Nat → Sha1Work → Sha1Work :=
  sha1Round (fun w x y => (w &&& (x ^^^ y)) ^^^ y) 0x5A827999 blk0

/-- `R1`. -/
def r1 : Reg → Reg → Reg → Reg → Reg → Nat → Sha1Work → Sha1Work :=
  sha1Round (fun w x y => (w &&& (x ^^^ y)) ^^^ y) 0x5A827999 blk

/-- `R2`. -/
def r2 : Reg → Reg → Reg → Reg → Reg → Nat → Sha1Work → Sha1Work :=
  sha1Round (fun w x y => w ^^^ x ^^^ y) 0x6ED9EBA1 blk

/-- `R3`. -/
def r3 : Reg → Reg → Reg → Reg → Reg → Nat → Sha1Work → Sha1Work :=
  sha1Round (fun w x y => ((w ||| x) &&& y) ||| (w &&& x)) 0x8F1BBCDC blk

/-- `R4`. -/
def r4 : Reg → Reg → Reg → Reg → Reg → Nat → Sha1Work → Sha1Work :=
  sha1Round (fun w x y => w ^^^ x ^^^ y) 0xCA62C1D6 blk

/-- The unrolled loop of `SHA1Transform`. -/
def sha1Rounds : List (Sha1Work → Sha1Work) :=
  open Reg in [
    r0 a b c d e 0, r0 e a b c d 1, r0 d e a b c 2, r0 c d e a b 3,
    r0 b c d e a 4, r0 a b c d e 5, r0 e a b c d 6, r0 d e a b c 7,
    r0 c d e a b 8, r0 b c d e a 9, r0 a b c d e 10, r0 e a b c d 11,
    r0 d e a b c 12, r0 c d e a b 13, r0 b c d e a 14, r0 a b c d e 15,
    r1 e a b c d 16, r1 d e a b c 17, r1 c d e a b 18, r1 b c d e a 19,
    r2 a b c d e 20, r2 e a b c d 21, r2 d e a b c 22, r2 c d e a b 23,
    r2 b c d e a 24, r2 a b c d e 25, r2 e a b c d 26, r2 d e a b c 27,
    r2 c d e a b 28, r2 b c d e a 29, r2 a b c d e 30, r2 e a b c d 31,
    r2 d e a b c 32, r2 c d e a b 33, r2 b c d e a 34, r2 a b c d e 35,
    r2 e a b c d 36, r2 d e a b c 37, r2 c d e a b 38, r2 b c d e a 39,
    r3 a b c d e 40, r3 e a b c d 41, r3 d e a b c 42, r3 c d e a b 43,
    r3 b c d e a 44, r3 a b c d e 45, r3 e a b c d 46, r3 d e a b c 47,
    r3 c d e a b 48, r3 b c d e a 49, r3 a b c d e 50, r3 e a b c d 51,
    r3 d e a b c 52, r3 c d e a b 53, r3 b c d e a 54, r3 a b c d e 55,
    r3 e a b c d 56, r3 d e a b c 57, r3 c d e a b 58, r3 b c d e a 59,
    r4 a b c d e 60, r4 e a b c d 61, r4 d e a b c 62, r4 c d e a b 63,
    r4 b c d e a 64, r4 a b c d e 65, r4 e a b c d 66, r4 d e a b c 67,
    r4 c d e a b 68, r4 b c d e a 69, r4 a b c d e 70, r4 e a b c d 71,
    r4 d e a b c 72, r4 c d e a b 73, r4 b c d e a 74, r4 a b c d e 75,
    r4 e a b c d 76, r4 d e a b c 77, r4 c d e a b 78, r4 b c d e a 79]

/-- A word of memory, least significant byte first. -/
def memoryWord (bs : Bytes) : UInt32 := bs.foldr (fun b l => l <<< 8 ||| b.toUInt32) 0

/-- `SHA1Transform` of a buffer of 64 bytes. -/
def sha1Transform (state : Words) (buffer : Bytes) : Words :=
  let block := (List.range 16).map fun i => memoryWord ((buffer.drop (4 * i)).take 4)
  state.add (sha1Rounds.foldl (fun (s : Sha1Work) r => r s) ⟨state, block⟩).regs

/-! ## The context -/

/-- `SHA1_CTX`. -/
structure Sha1Ctx where
  state : Words
  count0 : UInt32
  count1 : UInt32
  buffer : Bytes

/-- A context whose memory has been set to 0. -/
def Sha1Ctx.wiped : Sha1Ctx := ⟨⟨0, 0, 0, 0, 0⟩, 0, 0, List.replicate 64 0⟩

/-- `SHA1Init`. The buffer stays as it is. -/
def sha1Init (context : Sha1Ctx) : Sha1Ctx :=
  { context with state := ⟨0x67452301, 0xEFCDAB89, 0x98BADCFE, 0x10325476, 0xC3D2E1F0⟩, count0 := 0, count1 := 0 }

/-- The loop of `SHA1Update` over whole blocks. -/
def sha1UpdateLoop (data : Bytes) (len : UInt32) : Nat → Words → UInt32 → Except Fault (Words × UInt32)
  | 0, _, _ => .error .fuel
  | fuel + 1, state, i =>
    if i + 63 < len then
      let buffer := (data.drop i.toNat).take 64
      if buffer.length < 64 then .error .oob
      else sha1UpdateLoop data len fuel (sha1Transform state buffer) (i + 64)
    else .ok (state, i)

/-- `SHA1Update`. -/
def sha1Update (context : Sha1Ctx) (data : Bytes) (len : UInt32) : Except Fault Sha1Ctx := do
  let j := context.count0
  let count0 := j + (len <<< 3)
  let count1 := (if count0 < j then context.count1 + 1 else context.count1) + (len >>> 29)
  let j := (j >>> 3) &&& 63
  if j + len > 63 then
    let buffer ← memcpyAt context.buffer j.toNat data (64 - j).toNat
    let (state, i) ← sha1UpdateLoop data len (len.toNat / 64 + 1) (sha1Transform context.state buffer) (64 - j)
    let buffer ← memcpyAt buffer 0 (data.drop i.toNat) (len - i).toNat
    return ⟨state, count0, count1, buffer⟩
  else
    let buffer ← memcpyAt context.buffer j.toNat data len.toNat
    return ⟨context.state, count0, count1, buffer⟩

/-- The loop of `SHA1Final`. -/
def sha1FinalLoop : Nat → Sha1Ctx → Except Fault Sha1Ctx
  | 0, _ => .error .fuel
  | fuel + 1, context =>
    if context.count0 &&& 504 ≠ 448 then do sha1FinalLoop fuel (← sha1Update context [0] 1) else .ok context

/-- Byte `i` of words, most significant byte first. -/
def wordByte (words : List UInt32) (i : Nat) : UInt8 :=
  ((words.getD (i / 4) 0 >>> UInt32.ofNat ((3 - i % 4) * 8)) &&& 255).toUInt8

/-- `SHA1Final`: the digest, and the context, which is wiped. -/
def sha1Final (context : Sha1Ctx) : Except Fault (Bytes × Sha1Ctx) := do
  let finalcount := (List.range 8).map (wordByte [context.count1, context.count0])
  let context ← sha1Update context [0x80] 1
  let context ← sha1FinalLoop 64 context
  let context ← sha1Update context finalcount 8
  let s := context.state
  return ((List.range 20).map (wordByte [s.a, s.b, s.c, s.d, s.e]), .wiped)

/-- A `SHA1Update` of each piece. -/
def sha1Updates (context : Sha1Ctx) (pieces : List Bytes) : Except Fault Sha1Ctx :=
  pieces.foldlM (fun context piece => sha1Update context piece (UInt32.ofNat piece.length)) context

end BeePhp
