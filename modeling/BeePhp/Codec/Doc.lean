import BeePhp.Codec.Bytes

/-!
# MessagePack documents

A `Doc` is a MessagePack document together with the width in which each of its numbers and lengths is
written, so that `Doc.encode` has a unique value. The items of a map are its keys and values in turn.
`Doc.WF` says that every number fits the width it is written in.
-/

namespace BeePhp.Codec

/-- How a number is written: inside the lead byte, or in 1, 2, 4 or 8 bytes after it. -/
inductive IntWidth where
  | fix | w8 | w16 | w32 | w64
  deriving DecidableEq, Repr

/-- How the length of a string is written. -/
inductive StrWidth where
  | fix | w8 | w16 | w32
  deriving DecidableEq, Repr

/-- How the length of a byte array is written. -/
inductive BinWidth where
  | w8 | w16 | w32
  deriving DecidableEq, Repr

/-- How the number of items of an array, or of pairs of a map, is written. -/
inductive SeqWidth where
  | fix | w16 | w32
  deriving DecidableEq, Repr

/-- How the length of an extension is written; the `fix` ones have a length of their own. -/
inductive ExtWidth where
  | fix1 | fix2 | fix4 | fix8 | fix16 | w8 | w16 | w32
  deriving DecidableEq, Repr

/-- A MessagePack document. -/
inductive Doc where
  | nil
  | unused
  | bool (b : Bool)
  | uint (w : IntWidth) (n : Nat)
  | int (w : IntWidth) (i : Int)
  | float (bits : Nat)
  | double (bits : Nat)
  | str (w : StrWidth) (s : Bytes)
  | bin (w : BinWidth) (s : Bytes)
  | ext (w : ExtWidth) (type : UInt8) (s : Bytes)
  | array (w : SeqWidth) (items : List Doc)
  | map (w : SeqWidth) (items : List Doc)

/-! ## Lead bytes and lengths -/

def IntWidth.uintHead : IntWidth → Nat → Bytes
  | .fix, n => [UInt8.ofNat n]
  | .w8, n => 0xcc :: toBE 1 n
  | .w16, n => 0xcd :: toBE 2 n
  | .w32, n => 0xce :: toBE 4 n
  | .w64, n => 0xcf :: toBE 8 n

def IntWidth.intHead : IntWidth → Int → Bytes
  | .fix, i => [UInt8.ofNat (twos 1 i)]
  | .w8, i => 0xd0 :: toBE 1 (twos 1 i)
  | .w16, i => 0xd1 :: toBE 2 (twos 2 i)
  | .w32, i => 0xd2 :: toBE 4 (twos 4 i)
  | .w64, i => 0xd3 :: toBE 8 (twos 8 i)

def StrWidth.head : StrWidth → Nat → Bytes
  | .fix, n => [UInt8.ofNat (0xa0 + n)]
  | .w8, n => 0xd9 :: toBE 1 n
  | .w16, n => 0xda :: toBE 2 n
  | .w32, n => 0xdb :: toBE 4 n

def BinWidth.head : BinWidth → Nat → Bytes
  | .w8, n => 0xc4 :: toBE 1 n
  | .w16, n => 0xc5 :: toBE 2 n
  | .w32, n => 0xc6 :: toBE 4 n

def SeqWidth.arrayHead : SeqWidth → Nat → Bytes
  | .fix, n => [UInt8.ofNat (0x90 + n)]
  | .w16, n => 0xdc :: toBE 2 n
  | .w32, n => 0xdd :: toBE 4 n

def SeqWidth.mapHead : SeqWidth → Nat → Bytes
  | .fix, n => [UInt8.ofNat (0x80 + n)]
  | .w16, n => 0xde :: toBE 2 n
  | .w32, n => 0xdf :: toBE 4 n

def ExtWidth.head : ExtWidth → Nat → Bytes
  | .fix1, _ => [0xd4]
  | .fix2, _ => [0xd5]
  | .fix4, _ => [0xd6]
  | .fix8, _ => [0xd7]
  | .fix16, _ => [0xd8]
  | .w8, n => 0xc7 :: toBE 1 n
  | .w16, n => 0xc8 :: toBE 2 n
  | .w32, n => 0xc9 :: toBE 4 n

/-! ## What fits where -/

/-- The numbers written without a sign in a width are those below this bound. -/
def IntWidth.uintBound : IntWidth → Nat
  | .fix => 2 ^ 7
  | .w8 => 256 ^ 1
  | .w16 => 256 ^ 2
  | .w32 => 256 ^ 4
  | .w64 => 256 ^ 8

def IntWidth.fitsInt : IntWidth → Int → Prop
  | .fix, i => -32 ≤ i ∧ i < 0
  | .w8, i => -2 ^ 7 ≤ i ∧ i < 2 ^ 7
  | .w16, i => -2 ^ 15 ≤ i ∧ i < 2 ^ 15
  | .w32, i => -2 ^ 31 ≤ i ∧ i < 2 ^ 31
  | .w64, i => -2 ^ 63 ≤ i ∧ i < 2 ^ 63

def StrWidth.bound : StrWidth → Nat
  | .fix => 32
  | .w8 => 256 ^ 1
  | .w16 => 256 ^ 2
  | .w32 => 256 ^ 4

def BinWidth.bound : BinWidth → Nat
  | .w8 => 256 ^ 1
  | .w16 => 256 ^ 2
  | .w32 => 256 ^ 4

def SeqWidth.bound : SeqWidth → Nat
  | .fix => 16
  | .w16 => 256 ^ 2
  | .w32 => 256 ^ 4

def ExtWidth.fits : ExtWidth → Nat → Prop
  | .fix1, n => n = 1
  | .fix2, n => n = 2
  | .fix4, n => n = 4
  | .fix8, n => n = 8
  | .fix16, n => n = 16
  | .w8, n => n < 256 ^ 1
  | .w16, n => n < 256 ^ 2
  | .w32, n => n < 256 ^ 4

instance : (w : IntWidth) → (i : Int) → Decidable (w.fitsInt i)
  | .fix, _ | .w8, _ | .w16, _ | .w32, _ | .w64, _ => inferInstanceAs (Decidable (_ ∧ _))

instance : (w : ExtWidth) → (n : Nat) → Decidable (w.fits n)
  | .fix1, _ | .fix2, _ | .fix4, _ | .fix8, _ | .fix16, _ => inferInstanceAs (Decidable (_ = _))
  | .w8, _ | .w16, _ | .w32, _ => inferInstanceAs (Decidable (_ < _))

/-! ## Documents -/

/-- The documents directly inside a document. -/
def Doc.items : Doc → List Doc
  | .array _ ds => ds
  | .map _ ds => ds
  | _ => []

/-- The bytes of a document before its items. -/
def Doc.head : Doc → Bytes
  | .nil => [0xc0]
  | .unused => [0xc1]
  | .bool false => [0xc2]
  | .bool true => [0xc3]
  | .uint w n => w.uintHead n
  | .int w i => w.intHead i
  | .float bits => 0xca :: toBE 4 bits
  | .double bits => 0xcb :: toBE 8 bits
  | .str w s => w.head s.length ++ s
  | .bin w s => w.head s.length ++ s
  | .ext w type s => w.head s.length ++ type :: s
  | .array w ds => w.arrayHead ds.length
  | .map w ds => w.mapHead (ds.length / 2)

/-- The numbers of a document itself, those of its items apart, fit where they are written. -/
def Doc.Fits : Doc → Prop
  | .uint w n => n < w.uintBound
  | .int w i => w.fitsInt i
  | .float bits => bits < 256 ^ 4
  | .double bits => bits < 256 ^ 8
  | .str w s => s.length < w.bound
  | .bin w s => s.length < w.bound
  | .ext w _ s => w.fits s.length
  | .array w ds => ds.length < w.bound
  | .map w ds => ds.length % 2 = 0 ∧ ds.length / 2 < w.bound
  | _ => True

instance : (d : Doc) → Decidable d.Fits
  | .uint .. | .float _ | .double _ | .str .. | .bin .. | .array .. =>
    inferInstanceAs (Decidable (_ < _))
  | .int w i => inferInstanceAs (Decidable (w.fitsInt i))
  | .ext w _ s => inferInstanceAs (Decidable (w.fits s.length))
  | .map .. => inferInstanceAs (Decidable (_ ∧ _))
  | .nil | .unused | .bool _ => inferInstanceAs (Decidable True)

mutual

/-- The bytes of a document. -/
def Doc.encode : Doc → Bytes
  | .array w ds => w.arrayHead ds.length ++ encodeAll ds
  | .map w ds => w.mapHead (ds.length / 2) ++ encodeAll ds
  | d => d.head

/-- The bytes of a row of documents. -/
def encodeAll : List Doc → Bytes
  | [] => []
  | d :: ds => d.encode ++ encodeAll ds

end

mutual

/-- A document all of whose numbers fit where they are written. -/
def Doc.WF : Doc → Prop
  | .array w ds => (Doc.array w ds).Fits ∧ AllWF ds
  | .map w ds => (Doc.map w ds).Fits ∧ AllWF ds
  | d => d.Fits

/-- A row of such documents. -/
def AllWF : List Doc → Prop
  | [] => True
  | d :: ds => d.WF ∧ AllWF ds

end

mutual

instance Doc.decidableWF : (d : Doc) → Decidable d.WF
  | .array w ds =>
    have := AllWF.decidable ds
    inferInstanceAs (Decidable ((Doc.array w ds).Fits ∧ AllWF ds))
  | .map w ds =>
    have := AllWF.decidable ds
    inferInstanceAs (Decidable ((Doc.map w ds).Fits ∧ AllWF ds))
  | .nil => inferInstanceAs (Decidable Doc.nil.Fits)
  | .unused => inferInstanceAs (Decidable Doc.unused.Fits)
  | .bool b => inferInstanceAs (Decidable (Doc.bool b).Fits)
  | .uint w n => inferInstanceAs (Decidable (Doc.uint w n).Fits)
  | .int w i => inferInstanceAs (Decidable (Doc.int w i).Fits)
  | .float b => inferInstanceAs (Decidable (Doc.float b).Fits)
  | .double b => inferInstanceAs (Decidable (Doc.double b).Fits)
  | .str w s => inferInstanceAs (Decidable (Doc.str w s).Fits)
  | .bin w s => inferInstanceAs (Decidable (Doc.bin w s).Fits)
  | .ext w t s => inferInstanceAs (Decidable (Doc.ext w t s).Fits)

instance AllWF.decidable : (ds : List Doc) → Decidable (AllWF ds)
  | [] => inferInstanceAs (Decidable True)
  | d :: ds =>
    have := Doc.decidableWF d
    have := AllWF.decidable ds
    inferInstanceAs (Decidable (d.WF ∧ AllWF ds))

end

mutual

/-- The most documents a reader of `d` has ahead of it while `m` more documents wait after `d`:
those that wait, the one it is at, and the items that one announces. -/
def Doc.peak (m : Nat) : Doc → Nat
  | .array _ ds => max (m + 1 + ds.length) (peakAll m ds)
  | .map _ ds => max (m + 1 + ds.length) (peakAll m ds)
  | _ => m + 1

/-- The same for a row of documents before `m` more. -/
def peakAll (m : Nat) : List Doc → Nat
  | [] => 0
  | d :: ds => max (d.peak (m + ds.length)) (peakAll m ds)

end

/-- The items of a map, paired up. -/
def pairUp : List Doc → List (Doc × Doc)
  | k :: v :: ds => (k, v) :: pairUp ds
  | _ => []

/-- The items of a map with the given pairs. -/
def flatten : List (Doc × Doc) → List Doc
  | [] => []
  | (k, v) :: ps => k :: v :: flatten ps

/-- The pairs of a map. -/
def Doc.pairs : Doc → List (Doc × Doc)
  | .map _ ds => pairUp ds
  | _ => []

/-- The integer that a document is. -/
def Doc.integer : Doc → Option Int
  | .uint _ n => some n
  | .int _ i => some i
  | _ => none

/-- The bytes of a string or a byte array. -/
def Doc.bytes : Doc → Option Bytes
  | .str _ s => some s
  | .bin _ s => some s
  | _ => none

/-- The property holds of a document and of all documents inside it. -/
inductive Doc.Every (P : Doc → Prop) : Doc → Prop
  | node {d : Doc} : P d → (∀ e ∈ d.items, Doc.Every P e) → Doc.Every P d

/-! ## Shortest forms -/

def IntWidth.forNat (n : Nat) : IntWidth :=
  if n ≤ 0x7f then .fix
  else if n ≤ 0xff then .w8
  else if n ≤ 0xffff then .w16
  else if n ≤ 0xffffffff then .w32
  else .w64

def IntWidth.forInt (i : Int) : IntWidth :=
  if i ≥ -0x20 then .fix
  else if i ≥ -2 ^ 7 then .w8
  else if i ≥ -2 ^ 15 then .w16
  else if i ≥ -2 ^ 31 then .w32
  else .w64

def StrWidth.forNat (n : Nat) : StrWidth :=
  if n ≤ 31 then .fix
  else if n ≤ 0xff then .w8
  else if n ≤ 0xffff then .w16
  else .w32

def SeqWidth.forNat (n : Nat) : SeqWidth :=
  if n ≤ 15 then .fix
  else if n ≤ 0xffff then .w16
  else .w32

def Doc.ofNat (n : Nat) : Doc := .uint (.forNat n) n

/-- The shortest document for an integer: unsigned unless it is negative. -/
def Doc.ofInt (i : Int) : Doc :=
  if 0 ≤ i then .ofNat i.toNat else .int (.forInt i) i

def Doc.ofStr (s : Bytes) : Doc := .str (.forNat s.length) s

def Doc.ofList (ds : List Doc) : Doc := .array (.forNat ds.length) ds

def Doc.ofPairs (ps : List (Doc × Doc)) : Doc := .map (.forNat ps.length) (flatten ps)

end BeePhp.Codec
