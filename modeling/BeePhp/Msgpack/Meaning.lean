import BeePhp.Codec.Doc
import BeePhp.Msgpack.Unpack

/-!
# What MessagePack documents mean to PHP

`Doc.toPhp` is the value a document stands for, or the reason why it stands for none. `Refused` says
of a byte string that a reader of documents is turned away before the string is used up: it comes
upon an extension, or upon a pair whose key is no integer and no string.
-/

namespace BeePhp

open Codec

mutual

/-- The PHP value of a document. -/
def docToPhp (ndebug : Bool) : Doc → Except Halt PVal
  | .nil => .ok .null
  | .bool b => .ok (.bool b)
  | .uint _ n => .ok (.long (Int64.ofNat n))
  | .int _ i =>
    -- the size of a signed number is taken, and asserted to be that of a negative one
    if ndebug = false ∧ 0 ≤ i then .error (.fault .assertion) else .ok (.long (Int64.ofInt i))
  | .float bits => .ok (.double (floatToDouble bits))
  | .double bits => .ok (.double (UInt64.ofNat bits))
  | .str _ s => .ok (.str s)
  | .bin _ s => .ok (.bin s)
  | .ext _ _ _ => .error (.failure none)
  | .unused => .error (.failure none)
  | .array _ ds => do return (← itemsToPhp ndebug ds .empty).toPVal
  | .map _ ds => do return (← pairsToPhp ndebug ds .empty).toPVal

/-- A row of documents appended to a PHP array. -/
def itemsToPhp (ndebug : Bool) : List Doc → Table PVal → Except Halt (Table PVal)
  | [], t => .ok t
  | d :: ds, t => do itemsToPhp ndebug ds (addNextIndexZval t (← docToPhp ndebug d))

/-- The keys and values of a row of documents entered into a PHP array. -/
def pairsToPhp (ndebug : Bool) : List Doc → Table PVal → Except Halt (Table PVal)
  | k :: v :: ds, t => do
    let key ← docToPhp ndebug k
    let value ← docToPhp ndebug v
    pairsToPhp ndebug ds (← addPair t key value)
  | _, t => .ok t

end

/-! ## Documents that stand for a value -/

/-- The documents that `php_mp_unpack_map` can enter as keys: integers and strings with a NUL behind them. -/
def isKeyDoc : Doc → Bool
  | .uint .. | .int .. | .str .. => true
  | _ => false

def isBinDoc : Doc → Bool
  | .bin .. => true
  | _ => false

mutual

/-- A document without extensions all of whose map keys are integers, strings or bins. -/
def Representable : Doc → Prop
  | .unused | .ext .. => False
  | .array _ ds => AllRepresentable ds
  | .map _ ds => PairsRepresentable ds
  | _ => True

def AllRepresentable : List Doc → Prop
  | [] => True
  | d :: ds => Representable d ∧ AllRepresentable ds

def PairsRepresentable : List Doc → Prop
  | k :: v :: ds => (isKeyDoc k ∨ isBinDoc k) ∧ Representable v ∧ PairsRepresentable ds
  | _ => True

end

mutual

/-- A representable document in which no key of a map is a bin. -/
def Plain : Doc → Prop
  | .unused | .ext .. => False
  | .array _ ds => AllPlain ds
  | .map _ ds => PairsPlain ds
  | _ => True

def AllPlain : List Doc → Prop
  | [] => True
  | d :: ds => Plain d ∧ AllPlain ds

def PairsPlain : List Doc → Prop
  | k :: v :: ds => isKeyDoc k ∧ Plain v ∧ PairsPlain ds
  | _ => True

end

mutual

/-- A document in which the numbers in a signed form are negative. -/
def SignedNegative : Doc → Prop
  | .int _ i => i < 0
  | .array _ ds => AllSignedNegative ds
  | .map _ ds => AllSignedNegative ds
  | _ => True

def AllSignedNegative : List Doc → Prop
  | [] => True
  | d :: ds => SignedNegative d ∧ AllSignedNegative ds

end

/-- A document that stands for a PHP value and that the unpacking routines can read: they read past a bin that
is a key, and with the assertions compiled in, they stop at a number in a signed form that is not negative. -/
def Decodable (ndebug : Bool) (d : Doc) : Prop :=
  d.WF ∧ Plain d ∧ (ndebug = true ∨ SignedNegative d)

/-- A document of that kind that can be a key. -/
def KeyDecodable (ndebug : Bool) (d : Doc) : Prop := Decodable ndebug d ∧ isKeyDoc d

/-- The bytes begin with those of a document that stands for `v`, and `rest` is what follows. -/
def Begins (ndebug : Bool) (bs : Bytes) (v : PVal) (rest : Bytes) : Prop :=
  ∃ d : Doc, d.WF ∧ bs = d.encode ++ rest ∧ docToPhp ndebug d = .ok v

/-! ## Strings that are refused -/

mutual

/-- A reader of documents is turned away before it reaches the end of the bytes. -/
inductive Refused (ndebug : Bool) : Bytes → Prop
  /-- an extension, or the lead byte that is never used -/
  | ext {c : UInt8} {bs : Bytes} : mpTypeof c = .ext → Refused ndebug (c :: bs)
  | array {w : SeqWidth} {n : Nat} {bs : Bytes} : n < w.bound → ItemsRefused ndebug n bs →
    Refused ndebug (w.arrayHead n ++ bs)
  | map {w : SeqWidth} {n : Nat} {bs : Bytes} : n < w.bound → PairsRefused ndebug n bs →
    Refused ndebug (w.mapHead n ++ bs)

/-- It is turned away inside one of the next `n` documents. -/
inductive ItemsRefused (ndebug : Bool) : Nat → Bytes → Prop
  | here {n : Nat} {bs : Bytes} : Refused ndebug bs → ItemsRefused ndebug (n + 1) bs
  | next {n : Nat} {d : Doc} {bs : Bytes} : Decodable ndebug d → ItemsRefused ndebug n bs →
    ItemsRefused ndebug (n + 1) (d.encode ++ bs)

/-- It is turned away inside one of the next `n` pairs, or after one whose key is no integer, no string and no
bin. -/
inductive PairsRefused (ndebug : Bool) : Nat → Bytes → Prop
  | key {n : Nat} {bs : Bytes} : Refused ndebug bs → PairsRefused ndebug (n + 1) bs
  | value {n : Nat} {k : Doc} {bs : Bytes} : Decodable ndebug k → Refused ndebug bs →
    PairsRefused ndebug (n + 1) (k.encode ++ bs)
  | pair {n : Nat} {k v : Doc} {bs : Bytes} : Decodable ndebug k → ¬ (isKeyDoc k ∨ isBinDoc k) →
    Decodable ndebug v → PairsRefused ndebug (n + 1) (k.encode ++ (v.encode ++ bs))
  | next {n : Nat} {k v : Doc} {bs : Bytes} : KeyDecodable ndebug k → Decodable ndebug v →
    PairsRefused ndebug n bs → PairsRefused ndebug (n + 1) (k.encode ++ (v.encode ++ bs))

end

/-- A document that announces so few items that an `int` can count those still to come. -/
def Light (d : Doc) : Prop := (d.peak 0 : Int) ≤ intMax

end BeePhp
