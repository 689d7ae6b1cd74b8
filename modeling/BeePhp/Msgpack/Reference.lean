import BeePhp.Msgpack.Meaning
import BeePhp.Zend.Decimal

/-!
# The values documents are to stand for

`refValue` says, without an accumulator and without failures, which PHP value a representable document is
to be read as: an array has its items under 0, 1 and so on, the pairs of a map are entered in order, and a
key that is a canonical decimal string counts as the integer.
-/

namespace BeePhp

open Codec (Bytes Doc enter)

/-- The key a string is as an offset of an array. -/
noncomputable def stringKey (s : Bytes) : Key :=
  @dite _ (∃ i : Int64, s = decimal i.toInt) (Classical.propDecidable _)
    (fun h => .idx h.choose.toUInt64) fun _ => .str s

/-- The key a value is as an offset of an array, if it is an integer or a string. -/
noncomputable def valueKey : PVal → Option Key
  | .long n => some (.idx n.toUInt64)
  | .str s | .bin s => some (stringKey s)
  | _ => none

/-- The array with the given elements. -/
def listValue (vs : List PVal) : PVal :=
  .arr (vs.zipIdx.map fun v => (.idx (UInt64.ofNat v.2), v.1)) (UInt64.ofNat vs.length)

/-- The table with one entry more, which overwrites an entry with the same key. -/
def Table.put (t : Table PVal) (k : Key) (v : PVal) : Table PVal :=
  ⟨enter k v t.entries, match k with
    | .idx h => nextFree h t.nNextFreeElement
    | .str _ => t.nNextFreeElement⟩

mutual

/-- The value of a document. -/
noncomputable def refValue : Doc → PVal
  | .nil | .unused | .ext .. => .null
  | .bool b => .bool b
  -- the same 64 bits
  | .uint _ n => .long (Int64.ofNat n)
  | .int _ i => .long (Int64.ofInt i)
  | .float bits => .double (floatToDouble bits)
  | .double bits => .double (UInt64.ofNat bits)
  | .str _ s => .str s
  -- the string of the same bytes
  | .bin _ s => .bin s
  | .array _ ds => listValue (refItems ds)
  | .map _ ds => (refPairs ds .empty).toPVal

noncomputable def refItems : List Doc → List PVal
  | [] => []
  | d :: ds => refValue d :: refItems ds

/-- Keys and values in turn, entered into a table. -/
noncomputable def refPairs : List Doc → Table PVal → Table PVal
  | k :: v :: ds, t => refPairs ds (match valueKey (refValue k) with
    | some key => t.put key (refValue v)
    | none => t)
  | _, t => t

end

def Key.Strings (K : Bytes → Prop) : Key → Prop
  | .idx _ => True
  | .str s => K s

mutual

/-- All strings in a value satisfy `Q`, and all that are keys in it `K`. -/
def PVal.Strings (Q K : Bytes → Prop) : PVal → Prop
  | .str s | .bin s => Q s
  | .arr entries _ => EntriesStrings Q K entries
  | _ => True

def EntriesStrings (Q K : Bytes → Prop) : List (Key × PVal) → Prop
  | [] => True
  | (k, v) :: entries => k.Strings K ∧ v.Strings Q K ∧ EntriesStrings Q K entries

end

/-- `Z_STRLEN + 1` of a key, an `int` that is handed on as an `uint`. -/
def keyLength (key : Bytes) : Except Fault Nat := do
  let length ← signedInt (zStrlen key + 1)
  return toUint32 (toSize length)

/-- `Z_STRLEN` is the number of bytes of every string, and every key is entered with the length of its bytes and
its NUL. -/
def PVal.Sized (v : PVal) : Prop :=
  v.Strings (fun s => zStrlen s = s.length) fun key => keyLength key = .ok (key.length + 1)

/-- The strings of a value are not too long for their lengths. -/
def PVal.Short (v : PVal) : Prop :=
  v.Strings (fun s => s.length < 2 ^ 31) fun key => key.length < 2 ^ 32 - 1 ∧ key.length ≠ 2 ^ 31 - 1

/-- What `php_mp_unpack` is to make of the bytes of a document and whatever follows them: it returns a value
exactly if the document is representable, and then the value of the document, at the end of its bytes, with
strings as long as they are to be. -/
def Represented (ndebug : Bool) (d : Doc) : Prop := ∀ rest : Bytes,
  ((∃ v pos, phpMpUnpack ndebug (d.encode ++ rest) = .ok (v, pos)) ↔ Representable d) ∧
    ∀ v pos, phpMpUnpack ndebug (d.encode ++ rest) = .ok (v, pos) → v = refValue d ∧ pos = rest ∧ v.Sized

end BeePhp
