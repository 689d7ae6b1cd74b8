import BeePhp.Codec.Doc
import BeePhp.Msgpack.Pack
import BeePhp.Zend.Decimal

/-!
# PHP values as documents and as trees

`zvalDoc` is the MessagePack document a PHP value on the heap stands for: arrays become arrays or maps
as `php_mp_is_hash` decides, and what is not serialised becomes nil. `SameValue` compares a value on
the heap with the tree that unpacking builds, and `PlainValue` singles out the values that survive the
trip.
-/

namespace BeePhp

open Codec

def keyDoc : Key → Doc
  | .idx h => .ofInt h.toInt64.toInt
  | .str s => .ofStr s

/-- The document of the value under a key, with `c` the tables the traversal is inside of. -/
def elementDoc (rec : Counts → Zval → Doc) (c : Counts) : Option Zval → Doc
  | none => .nil
  | some (.arr id) => if c id > 1 then .nil else rec (c.inc id) (.arr id)
  | some v => rec c v

def zvalDocRec (H : Heap) : Nat → Counts → Zval → Doc
  | 0, _, _ => .nil
  | fuel + 1, c, val =>
    match val with
    | .null => .nil
    | .long n => .ofInt n.toInt
    | .double bits => .double bits.toNat
    | .bool b => .bool b
    | .arr id =>
      let ht := H.table id
      if phpMpIsHash ht then
        .ofPairs (ht.entries.map fun e => (keyDoc e.1, elementDoc (zvalDocRec H fuel) c (some e.2)))
      else
        .ofList ((List.range (zendHashNumElements ht)).map fun i =>
          elementDoc (zvalDocRec H fuel) c (zendHashIndexFind ht (UInt64.ofNat i)))
    | .str s => .ofStr s.val
    | .other => .nil

/-- The document of a value, when no table has been entered. -/
def zvalDoc (H : Heap) (val : Zval) : Doc := zvalDocRec H H.depth (fun _ => 0) val

/-! ## Values that are the same -/

/-- The tree `u` is the value `v` of the heap: the same scalar, or an array with the same keys and the
same value under each. -/
inductive SameValue (H : Heap) : Zval → PVal → Prop
  | null : SameValue H .null .null
  | long (n : Int64) : SameValue H (.long n) (.long n)
  | double (bits : UInt64) : SameValue H (.double bits) (.double bits)
  | bool (b : Bool) : SameValue H (.bool b) (.bool b)
  | str (s : ZStr) : SameValue H (.str s) (.str s.val)
  | arr {id : Nat} {entries : List (Key × PVal)} {next : UInt64} : (keys entries).Nodup →
    (∀ k, k ∈ keys entries ↔ k ∈ keys (H.table id).entries) →
    (∀ k v u, (k, v) ∈ (H.table id).entries → (k, u) ∈ entries → SameValue H v u) →
    SameValue H (.arr id) (.arr entries next)

/-- A table whose integer keys are not negative and below `nNextFreeElement`, whose string keys are no
decimal integers, and which has at most 2^31 elements. PHP never lets `nNextFreeElement` leave the range
of a `long`. -/
structure PlainTable (ht : HashTable) : Prop where
  nonneg : ∀ h, Key.idx h ∈ keys ht.entries → h.toInt64 ≥ 0
  not_decimal : ∀ s, Key.str s ∈ keys ht.entries → ∀ i, s ≠ decimal i
  lt_next : ∀ h, Key.idx h ∈ keys ht.entries → h < ht.nNextFreeElement
  next_nonneg : ht.nNextFreeElement.toInt64 ≥ 0
  count_le : ht.entries.length ≤ 2 ^ 31

/-- An acyclic value built from scalars and such tables: what is inside an array is plain before the
array is. -/
inductive PlainValue (H : Heap) : Zval → Prop
  | null : PlainValue H .null
  | long (n : Int64) : PlainValue H (.long n)
  | double (bits : UInt64) : PlainValue H (.double bits)
  | bool (b : Bool) : PlainValue H (.bool b)
  | str (s : ZStr) : PlainValue H (.str s)
  | arr {id : Nat} : PlainTable (H.table id) →
    (∀ k v, (k, v) ∈ (H.table id).entries → PlainValue H v) → PlainValue H (.arr id)

end BeePhp
