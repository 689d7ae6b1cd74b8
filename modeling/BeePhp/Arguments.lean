import BeePhp.World
import BeePhp.Msgpack.Pack
import BeePhp.Zend.Heap

/-!
# bee.c: arguments of the methods

What the methods make of the values a script passes in: keys, iterators and update operations.
-/

namespace BeePhp

open Codec (Bytes)

/-- `pack_key`: a key that is no array becomes an array of one element, or, for `select`, an array of
none when it is missing. -/
def packKey (H : Heap) (args : Option Zval) (select : Bool) : Except Fault (Heap × Zval) :=
  match args with
  | some (.arr id) => .ok (H, .arr id)
  | none => if select then .ok (H.alloc []) else .error .nullDeref
  | some .null => .ok (H.alloc (if select then [] else [.null]))
  | some v => .ok (H.alloc [v])

/-! ## Iterators -/

def iteratorEq : Int := 0
def iteratorReq : Int := 1
def iteratorAll : Int := 2
def iteratorLt : Int := 3
def iteratorLe : Int := 4
def iteratorGe : Int := 5
def iteratorGt : Int := 6
def iteratorBitsetAllSet : Int := 7
def iteratorBitsetAnySet : Int := 8
def iteratorBitsetAllNotSet : Int := 9
def iteratorOverlaps : Int := 10
def iteratorNeighbor : Int := 11

/-- `toupper`. -/
def toUpper (c : UInt8) : UInt8 := if 0x61 ≤ c ∧ c ≤ 0x7a then c - 0x20 else c

/-- The names `convert_iterator` knows. It compares them letter by letter, without regard to case. -/
def iteratorNames : List (String × Int) :=
  [("ALL", iteratorAll),
    ("BITSET_ALL_NOT_SET", iteratorBitsetAllNotSet), ("BITSET_ALL_SET", iteratorBitsetAllSet),
    ("BITSET_ANY_SET", iteratorBitsetAnySet), ("BITS_ALL_NOT_SET", iteratorBitsetAllNotSet),
    ("BITS_ALL_SET", iteratorBitsetAllSet), ("BITS_ANY_SET", iteratorBitsetAnySet),
    ("EQ", iteratorEq), ("GE", iteratorGe), ("GT", iteratorGt), ("LT", iteratorLt), ("LE", iteratorLe),
    ("NEIGHBOR", iteratorNeighbor), ("OVERLAPS", iteratorOverlaps), ("REQ", iteratorReq)]

/-- `convert_iterator`, with -1 for an error. For a value of a wrong type it throws and goes on to read
it as a string. -/
def convertIterator (iter : Option Zval) (all : Bool) : M Int :=
  match iter with
  | none | some .null => return if all then iteratorAll else iteratorEq
  | some (.long n) => return toInt n.toInt
  | some (.str i) =>
    match iteratorNames.find? fun p => ascii p.1 = i.val.map toUpper with
    | some (_, iterator) => return iterator
    | none => do
      throwExc "Bad iterator name '%.*s'" [.s i.val]
      return -1
  | some _ => throw .wrongType

/-! ## Update operations -/

section Update

variable (ht : HashTable) (position : Int)

/-- The fields of an operation that splices a string. -/
def verifySplice (opstr : ZStr) (oppos : Int64) : Except Message (List Zval) :=
  if zendHashNumElements ht ≠ 5 then
    .error ⟨"Five fields must be provided for splice at position %d", [.d position]⟩
  else
    match zendHashFind ht (ascii "offset") with
    | some (.long offset) =>
      match zendHashFind ht (ascii "length") with
      | some (.long length) =>
        match zendHashFind ht (ascii "list") with
        | some (.str list) => .ok [.str opstr, .long oppos, .long offset, .long length, .str list]
        | _ => .error ⟨"Field LIST must be provided and must be STRING for splice at position %d",
            [.d position]⟩
      | _ => .error ⟨"Field LENGTH must be provided and must be LONG for splice at position %d",
          [.d position]⟩
    | _ => .error ⟨"Field OFFSET must be provided and must be LONG for splice at position %d",
        [.d position]⟩

/-- The fields of an operation with one argument, which `ok` accepts. -/
def verifyArg (opstr : ZStr) (oppos : Int64) (ok : Zval → Bool) (wrongArg : String) :
    Except Message (List Zval) :=
  if zendHashNumElements ht ≠ 3 then
    .error ⟨"Three fields must be provided for '%s' at position %d",
      [.s (cString opstr.val), .d position]⟩
  else
    match zendHashFind ht (ascii "arg") with
    | some arg =>
      if ok arg then .ok [.str opstr, .long oppos, arg]
      else .error ⟨wrongArg, [.s (cString opstr.val), .d position]⟩
    | none => .error ⟨wrongArg, [.s (cString opstr.val), .d position]⟩

def Zval.isLong : Zval → Bool
  | .long _ => true
  | _ => false

/-- `PHP_MP_SERIALIZABLE_PP`. -/
def Zval.serializable : Zval → Bool
  | .other => false
  | _ => true

end Update

/-- `bee_update_verify_op`: the operation as a list, or the exception it throws. -/
def beeUpdateVerifyOp (H : Heap) (op : Zval) (position : Int) : Except Message (List Zval) :=
  match op with
  | .arr id =>
    let ht := H.table id
    if ¬ phpMpIsHash ht then .error ⟨"Op must be MAP at pos %d", [.d position]⟩
    else
      match zendHashFind ht (ascii "op") with
      | some (.str opstr) =>
        match opstr.val with
        | [c] =>
          match zendHashFind ht (ascii "field") with
          | some (.long oppos) =>
            if [c] = ascii ":" then verifySplice ht position opstr oppos
            else if c ∈ ascii "+-&|^#" then
              verifyArg ht position opstr oppos Zval.isLong
                "Field ARG must be provided and must be LONG for '%s' at position %d"
            else if c ∈ ascii "=!" then
              verifyArg ht position opstr oppos Zval.serializable
                "Field ARG must be provided and must be SERIALIZABLE for '%s' at position %d"
            else .error ⟨"Unknown operation '%s' at position %d",
              [.s (cString opstr.val), .d position]⟩
          | _ => .error ⟨"Field FIELD must be provided and must be LONG at position %d",
              [.d position]⟩
        | _ => .error ⟨"Field OP must be provided and must be STRING with length=1 at position %d",
            [.d position]⟩
      | _ => .error ⟨"Field OP must be provided and must be STRING with length=1 at position %d",
          [.d position]⟩
  | _ => .error ⟨"Op must be MAP at pos %d", [.d position]⟩

/-- The loop of `bee_update_verify_args`: the operations at the indices from `i` on. -/
def verifyOps (H : Heap) (ht : HashTable) : Nat → Nat → Except Message (List (List Zval))
  | 0, _ => .ok []
  | n + 1, i =>
    match zendHashIndexFind ht (UInt64.ofNat i) with
    | none => .error ⟨"Internal Array Error", []⟩
    | some op => do
      let vs ← beeUpdateVerifyOp H op i
      return vs :: (← verifyOps H ht n (i + 1))

/-- Arrays for lists of values. -/
def Heap.allocAll (H : Heap) : List (List Zval) → Heap × List Zval
  | [] => (H, [])
  | vs :: rest =>
    let (H, arr) := H.alloc vs
    let (H, arrs) := H.allocAll rest
    (H, arr :: arrs)

/-- `bee_update_verify_args`. -/
def beeUpdateVerifyArgs (H : Heap) (args : Zval) : Except Message (Heap × Zval) :=
  match args with
  | .arr id =>
    let ht := H.table id
    if phpMpIsHash ht then .error ⟨"Provided value for update OPS must be Array", []⟩
    else do
      let (H, arrs) := H.allocAll (← verifyOps H ht (zendHashNumElements ht) 0)
      return H.alloc arrs
  | _ => .error ⟨"Provided value for update OPS must be Array", []⟩

end BeePhp
