import BeePhp.Msgpuck
import BeePhp.SmartString
import BeePhp.Zend.Heap

/-!
# bee_msgpack.c: packing

`php_mp_pack` and `php_mp_sizeof`, two traversals of a PHP value. Both count in `nApplyCount` how often
they are inside a table, and neither goes into a table that it is inside of twice. Sizes are numbers
without a bound: no object has 2^64 bytes.
-/

namespace BeePhp

open Codec (Bytes)

/-! ## Packing scalars -/

def phpMpPackNil (str : SmartString) : Except Fault SmartString := str.pack mpSizeofNil mpEncodeNil

def phpMpPackLongPos (str : SmartString) (val : Int64) : Except Fault SmartString :=
  str.pack (mpSizeofUint val.toUInt64.toNat) (mpEncodeUint val.toUInt64.toNat)

def phpMpPackLongNeg (ndebug : Bool) (str : SmartString) (val : Int64) :
    Except Fault SmartString := do
  str.pack (← mpSizeofInt ndebug val.toInt) (← mpEncodeInt ndebug val.toInt)

def phpMpPackLong (ndebug : Bool) (str : SmartString) (val : Int64) : Except Fault SmartString :=
  if val ≥ 0 then phpMpPackLongPos str val else phpMpPackLongNeg ndebug str val

def phpMpPackDouble (str : SmartString) (bits : UInt64) : Except Fault SmartString :=
  str.pack mpSizeofDouble (mpEncodeDouble bits.toNat)

def phpMpPackBool (str : SmartString) (val : Bool) : Except Fault SmartString :=
  str.pack mpSizeofBool (mpEncodeBool val)

def phpMpPackString (str : SmartString) (c : Bytes) : Except Fault SmartString :=
  str.pack (mpSizeofStr (toUint32 c.length)) (mpEncodeStr c (toUint32 c.length))

def phpMpPackHash (str : SmartString) (len : Nat) : Except Fault SmartString :=
  str.pack (mpSizeofMap (toUint32 len)) (mpEncodeMap (toUint32 len))

def phpMpPackArray (str : SmartString) (len : Nat) : Except Fault SmartString :=
  str.pack (mpSizeofArray (toUint32 len)) (mpEncodeArray (toUint32 len))

/-- `php_mp_is_hash`: whether a table is packed as a map. Its number of elements, an `int`, is compared
with the `ulong` `nNextFreeElement`. -/
def phpMpIsHash (ht : HashTable) : Bool :=
  let count := toInt (zendHashNumElements ht)
  if count % 2 ^ 64 ≠ ht.nNextFreeElement.toNat then true
  else !(ht.entries.take count.toNat).all (·.1.isIdx)

/-! ## Packing -/

/-- The part of a traversal that goes into the value under a key: a missing value and a table that the
traversal is inside of twice are packed as nil. -/
def phpMpPackElement (rec : SmartString → Counts → Zval → Except Fault (SmartString × Counts))
    (str : SmartString) (c : Counts) : Option Zval → Except Fault (SmartString × Counts)
  | none => do return (← phpMpPackNil str, c)
  | some (.arr id) =>
    if c id > 1 then do return (← phpMpPackNil str, c)
    else do
      let (str, c) ← rec str (c.inc id) (.arr id)
      return (str, c.dec id)
  | some v => rec str c v

/-- `php_mp_pack_array_recursively`: the elements at the indices from `i` on. -/
def packIndices (rec : SmartString → Counts → Zval → Except Fault (SmartString × Counts))
    (ht : HashTable) : Nat → Nat → SmartString → Counts → Except Fault (SmartString × Counts)
  | 0, _, str, c => .ok (str, c)
  | n + 1, i, str, c => do
    let (str, c) ← phpMpPackElement rec str c (zendHashIndexFind ht (UInt64.ofNat i))
    packIndices rec ht n (i + 1) str c

def phpMpPackKey (ndebug : Bool) (str : SmartString) : Key → Except Fault SmartString
  | .idx h => phpMpPackLong ndebug str h.toInt64
  | .str s => phpMpPackString str s

/-- `php_mp_pack_hash_recursively`: the entries in the order of iteration. -/
def packEntries (ndebug : Bool)
    (rec : SmartString → Counts → Zval → Except Fault (SmartString × Counts)) :
    List (Key × Zval) → SmartString → Counts → Except Fault (SmartString × Counts)
  | [], str, c => .ok (str, c)
  | (k, v) :: entries, str, c => do
    let str ← phpMpPackKey ndebug str k
    let (str, c) ← phpMpPackElement rec str c (some v)
    packEntries ndebug rec entries str c

/-- `php_mp_pack` with at most `fuel` calls of itself inside each other. -/
def phpMpPackRec (ndebug : Bool) (H : Heap) :
    Nat → SmartString → Counts → Zval → Except Fault (SmartString × Counts)
  | 0, _, _, _ => .error .fuel
  | fuel + 1, str, c, val =>
    match val with
    | .null => do return (← phpMpPackNil str, c)
    | .long n => do return (← phpMpPackLong ndebug str n, c)
    | .double bits => do return (← phpMpPackDouble str bits, c)
    | .bool b => do return (← phpMpPackBool str b, c)
    | .arr id => do
      let ht := H.table id
      if phpMpIsHash ht then
        let str ← phpMpPackHash str (zendHashNumElements ht)
        packEntries ndebug (phpMpPackRec ndebug H fuel) ht.entries str c
      else
        let str ← phpMpPackArray str (zendHashNumElements ht)
        packIndices (phpMpPackRec ndebug H fuel) ht (zendHashNumElements ht) 0 str c
    | .str s => do return (← phpMpPackString str s.val, c)
    | .other => do return (← phpMpPackNil str, c)

/-- The number of calls inside each other that a traversal of the heap can need: each table is entered
at most twice more than it was. -/
def Heap.depth (H : Heap) : Nat := 2 * H.length + 3

/-- `php_mp_pack`, which returns the buffer and the `nApplyCount`s it leaves. -/
def phpMpPack (ndebug : Bool) (H : Heap) (str : SmartString) (c : Counts) (val : Zval) :
    Except Fault (SmartString × Counts) := phpMpPackRec ndebug H H.depth str c val

/-! ## Sizes -/

def phpMpSizeofNil : Nat := mpSizeofNil

def phpMpSizeofLongPos (val : Int64) : Nat := mpSizeofUint val.toUInt64.toNat

def phpMpSizeofLongNeg (ndebug : Bool) (val : Int64) : Except Fault Nat :=
  mpSizeofInt ndebug val.toInt

def phpMpSizeofLong (ndebug : Bool) (val : Int64) : Except Fault Nat :=
  if val ≥ 0 then .ok (phpMpSizeofLongPos val) else phpMpSizeofLongNeg ndebug val

def phpMpSizeofDouble : Nat := mpSizeofDouble

def phpMpSizeofBool : Nat := mpSizeofBool

def phpMpSizeofString (len : Nat) : Nat := mpSizeofStr (toUint32 len)

def phpMpSizeofHash (len : Nat) : Nat := mpSizeofMap (toUint32 len)

def phpMpSizeofArray (len : Nat) : Nat := mpSizeofArray (toUint32 len)

/-- The size of the value under a key, as `phpMpPackElement` packs it. -/
def phpMpSizeofElement (rec : Counts → Zval → Except Fault (Nat × Counts)) (c : Counts) :
    Option Zval → Except Fault (Nat × Counts)
  | none => .ok (phpMpSizeofNil, c)
  | some (.arr id) =>
    if c id > 1 then .ok (phpMpSizeofNil, c)
    else do
      let (n, c) ← rec (c.inc id) (.arr id)
      return (n, c.dec id)
  | some v => rec c v

/-- `php_mp_sizeof_array_recursively`: what the indices from `i` on add to `needed`. -/
def sizeofIndices (rec : Counts → Zval → Except Fault (Nat × Counts)) (ht : HashTable) :
    Nat → Nat → Nat → Counts → Except Fault (Nat × Counts)
  | 0, _, needed, c => .ok (needed, c)
  | n + 1, i, needed, c => do
    let (m, c) ← phpMpSizeofElement rec c (zendHashIndexFind ht (UInt64.ofNat i))
    sizeofIndices rec ht n (i + 1) (needed + m) c

def phpMpSizeofKey (ndebug : Bool) : Key → Except Fault Nat
  | .idx h => phpMpSizeofLong ndebug h.toInt64
  | .str s => .ok (phpMpSizeofString s.length)

/-- `php_mp_sizeof_hash_recursively`: what the entries add to `needed`. -/
def sizeofEntries (ndebug : Bool) (rec : Counts → Zval → Except Fault (Nat × Counts)) :
    List (Key × Zval) → Nat → Counts → Except Fault (Nat × Counts)
  | [], needed, c => .ok (needed, c)
  | (k, v) :: entries, needed, c => do
    let needed := needed + (← phpMpSizeofKey ndebug k)
    let (m, c) ← phpMpSizeofElement rec c (some v)
    sizeofEntries ndebug rec entries (needed + m) c

/-- `php_mp_sizeof` with at most `fuel` calls of itself inside each other. -/
def phpMpSizeofRec (ndebug : Bool) (H : Heap) :
    Nat → Counts → Zval → Except Fault (Nat × Counts)
  | 0, _, _ => .error .fuel
  | fuel + 1, c, val =>
    match val with
    | .null => .ok (phpMpSizeofNil, c)
    | .long n => do return (← phpMpSizeofLong ndebug n, c)
    | .double _ => .ok (phpMpSizeofDouble, c)
    | .bool _ => .ok (phpMpSizeofBool, c)
    | .arr id =>
      let ht := H.table id
      if phpMpIsHash ht then
        sizeofEntries ndebug (phpMpSizeofRec ndebug H fuel) ht.entries
          (phpMpSizeofHash (zendHashNumElements ht)) c
      else
        sizeofIndices (phpMpSizeofRec ndebug H fuel) ht (zendHashNumElements ht) 0
          (phpMpSizeofArray (zendHashNumElements ht)) c
    | .str s => .ok (phpMpSizeofString s.val.length, c)
    | .other => .ok (phpMpSizeofNil, c)

/-- `php_mp_sizeof`. -/
def phpMpSizeof (ndebug : Bool) (H : Heap) (c : Counts) (val : Zval) : Except Fault (Nat × Counts) :=
  phpMpSizeofRec ndebug H H.depth c val

end BeePhp
