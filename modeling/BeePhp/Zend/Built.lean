import BeePhp.Zend.Heap

/-!
# Arrays that scripts build

The hash tables that the operations of PHP on arrays make of an empty array (`HashTable.Built`), and those
whose keys are the ones of a list (`HashTable.IsList`).
-/

namespace BeePhp

open Codec (Bytes enter keys)

/-- An operation on an array: `$a[h] = v`, `$a[] = v`, `$a[s] = v` where the string is no decimal integer or
the operation does not look for one, and `unset($a[k])`. -/
inductive ArrayOp where
  | insert (h : Int64) (v : Zval)
  | append (v : Zval)
  | insertStr (s : Bytes) (v : Zval)
  | unset (k : Key)

def ArrayOp.run (t : Table Zval) : ArrayOp → Table Zval
  | .insert h v => addIndexZval t h.toUInt64 v
  | .append v => addNextIndexZval t v
  | .insertStr s v => { t with entries := enter (.str s) v t.entries }
  | .unset k => { t with entries := t.entries.filter fun e => e.1 ≠ k }

/-- The contents of a hash table. -/
def HashTable.contents (ht : HashTable) : Table Zval := ⟨ht.entries, ht.nNextFreeElement⟩

/-- Operations make the table of an empty one. -/
def HashTable.Built (ht : HashTable) : Prop :=
  ∃ ops : List ArrayOp, ops.foldl ArrayOp.run .empty = ht.contents

/-- The keys are the numbers below the number of elements, so that every element is found there. -/
def HashTable.IsList (ht : HashTable) : Prop :=
  (∀ k, k ∈ keys ht.entries ↔ ∃ i < zendHashNumElements ht, k = .idx (UInt64.ofNat i)) ∧
    ∀ i < zendHashNumElements ht, (zendHashIndexFind ht (UInt64.ofNat i)).isSome

/-- What keeps `php_mp_is_hash` from taking a table for a list that is none: there is no negative key, or
a string key, or `nNextFreeElement` is not the number of elements, or an `int` cannot hold that. -/
def HashTable.Telling (ht : HashTable) : Prop :=
  (∀ h, Key.idx h ∈ keys ht.entries → h.toInt64 ≥ 0) ∨ (∃ s, Key.str s ∈ keys ht.entries) ∨
    ht.nNextFreeElement.toNat ≠ zendHashNumElements ht ∨ 2 ^ 31 ≤ zendHashNumElements ht

end BeePhp
