import BeePhp.Zend.Value

/-!
# PHP values given to the extension

The values a script passes in live on a heap: an array is a reference to a `HashTable`, so that arrays
can be shared and, through references, contain themselves. `nApplyCount`, the recursion guard of a hash
table, is kept apart from the tables, which nothing here changes.
-/

namespace BeePhp

open Codec (Bytes keys)

/-- A PHP string, whose length is an `int`. -/
structure ZStr where
  val : Bytes
  small : val.length < 2 ^ 31

/-- A `zval`. `other` stands for objects and resources, which are not serialised. -/
inductive Zval where
  | null
  | long (n : Int64)
  | double (bits : UInt64)
  | bool (b : Bool)
  | str (s : ZStr)
  | arr (id : Nat)
  | other

/-- A `HashTable`: its entries in the order of iteration, and `nNextFreeElement`. Its keys are distinct,
their number is an `uint`, and the string keys are PHP strings. -/
structure HashTable where
  entries : List (Key × Zval)
  nNextFreeElement : UInt64
  nodup : (keys entries).Nodup
  count_lt : entries.length < 2 ^ 32
  key_small : ∀ s, Key.str s ∈ keys entries → s.length < 2 ^ 31

def HashTable.empty : HashTable where
  entries := []
  nNextFreeElement := 0
  nodup := List.nodup_nil
  count_lt := by decide
  key_small := by simp [keys]

/-- The table with the elements of a list at the indices from 0 on. -/
def HashTable.list (vs : List Zval) (h : vs.length < 2 ^ 32) : HashTable where
  entries := vs.zipIdx.map fun v => (.idx (UInt64.ofNat v.2), v.1)
  nNextFreeElement := UInt64.ofNat vs.length
  nodup := by
    have hkeys : keys (vs.zipIdx.map fun v => (Key.idx (UInt64.ofNat v.2), v.1)) =
        (List.range vs.length).map fun i => Key.idx (UInt64.ofNat i) := by
      rw [keys, List.map_map, List.range_eq_range', ← List.zipIdx_map_snd 0 vs, List.map_map]
      rfl
    rw [hkeys]
    refine List.Nodup.map_on ?_ List.nodup_range
    intro i hi j hj hij
    rw [List.mem_range] at hi hj
    have hij := congrArg UInt64.toNat (Key.idx.inj hij)
    rw [UInt64.toNat_ofNat', UInt64.toNat_ofNat'] at hij
    omega
  count_lt := by simpa using h
  key_small := by
    intro s hs
    simp [keys] at hs

/-- A new array with the elements of a list. Their number is an `uint`. -/
def HashTable.ofList (vs : List Zval) : HashTable :=
  if h : vs.length < 2 ^ 32 then .list vs h else .empty

/-- The arrays of a script. A number without a table is an empty array. -/
abbrev Heap := List HashTable

def Heap.table (H : Heap) (id : Nat) : HashTable := H.getD id .empty

/-- A new array. -/
def Heap.alloc (H : Heap) (vs : List Zval) : Heap × Zval := (H ++ [.ofList vs], .arr H.length)

/-- The `nApplyCount` of every table. -/
abbrev Counts := Nat → UInt8

/-- `nApplyCount++`. -/
def Counts.inc (c : Counts) (id : Nat) : Counts := fun i => if i = id then c i + 1 else c i

/-- `nApplyCount--`. -/
def Counts.dec (c : Counts) (id : Nat) : Counts := fun i => if i = id then c i - 1 else c i

def zendHashNumElements (ht : HashTable) : Nat := ht.entries.length

/-- `zend_hash_find`. -/
def zendHashFind (ht : HashTable) (key : Bytes) : Option Zval := ht.entries.lookup (.str key)

def zendHashIndexFind (ht : HashTable) (h : UInt64) : Option Zval := ht.entries.lookup (.idx h)

/-- `HASH_KEY_IS_LONG`. -/
def Key.isIdx : Key → Bool
  | .idx _ => true
  | .str _ => false

end BeePhp
