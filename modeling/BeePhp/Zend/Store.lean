import BeePhp.Zend.Heap
import Mathlib.Logic.Relation

/-!
# Zvals with reference counts

A `Store` is the memory of the zvals. A zval has a number, a count of the places that hold it, the flag
`is_ref` and a value, and the elements of an array are numbers of zvals. `Store.heap` forgets the counts.
The macros of PHP 5 that allocate, share, separate and release zvals are functions of a store.
-/

namespace BeePhp

open Codec (Bytes enter keys)

/-- The hash table of an array whose elements are zvals of a store. -/
structure ZTable extends Table Nat where
  nodup : (keys entries).Nodup
  count_lt : entries.length < 2 ^ 32
  key_small : ∀ s, Key.str s ∈ keys entries → s.length < 2 ^ 31

namespace ZTable

def empty : ZTable where
  toTable := .empty
  nodup := List.nodup_nil
  count_lt := (by decide : 0 < 2 ^ 32)
  key_small := by simp [Table.empty, keys]

/-- The zvals that the table holds. -/
def children (t : ZTable) : List Nat := t.entries.map Prod.snd

/-- The table with the values of its elements. -/
def read (t : ZTable) (zval : Nat → Zval) : HashTable where
  entries := t.entries.map fun e => (e.1, zval e.2)
  nNextFreeElement := t.nNextFreeElement
  nodup := by
    rw [keys, List.map_map]
    exact t.nodup
  count_lt := by
    rw [List.length_map]
    exact t.count_lt
  key_small := by
    rw [keys, List.map_map]
    exact t.key_small

/-- `zend_hash_next_index_insert`, which fails when the next index is taken. -/
def insertNext (t : ZTable) (id : Nat) : Option ZTable :=
  if h : Key.idx t.nNextFreeElement ∉ keys t.entries ∧ t.entries.length + 1 < 2 ^ 32 then
    some {
      toTable := addIndexZval t.toTable t.nNextFreeElement id
      nodup := Codec.nodup_enter t.nodup
      count_lt := by simpa [addIndexZval, Codec.enter_of_notMem h.1] using h.2
      key_small := by
        intro s hs
        simp only [addIndexZval, Codec.keys_enter, if_neg h.1, List.mem_append] at hs
        exact t.key_small s (hs.resolve_right (by simp)) }
  else none

/-- Put another zval under a key that is there. -/
def assign (t : ZTable) (k : Key) (id : Nat) : ZTable :=
  if h : k ∈ keys t.entries then {
    toTable := { t.toTable with entries := enter k id t.entries }
    nodup := Codec.nodup_enter t.nodup
    count_lt := by
      have hkeys := Codec.keys_enter k id t.entries
      rw [if_pos h] at hkeys
      have hlength := congrArg List.length hkeys
      simp only [keys, List.length_map] at hlength
      exact hlength ▸ t.count_lt
    key_small := by simpa [Codec.keys_enter, if_pos h] using t.key_small }
  else t

end ZTable

/-- The value of a zval. -/
inductive ZValue where
  | null
  | long (n : Int64)
  | double (bits : UInt64)
  | bool (b : Bool)
  | str (s : ZStr)
  | arr (t : ZTable)
  | other

/-- The value of the zval with the number `id` without its counts. -/
def ZValue.zval (id : Nat) : ZValue → Zval
  | .null => .null
  | .long n => .long n
  | .double bits => .double bits
  | .bool b => .bool b
  | .str s => .str s
  | .arr _ => .arr id
  | .other => .other

/-- The table of an array. -/
def ZValue.table : ZValue → ZTable
  | .arr t => t
  | _ => .empty

/-- The zvals that a value holds. -/
def ZValue.children (v : ZValue) : List Nat := v.table.children

/-- The value after `zval_dtor`. -/
def ZValue.destroyed : ZValue → ZValue
  | .arr _ => .arr .empty
  | v => v

structure ZCell where
  refcount : Nat
  isRef : Bool
  value : ZValue

/-- The memory of the zvals; one that has been freed is `none`. -/
structure Store where
  cells : List (Option ZCell)

namespace Store

def get (σ : Store) (id : Nat) : Option ZCell := σ.cells[id]?.join

def set (σ : Store) (id : Nat) (c : Option ZCell) : Store := ⟨σ.cells.set id c⟩

/-- The number of the next zval. -/
def next (σ : Store) : Nat := σ.cells.length

/-- A new zval, under the number `σ.next`. -/
def alloc (σ : Store) (c : ZCell) : Store := ⟨σ.cells ++ [some c]⟩

def zval (σ : Store) (id : Nat) : Zval := (σ.get id).elim .other fun c => c.value.zval id

/-- The table of a zval. -/
def table (σ : Store) (id : Nat) : ZTable := (σ.get id).elim .empty fun c => c.value.table

/-- The arrays of the store without the counts. -/
def heap (σ : Store) : Heap := (List.range σ.next).map fun id => (σ.table id).read σ.zval

/-- The zval under a key of an array. -/
def slot (σ : Store) (id : Nat) (k : Key) : Option Nat := (σ.table id).entries.lookup k

/-! ## Places -/

/-- The zvals that a cell holds. -/
def held (c : Option ZCell) : List Nat := c.elim [] fun c => c.value.children

/-- The places in the arrays of the store, each as the zval it holds. -/
def slots (σ : Store) : List Nat := σ.cells.flatMap held

/-- The number of places that hold a zval: those in arrays, and the given ones outside them. -/
def places (σ : Store) (roots : List Nat) (id : Nat) : Nat := roots.count id + σ.slots.count id

/-- A zval can be reached from another through the elements of arrays. -/
def Reaches (σ : Store) : Nat → Nat → Prop :=
  Relation.ReflTransGen fun x y => y ∈ held (σ.get x)

/-- Every zval that can be reached has as many places as it counts. -/
def Counted (σ : Store) (roots : List Nat) (id : Nat) : Prop :=
  ∀ x, σ.Reaches id x → ∃ c, σ.get x = some c ∧ c.refcount = σ.places roots x

/-! ## Zend -/

/-- Give an array another table. -/
def setTable (σ : Store) (arr : Nat) (t : ZTable) : Store :=
  σ.set arr ((σ.get arr).map fun c => { c with value := .arr t })

/-- `add_next_index_zval`, or `FAILURE`. -/
def addNextIndexZval (σ : Store) (arr id : Nat) : Option Store :=
  match σ.get arr with
  | some ⟨_, _, .arr t⟩ => (t.insertNext id).map (σ.setTable arr)
  | _ => none

/-- A new zval appended to an array, whether or not that fails: `add_next_index_long` and
`add_next_index_stringl` when nobody looks at what they return. -/
def addNextIndex (σ : Store) (arr : Nat) (value : ZValue) : Store :=
  ((σ.alloc ⟨1, false, value⟩).addNextIndexZval arr σ.next).getD (σ.alloc ⟨1, false, value⟩)

/-- `Z_ADDREF_P`. -/
def addref (σ : Store) (id : Nat) : Store :=
  match σ.get id with
  | some c => σ.set id (some { c with refcount := c.refcount + 1 })
  | none => σ

/-- `zval_copy_ctor` of a new zval that is to have the value of another: it gets a table of its own, and
counts as a place of what the table holds. -/
def copyCtor (σ : Store) (copy id : Nat) : Store :=
  match σ.get id with
  | some c => c.value.children.foldl addref (σ.set copy (some ⟨1, true, c.value⟩))
  | none => σ

/-- `SEPARATE_ZVAL_TO_MAKE_IS_REF` of the place under a key of an array, and the zval that it holds
then. -/
def separateToMakeIsRef (σ : Store) (arr : Nat) (k : Key) : Except Fault (Store × Nat) :=
  match σ.slot arr k with
  | none => .error .uninit
  | some id =>
    match σ.get id with
    | none => .error .uninit
    | some c =>
      if c.isRef then .ok (σ, id)
      else if c.refcount ≤ 1 then .ok (σ.set id (some { c with isRef := true }), id)
      else
        let copy := σ.next
        let σ := (σ.set id (some { c with refcount := c.refcount - 1 })).alloc ⟨1, true, .null⟩
        let σ := σ.setTable arr ((σ.table arr).assign k copy)
        -- `zval_copy_ctor` comes last: it copies the table as it is after the assignment
        .ok (σ.copyCtor copy id, copy)

/-! ## Releasing -/

/-- What is left to do of a call of `zval_ptr_dtor`. -/
inductive Release where
  /-- `zval_ptr_dtor` of a place that held the zval -/
  | ptrDtor (id : Nat)
  /-- the zval is freed, after what it held has been released -/
  | free (id : Nat)
  deriving DecidableEq

/-- `Z_DELREF_P`. -/
def delref (refcount : Nat) : Nat := if refcount = 0 then 2 ^ 32 - 1 else refcount - 1

/-- `zval_ptr_dtor` without what it calls, which is returned: a zval that no place holds any more
releases what it holds and is freed then. -/
def releaseStep (σ : Store) : Release → Except Fault (Store × List Release)
  | .free id => .ok (σ.set id none, [])
  | .ptrDtor id =>
    match σ.get id with
    | none => .error .uninit
    | some c =>
      let refcount := delref c.refcount
      if refcount = 0 then
        .ok (σ.set id (some ⟨0, c.isRef, c.value.destroyed⟩),
          c.value.children.map .ptrDtor ++ [.free id])
      else
        let isRef := if refcount = 1 then false else c.isRef
        .ok (σ.set id (some ⟨refcount, isRef, c.value⟩), [])

def release : Nat → Store → List Release → Except Fault Store
  | _, σ, [] => .ok σ
  | 0, _, _ :: _ => .error .fuel
  | fuel + 1, σ, w :: work => do
    let (σ, more) ← σ.releaseStep w
    release fuel σ (more ++ work)

/-- `zval_ptr_dtor`. Every place of an array is released once at most. -/
def zvalPtrDtor (σ : Store) (id : Nat) : Except Fault Store :=
  release (2 * σ.slots.length + 2) σ [.ptrDtor id]

/-! ## What releases leave alone and what they do not -/

def Release.id : Release → Nat
  | .ptrDtor id => id
  | .free id => id

/-- What a zval counts; one that is freed counts nothing. -/
def refcount (σ : Store) (id : Nat) : Nat := (σ.get id).elim 0 ZCell.refcount

/-- The store has grown out of another one. The zvals of that one are as they were, and the new ones have
nothing to do with them: they count the new places, what is left to release, and those that are known
as `locals`. -/
structure Grown (σ₀ σ : Store) (work : List Release) (locals : List Nat) : Prop where
  le : σ₀.next ≤ σ.next
  old : ∀ x < σ₀.next, σ.get x = σ₀.get x
  new_held : ∀ x, σ₀.next ≤ x → ∀ y ∈ held (σ.get x), σ₀.next ≤ y
  new_work : ∀ w ∈ work, σ₀.next ≤ w.id
  new_locals : ∀ x ∈ locals, σ₀.next ≤ x
  counted : ∀ x, σ.slots.count x + work.count (.ptrDtor x) + locals.count x =
    σ₀.slots.count x + if x < σ₀.next then 0 else σ.refcount x
  freed : ∀ x, .free x ∈ work → σ.refcount x = 0 ∧ held (σ.get x) = []

/-- The zval is freed, or about to be. -/
def Gone (σ : Store) (work : List Release) (id : Nat) : Prop := σ.get id = none ∨ .free id ∈ work

/-- A zval is gone, or it counts fewer places than hold it. The slots of the path are filled as they
were, but for those of zvals that are gone. -/
structure Undercounted (roots : List Nat) (path : List (Nat × Key × Nat)) (id : Nat) (σ : Store)
    (work : List Release) : Prop where
  emptied : ∀ x, .free x ∈ work → held (σ.get x) = []
  filled : ∀ s ∈ path, σ.Gone work s.1 ∨ σ.slot s.1 s.2.1 = some s.2.2
  short : σ.Gone work id ∨ ∃ c, σ.get id = some c ∧ 1 ≤ c.refcount ∧
    c.refcount < σ.places roots id + work.count (.ptrDtor id)

end Store

end BeePhp
