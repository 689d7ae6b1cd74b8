import BeePhp.Arguments
import BeePhp.Zend.Store

/-!
# Verifying update operations in the memory of the zvals

`bee_update_verify_op` and `bee_update_verify_args` with what they do to reference counts. What they find
in an operation is what `beeUpdateVerifyOp` says of the values. The lists that they build are new zvals,
but for the argument of `=` and `!`, which is put into the list itself.
-/

namespace BeePhp

open Codec

/-- The operation is `=` or `!`, whose argument is put into the list itself. -/
def byReference : List Zval → Bool
  | .str op :: _ => op.val.headD 0 ∈ ascii "=!"
  | _ => false

/-- The value of a new zval for a string or a number. -/
def ZValue.scalar : Zval → ZValue
  | .null => .null
  | .long n => .long n
  | .double bits => .double bits
  | .bool b => .bool b
  | .str s => .str s
  | .arr _ => .arr .empty
  | .other => .other

namespace Store

/-- `ALLOC_INIT_ZVAL` and `array_init_size`. -/
def allocArray (σ : Store) : Store := σ.alloc ⟨1, false, .arr .empty⟩

/-- New zvals for some values, appended to an array. -/
def addScalars (σ : Store) (arr : Nat) (vs : List Zval) : Store :=
  vs.foldl (fun σ v => σ.addNextIndex arr (.scalar v)) σ

/-- The zval is an array that is packed as a map. -/
def isMap (σ : Store) (op : Nat) : Bool :=
  match σ.zval op with
  | .arr id => phpMpIsHash (σ.heap.table id)
  | _ => false

/-- The label `cleanup`: the list is released, and `NULL` is returned. -/
def cleanup (σ : Store) (arr : Nat) (msg : Message) : Except Fault (Store × Except Message Nat) := do
  return (← σ.zvalPtrDtor arr, .error msg)

/-- `bee_update_verify_op`: the list, or the exception that is thrown when it returns `NULL`. -/
def beeUpdateVerifyOp (σ : Store) (op : Nat) (position : Int) :
    Except Fault (Store × Except Message Nat) :=
  match BeePhp.beeUpdateVerifyOp σ.heap (σ.zval op) position with
  | .error msg =>
    -- the list is made after the operation is known to be a map, and before its fields are looked at
    if σ.isMap op then σ.allocArray.cleanup σ.next msg else .ok (σ, .error msg)
  | .ok vs =>
    if byReference vs then do
      let (σ', arg) ← (σ.allocArray.addScalars σ.next (vs.take 2)).separateToMakeIsRef op
        (.str (ascii "arg"))
      -- the zval is not counted as held by one place more
      return ((σ'.addNextIndexZval σ.next arg).getD σ', .ok σ.next)
    else .ok (σ.allocArray.addScalars σ.next vs, .ok σ.next)

/-- The loop of `bee_update_verify_args`: the operations at the indices from `i` on. -/
def verifyOps (args arr : Nat) : Nat → Nat → Store → Except Fault (Store × Except Message Nat)
  | 0, _, σ => .ok (σ, .ok arr)
  | n + 1, i, σ =>
    match σ.slot args (.idx (UInt64.ofNat i)) with
    | none => σ.cleanup arr ⟨"Internal Array Error", []⟩
    | some op => do
      let (σ, verdict) ← σ.beeUpdateVerifyOp op i
      match verdict with
      | .error msg => σ.cleanup arr msg
      | .ok opArr =>
        match σ.addNextIndexZval arr opArr with
        | some σ => verifyOps args arr n (i + 1) σ
        | none => do
          let σ ← σ.zvalPtrDtor opArr
          σ.cleanup arr ⟨"Internal Array Error", []⟩

/-- `bee_update_verify_args`. -/
def beeUpdateVerifyArgs (σ : Store) (args : Nat) : Except Fault (Store × Except Message Nat) :=
  match σ.zval args with
  | .arr id =>
    if phpMpIsHash (σ.heap.table id) then
      .ok (σ, .error ⟨"Provided value for update OPS must be Array", []⟩)
    else verifyOps args σ.next (zendHashNumElements (σ.heap.table id)) 0 σ.allocArray
  | _ => .ok (σ, .error ⟨"Provided value for update OPS must be Array", []⟩)

/-! ## What is to be left of the arguments -/

/-- The operation is `=` or `!`. -/
def assigns (H : Heap) : Zval → Bool
  | .arr id =>
    match zendHashFind (H.table id) (ascii "op") with
    | some (.str op) => op.val.headD 0 ∈ ascii "=!"
    | _ => false
  | _ => false

/-- The operations that are accepted before the first one that is not. -/
def acceptedOps (H : Heap) (ht : HashTable) : Nat → Nat → List Zval
  | 0, _ => []
  | n + 1, i =>
    match zendHashIndexFind ht (UInt64.ofNat i) with
    | none => []
    | some op =>
      match BeePhp.beeUpdateVerifyOp H op i with
      | .error _ => []
      | .ok _ => op :: acceptedOps H ht n (i + 1)

/-- The operations among the arguments that are accepted before the first one that is not. -/
def accepted (σ : Store) (args : Nat) : List Zval :=
  if σ.isMap args then []
  else acceptedOps σ.heap (σ.heap.table args) (zendHashNumElements (σ.heap.table args)) 0

/-- Every zval that can be reached from the arguments is alive, has as many places as it counts, and
has the value that it had. -/
def Intact (roots : List Nat) (σ σ' : Store) (args : Nat) : Prop :=
  ∀ x, σ'.Reaches args x → ∃ c c', σ.get x = some c ∧ σ'.get x = some c' ∧
    c'.refcount = σ'.places roots x ∧ c'.value = c.value

/-- The call returns `NULL` and leaves the arguments intact. -/
def LeavesIntact (σ : Store) (roots : List Nat) (args : Nat) : Prop :=
  ∃ σ' msg, σ.beeUpdateVerifyArgs args = .ok (σ', .error msg) ∧ Intact roots σ σ' args

end Store

end BeePhp
