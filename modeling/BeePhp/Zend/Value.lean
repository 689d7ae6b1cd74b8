import BeePhp.Machine
import BeePhp.Codec.Assoc

/-!
# PHP values built by the extension

The values `php_mp_unpack` builds are trees: `PVal`. A PHP array is a table in the order of insertion,
keyed by unsigned longs and strings, with `nNextFreeElement`, the index the next `$a[] = …` will use.
The functions here are the Zend functions of the same names.
-/

namespace BeePhp

open Codec (Bytes enter)

/-- A key of a PHP array. -/
inductive Key where
  | idx (h : UInt64)
  | str (s : Bytes)
  deriving DecidableEq, Repr

/-- A PHP value as a tree; a double is its 64-bit image. A string is the bytes at `Z_STRVAL`, with `zStrlen` of
them for its `Z_STRLEN`. -/
inductive PVal where
  | null
  | long (n : Int64)
  | double (bits : UInt64)
  | bool (b : Bool)
  /-- a string with a NUL behind it -/
  | str (s : Bytes)
  /-- a string whose block ends with its last byte -/
  | bin (s : Bytes)
  | arr (entries : List (Key × PVal)) (nNextFreeElement : UInt64)

/-- `Z_STRLEN` of a string with these bytes, which is an `int`. -/
def zStrlen (s : Bytes) : Int := toInt s.length

/-- `zval_copy_ctor`, which puts a NUL behind the bytes of a string. The values in an array are shared. -/
def PVal.copyCtor : PVal → PVal
  | .bin s => .str s
  | v => v

/-- The contents of a hash table. -/
structure Table (α : Type) where
  entries : List (Key × α)
  nNextFreeElement : UInt64

variable {α : Type}

def longMax : UInt64 := 0x7fffffffffffffff

/-- `array_init_size`. -/
def Table.empty : Table α := ⟨[], 0⟩

def Table.toPVal (t : Table PVal) : PVal := .arr t.entries t.nNextFreeElement

/-- `nNextFreeElement` after an entry under the index `h`. -/
def nextFree (h next : UInt64) : UInt64 :=
  if h.toInt64 ≥ next.toInt64 then (if h < longMax then h + 1 else longMax) else next

/-- `add_index_zval`. -/
def addIndexZval (t : Table α) (h : UInt64) (v : α) : Table α :=
  ⟨enter (.idx h) v t.entries, nextFree h t.nNextFreeElement⟩

/-- `add_next_index_zval`, which fails when the next index is taken. -/
def addNextIndexZval (t : Table α) (v : α) : Table α :=
  if (t.entries.lookup (.idx t.nNextFreeElement)).isSome then t
  else addIndexZval t t.nNextFreeElement v

def isDigit (c : UInt8) : Bool := 0x30 ≤ c && c ≤ 0x39

/-- The number written by a string of decimal digits. -/
def digitsValue (ds : Bytes) : Nat := ds.foldl (fun n d => n * 10 + (d.toNat - 0x30)) 0

/-- `ZEND_HANDLE_NUMERIC`: the index a string key stands for, if it is a decimal integer in its
canonical form and fits a long. -/
def zendHandleNumeric (key : Bytes) : Option UInt64 :=
  let neg := key.head? = some 0x2d
  let tmp := if neg then key.tail else key
  if ¬ (tmp.head?.any isDigit) then none
  else if (tmp.head? = some 0x30 ∧ key.length > 1) ∨ tmp.length > 19 then none
  else if ¬ tmp.all isDigit then none
  else
    let idx := digitsValue tmp
    if neg then
      if idx - 1 > longMax.toNat then none else some (0 - UInt64.ofNat idx)
    else if idx > longMax.toNat then none else some (UInt64.ofNat idx)

/-- `add_assoc_zval_ex`: a string that is a decimal integer is entered as that index. -/
def addAssocZval (t : Table α) (key : Bytes) (v : α) : Table α :=
  match zendHandleNumeric key with
  | some h => addIndexZval t h v
  | none => { t with entries := enter (.str key) v t.entries }

/-- The conversion from `float` to `double`, on the images of the numbers. A NaN becomes quiet. -/
def floatToDouble (bits : Nat) : UInt64 :=
  let sign := bits / 2 ^ 31 % 2
  let e := bits / 2 ^ 23 % 256
  let m := bits % 2 ^ 23
  let body :=
    if e = 255 then
      if m = 0 then 2047 * 2 ^ 52 else 2047 * 2 ^ 52 + (m * 2 ^ 29 ||| 2 ^ 51)
    else if e = 0 then
      if m = 0 then 0
      else
        -- a subnormal float `m * 2 ^ -149` is a normal double
        let k := Nat.log2 m
        (k + 1023 - 149) * 2 ^ 52 + (m - 2 ^ k) * 2 ^ (52 - k)
    else (e + 1023 - 127) * 2 ^ 52 + m * 2 ^ 29
  UInt64.ofNat (sign * 2 ^ 63 + body)

end BeePhp
