import BeePhp.Arguments
import BeePhp.Request
import BeePhp.Zend.Built

/-!
# The grammar of update operations

An `UpdateOp` is an operation of `update` and `upsert`. A script writes it down as an array with a name
for each part, in any order (`UpdateOp.Written`), and the server is sent its parts in a fixed order
(`UpdateOp.doc`).
-/

namespace BeePhp

open Codec

/-- An operation on a tuple. -/
inductive UpdateOp where
  /-- `+`, `-`, `&`, `|`, `^`, `#`: the argument is a number. -/
  | arith (op : UInt8) (field arg : Int64)
  /-- `=`, `!`: the argument is any value that can be packed. -/
  | assign (op : UInt8) (field : Int64) (arg : Zval)
  /-- `:`, the splice of a string. -/
  | splice (field offset length : Int64) (list : ZStr)

/-- The string of one byte. -/
def ZStr.char (c : UInt8) : ZStr where
  val := [c]
  small := (by decide : 1 < 2 ^ 31)

namespace UpdateOp

/-- The operation is one of those its shape is for. -/
def Proper : UpdateOp → Prop
  | .arith op _ _ => op ∈ ascii "+-&|^#"
  | .assign op _ arg => op ∈ ascii "=!" ∧ arg.serializable
  | .splice .. => True

/-- The parts of an operation under their names. -/
def fields : UpdateOp → List (Key × Zval)
  | .arith op field arg =>
    [(.str (ascii "op"), .str (.char op)), (.str (ascii "field"), .long field),
      (.str (ascii "arg"), .long arg)]
  | .assign op field arg =>
    [(.str (ascii "op"), .str (.char op)), (.str (ascii "field"), .long field),
      (.str (ascii "arg"), arg)]
  | .splice field offset length list =>
    [(.str (ascii "op"), .str (.char 0x3a)), (.str (ascii "field"), .long field),
      (.str (ascii "offset"), .long offset), (.str (ascii "length"), .long length),
      (.str (ascii "list"), .str list)]

/-- The value is an array that has the parts of the operation under their names, in any order, and
nothing else. -/
structure Written (H : Heap) (v : Zval) (u : UpdateOp) : Prop where
  proper : u.Proper
  array : ∃ id, v = .arr id ∧ (H.table id).entries.Perm u.fields

/-- The document that `php_mp_pack` makes of a value inside an array. It is `zvalDoc`, unless the value
is an array that contains itself. -/
def innerDoc (H : Heap) (v : Zval) : Doc := elementDoc (zvalDocRec H H.depth) (fun _ => 0) (some v)

/-- The operation as it is sent. -/
def doc (H : Heap) : UpdateOp → Doc
  | .arith op field arg => .ofList [.ofStr [op], .ofInt field.toInt, .ofInt arg.toInt]
  | .assign op field arg => .ofList [.ofStr [op], .ofInt field.toInt, innerDoc H arg]
  | .splice field offset length list =>
    .ofList [.ofStr (ascii ":"), .ofInt field.toInt, .ofInt offset.toInt, .ofInt length.toInt,
      .ofStr list.val]

end UpdateOp

/-- The elements of a list, in the order of their indices. -/
def HashTable.elements (ht : HashTable) : List Zval :=
  (List.range (zendHashNumElements ht)).filterMap fun i => zendHashIndexFind ht (UInt64.ofNat i)

/-- What a value refers to is on the heap. -/
def Zval.On (H : Heap) (v : Zval) : Prop := ∀ id, v = .arr id → id < H.length

/-- What the arrays contain is on the heap. -/
def Heap.Closed (H : Heap) : Prop := ∀ id, ∀ e ∈ (H.table id).entries, e.2.On H

/-- An encoder appends a frame with these documents: the low 32 bits of their length, and the documents. -/
def Frames (encode : SmartString → Except Fault (SmartString × Counts)) (docs : List Doc) : Prop :=
  ∀ str, ∃ str', encode str = .ok (str', fun _ => 0) ∧
    str'.data = str.data ++ 0xce :: toBE 4 (toUint32 (encodeAll docs).length) ++ encodeAll docs

end BeePhp
