import BeePhp.Msgpack.Meaning
import BeePhp.Schema

/-!
# The catalogue of spaces and indexes

What the cache of names stands for. The rows that a server sends for its spaces and indexes are loaded
one after the other; the history of the loads since the last flush decides what a name means.
-/

namespace BeePhp

open Codec (Bytes Doc AllWF IntWidth StrWidth SeqWidth enter)

/-! ## Rows -/

/-- A row of the space list: 7 fields, of which the number and the name are read. -/
structure SpaceRow where
  width : SeqWidth
  idWidth : IntWidth
  id : Nat
  owner : Doc
  nameWidth : StrWidth
  name : Bytes
  engine : Doc
  fieldCount : Doc
  flags : Doc
  format : Doc
  id_fits : id < idWidth.uintBound
  id_lt : id < 2 ^ 31
  name_fits : name.length < nameWidth.bound
  skipped : AllWF [owner, engine, fieldCount, flags, format]

/-- A row of the index list: 6 fields. -/
structure IndexRow where
  width : SeqWidth
  spaceWidth : IntWidth
  spaceId : Nat
  idWidth : IntWidth
  id : Nat
  nameWidth : StrWidth
  name : Bytes
  type : Doc
  opts : Doc
  parts : Doc
  space_fits : spaceId < spaceWidth.uintBound
  space_lt : spaceId < 2 ^ 31
  id_fits : id < idWidth.uintBound
  id_lt : id < 2 ^ 31
  name_fits : name.length < nameWidth.bound
  skipped : AllWF [type, opts, parts]

def SpaceRow.doc (r : SpaceRow) : Doc :=
  .array r.width [.uint r.idWidth r.id, r.owner, .str r.nameWidth r.name, r.engine, r.fieldCount,
    r.flags, r.format]

def IndexRow.doc (r : IndexRow) : Doc :=
  .array r.width [.uint r.spaceWidth r.spaceId, .uint r.idWidth r.id, .str r.nameWidth r.name, r.type,
    r.opts, r.parts]

/-- A row that has no more than a number and a name. -/
def SpaceRow.named (id : Fin (2 ^ 31)) (name : String)
    (h : (ascii name).length < 256 ^ 4 := by decide) : SpaceRow where
  width := .fix
  idWidth := .w32
  id := id
  owner := .nil
  nameWidth := .w32
  name := ascii name
  engine := .nil
  fieldCount := .nil
  flags := .nil
  format := .nil
  id_fits := by
    have hlt := id.isLt
    simp only [IntWidth.uintBound]
    omega
  id_lt := id.isLt
  name_fits := h
  skipped := by simp [AllWF, Doc.WF, Doc.Fits]

def IndexRow.named (spaceId id : Fin (2 ^ 31)) (name : String)
    (h : (ascii name).length < 256 ^ 4 := by decide) : IndexRow where
  width := .fix
  spaceWidth := .w32
  spaceId := spaceId
  idWidth := .w32
  id := id
  nameWidth := .w32
  name := ascii name
  type := .nil
  opts := .nil
  parts := .nil
  space_fits := by
    have hlt := spaceId.isLt
    simp only [IntWidth.uintBound]
    omega
  space_lt := spaceId.isLt
  id_fits := by
    have hlt := id.isLt
    simp only [IntWidth.uintBound]
    omega
  id_lt := id.isLt
  name_fits := h
  skipped := by simp [AllWF, Doc.WF, Doc.Fits]

/-- The number of a space, as the cache keeps it. -/
def SpaceRow.number (r : SpaceRow) : UInt32 := UInt32.ofNat r.id

def IndexRow.space (r : IndexRow) : UInt32 := UInt32.ofNat r.spaceId

def IndexRow.number (r : IndexRow) : UInt32 := UInt32.ofNat r.id

/-- The schema after a space has been put under its name and its number. -/
def Schema.putSpace (schema : Schema) (number : UInt32) (name : Bytes) : Schema :=
  let value : SpaceValue := ⟨number, schema.indexHashes.length⟩
  ⟨enter (numberKey number) value (enter name value schema.spaceHash), schema.indexHashes ++ [[]]⟩

/-- The schema after an index has been put into the table `n`. -/
def Schema.putIndex (schema : Schema) (n : Nat) (number : UInt32) (name : Bytes) : Schema :=
  let table := enter (numberKey number) number (enter name number (schema.indexHashes.getD n []))
  { schema with indexHashes := schema.indexHashes.set n table }

/-! ## Histories -/

/-- A row that has been loaded. -/
inductive Loaded where
  | space (number : UInt32) (name : Bytes)
  | index (space number : UInt32) (name : Bytes)
  deriving DecidableEq, Repr

/-- What has been loaded since the last flush, the latest first. -/
abbrev History := List Loaded

/-- The names of the spaces, the latest first. -/
def History.spaceNames : History → List (Bytes × UInt32)
  | [] => []
  | .space number name :: h => (name, number) :: History.spaceNames h
  | .index .. :: h => History.spaceNames h

/-- The names of the indexes loaded for a space since it was itself last loaded, the latest first. -/
def History.indexNames (sid : UInt32) : History → List (Bytes × UInt32)
  | [] => []
  | .space number _ :: h => if number = sid then [] else History.indexNames sid h
  | .index space number name :: h =>
    if space = sid then (name, number) :: History.indexNames sid h else History.indexNames sid h

/-- A space has been loaded. -/
def History.knows (h : History) (sid : UInt32) : Bool := h.spaceNames.any fun (_, n) => n = sid

/-- The node that is found under a key. -/
def History.slot (k : Bytes) : History → Option SpaceValue
  | [] => none
  | .index .. :: h => History.slot k h
  | .space number name :: h =>
    if name = k ∨ numberKey number = k then some ⟨number, History.spaceNames h |>.length⟩
    else History.slot k h

/-- The number of a name, or -1. -/
def numberOf (names : List (Bytes × UInt32)) (name : Bytes) : Int :=
  match names.lookup name with
  | none => -1
  | some number => number.toNat

/-- The space that a name stands for. -/
def History.sid (h : History) (name : Bytes) : Int := numberOf h.spaceNames name

/-- The index of a space that a name stands for. -/
def History.iid (h : History) (sid : UInt32) (name : Bytes) : Int := numberOf (h.indexNames sid) name

def History.addSpaces (h : History) (rows : List SpaceRow) : History :=
  (rows.map fun r => Loaded.space r.number r.name).reverse ++ h

/-- Rows of indexes are loaded up to the first one whose space is not known. -/
def History.addIndexes (h : History) : List IndexRow → History
  | [] => h
  | r :: rows =>
    if h.knows r.space then History.addIndexes (.index r.space r.number r.name :: h) rows else h

/-! ## Operations -/

/-- An operation on the cache. -/
inductive SchemaOp where
  | addSpaces (w : SeqWidth) (rows : List SpaceRow)
  | addIndexes (w : SeqWidth) (rows : List IndexRow)
  | flush

/-- The rows as they are sent. -/
def SchemaOp.doc : SchemaOp → Doc
  | .addSpaces w rows => .array w (rows.map SpaceRow.doc)
  | .addIndexes w rows => .array w (rows.map IndexRow.doc)
  | .flush => .nil

/-- The rows are counted in the width they are, and a `uint32_t` holds their size. -/
def SchemaOp.WF (op : SchemaOp) : Prop := op.doc.Fits ∧ op.doc.encode.length < 2 ^ 32

/-- The operation on the cache. -/
def SchemaOp.run (schema : Schema) (op : SchemaOp) : Except Fault Schema :=
  match op with
  | .addSpaces .. => return (← beeSchemaAddSpaces schema (some op.doc.encode) op.doc.encode.length).1
  | .addIndexes .. => return (← beeSchemaAddIndexes schema (some op.doc.encode) op.doc.encode.length).1
  | .flush => return beeSchemaFlush schema

/-- The operation on the catalogue. -/
def SchemaOp.load (h : History) : SchemaOp → History
  | .addSpaces _ rows => h.addSpaces rows
  | .addIndexes _ rows => h.addIndexes rows
  | .flush => []

/-- The cache after a sequence of operations. -/
def runSchema (ops : List SchemaOp) : Except Fault Schema := ops.foldlM SchemaOp.run .empty

/-- The catalogue after a sequence of operations. -/
def historyOf (ops : List SchemaOp) : History := ops.foldl SchemaOp.load []

/-! ## Where names and numbers meet

The cache finds a node under the bytes of its name and under the bytes of its number. -/

/-- What a table with both kinds of keys finds. -/
def keyed (k : Bytes) : List (Bytes × UInt32) → Option UInt32
  | [] => none
  | (name, number) :: l => if name = k ∨ numberKey number = k then some number else keyed k l

/-- No entry later than the latest one with the name `k` has a number whose bytes are `k`, unless it is
the number of that one. -/
def Unshadowed (k : Bytes) : List (Bytes × UInt32) → Prop
  | [] => True
  | (name, number) :: l =>
    name = k ∨ if numberKey number = k then l.lookup k = some number else Unshadowed k l

/-- No space loaded after the space `sid` has the bytes of this number as its name, or no space at all if
it is not loaded. -/
def History.Reaches (sid : UInt32) : History → Prop
  | [] => True
  | .index .. :: h => History.Reaches sid h
  | .space number name :: h => number = sid ∨ (name ≠ numberKey sid ∧ History.Reaches sid h)

/-- Every row of indexes that is loaded reaches its own space. -/
def History.Reached (h : History) : List IndexRow → Prop
  | [] => True
  | r :: rows => h.Reaches r.space ∧
      (h.knows r.space → History.Reached (.index r.space r.number r.name :: h) rows)

/-- The rows of an operation reach their spaces, and an `int` can count their elements. -/
def SchemaOp.Clear (h : History) (op : SchemaOp) : Prop :=
  Light op.doc ∧
    match op with
    | .addIndexes _ rows => h.Reached rows
    | _ => True

/-- Every operation of a sequence is clear where it is run. -/
def AllClear : History → List SchemaOp → Prop
  | _, [] => True
  | h, op :: ops => op.Clear h ∧ AllClear (op.load h) ops

instance (op : SchemaOp) : Decidable op.WF := inferInstanceAs (Decidable (_ ∧ _))

instance (d : Doc) : Decidable (Light d) := inferInstanceAs (Decidable (_ ≤ _))

instance History.decidableReaches (sid : UInt32) : (h : History) → Decidable (h.Reaches sid)
  | [] => inferInstanceAs (Decidable True)
  | .index .. :: h => History.decidableReaches sid h
  | .space number name :: h =>
    have := History.decidableReaches sid h
    inferInstanceAs (Decidable (number = sid ∨ (name ≠ numberKey sid ∧ History.Reaches sid h)))

instance History.decidableReached : (h : History) → (rows : List IndexRow) → Decidable (h.Reached rows)
  | _, [] => inferInstanceAs (Decidable True)
  | h, r :: rows =>
    have := History.decidableReached (.index r.space r.number r.name :: h) rows
    inferInstanceAs (Decidable (h.Reaches r.space ∧
      (h.knows r.space → History.Reached (.index r.space r.number r.name :: h) rows)))

instance (h : History) : (op : SchemaOp) → Decidable (op.Clear h)
  | .addIndexes _ rows => inferInstanceAs (Decidable (_ ∧ h.Reached rows))
  | .addSpaces .. | .flush => inferInstanceAs (Decidable (_ ∧ True))

instance AllClear.decidable : (h : History) → (ops : List SchemaOp) → Decidable (AllClear h ops)
  | _, [] => inferInstanceAs (Decidable True)
  | h, op :: ops =>
    have := AllClear.decidable (op.load h) ops
    inferInstanceAs (Decidable (op.Clear h ∧ AllClear (op.load h) ops))

end BeePhp
