import BeePhp.Catalogue

/-!
# Rows of any shape

What the loaders of rows do with documents. The cursor of a loader always stands in front of a row of
documents: decoding the head of an array puts its items there, and skipping takes the first document
away. `addSpaceDocs` and `addIndexDocs` are the loaders on documents; `SpacesParsed` and `IndexesParsed`
say of the documents ahead that the loaders get along with them. A `SpaceTuple` and an `IndexTuple` are
rows that pass the checks, with any number of fields.
-/

namespace BeePhp

open Codec (Bytes Doc encodeAll IntWidth StrWidth SeqWidth)

/-! ## The loaders on documents -/

/-- `schema_add_space` in front of the documents `ds`: the schema and what is ahead afterwards, where
that is `none` for -1; or `none` where it goes wrong. It takes seven documents. -/
def addSpaceDocs (schema : Schema) (ds : List Doc) : Option (Schema × Option (List Doc)) :=
  match ds with
  | .array _ fields :: ds =>
    if fields.length < 6 then none
    else
      match fields with
      | .uint _ id :: _ :: .str _ name :: _ =>
        if (fields ++ ds).length < 7 then none
        else some (schema.putSpace (UInt32.ofNat id) name, some ((fields ++ ds).drop 7))
      | _ => some (schema, none)
  | _ => none

/-- `schema_add_index`, which takes six documents. -/
def addIndexDocs (schema : Schema) (ds : List Doc) : Option (Schema × Option (List Doc)) :=
  match ds with
  | .array _ fields :: ds =>
    if fields.length < 6 then none
    else
      match fields with
      | .uint _ space :: .uint _ id :: name :: _ =>
        match schema.spaceHash.lookup (numberKey (UInt32.ofNat space)), name with
        | some value, .str _ name =>
          some (schema.putIndex value.indexHash (UInt32.ofNat id) name, some ((fields ++ ds).drop 6))
        | _, _ => some (schema, none)
      | _ => none
  | _ => none

/-! ## What they get along with -/

/-- The fields that `schema_add_space` looks at have the types it wants. -/
def SpaceFields : List Doc → Prop
  | .uint .. :: _ :: .str .. :: _ => True
  | _ => False

/-- The loader of spaces gets along with `n` rows: each is an array of six fields at least, and if its
number and its name have their types, seven documents are ahead, behind which the next row stands. -/
def SpacesParsed : Nat → List Doc → Prop
  | 0, _ => True
  | n + 1, .array _ fields :: ds => 6 ≤ fields.length ∧
      (SpaceFields fields → 7 ≤ (fields ++ ds).length ∧ SpacesParsed n ((fields ++ ds).drop 7))
  | _ + 1, _ => False

/-- The fields that `schema_add_index` decodes without a look at their type before, or looks at too
early. -/
def IndexNumbers : List Doc → Prop
  | .uint .. :: .uint .. :: _ => True
  | _ => False

/-- The row is for a space with a node, and the name has its type. -/
def IndexAdded (spaceHash : List (Bytes × SpaceValue)) : List Doc → Prop
  | .uint _ space :: _ :: .str .. :: _ => (spaceHash.lookup (numberKey (UInt32.ofNat space))).isSome
  | _ => False

/-- The loader of indexes gets along with `n` rows: each is an array of six fields at least, of which the
first two are unsigned numbers, and if it is added, the next row stands behind six documents. -/
def IndexesParsed (spaceHash : List (Bytes × SpaceValue)) : Nat → List Doc → Prop
  | 0, _ => True
  | n + 1, .array _ fields :: ds => 6 ≤ fields.length ∧ IndexNumbers fields ∧
      (IndexAdded spaceHash fields → IndexesParsed spaceHash n ((fields ++ ds).drop 6))
  | _ + 1, _ => False

/-- The value is no array of rows, or one that a loader gets along with. -/
def RowsParsed (parsed : Nat → List Doc → Prop) : Doc → Prop
  | .array _ rows => parsed rows.length rows
  | _ => True

/-! ## Rows that pass the checks -/

/-- A row that `schema_add_space` accepts. -/
structure SpaceTuple where
  width : SeqWidth
  idWidth : IntWidth
  id : Nat
  owner : Doc
  nameWidth : StrWidth
  name : Bytes
  others : List Doc
  six_le : 6 ≤ others.length + 3

def SpaceTuple.doc (r : SpaceTuple) : Doc :=
  .array r.width (.uint r.idWidth r.id :: r.owner :: .str r.nameWidth r.name :: r.others)

/-- The schema with the entry of a row. -/
def SpaceTuple.put (schema : Schema) (r : SpaceTuple) : Schema :=
  schema.putSpace (UInt32.ofNat r.id) r.name

/-- A row that `schema_add_index` accepts. -/
structure IndexTuple where
  width : SeqWidth
  spaceWidth : IntWidth
  space : Nat
  idWidth : IntWidth
  id : Nat
  nameWidth : StrWidth
  name : Bytes
  others : List Doc
  six_le : 6 ≤ others.length + 3

def IndexTuple.doc (r : IndexTuple) : Doc :=
  .array r.width (.uint r.spaceWidth r.space :: .uint r.idWidth r.id :: .str r.nameWidth r.name ::
    r.others)

/-- The node of the space of a row. -/
def IndexTuple.node (schema : Schema) (r : IndexTuple) : Option SpaceValue :=
  schema.spaceHash.lookup (numberKey (UInt32.ofNat r.space))

def IndexTuple.put (schema : Schema) (r : IndexTuple) : Schema :=
  (r.node schema).elim schema fun value => schema.putIndex value.indexHash (UInt32.ofNat r.id) r.name

/-- Row after row the cursor of a loader ends exactly behind the row, whose entry has been put. -/
def InStep {ρ : Type} (add : Schema → Bytes → Except Fault (Schema × Option Bytes)) (doc : ρ → Doc)
    (put : Schema → ρ → Schema) : Schema → List ρ → Prop
  | _, [] => True
  | schema, r :: rows =>
    add schema ((doc r).encode ++ encodeAll (rows.map doc)) =
        .ok (put schema r, some (encodeAll (rows.map doc))) ∧
      InStep add doc put (put schema r) rows

end BeePhp
