import BeePhp.Codec.Assoc
import BeePhp.Msgpuck

/-!
# bee_schema.c

The cache of space and index names. A node of a table is found under its name and under the four bytes
of its number; both nodes of a space share one table of indexes. The tables of mhash.h are taken to be
maps from key bytes to nodes.
-/

namespace BeePhp

open Codec (Bytes enter)

/-- A `schema_space_value`; `indexHash` says which of the tables of indexes it points at. -/
structure SpaceValue where
  spaceNumber : UInt32
  indexHash : Nat

/-- A `bee_schema` and the tables of indexes, each with the numbers of its indexes. -/
structure Schema where
  spaceHash : List (Bytes × SpaceValue)
  indexHashes : List (List (Bytes × UInt32))

def Schema.empty : Schema := ⟨[], []⟩

/-- The bytes of an `uint32_t` in memory, which are the key of a number. -/
def numberKey (n : UInt32) : Bytes := (Codec.toBE 4 n.toNat).reverse

/-- `mp_typeof` of the byte at a pointer. -/
def typeAt (data : Bytes) : Except Fault MpType :=
  match data with
  | [] => .error .oob
  | c :: _ => .ok (mpTypeof c)

/-! ## Loading rows

A loader returns the cursor after the row, or `none` for -1. Its error path frees a node that it may not
have made yet. -/

/-- `schema_add_space`. -/
def schemaAddSpace (schema : Schema) (data : Bytes) : Except Fault (Schema × Option Bytes) := do
  if (← typeAt data) ≠ .array then throw .uninit
  let (tupleLen, tuple) ← mpDecodeArray data
  if tupleLen < 6 then throw .uninit
  if (← typeAt tuple) ≠ .uint then return (schema, none)
  let (number, tuple) ← mpDecodeUint tuple
  let spaceNumber := UInt32.ofNat number
  let tuple ← mpNext tuple
  if (← typeAt tuple) ≠ .str then return (schema, none)
  let (spaceName, tuple) ← mpDecodeStr tuple
  let tuple ← mpNext tuple
  let tuple ← mpNext tuple
  let tuple ← mpNext tuple
  let tuple ← mpNext tuple
  let value : SpaceValue := ⟨spaceNumber, schema.indexHashes.length⟩
  let spaceHash := enter spaceName value schema.spaceHash
  let spaceHash := enter (numberKey spaceNumber) value spaceHash
  return (⟨spaceHash, schema.indexHashes ++ [[]]⟩, some tuple)

/-- `schema_add_index`, which decodes the number of the space before it looks at its type. -/
def schemaAddIndex (schema : Schema) (data : Bytes) : Except Fault (Schema × Option Bytes) := do
  if (← typeAt data) ≠ .array then throw .uninit
  let (tupleLen, tuple) ← mpDecodeArray data
  if tupleLen < 6 then throw .uninit
  let (number, tuple) ← mpDecodeUint tuple
  if (← typeAt tuple) ≠ .uint then throw .uninit
  match schema.spaceHash.lookup (numberKey (UInt32.ofNat number)) with
  | none => return (schema, none)
  | some space =>
    if (← typeAt tuple) ≠ .uint then return (schema, none)
    let (number, tuple) ← mpDecodeUint tuple
    let indexNumber := UInt32.ofNat number
    if (← typeAt tuple) ≠ .str then return (schema, none)
    let (indexName, tuple) ← mpDecodeStr tuple
    let tuple ← mpNext tuple
    let tuple ← mpNext tuple
    let tuple ← mpNext tuple
    let table := schema.indexHashes.getD space.indexHash []
    let table := enter indexName indexNumber table
    let table := enter (numberKey indexNumber) indexNumber table
    return ({ schema with indexHashes := schema.indexHashes.set space.indexHash table }, some tuple)

/-- The loop over the rows: whether all of them were added. -/
def addRows (add : Schema → Bytes → Except Fault (Schema × Option Bytes)) :
    Nat → Schema → Bytes → Except Fault (Schema × Bool)
  | 0, schema, _ => .ok (schema, true)
  | n + 1, schema, data => do
    match ← add schema data with
    | (schema, some data) => addRows add n schema data
    | (schema, none) => return (schema, false)

/-- What `bee_schema_add_spaces` and `bee_schema_add_indexes` have in common: whether they return 0. A
null pointer with the size 0 does not pass the check. -/
def addTuples (add : Schema → Bytes → Except Fault (Schema × Option Bytes)) (schema : Schema)
    (data : Option Bytes) (size : Nat) : Except Fault (Schema × Bool) :=
  match data with
  | none => .ok (schema, false)
  | some data => do
    if (← mpCheck data (toUint32 size)).1 ≠ 0 then return (schema, false)
    if (← typeAt data) ≠ .array then return (schema, false)
    let (count, tuple) ← mpDecodeArray data
    addRows add count schema tuple

def beeSchemaAddSpaces (schema : Schema) (data : Option Bytes) (size : Nat) :
    Except Fault (Schema × Bool) := addTuples schemaAddSpace schema data size

def beeSchemaAddIndexes (schema : Schema) (data : Option Bytes) (size : Nat) :
    Except Fault (Schema × Bool) := addTuples schemaAddIndex schema data size

/-! ## Looking up names -/

/-- Conversion of an `uint32_t` to `int32_t`. -/
def toInt32 (n : UInt32) : Int := toInt n.toNat

/-- `bee_schema_get_sid_by_string`, with -1 for a name that is not there. -/
def beeSchemaGetSidByString (schema : Schema) (spaceName : Bytes) : Int :=
  match schema.spaceHash.lookup spaceName with
  | none => -1
  | some space => toInt32 space.spaceNumber

/-- `bee_schema_get_iid_by_string`. -/
def beeSchemaGetIidByString (schema : Schema) (sid : UInt32) (indexName : Bytes) : Int :=
  match schema.spaceHash.lookup (numberKey sid) with
  | none => -1
  | some space =>
    match (schema.indexHashes.getD space.indexHash []).lookup indexName with
    | none => -1
    | some indexNumber => toInt32 indexNumber

/-- `bee_schema_flush`. -/
def beeSchemaFlush (_ : Schema) : Schema := .empty

end BeePhp
