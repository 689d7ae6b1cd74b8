import BeePhp.Mhash
import BeePhp.Murmur
import BeePhp.Schema

/-!
# bee_schema.c: the tables

The cache of names over the tables of mhash.h, with what it allocates and releases. Loading a row makes two
nodes, one under the name and one under the number, which share the buffer of the name and, for a space, the
table of its indexes.
-/

namespace BeePhp

open Codec (Bytes)

/-! ## Nodes -/

/-- A `schema_space_value` or a `schema_index_value`. `load` counts what was loaded into the cache, or into
the table of a space, before: it says whose buffer the name is in, and whose table of indexes it is. The key
points to the name or to the number of the node itself. -/
structure SchemaValue where
  load : Nat
  byName : Bool
  name : Bytes
  number : UInt32

/-- `key`. -/
def SchemaValue.key (v : SchemaValue) : Bytes := if v.byName then v.name else numberKey v.number

/-- `MUR_SEED`. -/
def murSeed : UInt32 := 13

/-- `mh_hash_key`, `mh_eq_key`, `mh_hash` and `mh_eq` of both kinds of nodes. -/
def schemaHashed : Hashed Bytes SchemaValue where
  hash := pMurHash32 murSeed
  key := SchemaValue.key

/-- What the cache has on the heap: of the spaces their nodes, buffers of names and tables of indexes, and of
the indexes in a table their nodes and buffers of names. -/
inductive Block where
  | spaceNode (space : Nat) (byName : Bool)
  | spaceName (space : Nat)
  | indexHash (space : Nat)
  | indexNode (space index : Nat) (byName : Bool)
  | indexName (space index : Nat)
  deriving DecidableEq

/-- A `mh_schema_index_t`, with the number of loads into it. -/
structure IndexTable where
  table : Mhash SchemaValue
  loads : Nat

/-- A `bee_schema` with the tables of indexes, and what has been released. -/
structure Tables where
  spaceHash : Mhash SchemaValue
  indexHashes : List IndexTable
  released : List Block

/-- `bee_schema_new`. -/
def Tables.new : Tables := ⟨mhNew, [], []⟩

/-- `PMurHash32` reads on beyond a key whose length is negative as an `int`, unless it is a multiple of 4. -/
def hashable (key : Bytes) : Except Fault Unit :=
  if key.length < 2 ^ 31 ∨ key.length % 4 = 0 then .ok () else .error .oob

/-! ## Loading rows -/

/-- What `schema_add_space` reads: the number, the name and the cursor. -/
def readSpace (data : Bytes) : Except Fault (Option (UInt32 × Bytes × Bytes)) := do
  if (← typeAt data) ≠ .array then throw .uninit
  let (tupleLen, tuple) ← mpDecodeArray data
  if tupleLen < 6 then throw .uninit
  if (← typeAt tuple) ≠ .uint then return none
  let (number, tuple) ← mpDecodeUint tuple
  let tuple ← mpNext tuple
  if (← typeAt tuple) ≠ .str then return none
  let (spaceName, tuple) ← mpDecodeStr tuple
  let tuple ← mpNext tuple
  let tuple ← mpNext tuple
  let tuple ← mpNext tuple
  let tuple ← mpNext tuple
  return some (UInt32.ofNat number, spaceName, tuple)

/-- The two nodes of a row are put into a table. -/
def putValues (table : Mhash SchemaValue) (load : Nat) (number : UInt32) (name : Bytes) :
    Except Fault (Mhash SchemaValue) := do
  hashable name
  let table ← mhPut schemaHashed table ⟨load, true, name, number⟩
  mhPut schemaHashed table ⟨load, false, name, number⟩

/-- The nodes of a space and its table. -/
def Tables.putSpace (t : Tables) (number : UInt32) (name : Bytes) : Except Fault Tables := do
  let spaceHash ← putValues t.spaceHash t.indexHashes.length number name
  return { t with spaceHash := spaceHash, indexHashes := t.indexHashes ++ [⟨mhNew, 0⟩] }

/-- `schema_add_space`. Its error path releases nothing that was allocated. -/
def Tables.addSpace (t : Tables) (data : Bytes) : Except Fault (Tables × Option Bytes) := do
  match ← readSpace data with
  | none => return (t, none)
  | some (number, name, tuple) => return (← t.putSpace number name, some tuple)

/-- What `schema_add_index` reads of the space: its number and the cursor. -/
def readIndexSpace (data : Bytes) : Except Fault (UInt32 × Bytes) := do
  if (← typeAt data) ≠ .array then throw .uninit
  let (tupleLen, tuple) ← mpDecodeArray data
  if tupleLen < 6 then throw .uninit
  let (number, tuple) ← mpDecodeUint tuple
  if (← typeAt tuple) ≠ .uint then throw .uninit
  return (UInt32.ofNat number, tuple)

/-- What it reads of the index: the number, the name and the cursor. -/
def readIndex (tuple : Bytes) : Except Fault (Option (UInt32 × Bytes × Bytes)) := do
  if (← typeAt tuple) ≠ .uint then return none
  let (number, tuple) ← mpDecodeUint tuple
  if (← typeAt tuple) ≠ .str then return none
  let (indexName, tuple) ← mpDecodeStr tuple
  let tuple ← mpNext tuple
  let tuple ← mpNext tuple
  let tuple ← mpNext tuple
  return some (UInt32.ofNat number, indexName, tuple)

/-- The node under a key, if there is one. -/
def findValue (table : Mhash SchemaValue) (key : Bytes) : Except Fault (Option SchemaValue) := do
  return table.node (← mhFind schemaHashed table.toBuckets key)

/-- A table of indexes. -/
def Tables.indexHash (t : Tables) (space : Nat) : IndexTable := t.indexHashes.getD space ⟨mhNew, 0⟩

/-- The nodes of an index. -/
def Tables.putIndex (t : Tables) (space : Nat) (number : UInt32) (name : Bytes) : Except Fault Tables := do
  let hash := t.indexHash space
  let table ← putValues hash.table hash.loads number name
  return { t with indexHashes := t.indexHashes.set space ⟨table, hash.loads + 1⟩ }

/-- `schema_add_index`. -/
def Tables.addIndex (t : Tables) (data : Bytes) : Except Fault (Tables × Option Bytes) := do
  let (spaceNumber, tuple) ← readIndexSpace data
  match ← findValue t.spaceHash (numberKey spaceNumber) with
  | none => return (t, none)
  | some space =>
    match ← readIndex tuple with
    | none => return (t, none)
    | some (number, name, tuple) => return (← t.putIndex space.load number name, some tuple)

/-- The loop over the rows. -/
def Tables.addRows (add : Tables → Bytes → Except Fault (Tables × Option Bytes)) :
    Nat → Tables → Bytes → Except Fault (Tables × Bool)
  | 0, t, _ => .ok (t, true)
  | n + 1, t, data => do
    match ← add t data with
    | (t, some data) => Tables.addRows add n t data
    | (t, none) => return (t, false)

/-- What both loads have in common. -/
def Tables.addTuples (add : Tables → Bytes → Except Fault (Tables × Option Bytes)) (t : Tables)
    (data : Option Bytes) (size : Nat) : Except Fault (Tables × Bool) :=
  match data with
  | none => .ok (t, false)
  | some data => do
    if (← mpCheck data (toUint32 size)).1 ≠ 0 then return (t, false)
    if (← typeAt data) ≠ .array then return (t, false)
    let (count, tuple) ← mpDecodeArray data
    Tables.addRows add count t tuple

/-- `bee_schema_add_spaces`. -/
def Tables.addSpaces (t : Tables) (data : Option Bytes) (size : Nat) : Except Fault (Tables × Bool) :=
  Tables.addTuples Tables.addSpace t data size

/-- `bee_schema_add_indexes`. -/
def Tables.addIndexes (t : Tables) (data : Option Bytes) (size : Nat) : Except Fault (Tables × Bool) :=
  Tables.addTuples Tables.addIndex t data size

/-! ## Looking up names -/

/-- `bee_schema_get_sid_by_string`. -/
def Tables.getSid (t : Tables) (spaceName : Bytes) : Except Fault Int := do
  hashable spaceName
  match ← findValue t.spaceHash spaceName with
  | none => return -1
  | some space => return toInt32 space.number

/-- `bee_schema_get_iid_by_string`. -/
def Tables.getIid (t : Tables) (sid : UInt32) (indexName : Bytes) : Except Fault Int := do
  match ← findValue t.spaceHash (numberKey sid) with
  | none => return -1
  | some space =>
    hashable indexName
    match ← findValue (t.indexHash space.load).table indexName with
    | none => return -1
    | some index => return toInt32 index.number

/-! ## Flushing -/

/-- The node under a key is deleted from a table, if there is one. -/
def takeValue (table : Mhash SchemaValue) (key : Bytes) :
    Except Fault (Mhash SchemaValue × Option SchemaValue) := do
  let slot ← mhFind schemaHashed table.toBuckets key
  match table.node slot with
  | none => return (table, none)
  | some value => return (← mhDel schemaHashed table slot, some value)

/-- The loop that `schema_space_free` and `schema_index_free` have in common: for every node those under its
number and under its name are deleted, then `free` releases what belongs to it, and these nodes. -/
def drain {σ : Type} (free : SchemaValue → List SchemaValue → σ → Except Fault σ) :
    Nat → Nat → Mhash SchemaValue → σ → Except Fault (Mhash SchemaValue × σ)
  | 0, _, _, _ => .error .fuel
  | fuel + 1, pos, table, s =>
    if pos < table.nBuckets then
      match table.node pos with
      | none => drain free fuel (pos + 1) table s
      | some value => do
        let (table, v1) ← takeValue table (numberKey value.number)
        let (table, v2) ← takeValue table value.name
        let s ← free value (v1.toList ++ v2.toList) s
        drain free fuel (pos + 1) table s
    else .ok (table, s)

/-- More steps than the loop takes, whether or not a resize ends on the way. -/
def drainFuel (table : Mhash SchemaValue) : Nat := table.nBuckets + table.shadow.nBuckets + 1

/-- `schema_index_free` of the table of a space. -/
def schemaIndexFree (space : Nat) (table : Mhash SchemaValue) (released : List Block) :
    Except Fault (List Block) := do
  let (_, released) ← drain (fun value nodes released => .ok (released ++ .indexName space value.load ::
    nodes.map fun node => .indexNode space node.load node.byName)) (drainFuel table) 0 table released
  return released

/-- `schema_space_value_free`, and the nodes of the space. -/
def schemaSpaceValueFree (t : Tables) (value : SchemaValue) (nodes : List SchemaValue)
    (released : List Block) : Except Fault (List Block) := do
  let space := value.load
  let released ← schemaIndexFree space (t.indexHash space).table (released ++ [.spaceName space])
  return released ++ .indexHash space :: nodes.map fun node => .spaceNode node.load node.byName

/-- `bee_schema_flush`, which is `schema_space_free`. -/
def Tables.flush (t : Tables) : Except Fault Tables := do
  let (spaceHash, released) ← drain (schemaSpaceValueFree t) (drainFuel t.spaceHash) 0 t.spaceHash t.released
  return { t with spaceHash := spaceHash, released := released }

end BeePhp
