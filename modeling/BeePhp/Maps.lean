import BeePhp.Catalogue
import BeePhp.Flushed

/-!
# The tables as maps

The schema over maps from keys to nodes against the schema over the tables of mhash.h. What a load does and a
lookup answers is the same; a flush does the same unless a resize ends meanwhile.
-/

namespace BeePhp

open Codec (Bytes)

/-! ## Calls -/

/-- The calls that change a schema. -/
inductive SchemaCall where
  | addSpaces (data : Option Bytes) (size : Nat)
  | addIndexes (data : Option Bytes) (size : Nat)
  | flush

/-- A call on the tables, and whether it succeeds. -/
def SchemaCall.run (t : Tables) : SchemaCall → Except Fault (Tables × Bool)
  | .addSpaces data size => t.addSpaces data size
  | .addIndexes data size => t.addIndexes data size
  | .flush => do return (← t.flush, true)

/-- The call on the maps. -/
def SchemaCall.runMap (s : Schema) : SchemaCall → Except Fault (Schema × Bool)
  | .addSpaces data size => beeSchemaAddSpaces s data size
  | .addIndexes data size => beeSchemaAddIndexes s data size
  | .flush => .ok (beeSchemaFlush s, true)

/-- Calls one after the other, with what each of them returns. -/
def runSchemaCalls {σ : Type} (run : σ → SchemaCall → Except Fault (σ × Bool)) :
    List SchemaCall → σ → Except Fault (σ × List Bool)
  | [], s => .ok (s, [])
  | c :: cs, s => do
    let r ← run s c
    let rs ← runSchemaCalls run cs r.1
    return (rs.1, r.2 :: rs.2)

/-- Whenever the schema is flushed, the table of spaces is steady. -/
def Steadily : List SchemaCall → Tables → Prop
  | [], _ => True
  | c :: cs, t => (c = .flush → t.spaceHash.Steady) ∧ ∀ r, c.run t = .ok r → Steadily cs r.1

/-! ## What the tables stand for -/

/-- A map stands for the nodes of a table, each under its key. -/
def Keyed {α : Type} (map : List (Bytes × α)) (holds : SchemaValue → Prop) (stands : SchemaValue → α → Prop) :
    Prop :=
  ∀ key a, map.lookup key = some a ↔ ∃ v, holds v ∧ v.key = key ∧ stands v a

/-- The maps hold what the tables hold. Spaces that were loaded before the last flush are not among those
of the maps: there are `base` of them. -/
structure Tables.Maps (t : Tables) (s : Schema) (base : Nat) : Prop where
  count : t.indexHashes.length = base + s.indexHashes.length
  base_le : ∀ v, t.spaceHash.Holds v → base ≤ v.load
  spaces : Keyed s.spaceHash t.spaceHash.Holds fun v value =>
    v.number = value.spaceNumber ∧ v.load = base + value.indexHash
  indexes : ∀ i < s.indexHashes.length,
    Keyed (s.indexHashes.getD i []) (t.indexHash (base + i)).table.Holds fun v number => v.number = number

/-- The tables are sound and the maps stand for them. -/
def Tables.Follows (base : Nat) (t : Tables) (s : Schema) : Prop := t.Good ∧ t.Maps s base

/-- Every name is looked up with the same answer. -/
structure Tables.Answers (t : Tables) (s : Schema) : Prop where
  getSid : ∀ name, hashable name = .ok () → t.getSid name = .ok (beeSchemaGetSidByString s name)
  getIid : ∀ sid name, hashable name = .ok () → t.getIid sid name = .ok (beeSchemaGetIidByString s sid name)

end BeePhp
