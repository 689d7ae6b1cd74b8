import BeePhp.Occupancy
import BeePhp.Tables

/-!
# Flushing the schema

What `bee_schema_flush` is for: a schema without a node, and no buffer or table released twice. This file says
which schemas there are to flush, and what holds of all of them.
-/

namespace BeePhp

/-- The schemas that come of loads and flushes. -/
inductive Tables.Reached : Tables → Prop where
  | new : Reached .new
  | addSpaces {t t' : Tables} {data : Option Codec.Bytes} {size : Nat} {added : Bool} (ht : Reached t)
      (hrun : t.addSpaces data size = .ok (t', added)) : Reached t'
  | addIndexes {t t' : Tables} {data : Option Codec.Bytes} {size : Nat} {added : Bool} (ht : Reached t)
      (hrun : t.addIndexes data size = .ok (t', added)) : Reached t'
  | flush {t t' : Tables} (ht : Reached t) (hrun : t.flush = .ok t') : Reached t'

/-- A schema in which there is nothing to be found. -/
structure Tables.Empty (t : Tables) : Prop where
  nodes : ∀ v, ¬t.spaceHash.Holds v
  getSid : ∀ name, hashable name = .ok () → t.getSid name = .ok (-1)
  getIid : ∀ sid name, t.getIid sid name = .ok (-1)

/-- The flush returns and has done what it is for. -/
def Tables.Flushes (t : Tables) : Prop := ∃ t', t.flush = .ok t' ∧ t'.Empty ∧ t'.released.Nodup

/-- No table of the schema is too large. -/
def Tables.Roomy (t : Tables) : Prop := ¬t.spaceHash.Huge ∧ ∀ hash ∈ t.indexHashes, ¬hash.table.Huge

/-! ## The invariant -/

/-- The nodes come from the first `n` loads, and those of one load are alike. -/
structure FromLoads (holds : SchemaValue → Prop) (n : Nat) : Prop where
  load_lt : ∀ v, holds v → v.load < n
  twins : ∀ v w, holds v → holds w → v.load = w.load → v.name = w.name ∧ v.number = w.number

/-- The space to which a block belongs. -/
def Block.space : Block → Nat
  | .spaceNode space _ | .spaceName space | .indexHash space | .indexNode space _ _ | .indexName space _ => space

/-- The blocks that belong to an index of a space. -/
def Block.ofIndex (space : Nat) : Block → Prop
  | .indexNode space' _ _ | .indexName space' _ => space' = space
  | _ => False

/-- The blocks that belong to a space, but for its two nodes. -/
def Block.ofSpace (space : Nat) : Block → Prop
  | .spaceNode _ _ => False
  | b => b.space = space

/-- Nothing has been released twice, and of the space of a node that is there at most its other node. -/
structure Unreleased (holds : SchemaValue → Prop) (released : List Block) : Prop where
  nodup : released.Nodup
  other : ∀ v, holds v → ∀ b ∈ released, b.space = v.load → b = .spaceNode v.load (!v.byName)

/-- What is released for a row: blocks that belong to its load, and the nodes that were taken out for it. -/
structure Frees (holds : SchemaValue → Prop)
    (free : SchemaValue → List SchemaValue → List Block → Except Fault (List Block))
    (owns : Nat → Block → Prop) (node : SchemaValue → Block) : Prop where
  run : ∀ {value}, holds value → ∀ nodes released, ∃ own,
    free value nodes released = .ok (released ++ (own ++ nodes.map node)) ∧ own.Nodup ∧
      ∀ b ∈ own, owns value.load b
  load_eq : ∀ {load load' b}, owns load b → owns load' b → load = load'
  node_ne : ∀ {load v}, ¬owns load (node v)
  node_inj : ∀ {v w}, node v = node w → v.load = w.load ∧ v.byName = w.byName

/-- What the loop has released: `new`, all of it from nodes that were there and nothing that belongs to those
that are left. -/
structure Releases (before after : SchemaValue → Prop) (owns : Nat → Block → Prop) (node : SchemaValue → Block)
    (new : List Block) : Prop where
  left : ∀ v, after v → before v
  nodup : new.Nodup
  source : ∀ b ∈ new, ∃ v, before v ∧ (owns v.load b ∨ b = node v)
  spared : ∀ v, after v → ∀ b ∈ new, ¬owns v.load b ∧ b ≠ node v

/-- The tables of the schema. -/
structure Tables.Good (t : Tables) : Prop where
  spaces : t.spaceHash.Ok schemaHashed
  fromLoads : FromLoads t.spaceHash.Holds t.indexHashes.length
  indexes : ∀ hash ∈ t.indexHashes, hash.table.Ok schemaHashed ∧ FromLoads hash.table.Holds hash.loads
  unreleased : Unreleased t.spaceHash.Holds t.released
  space_lt : ∀ b ∈ t.released, b.space < t.indexHashes.length

/-- Nodes have been taken out of a table. -/
structure Taken (table table' : Mhash SchemaValue) (nodes : List SchemaValue) : Prop where
  ok : table'.Ok schemaHashed
  holds : ∀ w, table'.Holds w ↔ table.Holds w ∧ w ∉ nodes
  held : ∀ w ∈ nodes, table.Holds w
  nodup : nodes.Nodup
  extent : table'.extent ≤ table.extent
  steady : table.Steady → table'.Steady ∧ ∀ i w, table'.node i = some w → table.node i = some w

/-- What the loads and flushes keep. -/
def Tables.Sane (t : Tables) : Prop := ¬t.Roomy ∨ t.Good

end BeePhp
