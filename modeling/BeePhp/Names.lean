import BeePhp.Authentication

/-!
# Lookups of index names

What the server answers to the lookup of an index (`IndexAnswered`), and what the cache has to hold for
the answer to be of use (`Schema.Files`).
-/

namespace BeePhp

open Codec (Bytes Doc)

/-- The response gives the row of an index and no other. -/
def OkReply.Gives (r : OkReply) (row : IndexRow) : Prop :=
  ∃ w, valueAt beexData.toNat r.body = some (.array w [row.doc])

/-- The request for an index goes out in the state `w`, up to the state `w'`. -/
def LookupSent (P : Platform) (w : World) (row : IndexRow) (w' : World) : Prop :=
  ∃ composed, composeTp (indexRequest P row.spaceId row.name) w = .ok ((), composed) ∧
    beeStreamSend false composed = .ok (true, w')

/-- What the cache finds for the name of an index in its space, or -1. -/
def Schema.iidOf (schema : Schema) (row : IndexRow) : Int :=
  beeSchemaGetIidByString schema row.space row.name

/-- If the cache does not have the index, the request for it goes out and the response that comes first is
`reply`. -/
def IndexAnswered (P : Platform) (w : World) (row : IndexRow) (reply : OkReply) : Prop :=
  w.obj.schema.iidOf row = -1 →
    ∃ w' rest, LookupSent P w row w' ∧ w'.Arrived (frame reply.payload) rest

/-- `get_indexno_by_name` returns the number of the index for its name. -/
def IndexResolved (P : Platform) (w : World) (row : IndexRow) (name : ZStr) : Prop :=
  ∃ w', getIndexnoByName P row.spaceId (.str name) w = .ok ((row.id : Int), w')

/-- The number of the space has a node, in whose table the name stands for no other index; and an `int`
holds the length of the response if there is one. -/
structure Schema.Files (schema : Schema) (row : IndexRow) (reply : OkReply) : Prop where
  node : (schema.spaceHash.lookup (numberKey row.space)).isSome
  name : schema.iidOf row = -1 ∨ schema.iidOf row = row.id
  short : schema.iidOf row = -1 → reply.payload.length < 2 ^ 31

/-- A cache as calls of the loaders leave it, from the empty one on and with whatever data. -/
inductive Schema.Loaded : Schema → Prop
  | empty : Schema.Loaded .empty
  | spaces {schema schema' : Schema} {data : Option Bytes} {size : Nat} {ok : Bool} : schema.Loaded →
    beeSchemaAddSpaces schema data size = .ok (schema', ok) → Schema.Loaded schema'
  | indexes {schema schema' : Schema} {data : Option Bytes} {size : Nat} {ok : Bool} : schema.Loaded →
    beeSchemaAddIndexes schema data size = .ok (schema', ok) → Schema.Loaded schema'

/-- Every node has a table of indexes and is also found under the number of its space. -/
def Schema.Linked (schema : Schema) : Prop :=
  ∀ k space, schema.spaceHash.lookup k = some space → space.indexHash < schema.indexHashes.length ∧
    (schema.spaceHash.lookup (numberKey space.spaceNumber)).isSome

end BeePhp
