import BeePhp.Catalogue
import BeePhp.Connection
import BeePhp.Parsers

/-!
# Responses to an authentication

The batch of `__bee_authenticate` asks for three responses: to the authentication, with the spaces, and
with the indexes. This file says what the server sends (`AuthReplies`, `ServerCatalogue`), and what is to
come of it (`Authenticates`, `LoadsSchema`).
-/

namespace BeePhp

open Codec

/-! ## Responses -/

/-- An OK response: two maps whose keys have their bits in the bitmap, numbers in the header, no error,
and an array for the data. -/
structure OkReply where
  headWidth : SeqWidth
  header : List Entry
  bodyWidth : SeqWidth
  body : List Entry
  sync : UInt32
  header_wf : (Doc.map headWidth (entryDocs header)).WF
  body_wf : (Doc.map bodyWidth (entryDocs body)).WF
  header_distinct : (header.map Entry.key).Nodup
  body_distinct : (body.map Entry.key).Nodup
  header_keys : ∀ f ∈ header, f.key < 64
  body_keys : ∀ f ∈ body, f.key < 64
  numbers : ∀ f ∈ header, ∃ w n, f.value = .uint w n
  code_entry : ∃ w, valueAt beexCode.toNat header = some (.uint w 0)
  sync_entry : ∃ w, valueAt beexSync.toNat header = some (.uint w sync.toNat)
  no_error : valueAt beexError.toNat body = none
  data_array : ∀ d, valueAt beexData.toNat body = some d → ∃ w ds, d = .array w ds
  framed : ((Doc.map headWidth (entryDocs header)).encode ++
    (Doc.map bodyWidth (entryDocs body)).encode).length < 2 ^ 32

def OkReply.payload (r : OkReply) : Bytes :=
  (Doc.map r.headWidth (entryDocs r.header)).encode ++ (Doc.map r.bodyWidth (entryDocs r.body)).encode

/-- The requests of the batch. -/
inductive AuthPart where
  | auth
  | space
  | index
  deriving DecidableEq, Repr

/-- The responses to the batch. -/
structure AuthReplies where
  auth : OkReply
  space : OkReply
  index : OkReply
  spaceWidth : SeqWidth
  spaces : List SpaceRow
  indexWidth : SeqWidth
  indexes : List IndexRow
  space_data : valueAt beexData.toNat space.body = some (.array spaceWidth (spaces.map SpaceRow.doc))
  index_data : valueAt beexData.toNat index.body = some (.array indexWidth (indexes.map IndexRow.doc))

def AuthReplies.reply (r : AuthReplies) : AuthPart → OkReply
  | .auth => r.auth
  | .space => r.space
  | .index => r.index

/-- The responses in the order in which they arrive. -/
def AuthReplies.frames (r : AuthReplies) (order : List AuthPart) : Bytes :=
  (order.map fun part => frame (r.reply part).payload).flatten

/-- Every response carries the sync of its request. -/
structure AuthReplies.Answers (r : AuthReplies) (syncs : AuthSyncs) : Prop where
  auth : r.auth.sync = syncs.auth
  space : r.space.sync = syncs.space
  index : r.index.sync = syncs.index

/-- The batch is sent in the state `w`, with these syncs and up to the state `w'`. -/
def BatchSent (P : Platform) (w : World) (syncs : AuthSyncs) (w' : World) : Prop :=
  ∃ composed, composeTp (authRequests P)
      { w with obj := { w.obj with schema := beeSchemaFlush w.obj.schema } } = .ok (syncs, composed) ∧
    beeStreamSend false composed = .ok (true, w')

/-- These bytes have arrived, then others, and the reads do not stop short. -/
def World.Arrived (w : World) (bytes rest : Bytes) : Prop :=
  w.net.Prompt .other ∧ ∃ stream : Stream, w.obj.stream = some { stream with inbox := bytes ++ rest }

/-! ## Any order -/

/-- Two caches give the same answers. -/
structure Schema.SameAnswers (a b : Schema) : Prop where
  sid : ∀ name, beeSchemaGetSidByString a name = beeSchemaGetSidByString b name
  iid : ∀ sid name, beeSchemaGetIidByString a sid name = beeSchemaGetIidByString b sid name

/-- In the state `w` the authentication returns `SUCCESS`, leaves no more than the bytes `rest` in the
stream, and fills the cache as the operations do. -/
def Authenticates (P : Platform) (w : World) (rest : Bytes) (ops : List SchemaOp) : Prop :=
  ∃ (w' : World) (stream : Stream) (schema : Schema), beeAuthenticate P w = .ok (true, w') ∧
    w'.obj.stream = some { stream with inbox := rest } ∧ runSchema ops = .ok schema ∧
    w'.obj.schema.SameAnswers schema

/-- Loading the spaces, then the indexes. -/
def AuthReplies.ops (r : AuthReplies) : List SchemaOp :=
  [.addSpaces r.spaceWidth r.spaces, .addIndexes r.indexWidth r.indexes]

/-- Every row of the index list refers to a space of the space list. -/
def AuthReplies.Refers (r : AuthReplies) : Prop :=
  ∀ i ∈ r.indexes, ∃ s ∈ r.spaces, s.id = i.spaceId

/-- An `int` holds the length of every response. -/
def AuthReplies.Short (r : AuthReplies) : Prop :=
  ∀ part, (r.reply part).payload.length < 2 ^ 31

/-! ## Any catalogue -/

/-- What the server has, in the order of the primary keys. -/
structure ServerCatalogue where
  spaces : List SpaceRow
  indexes : List IndexRow
  spaces_sorted : spaces.Pairwise fun r s => r.id < s.id
  indexes_sorted : indexes.Pairwise fun i j =>
    i.spaceId < j.spaceId ∨ i.spaceId = j.spaceId ∧ i.id < j.id
  belongs : ∀ i ∈ indexes, ∃ s ∈ spaces, s.id = i.spaceId

/-- The responses list the catalogue up to the limit of the requests. -/
structure AuthReplies.Lists (r : AuthReplies) (c : ServerCatalogue) : Prop where
  spaces : r.spaces = c.spaces.take 4096
  indexes : r.indexes = c.indexes.take 4096

/-- In the state `w` the authentication returns `SUCCESS`, and then every one of these indexes is found
by its name. -/
def LoadsSchema (P : Platform) (w : World) (indexes : List IndexRow) : Prop :=
  ∃ w', beeAuthenticate P w = .ok (true, w') ∧
    ∀ i ∈ indexes, beeSchemaGetIidByString w'.obj.schema i.space i.name = i.id

/-- The rows of indexes that go into a table of indexes when the spaces are loaded, the latest first. -/
def History.tableRows (h : History) (rows : List IndexRow) (table : Nat) : List (Bytes × UInt32) :=
  ((rows.filter fun i =>
    decide ((h.slot (numberKey i.space)).map SpaceValue.indexHash = some table)).map fun i =>
      (i.name, i.number)).reverse

/-- Every row of indexes finds a space, and no later row of the same table has its name or, as the bytes
of its number, the name, unless it has the same number too. -/
def History.Finds (h : History) (rows : List IndexRow) : Prop :=
  ∀ i ∈ rows, ∃ space, h.slot (numberKey i.space) = some space ∧
    keyed i.name (h.tableRows rows space.indexHash) = some i.number

end BeePhp
