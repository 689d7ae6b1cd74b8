import BeePhp.AuthRequest
import BeePhp.TpCalls

/-!
# What the calls of tp.h compose

The writer of tp.h goes back to the length of a request whenever it adds to it, and to its sync. Seen from
outside it composes a list of requests (`TpCall.compose`): `tp_select` and `tp_auth` begin one, and the other
calls change the latest. Those that bee.c composes are given as documents (`RequestDoc`).
-/

namespace BeePhp

open Codec

/-- A request: its type, its sync, and the bytes of its body. -/
structure TpRequest where
  type : Nat
  sync : UInt32
  body : Bytes
  deriving DecidableEq, Repr

/-- The header up to the sync. -/
def requestHead (type : Nat) : Bytes :=
  mpEncodeMap 2 ++ mpEncodeUint tpCode ++ mpEncodeUint type ++ mpEncodeUint tpSync

def TpRequest.payload (r : TpRequest) : Bytes := requestHead r.type ++ 0xce :: toBE 4 r.sync.toNat ++ r.body

/-- The frames of requests, of which the latest is the first. -/
def requestFrames (rs : List TpRequest) : Bytes := (rs.reverse.map fun r => frame r.payload).flatten

/-- The body that `tp_select` begins. -/
def selectBody (space index offset limit : Nat) : Bytes :=
  mpEncodeMap 5 ++ mpEncodeUint tpSpace ++ mpEncodeUint space ++ mpEncodeUint tpIndex ++ mpEncodeUint index ++
    mpEncodeUint tpOffset ++ mpEncodeUint offset ++ mpEncodeUint tpLimit ++ mpEncodeUint limit ++
    mpEncodeUint tpKeyField

/-- Bytes added to the latest request, if there is one. -/
def addToLatest (bs : Bytes) : List TpRequest → Option (List TpRequest)
  | [] => none
  | r :: rs => some ({ r with body := r.body ++ bs } :: rs)

/-- The requests after a call, the latest first. -/
def TpCall.compose (P : Platform) : TpCall → List TpRequest → Option (List TpRequest)
  | .select space index offset limit, rs => some (⟨tpSelectType, 0, selectBody space index offset limit⟩ :: rs)
  | .auth salt user pass, rs => some (⟨tpAuthType, 0, authBody P.scramble salt user pass⟩ :: rs)
  | .key partCount, rs => addToLatest (mpEncodeArray partCount) rs
  | .encodeUint num, rs => addToLatest (mpEncodeUint num) rs
  | .encodeStr str, rs => addToLatest (mpEncodeStr str (toUint32 str.length)) rs
  | .reqid id, r :: rs => some ({ r with sync := id } :: rs)
  | .reqid _, [] => none

/-- The requests after calls. -/
def composeCalls (P : Platform) (cs : List TpCall) (rs : List TpRequest) : Option (List TpRequest) :=
  cs.foldlM (fun rs c => c.compose P rs) rs

/-- The frames of these requests have been written, and `size` and `sync` point into the latest. -/
structure TpState.Composed (s : TpState) (rs : List TpRequest) : Prop where
  memory : ∃ more, s.str.c = requestFrames rs ++ more
  p : s.tp.p = (requestFrames rs).length
  size : s.tp.size = rs.head?.map fun _ => (requestFrames rs.tail).length
  sync : s.tp.sync = rs.head?.map fun r => (requestFrames rs.tail).length + 5 + (requestHead r.type).length

/-! ## The requests of bee.c -/

/-- A request as documents. -/
structure RequestDoc where
  type : Nat
  sync : UInt32
  body : Doc

def RequestDoc.header (r : RequestDoc) : Doc :=
  .ofPairs [(.ofNat tpCode, .ofNat r.type), (.ofNat tpSync, .uint .w32 r.sync.toNat)]

def RequestDoc.payload (r : RequestDoc) : Bytes := r.header.encode ++ r.body.encode

/-- The body of a select. -/
def selectDoc (space index offset limit : Nat) (key : List Doc) : Doc :=
  .ofPairs [(.ofNat tpSpace, .ofNat space), (.ofNat tpIndex, .ofNat index), (.ofNat tpOffset, .ofNat offset),
    (.ofNat tpLimit, .ofNat limit), (.ofNat tpKeyField, .ofList key)]

/-- The request for the rows of a space of the catalogue. -/
def listDoc (space : Nat) (sync : UInt32) : RequestDoc := ⟨tpSelectType, sync, selectDoc space 0 0 4096 []⟩

/-- The request of `get_spaceno_by_name`. -/
def spaceDoc (name : Bytes) (sync : UInt32) : RequestDoc :=
  ⟨tpSelectType, sync, selectDoc spaceSpace indexSpaceName 0 4096 [.ofStr name]⟩

/-- The request of `get_indexno_by_name`. -/
def indexDoc (spaceNo : Nat) (name : Bytes) (sync : UInt32) : RequestDoc :=
  ⟨tpSelectType, sync, selectDoc spaceIndex indexIndexName 0 4096 [.ofNat spaceNo, .ofStr name]⟩

/-- The request of an authentication. -/
def authDoc (body : Doc) (sync : UInt32) : RequestDoc := ⟨tpAuthType, sync, body⟩

/-- The requests of an authentication when the counter is `n`. -/
def authBatch (body : Doc) (n : Int64) : List RequestDoc :=
  [authDoc body (longToUint32 n), listDoc spaceSpace (longToUint32 (n + 1)),
    listDoc spaceIndex (longToUint32 (n + 1 + 1))]

/-- The frames of requests. -/
def docFrames (rs : List RequestDoc) : Bytes := (rs.map fun r => frame r.payload).flatten

end BeePhp
