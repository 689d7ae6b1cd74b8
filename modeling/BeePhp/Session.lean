import BeePhp.Header
import BeePhp.Runs

/-!
# Sessions

A session is a row of method calls on an open connection whose server answers every request while the method
runs. The methods are given numbers, or names that the schema knows, so that nothing has to be looked up
(`Op.direct`).
-/

namespace BeePhp

open Codec

/-! ## Methods that need no lookup -/

/-- A number that does not pass for a failure. -/
def knownNumber (no : Int) : Option Int := if no = -1 then none else some no

/-- The number of a space or of an index that needs no lookup. -/
def Zval.known (find : Bytes → Int) : Zval → Option Int
  | .long n => knownNumber (toInt n.toInt)
  | .str name => knownNumber (find name.val)
  | _ => none

def spaceKnown (schema : Schema) (space : Zval) : Option Int := space.known (beeSchemaGetSidByString schema)

def indexKnown (schema : Schema) (spaceNo : Int) : Option Zval → Option Int
  | none | some .null => some 0
  | some index => index.known (beeSchemaGetIidByString schema (UInt32.ofNat (toSize spaceNo)))

def limitKnown : Option Zval → Option Int64
  | none | some .null => some 0x7ffffffffffffffe
  | some (.long limit) => some limit
  | some _ => none

def iteratorKnown (iterator : Option Zval) (all : Bool) : Option Int :=
  match iterator with
  | none | some .null => some (if all then iteratorAll else iteratorEq)
  | some (.str i) => (iteratorNames.find? fun p => ascii p.1 = i.val.map toUpper).map Prod.snd
  | some (.long n) => knownNumber (toInt n.toInt)
  | some _ => none

/-- The request of a method that needs no lookup, and the arrays that it refers to. -/
def Op.direct (schema : Schema) (H : Heap) : Op → Option (Heap × Request)
  | .ping => some ([], .ping)
  | .select space key index zlimit offset iterator => do
    let limit ← limitKnown zlimit
    let spaceNo ← spaceKnown schema space
    let indexNo ← indexKnown schema spaceNo index
    let iteratorId ← iteratorKnown iterator (isIteratorAll H key)
    let (H, keyNew) ← (packKey H key true).toOption
    return (H, .select (intToUint32 spaceNo) (intToUint32 indexNo) (longToUint32 limit) (longToUint32 offset)
      (intToUint32 iteratorId) keyNew)
  | .insert space tuple => do
    let spaceNo ← spaceKnown schema space
    return (H, .insertOrReplace (intToUint32 spaceNo) (.arr tuple) beexInsert)
  | .replace space tuple => do
    let spaceNo ← spaceKnown schema space
    return (H, .insertOrReplace (intToUint32 spaceNo) (.arr tuple) beexReplace)
  | .delete space key index => do
    let spaceNo ← spaceKnown schema space
    let indexNo ← indexKnown schema spaceNo index
    let (H, keyNew) ← (packKey H (some key) false).toOption
    return (H, .delete (intToUint32 spaceNo) (intToUint32 indexNo) keyNew)
  | .call proc tuple => do
    let (H, tupleNew) ← (packKey H tuple true).toOption
    return (H, .call proc.val tupleNew)
  | .eval proc tuple => do
    let (H, tupleNew) ← (packKey H tuple true).toOption
    return (H, .eval proc.val tupleNew)
  | .update space key args index => do
    let spaceNo ← spaceKnown schema space
    let indexNo ← indexKnown schema spaceNo index
    let (H, args) ← (beeUpdateVerifyArgs H (.arr args)).toOption
    let (H, keyNew) ← (packKey H (some key) false).toOption
    return (H, .update (intToUint32 spaceNo) (intToUint32 indexNo) keyNew args)
  | .upsert space tuple args => do
    let spaceNo ← spaceKnown schema space
    let (H, args) ← (beeUpdateVerifyArgs H (.arr args)).toOption
    return (H, .upsert (intToUint32 spaceNo) (.arr tuple) args)
  | _ => none

/-- The field `DATA` of a body. -/
def PVal.data : PVal → Option PVal
  | .arr entries _ => indexFind entries beexData
  | _ => none

/-- What a method returns when this is the body of the response. -/
def Op.answer (body : PVal) : Op → Option PVal
  | .ping => some (.bool true)
  | _ => body.data.map PVal.copyCtor

/-! ## Sessions -/

/-- The stream is open, nothing is underway on it, and the buffer is empty. -/
structure World.Ready (w : World) : Prop where
  stream : ∃ stream, w.obj.stream = some stream ∧ stream.inbox = [] ∧ stream.pending = []
  empty : w.obj.value.len = 0

/-- The stream is found open, the send gets through, and no read stops short. -/
structure Net.Obliging (net : Net) : Prop where
  alive : ∀ eof ∈ net.eofs.head?, eof = false
  sends : ∀ n, net.writes.head? ≠ some (.failed n)
  length : net.Prompt .length
  other : net.Prompt .other

/-- The server answers with an OK response that has the sync of the request and this body. -/
def Answers (P : Platform) (net : Net) (sync : UInt32) (body : PVal) : Prop :=
  ∃ sw ps d h later, OkResponse sync.toNat sw ps d ∧
    net.replies = frame ((Doc.map sw (flatten ps)).encode ++ d.encode) :: later ∧
    docToPhp P.ndebug (.map sw (flatten ps)) = .ok h ∧ docToPhp P.ndebug d = .ok body

/-- From the value `n` of the counter on the server answers the methods. These are their requests, as they are sent,
and what the methods return. -/
inductive Session (P : Platform) (schema : Schema) : Nat → List Step → List (Bytes × PVal) → Prop
  | nil {n : Nat} : Session P schema n [] []
  | cons {n : Nat} {s : Step} {H : Heap} {r : Request} {body v : PVal} {steps : List Step}
    {calls : List (Bytes × PVal)} :
    s.op.direct schema s.heap = some (H, r) → (r.payload H (UInt32.ofNat n)).length < 2 ^ 32 → s.net.Obliging →
    Answers P s.net (UInt32.ofNat n) body → s.op.answer body = some v → Session P schema (n + 1) steps calls →
    Session P schema n (s :: steps) ((frame (r.payload H (UInt32.ofNat n)), v) :: calls)

end BeePhp
