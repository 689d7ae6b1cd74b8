import BeePhp.Received
import BeePhp.Response

/-!
# The two parsers of responses

`bee_step_recv` decodes a response into PHP values and goes by its code, `php_tp_response` walks over
its bytes and goes by the presence of an error text. What each of them makes of a response is its
`Verdict`; `MapResponse.Alike` is what decides whether the two are the same.
-/

namespace BeePhp

open Codec

/-! ## Responses -/

/-- An entry of a map with an unsigned key. -/
structure Entry where
  width : IntWidth
  key : Nat
  value : Doc

/-- The items of a map with the given entries. -/
def entryDocs (fs : List Entry) : List Doc :=
  flatten (fs.map fun f => (.uint f.width f.key, f.value))

/-- The value of the entry with a key. -/
def valueAt (k : Nat) : List Entry → Option Doc
  | [] => none
  | f :: fs => if f.key = k then some f.value else valueAt k fs

/-- The value of the last entry whose key has these low 32 bits. -/
def valueAt32 (k : Nat) : List Entry → Option Doc
  | [] => none
  | f :: fs => (valueAt32 k fs).or (if f.key % 2 ^ 32 = k then some f.value else none)

/-- A response whose header and body are maps with distinct unsigned keys, with a code and a sync, and
with a body that can be represented. -/
structure MapResponse where
  headWidth : SeqWidth
  header : List Entry
  bodyWidth : SeqWidth
  body : List Entry
  code : Nat
  sync : Nat
  header_wf : (Doc.map headWidth (entryDocs header)).WF
  body_wf : (Doc.map bodyWidth (entryDocs body)).WF
  header_distinct : (header.map Entry.key).Nodup
  body_distinct : (body.map Entry.key).Nodup
  code_entry : ∃ w, valueAt beexCode.toNat header = some (.uint w code)
  sync_entry : ∃ w, valueAt beexSync.toNat header = some (.uint w sync)
  body_representable : Representable (.map bodyWidth (entryDocs body))

def MapResponse.headerDoc (r : MapResponse) : Doc := .map r.headWidth (entryDocs r.header)

def MapResponse.bodyDoc (r : MapResponse) : Doc := .map r.bodyWidth (entryDocs r.body)

def MapResponse.payload (r : MapResponse) : Bytes := r.headerDoc.encode ++ r.bodyDoc.encode

/-! ## Verdicts -/

/-- A success with what is under the key of the data, or an error code. -/
inductive Verdict where
  | data (value : Option PVal)
  | error (code : Int)

/-- The format of the exception for an error of the server. -/
def queryErrorFormat : String := "Query error %d: %s"

/-- The verdict of `bee_step_recv` when it is called in the state `w`. The code of an error is that of
the exception it throws. -/
def recvVerdict (w : World) (result : Option (PVal × PVal) × World) : Option Verdict :=
  match result with
  | (some (_, .arr entries _), _) => some (.data (indexFind entries beexData))
  | (some _, _) => none
  | (none, w') =>
    match w'.exceptions.drop w.exceptions.length with
    | [⟨format, [.d code, .s _]⟩] => if format = queryErrorFormat then some (.error code) else none
    | _ => none

/-- The verdict of `php_tp_response`. A shift by more bits than there are leaves none. -/
def responseVerdict (ndebug : Bool) (result : BeexResponse × Option Bytes) : Option Verdict :=
  match result with
  | (_, none) => none
  | (r, some _) =>
    if r.wideShift then none
    else if r.error.isSome then some (.error r.code.toNat)
    else match r.data with
      | none => some (.data none)
      | some data =>
        match phpMpUnpack ndebug data with
        | .ok (value, _) => some (.data (some value))
        | .error _ => none

/-- Called in the state `w`, `bee_step_recv` comes to the same verdict as `php_tp_response` on the bytes
`buf`. -/
def ParsersAgree (P : Platform) (sync : UInt64) (w : World) (buf : Bytes) : Prop :=
  ∃ recv response verdict, beeStepRecv P sync w = .ok recv ∧ phpTpResponse buf = .ok response ∧
    recvVerdict w recv = some verdict ∧ responseVerdict P.ndebug response = some verdict

/-! ## When they agree -/

/-- The entries are what `php_tp_response` takes them for: every value of the header is an unsigned
number, the error is a string, the data are an array, and no key is above 63. -/
structure MapResponse.Typed (r : MapResponse) : Prop where
  numbers : ∀ f ∈ r.header, ∃ w n, f.value = .uint w n
  header_keys : ∀ f ∈ r.header, f.key % 2 ^ 32 < 64
  body_keys : ∀ f ∈ r.body, f.key % 2 ^ 32 < 64
  error : ∀ f ∈ r.body, f.key % 2 ^ 32 = beexError.toNat → ∃ w s, f.value = .str w s
  data : ∀ f ∈ r.body, f.key % 2 ^ 32 = beexData.toNat → ∃ w ds, f.value = .array w ds

/-- Moreover no key of a map in the body is a bin, an error text comes with every code but 0 and with no other,
and cutting the keys to 32 bits changes neither the code nor the data. -/
structure MapResponse.Alike (r : MapResponse) (ndebug : Bool) : Prop extends r.Typed where
  plain : Plain r.bodyDoc
  signed : ndebug = true ∨ SignedNegative r.bodyDoc
  ok : r.code = 0 → valueAt32 beexError.toNat r.body = none ∧
    ∀ d, valueAt32 beexData.toNat r.body = some d →
      ∃ d', valueAt beexData.toNat r.body = some d' ∧ docToPhp ndebug d' = docToPhp ndebug d
  refused : r.code ≠ 0 → (valueAt beexError.toNat r.body).isSome ∧
    ∀ w n, valueAt32 beexCode.toNat r.header = some (.uint w n) → n % 2 ^ 15 = r.code % 2 ^ 15

end BeePhp
