import BeePhp.Header
import BeePhp.Recv

/-!
# Received responses

What `bee_step_recv` is for: to take a response off the stream (`Receives`) and to hand out the values
of its header and body (`ReceivesOk`), which stand in the payload (`LiesIn`), if the response is that to
the request with a given sync (`requestSync`).
-/

namespace BeePhp

open Codec

/-- The header says that the request with the given sync succeeded, as far as `bee_step_recv` looks. -/
structure Accepts (P : Platform) (sync : UInt64) (header : List (Key × PVal)) : Prop where
  sync : ∀ val, indexFind header beexSync = some val → (zLval P val).toUInt64 = sync
  code : ∃ val, indexFind header beexCode = some val ∧ zLval P val = 0

/-- The sync in the header of a request, which stands behind the length of the request. -/
def requestSync (bytes : Bytes) : Option Int64 :=
  match phpMpUnpack true (bytes.drop 5) with
  | .ok (.arr header _, _) =>
    match indexFind header beexSync with
    | some (.long sync) => some sync
    | _ => none
  | _ => none

/-- `bee_step_recv` returns `SUCCESS` with the values of the header and the body, with `rest` ahead in
the stream, which stays open, and with the buffer empty. -/
def ReceivesOk (P : Platform) (sync : UInt64) (w : World) (header body : Doc) (stream : Stream)
    (rest : Bytes) : Prop :=
  ∃ h b w', beeStepRecv P sync w = .ok (some (h, b), w') ∧ docToPhp true header = .ok h ∧
    docToPhp true body = .ok b ∧ w'.obj.stream = some { stream with inbox := rest } ∧
    w'.obj.value.len = 0

/-- `bee_step_recv` reads a length that the validator accepts, and then a payload of that many bytes:
`w'` is the state when they are in the buffer. -/
def Receives (check : Bytes → Nat → Except Fault Nat) (w : World) (payload : Bytes) (w' : World) :
    Prop :=
  ∃ packLen w₁ rest, ∃ stream : Stream, readLength .length w = .ok ((5, packLen), w₁) ∧
    check packLen 5 = .ok 0 ∧ phpMpUnpackPackageSize packLen = .ok payload.length ∧
    w₁.obj.stream = some { stream with inbox := payload ++ rest } ∧
    readBody payload.length w₁ = .ok (payload.length, w')

/-- The bytes behind a payload of `n` bytes in the buffer. -/
def SmartString.behind (s : SmartString) (n : Nat) : Bytes := (s.ensure n).c.drop n

/-- The validator accepts the bytes in front of a bound exactly when they begin with a document. -/
def ExactValidator (check : Bytes → Nat → Except Fault Nat) : Prop :=
  ∀ b n, check b n = .ok 0 ↔ ∃ (d : Doc) (rest : Bytes), d.WF ∧ b.take n = d.encode ++ rest

/-- The values are those of two documents at the front of the payload. -/
def LiesIn (ndebug : Bool) (payload : Bytes) (h b : PVal) : Prop :=
  ∃ (header body : Doc) (more : Bytes), header.WF ∧ body.WF ∧
    payload = header.encode ++ (body.encode ++ more) ∧
    docToPhp ndebug header = .ok h ∧ docToPhp ndebug body = .ok b

/-- Every response that `bee_step_recv` returns lies in the payload it has read. -/
def LiesInside (check : Bytes → Nat → Except Fault Nat) (P : Platform) (sync : UInt64) (w : World)
    (payload : Bytes) : Prop :=
  ∀ h b w', beeStepRecvWith check P sync w = .ok (some (h, b), w') → LiesIn P.ndebug payload h b

/-- The bytes `left` behind the payload in the buffer complete it to a header and a body that reach
beyond it, neither of them longer than the validator lets through, with an OK header. -/
def Completed (check : Bytes → Nat → Except Fault Nat) (P : Platform) (sync : UInt64)
    (payload left : Bytes) : Prop :=
  ∃ (header body : Doc) (more : Bytes) (entries : List (Key × PVal)) (next : UInt64),
    header.WF ∧ Decodable P.ndebug body ∧ payload ++ left = header.encode ++ (body.encode ++ more) ∧
    payload.length < (header.encode ++ body.encode).length ∧
    check (payload ++ left) payload.length = .ok 0 ∧
    check (body.encode ++ more) payload.length = .ok 0 ∧
    docToPhp P.ndebug header = .ok (.arr entries next) ∧ Accepts P sync entries

end BeePhp
