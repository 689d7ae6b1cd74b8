import BeePhp.Msgpack.Unpack
import BeePhp.Network
import BeePhp.Proto

/-!
# bee.c: receiving a response

`bee_step_recv`. The validator it calls is a parameter, so that the same code can be looked at with
`mp_check` and with any other.
-/

namespace BeePhp

open Codec (Bytes)

/-- `Z_LVAL` of a value, whatever its type: the union is read as a `long`. -/
def zLval (P : Platform) : PVal → Int64
  | .null => 0
  | .long n => n
  | .bool b => if b then 1 else 0
  | .double bits => bits.toInt64
  | v => P.address v

/-- `zend_hash_index_find`. -/
def indexFind (entries : List (Key × PVal)) (h : UInt32) : Option PVal :=
  entries.lookup (.idx (UInt64.ofNat h.toNat))

/-- `SSTR_POS` and `SSTR_LEN` of the buffer: read `size` bytes at its end. -/
def readBody (size : Nat) : M Nat := do
  modifyObj fun obj => { obj with value := obj.value.ensure size }
  readValue .other (← getObj).value.len size

/-- The label `error` of `bee_step_recv`. -/
def stepError : M (Option (PVal × PVal)) := do
  resetValue
  return none

/-- The label `error_con` of `bee_step_recv`. -/
def stepErrorCon : M (Option (PVal × PVal)) := do
  beeStreamClose
  stepError

/-- The error branch for a code other than `BEEX_OK`. A body that is no array has no hash table, and a
body without an error text leaves `errstr` null. The text is read up to a NUL, wherever that is. -/
def stepQueryError (P : Platform) (code body : PVal) : M (Option (PVal × PVal)) := do
  match body with
  | .arr entries _ =>
    match indexFind entries beexError with
    | some (.str errstr) =>
      throwExc "Query error %d: %s" [.d ((zLval P code) &&& 0x7fff).toInt, .s (cString errstr)]
      stepError
    | some (.bin errstr) =>
      if 0 ∈ errstr then
        throwExc "Query error %d: %s" [.d ((zLval P code) &&& 0x7fff).toInt, .s (cString errstr)]
        stepError
      else throw .oob
    | some _ => throw .wrongType
    | none => throw .nullDeref
  | _ => throw .nullDeref

/-- What `bee_step_recv` does with a decoded header and body. -/
def stepFinish (P : Platform) (sync : UInt64) (header : List (Key × PVal)) (next : UInt64)
    (body : PVal) : M (Option (PVal × PVal)) := do
  let mismatch := (indexFind header beexSync).any fun val => (zLval P val).toUInt64 != sync
  if mismatch then
    throwExc "request sync is not equal response sync. closing connection" []
    stepErrorCon
  else
    match indexFind header beexCode with
    | some code =>
      if zLval P code = 0 then
        resetValue
        return some (.arr header next, body)
      else stepQueryError P code body
    | none =>
      throwExc "Failed to retrieve answer code" []
      stepErrorCon

/-- A failing `php_mp_unpack`: the exception it has thrown stays. -/
def unpackFailed (h : Halt) (k : M (Option (PVal × PVal))) : M (Option (PVal × PVal)) :=
  match h with
  | .fault f => throw f
  | .failure none => k
  | .failure (some text) => do
    throwExc text []
    k

/-- What `bee_step_recv` does with a payload in the buffer. Both calls of the validator are told the
size of the whole payload, the second one at the cursor after the header. -/
def stepDecode (check : Bytes → Nat → Except Fault Nat) (P : Platform) (sync : UInt64)
    (bodySize : Nat) : M (Option (PVal × PVal)) := do
  let pos := (← getObj).value.c
  if (← StateT.lift (check pos bodySize)) ≠ 0 then
    throwExc "Failed verifying header [bad msgpack]" []
    stepError
  else
    match phpMpUnpack P.ndebug pos with
    | .ok (.arr header next, pos) =>
      if (← StateT.lift (check pos bodySize)) ≠ 0 then
        throwExc "Failed verifying body [bad msgpack]" []
        stepErrorCon
      else
        match phpMpUnpack P.ndebug pos with
        | .ok (body, _) => stepFinish P sync header next body
        | .error h => unpackFailed h stepError
    | .ok _ => stepError
    | .error h => unpackFailed h stepError

/-- `bee_step_recv` with a given validator: the header and the body, or `none` for `FAILURE`. -/
def beeStepRecvWith (check : Bytes → Nat → Except Fault Nat) (P : Platform) (sync : UInt64) :
    M (Option (PVal × PVal)) := do
  let (n, packLen) ← readLength .length
  if n ≠ 5 then
    throwExc "Can't read query from server (failed to read length)" []
    stepErrorCon
  else if (← StateT.lift (check packLen 5)) ≠ 0 then
    throwExc "Failed verifying msgpack" []
    stepErrorCon
  else
    let bodySize ← StateT.lift (phpMpUnpackPackageSize packLen)
    if (← readBody bodySize) ≠ bodySize then
      throwExc "Can't read query from server (failed to read %d bytes from server [header + body])"
        [.d (toInt bodySize)]
      stepError
    else
      let value := (← getObj).value
      let value ← StateT.lift (value.setLen (value.len + bodySize))
      modifyObj fun obj => { obj with value := value }
      stepDecode check P sync bodySize

/-- The status that `php_mp_check` returns. -/
def checkStatus (str : Bytes) (size : Nat) : Except Fault Nat := do return (← phpMpCheck str size).1

/-- `bee_step_recv`. -/
def beeStepRecv (P : Platform) (sync : UInt64) : M (Option (PVal × PVal)) :=
  beeStepRecvWith checkStatus P sync

/-- Receive the response to a data request. -/
def receive (P : Platform) (sync : Int64) : M (Option (PVal × PVal)) := do
  awaitResponse
  let answer ← beeStepRecv P sync.toUInt64
  if answer.isSome then useResponse (longToUint32 sync)
  return answer

end BeePhp
