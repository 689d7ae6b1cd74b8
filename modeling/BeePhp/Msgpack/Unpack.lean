import BeePhp.Msgpuck
import BeePhp.Zend.Value

/-!
# bee_msgpack.c: unpacking and checking

`php_mp_unpack` and the functions it dispatches to. They are readers of the memory ahead of the cursor
`*str`: `Halt.failure` is the return value `FAILURE`, any other return value comes with the decoded
value. `ndebug` says whether the assertions of msgpuck are compiled out.
-/

namespace BeePhp

open Codec (Bytes Reader)
open Codec.Reader

/-- A msgpuck decoder inside an unpacking routine. -/
def decode {α : Type} (r : Reader Fault α) : Reader Halt α := mapError Halt.fault r

def phpMpUnpackNil : Reader Halt PVal := do
  decode mpDecodeNil
  return .null

def phpMpUnpackUint : Reader Halt PVal := do
  return .long (Int64.ofNat (← decode mpDecodeUint))

/-- `php_mp_unpack_int`, which returns `mp_sizeof_int` of the number and so meets its assertion. -/
def phpMpUnpackInt (ndebug : Bool) : Reader Halt PVal := do
  let val ← decode mpDecodeInt
  match mpSizeofInt ndebug val with
  | .ok _ => return .long (Int64.ofInt val)
  | .error f => stop (.fault f)

def phpMpUnpackStr : Reader Halt PVal := do
  return .str (← decode mpDecodeStr)

/-- `php_mp_unpack_bin`, which allocates no room for a NUL. -/
def phpMpUnpackBin : Reader Halt PVal := do
  return .bin (← decode mpDecodeBin)

def phpMpUnpackBool : Reader Halt PVal := do
  return .bool (← decode mpDecodeBool)

def phpMpUnpackFloat : Reader Halt PVal := do
  return .double (floatToDouble (← decode mpDecodeFloat))

def phpMpUnpackDouble : Reader Halt PVal := do
  return .double (UInt64.ofNat (← decode mpDecodeDouble))

/-- The entry a map makes for a decoded pair; a key that is no integer and no string throws. A string goes to
`add_assoc_zval_ex` with the byte behind it, which is past the block of a bin. -/
def addPair (t : Table PVal) (key value : PVal) : Except Halt (Table PVal) :=
  match key with
  | .long n => .ok (addIndexZval t n.toUInt64 value)
  | .str s => .ok (addAssocZval t s value)
  | .bin _ => .error (.fault .oob)
  | _ => .error (.failure (some "Bad key type for PHP Array"))

/-- One round of the loop of `php_mp_unpack_map`. -/
def unpackPair (unpack : Reader Halt PVal) (t : Table PVal) : Reader Halt (Table PVal) := do
  let key ← unpack
  let value ← unpack
  match addPair t key value with
  | .ok t => return t
  | .error h => stop h

def phpMpUnpackMap (unpack : Reader Halt PVal) : Reader Halt PVal := do
  let len ← decode mpDecodeMap
  return (← times (unpackPair unpack) len Table.empty).toPVal

/-- One round of the loop of `php_mp_unpack_array`. -/
def unpackItem (unpack : Reader Halt PVal) (t : Table PVal) : Reader Halt (Table PVal) := do
  return addNextIndexZval t (← unpack)

def phpMpUnpackArray (unpack : Reader Halt PVal) : Reader Halt PVal := do
  let len ← decode mpDecodeArray
  return (← times (unpackItem unpack) len Table.empty).toPVal

/-- `php_mp_unpack` with at most `fuel` calls of itself inside each other. -/
def phpMpUnpackRec (ndebug : Bool) : Nat → Reader Halt PVal
  | 0 => stop (.fault .fuel)
  | fuel + 1 => do
    let c ← peek (.fault .oob)
    match mpTypeof c with
    | .nil => phpMpUnpackNil
    | .uint => phpMpUnpackUint
    | .int => phpMpUnpackInt ndebug
    | .str => phpMpUnpackStr
    | .bin => phpMpUnpackBin
    | .array => phpMpUnpackArray (phpMpUnpackRec ndebug fuel)
    | .map => phpMpUnpackMap (phpMpUnpackRec ndebug fuel)
    | .bool => phpMpUnpackBool
    | .float => phpMpUnpackFloat
    | .double => phpMpUnpackDouble
    | .ext => stop (.failure none)

/-- `php_mp_unpack`. Each call inside another is one byte further on, so that the bytes ahead of the
cursor bound their number. -/
def phpMpUnpack (ndebug : Bool) : Reader Halt PVal := fun str =>
  phpMpUnpackRec ndebug (str.length + 1) str

/-- `php_mp_check`, together with the cursor that `mp_check` leaves. -/
def phpMpCheck (str : Bytes) (strSize : Nat) : Except Fault (Nat × Bytes) := mpCheck str strSize

/-- `php_mp_unpack_package_size`. -/
def phpMpUnpackPackageSize (str : Bytes) : Except Fault Nat :=
  match mpDecodeUint str with
  | .ok (n, _) => .ok n
  | .error f => .error f

end BeePhp
