import BeePhp.Machine
import BeePhp.Codec.Reader

/-!
# third_party/msgpuck.h

The part of msgpuck the extension uses. The `mp_encode_*` functions return the bytes they write, the
`mp_decode_*` functions are readers, and `mp_check` walks over memory with its element counter.
-/

namespace BeePhp

open Codec (Bytes Reader toBE twos signed)
open Codec.Reader

/-! ## Types -/

inductive MpType where
  | nil | uint | int | str | bin | array | map | bool | float | double | ext
  deriving DecidableEq, Repr

/-- `mp_typeof`, with the ranges of the table `mp_type_hint`. -/
def mpTypeof (c : UInt8) : MpType :=
  if c ≤ 0x7f then .uint
  else if c ≤ 0x8f then .map
  else if c ≤ 0x9f then .array
  else if c ≤ 0xbf then .str
  else if c = 0xc0 then .nil
  else if c = 0xc1 then .ext -- never used
  else if c ≤ 0xc3 then .bool
  else if c ≤ 0xc6 then .bin
  else if c ≤ 0xc9 then .ext
  else if c = 0xca then .float
  else if c = 0xcb then .double
  else if c ≤ 0xcf then .uint
  else if c ≤ 0xd3 then .int
  else if c ≤ 0xd8 then .ext
  else if c ≤ 0xdb then .str
  else if c ≤ 0xdd then .array
  else if c ≤ 0xdf then .map
  else .int

def mpHint : Int := -32
def mpHintStr8 : Int := mpHint
def mpHintStr16 : Int := mpHint - 1
def mpHintStr32 : Int := mpHint - 2
def mpHintArray16 : Int := mpHint - 3
def mpHintArray32 : Int := mpHint - 4
def mpHintMap16 : Int := mpHint - 5
def mpHintMap32 : Int := mpHint - 6
def mpHintExt8 : Int := mpHint - 7
def mpHintExt16 : Int := mpHint - 8
def mpHintExt32 : Int := mpHint - 9

/-- The table `mp_parser_hint`: the number of bytes to skip after the lead byte, or minus the number of
elements that follow, or the code of a longer header. -/
def mpParserHint (c : UInt8) : Int :=
  if c ≤ 0x7f then 0
  else if c ≤ 0x8f then -(2 * (c.toNat - 0x80 : Nat))
  else if c ≤ 0x9f then -(c.toNat - 0x90 : Nat)
  else if c ≤ 0xbf then (c.toNat - 0xa0 : Nat)
  else if c ≤ 0xc3 then 0
  else if c = 0xc4 then mpHintStr8
  else if c = 0xc5 then mpHintStr16
  else if c = 0xc6 then mpHintStr32
  else if c = 0xc7 then mpHintExt8
  else if c = 0xc8 then mpHintExt16
  else if c = 0xc9 then mpHintExt32
  else if c = 0xca then 4
  else if c = 0xcb then 8
  else if c = 0xcc then 1
  else if c = 0xcd then 2
  else if c = 0xce then 4
  else if c = 0xcf then 8
  else if c = 0xd0 then 1
  else if c = 0xd1 then 2
  else if c = 0xd2 then 4
  else if c = 0xd3 then 8
  else if c = 0xd4 then 2
  else if c = 0xd5 then 3
  else if c = 0xd6 then 5
  else if c = 0xd7 then 9
  else if c = 0xd8 then 17
  else if c = 0xd9 then mpHintStr8
  else if c = 0xda then mpHintStr16
  else if c = 0xdb then mpHintStr32
  else if c = 0xdc then mpHintArray16
  else if c = 0xdd then mpHintArray32
  else if c = 0xde then mpHintMap16
  else if c = 0xdf then mpHintMap32
  else 0

/-! ## Sizes -/

def mpSizeofNil : Nat := 1

def mpSizeofBool : Nat := 1

def mpSizeofFloat : Nat := 1 + 4

def mpSizeofDouble : Nat := 1 + 8

def mpSizeofUint (num : Nat) : Nat :=
  if num ≤ 0x7f then 1
  else if num ≤ 0xff then 1 + 1
  else if num ≤ 0xffff then 1 + 2
  else if num ≤ 0xffffffff then 1 + 4
  else 1 + 8

/-- `mp_sizeof_int`, whose assertion is compiled out under `NDEBUG`. -/
def mpSizeofInt (ndebug : Bool) (num : Int) : Except Fault Nat :=
  if ndebug = false ∧ ¬ num < 0 then .error .assertion
  else if num ≥ -0x20 then .ok 1
  else if num ≥ -2 ^ 7 ∧ num ≤ 2 ^ 7 - 1 then .ok (1 + 1)
  else if num ≥ -2 ^ 15 ∧ num ≤ 2 ^ 16 - 1 then .ok (1 + 2)
  else if num ≥ -2 ^ 31 ∧ num ≤ 2 ^ 32 - 1 then .ok (1 + 4)
  else .ok (1 + 8)

def mpSizeofStrl (len : Nat) : Nat :=
  if len ≤ 31 then 1
  else if len ≤ 0xff then 1 + 1
  else if len ≤ 0xffff then 1 + 2
  else 1 + 4

/-- `mp_sizeof_str`; the sum is a `uint32_t`. -/
def mpSizeofStr (len : Nat) : Nat := toUint32 (mpSizeofStrl len + len)

def mpSizeofBinl (len : Nat) : Nat :=
  if len ≤ 0xff then 1 + 1
  else if len ≤ 0xffff then 1 + 2
  else 1 + 4

/-- `mp_sizeof_bin`; the sum is a `uint32_t`. -/
def mpSizeofBin (len : Nat) : Nat := toUint32 (mpSizeofBinl len + len)

def mpSizeofArray (size : Nat) : Nat :=
  if size ≤ 15 then 1
  else if size ≤ 0xffff then 1 + 2
  else 1 + 4

def mpSizeofMap (size : Nat) : Nat :=
  if size ≤ 15 then 1
  else if size ≤ 0xffff then 1 + 2
  else 1 + 4

/-! ## Encoders -/

def mpEncodeNil : Bytes := [0xc0]

def mpEncodeBool (val : Bool) : Bytes := [0xc2 ||| (if val then 1 else 0)]

def mpEncodeDouble (bits : Nat) : Bytes := 0xcb :: toBE 8 bits

def mpEncodeUint (num : Nat) : Bytes :=
  if num ≤ 0x7f then [UInt8.ofNat num]
  else if num ≤ 0xff then 0xcc :: toBE 1 num
  else if num ≤ 0xffff then 0xcd :: toBE 2 num
  else if num ≤ 0xffffffff then 0xce :: toBE 4 num
  else 0xcf :: toBE 8 num

def mpEncodeInt (ndebug : Bool) (num : Int) : Except Fault Bytes :=
  if ndebug = false ∧ ¬ num < 0 then .error .assertion
  else if num ≥ -0x20 then .ok [0xe0 ||| UInt8.ofNat (twos 1 num)]
  else if num ≥ -2 ^ 7 then .ok (0xd0 :: toBE 1 (twos 1 num))
  else if num ≥ -2 ^ 15 then .ok (0xd1 :: toBE 2 (twos 2 num))
  else if num ≥ -2 ^ 31 then .ok (0xd2 :: toBE 4 (twos 4 num))
  else .ok (0xd3 :: toBE 8 (twos 8 num))

def mpEncodeStrl (len : Nat) : Bytes :=
  if len ≤ 31 then [0xa0 ||| UInt8.ofNat len]
  else if len ≤ 0xff then 0xd9 :: toBE 1 len
  else if len ≤ 0xffff then 0xda :: toBE 2 len
  else 0xdb :: toBE 4 len

/-- `mp_encode_str`, which copies `len` bytes of `str`. -/
def mpEncodeStr (str : Bytes) (len : Nat) : Bytes := mpEncodeStrl len ++ str.take len

def mpEncodeArray (size : Nat) : Bytes :=
  if size ≤ 15 then [0x90 ||| UInt8.ofNat size]
  else if size ≤ 0xffff then 0xdc :: toBE 2 size
  else 0xdd :: toBE 4 size

def mpEncodeMap (size : Nat) : Bytes :=
  if size ≤ 15 then [0x80 ||| UInt8.ofNat size]
  else if size ≤ 0xffff then 0xde :: toBE 2 size
  else 0xdf :: toBE 4 size

/-! ## Decoders

Applied to a lead byte of another type the decoders of the source reach `mp_unreachable` or a failing
assertion, and `mp_decode_array` returns a number that means nothing: here all of them fault. -/

def mpDecodeNil : Reader Fault Unit := do
  let c ← byte .oob
  if c = 0xc0 then return () else stop .wrongType

def mpDecodeBool : Reader Fault Bool := do
  let c ← byte .oob
  if c = 0xc3 then return true
  else if c = 0xc2 then return false
  else stop .wrongType

def mpDecodeUint : Reader Fault Nat := do
  let c ← byte .oob
  if c ≤ 0x7f then return c.toNat
  else if c = 0xcc then number .oob 1
  else if c = 0xcd then number .oob 2
  else if c = 0xce then number .oob 4
  else if c = 0xcf then number .oob 8
  else stop .wrongType

def mpDecodeInt : Reader Fault Int := do
  let c ← byte .oob
  if c ≥ 0xe0 then return signed 1 c.toNat
  else if c = 0xd0 then return signed 1 (← number .oob 1)
  else if c = 0xd1 then return signed 2 (← number .oob 2)
  else if c = 0xd2 then return signed 4 (← number .oob 4)
  else if c = 0xd3 then return signed 8 (← number .oob 8)
  else stop .wrongType

/-- `mp_decode_float`, returning the 32-bit image of the number. -/
def mpDecodeFloat : Reader Fault Nat := do
  let c ← byte .oob
  if c = 0xca then number .oob 4 else stop .wrongType

/-- `mp_decode_double`, returning the 64-bit image of the number. -/
def mpDecodeDouble : Reader Fault Nat := do
  let c ← byte .oob
  if c = 0xcb then number .oob 8 else stop .wrongType

def mpDecodeStrl : Reader Fault Nat := do
  let c ← byte .oob
  if c ≥ 0xa0 ∧ c ≤ 0xbf then return (c &&& 0x1f).toNat
  else if c = 0xd9 then number .oob 1
  else if c = 0xda then number .oob 2
  else if c = 0xdb then number .oob 4
  else stop .wrongType

/-- `mp_decode_str` together with the copy of the string that its caller makes. -/
def mpDecodeStr : Reader Fault Bytes := do
  let len ← mpDecodeStrl
  take .oob len

def mpDecodeBinl : Reader Fault Nat := do
  let c ← byte .oob
  if c = 0xc4 then number .oob 1
  else if c = 0xc5 then number .oob 2
  else if c = 0xc6 then number .oob 4
  else stop .wrongType

/-- `mp_decode_bin` together with the copy of the bytes that its caller makes. -/
def mpDecodeBin : Reader Fault Bytes := do
  let len ← mpDecodeBinl
  take .oob len

def mpDecodeArray : Reader Fault Nat := do
  let c ← byte .oob
  if mpTypeof c ≠ .array then stop .wrongType
  else if c &&& 0x40 = 0 then return (c &&& 0xf).toNat
  else if c &&& 0x1 = 0xdc &&& 0x1 then number .oob 2
  else number .oob 4

def mpDecodeMap : Reader Fault Nat := do
  let c ← byte .oob
  if c ≥ 0x80 ∧ c ≤ 0x8f then return (c &&& 0xf).toNat
  else if c = 0xde then number .oob 2
  else if c = 0xdf then number .oob 4
  else stop .wrongType

/-! ## The validator -/

/-- What one round of the loop of `mp_check` does: return a status, or go on with an element counter,
a cursor, and the distance from the cursor to `end`. -/
inductive CheckRound where
  | ret (status : Nat) (data : Bytes)
  | next (k : Int) (data : Bytes) (room : Int)
  deriving DecidableEq, Repr

/-- The branch of `mp_check` for a header with a length of `n` bytes after the lead byte: when `n + x`
bytes do not fit before `end` it returns `short`, else `go` is told the length. -/
def mpCheckLength (n x short : Nat) (data : Bytes) (room : Int)
    (go : Nat → Except Fault CheckRound) : Except Fault CheckRound :=
  if (n + x : Nat) > room then .ok (.ret short data)
  else match number Fault.oob n data with
    | .ok (len, _) => go len
    | .error f => .error f

/-- `*data += n`. -/
def mpCheckSkip (k : Int) (data : Bytes) (room : Int) (n : Nat) : Except Fault CheckRound :=
  .ok (.next k (data.drop n) (room - n))

/-- `k += n; *data += m`, the sum being an `int`. -/
def mpCheckCount (k : Int) (data : Bytes) (room : Int) (n m : Nat) : Except Fault CheckRound := do
  return .next (← signedInt (k + n)) (data.drop m) (room - m)

/-- `k += n; *data += m`, the sum being an `uint32_t` that becomes an `int`. -/
def mpCheckCount32 (k : Int) (data : Bytes) (room : Int) (n m : Nat) : Except Fault CheckRound :=
  .ok (.next (toInt (k + n)) (data.drop m) (room - m))

/-- What the loop of `mp_check` does after a lead byte with the hint `l`. -/
def mpCheckHint (l k : Int) (data : Bytes) (room : Int) : Except Fault CheckRound :=
  let skip := mpCheckSkip k data room
  let count := mpCheckCount k data room
  let count32 := mpCheckCount32 k data room
  if l ≥ 0 then skip l.toNat
  else if l > mpHint then count (-l).toNat 0
  else if l = mpHintStr8 then mpCheckLength 1 0 1 data room fun len => skip (len + 1)
  else if l = mpHintStr16 then mpCheckLength 2 0 1 data room fun len => skip (len + 2)
  else if l = mpHintStr32 then mpCheckLength 4 0 1 data room fun len => skip (len + 4)
  else if l = mpHintArray16 then mpCheckLength 2 0 1 data room fun len => count len 2
  else if l = mpHintArray32 then mpCheckLength 4 0 1 data room fun len => count32 len 4
  -- `return false` where the other branches return 1
  else if l = mpHintMap16 then mpCheckLength 2 0 0 data room fun len => count (2 * len) 2
  else if l = mpHintMap32 then mpCheckLength 4 0 1 data room fun len => count32 (2 * len) 4
  else if l = mpHintExt8 then mpCheckLength 1 1 1 data room fun len => skip (len + 1 + 1)
  else if l = mpHintExt16 then mpCheckLength 2 1 1 data room fun len => skip (len + 2 + 1)
  else if l = mpHintExt32 then mpCheckLength 4 1 1 data room fun len => skip (len + 4 + 1)
  else .error .wrongType

/-- The body of the loop of `mp_check`. -/
def mpCheckBody (k : Int) (data : Bytes) (room : Int) : Except Fault CheckRound :=
  if room ≤ 0 then .ok (.ret 1 data)
  else match data with
  | [] => .error .oob
  | c :: data => mpCheckHint (mpParserHint c) k data (room - 1)

/-- The loop of `mp_check` and the test after it. Every round moves the cursor, so `fuel` beyond the
distance to `end` is never used up. -/
def mpCheckLoop : Nat → Int → Bytes → Int → Except Fault (Nat × Bytes)
  | 0, _, _, _ => .error .fuel
  | fuel + 1, k, data, room =>
    if k > 0 then do
      match ← mpCheckBody k data room with
      | .ret status data => return (status, data)
      | .next k data room => mpCheckLoop fuel (← signedInt (k - 1)) data room
    else if room < 0 then return (1, data)
    else return (0, data)

/-- `mp_check` on the bytes at `data`, `end` being `size` bytes away: its status and the cursor it
leaves. -/
def mpCheck (data : Bytes) (size : Nat) : Except Fault (Nat × Bytes) :=
  mpCheckLoop (size + 2) 1 data size

/-! ## Skipping -/

/-- One round of the loop of `mp_next`. It does what `mp_check` does but looks at no end: past the end
of the memory it faults. -/
def mpNextBody (k : Int) (data : Bytes) : Except Fault (Int × Bytes) :=
  match data with
  | [] => .error .oob
  | c :: data =>
    match mpCheckHint (mpParserHint c) k data data.length with
    | .ok (.next k data room) => if room < 0 then .error .oob else .ok (k, data)
    | .ok (.ret ..) => .error .oob
    | .error f => .error f

/-- The loop of `mp_next` and of `mp_next_slowpath`. Every round moves the cursor. -/
def mpNextLoop : Nat → Int → Bytes → Except Fault Bytes
  | 0, _, _ => .error .fuel
  | fuel + 1, k, data =>
    if k > 0 then do
      let (k, data) ← mpNextBody k data
      mpNextLoop fuel (← signedInt (k - 1)) data
    else return data

/-- `mp_next`. -/
def mpNext (data : Bytes) : Except Fault Bytes := mpNextLoop (data.length + 2) 1 data

end BeePhp
