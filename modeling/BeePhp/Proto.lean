import BeePhp.Msgpack.Pack

/-!
# bee_proto.c: requests

The request encoders. Each of them computes the size of its payload, makes room, and packs a header
and a body; an encoder and its size function list the fields of the body each for itself.
-/

namespace BeePhp

open Codec (Bytes toBE)

/-! ## Keys and codes -/

def beexCode : UInt32 := 0x00
def beexSync : UInt32 := 0x01

def beexSpace : UInt32 := 0x10
def beexIndex : UInt32 := 0x11
def beexLimit : UInt32 := 0x12
def beexOffset : UInt32 := 0x13
def beexIterator : UInt32 := 0x14
def beexKey : UInt32 := 0x20
def beexTuple : UInt32 := 0x21
def beexFunction : UInt32 := 0x22
def beexUsername : UInt32 := 0x23
def beexExpression : UInt32 := 0x27
def beexOps : UInt32 := 0x28

def beexData : UInt32 := 0x30
def beexError : UInt32 := 0x31

def beexOk : UInt32 := 0x00
def beexSelect : UInt32 := 0x01
def beexInsert : UInt32 := 0x02
def beexReplace : UInt32 := 0x03
def beexUpdate : UInt32 := 0x04
def beexDelete : UInt32 := 0x05
def beexCall : UInt32 := 0x06
def beexAuth : UInt32 := 0x07
def beexEval : UInt32 := 0x08
def beexUpsert : UInt32 := 0x09
def beexPing : UInt32 := 0x40

/-! ## Frames and headers -/

/-- `php_mp_pack_package_size`, which keeps the low 32 bits of the size. -/
def phpMpPackPackageSize (str : SmartString) (val : Nat) : Except Fault SmartString :=
  str.pack 5 (0xce :: toBE 4 (toUint32 val))

/-- Conversion of an `uint32_t` to `long`. -/
def longOfUint32 (n : UInt32) : Int64 := .ofNat n.toNat

/-- What an encoder packs under one key. -/
inductive Arg where
  | long (n : UInt32)
  | string (c : Bytes)
  | zval (val : Zval)

section Encoders

variable (ndebug : Bool) (H : Heap)

def phpTpSizeofHeader (request sync : UInt32) : Except Fault Nat := do
  return phpMpSizeofHash 2 +
    (← phpMpSizeofLong ndebug (longOfUint32 beexCode)) +
    (← phpMpSizeofLong ndebug (longOfUint32 request)) +
    (← phpMpSizeofLong ndebug (longOfUint32 beexSync)) +
    (← phpMpSizeofLong ndebug (longOfUint32 sync))

def phpTpPackHeader (str : SmartString) (size : Nat) (request sync : UInt32) :
    Except Fault SmartString := do
  let str ← phpMpPackPackageSize str size
  let str ← phpMpPackHash str 2
  let str ← phpMpPackLong ndebug str (longOfUint32 beexCode)
  let str ← phpMpPackLong ndebug str (longOfUint32 request)
  let str ← phpMpPackLong ndebug str (longOfUint32 beexSync)
  phpMpPackLong ndebug str (longOfUint32 sync)

def Arg.sizeof (c : Counts) : Arg → Except Fault (Nat × Counts)
  | .long n => do return (← phpMpSizeofLong ndebug (longOfUint32 n), c)
  | .string s => .ok (phpMpSizeofString s.length, c)
  | .zval val => phpMpSizeof ndebug H c val

def Arg.pack (str : SmartString) (c : Counts) : Arg → Except Fault (SmartString × Counts)
  | .long n => do return (← phpMpPackLong ndebug str (longOfUint32 n), c)
  | .string s => do return (← phpMpPackString str s, c)
  | .zval val => phpMpPack ndebug H str c val

/-- What the fields of a body add to `needed`. -/
def sizeofFields : List (UInt32 × Arg) → Nat → Counts → Except Fault (Nat × Counts)
  | [], needed, c => .ok (needed, c)
  | (key, arg) :: fields, needed, c => do
    let needed := needed + (← phpMpSizeofLong ndebug (longOfUint32 key))
    let (m, c) ← arg.sizeof ndebug H c
    sizeofFields fields (needed + m) c

def packFields :
    List (UInt32 × Arg) → SmartString → Counts → Except Fault (SmartString × Counts)
  | [], str, c => .ok (str, c)
  | (key, arg) :: fields, str, c => do
    let str ← phpMpPackLong ndebug str (longOfUint32 key)
    let (str, c) ← arg.pack ndebug H str c
    packFields fields str c

/-- What the size functions have in common: the header, and a body announcing `n` fields. -/
def sizeofRequest (c : Counts) (request sync : UInt32) (n : Nat) (fields : List (UInt32 × Arg)) :
    Except Fault (Nat × Counts) := do
  let header ← phpTpSizeofHeader ndebug request sync
  sizeofFields ndebug H fields (header + phpMpSizeofHash n) c

/-- What the encoders have in common. -/
def encodeRequest (str : SmartString) (c : Counts) (packetSize : Nat) (request sync : UInt32)
    (n : Nat) (fields : List (UInt32 × Arg)) : Except Fault (SmartString × Counts) := do
  let str := str.ensure (packetSize + 5)
  let str ← phpTpPackHeader ndebug str packetSize request sync
  let str ← phpMpPackHash str n
  packFields ndebug H fields str c

/-! ## The encoders -/

def phpTpSizeofPing (sync : UInt32) : Except Fault Nat := phpTpSizeofHeader ndebug beexPing sync

def phpTpEncodePing (str : SmartString) (sync : UInt32) : Except Fault SmartString := do
  let packetSize ← phpTpSizeofPing ndebug sync
  let str := str.ensure (packetSize + 5)
  phpTpPackHeader ndebug str packetSize beexPing sync

def phpTpSizeofSelect (c : Counts)
    (sync spaceNo indexNo limit offset iterator : UInt32) (key : Zval) :
    Except Fault (Nat × Counts) :=
  sizeofRequest ndebug H c beexSelect sync 6
    [(beexSpace, .long spaceNo), (beexIndex, .long indexNo), (beexOffset, .long offset),
      (beexLimit, .long limit), (beexIterator, .long iterator), (beexKey, .zval key)]

/-- `php_tp_encode_select`, which passes the offset and the limit to the size function in the other
order. -/
def phpTpEncodeSelect (str : SmartString) (c : Counts)
    (sync spaceNo indexNo limit offset iterator : UInt32) (key : Zval) :
    Except Fault (SmartString × Counts) := do
  let (packetSize, c) ← phpTpSizeofSelect ndebug H c sync spaceNo indexNo offset limit iterator key
  encodeRequest ndebug H str c packetSize beexSelect sync 6
    [(beexSpace, .long spaceNo), (beexIndex, .long indexNo), (beexOffset, .long offset),
      (beexLimit, .long limit), (beexIterator, .long iterator), (beexKey, .zval key)]

def phpTpSizeofInsertOrReplace (c : Counts) (sync spaceNo : UInt32) (tuple : Zval)
    (type : UInt32) : Except Fault (Nat × Counts) :=
  sizeofRequest ndebug H c type sync 2 [(beexSpace, .long spaceNo), (beexTuple, .zval tuple)]

def phpTpEncodeInsertOrReplace (str : SmartString) (c : Counts) (sync spaceNo : UInt32)
    (tuple : Zval) (type : UInt32) : Except Fault (SmartString × Counts) := do
  if ndebug = false ∧ ¬ (type = beexInsert ∨ type = beexReplace) then throw .assertion
  let (packetSize, c) ← phpTpSizeofInsertOrReplace ndebug H c sync spaceNo tuple type
  encodeRequest ndebug H str c packetSize type sync 2
    [(beexSpace, .long spaceNo), (beexTuple, .zval tuple)]

def phpTpSizeofDelete (c : Counts) (sync spaceNo indexNo : UInt32) (tuple : Zval) :
    Except Fault (Nat × Counts) :=
  sizeofRequest ndebug H c beexDelete sync 3
    [(beexSpace, .long spaceNo), (beexIndex, .long indexNo), (beexKey, .zval tuple)]

def phpTpEncodeDelete (str : SmartString) (c : Counts) (sync spaceNo indexNo : UInt32)
    (tuple : Zval) : Except Fault (SmartString × Counts) := do
  let (packetSize, c) ← phpTpSizeofDelete ndebug H c sync spaceNo indexNo tuple
  encodeRequest ndebug H str c packetSize beexDelete sync 3
    [(beexSpace, .long spaceNo), (beexIndex, .long indexNo), (beexKey, .zval tuple)]

def phpTpSizeofCall (c : Counts) (sync : UInt32) (proc : Bytes) (tuple : Zval) :
    Except Fault (Nat × Counts) :=
  sizeofRequest ndebug H c beexCall sync 2 [(beexFunction, .string proc), (beexTuple, .zval tuple)]

def phpTpEncodeCall (str : SmartString) (c : Counts) (sync : UInt32) (proc : Bytes)
    (tuple : Zval) : Except Fault (SmartString × Counts) := do
  let (packetSize, c) ← phpTpSizeofCall ndebug H c sync proc tuple
  encodeRequest ndebug H str c packetSize beexCall sync 2
    [(beexFunction, .string proc), (beexTuple, .zval tuple)]

def phpTpSizeofEval (c : Counts) (sync : UInt32) (proc : Bytes) (tuple : Zval) :
    Except Fault (Nat × Counts) :=
  sizeofRequest ndebug H c beexEval sync 2 [(beexExpression, .string proc), (beexTuple, .zval tuple)]

def phpTpEncodeEval (str : SmartString) (c : Counts) (sync : UInt32) (proc : Bytes)
    (tuple : Zval) : Except Fault (SmartString × Counts) := do
  let (packetSize, c) ← phpTpSizeofEval ndebug H c sync proc tuple
  encodeRequest ndebug H str c packetSize beexEval sync 2
    [(beexExpression, .string proc), (beexTuple, .zval tuple)]

def phpTpSizeofUpdate (c : Counts) (sync spaceNo indexNo : UInt32) (key args : Zval) :
    Except Fault (Nat × Counts) :=
  sizeofRequest ndebug H c beexUpdate sync 4
    [(beexSpace, .long spaceNo), (beexIndex, .long indexNo), (beexKey, .zval key),
      (beexTuple, .zval args)]

def phpTpEncodeUpdate (str : SmartString) (c : Counts) (sync spaceNo indexNo : UInt32)
    (key args : Zval) : Except Fault (SmartString × Counts) := do
  let (packetSize, c) ← phpTpSizeofUpdate ndebug H c sync spaceNo indexNo key args
  encodeRequest ndebug H str c packetSize beexUpdate sync 4
    [(beexSpace, .long spaceNo), (beexIndex, .long indexNo), (beexKey, .zval key),
      (beexTuple, .zval args)]

def phpTpSizeofUpsert (c : Counts) (sync spaceNo : UInt32) (tuple args : Zval) :
    Except Fault (Nat × Counts) :=
  sizeofRequest ndebug H c beexUpsert sync 3
    [(beexSpace, .long spaceNo), (beexTuple, .zval tuple), (beexOps, .zval args)]

def phpTpEncodeUpsert (str : SmartString) (c : Counts) (sync spaceNo : UInt32)
    (tuple args : Zval) : Except Fault (SmartString × Counts) := do
  let (packetSize, c) ← phpTpSizeofUpsert ndebug H c sync spaceNo tuple args
  encodeRequest ndebug H str c packetSize beexUpsert sync 3
    [(beexSpace, .long spaceNo), (beexTuple, .zval tuple), (beexOps, .zval args)]

end Encoders

end BeePhp
