import BeePhp.Msgpuck
import BeePhp.SmartString

/-!
# third_party/tp.h and bee_tp.c

The writer of the requests that look up names and authenticate. A `struct tp` writes into the buffer of
the connection; its pointers are offsets from the start of that buffer.
-/

namespace BeePhp

open Codec (Bytes toBE)

/-- A `struct tp`. `garbage` is what the local variable `sz` of `tp_ensure` holds in each call to come
that asks for memory: `bee_tp_reserve` does not set it. -/
structure Tp where
  p : Nat
  e : Nat
  size : Option Nat
  sync : Option Nat
  garbage : Nat → Nat

/-- A `struct tp` together with its buffer. -/
structure TpState where
  tp : Tp
  str : SmartString

abbrev TpM := StateT TpState (Except Fault)

def tpCode : Nat := 0x00
def tpSync : Nat := 0x01
def tpSpace : Nat := 0x10
def tpIndex : Nat := 0x11
def tpLimit : Nat := 0x12
def tpOffset : Nat := 0x13
def tpKeyField : Nat := 0x20
def tpTuple : Nat := 0x21
def tpUsername : Nat := 0x23
def tpSelectType : Nat := 1
def tpAuthType : Nat := 7

def scrambleSize : Nat := 20

/-! ## The buffer -/

/-- `bee_tp_reserve`, whose body is that of `smart_string_ensure`. -/
def beeTpReserve (str : SmartString) (req : Nat) : SmartString := str.ensure req

/-- `bee_tp_update`. -/
def beeTpUpdate (tp : Tp) (str : SmartString) : Tp := { tp with p := 0, e := str.a }

/-- `bee_tp_flush`. -/
def beeTpFlush (tp : Tp) : Tp := { tp with p := 0, size := none, sync := none }

/-- `tp_used`. -/
def tpUsed (tp : Tp) : Nat := tp.p

/-- `tp_ensure`: whether it returns something else than -1. -/
def tpEnsure (size : Nat) : TpM Bool := do
  let s ← get
  if toSize ((s.tp.e : Int) - s.tp.p) ≥ size then return true
  else
    let sz := s.tp.garbage 0
    set (⟨{ s.tp with e := sz, garbage := fun n => s.tp.garbage (n + 1) },
      beeTpReserve s.str size⟩ : TpState)
    return decide (sz ≠ 2 ^ 64 - 1)

def tpWrite (pos : Nat) (bs : Bytes) : TpM Unit := do
  let s ← get
  let str ← StateT.lift (s.str.write pos bs)
  set (⟨s.tp, str⟩ : TpState)

/-- What a call that meets a null pointer under an `assert` does. -/
def nullFault (ndebug : Bool) : Fault := if ndebug then .nullDeref else .assertion

section Requests

variable (ndebug : Bool)

/-- `tp_add`. -/
def tpAdd (size : Nat) : TpM Unit := do
  let s ← get
  match s.tp.size with
  | none => throw (nullFault ndebug)
  | some start =>
    let p := s.tp.p + size
    let str ← StateT.lift (s.str.write start (0xce :: toBE 4 (toUint32 (toSize (p - start - 5)))))
    set (⟨{ s.tp with p := p }, str⟩ : TpState)

/-- What `tp_select` and `tp_auth` have in common: the place for the length, a header with the type and
no sync yet, and the beginning of a body. -/
def tpRequest (type sz : Nat) (body : Bytes) : TpM Unit := do
  if ← tpEnsure sz then
    let s ← get
    let header := mpEncodeMap 2 ++ mpEncodeUint tpCode ++ mpEncodeUint type ++ mpEncodeUint tpSync
    set (⟨{ s.tp with size := some s.tp.p, sync := some (s.tp.p + 5 + header.length) },
      s.str⟩ : TpState)
    tpWrite (s.tp.p + 5) (header ++ 0xce :: toBE 4 0 ++ body)
    tpAdd ndebug sz

def tpSelect (space index offset limit : Nat) : TpM Unit :=
  let sz := 5 + mpSizeofMap 2 + mpSizeofUint tpCode + mpSizeofUint tpSelectType +
    mpSizeofUint tpSync + 5 + mpSizeofMap 5 + mpSizeofUint tpSpace + mpSizeofUint space +
    mpSizeofUint tpIndex + mpSizeofUint index + mpSizeofUint tpOffset + mpSizeofUint offset +
    mpSizeofUint tpLimit + mpSizeofUint limit + mpSizeofUint tpKeyField
  tpRequest ndebug tpSelectType sz
    (mpEncodeMap 5 ++ mpEncodeUint tpSpace ++ mpEncodeUint space ++ mpEncodeUint tpIndex ++
      mpEncodeUint index ++ mpEncodeUint tpOffset ++ mpEncodeUint offset ++ mpEncodeUint tpLimit ++
      mpEncodeUint limit ++ mpEncodeUint tpKeyField)

/-- `tp_auth`. The scramble is computed from the salt and the password; a size that is no `int`
faults. -/
def tpAuth (scramble : Bytes → Bytes → Bytes) (salt user : Bytes) (pass : Option Bytes) :
    TpM Unit := do
  let ulen := toUint32 user.length
  let sz ← StateT.lift <| signedInt <| 5 + mpSizeofMap 2 + mpSizeofUint tpCode +
    mpSizeofUint tpAuthType + mpSizeofUint tpSync + 5 + mpSizeofMap 2 + mpSizeofUint tpUsername +
    mpSizeofStr ulen + mpSizeofUint tpTuple +
    if pass.isSome then mpSizeofArray 2 + mpSizeofStr 0 + mpSizeofStr scrambleSize
    else mpSizeofArray 0
  tpRequest ndebug tpAuthType sz.toNat
    (mpEncodeMap 2 ++ mpEncodeUint tpUsername ++ mpEncodeStr user ulen ++ mpEncodeUint tpTuple ++
      match pass with
      | some pass =>
        mpEncodeArray 2 ++ mpEncodeStr [] 0 ++ mpEncodeStr (scramble salt pass) scrambleSize
      | none => mpEncodeArray 0)

/-- `tp_reqid`. -/
def tpReqid (reqid : UInt32) : TpM Unit := do
  match (← get).tp.sync with
  | none => throw (nullFault ndebug)
  | some pos => tpWrite pos (0xce :: toBE 4 reqid.toNat)

/-- What the functions that add a value to a request have in common. -/
def tpAppend (sz : Nat) (bs : Bytes) : TpM Unit := do
  if ← tpEnsure sz then
    tpWrite (← get).tp.p bs
    tpAdd ndebug sz

def tpKey (partCount : Nat) : TpM Unit :=
  tpAppend ndebug (mpSizeofArray partCount) (mpEncodeArray partCount)

def tpEncodeUint (num : Nat) : TpM Unit :=
  tpAppend ndebug (mpSizeofUint num) (mpEncodeUint num)

def tpEncodeStr (str : Bytes) : TpM Unit := do
  let len := toUint32 str.length
  let sz ← StateT.lift (signedInt (mpSizeofStr len))
  tpAppend ndebug sz.toNat (mpEncodeStr str len)

end Requests

end BeePhp
