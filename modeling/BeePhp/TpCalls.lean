import BeePhp.World
import BeePhp.Zend.Heap

/-!
# Sequences of calls of tp.h

The requests of the lookups and of the authentication are written by sequences of calls of tp.h. This
file says what such a sequence asks `tp_ensure` for, and what `tp_ensure` is to provide.
-/

namespace BeePhp

open Codec (Bytes)

/-- A call of tp.h. -/
inductive TpCall where
  | select (space index offset limit : Nat)
  | auth (salt user : Bytes) (pass : Option Bytes)
  | key (partCount : Nat)
  | encodeUint (num : Nat)
  | encodeStr (str : Bytes)
  | reqid (id : UInt32)

/-- The body of an authentication. -/
def authBody (scramble : Bytes → Bytes → Bytes) (salt user : Bytes) (pass : Option Bytes) : Bytes :=
  mpEncodeMap 2 ++ mpEncodeUint tpUsername ++ mpEncodeStr user (toUint32 user.length) ++
    mpEncodeUint tpTuple ++
    match pass with
    | some pass =>
      mpEncodeArray 2 ++ mpEncodeStr [] 0 ++ mpEncodeStr (scramble salt pass) scrambleSize
    | none => mpEncodeArray 0

section Calls

variable (P : Platform)

def TpCall.run : TpCall → TpM Unit
  | .select space index offset limit => tpSelect P.ndebug space index offset limit
  | .auth salt user pass => tpAuth P.ndebug P.scramble salt user pass
  | .key partCount => tpKey P.ndebug partCount
  | .encodeUint num => tpEncodeUint P.ndebug num
  | .encodeStr str => tpEncodeStr P.ndebug str
  | .reqid id => tpReqid P.ndebug id

/-- The calls one after the other. -/
def runCalls : List TpCall → TpM Unit
  | [] => return ()
  | c :: cs => do
    c.run P
    runCalls cs

/-- What a call asks `tp_ensure` for; `tp_reqid` writes to a place there is. -/
def TpCall.size : TpCall → Option Nat
  | .select space index offset limit => some <|
    5 + mpSizeofMap 2 + mpSizeofUint tpCode + mpSizeofUint tpSelectType +
      mpSizeofUint tpSync + 5 + mpSizeofMap 5 + mpSizeofUint tpSpace + mpSizeofUint space +
      mpSizeofUint tpIndex + mpSizeofUint index + mpSizeofUint tpOffset + mpSizeofUint offset +
      mpSizeofUint tpLimit + mpSizeofUint limit + mpSizeofUint tpKeyField
  | .auth _ user pass => some <|
    5 + mpSizeofMap 2 + mpSizeofUint tpCode + mpSizeofUint tpAuthType + mpSizeofUint tpSync + 5 +
      mpSizeofMap 2 + mpSizeofUint tpUsername + mpSizeofStr (toUint32 user.length) +
      mpSizeofUint tpTuple +
      if pass.isSome then mpSizeofArray 2 + mpSizeofStr 0 + mpSizeofStr scrambleSize
      else mpSizeofArray 0
  | .key partCount => some (mpSizeofArray partCount)
  | .encodeUint num => some (mpSizeofUint num)
  | .encodeStr str => some (mpSizeofStr (toUint32 str.length))
  | .reqid _ => none

/-- When `tp_ensure` returns something else than -1 there is room for `size` bytes behind the cursor, and
`e` is the end of the buffer. -/
def EnsureProvides (size : Nat) (s : TpState) : Prop :=
  ∀ s', tpEnsure size s = .ok (true, s') → s'.tp.p + size ≤ s'.str.a ∧ s'.tp.e = s'.str.a

/-- Every `tp_ensure` of the calls provides what it is asked for. A call whose size is no `int` does not
get that far. -/
def Provided : List TpCall → TpState → Prop
  | [], _ => True
  | c :: cs, s =>
    (∀ size, c.size = some size → (size : Int) ≤ intMax → EnsureProvides size s) ∧
      ∀ s', c.run P s = .ok ((), s') → Provided cs s'

end Calls

/-- What the calls ask for in all, up to a size that is no `int`. -/
def askedFor : List TpCall → Nat
  | [] => 0
  | c :: cs =>
    match c.size with
    | none => askedFor cs
    | some size => if (size : Int) ≤ intMax then size + askedFor cs else 0

/-- The writer as `bee_tp_flush` has left it, set up on a buffer by `bee_tp_update`. -/
def TpState.updated (tp : Tp) (str : SmartString) : TpState := ⟨beeTpUpdate (beeTpFlush tp) str, str⟩

/-! ## The requests of bee.c -/

def spaceSpace : Nat := 281
def spaceIndex : Nat := 289
def indexSpaceName : Nat := 2
def indexIndexName : Nat := 2

/-- The calls of `get_spaceno_by_name`. -/
def spaceCalls (name : Bytes) (sync : UInt32) : List TpCall :=
  [.select spaceSpace indexSpaceName 0 4096, .key 1, .encodeStr name, .reqid sync]

/-- The calls of `get_indexno_by_name`. -/
def indexCalls (spaceNo : Nat) (name : Bytes) (sync : UInt32) : List TpCall :=
  [.select spaceIndex indexIndexName 0 4096, .key 2, .encodeUint spaceNo, .encodeStr name,
    .reqid sync]

/-- The calls of `__bee_authenticate`. -/
def authCalls (salt login : Bytes) (passwd : Option Bytes) (auth space index : UInt32) :
    List TpCall :=
  [.auth salt login passwd, .reqid auth, .select spaceSpace 0 0 4096, .key 0, .reqid space,
    .select spaceIndex 0 0 4096, .key 0, .reqid index]

/-- The sequences of calls that bee.c makes. -/
inductive Issued : List TpCall → Prop
  | space (name : ZStr) (sync : UInt32) : Issued (spaceCalls name.val sync)
  | index (spaceNo : Nat) (name : ZStr) (sync : UInt32) : Issued (indexCalls spaceNo name.val sync)
  | auth (salt : Bytes) (login : ZStr) (passwd : Option Bytes) (auth space index : UInt32) :
    Issued (authCalls salt login.val passwd auth space index)

end BeePhp
