import BeePhp.Arguments
import BeePhp.Connection
import BeePhp.Request

/-!
# bee.c: the methods

The methods of `Bee`, and runs of them: a `Step` is a method with its arguments and with what the
environment does during it.
-/

namespace BeePhp

open Codec (Bytes)

/-! ## Construction -/

/-- `__construct` where it makes a new connection: the connection and whether it is persistent, or
`none` when it throws. `persistent` is the setting `bee.persistent`. -/
def construct (persistent : Bool) (fresh : Nat → UInt8) (garbage : Nat → Nat) (host : Option ZStr)
    (port : Int64) (login passwd suffix : Option ZStr) : Option (Connection × Bool) :=
  let host := host.elim (ascii "localhost") fun host => cString host.val
  if port < 0 ∨ port ≥ 65536 then none
  else
    let port := if port = 0 then 3301 else port.toInt.toNat
    let login := login.elim (ascii "guest") fun login => cString login.val
    let passwd := passwd.bind fun passwd => if passwd.val = [] then none else some (cString passwd.val)
    let isPersistent := persistent || suffix.isSome
    let id := if isPersistent then
      some (persistentId host port login (ascii "stream") (suffix.map fun suffix => cString suffix.val))
      else none
    some (.new host port login passwd id fresh garbage, isPersistent)

/-! ## Common parts -/

section Methods

variable (P : Platform)

/-- `BEE_CONNECT_ON_DEMAND`. -/
def onDemand (body : M PVal) : M PVal := do
  if ← connectOnDemand P then body else return .bool false

def withSpace (space : Zval) (body : Int → M PVal) : M PVal := do
  let spaceNo ← getSpacenoByName P space
  if spaceNo = -1 then return .bool false else body spaceNo

def withIndex (spaceNo : Int) (index : Option Zval) (body : Int → M PVal) : M PVal :=
  match index with
  | none => body 0
  | some index => do
    let indexNo ← getIndexnoByName P spaceNo index
    if indexNo = -1 then return .bool false else body indexNo

/-- The operations of an update. -/
def withArgs (H : Heap) (args : Zval) (body : Heap → Zval → M PVal) : M PVal :=
  match beeUpdateVerifyArgs H args with
  | .error e => do
    throwExc e.format e.args
    return .bool false
  | .ok (H, args) => body H args

/-- Conversion of an `int` to `uint32_t`. -/
def intToUint32 (i : Int) : UInt32 := UInt32.ofNat (toSize i)

/-- What every data request does: take a sync, encode the request, send it and receive the response. -/
def execute (H : Heap) (r : Request) : M (Option (PVal × PVal)) := do
  let sync ← nextSync
  let value := (← getObj).value
  let (value', _) ← StateT.lift (r.encode P.ndebug H value (fun _ => 0) (longToUint32 sync))
  modifyObj fun obj => { obj with value := value' }
  modify fun w => { w with start := value.len, own := value'.data.drop value.len }
  if ← beeStreamSend true then receive P sync else return none

/-- `BEE_RETURN_DATA`. -/
def beeReturnData (body : PVal) : M PVal :=
  match body with
  | .arr entries _ =>
    match indexFind entries beexData with
    | some answer => return answer.copyCtor
    | none => do
      throwExc "No field DATA in body" []
      return .bool false
  | _ => throw .nullDeref

/-- A request whose response has data. -/
def request (H : Heap) (r : Request) : M PVal := do
  match ← execute P H r with
  | none => return .bool false
  | some (_, body) => beeReturnData body

/-! ## The methods -/

def Bee.connect : M PVal := do
  if (← getObj).stream.isSome then return .bool true
  else return .bool (← beeConnect P)

def Bee.reconnect : M PVal := do return .bool (← beeReconnect P)

def Bee.authenticate (login : ZStr) (passwd : Option ZStr) : M PVal := do
  modifyObj fun obj =>
    { obj with login := cString login.val, passwd := passwd.map fun passwd => cString passwd.val }
  onDemand P do
    discard (beeAuthenticate P)
    return .null

def Bee.flushSchema : M PVal := do
  modifyObj fun obj => { obj with schema := beeSchemaFlush obj.schema }
  return .bool true

def Bee.close : M PVal := return .bool true

def Bee.ping : M PVal := onDemand P do
  -- no array is passed
  match ← execute P [] .ping with
  | none => return .bool false
  | some _ => return .bool true

/-- `zend_zval_type_name`; the values that are not serialised are taken to be objects. -/
def zendZvalTypeName : Zval → String
  | .null => "NULL"
  | .long _ => "integer"
  | .double _ => "double"
  | .bool _ => "boolean"
  | .str _ => "string"
  | .arr _ => "array"
  | .other => "object"

/-- The limit of `select`, which is `LONG_MAX - 1` by default. -/
def withLimit (zlimit : Option Zval) (body : Int64 → M PVal) : M PVal :=
  match zlimit with
  | none | some .null => body 0x7ffffffffffffffe
  | some (.long limit) => body limit
  | some v => do
    throwExc "wrong type of 'limit' - expected long/null, got '%s'" [.s (ascii (zendZvalTypeName v))]
    return .bool false

/-- `is_iterator_all`. -/
def isIteratorAll (H : Heap) : Option Zval → Bool
  | none | some .null => true
  | some (.arr id) => zendHashNumElements (H.table id) = 0
  | _ => false

def Bee.select (H : Heap) (space : Zval) (key index zlimit : Option Zval) (offset : Int64)
    (iterator : Option Zval) : M PVal :=
  onDemand P <| withLimit zlimit fun limit => withSpace P space fun spaceNo =>
    withIndex P spaceNo index fun indexNo => do
      let iteratorId ← convertIterator iterator (isIteratorAll H key)
      if iteratorId = -1 then return .bool false
      else
        let (H, keyNew) ← StateT.lift (packKey H key true)
        request P H (.select (intToUint32 spaceNo) (intToUint32 indexNo) (longToUint32 limit)
          (longToUint32 offset) (intToUint32 iteratorId) keyNew)

def Bee.insert (H : Heap) (space : Zval) (tuple : Nat) : M PVal :=
  onDemand P <| withSpace P space fun spaceNo =>
    request P H (.insertOrReplace (intToUint32 spaceNo) (.arr tuple) beexInsert)

def Bee.replace (H : Heap) (space : Zval) (tuple : Nat) : M PVal :=
  onDemand P <| withSpace P space fun spaceNo =>
    request P H (.insertOrReplace (intToUint32 spaceNo) (.arr tuple) beexReplace)

def Bee.delete (H : Heap) (space key : Zval) (index : Option Zval) : M PVal :=
  onDemand P <| withSpace P space fun spaceNo => withIndex P spaceNo index fun indexNo => do
    let (H, keyNew) ← StateT.lift (packKey H (some key) false)
    request P H (.delete (intToUint32 spaceNo) (intToUint32 indexNo) keyNew)

def Bee.call (H : Heap) (proc : ZStr) (tuple : Option Zval) : M PVal := onDemand P do
  let (H, tupleNew) ← StateT.lift (packKey H tuple true)
  request P H (.call proc.val tupleNew)

def Bee.eval (H : Heap) (proc : ZStr) (tuple : Option Zval) : M PVal := onDemand P do
  let (H, tupleNew) ← StateT.lift (packKey H tuple true)
  request P H (.eval proc.val tupleNew)

def Bee.update (H : Heap) (space key : Zval) (args : Nat) (index : Option Zval) : M PVal :=
  onDemand P <| withSpace P space fun spaceNo => withIndex P spaceNo index fun indexNo =>
    withArgs H (.arr args) fun H args => do
      let (H, keyNew) ← StateT.lift (packKey H (some key) false)
      request P H (.update (intToUint32 spaceNo) (intToUint32 indexNo) keyNew args)

def Bee.upsert (H : Heap) (space : Zval) (tuple args : Nat) : M PVal :=
  onDemand P <| withSpace P space fun spaceNo => withArgs H (.arr args) fun H args =>
    request P H (.upsert (intToUint32 spaceNo) (.arr tuple) args)

end Methods

/-! ## Runs -/

/-- A method with its arguments. -/
inductive Op where
  | connect
  | reconnect
  | authenticate (login : ZStr) (passwd : Option ZStr)
  | flushSchema
  | close
  | ping
  | select (space : Zval) (key index zlimit : Option Zval) (offset : Int64) (iterator : Option Zval)
  | insert (space : Zval) (tuple : Nat)
  | replace (space : Zval) (tuple : Nat)
  | delete (space key : Zval) (index : Option Zval)
  | call (proc : ZStr) (tuple : Option Zval)
  | eval (proc : ZStr) (tuple : Option Zval)
  | update (space key : Zval) (args : Nat) (index : Option Zval)
  | upsert (space : Zval) (tuple args : Nat)

def Op.run (P : Platform) (H : Heap) : Op → M PVal
  | .connect => Bee.connect P
  | .reconnect => Bee.reconnect P
  | .authenticate login passwd => Bee.authenticate P login passwd
  | .flushSchema => Bee.flushSchema
  | .close => Bee.close
  | .ping => Bee.ping P
  | .select space key index zlimit offset iterator =>
    Bee.select P H space key index zlimit offset iterator
  | .insert space tuple => Bee.insert P H space tuple
  | .replace space tuple => Bee.replace P H space tuple
  | .delete space key index => Bee.delete P H space key index
  | .call proc tuple => Bee.call P H proc tuple
  | .eval proc tuple => Bee.eval P H proc tuple
  | .update space key args index => Bee.update P H space key args index
  | .upsert space tuple args => Bee.upsert P H space tuple args

/-- A method call: the method, the arrays its arguments refer to, and what the environment does. -/
structure Step where
  net : Net
  heap : Heap
  op : Op

def Step.run (P : Platform) (s : Step) : M PVal := do
  modify fun w => { w with net := s.net }
  s.op.run P s.heap

end BeePhp
