import BeePhp.Recv
import BeePhp.Response
import BeePhp.TpCalls
import BeePhp.Zend.Decimal
import BeePhp.Zend.Heap

/-!
# bee.c: connecting and authenticating

Opening and reopening the connection, the authentication, and the lookups of space and index names.
These await their responses with a receive loop of their own.
-/

namespace BeePhp

open Codec (Bytes)

/-- `persistent_id`. -/
def persistentId (host : Bytes) (port : Nat) (login pre : Bytes) (suffix : Option Bytes) : Bytes :=
  ascii "bee-" ++ pre ++ ascii ":id=" ++ host ++ ascii ":" ++ decimal port ++ ascii "-" ++ login ++
    match suffix with
    | none => []
    | some suffix => ascii "[" ++ suffix ++ ascii "]"

/-! ## Requests written by tp.h -/

/-- Run a function of tp.h on the writer and the buffer of the connection. -/
def runTp (x : TpM Unit) : M Unit := do
  let obj ← getObj
  let ((), s) ← StateT.lift (x ⟨obj.tps, obj.value⟩)
  modifyObj fun obj => { obj with tps := s.tp, value := s.str }

/-- Requests written from the beginning of the buffer on, which is as long as they are then. -/
def composeTp {α : Type} (body : M α) : M α := do
  let start := (← getObj).value.len
  modifyObj fun obj => { obj with tps := beeTpUpdate obj.tps obj.value }
  let a ← body
  let obj ← getObj
  let value ← StateT.lift (obj.value.setLen (tpUsed obj.tps))
  modifyObj fun obj => { obj with value := value, tps := beeTpFlush obj.tps }
  modify fun w => { w with start := start, own := value.data }
  return a

/-- `tp_reqid` with the next sync. -/
def reqidNext (P : Platform) : M UInt32 := do
  let sync := longToUint32 (← nextSync)
  runTp (tpReqid P.ndebug sync)
  return sync

/-! ## Packets -/

/-- Where the reading of a packet stopped short. -/
inductive Shortage where
  | length
  | body (bodySize : Nat)
  deriving DecidableEq, Repr

/-- What the receive loops here have in common: a length, which is not checked, and as many bytes to the
beginning of the buffer. -/
def readPacket : M (Option Shortage) := do
  let (n, packLen) ← readLength .other
  if n ≠ 5 then return some .length
  else
    let bodySize ← StateT.lift (phpMpUnpackPackageSize packLen)
    modifyObj fun obj => { obj with value := obj.value.ensure bodySize }
    if (← readValue .other 0 bodySize) ≠ bodySize then return some (.body bodySize)
    else return none

/-! ## Authentication -/

/-- Record whether an authentication succeeded. -/
def recordExchange (ok : Bool) : M Unit := modify fun w => { w with
  obj := { w.obj with stream := w.obj.stream.map fun stream =>
    { stream with identity := if ok then some ⟨w.obj.login, w.obj.passwd⟩ else none } }
  exchanges := w.exchanges ++ [ok] }

/-- The syncs of the three requests of an authentication. -/
structure AuthSyncs where
  auth : UInt32
  space : UInt32
  index : UInt32

/-- Rows for the schema: the status afterwards. -/
def addToSchema (add : Schema → Option Bytes → Nat → Except Fault (Schema × Bool))
    (resp : BeexResponse) (text : String) (status : Bool) : M Bool := do
  let (schema, added) ← StateT.lift (add (← getObj).schema resp.data resp.dataLen)
  modifyObj fun obj => { obj with schema := schema }
  if ¬ added ∧ status then
    throwExc text []
    return false
  else return status

/-- The exception for a response with an error text. -/
def throwQueryError (resp : BeexResponse) : M Unit :=
  match resp.error with
  | some error => throwExc "Query error %d: %.*s" [.d (toInt resp.code.toNat), .s error]
  | none => return ()

/-- What the loop of `__bee_authenticate` does with a response: the status, and whether it is the one
that grants the authentication. -/
def authResponse (syncs : AuthSyncs) : M (Bool × Bool) := do
  let (resp, cursor) ← StateT.lift (phpTpResponse (← getObj).value.c)
  throwIf cursor.isNone "Failed to parse query" []
  throwQueryError resp
  let status := cursor.isSome && resp.error.isNone
  let granted := decide (resp.sync = syncs.auth ∧ resp.code = 0) && status
  if resp.sync = syncs.space then
    useResponse syncs.space
    let status ← addToSchema beeSchemaAddSpaces resp "Failed parsing schema (space) or memory issues"
      status
    return (status, granted)
  else if resp.sync = syncs.index then
    useResponse syncs.index
    let status ← addToSchema beeSchemaAddIndexes resp "Failed parsing schema (index) or memory issues"
      status
    return (status, granted)
  else if resp.sync = syncs.auth then
    throwQueryError resp
    return (status, granted)
  else return (status, granted)

/-- The loop of `__bee_authenticate`. After a failure it goes on reading. -/
def authLoop (syncs : AuthSyncs) : Nat → Bool → Bool → M (Bool × Bool)
  | 0, status, granted => return (status, granted)
  | n + 1, status, granted => do
    awaitResponse
    if (← readPacket).isSome then
      throwExc "Can't read query from server" []
      return (false, granted)
    else if status then
      let (status, granted') ← authResponse syncs
      authLoop syncs n status (granted || granted')
    else authLoop syncs n false granted

/-- The three requests of an authentication. -/
def authRequests (P : Platform) : M AuthSyncs := do
  let obj ← getObj
  runTp (tpAuth P.ndebug P.scramble obj.salt obj.login obj.passwd)
  let auth ← reqidNext P
  runTp (tpSelect P.ndebug spaceSpace 0 0 4096)
  runTp (tpKey P.ndebug 0)
  let space ← reqidNext P
  runTp (tpSelect P.ndebug spaceIndex 0 0 4096)
  runTp (tpKey P.ndebug 0)
  let index ← reqidNext P
  return ⟨auth, space, index⟩

/-- `__bee_authenticate`: whether it returns `SUCCESS`. -/
def beeAuthenticate (P : Platform) : M Bool := do
  modifyObj fun obj => { obj with schema := beeSchemaFlush obj.schema }
  let syncs ← composeTp (authRequests P)
  if ← beeStreamSend false then
    let (status, granted) ← authLoop syncs 3 true false
    recordExchange (status && granted)
    return status
  else
    recordExchange false
    return false

/-! ## Connecting -/

/-- The persistent id of the stream of the connection. -/
def Connection.streamId (obj : Connection) : Bytes :=
  BeePhp.persistentId obj.host obj.port obj.origLogin (ascii "stream") obj.suffix

/-- A new persistent id for a connection that is to be persistent. -/
def renewPersistentId : M Unit := modify fun w =>
  if w.isPersistent then
    { w with obj := { w.obj with persistentId := some w.obj.streamId } }
  else w

/-- `beexll_stream_read2` of the greeting. -/
def readGreeting : M Int := do
  let (rv, greeting) ← beexllStreamRead2 .other (fun off bs buf => writeAt buf off bs)
    (← getObj).greeting greetingSize
  modifyObj fun obj => { obj with greeting := greeting }
  return rv

/-- The loop of `__bee_connect`: the count it leaves, and the error text. -/
def connectLoop : Nat → Option String → M (Nat × Option String)
  | 0, err => return (0, err)
  | count + 1, _ => do
    renewPersistentId
    match ← beexllStreamOpen with
    | some err => connectLoop count (some err)
    | none =>
      if (← readGreeting) = -1 then connectLoop count none
      else return (count + 1, none)

/-- `errstr`, which holds 255 characters of the error text. It is thrown as a format, and taken for one without
conversions. -/
def connectError (err : Option String) : String := String.ofList ((err.getD "(null)").toList.take 255)

/-- `__bee_connect` from the label `retry` on. A `retry_count` below 0 passes for a connection. -/
def connectRetry (P : Platform) : M Bool := do
  let retryCount := (← get).net.retryCount
  let (count, err) ← connectLoop retryCount.toInt.toNat none
  if retryCount ≥ 0 ∧ count = 0 then
    throwExc (connectError err) []
    return false
  else if (← getObj).passwd.isSome then beeAuthenticate P
  else return true

/-- `__bee_connect`: whether it returns `SUCCESS`. -/
def beeConnect (P : Platform) : M Bool := do
  if (← get).isPersistent then
    modifyObj fun obj => { obj with persistentId := some (obj.persistentId.getD obj.streamId) }
    if ← beexllStreamFpid2 then return true
    else connectRetry P
  else connectRetry P

/-- `__bee_reconnect`. -/
def beeReconnect (P : Platform) : M Bool := do
  beeStreamClose
  beeConnect P

/-- What `BEE_CONNECT_ON_DEMAND` does when there is no stream: whether the method goes on. -/
def connectClosed (P : Platform) : M Bool := do
  if (← getObj).stream.isNone then beeConnect P else return true

/-- `BEE_CONNECT_ON_DEMAND`: whether the method goes on. -/
def connectOnDemand (P : Platform) : M Bool := do
  if ← connectClosed P then
    if (← getObj).stream.isSome then
      if ← phpStreamEof then beeReconnect P else return true
    else return true
  else return false

/-! ## Names -/

/-- What a lookup does with a packet in the buffer. -/
def lookupParse (find : Schema → Int)
    (add : Schema → Option Bytes → Nat → Except Fault (Schema × Bool)) (parseError missing : String)
    (name : Bytes) : M Int := do
  let (resp, cursor) ← StateT.lift (phpTpResponse (← getObj).value.c)
  if cursor.isNone then
    throwExc "Failed to parse query" []
    return -1
  else if resp.error.isSome then
    throwQueryError resp
    return -1
  else
    useResponse (← get).lastSync
    if ← addToSchema add resp parseError true then
      let no := find (← getObj).schema
      throwIf (no = -1) missing [.s (cString name)]
      return no
    else return -1

/-- What a lookup does with the outcome of reading a packet. -/
def lookupAnswer (shortage : Option Shortage) (parse : M Int) : M Int :=
  match shortage with
  | some .length => do
    throwExc "Can't read query from server (failed to read length)" []
    return -1
  | some (.body bodySize) => do
    throwExc "Can't read query from server (failed to read %d bytes from server [header + body])"
      [.d (toInt bodySize)]
    return -1
  | none => parse

/-- What a lookup does once its request is sent. -/
def lookupReceive (parse : M Int) : M Int := do
  askResponse
  lookupAnswer (← readPacket) parse

/-- What `get_spaceno_by_name` and `get_indexno_by_name` have in common: look for the name in the schema,
and if it is not there ask the server for it. -/
def lookupName (find : Schema → Int) (request : M Unit)
    (add : Schema → Option Bytes → Nat → Except Fault (Schema × Bool)) (parseError missing : String)
    (name : Bytes) : M Int := do
  let no := find (← getObj).schema
  if no ≠ -1 then return no
  else
    composeTp request
    if ← beeStreamSend false then lookupReceive (lookupParse find add parseError missing name)
    else return -1

/-- The request of `get_spaceno_by_name`. -/
def spaceRequest (P : Platform) (name : Bytes) : M Unit := do
  runTp (tpSelect P.ndebug spaceSpace indexSpaceName 0 4096)
  runTp (tpKey P.ndebug 1)
  runTp (tpEncodeStr P.ndebug name)
  discard (reqidNext P)

/-- The request of `get_indexno_by_name`. -/
def indexRequest (P : Platform) (spaceNo : Int) (name : Bytes) : M Unit := do
  runTp (tpSelect P.ndebug spaceIndex indexIndexName 0 4096)
  runTp (tpKey P.ndebug 2)
  runTp (tpEncodeUint P.ndebug (toSize spaceNo))
  runTp (tpEncodeStr P.ndebug name)
  discard (reqidNext P)

/-- `get_spaceno_by_name`, with -1 for `FAILURE`. -/
def getSpacenoByName (P : Platform) (name : Zval) : M Int :=
  match name with
  | .long n => return toInt n.toInt
  | .str s =>
    lookupName (beeSchemaGetSidByString · s.val) (spaceRequest P s.val) beeSchemaAddSpaces
      "Failed parsing schema (space) or memory issues" "No space '%s' defined" s.val
  | _ => do
    throwExc "Space ID must be String or Long" []
    return -1

/-- `get_indexno_by_name`. -/
def getIndexnoByName (P : Platform) (spaceNo : Int) (name : Zval) : M Int :=
  match name with
  | .null => return 0
  | .long n => return toInt n.toInt
  | .str s =>
    lookupName (beeSchemaGetIidByString · (UInt32.ofNat (toSize spaceNo)) s.val)
      (indexRequest P spaceNo s.val) beeSchemaAddIndexes
      "Failed parsing schema (index) or memory issues" "No index '%s' defined" s.val
  | _ => do
    throwExc "Index ID must be String or Long" []
    return -1

end BeePhp
