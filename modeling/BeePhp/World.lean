import BeePhp.Schema
import BeePhp.Tp
import BeePhp.Zend.Value

/-!
# The connection and its environment

The state that the methods of `Bee` work on: the connection object, the process-wide counter, what the
network and the server will do, and a record of what was handed to the stream.
-/

namespace BeePhp

open Codec (Bytes toBE ofBE)

/-! ## The platform -/

/-- What depends on the build and on code elsewhere: whether assertions are compiled out, the number
that the pointer of a string or an array is when it is read as a `long`, and `tp_scramble_prepare` of a
salt in base64 and a password. -/
structure Platform where
  ndebug : Bool
  address : PVal → Int64
  scramble : Bytes → Bytes → Bytes
  scramble_length : ∀ salt password, (scramble salt password).length = scrambleSize

/-- A platform on which pointers read as 0 and scrambles are blank. -/
def Platform.blank (ndebug : Bool) : Platform :=
  ⟨ndebug, fun _ => 0, fun _ _ => List.replicate scrambleSize 0, fun _ _ => List.length_replicate⟩

/-! ## Exceptions -/

inductive MsgArg where
  | d (n : Int)
  | s (text : Bytes)
  deriving DecidableEq, Repr

/-- An exception: a format and its arguments. -/
structure Message where
  format : String
  args : List MsgArg
  deriving DecidableEq, Repr

/-! ## Streams and the server -/

/-- A login and a password. -/
structure Identity where
  login : Bytes
  passwd : Option Bytes
  deriving DecidableEq, Repr

/-- An open stream: the bytes that have arrived and are not read, the bytes that were sent and are not a
whole request yet, and as whom the last authentication on it succeeded. -/
structure Stream where
  inbox : Bytes
  pending : Bytes
  identity : Option Identity
  deriving DecidableEq, Repr

/-- How an attempt to open a stream ends: with an error text, or with what the server sends to greet. -/
inductive Attempt where
  | refused (err : String)
  | opened (greeting : Bytes)
  deriving DecidableEq, Repr

/-- How a write of a stream ends: with all bytes written and flushed, or with a failure after some of
them got through. -/
inductive WriteOutcome where
  | ok
  | failed (n : Nat)
  deriving DecidableEq, Repr

/-- What the environment will do during a method: the setting `bee.retry_count`, the persistent streams
it finds, the attempts to open one, the answers of `php_stream_eof`, the writes, the most bytes each
read delivers (0 is a timeout), and what the server sends back for each request. `lengthChunks` are the
reads of the length of a response in `bee_step_recv`, `chunks` all others. At the end of a list writes
succeed, reads deliver what there is, and the server sends empty payloads. -/
structure Net where
  retryCount : Int64
  finds : List (Option Stream)
  opens : List Attempt
  eofs : List Bool
  writes : List WriteOutcome
  lengthChunks : List Nat
  chunks : List Nat
  replies : List Bytes

/-- A payload of no bytes with its length before it. -/
def emptyReply : Bytes := [0xce, 0, 0, 0, 0]

/-- The number of requests, each after its length in five bytes, that a row of bytes holds, and the
bytes after them. -/
def splitRequests : Nat → Bytes → Nat × Bytes
  | 0, bs => (0, bs)
  | fuel + 1, bs =>
    let len := ofBE (bs.tail.take 4)
    if 5 + len ≤ bs.length then
      let (n, pending) := splitRequests fuel (bs.drop (5 + len))
      (n + 1, pending)
    else (0, bs)

/-- What the server sends for `n` requests. -/
def takeReplies (n : Nat) (replies : List Bytes) : Bytes :=
  ((List.range n).map fun i => replies.getD i emptyReply).flatten

/-- The bytes `bs` reach the server, which answers the requests that they complete. -/
def Stream.deliver (stream : Stream) (replies : List Bytes) (bs : Bytes) : Stream × List Bytes :=
  let (n, pending) := splitRequests (stream.pending ++ bs).length (stream.pending ++ bs)
  (⟨stream.inbox ++ takeReplies n replies, pending, stream.identity⟩, replies.drop n)

/-! ## The connection -/

/-- A `bee_connection`. The `salt` is a part of the greeting. -/
structure Connection where
  host : Bytes
  port : Nat
  login : Bytes
  passwd : Option Bytes
  stream : Option Stream
  schema : Schema
  value : SmartString
  tps : Tp
  greeting : Bytes
  origLogin : Bytes
  suffix : Option Bytes
  persistentId : Option Bytes

def greetingSize : Nat := 128
def saltPrefixSize : Nat := 64

/-- `obj->salt`, of which `tp_auth` decodes 44 characters. -/
def Connection.salt (obj : Connection) : Bytes := (obj.greeting.drop saltPrefixSize).take 44

/-- The login and the password the object holds, if it holds both. -/
def Connection.credentials (obj : Connection) : Option Identity :=
  obj.passwd.map fun passwd => ⟨obj.login, some passwd⟩

/-- A new connection object, as `__construct` initialises it. The suffix is not kept. `fresh` is what new
memory of the buffer holds. -/
def Connection.new (host : Bytes) (port : Nat) (login : Bytes) (passwd persistentId : Option Bytes)
    (fresh : Nat → UInt8) (garbage : Nat → Nat) : Connection :=
  let value := (SmartString.null fresh).ensure greetingSize
  { host, port, login, passwd, stream := none, schema := .empty, value,
    tps := ⟨0, value.a, none, none, garbage⟩, greeting := List.replicate greetingSize 0,
    origLogin := login, suffix := none, persistentId }

/-- A record of what was handed to the stream in one go: whether it is a data request, the length of the
buffer when the encoding of it began, what the operation encoded, what it handed to the stream, the
credentials of the object then, and as whom the stream was authenticated. -/
structure Sent where
  request : Bool
  start : Nat
  own : Bytes
  bytes : Bytes
  credentials : Option Identity
  identity : Option Identity
  deriving DecidableEq, Repr

/-- A response that is awaited: the sync of the request, and what lies ahead on the stream. -/
structure Awaited where
  sync : UInt32
  ahead : Bytes
  deriving DecidableEq, Repr

/-- The state. `start` and `own` are what `Sent` records of the request being encoded; `exchanges` says
of every authentication whether it succeeded, and of every persistent stream that was found whether it
is authenticated with the credentials of the object. `ids` are the persistent ids with which streams were
looked for and opened. `ahead` is what `Awaited` records of the response being read; `asked` are the
responses that the lookups of names awaited, and `used` those that were handed out or went into the
schema. -/
structure World where
  obj : Connection
  isPersistent : Bool
  syncCounter : Int64
  net : Net
  exceptions : List Message
  start : Nat
  own : Bytes
  sent : List Sent
  exchanges : List Bool
  ids : List (Option Bytes)
  ahead : Bytes
  asked : List Awaited
  used : List Awaited

/-- An environment in which nothing happens but what is asked for. -/
def Net.calm : Net := ⟨1, [], [], [], [], [], [], []⟩

/-- The state in which `obj` is new. -/
def World.init (obj : Connection) (isPersistent : Bool) (syncCounter : Int64) : World :=
  ⟨obj, isPersistent, syncCounter, .calm, [], 0, [], [], [], [], [], [], []⟩

/-- The methods. -/
abbrev M := StateT World (Except Fault)

/-! ## Access to the state -/

def getObj : M Connection := do return (← get).obj

def modifyObj (f : Connection → Connection) : M Unit := modify fun w => { w with obj := f w.obj }

def throwExc (format : String) (args : List MsgArg) : M Unit :=
  modify fun w => { w with exceptions := w.exceptions ++ [⟨format, args⟩] }

def throwIf (p : Prop) [Decidable p] (format : String) (args : List MsgArg) : M Unit :=
  if p then throwExc format args else return ()

/-- `BEE_G(sync_counter)++`. -/
def nextSync : M Int64 := do
  let w ← get
  set { w with syncCounter := w.syncCounter + 1 }
  return w.syncCounter

/-- `SSTR_LEN(obj->value) = 0; smart_string_nullify(obj->value)`. -/
def resetValue : M Unit := do
  let value ← StateT.lift ((← getObj).value.setLen 0)
  modifyObj fun obj => { obj with value := value.nullify }

/-! ## Records of responses -/

/-- The last sync that was taken. -/
def World.lastSync (w : World) : UInt32 := longToUint32 (w.syncCounter - 1)

/-- A response is awaited. -/
def awaitResponse : M Unit := modify fun w => { w with ahead := (w.obj.stream.map (·.inbox)).getD [] }

/-- A lookup awaits the response to the request it has just sent. -/
def askResponse : M Unit := do
  awaitResponse
  modify fun w => { w with asked := w.asked ++ [⟨w.lastSync, w.ahead⟩] }

/-- What has been read is used as the response to the request with this sync. -/
def useResponse (sync : UInt32) : M Unit := modify fun w => { w with used := w.used ++ [⟨sync, w.ahead⟩] }

end BeePhp
