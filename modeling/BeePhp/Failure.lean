import BeePhp.Methods
import BeePhp.Program.Reports
import BeePhp.Received

/-!
# Failures and exceptions

A method that returns FALSE is to have thrown an exception (`Reported`). This file says in which states a
failure on the way there throws none (`Op.Silent`): a write that fails, a number that passes for `FAILURE`, a
response that is given up without a word, and FALSE as an answer.
-/

namespace BeePhp

open Codec (Bytes)
open Program

/-- If the method returns FALSE, it has thrown an exception. -/
def Reported (P : Platform) (H : Heap) (op : Op) (w : World) : Prop :=
  ∀ w', op.run P H w = .ok (.bool false, w') → w.exceptions.length < w'.exceptions.length

/-- A test for methods that return FALSE and throw no exception. -/
def failsQuietly (P : Platform) (H : Heap) (op : Op) (w : World) : Bool :=
  match op.run P H w with
  | .ok (.bool false, w') => w'.exceptions.length = w.exceptions.length
  | _ => false

/-! ## Writes -/

/-- The stream is open, and the next write to it fails. -/
def World.WriteFails (w : World) : Prop :=
  w.obj.stream.isSome ∧ ∃ n, w.net.writes.head? = some (.failed n)

/-- Requests are composed that cannot be written. -/
def Unsent {α : Type} (body : M α) : World → Prop :=
  After (composeTp body) (fun _ => True) fun _ => World.WriteFails

section Silent

variable (P : Platform)

def AuthUnsent (w : World) : Prop :=
  Unsent (authRequests P) { w with obj := { w.obj with schema := beeSchemaFlush w.obj.schema } }

/-- A stream is opened, and the authentication on it cannot be written. -/
def RetryUnsent (w : World) : Prop :=
  After (connectLoop w.net.retryCount.toInt.toNat none)
    (fun r => ¬ (w.net.retryCount ≥ 0 ∧ r.1 = 0)) (fun _ v => v.obj.passwd.isSome ∧ AuthUnsent P v) w

/-- What `__bee_connect` does before the label `retry`: whether it has found a persistent stream. -/
def findPersistent : M Bool := do
  modifyObj fun obj => { obj with persistentId := some (obj.persistentId.getD obj.streamId) }
  beexllStreamFpid2

def ConnectUnsent (w : World) : Prop :=
  if w.isPersistent then After findPersistent (· = false) (fun _ => RetryUnsent P) w else RetryUnsent P w

def ReconnectUnsent : World → Prop := After beeStreamClose (fun _ => True) fun _ => ConnectUnsent P

/-- `BEE_CONNECT_ON_DEMAND` connects, or finds the stream at its end and connects again, and an
authentication cannot be written. -/
def OnDemandUnsent (w : World) : Prop :=
  (w.obj.stream = none ∧ ConnectUnsent P w) ∨
    After (connectClosed P) (· = true) (fun _ v => v.obj.stream.isSome ∧
      After phpStreamEof (· = true) (fun _ => ReconnectUnsent P) v) w

/-! ## Numbers -/

/-- The conversion of a `long` to `int` gives -1, which is `FAILURE`. -/
def PassesForFailure (n : Int64) : Prop := toInt n.toInt = -1

/-- The name is not in the cache, and its lookup cannot be written. -/
def LookupUnsent (find : Schema → Int) (request : M Unit) (w : World) : Prop :=
  find w.obj.schema = -1 ∧ Unsent request w

def SpaceSilent (space : Zval) (w : World) : Prop :=
  match space with
  | .long n => PassesForFailure n
  | .str s => LookupUnsent (beeSchemaGetSidByString · s.val) (spaceRequest P s.val) w
  | _ => False

def IndexSilent (spaceNo : Int) (index : Zval) (w : World) : Prop :=
  match index with
  | .long n => PassesForFailure n
  | .str s => LookupUnsent (beeSchemaGetIidByString · (UInt32.ofNat (toSize spaceNo)) s.val)
      (indexRequest P spaceNo s.val) w
  | _ => False

def IteratorSilent : Option Zval → Prop
  | some (.long n) => PassesForFailure n
  | _ => False

/-! ## Responses -/

/-- `php_mp_unpack` gives the bytes up without an exception. -/
def UnpacksMute (bs : Bytes) : Prop := phpMpUnpack P.ndebug bs = .error (.failure none)

/-- The validator accepts the bytes of a response of `size` bytes, but they begin with no array, or with a
header or a body that is given up without an exception. -/
def GivenUp (bs : Bytes) (size : Nat) : Prop :=
  checkStatus bs size = .ok 0 ∧
    (UnpacksMute P bs ∨
      ∃ header rest, phpMpUnpack P.ndebug bs = .ok (header, rest) ∧
        ((∀ entries next, header ≠ .arr entries next) ∨
          checkStatus rest size = .ok 0 ∧ UnpacksMute P rest))

/-- `bee_step_recv` takes a response off the stream that is given up. -/
def RecvSilent (w : World) : Prop :=
  ∃ payload w', Receives checkStatus w payload w' ∧
    GivenUp P (payload ++ w.obj.value.behind payload.length) payload.length

/-- What a data request does before it is sent: its sync. -/
def prepare (H : Heap) (r : Request) : M Int64 := do
  let sync ← nextSync
  let value := (← getObj).value
  let (value', _) ← StateT.lift (r.encode P.ndebug H value (fun _ => 0) (longToUint32 sync))
  modifyObj fun obj => { obj with value := value' }
  modify fun w => { w with start := value.len, own := value'.data.drop value.len }
  return sync

/-- The request cannot be written, or its response is given up. -/
def ExecuteSilent (H : Heap) (r : Request) : World → Prop :=
  After (prepare P H r) (fun _ => True) fun _ v => v.WriteFails ∨
    After (beeStreamSend true) (· = true) (fun _ => After awaitResponse (fun _ => True) fun _ => RecvSilent P) v

/-- The answer under DATA is FALSE. -/
def AnswersFalse (answer : Option (PVal × PVal)) : Prop :=
  ∃ header entries next, answer = some (header, .arr entries next) ∧
    indexFind entries beexData = some (.bool false)

def RequestSilent (H : Heap) (r : Request) (w : World) : Prop :=
  ExecuteSilent P H r w ∨ After (execute P H r) (· ≠ none) (fun answer _ => AnswersFalse answer) w

/-! ## Methods -/

/-- A method that connects on demand comes to `silent`, or fails before. -/
def onDemandSilent (silent : World → Prop) (w : World) : Prop :=
  OnDemandUnsent P w ∨ After (connectOnDemand P) (· = true) (fun _ => silent) w

def withSpaceSilent (space : Zval) (silent : Int → World → Prop) (w : World) : Prop :=
  SpaceSilent P space w ∨ After (getSpacenoByName P space) (· ≠ -1) silent w

def withIndexSilent (spaceNo : Int) (index : Option Zval) (silent : Int → World → Prop) (w : World) : Prop :=
  match index with
  | none => silent 0 w
  | some index =>
    IndexSilent P spaceNo index w ∨ After (getIndexnoByName P spaceNo index) (· ≠ -1) silent w

def withArgsSilent (H : Heap) (args : Zval) (silent : Heap → Zval → World → Prop) (w : World) : Prop :=
  match beeUpdateVerifyArgs H args with
  | .error _ => False
  | .ok (H, args) => silent H args w

def withLimitSilent (zlimit : Option Zval) (silent : Int64 → World → Prop) (w : World) : Prop :=
  match zlimit with
  | none | some .null => silent 0x7ffffffffffffffe w
  | some (.long limit) => silent limit w
  | some _ => False

def withIteratorSilent (iterator : Option Zval) (all : Bool) (silent : Int → World → Prop) (w : World) :
    Prop :=
  IteratorSilent iterator ∨ After (convertIterator iterator all) (· ≠ -1) silent w

/-- A key is packed, and what follows is silent. -/
def withKeySilent (H : Heap) (key : Option Zval) (select : Bool) (silent : Heap → Zval → World → Prop)
    (w : World) : Prop :=
  ∃ H' keyNew, packKey H key select = .ok (H', keyNew) ∧ silent H' keyNew w

/-- In the state `w` the method comes to return FALSE without an exception: the branches that lead there, in
the order in which the method gets to them. -/
def Op.Silent (H : Heap) : Op → World → Prop
  | .connect => fun w => w.obj.stream = none ∧ ConnectUnsent P w
  | .reconnect => ReconnectUnsent P
  | .authenticate login passwd => fun w => OnDemandUnsent P { w with obj := { w.obj with
      login := cString login.val, passwd := passwd.map fun passwd => cString passwd.val } }
  | .flushSchema | .close => fun _ => False
  | .ping => onDemandSilent P <| ExecuteSilent P [] .ping
  | .select space key index zlimit offset iterator =>
    onDemandSilent P <| withLimitSilent zlimit fun limit => withSpaceSilent P space fun spaceNo =>
      withIndexSilent P spaceNo index fun indexNo =>
        withIteratorSilent iterator (isIteratorAll H key) fun iteratorId =>
          withKeySilent H key true fun H keyNew =>
            RequestSilent P H (.select (intToUint32 spaceNo) (intToUint32 indexNo) (longToUint32 limit)
              (longToUint32 offset) (intToUint32 iteratorId) keyNew)
  | .insert space tuple => onDemandSilent P <| withSpaceSilent P space fun spaceNo =>
      RequestSilent P H (.insertOrReplace (intToUint32 spaceNo) (.arr tuple) beexInsert)
  | .replace space tuple => onDemandSilent P <| withSpaceSilent P space fun spaceNo =>
      RequestSilent P H (.insertOrReplace (intToUint32 spaceNo) (.arr tuple) beexReplace)
  | .delete space key index => onDemandSilent P <| withSpaceSilent P space fun spaceNo =>
      withIndexSilent P spaceNo index fun indexNo => withKeySilent H (some key) false fun H keyNew =>
        RequestSilent P H (.delete (intToUint32 spaceNo) (intToUint32 indexNo) keyNew)
  | .call proc tuple => onDemandSilent P <| withKeySilent H tuple true fun H tupleNew =>
      RequestSilent P H (.call proc.val tupleNew)
  | .eval proc tuple => onDemandSilent P <| withKeySilent H tuple true fun H tupleNew =>
      RequestSilent P H (.eval proc.val tupleNew)
  | .update space key args index => onDemandSilent P <| withSpaceSilent P space fun spaceNo =>
      withIndexSilent P spaceNo index fun indexNo => withArgsSilent H (.arr args) fun H args =>
        withKeySilent H (some key) false fun H keyNew =>
          RequestSilent P H (.update (intToUint32 spaceNo) (intToUint32 indexNo) keyNew args)
  | .upsert space tuple args => onDemandSilent P <| withSpaceSilent P space fun spaceNo =>
      withArgsSilent H (.arr args) fun H args =>
        RequestSilent P H (.upsert (intToUint32 spaceNo) (.arr tuple) args)

end Silent

end BeePhp
