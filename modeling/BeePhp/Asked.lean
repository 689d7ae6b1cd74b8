import BeePhp.Methods
import BeePhp.Request
import BeePhp.TpRequests

/-!
# What the methods ask for

A method hands to the stream the batches of the authentications, lookups of the names it was given, and one data
request: the one for its arguments (`Op.Asks`), behind what the buffer holds. This file says so of the bytes that
it hands over (`Op.Hands`).
-/

namespace BeePhp

open Codec

/-! ## The data request -/

/-- The number of a space or of an index that is given as a number. A name has any number. -/
def Zval.Resolves : Zval → Int → Prop
  | .long n, no => no = toInt n.toInt
  | .str _, _ => True
  | _, _ => False

/-- The number of an index, which is 0 when none is given. -/
def indexResolves : Option Zval → Int → Prop
  | none, no => no = 0
  | some .null, no => no = 0
  | some index, no => index.Resolves no

/-- The limit of a select. -/
def limitIs : Option Zval → Int64 → Prop
  | none, limit => limit = 0x7ffffffffffffffe
  | some .null, limit => limit = 0x7ffffffffffffffe
  | some (.long n), limit => limit = n
  | some _, _ => False

/-- The request of a method for its arguments, and the arrays that it refers to. `spaceNo` is the number of the
space. -/
def Op.Asks (H : Heap) (spaceNo : Int) : Op → Heap → Request → Prop
  | .ping, H', r => H' = [] ∧ r = .ping
  | .select space key index zlimit offset iterator, H', r => ∃ indexNo limit iteratorId keyNew,
    space.Resolves spaceNo ∧ indexResolves index indexNo ∧ limitIs zlimit limit ∧
      (∃ w w', convertIterator iterator (isIteratorAll H key) w = .ok (iteratorId, w')) ∧
      packKey H key true = .ok (H', keyNew) ∧
      r = .select (intToUint32 spaceNo) (intToUint32 indexNo) (longToUint32 limit) (longToUint32 offset)
        (intToUint32 iteratorId) keyNew
  | .insert space tuple, H', r => H' = H ∧ space.Resolves spaceNo ∧
    r = .insertOrReplace (intToUint32 spaceNo) (.arr tuple) beexInsert
  | .replace space tuple, H', r => H' = H ∧ space.Resolves spaceNo ∧
    r = .insertOrReplace (intToUint32 spaceNo) (.arr tuple) beexReplace
  | .delete space key index, H', r => ∃ indexNo keyNew, space.Resolves spaceNo ∧ indexResolves index indexNo ∧
    packKey H (some key) false = .ok (H', keyNew) ∧ r = .delete (intToUint32 spaceNo) (intToUint32 indexNo) keyNew
  | .call proc tuple, H', r => ∃ tupleNew,
    packKey H tuple true = .ok (H', tupleNew) ∧ r = .call proc.val tupleNew
  | .eval proc tuple, H', r => ∃ tupleNew,
    packKey H tuple true = .ok (H', tupleNew) ∧ r = .eval proc.val tupleNew
  | .update space key args index, H', r => ∃ indexNo H₁ ops keyNew, space.Resolves spaceNo ∧
    indexResolves index indexNo ∧ beeUpdateVerifyArgs H (.arr args) = .ok (H₁, ops) ∧
    packKey H₁ (some key) false = .ok (H', keyNew) ∧
    r = .update (intToUint32 spaceNo) (intToUint32 indexNo) keyNew ops
  | .upsert space tuple args, H', r => ∃ ops, space.Resolves spaceNo ∧
    beeUpdateVerifyArgs H (.arr args) = .ok (H', ops) ∧ r = .upsert (intToUint32 spaceNo) (.arr tuple) ops
  | _, _, _ => False

/-- The methods that work on data. -/
def Op.OnData : Op → Prop
  | .connect | .reconnect | .authenticate .. | .flushSchema | .close => False
  | _ => True

/-! ## Lookups -/

/-- A lookup of a name: of a space, or of an index of a space. -/
inductive Lookup where
  | space (name : Bytes)
  | index (spaceNo : Int) (name : Bytes)

def Lookup.doc : Lookup → UInt32 → RequestDoc
  | .space name, sync => spaceDoc name sync
  | .index spaceNo name, sync => indexDoc (toSize spaceNo) name sync

/-- The lookup of what is given by its name. -/
def Zval.lookups (lookup : Bytes → Lookup) : Zval → List Lookup
  | .str name => [lookup name.val]
  | _ => []

/-- The lookups for the arguments of a method. -/
def Op.lookups (spaceNo : Int) : Op → List Lookup
  | .select space _ index _ _ _ => space.lookups .space ++ index.elim [] (Zval.lookups (.index spaceNo))
  | .insert space _ => space.lookups .space
  | .replace space _ => space.lookups .space
  | .delete space _ index => space.lookups .space ++ index.elim [] (Zval.lookups (.index spaceNo))
  | .update space _ _ index => space.lookups .space ++ index.elim [] (Zval.lookups (.index spaceNo))
  | .upsert space _ _ => space.lookups .space
  | _ => []

/-! ## What is handed to the stream -/

/-- The login and the password with which an object authenticates during a method. -/
def Op.user (obj : Connection) : Op → Bytes × Option Bytes
  | .authenticate login passwd => (cString login.val, passwd.map fun passwd => cString passwd.val)
  | _ => (obj.login, obj.passwd)

/-- The batch of an authentication with this login and this password. -/
def Sent.IsBatch (P : Platform) (user : Bytes × Option Bytes) (s : Sent) : Prop :=
  s.request = false ∧ ∃ (salt : Bytes) (body : Doc) (n : Int64),
    AuthBody user.1 (user.2.map (P.scramble salt)) body ∧ s.bytes = docFrames (authBatch body n)

/-- The request of a lookup. -/
def Lookup.Sends (l : Lookup) (s : Sent) : Prop := s.request = false ∧ ∃ sync, s.bytes = docFrames [l.doc sync]

/-- The request of a method, behind what was in the buffer before it was encoded. -/
def Sent.IsDataRequest (H : Heap) (r : Request) (s : Sent) : Prop :=
  s.request = true ∧ ∃ (before : Bytes) (sync : UInt32), before.length = s.start ∧
    s.bytes = before ++ (0xce :: toBE 4 (toUint32 (r.payload H sync).length) ++ r.payload H sync)

end BeePhp
