import BeePhp.Methods
import BeePhp.Received

/-!
# Integer arguments

What an integer argument is for: the number that a script gives is the number in the field of the
request (`requestField`). `Op.integers` are the integers that a method is given for fields of its
request.
-/

namespace BeePhp

open Codec (Bytes)

/-- The integer in a field of the body of a request. The body stands behind the header, which stands
behind the length of the request. -/
def requestField (bytes : Bytes) (key : UInt32) : Option Int :=
  match phpMpUnpack true (bytes.drop 5) with
  | .ok (_, pos) =>
    match phpMpUnpack true pos with
    | .ok (.arr body _, _) =>
      match indexFind body key with
      | some (.long n) => some n.toInt
      | _ => none
    | _ => none
  | _ => none

/-- An argument that is an integer, with the key of its field. -/
def integerArg (key : UInt32) : Option Zval → List (UInt32 × Int64)
  | some (.long n) => [(key, n)]
  | _ => []

/-- The integers among the arguments, each with the key of its field. -/
def Op.integers : Op → List (UInt32 × Int64)
  | .select space _ index zlimit offset iterator =>
    integerArg beexSpace (some space) ++ integerArg beexIndex index ++ integerArg beexLimit zlimit ++
      (beexOffset, offset) :: integerArg beexIterator iterator
  | .insert space _ | .replace space _ | .upsert space _ _ => integerArg beexSpace (some space)
  | .delete space _ index | .update space _ _ index =>
    integerArg beexSpace (some space) ++ integerArg beexIndex index
  | _ => []

/-- The data requests that were handed to the stream. -/
def World.dataRequests (w : World) : List Sent := w.sent.filter (·.request)

/-- The number is one of 32 bits without a sign. -/
def IsUint32 (n : Int64) : Prop := 0 ≤ n.toInt ∧ n.toInt < 2 ^ 32

end BeePhp
