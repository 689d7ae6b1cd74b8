import BeePhp.Connection

/-!
# What connecting is for

A connection that `__bee_connect` reports as made is to be usable: there is a stream, opened by the last
attempt, and the greeting of the server has been read from it (`World.Connected`). `Net.Greets` says what
this takes of the setting `bee.retry_count` and of the server.
-/

namespace BeePhp

open Codec (Bytes)

/-- What an attempt to open a stream brings. -/
def Attempt.greeting? : Attempt → Option Bytes
  | .refused _ => none
  | .opened greeting => some greeting

/-- The last of `attempts` has opened the stream, from which the greeting has been read and nothing
else. -/
def World.Greeted (w w' : World) (attempts : Nat) : Prop :=
  ∃ bytes, w.net.opens[attempts - 1]? = some (.opened bytes) ∧ 0 < attempts ∧
    greetingSize ≤ bytes.length ∧ w'.obj.greeting = bytes.take greetingSize ∧
    w'.obj.stream = some ⟨bytes.drop greetingSize, [], none⟩

/-- What `__bee_connect` is to do from `w` on: make at most as many attempts as it is told to, and return
`SUCCESS` with a connection that is usable or `FAILURE` with an exception. -/
def World.Connected (w : World) (success : Bool) (w' : World) : Prop :=
  ∃ attempts : Nat, w'.ids.length = w.ids.length + attempts ∧
    (attempts : Int) ≤ max w.net.retryCount.toInt 0 ∧
    (success = true → w.Greeted w' attempts) ∧
    (success = false → ∃ m, w'.exceptions = w.exceptions ++ [m])

/-- The chunks of a kind of reads. -/
def Net.chunksOf (net : Net) : ReadKind → List Nat
  | .length => net.lengthChunks
  | .other => net.chunks

/-- Reads that deliver at most so many bytes each come to `n` bytes before one of them is empty. -/
def Gathers : List Nat → Nat → Prop
  | [], _ => True
  | c :: cs, n => n = 0 ∨ 0 < c ∧ Gathers cs (n - c)

/-- The setting is not negative, and the first attempt that opens a stream, if one does in time, opens one
on which the whole greeting arrives. -/
def Net.Greets (net : Net) : Prop :=
  0 ≤ net.retryCount ∧ ∀ bytes,
    (net.opens.take net.retryCount.toInt.toNat).findSome? Attempt.greeting? = some bytes →
      greetingSize ≤ bytes.length ∧ Gathers (net.chunksOf .other) greetingSize

end BeePhp
