import BeePhp.Runs
import BeePhp.TpRequests

/-!
# The requests of a run

Every request takes the next value of the counter of the process for its sync, whichever encoder writes it. This
file says what has been encoded when that is so (`World.Numbered`).
-/

namespace BeePhp

open Codec

/-- The header of a request, with a sync of any width. -/
def syncHeader (type : Nat) (w : IntWidth) (sync : UInt32) : Doc :=
  .ofPairs [(.ofNat beexCode.toNat, .ofNat type), (.ofNat beexSync.toNat, .uint w sync.toNat)]

/-- A request with this sync: a header and no more than a body. -/
def IsRequest (sync : UInt32) (payload : Bytes) : Prop :=
  ∃ (type : Nat) (w : IntWidth) (body : List Doc), AllWF (syncHeader type w sync :: body) ∧ body.length ≤ 1 ∧
    payload = encodeAll (syncHeader type w sync :: body)

/-- The syncs of these requests are the values of the counter from `n` on, and `n'` is the next one. -/
inductive RequestsFrom : Int64 → List Bytes → Int64 → Prop
  | nil {n : Int64} : RequestsFrom n [] n
  | cons {n n' : Int64} {payload : Bytes} {payloads : List Bytes} : IsRequest (longToUint32 n) payload →
    RequestsFrom (n + 1) payloads n' → RequestsFrom n (payload :: payloads) n'

/-- What was encoded are the frames of these requests, and of one if it is a data request. -/
def Sent.Encodes (s : Sent) (payloads : List Bytes) : Prop :=
  s.own = (payloads.map frame).flatten ∧ (s.request = true → payloads.length = 1)

/-- What was encoded are whole requests, with the syncs from `n` on, and `n'` is the next one after `more` of them
that are not recorded yet; unless something that was encoded is longer than a frame can be. -/
def NumberedFrom (n : Int64) (sent : List Sent) (more : List Bytes) (n' : Int64) : Prop :=
  (∀ s ∈ sent, s.own.length < 2 ^ 32) → ∃ batches : List (List Bytes),
    List.Forall₂ Sent.Encodes sent batches ∧ RequestsFrom n (batches.flatten ++ more) n'

/-- What was encoded behind `before`, since the counter was `n`. -/
def World.Numbered (before : List Sent) (n : Int64) (more : List Bytes) (w : World) : Prop :=
  ∃ sent, w.sent = before ++ sent ∧ NumberedFrom n sent more w.syncCounter

end BeePhp
