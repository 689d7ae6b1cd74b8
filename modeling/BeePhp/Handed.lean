import BeePhp.Numbered
import BeePhp.Process

/-!
# What a process hands over

All connections of a process take the syncs of their requests from one counter. This file says what the events
of a process hand to the streams, each time with the connection whose stream it is (`handed`), and what of it
belongs to one connection (`handedTo`).
-/

namespace BeePhp

open Program

/-- What was handed to the stream of a connection. -/
structure Handover where
  conn : Nat
  sent : Sent

/-- What a connection has recorded. -/
def Process.sent (p : Process) (conn : Nat) : List Sent := (p.world conn).elim [] World.sent

/-- What an event hands over that leads from `p` to `p'`: a call of a method what its connection records. -/
def Event.handed (p p' : Process) : Event → List Handover
  | .construct _ => []
  | .free _ => []
  | .call object _ => (p.objects[object]?).elim [] fun o =>
    ((p'.sent o.conn).drop (p.sent o.conn).length).map (Handover.mk o.conn)

/-- What the events hand over one after the other, from the state `p` on. -/
def handed (P : Platform) : Process → List Event → List Handover
  | _, [] => []
  | p, e :: events =>
    match e.run P p with
    | .ok (_, p') => e.handed p p' ++ handed P p' events
    | .error _ => []

/-- The part of it that was handed to the stream of this connection. -/
def handedTo (conn : Nat) (all : List Handover) : List Sent :=
  (all.filter fun h => h.conn = conn).map Handover.sent

/-- The variable that `tp_ensure` does not set is never the largest number in an object that is made. -/
def Event.Clean : Event → Prop
  | .construct c => ∀ n, c.garbage n ≠ 2 ^ 64 - 1
  | _ => True

/-- Whether the events lead to a state that passes a test. -/
def reachesTo (P : Platform) (syncCounter : Int64) (events : List Event) (test : Process → Bool) : Bool :=
  match runAll (Event.run P) events (.start syncCounter) with
  | .ok ((), p) => test p
  | .error _ => false

theorem exists_of_reachesTo {P : Platform} {syncCounter : Int64} {events : List Event} {test : Process → Bool}
    (h : reachesTo P syncCounter events test = true) : ∃ p, Reaches P syncCounter events p ∧ test p = true := by
  unfold reachesTo at h
  split at h
  case h_1 p hrun => exact ⟨p, hrun, h⟩
  case h_2 => cases h

end BeePhp
