import BeePhp.Occupancy
import Mathlib.Logic.Function.Basic

/-!
# Runs of a table

What a table of mhash.h is for: a map from keys to nodes. This file says what calls there are on a table, what
they are on a map, and how large a table can have become after so many puts.
-/

namespace BeePhp

variable {κ ν : Type} [DecidableEq κ] (d : Hashed κ ν)

/-- The calls on a table. -/
inductive TableCall (κ ν : Type) where
  | put (v : ν)
  /-- `mh_find`, and `mh_del` of what it has found -/
  | del (k : κ)
  | find (k : κ)

/-- A call on a table, and the node it has found. -/
def TableCall.run (h : Mhash ν) : TableCall κ ν → Except Fault (Mhash ν × Option ν)
  | .put v => do return (← mhPut d h v, none)
  | .del k => do
    let x ← mhFind d h.toBuckets k
    return (← mhDel d h x, h.node x)
  | .find k => do
    let x ← mhFind d h.toBuckets k
    return (h, h.node x)

/-- The call on a map. -/
def TableCall.runMap (m : κ → Option ν) : TableCall κ ν → (κ → Option ν) × Option ν
  | .put v => (Function.update m (d.key v) (some v), none)
  | .del k => (Function.update m k none, m k)
  | .find k => (m, m k)

/-- Calls one after the other, with what each of them has found. -/
def runTableCalls : List (TableCall κ ν) → Mhash ν → Except Fault (Mhash ν × List (Option ν))
  | [], h => .ok (h, [])
  | c :: cs, h => do
    let (h, found) ← c.run d h
    let (h, rest) ← runTableCalls cs h
    return (h, found :: rest)

/-- The calls on a map. -/
def runMapCalls : List (TableCall κ ν) → (κ → Option ν) → (κ → Option ν) × List (Option ν)
  | [], m => (m, [])
  | c :: cs, m =>
    let (m, found) := c.runMap d m
    let (m, rest) := runMapCalls cs m
    (m, found :: rest)

/-- The calls that put a node. -/
def TableCall.puts : TableCall κ ν → Nat
  | .put _ => 1
  | _ => 0

/-! ## The invariant -/

/-- After `n` puts there are at most `n` nodes. A resize puts a node into the shadow a second time if it was put
there before its slot was moved. -/
structure Mhash.Counts (h : Mhash ν) (n : Nat) : Prop where
  size : h.size ≤ n
  nDirty : h.nDirty ≤ 2 * n
  shadow : 0 < h.resizePosition → h.shadow.nDirty + h.slots.held h.resizePosition h.nBuckets ≤ 2 * n

/-- After `n` puts the table stands for the map. -/
structure Mhash.Represents (h : Mhash ν) (m : κ → Option ν) (n : Nat) : Prop where
  ok : h.Ok d
  counts : h.Counts n
  holds : ∀ k v, m k = some v ↔ h.Holds v ∧ d.key v = k

end BeePhp
