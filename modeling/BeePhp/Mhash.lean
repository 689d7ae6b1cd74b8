import BeePhp.Codec.Pages
import BeePhp.Machine

/-!
# mhash.h

The hash tables of third_party: open addressing with double hashing, where a table that has become too full
is moved to larger buckets a batch at a time. Memory does not run out.
-/

namespace BeePhp

open Codec (Pages)

/-- `__ac_prime_list`. -/
def primeList : List Nat :=
  [3, 11, 23, 53, 97, 193, 389, 769, 1543, 3079, 6151, 12289, 24593, 49157, 98317, 196613, 393241, 786433,
    1572869, 3145739, 6291469, 12582917, 25165843, 50331653, 100663319, 201326611, 402653189, 805306457,
    1610612741, 3221225473, 4294967291]

/-- Buckets and what is counted of them: `p`, `n_buckets`, `n_dirty`, `size`, `upper_bound` and `prime`. The
bits of `mh_exist` and of `mh_dirty`, which `b` holds together, are two numbers here. -/
structure Buckets (ν : Type) where
  p : Pages (Option ν)
  existBits : Nat
  dirtyBits : Nat
  nBuckets : Nat
  nDirty : Nat
  size : Nat
  upperBound : Nat
  prime : Nat

/-- A table. While `resize_position` is not 0 its nodes are being moved to the shadow. -/
structure Mhash (ν : Type) extends Buckets ν where
  resizePosition : Nat
  batch : Nat
  shadow : Buckets ν

/-- The product with `MH_DENSITY`. -/
def density (n : Nat) : Nat := 7 * n / 10

namespace Buckets

variable {ν : Type} (h : Buckets ν)

/-- `mh_exist`. -/
def exist (i : Nat) : Bool := h.existBits.testBit i

/-- `mh_dirty`. -/
def dirty (i : Nat) : Bool := h.dirtyBits.testBit i

/-- The node in a slot, if it exists. -/
def node (i : Nat) : Option ν := if h.exist i then h.p.get i none else none

/-- `mh_setfree`. -/
def setFree (i : Nat) : Buckets ν :=
  { h with existBits := if h.exist i then h.existBits ^^^ 1 <<< i else h.existBits }

/-- `mh_setexist`, and the assignment of the node. -/
def setNode (i : Nat) (v : ν) : Buckets ν :=
  { h with p := h.p.set i (some v), existBits := h.existBits ||| 1 <<< i }

/-- `mh_setdirty`. -/
def setDirty (i : Nat) : Buckets ν := { h with dirtyBits := h.dirtyBits ||| 1 <<< i }

/-- Empty buckets. -/
def blank (n size prime : Nat) : Buckets ν where
  p := .blank n none
  existBits := 0
  dirtyBits := 0
  nBuckets := n
  nDirty := 0
  size := size
  upperBound := density n
  prime := prime

end Buckets

/-- `mh_next_slot`, a sum of `uint32_t`. -/
def nextSlot (slot inc size : Nat) : Nat :=
  let slot := toUint32 (slot + inc)
  if slot ≥ size then slot - size else slot

/-- What the user of mhash.h says about its nodes: `mh_hash_key` and the key of a node. -/
structure Hashed (κ ν : Type) where
  hash : κ → UInt32
  key : ν → κ

section Table

variable {κ ν : Type} [DecidableEq κ] (d : Hashed κ ν)

/-! ## Slots -/

/-- The offset of a key in the table. -/
def firstSlot (k : κ) (n : Nat) : Nat := (d.hash k).toNat % n

/-- The increment of its overflow chain. -/
def slotInc (k : κ) (n : Nat) : Nat := 1 + (d.hash k).toNat % (n - 1)

/-- The loop of `mh_find`. -/
def findLoop (h : Buckets ν) (k : κ) : Nat → Nat → Except Fault Nat
  | 0, _ => .error .fuel
  | fuel + 1, i =>
    if (h.node i).map d.key = some k then .ok i
    else if ¬ h.dirty i then .ok h.nBuckets
    else findLoop h k fuel (nextSlot i (slotInc d k h.nBuckets) h.nBuckets)

/-- `mh_find`, and `mh_get` of a node with this key. -/
def mhFind (h : Buckets ν) (k : κ) : Except Fault Nat := findLoop d h k h.nBuckets (firstSlot d k h.nBuckets)

/-- The first loop of `mh_put_slot`: it skips what exists, up to a node with the same key. -/
def skipLoop (k : κ) : Nat → Buckets ν → Nat → Except Fault (Buckets ν × Nat × Bool)
  | 0, _, _ => .error .fuel
  | fuel + 1, h, i =>
    match h.node i with
    | none => .ok (h, i, false)
    | some v =>
      if d.key v = k then .ok (h, i, true)
      else skipLoop k fuel (h.setDirty i) (nextSlot i (slotInc d k h.nBuckets) h.nBuckets)

/-- The second loop: a node with the same key further down the chain, or else the slot `save`. -/
def scanLoop (h : Buckets ν) (k : κ) (save : Nat) : Nat → Nat → Except Fault Nat
  | 0, _ => .error .fuel
  | fuel + 1, i =>
    if h.dirty i then
      let i := nextSlot i (slotInc d k h.nBuckets) h.nBuckets
      if (h.node i).map d.key = some k then .ok i else scanLoop h k save fuel i
    else .ok save

/-- `mh_put_slot`. -/
def mhPutSlot (h : Buckets ν) (v : ν) : Except Fault (Buckets ν × Nat) := do
  let (h, i, found) ← skipLoop d (d.key v) h.nBuckets h (firstSlot d (d.key v) h.nBuckets)
  if found then return (h, i)
  else return (h, ← scanLoop d h (d.key v) i h.nBuckets i)

/-- What `mh_put` does with the slot it has found. -/
def putNode (h : Buckets ν) (v : ν) : Except Fault (Buckets ν) := do
  let (h, x) ← mhPutSlot d h v
  if (h.node x).isSome then return h.setNode x v
  else return { h.setNode x v with
    size := h.size + 1, nDirty := if h.dirty x then h.nDirty else h.nDirty + 1 }

/-- `mh_del` of a slot with a node, as far as it concerns these buckets. -/
def delNode (h : Buckets ν) (x : Nat) : Buckets ν :=
  { h.setFree x with size := h.size - 1, nDirty := if h.dirty x then h.nDirty else h.nDirty - 1 }

/-! ## Resizing -/

/-- The loop of `mh_resize` from the slot `i` on: the shadow and the slot at which it stops. -/
def resizeLoop (h : Buckets ν) : Nat → Nat → Buckets ν → Except Fault (Buckets ν × Nat)
  | 0, i, s => .ok (s, i)
  | batch + 1, i, s =>
    if i < h.nBuckets then
      match h.node i with
      | none => resizeLoop h batch (i + 1) s
      | some v => do
        let (s, n) ← mhPutSlot d s v
        resizeLoop h batch (i + 1) { s.setNode n v with nDirty := s.nDirty + 1 }
    else .ok (s, i)

/-- `mh_resize`: a batch is moved, and after the last one the shadow takes over. -/
def mhResize (h : Mhash ν) : Except Fault (Mhash ν) := do
  let (s, i) ← resizeLoop d h.toBuckets h.batch h.resizePosition h.shadow
  if i < h.nBuckets then return { h with resizePosition := i, shadow := s }
  else return { h with toBuckets := { s with size := h.size }, resizePosition := 0, shadow := s }

/-- The loop of `mh_start_resize`: the first prime from `prime` on that is as large as `buckets`. -/
def nextPrime (buckets prime : Nat) : Nat := prime + (primeList.drop prime).findIdx (buckets ≤ ·)

/-- `mh_start_resize` when no resize has been started, for one bucket more and with the batch 0. -/
def mhStartResize (h : Mhash ν) : Except Fault (Mhash ν) :=
  let prime := nextPrime (h.nBuckets + 1) h.prime
  match primeList[prime]? with
  | none => .error .oob
  | some n =>
    mhResize d { h with
      prime := prime, batch := max 256 (h.nBuckets / (256 * 1024)), shadow := .blank n h.size prime }

/-! ## Operations -/

/-- `mh_new`. -/
def mhNew : Mhash ν where
  toBuckets := .blank 3 0 0
  resizePosition := 0
  batch := 0
  shadow := ⟨[], 0, 0, 0, 0, 0, 0, 0⟩

/-- `mh_put` on the shadow, which is its own shadow: a resize would move it into itself. -/
def putShadow (s : Buckets ν) (v : ν) : Except Fault (Buckets ν) :=
  if s.size = s.nBuckets then .ok s
  else if s.nDirty ≥ s.upperBound then .error .uninit
  else putNode d s v

/-- What `mh_put` does for the size of the table: a resize goes on, or one is started. -/
def mhGrow (h : Mhash ν) : Except Fault (Mhash ν) :=
  if h.resizePosition > 0 then mhResize d h
  else if h.nDirty ≥ h.upperBound then mhStartResize d h
  else .ok h

/-- What it does for the shadow. -/
def mhPutShadow (h : Mhash ν) (v : ν) : Except Fault (Mhash ν) :=
  if h.resizePosition > 0 then do return { h with shadow := ← putShadow d h.shadow v } else .ok h

/-- `mh_put`. -/
def mhPut (h : Mhash ν) (v : ν) : Except Fault (Mhash ν) :=
  if h.size = h.nBuckets then .ok h
  else do
    let h ← mhPutShadow d (← mhGrow d h) v
    return { h with toBuckets := ← putNode d h.toBuckets v }

/-- `mh_del_resize`. -/
def mhDelResize (h : Mhash ν) (v : ν) : Except Fault (Mhash ν) := do
  let y ← mhFind d h.shadow (d.key v)
  let shadow := if (h.shadow.node y).isSome then delNode h.shadow y else h.shadow
  mhResize d { h with shadow := shadow }

/-- `mh_del`. -/
def mhDel (h : Mhash ν) (x : Nat) : Except Fault (Mhash ν) :=
  match h.node x with
  | none => .ok h
  | some v =>
    let h := { h with toBuckets := delNode h.toBuckets x }
    if h.resizePosition > 0 then mhDelResize d h v else .ok h

end Table

end BeePhp
