import BeePhp.Mhash
import BeePhp.Probing

/-!
# What holds of a table

The invariant of a table of mhash.h: its buckets are slots in which double hashing finds every node, with room
left, and while a resize is under way the shadow holds the nodes from the slots that are done.
-/

namespace BeePhp

open Probing

variable {κ ν : Type}

/-- The slots that are probed for a key. -/
def probe (d : Hashed κ ν) (n : Nat) (k : κ) : Nat → Nat := probeAt n (firstSlot d k n) (slotInc d k n)

/-! ## Buckets -/

/-- Buckets as slots. -/
def Buckets.slots (h : Buckets ν) : Slots ν := ⟨h.node, h.dirty⟩

/-- The buckets are a table whose overflow chains end. Sums of two slots fit in `uint32_t`. -/
structure Buckets.Ok (d : Hashed κ ν) (h : Buckets ν) : Prop where
  has : ∀ i < h.nBuckets, h.p.Has i
  lt : ∀ i v, h.node i = some v → i < h.nBuckets
  prime : h.nBuckets.Prime
  three_le : 3 ≤ h.nBuckets
  small : h.nBuckets ≤ 2 ^ 31
  sound : h.slots.Sound (probe d h.nBuckets) d.key
  used : h.slots.used h.nBuckets ≤ h.nDirty
  room : h.nDirty < h.nBuckets

/-- `h'` is `h` with more links of chains marked: slots in which there are nodes. -/
structure Buckets.Marks (h h' : Buckets ν) : Prop where
  eq : h' = { h with dirtyBits := h'.dirtyBits }
  more : ∀ i, h.dirty i = true → h'.dirty i = true
  only : ∀ i, h'.dirty i = true → h.slots.Used i

/-- The slot that `mh_put_slot` finds for a key, with the marks it makes: the only one in which there may be
a node with this key, and no other node is in it. -/
structure Buckets.Finds (d : Hashed κ ν) (h h' : Buckets ν) (k : κ) (x : Nat) : Prop where
  marks : h.Marks h'
  lt : x < h.nBuckets
  leads : h'.slots.Leads (probe d h.nBuckets) k x
  fits : ∀ w, h.node x = some w → d.key w = k
  alone : ∀ i w, h.node i = some w → d.key w = k → i = x

/-- The node `v` has been stored in the slot `x`. -/
structure Buckets.Stores (d : Hashed κ ν) (h h' : Buckets ν) (v : ν) (x : Nat) : Prop where
  lt : x < h.nBuckets
  node : h'.node = (h.slots.put x v).node
  fits : ∀ w, h.node x = some w → d.key w = d.key v
  alone : ∀ i w, h.node i = some w → d.key w = d.key v → i = x
  nBuckets : h'.nBuckets = h.nBuckets
  upperBound : h'.upperBound = h.upperBound
  prime : h'.prime = h.prime

/-- `s` is to become what `h` is, and the slots of `h` before `i` have been moved to it. Nodes may have been
put into both since, at most `c` of them. -/
structure Buckets.Moves (d : Hashed κ ν) (h s : Buckets ν) (i c : Nat) : Prop where
  le : i ≤ h.nBuckets
  ok : s.Ok d
  sub : ∀ v, s.slots.Holds v → h.slots.Holds v
  moved : ∀ j < i, ∀ v, h.node j = some v → s.slots.Holds v
  nDirty : s.nDirty + h.slots.held i h.nBuckets ≤ density h.nBuckets + 2 * c
  upperBound : s.upperBound = density s.nBuckets
  wide : density h.nBuckets + 2 * (h.nBuckets / 256) + 2 < density s.nBuckets

/-! ## Tables -/

/-- The nodes of a table. -/
def Mhash.Holds (h : Mhash ν) (v : ν) : Prop := h.slots.Holds v

/-- No resize is under way. -/
structure Mhash.Idle (h : Mhash ν) : Prop where
  position : h.resizePosition = 0
  ranked : primeList[h.prime]? = some h.nBuckets
  upperBound : h.upperBound = density h.nBuckets
  nDirty : h.nDirty ≤ h.upperBound

/-- A resize has come to `resize_position`. Every call since has moved 256 slots or more, so that there were
few of them. -/
structure Mhash.Resizing (d : Hashed κ ν) (h : Mhash ν) (c : Nat) : Prop where
  moves : h.toBuckets.Moves d h.shadow h.resizePosition c
  calls : 256 * c ≤ h.resizePosition
  batch : 256 ≤ h.batch
  nDirty : h.nDirty ≤ density h.nBuckets + c
  size : h.shadow.size ≤ density h.nBuckets + c
  ranked : primeList[h.prime]? = some h.shadow.nBuckets
  prime : h.shadow.prime = h.prime

/-- The invariant of a table. -/
structure Mhash.Ok (d : Hashed κ ν) (h : Mhash ν) : Prop where
  buckets : h.toBuckets.Ok d
  size : h.size = h.slots.held 0 h.nBuckets
  state : h.Idle ∨ ∃ c, h.Resizing d c ∧ 0 < h.resizePosition ∧ h.resizePosition < h.nBuckets

/-- No resize is under way, or it does not end before the last node when all are deleted one after another. -/
def Mhash.Steady (h : Mhash ν) : Prop :=
  h.resizePosition = 0 ∨ h.resizePosition + (h.size - 1) * h.batch < h.nBuckets

/-- The slots of a table and those of the one it is being moved to. -/
def Mhash.extent (h : Mhash ν) : Nat := h.nBuckets + if h.resizePosition > 0 then h.shadow.nBuckets else 0

/-- A table has, or is to have, more than 1610612741 buckets, so that the sum of two slots may not fit in
`uint32_t`. -/
def Mhash.Huge (h : Mhash ν) : Prop := 28 < h.prime ∧ (0 < h.resizePosition → 28 < h.shadow.prime)

end BeePhp
