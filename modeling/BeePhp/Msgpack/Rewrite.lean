import BeePhp.Msgpack.Reference
import BeePhp.Msgpack.Value

/-!
# Reading a document and writing it again

`repack` is `php_mp_pack` of what `php_mp_unpack` makes of some bytes. `Rewritten` says that one document
has the value of another, where numbers and lengths may be written in other widths, byte arrays as
strings, floats as doubles, and a map with the keys 0, 1 and so on as the array of its values. A
`Reading` says what becomes of integers and of string keys on the way.
-/

namespace BeePhp

open Codec

/-! ## The zvals of a value -/

/-- The zval of a string, whose length is an `int`. -/
def Zval.ofBytes (s : Bytes) : Zval := if h : s.length < 2 ^ 31 then .str ⟨s, h⟩ else .other

def Key.length : Key → Nat
  | .idx _ => 0
  | .str s => s.length

/-- The hash table with the given contents. -/
def HashTable.ofTable (t : Table Zval) : HashTable :=
  if h : (keys t.entries).Nodup ∧ t.entries.length < 2 ^ 32 ∧ ∀ k ∈ keys t.entries, k.length < 2 ^ 31 then {
    entries := t.entries
    nNextFreeElement := t.nNextFreeElement
    nodup := h.1
    count_lt := h.2.1
    key_small := fun _ hs => h.2.2 _ hs }
  else .empty

mutual

/-- The zvals of a value that has been unpacked. All of them are new, so that none is in two places. -/
def load : PVal → Heap → Heap × Zval
  | .null, H => (H, .null)
  | .long n, H => (H, .long n)
  | .double bits, H => (H, .double bits)
  | .bool b, H => (H, .bool b)
  | .str s, H => (H, .ofBytes s)
  | .bin s, H => (H, .ofBytes s)
  | .arr entries next, H =>
    let (H, entries) := loadEntries entries H
    (H ++ [.ofTable ⟨entries, next⟩], .arr H.length)

def loadEntries : List (Key × PVal) → Heap → Heap × List (Key × Zval)
  | [], H => (H, [])
  | (k, u) :: entries, H =>
    let (H, v) := load u H
    let (H, entries) := loadEntries entries H
    (H, (k, v) :: entries)

end

/-- `php_mp_unpack` at the bytes, and `php_mp_pack` of the value. -/
def repack (ndebug : Bool) (str : SmartString) (bs : Bytes) : Except Halt SmartString :=
  match phpMpUnpack ndebug bs with
  | .error h => .error h
  | .ok (u, _) =>
    match phpMpPack ndebug (load u []).1 str (fun _ => 0) (load u []).2 with
    | .error f => .error (.fault f)
    | .ok (str, _) => .ok str

/-! ## The same value -/

/-- What becomes of integers and of the strings that are keys. -/
structure Reading where
  long : Int → Int
  /-- the integer that a string is as a key, if it is one -/
  index : Bytes → Option Int

/-- Everything stays what it is. -/
def Reading.exact : Reading := ⟨id, fun _ => none⟩

/-- The integer that a key of an array is. -/
def Key.index : Key → Option Int
  | .idx h => some h.toInt64.toInt
  | .str _ => none

/-- PHP has the signed 64-bit integers, and takes a canonical decimal string for one when it is a key. -/
noncomputable def Reading.php : Reading where
  long i := (Int64.ofInt i).toInt
  index s := (stringKey s).index

/-- The integer that a key is read as, if it is one. -/
def Reading.indexOf (r : Reading) (k : Doc) : Option Int :=
  match k.integer with
  | some i => some (r.long i)
  | none => k.bytes.bind r.index

/-- `k'` is the key `k`. -/
def Reading.SameKey (r : Reading) (k k' : Doc) : Prop :=
  match r.indexOf k with
  | some i => k'.integer = some i
  | none => ∃ w s, k.bytes = some s ∧ k' = .str w s

/-- The second document has the value of the first one. -/
inductive Rewritten (r : Reading) : Doc → Doc → Prop
  | nil : Rewritten r .nil .nil
  | bool (b : Bool) : Rewritten r (.bool b) (.bool b)
  | int {d d' : Doc} {i : Int} : d.integer = some i → d'.integer = some (r.long i) → Rewritten r d d'
  | float (bits : Nat) : Rewritten r (.float bits) (.double (floatToDouble bits).toNat)
  | double (bits : Nat) : Rewritten r (.double bits) (.double bits)
  | str {d : Doc} {s : Bytes} (w : StrWidth) : d.bytes = some s → Rewritten r d (.str w s)
  | array (w w' : SeqWidth) {ds ds' : List Doc} : ds.length = ds'.length →
    (∀ e ∈ ds.zip ds', Rewritten r e.1 e.2) → Rewritten r (.array w ds) (.array w' ds')
  /-- the same keys in the same order, with the same values -/
  | map (w w' : SeqWidth) {ps ps' : List (Doc × Doc)} : ps.length = ps'.length →
    (∀ e ∈ ps.zip ps', r.SameKey e.1.1 e.2.1) → (∀ e ∈ ps.zip ps', Rewritten r e.1.2 e.2.2) →
    Rewritten r (.map w (flatten ps)) (.map w' (flatten ps'))
  /-- a map whose keys are the indices of a list -/
  | list (w w' : SeqWidth) {ps : List (Doc × Doc)} {ds : List Doc} : ps.length = ds.length →
    (ps.map fun p => r.indexOf p.1).Nodup →
    (∀ p ∈ ps, ∃ i < ds.length, r.indexOf p.1 = some (i : Int)) →
    (∀ p ∈ ps, ∀ (i : Nat) d, r.indexOf p.1 = some (i : Int) → ds[i]? = some d → Rewritten r p.2 d) →
    Rewritten r (.map w (flatten ps)) (.array w' ds)

/-- Read at its bytes and written again, a document keeps its value. -/
def KeepsValue (r : Reading) (ndebug : Bool) (d : Doc) : Prop :=
  ∀ (str : SmartString) (rest : Bytes), ∃ str' d', repack ndebug str (d.encode ++ rest) = .ok str' ∧
    d'.WF ∧ str'.data = str.data ++ d'.encode ∧ Rewritten r d d'

/-! ## What a document has to be like -/

/-- No two keys of the map are one to PHP. -/
def Distinct (d : Doc) : Prop := (d.pairs.map fun p => valueKey (refValue p.1)).Nodup

/-- The length of the string or the number of elements of the array is an `int`. -/
def IntLength (d : Doc) : Prop :=
  (∀ s, d.bytes = some s → s.length < 2 ^ 31) ∧ ∀ w ds, d = .array w ds → ds.length < 2 ^ 31

/-- The map is not like a list to `php_mp_is_hash` without being one: all keys are integers, one of them
negative, and the largest is the number of entries less one. -/
def NoFalseList (d : Doc) : Prop :=
  ¬ ((∀ p ∈ d.pairs, (Reading.php.indexOf p.1).isSome) ∧
    (∃ p ∈ d.pairs, ∃ i < 0, Reading.php.indexOf p.1 = some i) ∧
    (∃ p ∈ d.pairs, Reading.php.indexOf p.1 = some (d.pairs.length - 1 : Int)) ∧
    ∀ p ∈ d.pairs, ∀ i, Reading.php.indexOf p.1 = some i → i < d.pairs.length)

end BeePhp
