import BeePhp.AuthRequest

/-!
# The packing routines and the buffer

What the routines of bee_msgpack.c and bee_proto.c do to a `smart_string`, as a list of steps: they make
room, and they write bytes at the end. `runSteps` takes the steps one after the other and records every
write. `smart_string_ensure` is over the allocator of PHP, of which only `Allocates` is known.
-/

namespace BeePhp

open Codec

/-! ## Growing -/

/-- What is known of `smart_str_alloc4`: it keeps the bytes and makes room for `n` more. -/
structure Allocates (alloc : SmartString → Nat → SmartString) : Prop where
  len : ∀ s n, (alloc s n).len = s.len
  data : ∀ s n, (alloc s n).data = s.data
  room : ∀ s n, s.len + n ≤ (alloc s n).a

/-- `smart_string_ensure`, whose numbers are of type `size_t`. -/
def smartStringEnsure (alloc : SmartString → Nat → SmartString) (str : SmartString) (len : Nat) :
    SmartString :=
  if str.a > (str.len + len) % 2 ^ 64 then str
  else
    let needed := str.a * 2 % 2 ^ 64
    let needed := if (str.len + len) % 2 ^ 64 > needed then (str.len + len) % 2 ^ 64 else needed
    alloc str needed

/-! ## Steps -/

/-- What a routine does to the buffer. -/
inductive BufferStep where
  /-- `smart_string_ensure` -/
  | ensure (len : Nat)
  /-- make room for `needed` bytes, write at `SSTR_POS`, and add `needed` to the length -/
  | put (needed : Nat) (bs : Bytes)
  /-- the process ends -/
  | halt (f : Fault)

/-- A write: the buffer before it, the buffer that `smart_string_ensure` leaves, the bytes, and the
buffer after it. -/
structure Put where
  before : SmartString
  grown : SmartString
  bytes : Bytes
  after : SmartString

/-- Write `bs` at `SSTR_POS` and add `needed` to the length. -/
def putAt (str : SmartString) (needed : Nat) (bs : Bytes) : Except Fault SmartString := do
  let after ← str.write str.len bs
  after.setLen (after.len + needed)

/-- The writes of a list of steps, and the buffer that they leave. -/
def runSteps (ensure : SmartString → Nat → SmartString) :
    List BufferStep → SmartString → List Put × Except Fault SmartString
  | [], str => ([], .ok str)
  | .ensure len :: steps, str => runSteps ensure steps (ensure str len)
  | .halt f :: _, _ => ([], .error f)
  | .put needed bs :: steps, str =>
    match putAt (ensure str needed) needed bs with
    | .ok after =>
      let (puts, out) := runSteps ensure steps after
      (⟨str, ensure str needed, bs, after⟩ :: puts, out)
    | .error f => ([], .error f)

/-- The bytes that the steps are to write. -/
def written : List BufferStep → Bytes
  | [] => []
  | .put _ bs :: steps => bs ++ written steps
  | _ :: steps => written steps

/-- A write stays between the old length and the memory of the grown buffer, and appends its bytes. -/
structure Put.Safe (p : Put) : Prop where
  kept : p.grown.len = p.before.len ∧ p.grown.c.take p.before.len = p.before.c.take p.before.len
  fits : p.before.len + p.bytes.length ≤ p.grown.a
  memory : p.after.c = p.grown.c.take p.before.len ++ p.bytes ++
    p.grown.c.drop (p.before.len + p.bytes.length)
  len : p.after.len = p.before.len + p.bytes.length
  len_le : p.after.len ≤ p.after.a

/-! ## Scalars -/

/-- The steps of a routine, one of whose assertions may fail. -/
def stepsOf : Except Fault (List BufferStep) → List BufferStep
  | .ok steps => steps
  | .error f => [.halt f]

def phpMpPackNilSteps : List BufferStep := [.put mpSizeofNil mpEncodeNil]

def phpMpPackLongPosSteps (val : Int64) : List BufferStep :=
  [.put (mpSizeofUint val.toUInt64.toNat) (mpEncodeUint val.toUInt64.toNat)]

def phpMpPackLongNegSteps (ndebug : Bool) (val : Int64) : List BufferStep :=
  stepsOf do return [.put (← mpSizeofInt ndebug val.toInt) (← mpEncodeInt ndebug val.toInt)]

def phpMpPackLongSteps (ndebug : Bool) (val : Int64) : List BufferStep :=
  if val ≥ 0 then phpMpPackLongPosSteps val else phpMpPackLongNegSteps ndebug val

def phpMpPackDoubleSteps (bits : UInt64) : List BufferStep :=
  [.put mpSizeofDouble (mpEncodeDouble bits.toNat)]

def phpMpPackBoolSteps (val : Bool) : List BufferStep := [.put mpSizeofBool (mpEncodeBool val)]

/-- `php_mp_pack_string` of `len` bytes at a pointer, which may be null. -/
def phpMpPackStringSteps (c : Option Bytes) (len : Nat) : List BufferStep :=
  match c with
  | some c => [.put (mpSizeofStr (toUint32 len)) (mpEncodeStr c (toUint32 len))]
  | none => [.ensure (mpSizeofStr (toUint32 len)), .halt .nullDeref]

def phpMpPackHashSteps (len : Nat) : List BufferStep :=
  [.put (mpSizeofMap (toUint32 len)) (mpEncodeMap (toUint32 len))]

def phpMpPackArraySteps (len : Nat) : List BufferStep :=
  [.put (mpSizeofArray (toUint32 len)) (mpEncodeArray (toUint32 len))]

def phpMpPackPackageSizeSteps (val : Nat) : List BufferStep := [.put 5 (0xce :: toBE 4 (toUint32 val))]

/-! ## Values -/

/-- The part of the traversal that goes into the value under a key. -/
def packElementSteps (rec : Counts → Zval → List BufferStep × Counts) (c : Counts) :
    Option Zval → List BufferStep × Counts
  | none => (phpMpPackNilSteps, c)
  | some (.arr id) =>
    if c id > 1 then (phpMpPackNilSteps, c)
    else ((rec (c.inc id) (.arr id)).1, (rec (c.inc id) (.arr id)).2.dec id)
  | some v => rec c v

/-- `php_mp_pack_array_recursively`: the elements at the indices from `i` on. -/
def packIndicesSteps (rec : Counts → Zval → List BufferStep × Counts) (ht : HashTable) :
    Nat → Nat → Counts → List BufferStep × Counts
  | 0, _, c => ([], c)
  | n + 1, i, c =>
    let (steps, c) := packElementSteps rec c (zendHashIndexFind ht (UInt64.ofNat i))
    let (rest, c) := packIndicesSteps rec ht n (i + 1) c
    (steps ++ rest, c)

def packKeySteps (ndebug : Bool) : Key → List BufferStep
  | .idx h => phpMpPackLongSteps ndebug h.toInt64
  | .str s => phpMpPackStringSteps (some s) s.length

/-- `php_mp_pack_hash_recursively`: the entries in the order of iteration. -/
def packEntriesSteps (ndebug : Bool) (rec : Counts → Zval → List BufferStep × Counts) :
    List (Key × Zval) → Counts → List BufferStep × Counts
  | [], c => ([], c)
  | (k, v) :: entries, c =>
    let (steps, c) := packElementSteps rec c (some v)
    let (rest, c) := packEntriesSteps ndebug rec entries c
    (packKeySteps ndebug k ++ steps ++ rest, c)

/-- `php_mp_pack` with at most `fuel` calls of itself inside each other. -/
def phpMpPackRecSteps (ndebug : Bool) (H : Heap) : Nat → Counts → Zval → List BufferStep × Counts
  | 0, c, _ => ([.halt .fuel], c)
  | fuel + 1, c, val =>
    match val with
    | .null => (phpMpPackNilSteps, c)
    | .long n => (phpMpPackLongSteps ndebug n, c)
    | .double bits => (phpMpPackDoubleSteps bits, c)
    | .bool b => (phpMpPackBoolSteps b, c)
    | .arr id =>
      let ht := H.table id
      if phpMpIsHash ht then
        let (steps, c) := packEntriesSteps ndebug (phpMpPackRecSteps ndebug H fuel) ht.entries c
        (phpMpPackHashSteps (zendHashNumElements ht) ++ steps, c)
      else
        let (steps, c) :=
          packIndicesSteps (phpMpPackRecSteps ndebug H fuel) ht (zendHashNumElements ht) 0 c
        (phpMpPackArraySteps (zendHashNumElements ht) ++ steps, c)
    | .str s => (phpMpPackStringSteps (some s.val) s.val.length, c)
    | .other => (phpMpPackNilSteps, c)

/-- `php_mp_pack`. -/
def phpMpPackSteps (ndebug : Bool) (H : Heap) (c : Counts) (val : Zval) :
    List BufferStep × Counts := phpMpPackRecSteps ndebug H H.depth c val

/-! ## Requests -/

section Encoders

variable (ndebug : Bool) (H : Heap)

def phpTpPackHeaderSteps (size : Nat) (request sync : UInt32) : List BufferStep :=
  phpMpPackPackageSizeSteps size ++ phpMpPackHashSteps 2 ++
    phpMpPackLongSteps ndebug (longOfUint32 beexCode) ++
    phpMpPackLongSteps ndebug (longOfUint32 request) ++
    phpMpPackLongSteps ndebug (longOfUint32 beexSync) ++
    phpMpPackLongSteps ndebug (longOfUint32 sync)

def Arg.steps (c : Counts) : Arg → List BufferStep × Counts
  | .long n => (phpMpPackLongSteps ndebug (longOfUint32 n), c)
  | .string s => (phpMpPackStringSteps (some s) s.length, c)
  | .zval val => phpMpPackSteps ndebug H c val

def packFieldsSteps : List (UInt32 × Arg) → Counts → List BufferStep
  | [], _ => []
  | (key, arg) :: fields, c =>
    let (steps, c) := arg.steps ndebug H c
    phpMpPackLongSteps ndebug (longOfUint32 key) ++ steps ++ packFieldsSteps fields c

/-- What the encoders have in common, after the size function. -/
def encodeRequestSteps (size : Except Fault (Nat × Counts)) (request sync : UInt32) (n : Nat)
    (fields : List (UInt32 × Arg)) : List BufferStep :=
  stepsOf do
    let (packetSize, c) ← size
    return .ensure (packetSize + 5) :: (phpTpPackHeaderSteps ndebug packetSize request sync ++
      phpMpPackHashSteps n ++ packFieldsSteps ndebug H fields c)

/-- The encoder of a request. -/
def Request.steps (c : Counts) (sync : UInt32) (r : Request) : List BufferStep :=
  match r with
  | .ping => stepsOf do
    let packetSize ← phpTpSizeofPing ndebug sync
    return .ensure (packetSize + 5) :: phpTpPackHeaderSteps ndebug packetSize beexPing sync
  | .select spaceNo indexNo limit offset iterator key =>
    encodeRequestSteps ndebug H
      (phpTpSizeofSelect ndebug H c sync spaceNo indexNo offset limit iterator key)
      beexSelect sync 6 r.fields
  | .insertOrReplace spaceNo tuple type => stepsOf do
    if ndebug = false ∧ ¬ (type = beexInsert ∨ type = beexReplace) then throw .assertion
    return encodeRequestSteps ndebug H
      (phpTpSizeofInsertOrReplace ndebug H c sync spaceNo tuple type) type sync 2 r.fields
  | .delete spaceNo indexNo key =>
    encodeRequestSteps ndebug H (phpTpSizeofDelete ndebug H c sync spaceNo indexNo key)
      beexDelete sync 3 r.fields
  | .call proc tuple =>
    encodeRequestSteps ndebug H (phpTpSizeofCall ndebug H c sync proc tuple) beexCall sync 2 r.fields
  | .eval proc tuple =>
    encodeRequestSteps ndebug H (phpTpSizeofEval ndebug H c sync proc tuple) beexEval sync 2 r.fields
  | .update spaceNo indexNo key args =>
    encodeRequestSteps ndebug H (phpTpSizeofUpdate ndebug H c sync spaceNo indexNo key args)
      beexUpdate sync 4 r.fields
  | .upsert spaceNo tuple args =>
    encodeRequestSteps ndebug H (phpTpSizeofUpsert ndebug H c sync spaceNo tuple args)
      beexUpsert sync 3 r.fields

def phpTpEncodeAuthSteps (sync : UInt32) (username : Bytes) (scramble : Option Bytes) :
    List BufferStep :=
  let nopass := scramble.isSome
  stepsOf do
    let packetSize ← phpTpSizeofAuth ndebug sync username.length nopass
    return .ensure (packetSize + 5) :: (phpTpPackHeaderSteps ndebug packetSize beexAuth sync ++
      phpMpPackHashSteps 2 ++
      phpMpPackLongSteps ndebug (longOfUint32 beexUsername) ++
      phpMpPackStringSteps (some username) username.length ++
      phpMpPackLongSteps ndebug (longOfUint32 beexTuple) ++
      phpMpPackArraySteps (if nopass then 0 else 2) ++
      if ¬ nopass then
        phpMpPackStringSteps (some (ascii "chap-sha1")) 9 ++
          phpMpPackStringSteps scramble phpScrambleSize
      else [])

end Encoders

/-! ## Calls -/

/-- A call of a packing routine or of an encoder, with the `nApplyCount`s it finds. -/
inductive PackCall where
  | nil
  | long (val : Int64)
  | double (bits : UInt64)
  | bool (val : Bool)
  | string (c : Bytes)
  | hash (len : Nat)
  | array (len : Nat)
  | packageSize (val : Nat)
  | pack (H : Heap) (c : Counts) (val : Zval)
  | request (H : Heap) (c : Counts) (sync : UInt32) (r : Request)
  | auth (sync : UInt32) (username : Bytes) (scramble : Option Bytes)

def PackCall.steps (ndebug : Bool) : PackCall → List BufferStep
  | .nil => phpMpPackNilSteps
  | .long val => phpMpPackLongSteps ndebug val
  | .double bits => phpMpPackDoubleSteps bits
  | .bool val => phpMpPackBoolSteps val
  | .string c => phpMpPackStringSteps (some c) c.length
  | .hash len => phpMpPackHashSteps len
  | .array len => phpMpPackArraySteps len
  | .packageSize val => phpMpPackPackageSizeSteps val
  | .pack H c val => (phpMpPackSteps ndebug H c val).1
  | .request H c sync r => r.steps ndebug H c sync
  | .auth sync username scramble => phpTpEncodeAuthSteps ndebug sync username scramble

/-- The steps of a sequence of calls. -/
def callSteps (ndebug : Bool) (calls : List PackCall) : List BufferStep :=
  calls.flatMap (PackCall.steps ndebug)

/-- The strings of a call are PHP strings. -/
def PackCall.Small : PackCall → Prop
  | .string c => c.length < 2 ^ 31
  | .request _ _ _ r => ∀ f ∈ r.fields, ∀ c, f.2 = .string c → c.length < 2 ^ 31
  | .auth _ username _ => username.length < 2 ^ 31
  | _ => True

/-- A call that does not end the process: no assertion fails, and no null pointer is followed. -/
def PackCall.Returns (ndebug : Bool) : PackCall → Prop
  | .request _ _ _ r => ndebug = true ∨ r.Proper
  | .auth _ _ scramble => scramble.isSome
  | _ => True

/-- The same call of the routines themselves, over PHP's own allocator. -/
def PackCall.append (ndebug : Bool) (str : SmartString) : PackCall → Except Fault SmartString
  | .nil => phpMpPackNil str
  | .long val => phpMpPackLong ndebug str val
  | .double bits => phpMpPackDouble str bits
  | .bool val => phpMpPackBool str val
  | .string c => phpMpPackString str c
  | .hash len => phpMpPackHash str len
  | .array len => phpMpPackArray str len
  | .packageSize val => phpMpPackPackageSize str val
  | .pack H c val => do return (← phpMpPack ndebug H str c val).1
  | .request H c sync r => do return (← r.encode ndebug H str c sync).1
  | .auth sync username scramble => phpTpEncodeAuth ndebug str sync username scramble

end BeePhp
