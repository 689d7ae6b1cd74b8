import BeePhp.World

/-!
# bee_network.c and the streams of bee.c

Reading, writing, opening and closing the stream of the connection. The `php_stream_*` functions do what
the `Net` of the state says.
-/

namespace BeePhp

open Codec (Bytes)

/-- The reads that the environment decides about apart. -/
inductive ReadKind where
  | length
  | other
  deriving DecidableEq, Repr

/-- The most bytes the next read of `size` bytes may deliver. -/
def Net.nextChunk (net : Net) (size : Nat) : ReadKind → Nat × Net
  | .length =>
    match net.lengthChunks with
    | [] => (size, net)
    | c :: cs => (c, { net with lengthChunks := cs })
  | .other =>
    match net.chunks with
    | [] => (size, net)
    | c :: cs => (c, { net with chunks := cs })

/-- The reads of a kind never stop short. -/
def Net.Prompt (net : Net) : ReadKind → Prop
  | .length => ∀ c ∈ net.lengthChunks, 0 < c
  | .other => ∀ c ∈ net.chunks, 0 < c

/-- `php_stream_read`. -/
def phpStreamRead (kind : ReadKind) (size : Nat) : M Bytes := fun w =>
  match w.obj.stream with
  | none => .error .nullDeref
  | some stream =>
    let (chunk, net) := w.net.nextChunk size kind
    let n := min chunk size
    .ok (stream.inbox.take n, { w with
      obj := { w.obj with stream := some { stream with inbox := stream.inbox.drop n } }
      net := net })

/-- The loop of `beexll_stream_read2`. `store` writes bytes at an offset of the destination. A read
never delivers more than it is asked for, so the assertion in the loop holds. -/
def readLoop {β : Type} (kind : ReadKind) (store : Nat → Bytes → β → Except Fault β) (size : Nat) :
    Nat → Nat → β → M (Nat × β)
  | 0, _, _ => throw .fuel
  | fuel + 1, totalSize, buf =>
    if totalSize < size then do
      let bs ← phpStreamRead kind (size - totalSize)
      let buf ← StateT.lift (store totalSize bs buf)
      if bs.length = 0 then return (totalSize, buf)
      else readLoop kind store size fuel (totalSize + bs.length) buf
    else return (totalSize, buf)

/-- `beexll_stream_read2`, whose return value is an `int`. -/
def beexllStreamRead2 {β : Type} (kind : ReadKind) (store : Nat → Bytes → β → Except Fault β)
    (buf : β) (size : Nat) : M (Int × β) := do
  let (totalSize, buf) ← readLoop kind store size (size + 1) 0 buf
  return (toInt totalSize, buf)

/-- `bee_stream_read`, whose return value is a `size_t`. -/
def beeStreamRead {β : Type} (kind : ReadKind) (store : Nat → Bytes → β → Except Fault β)
    (buf : β) (size : Nat) : M (Nat × β) := do
  let (rv, buf) ← beexllStreamRead2 kind store buf size
  return (toSize rv, buf)

/-- `bee_stream_read` into an array. -/
def readArray (kind : ReadKind) (buf : Bytes) (size : Nat) : M (Nat × Bytes) :=
  beeStreamRead kind (fun off bs buf => writeAt buf off bs) buf size

/-- `bee_stream_read` into `pack_len`. -/
def readLength (kind : ReadKind) : M (Nat × Bytes) := readArray kind [0, 0, 0, 0, 0] 5

/-- `bee_stream_read` into `obj->value` from the offset `pos` on. -/
def readValue (kind : ReadKind) (pos size : Nat) : M Nat := do
  let value := (← getObj).value
  let (n, value) ← beeStreamRead kind (fun off bs str => str.write (pos + off) bs) value size
  modifyObj fun obj => { obj with value := value }
  return n

/-- `php_stream_write` and `php_stream_flush`: whether all bytes were written and flushed. -/
def phpStreamWrite (bs : Bytes) : M Bool := fun w =>
  match w.obj.stream with
  | none => .error .nullDeref
  | some stream =>
    let (reached, ok) := match w.net.writes with
      | .failed n :: _ => (bs.take n, false)
      | _ => (bs, true)
    let (stream, replies) := stream.deliver w.net.replies reached
    .ok (ok, { w with
      obj := { w.obj with stream := some stream }
      net := { w.net with writes := w.net.writes.tail, replies := replies } })

/-- `beexll_stream_send` of the buffer: whether it returns 0. -/
def beexllStreamSend (bs : Bytes) : M Bool := phpStreamWrite bs

/-- The record of what is about to be handed to the stream. -/
def World.record (w : World) (request : Bool) : Sent :=
  ⟨request, w.start, w.own, w.obj.value.data, w.obj.credentials, w.obj.stream.bind (·.identity)⟩

/-- `bee_stream_send`: whether it returns `SUCCESS`. A failure leaves the bytes in the buffer. -/
def beeStreamSend (request : Bool) : M Bool := do
  modify fun w => { w with sent := w.sent ++ [w.record request] }
  if ← beexllStreamSend (← getObj).value.data then
    resetValue
    modify fun w => { w with own := [] }
    return true
  else return false

/-- `bee_stream_close`. -/
def beeStreamClose : M Unit :=
  modifyObj fun obj => { obj with stream := none, persistentId := none }

/-- `beexll_stream_open`, with the error text when it returns -1. -/
def beexllStreamOpen : M (Option String) := fun w =>
  let w := { w with ids := w.ids ++ [w.obj.persistentId] }
  match w.net.opens with
  | .opened greeting :: opens => .ok (none, { w with
      obj := { w.obj with stream := some ⟨greeting, [], none⟩ }
      net := { w.net with opens := opens } })
  | .refused err :: opens => .ok (some err, { w with net := { w.net with opens := opens } })
  | [] => .ok (some "", w)

/-- `beexll_stream_fpid2`: whether there is a persistent stream. -/
def beexllStreamFpid2 : M Bool := fun w =>
  let w := { w with ids := w.ids ++ [w.obj.persistentId] }
  match w.net.finds with
  | some stream :: finds => .ok (true, { w with
      obj := { w.obj with stream := some stream }
      net := { w.net with finds := finds }
      exchanges := w.exchanges ++
        [decide (w.obj.credentials = none ∨ stream.identity = w.obj.credentials)] })
  | none :: finds => .ok (false, { w with net := { w.net with finds := finds } })
  | [] => .ok (false, w)

/-- `php_stream_eof`. -/
def phpStreamEof : M Bool := fun w =>
  match w.net.eofs with
  | eof :: eofs => .ok (eof, { w with net := { w.net with eofs := eofs } })
  | [] => .ok (false, w)

end BeePhp
