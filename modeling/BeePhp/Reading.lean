import BeePhp.Usable

/-!
# Exact reads

What `bee_stream_read` is to do with the chunks that `php_stream_read` delivers: put them one behind the
other until it has all it was asked for or one is empty, and say how many bytes these were.
-/

namespace BeePhp

open Codec (Bytes)

/-- How many bytes the reads for `size` bytes deliver, when a chunk is what the stream is ready to give
and `arrived` bytes are there for it, and the chunks that are left. -/
def gathered : List Nat → Nat → Nat → Nat × List Nat
  | [], size, arrived => (min size arrived, [])
  | c :: cs, size, arrived =>
    if size = 0 then (0, c :: cs)
    else
      let n := min (min c size) arrived
      if n = 0 then (0, cs)
      else
        let (m, left) := gathered cs (size - n) (arrived - n)
        (n + m, left)

/-- A read of `size` bytes into an array stores what is delivered at the front of it and takes nothing
else from the stream; it returns the number of bytes stored, and a caller that compares it with `size`
finds them equal exactly if all bytes have been read. -/
def ReadsExactly (kind : ReadKind) (buf : Bytes) (size : Nat) (w : World) (stream : Stream) : Prop :=
  let (n, left) := gathered (w.net.chunksOf kind) size stream.inbox.length
  ∃ rv w', readArray kind buf size w = .ok ((rv, stream.inbox.take n ++ buf.drop n), w') ∧
    w'.obj.stream = some { stream with inbox := stream.inbox.drop n } ∧
    w'.net.chunksOf kind = left ∧ rv = n ∧ (rv = size ↔ n = size)

end BeePhp
