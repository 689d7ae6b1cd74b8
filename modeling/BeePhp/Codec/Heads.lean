import BeePhp.Codec.Doc

/-!
# Documents read head by head

Documents can be read without recursion: head after head, with a count of the documents that are still to come,
to which every head adds its items.
-/

namespace BeePhp.Codec

/-- With `k` documents to come and the bytes `b` ahead, heads can be read until `k'` are to come and `b'` is
ahead. -/
inductive Pends : Nat → Bytes → Nat → Bytes → Prop
  | refl {k : Nat} {b : Bytes} : Pends k b k b
  | head {k k' : Nat} {d : Doc} {rest b' : Bytes} : d.Fits → Pends (k + d.items.length) rest k' b' →
    Pends (k + 1) (d.head ++ rest) k' b'

/-- A document with these items in the place of its own. -/
def Doc.withItems : Doc → List Doc → Doc
  | .array w _, ds => .array w ds
  | .map w _, ds => .map w ds
  | d, _ => d

end BeePhp.Codec
