import BeePhp.Msgpack.Meaning
import BeePhp.Proto
import BeePhp.Request

/-!
# Responses

The well-formed responses of a server: a `frame` around a header and a body. `OkHeader` says that the
pairs of a header have distinct integer keys, and that the code is `BEEX_OK` and the sync a given number.
-/

namespace BeePhp

open Codec

/-- The integer a document is, in whatever form. -/
def integerOf : Doc → Option Int
  | .uint _ n => some n
  | .int _ i => some i
  | _ => none

/-- The pairs of a header with distinct integer keys, the code 0 and the given sync. -/
structure OkHeader (sync : Nat) (ps : List (Doc × Doc)) : Prop where
  integer : ∀ p ∈ ps, (integerOf p.1).isSome
  distinct : (ps.map fun p => integerOf p.1).Nodup
  code : ∃ p ∈ ps, integerOf p.1 = some (beexCode.toNat : Int) ∧
    integerOf p.2 = some (beexOk.toNat : Int)
  sync : ∃ p ∈ ps, integerOf p.1 = some (beexSync.toNat : Int) ∧ integerOf p.2 = some (sync : Int)

/-- A well-formed OK response to the request with the given sync: its header and its body. -/
structure OkResponse (sync : Nat) (w : SeqWidth) (ps : List (Doc × Doc)) (d : Doc) : Prop where
  header_wf : (Doc.map w (flatten ps)).WF
  body_wf : d.WF
  header : OkHeader sync ps
  header_representable : Representable (.map w (flatten ps))
  body_representable : Representable d
  size : ((Doc.map w (flatten ps)).encode ++ d.encode).length < 2 ^ 31

end BeePhp
