import BeePhp.Msgpack.Proofs.CheckedProofs
import BeePhp.Schema

/-!
# Proofs: walking over documents

What the routines that walk over the bytes of rows and responses do at a document: `mp_typeof` tells its
type, the decoders move past its head, and `mp_next` past all of it.
-/

namespace BeePhp

open Codec (Bytes Doc IntWidth StrWidth SeqWidth)

theorem typeAt_doc {d : Doc} (h : d.Fits) (rest : Bytes) :
    typeAt (d.encode ++ rest) = .ok (docType d) := by
  obtain ⟨c, tl, hhead, htype⟩ := head_type h
  rw [Doc.encode_eq, hhead]
  exact congrArg Except.ok htype

theorem typeAt_uint {w : IntWidth} {n : Nat} (h : n < w.uintBound) (rest : Bytes) :
    typeAt ((Doc.uint w n).encode ++ rest) = .ok .uint := @typeAt_doc (.uint w n) h rest

theorem typeAt_str {w : StrWidth} {s : Bytes} (h : s.length < w.bound) (rest : Bytes) :
    typeAt ((Doc.str w s).encode ++ rest) = .ok .str := @typeAt_doc (.str w s) h rest

theorem decodeUint_doc {w : IntWidth} {n : Nat} (h : n < w.uintBound) (rest : Bytes) :
    mpDecodeUint ((Doc.uint w n).encode ++ rest) = .ok (n, rest) := mpDecodeUint_reads h rest

theorem decodeStr_doc {w : StrWidth} {s : Bytes} (h : s.length < w.bound) (rest : Bytes) :
    mpDecodeStr ((Doc.str w s).encode ++ rest) = .ok (s, rest) := mpDecodeStr_reads h rest

theorem decodeArray_head {w : SeqWidth} {n : Nat} (h : n < w.bound) (rest : Bytes) :
    mpDecodeArray (w.arrayHead n ++ rest) = .ok (n, rest) := mpDecodeArray_reads h rest

/-- An item of a light document is skipped. -/
theorem mpNext_item {d e : Doc} (hlight : Light d) (hmem : e ∈ d.items) (hwf : e.WF) (rest : Bytes) :
    mpNext (e.encode ++ rest) = .ok rest := by
  have hle := Doc.peak_le_of_mem hmem
  simp only [Light] at hlight
  exact mpNext_doc hwf (by omega) rest

end BeePhp
