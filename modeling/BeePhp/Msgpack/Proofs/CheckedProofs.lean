import BeePhp.Msgpack.Proofs.UnpackProofs
import BeePhp.Proofs.CheckProofs

/-!
# Proofs: unpacking what php_mp_check has accepted

`php_mp_check` accepts every light document and stops at its end (`phpMpCheck_doc`). It also accepts
strings that are no document: a map header cut off after its lead byte, and headers that announce more
elements than an `int` can count. `phpMpUnpack_checked` says for which of the accepted strings
`php_mp_unpack` stays inside them and ends where the validator did.
-/

namespace BeePhp

open Codec

/-- A light document is accepted, and the validator stops at its end. -/
theorem phpMpCheck_doc {d : Doc} (hwf : d.WF) (hlight : Light d) {size : Nat}
    (hsize : d.encode.length ≤ size) (rest : Bytes) :
    phpMpCheck (d.encode ++ rest) size = .ok (0, rest) := by
  have h := @mpCheckLoop_light (size + 2) [d] ⟨hwf, trivial⟩ size
    (by simpa [peakAll, Light] using hlight) (by simpa [encodeAll] using hsize)
    (by simp [encodeAll]; omega) rest
  simpa [phpMpCheck, mpCheck, encodeAll] using h

/-- Where the validator stops on a string that begins with a document. -/
theorem phpMpCheck_ok {d : Doc} (hwf : d.WF) {rest t : Bytes} {size status : Nat}
    (hsize : d.encode.length ≤ size) (h : phpMpCheck (d.encode ++ rest) size = .ok (status, t)) :
    (Light d ∧ t = rest) ∨ rest.length < t.length := by
  have hloop : mpCheckLoop (size + 2) 1 (encodeAll [d] ++ rest) size = .ok (status, t) := by
    simpa [phpMpCheck, mpCheck, encodeAll] using h
  have hdocs := @mpCheckLoop_docs (size + 2) [d] ⟨hwf, trivial⟩ 1 size rest t status (by simp)
    (by simp [intMax]) (by simp) (by simp) (by simpa [encodeAll] using hsize) hloop
  simpa [peakAll, Light] using hdocs

/-- `php_mp_unpack` started at `b` reads nothing but `b`, applies no decoder to a byte of another
type, and unless it returns `FAILURE` it returns with its cursor at `t`. -/
def UnpacksTo (ndebug : Bool) (b t : Bytes) : Prop :=
  match phpMpUnpack ndebug b with
  | .ok (_, rest) => rest = t
  | .error (.failure _) => True
  | .error (.fault _) => False

/-- On a string that the validator accepts, with its cursor at `t`, unpacking stays inside the string
and agrees on `t` exactly when the string begins with a light document that stands for a PHP value, or
the unpacking is refused before the string ends. -/
theorem phpMpUnpack_checked (ndebug : Bool) {b t : Bytes}
    (hcheck : phpMpCheck b b.length = .ok (0, t)) :
    UnpacksTo ndebug b t ↔
      (∃ d rest, b = d.encode ++ rest ∧ Decodable ndebug d ∧ Light d) ∨ Refused ndebug b := by
  unfold UnpacksTo
  constructor
  · intro h
    split at h
    case h_1 v rest hok =>
      obtain ⟨d, hwf, rfl, hval⟩ := phpMpUnpack_ok_iff.mp hok
      rcases phpMpCheck_ok hwf (by simp) hcheck with ⟨hlight, -⟩ | hlong
      · exact .inl ⟨d, rest, rfl, decodable_iff.mpr ⟨hwf, v, hval⟩, hlight⟩
      · rw [h] at hlong
        exact absurd hlong (lt_irrefl _)
    case h_2 e hfail => exact .inr (phpMpUnpack_failure_iff.mp ⟨e, hfail⟩)
    case h_3 => exact h.elim
  · rintro (⟨d, rest, rfl, hdec, hlight⟩ | href)
    · obtain ⟨hwf, v, hval⟩ := decodable_iff.mp hdec
      rw [phpMpCheck_doc hwf hlight (by simp)] at hcheck
      obtain ⟨⟩ := hcheck
      rw [phpMpUnpack_ok_iff.mpr ⟨d, hwf, rfl, hval⟩]
    · obtain ⟨e, he⟩ := phpMpUnpack_failure_iff.mpr href
      rw [he]
      trivial

/-- The theorem at the array of a nil and a 5. -/
theorem phpMpUnpack_checked_pair : UnpacksTo false [0x92, 0xc0, 0x05] [] :=
  (phpMpUnpack_checked false (by decide)).mpr <| .inl
    ⟨.array .fix [.nil, .uint .fix 5], [], by decide,
      ⟨by decide, by simp [Plain, AllPlain], by simp [SignedNegative, AllSignedNegative]⟩,
      by simp [Light, Doc.peak, peakAll, intMax]⟩

/-- The lead byte of a 16-bit map alone is accepted, though unpacking it reads past its end. -/
theorem phpMpUnpack_past_end : ¬ ∀ (ndebug : Bool) (b t : Bytes),
    phpMpCheck b b.length = .ok (0, t) → UnpacksTo ndebug b t := by
  intro h
  have hmap : ¬ UnpacksTo false [0xde] [] := by
    simp [UnpacksTo, show phpMpUnpack false [0xde] = .error (.fault .oob) from rfl]
  exact hmap (h false [0xde] [] (by decide))

end BeePhp
