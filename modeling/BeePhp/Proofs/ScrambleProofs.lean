import BeePhp.Codec.Challenge
import BeePhp.Codec.Proofs.ReaderProofs
import BeePhp.Proofs.Base64Proofs
import BeePhp.Proofs.Sha1Proofs
import BeePhp.Scramble

/-!
# Proofs: the scramble

The scramble is the response to the first 20 bytes of the salt, whatever was in memory before. A server that
keeps the hash of the hash of the password accepts it.
-/

namespace BeePhp

open Codec (Bytes except_bind_eq_ok)
open Codec.Base64 (bytes value text bytes_sextets filterMap_text text_length)
open Codec.Challenge
open Codec.Sha (digest digest_length)

theorem tpXor_eq {left right : Bytes} {len : Nat} (hleft : left.length = len) (hright : right.length = len) :
    tpXor left right len = .ok (xor left right) := by
  induction len generalizing left right with
  | zero =>
    obtain rfl := List.length_eq_zero_iff.mp hleft
    cases right <;> rfl
  | succ len ih =>
    obtain ⟨l, left, rfl⟩ := List.exists_cons_of_length_eq_add_one hleft
    obtain ⟨r, right, rfl⟩ := List.exists_cons_of_length_eq_add_one hright
    rw [tpXor, ih (Nat.succ.inj hleft) (Nat.succ.inj hright)]
    rfl

/-- A message in one piece. -/
theorem sha1Digest_run {ctx : Sha1Ctx} (hbuffer : ctx.buffer.length = 64) {message : Bytes}
    (hlen : message.length + 63 < 2 ^ 32) : ∃ ctx',
      sha1Update (sha1Init ctx) message (UInt32.ofNat message.length) = .ok ctx' ∧
        sha1Final ctx' = .ok (digest message, .wiped) := by
  obtain ⟨ctx', hrun, hholds⟩ := (sha1Init_holds hbuffer).append message hlen
  exact ⟨ctx', hrun, hholds.final⟩

theorem tpScramblePrepare_eq {ctx : Sha1Ctx} (hbuffer : ctx.buffer.length = 64) {salt password : Bytes}
    (hsalt : scrambleSize ≤ salt.length) (hpassword : password.length + 63 < 2 ^ 32) :
    tpScramblePrepare ctx salt password = .ok (response digest (salt.take scrambleSize) password) := by
  have hwiped : Sha1Ctx.wiped.buffer.length = 64 := List.length_replicate
  obtain ⟨ctx₁, hupdate₁, hfinal₁⟩ := sha1Digest_run hbuffer hpassword
  obtain ⟨ctx₂, hupdate₂, hfinal₂⟩ := @sha1Digest_run .wiped hwiped (digest password)
    (by rw [digest_length]; decide)
  have hsize : (UInt32.ofNat scrambleSize).toNat = scrambleSize := rfl
  obtain ⟨ctx₃, hupdate₃, hholds₃⟩ := (sha1Init_holds hwiped).update (hsize.trans_le hsalt) (by decide)
  obtain ⟨ctx₄, hupdate₄, hholds₄⟩ := hholds₃.append (stored digest password)
    (by rw [stored, digest_length]; decide)
  have hfinal₄ := hholds₄.final
  rw [List.nil_append, hsize] at hfinal₄
  have hupdate₂ : sha1Update (sha1Init .wiped) (digest password) (UInt32.ofNat scrambleSize) = .ok ctx₂ := hupdate₂
  have hupdate₄ : sha1Update ctx₃ (digest (digest password)) (UInt32.ofNat scrambleSize) = .ok ctx₄ := hupdate₄
  simp only [tpScramblePrepare, hupdate₁, hfinal₁, hupdate₂, hfinal₂, hupdate₃, hupdate₄, hfinal₄, bind, Except.bind]
  exact tpXor_eq (digest_length password) (digest_length _)

/-- The salt in base64: 44 characters. -/
def saltBytes (saltBase64 : Bytes) : Bytes := bytes ((saltBase64.take 44).filterMap value)

section Salt

variable (locals : ScrambleLocals) {saltBase64 : Bytes} (password : Bytes)

theorem tpAuthScramble_decode (hsalt : 44 ≤ saltBase64.length) : tpAuthScramble locals saltBase64 password =
    base64TpDecode (saltBase64.take 44) locals.salt >>= fun decoded =>
      tpScramblePrepare locals.ctx decoded.out password := by
  rw [tpAuthScramble, if_neg (not_lt.mpr hsalt)]

theorem salt_room (hsalt : 44 ≤ saltBase64.length) :
    3 * (saltBase64.take 44).length / 4 + 1 ≤ locals.salt.length := by
  rw [List.length_take_of_le hsalt, locals.salt_length]
  decide

theorem tpAuthScramble_eq (hsalt : 44 ≤ saltBase64.length) (hchars : 123 ∉ saltBase64.take 44)
    (hbytes : scrambleSize ≤ (saltBytes saltBase64).length) (hpassword : password.length + 63 < 2 ^ 32) :
    tpAuthScramble locals saltBase64 password =
      .ok (response digest ((saltBytes saltBase64).take scrambleSize) password) := by
  obtain ⟨decoded, hrun, hcount, hlength, htake⟩ := base64TpDecode_ok hchars (salt_room locals hsalt)
  have hsalt' : decoded.out.take scrambleSize = (saltBytes saltBase64).take scrambleSize := by
    rw [saltBytes, ← htake, List.take_take, Nat.min_eq_left]
    rw [hcount]
    exact hbytes
  have hroom : scrambleSize ≤ decoded.out.length := by
    rw [hlength, locals.salt_length]
    decide
  have hscramble := tpScramblePrepare_eq locals.buffer_length hroom hpassword
  rw [hsalt'] at hscramble
  rw [tpAuthScramble_decode locals password hsalt, hrun]
  exact hscramble

theorem tpAuthScramble_oob (hsalt : 44 ≤ saltBase64.length) (hchar : 123 ∈ saltBase64.take 44) :
    tpAuthScramble locals saltBase64 password = .error .oob := by
  rw [tpAuthScramble_decode locals password hsalt, base64TpDecode_oob hchar (salt_room locals hsalt)]
  rfl

/-- The scramble reads outside of an object exactly when the salt has a `{`. Otherwise it is the response to the
bytes that are decoded, if these are enough. -/
theorem tpAuthScramble_responds (hsalt : 44 ≤ saltBase64.length) (hpassword : password.length + 63 < 2 ^ 32) :
    (tpAuthScramble locals saltBase64 password = .error .oob ↔ 123 ∈ saltBase64.take 44) ∧
      (123 ∉ saltBase64.take 44 → scrambleSize ≤ (saltBytes saltBase64).length →
        tpAuthScramble locals saltBase64 password =
          .ok (response digest ((saltBytes saltBase64).take scrambleSize) password)) := by
  refine ⟨⟨fun hrun => ?_, tpAuthScramble_oob locals password hsalt⟩,
    fun hchars hbytes => tpAuthScramble_eq locals password hsalt hchars hbytes hpassword⟩
  by_contra hchars
  obtain ⟨decoded, hdecode, -, hlength, -⟩ := base64TpDecode_ok hchars (salt_room locals hsalt)
  have hroom : scrambleSize ≤ decoded.out.length := by
    rw [hlength, locals.salt_length]
    decide
  have hscramble := tpScramblePrepare_eq locals.buffer_length hroom hpassword
  rw [tpAuthScramble_decode locals password hsalt, hdecode] at hrun
  cases hscramble.symm.trans hrun

end Salt

/-! ## A salt of 32 bytes -/

theorem text_salt_length {salt : Bytes} (h : salt.length = 32) : (text 0 salt).length = 44 := by
  rw [text_length (by omega), h]

theorem saltBytes_text {salt : Bytes} (h : salt.length = 32) : saltBytes (text 0 salt) = salt := by
  rw [saltBytes, List.take_of_length_le (Nat.le_of_eq (text_salt_length h)), filterMap_text, bytes_sextets]

/-- The scramble for a salt in base64. -/
theorem tpAuthScramble_text (locals : ScrambleLocals) {salt password : Bytes} (hsalt : salt.length = 32)
    (hpassword : password.length + 63 < 2 ^ 32) :
    tpAuthScramble locals (text 0 salt) password = .ok (response digest (salt.take scrambleSize) password) := by
  have hlength := text_salt_length hsalt
  have hbytes := saltBytes_text hsalt
  have hrun := tpAuthScramble_eq locals password (Nat.le_of_eq hlength.symm)
    (fun hmem => text_chars 0 salt (List.mem_of_mem_take hmem)) (by rw [hbytes, hsalt]; decide) hpassword
  rwa [hbytes] at hrun

/-- Local variables that are blank. -/
def blankLocals : ScrambleLocals := ⟨List.replicate 64 0, .wiped, List.length_replicate, List.length_replicate⟩

theorem tpAuthScramble_responds_sevens :
    tpAuthScramble blankLocals (text 0 (List.replicate 32 7)) (ascii "secret") =
      .ok (response digest (List.replicate 20 7) (ascii "secret")) := by
  have hlength := @text_salt_length (List.replicate 32 7) List.length_replicate
  have hbytes := @saltBytes_text (List.replicate 32 7) List.length_replicate
  have hrun := (tpAuthScramble_responds blankLocals (ascii "secret") (Nat.le_of_eq hlength.symm) (by decide)).2
    (fun hmem => text_chars 0 _ (List.mem_of_mem_take hmem)) (by rw [hbytes]; decide)
  rwa [hbytes] at hrun

/-! ## Lengths -/

theorem tpXor_length {left right out : Bytes} {len : Nat} (h : tpXor left right len = .ok out) :
    out.length = len := by
  induction len generalizing left right out with
  | zero =>
    rw [tpXor] at h
    cases h
    rfl
  | succ len ih =>
    cases left with
    | nil => cases h
    | cons l left =>
      cases right with
      | nil => cases h
      | cons r right =>
        obtain ⟨rest, hrest, hout⟩ := except_bind_eq_ok.mp h
        cases hout
        rw [List.length_cons, ih hrest]

theorem tpScramblePrepare_length {ctx : Sha1Ctx} {salt password r : Bytes}
    (h : tpScramblePrepare ctx salt password = .ok r) : r.length = scrambleSize := by
  obtain ⟨_, -, h⟩ := except_bind_eq_ok.mp h
  obtain ⟨_, -, h⟩ := except_bind_eq_ok.mp h
  obtain ⟨_, -, h⟩ := except_bind_eq_ok.mp h
  obtain ⟨_, -, h⟩ := except_bind_eq_ok.mp h
  obtain ⟨_, -, h⟩ := except_bind_eq_ok.mp h
  obtain ⟨_, -, h⟩ := except_bind_eq_ok.mp h
  obtain ⟨_, -, h⟩ := except_bind_eq_ok.mp h
  exact tpXor_length h

theorem tpAuthScramble_length {locals : ScrambleLocals} {salt pass r : Bytes}
    (h : tpAuthScramble locals salt pass = .ok r) : r.length = scrambleSize := by
  rw [tpAuthScramble] at h
  split_ifs at h with hsalt
  · cases h
  · obtain ⟨_, -, hprepare⟩ := except_bind_eq_ok.mp h
    exact tpScramblePrepare_length hprepare

end BeePhp
