import BeePhp.Base64
import BeePhp.Sha1
import BeePhp.Tp

/-!
# third_party/tp.h: the scramble of an authentication

`tp_xor`, `tp_scramble_prepare`, and what `tp_auth` makes of the salt in base64 and the password.
-/

namespace BeePhp

open Codec (Bytes)

/-- `tp_xor`: what `to` holds afterwards. `right` may be `to`. -/
def tpXor : Bytes → Bytes → Nat → Except Fault Bytes
  | _, _, 0 => .ok []
  | l :: left, r :: right, len + 1 => do return (l ^^^ r) :: (← tpXor left right len)
  | _, _, _ + 1 => .error .oob

/-- `tp_scramble_prepare`. The local variable `ctx` holds `ctx` before. -/
def tpScramblePrepare (ctx : Sha1Ctx) (salt password : Bytes) : Except Fault Bytes := do
  let ctx ← sha1Update (sha1Init ctx) password (UInt32.ofNat password.length)
  let (hash1, ctx) ← sha1Final ctx
  let ctx ← sha1Update (sha1Init ctx) hash1 (UInt32.ofNat scrambleSize)
  let (hash2, ctx) ← sha1Final ctx
  let ctx ← sha1Update (sha1Init ctx) salt (UInt32.ofNat scrambleSize)
  let ctx ← sha1Update ctx hash2 (UInt32.ofNat scrambleSize)
  let (out, _) ← sha1Final ctx
  tpXor hash1 out scrambleSize

/-- The memory of local variables before they are set: `salt` of `tp_auth`, and `ctx` of
`tp_scramble_prepare`. -/
structure ScrambleLocals where
  salt : Bytes
  ctx : Sha1Ctx
  salt_length : salt.length = 64
  buffer_length : ctx.buffer.length = 64

/-- The scramble of `tp_auth`, from the salt in base64 and the password. -/
def tpAuthScramble (locals : ScrambleLocals) (saltBase64 pass : Bytes) : Except Fault Bytes := do
  if saltBase64.length < 44 then throw .oob
  let decoded ← base64TpDecode (saltBase64.take 44) locals.salt
  tpScramblePrepare locals.ctx decoded.out pass

end BeePhp
