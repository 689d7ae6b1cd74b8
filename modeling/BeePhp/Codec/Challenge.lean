import BeePhp.Codec.Bytes

/-!
# Challenge and response

A server that keeps the hash of the hash of a password sends a salt. The response hides the hash of the password
behind a hash of the salt and of what the server keeps, so that the server can take it out again.
-/

namespace BeePhp.Codec.Challenge

/-- Two rows of bytes, bit by bit. -/
def xor (a b : Bytes) : Bytes := List.zipWith (· ^^^ ·) a b

theorem xor_length (a b : Bytes) : (xor a b).length = min a.length b.length := List.length_zipWith

/-- The second row is taken out again. -/
theorem xor_xor_cancel {a b : Bytes} (h : a.length = b.length) : xor (xor a b) b = a := by
  induction a generalizing b with
  | nil => rfl
  | cons x a ih =>
    cases b with
    | nil => simp at h
    | cons y b =>
      have hrest := ih (Nat.succ.inj h)
      simp only [xor, List.zipWith_cons_cons] at hrest ⊢
      rw [hrest, UInt8.xor_assoc, UInt8.xor_self, UInt8.xor_zero]

section Hash

variable (hash : Bytes → Bytes)

/-- What the server keeps of a password. -/
def stored (password : Bytes) : Bytes := hash (hash password)

/-- The response of a client that has the password. -/
def response (salt password : Bytes) : Bytes := xor (hash password) (hash (salt ++ stored hash password))

/-- The hash of the password that the server takes out of a response. -/
def recovered (kept salt r : Bytes) : Bytes := xor r (hash (salt ++ kept))

/-- The server accepts a response. -/
def Accepts (kept salt r : Bytes) : Prop := hash (recovered hash kept salt r) = kept

instance (kept salt r : Bytes) : Decidable (Accepts hash kept salt r) :=
  inferInstanceAs (Decidable (_ = _))

variable {hash} {n : Nat} (hlength : ∀ message, (hash message).length = n)
include hlength

theorem response_length (salt password : Bytes) : (response hash salt password).length = n := by
  rw [response, xor_length, hlength, hlength, Nat.min_self]

theorem recovered_response (salt password : Bytes) :
    recovered hash (stored hash password) salt (response hash salt password) = hash password :=
  xor_xor_cancel ((hlength _).trans (hlength _).symm)

/-- The response to the salt is accepted. -/
theorem accepts_response (salt password : Bytes) :
    Accepts hash (stored hash password) salt (response hash salt password) := by
  rw [Accepts, recovered_response hlength]
  rfl

end Hash

end BeePhp.Codec.Challenge
