import BeePhp.Codec.Bytes

/-!
# Readers

A reader takes the bytes ahead of a cursor and either stops with an error or returns a value together
with the bytes ahead of the moved cursor. `Runs r c x` says what `r` does on the bytes `c` whatever
comes after them, `Reads r c a` that it reads exactly them and returns `a`.
-/

namespace BeePhp.Codec

/-- A computation that moves a cursor over a byte string. -/
abbrev Reader (ε α : Type) := StateT Bytes (Except ε) α

namespace Reader

variable {ε α β : Type}

/-- The next byte, or the error `e` at the end of the bytes. -/
def byte (e : ε) : Reader ε UInt8
  | [] => .error e
  | b :: bs => .ok (b, bs)

/-- The next byte, without moving the cursor. -/
def peek (e : ε) : Reader ε UInt8
  | [] => .error e
  | b :: bs => .ok (b, b :: bs)

/-- The next `n` bytes, or the error `e` when fewer are left. -/
def take (e : ε) (n : Nat) : Reader ε Bytes := fun bs =>
  if n ≤ bs.length then .ok (bs.take n, bs.drop n) else .error e

/-- The number written by the next `k` bytes, most significant byte first. -/
def number (e : ε) (k : Nat) : Reader ε Nat := do
  return ofBE (← take e k)

/-- Stop with the error `e`. -/
def stop (e : ε) : Reader ε α := fun _ => .error e

/-- The same reader with its errors renamed. -/
def mapError {ε' : Type} (g : ε → ε') (r : Reader ε α) : Reader ε' α := fun bs =>
  match r bs with
  | .ok (a, rest) => .ok (a, rest)
  | .error e => .error (g e)

/-- Run `f` on an accumulator `n` times in a row. -/
def times (f : α → Reader ε α) : Nat → α → Reader ε α
  | 0, a => pure a
  | n + 1, a => f a >>= times f n

/-- Ahead of the bytes `c`, whatever follows them, `r` moves past them and returns the value of `x`, or
stops with its error. -/
def Runs (r : Reader ε α) (c : Bytes) (x : Except ε α) : Prop :=
  ∀ rest, r (c ++ rest) = x.map fun a => (a, rest)

/-- `r` reads exactly the bytes `c` and returns `a`, whatever follows them. -/
def Reads (r : Reader ε α) (c : Bytes) (a : α) : Prop := Runs r c (.ok a)

end Reader

end BeePhp.Codec
