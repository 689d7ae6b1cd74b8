import BeePhp.Codec.Reader
import BeePhp.Codec.Proofs.BytesProofs

/-!
# Proofs: readers

Rules for `Runs` and `Reads`, one for each combinator, and what a reader that succeeds has read.
-/

namespace BeePhp.Codec

theorem except_bind_eq_ok {ε α β : Type} {x : Except ε α} {f : α → Except ε β} {b : β} :
    (x >>= f) = .ok b ↔ ∃ a, x = .ok a ∧ f a = .ok b := by
  cases x <;> simp [bind, Except.bind]

namespace Reader

variable {ε α β : Type}

/-! ## How the combinators run -/

theorem bind_run (r : Reader ε α) (f : α → Reader ε β) (bs : Bytes) :
    (r >>= f) bs = match r bs with
      | .ok (a, rest) => f a rest
      | .error e => .error e := by
  change (Except.bind _ _) = _
  cases r bs <;> rfl

@[simp] theorem pure_run (a : α) (bs : Bytes) : (pure a : Reader ε α) bs = .ok (a, bs) := rfl

@[simp] theorem stop_run (e : ε) (bs : Bytes) : (stop e : Reader ε α) bs = .error e := rfl

@[simp] theorem byte_bind (e : ε) (f : UInt8 → Reader ε β) (b : UInt8) (bs : Bytes) :
    (byte e >>= f) (b :: bs) = f b bs := rfl

theorem mapError_eq_ok {ε' : Type} {g : ε → ε'} {r : Reader ε α} {bs rest : Bytes} {a : α} :
    mapError g r bs = .ok (a, rest) ↔ r bs = .ok (a, rest) := by
  unfold mapError
  rcases r bs with e | ⟨a', rest'⟩ <;> simp

theorem mapError_eq_error {ε' : Type} {g : ε → ε'} {r : Reader ε α} {bs : Bytes} {e' : ε'} :
    mapError g r bs = .error e' ↔ ∃ e, r bs = .error e ∧ g e = e' := by
  unfold mapError
  rcases r bs with e | ⟨a', rest'⟩ <;> simp

theorem bind_of_ok {r : Reader ε α} {f : α → Reader ε β} {bs rest : Bytes} {a : α}
    (h : r bs = .ok (a, rest)) : (r >>= f) bs = f a rest := by
  rw [bind_run, h]

theorem bind_of_error {r : Reader ε α} {f : α → Reader ε β} {bs : Bytes} {e : ε}
    (h : r bs = .error e) : (r >>= f) bs = .error e := by
  rw [bind_run, h]

theorem bind_eq_ok {r : Reader ε α} {f : α → Reader ε β} {bs rest : Bytes} {b : β} :
    (r >>= f) bs = .ok (b, rest) ↔ ∃ a mid, r bs = .ok (a, mid) ∧ f a mid = .ok (b, rest) := by
  rw [bind_run]
  rcases r bs with e | ⟨a, mid⟩ <;> simp

theorem bind_eq_error {r : Reader ε α} {f : α → Reader ε β} {bs : Bytes} {e : ε} :
    (r >>= f) bs = .error e ↔
      r bs = .error e ∨ ∃ a mid, r bs = .ok (a, mid) ∧ f a mid = .error e := by
  rw [bind_run]
  rcases r bs with e' | ⟨a, mid⟩ <;> simp

/-! ## Running on definite bytes -/

theorem Runs.bind {r : Reader ε α} {f : α → Reader ε β} {c d : Bytes} {x : Except ε α}
    {y : α → Except ε β} (hr : Runs r c x) (hf : ∀ a, x = .ok a → Runs (f a) d (y a)) :
    Runs (r >>= f) (c ++ d) (x >>= y) := by
  intro rest
  cases x with
  | error e =>
    rw [List.append_assoc, bind_of_error (hr _)]
    rfl
  | ok a =>
    rw [List.append_assoc, bind_of_ok (hr _), hf a rfl]
    rfl

theorem Runs.stop (e : ε) : Runs (stop e : Reader ε α) [] (.error e) := fun _ => rfl

/-! ## Reading definite bytes -/

theorem Reads.pure (a : α) : Reads (Pure.pure a : Reader ε α) [] a := fun _ => rfl

/-- After a reader that moves past `c`, the rest decides. -/
theorem Reads.bindRuns {r : Reader ε α} {f : α → Reader ε β} {c d : Bytes} {a : α}
    {x : Except ε β} (hr : Reads r c a) (hf : Runs (f a) d x) : Runs (r >>= f) (c ++ d) x :=
  have h : Runs (r >>= f) (c ++ d) (Except.ok a >>= fun _ => x) :=
    Runs.bind hr fun a' ha => by cases ha; exact hf
  h

theorem Reads.bind {r : Reader ε α} {f : α → Reader ε β} {c d : Bytes} {a : α} {b : β}
    (hr : Reads r c a) (hf : Reads (f a) d b) : Reads (r >>= f) (c ++ d) b := hr.bindRuns hf

/-- Binding a reader to a computation that reads nothing more. -/
theorem Runs.map {r : Reader ε α} {c : Bytes} {x : Except ε α} (hr : Runs r c x) (g : α → β) :
    Runs (do return g (← r)) c (do return g (← x)) := by
  have h : Runs (r >>= fun a => Pure.pure (g a)) (c ++ []) (x >>= fun a => Pure.pure (g a)) :=
    hr.bind fun a _ => Reads.pure (g a)
  rwa [List.append_nil] at h

theorem Reads.map {r : Reader ε α} {c : Bytes} {a : α} (hr : Reads r c a) (g : α → β) :
    Reads (do return g (← r)) c (g a) := Runs.map hr g

/-- Binding after a reader that moves past `c`, when the bytes are given as one string. -/
theorem Reads.bind' {r : Reader ε α} {f : α → Reader ε β} {c d bs : Bytes} {a : α} {b : β}
    (hr : Reads r c a) (hf : Reads (f a) d b) (hbs : bs = c ++ d) : Reads (r >>= f) bs b :=
  hbs ▸ hr.bind hf

theorem Reads.mapError {ε' : Type} {r : Reader ε α} {c : Bytes} {a : α} (hr : Reads r c a)
    (g : ε → ε') : Reads (mapError g r) c a :=
  fun rest => mapError_eq_ok.mpr (hr rest)

theorem Reads.take (e : ε) (c : Bytes) : Reads (take e c.length) c c := by
  intro rest
  simp [Reader.take, Except.map]

theorem Reads.number (e : ε) {k n : Nat} (h : n < 256 ^ k) :
    Reads (number e k) (toBE k n) n := by
  have htake : Reads (Reader.take e k) (toBE k n) (toBE k n) := by
    simpa using Reads.take e (toBE k n)
  refine htake.bind' (d := []) ?_ (by simp)
  rw [ofBE_toBE_of_lt h]
  exact Reads.pure n

/-- What a reader reads is determined by the bytes ahead of it. -/
theorem Reads.unique {r : Reader ε α} {c d rest rest' : Bytes} {a b : α} (hc : Reads r c a)
    (hd : Reads r d b) (h : c ++ rest = d ++ rest') : c = d ∧ a = b := by
  have h1 := hc rest
  rw [h, hd rest'] at h1
  simp only [Except.map, Except.ok.injEq, Prod.mk.injEq] at h1
  obtain ⟨rfl, rfl⟩ := h1
  exact ⟨List.append_cancel_right h, rfl⟩

/-! ## What a success has read -/

theorem byte_eq_ok {e : ε} {b : UInt8} {bs rest : Bytes} :
    byte e bs = .ok (b, rest) ↔ bs = b :: rest := by
  cases bs <;> simp [Reader.byte]

theorem take_eq_ok {e : ε} {n : Nat} {bs c rest : Bytes} :
    take e n bs = .ok (c, rest) ↔ c.length = n ∧ bs = c ++ rest := by
  unfold Reader.take
  split
  case isTrue h =>
    simp only [Except.ok.injEq, Prod.mk.injEq]
    constructor
    · rintro ⟨rfl, rfl⟩
      exact ⟨by simp [h], by simp⟩
    · rintro ⟨rfl, rfl⟩
      simp
  case isFalse h =>
    simp only [reduceCtorEq, false_iff, not_and]
    rintro rfl rfl
    simp at h

theorem number_eq_ok {e : ε} {k n : Nat} {bs rest : Bytes} :
    number e k bs = .ok (n, rest) ↔ n < 256 ^ k ∧ bs = toBE k n ++ rest := by
  constructor
  · intro h
    obtain ⟨c, mid, hc, hn⟩ := bind_eq_ok.mp h
    obtain ⟨hlen, rfl⟩ := take_eq_ok.mp hc
    simp only [pure_run, Except.ok.injEq, Prod.mk.injEq] at hn
    obtain ⟨rfl, rfl⟩ := hn
    exact ⟨ofBE_lt_of_length hlen, by rw [← eq_toBE hlen]⟩
  · rintro ⟨hn, rfl⟩
    exact Reads.number e hn rest

end Reader

end BeePhp.Codec
