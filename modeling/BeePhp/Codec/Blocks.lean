import Mathlib.Data.List.Basic

/-!
# Streams of blocks

A stream is absorbed block by block: as soon as as many elements have come as a block has, they are taken into
the state, and the elements of a block that is not full yet wait for more. It makes no difference in which
pieces the stream comes.
-/

namespace BeePhp.Codec.Blocks

variable {σ α : Type} (k : Nat) (step : σ → List α → σ)

/-- One element more. -/
def take (a : σ × List α) (x : α) : σ × List α :=
  if a.2.length + 1 < k then (a.1, a.2 ++ [x]) else (step a.1 (a.2 ++ [x]), [])

/-- The state and the elements that wait, after a piece of the stream. -/
def absorb (a : σ × List α) (xs : List α) : σ × List α := xs.foldl (take k step) a

variable {k step} {a : σ × List α}

theorem absorb_append (xs ys : List α) : absorb k step a (xs ++ ys) = absorb k step (absorb k step a xs) ys :=
  List.foldl_append

/-- What does not fill a block waits. -/
theorem absorb_short {xs : List α} (h : a.2.length + xs.length < k) : absorb k step a xs = (a.1, a.2 ++ xs) := by
  induction xs generalizing a with
  | nil => simp [absorb]
  | cons x xs ih =>
    have hlt : a.2.length + 1 < k := by
      rw [List.length_cons] at h
      omega
    have hrest : (a.2 ++ [x]).length + xs.length < k := by
      rw [List.length_cons] at h
      simp only [List.length_append, List.length_singleton]
      omega
    have hstep : absorb k step a (x :: xs) = absorb k step (a.1, a.2 ++ [x]) xs := by
      rw [absorb, List.foldl_cons, take, if_pos hlt]
      rfl
    rw [hstep, ih hrest, List.append_assoc, List.singleton_append]

/-- What fills a block is taken into the state. -/
theorem absorb_fill {xs : List α} (hlt : a.2.length < k) (h : a.2.length + xs.length = k) :
    absorb k step a xs = (step a.1 (a.2 ++ xs), []) := by
  rcases List.eq_nil_or_concat' xs with rfl | ⟨ys, x, rfl⟩
  · rw [List.length_nil] at h
    omega
  · rw [List.length_append, List.length_singleton] at h
    have hshort : absorb k step a ys = (a.1, a.2 ++ ys) := absorb_short (by omega)
    have hfull : ¬(a.2 ++ ys).length + 1 < k := by
      rw [List.length_append]
      omega
    rw [absorb_append, hshort, absorb, List.foldl_cons, List.foldl_nil, take, if_neg hfull, List.append_assoc]

/-- A piece that fills the block and goes on. -/
theorem absorb_fill_append {xs ys : List α} (hlt : a.2.length < k) (h : a.2.length + xs.length = k) :
    absorb k step a (xs ++ ys) = absorb k step (step a.1 (a.2 ++ xs), []) ys := by
  rw [absorb_append, absorb_fill hlt h]

/-- How many elements wait. -/
theorem absorb_length {xs : List α} (hlt : a.2.length < k) :
    (absorb k step a xs).2.length = (a.2.length + xs.length) % k := by
  induction xs generalizing a with
  | nil => simpa [absorb] using (Nat.mod_eq_of_lt hlt).symm
  | cons x xs ih =>
    have hstep : absorb k step a (x :: xs) = absorb k step (take k step a x) xs := rfl
    rw [hstep]
    by_cases hfull : a.2.length + 1 < k
    · rw [take, if_pos hfull, ih (by simpa using hfull)]
      simp only [List.length_append, List.length_cons, List.length_nil]
      congr 1
      omega
    · have hk : a.2.length + (xs.length + 1) = xs.length + k := by omega
      rw [take, if_neg hfull, ih (by simp only [List.length_nil]; omega), List.length_cons, hk,
        Nat.add_mod_right, List.length_nil, Nat.zero_add]

end BeePhp.Codec.Blocks
