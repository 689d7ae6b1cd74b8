import BeePhp.Machine

/-!
# Proofs: the integers of the machine

What the conversions between the integer types do to a number inside and outside of the range of the
other type.
-/

namespace BeePhp

theorem toInt_of_lt {n : Nat} (h : n < 2 ^ 31) : toInt n = n := by
  unfold toInt
  rw [Int.bmod_def]
  omega

theorem toInt_of_ge {n : Nat} (h : 2 ^ 31 ≤ n) (hlt : n < 2 ^ 32) : toInt n = (n : Int) - 2 ^ 32 := by
  unfold toInt
  rw [Int.bmod_def]
  split <;> omega

theorem toInt_spec {i : Int} (h : 0 ≤ i) :
    toInt i ≤ intMax ∧ toInt i ≤ i ∧ (2 ^ 32 : Int) ∣ i - toInt i := by
  simp only [toInt, intMax, Int.bmod_def]
  split <;> omega

/-! ## Numbers of bytes that are returned as an `int` -/

theorem toSize_toInt {n : Nat} (h : n < 2 ^ 31) : toSize (toInt n) = n := by
  rw [toInt_of_lt h, toSize]
  omega

theorem toSize_toInt_ne {n : Nat} (hlo : 2 ^ 31 ≤ n) (hhi : n < 2 ^ 32) : toSize (toInt n) ≠ n := by
  rw [toInt_of_ge hlo hhi, toSize]
  omega

/-- Such a number is not taken for a greater one. -/
theorem eq_of_toSize_toInt {k n : Nat} (hle : k ≤ n) (hn : n < 2 ^ 32)
    (h : toSize (toInt k) = n) : k = n := by
  unfold toSize toInt at h
  rw [Int.bmod_def] at h
  split at h <;> omega

end BeePhp
