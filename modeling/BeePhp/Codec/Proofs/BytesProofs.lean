import BeePhp.Codec.Bytes

/-!
# Proofs: big-endian numbers

`toBE k` and `ofBE` are inverse on numbers below `256 ^ k` and on strings of `k` bytes.
-/

namespace BeePhp.Codec

@[simp] theorem toBE_length (k n : Nat) : (toBE k n).length = k := by
  induction k with
  | zero => rfl
  | succ k ih => simp [toBE, ih]

theorem ofBE_lt (bs : Bytes) : ofBE bs < 256 ^ bs.length := by
  induction bs with
  | nil => simp [ofBE]
  | cons b bs ih =>
    have hb : b.toNat + 1 ≤ 256 := b.toNat_lt
    calc ofBE (b :: bs) < b.toNat * 256 ^ bs.length + 256 ^ bs.length := by
          simp only [ofBE]; omega
      _ = (b.toNat + 1) * 256 ^ bs.length := by ring
      _ ≤ 256 * 256 ^ bs.length := Nat.mul_le_mul_right _ hb
      _ = 256 ^ (b :: bs).length := by rw [List.length_cons, pow_succ]; ring

theorem ofBE_toBE (k n : Nat) : ofBE (toBE k n) = n % 256 ^ k := by
  induction k with
  | zero => simp [toBE, ofBE, Nat.mod_one]
  | succ k ih =>
    simp only [toBE, ofBE, toBE_length, ih, UInt8.toNat_ofNat']
    have hmod : n % (256 ^ k * 256) = n % 256 ^ k + 256 ^ k * (n / 256 ^ k % 256) := Nat.mod_mul
    rw [pow_succ 256 k, hmod]
    ring

theorem ofBE_toBE_of_lt {k n : Nat} (h : n < 256 ^ k) : ofBE (toBE k n) = n := by
  rw [ofBE_toBE, Nat.mod_eq_of_lt h]

/-- Adding a multiple of `256 ^ k` does not change the `k` low-order bytes. -/
theorem toBE_add_mul (k m n : Nat) : toBE k (m * 256 ^ k + n) = toBE k n := by
  induction k generalizing m with
  | zero => rfl
  | succ k ih =>
    have hdiv : (m * 256 ^ (k + 1) + n) / 256 ^ k = m * 256 + n / 256 ^ k := by
      rw [pow_succ, show m * (256 ^ k * 256) = (m * 256) * 256 ^ k by ring, Nat.add_comm,
        Nat.add_mul_div_right _ _ (by positivity), Nat.add_comm]
    have hlow : toBE k (m * 256 ^ (k + 1) + n) = toBE k n := by
      rw [pow_succ, show m * (256 ^ k * 256) = (m * 256) * 256 ^ k by ring]
      exact ih (m * 256)
    simp only [toBE, hdiv, hlow]
    congr 1
    apply UInt8.toNat_inj.mp
    simp only [UInt8.toNat_ofNat']
    omega

theorem toBE_mod (k n : Nat) : toBE k (n % 256 ^ k) = toBE k n := by
  conv_rhs => rw [← Nat.div_add_mod n (256 ^ k), Nat.mul_comm, toBE_add_mul]

theorem toBE_append (j k n : Nat) : toBE (j + k) n = toBE j (n / 256 ^ k) ++ toBE k n := by
  induction j with
  | zero => simp [toBE]
  | succ j ih =>
    rw [Nat.succ_add, toBE, ih, toBE, Nat.div_div_eq_div_mul, ← Nat.pow_add, Nat.add_comm k j]
    rfl

theorem toBE_ofBE (bs : Bytes) : toBE bs.length (ofBE bs) = bs := by
  induction bs with
  | nil => rfl
  | cons b bs ih =>
    have hdiv : ofBE (b :: bs) / 256 ^ bs.length = b.toNat := by
      simp only [ofBE]
      rw [Nat.add_comm, Nat.add_mul_div_right _ _ (by positivity),
        Nat.div_eq_of_lt (ofBE_lt bs), Nat.zero_add]
    rw [List.length_cons, toBE, hdiv]
    simp only [ofBE, toBE_add_mul, ih, UInt8.ofNat_toNat]

/-- A byte string of a known length is the image of the number it writes. -/
theorem eq_toBE {k : Nat} {bs : Bytes} (h : bs.length = k) : bs = toBE k (ofBE bs) := by
  rw [← h, toBE_ofBE]

theorem ofBE_lt_of_length {k : Nat} {bs : Bytes} (h : bs.length = k) : ofBE bs < 256 ^ k :=
  h ▸ ofBE_lt bs

/-! ## Two's complement -/

theorem twos_lt (k : Nat) (i : Int) : twos k i < 256 ^ k := by
  have hpos : (0 : Int) < (256 ^ k : Nat) := by positivity
  have h1 := Int.emod_nonneg i hpos.ne'
  have h2 := Int.emod_lt_of_pos i hpos
  unfold twos
  omega

theorem signed_twos {k : Nat} {i : Int} (hlo : -((256 ^ k : Nat) : Int) ≤ 2 * i)
    (hhi : 2 * i < (256 ^ k : Nat)) : signed k (twos k i) = i := by
  have hpos : (0 : Int) < (256 ^ k : Nat) := by positivity
  have h1 := Int.emod_nonneg i hpos.ne'
  unfold signed twos
  rw [Int.toNat_of_nonneg h1, Int.emod_bmod]
  exact Int.bmod_eq_of_le_mul_two (by omega) (by omega)

theorem twos_signed {k n : Nat} (h : n < 256 ^ k) : twos k (signed k n) = n := by
  unfold twos signed
  rw [Int.bmod_emod, ← Int.natCast_mod, Int.toNat_natCast, Nat.mod_eq_of_lt h]

/-- The range of a signed number of `k` bytes. -/
theorem signed_bounds (k n : Nat) :
    -((256 ^ k : Nat) : Int) ≤ 2 * signed k n ∧ 2 * signed k n < (256 ^ k : Nat) := by
  have hpos : 0 < 256 ^ k := by positivity
  have h1 := Int.le_bmod (x := (n : Int)) hpos
  have h2 := Int.bmod_lt (x := (n : Int)) hpos
  unfold signed
  omega

end BeePhp.Codec
