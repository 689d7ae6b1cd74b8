import BeePhp.Codec.Base64

/-!
# Proofs: base64

A text stands for the bytes that it was made of (`bytes_sextets`, `filterMap_text`).
-/

namespace BeePhp.Codec.Base64

theorem bytes_sextets (bs : Bytes) : bytes (sextets bs) = bs := by
  have hbyte (x : UInt8) {n : Nat} (h : n = x.toNat) : UInt8.ofNat n = x := by
    rw [h, UInt8.ofNat_toNat]
  fun_induction sextets bs with
  | case1 x y z bs ih =>
    have hx := x.toNat_lt
    have hy := y.toNat_lt
    have hz := z.toNat_lt
    rw [bytes, ih, hbyte x (by omega), hbyte y (by omega), hbyte z (by omega)]
  | case2 x y =>
    have hx := x.toNat_lt
    have hy := y.toNat_lt
    rw [bytes, hbyte x (by omega), hbyte y (by omega)]
  | case3 x =>
    have hx := x.toNat_lt
    rw [bytes, hbyte x (by omega)]
  | case4 => rfl

theorem sextets_lt (bs : Bytes) : ∀ n ∈ sextets bs, n < 64 := by
  fun_induction sextets bs with
  | case1 x y z bs ih =>
    have hx := x.toNat_lt
    have hy := y.toNat_lt
    have hz := z.toNat_lt
    simp only [List.forall_mem_cons]
    exact ⟨by omega, by omega, by omega, by omega, ih⟩
  | case2 x y =>
    have hx := x.toNat_lt
    have hy := y.toNat_lt
    simp only [List.forall_mem_cons, List.not_mem_nil, false_implies, implies_true, and_true]
    omega
  | case3 x =>
    have hx := x.toNat_lt
    simp only [List.forall_mem_cons, List.not_mem_nil, false_implies, implies_true, and_true]
    omega
  | case4 => simp

theorem value_char {n : Nat} (h : n < 64) : value (char n) = some n := by
  revert n
  decide

theorem filterMap_char {ns : List Nat} (h : ∀ n ∈ ns, n < 64) : (ns.map char).filterMap value = ns := by
  induction ns with
  | nil => rfl
  | cons n ns ih =>
    obtain ⟨hn, hns⟩ := List.forall_mem_cons.mp h
    rw [List.map_cons, List.filterMap_cons, value_char hn, ih hns]

/-- The characters of a text stand for its bytes, and the others for nothing. -/
theorem filterMap_text (n : Nat) (bs : Bytes) : (text n bs).filterMap value = sextets bs := by
  have hchars (ds : Bytes) := filterMap_char (sextets_lt ds)
  fun_induction text n bs with
  | case1 n x y z bs ihline ih =>
    rw [List.filterMap_append, hchars]
    by_cases hfull : n + 1 = 18
    · rw [if_pos hfull, List.filterMap_cons, ihline]
      rfl
    · rw [if_neg hfull, ih]
      rfl
  | case2 n x y => rw [List.filterMap_append, hchars, show [61].filterMap value = [] from rfl, List.append_nil]
  | case3 n x => rw [List.filterMap_append, hchars, show [61, 61].filterMap value = [] from rfl, List.append_nil]
  | case4 => rfl

/-- A text has four characters for three bytes and an end of line after each 72. -/
theorem text_length {n : Nat} (hn : n < 18) (bs : Bytes) :
    (text n bs).length = 4 * ((bs.length + 2) / 3) + (n + bs.length / 3) / 18 := by
  fun_induction text n bs with
  | case1 n x y z bs ihline ih =>
    simp only [List.length_append, List.length_map, sextets, List.length_cons, List.length_nil]
    by_cases hfull : n + 1 = 18
    · rw [if_pos hfull, List.length_cons, ihline (by omega)]
      omega
    · rw [if_neg hfull, ih (by omega)]
      omega
  | case2 n x y =>
    simp only [List.length_append, List.length_map, sextets, List.length_cons, List.length_nil]
    omega
  | case3 n x =>
    simp only [List.length_append, List.length_map, sextets, List.length_cons, List.length_nil]
    omega
  | case4 n =>
    simp only [List.length_nil]
    omega

end BeePhp.Codec.Base64
