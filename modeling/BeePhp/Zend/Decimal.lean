import BeePhp.Zend.Value
import Mathlib.Data.List.Induction
import Mathlib.Data.Nat.Digits.Lemmas

/-!
# Decimal integers

`decimal i` is the canonical decimal form of an integer. Every string that `ZEND_HANDLE_NUMERIC` takes
for an index is of that form.
-/

namespace BeePhp

open Codec (Bytes)

def decimalNat (n : Nat) : Bytes :=
  if n = 0 then [0x30] else ((Nat.digits 10 n).reverse.map fun d => UInt8.ofNat (0x30 + d))

def decimal (i : Int) : Bytes :=
  if i < 0 then 0x2d :: decimalNat i.natAbs else decimalNat i.natAbs

theorem digitsValue_append (ds : Bytes) (d : UInt8) :
    digitsValue (ds ++ [d]) = digitsValue ds * 10 + (d.toNat - 0x30) := by
  simp [digitsValue]

/-- There is no NUL in a number. -/
theorem zero_notMem_decimal (n : Nat) : (0 : UInt8) ∉ decimal n := by
  have hnat : (0 : UInt8) ∉ decimalNat n := by
    unfold decimalNat
    split
    · decide
    · intro hzero
      obtain ⟨d, hd, hbyte⟩ := List.mem_map.mp hzero
      have hlt := Nat.digits_lt_base (by omega : 1 < 10) (List.mem_reverse.mp hd)
      have hvalue := congrArg UInt8.toNat hbyte
      rw [UInt8.toNat_ofNat', Nat.mod_eq_of_lt (by omega)] at hvalue
      simp at hvalue
  rw [decimal, if_neg (by omega)]
  exact hnat

/-- The number a digit string writes, as Mathlib has it. -/
theorem digitsValue_eq (ds : Bytes) :
    digitsValue ds = Nat.ofDigits 10 (ds.reverse.map fun d => d.toNat - 0x30) := by
  induction ds using List.reverseRecOn with
  | nil => rfl
  | append_singleton ds d ih =>
    rw [digitsValue_append, ih, List.reverse_append, List.reverse_singleton, List.singleton_append,
      List.map_cons, Nat.ofDigits_cons]
    simp
    omega

theorem isDigit_iff (d : UInt8) : isDigit d = true ↔ 0x30 ≤ d.toNat ∧ d.toNat ≤ 0x39 := by
  simp [isDigit, UInt8.le_iff_toNat_le]

/-- A digit string without a leading zero is the canonical form of its number. -/
theorem decimalNat_digitsValue {ds : Bytes} (hne : ds ≠ []) (hall : ds.all isDigit = true)
    (hzero : ds.head? = some 0x30 → ds = [0x30]) : decimalNat (digitsValue ds) = ds := by
  by_cases hds : ds = [0x30]
  · subst hds
    rfl
  · have hdigit : ∀ d ∈ ds, 0x30 ≤ d.toNat ∧ d.toNat ≤ 0x39 := fun d hd =>
      (isDigit_iff d).mp (List.all_eq_true.mp hall d hd)
    have hlast : ∀ h : (ds.reverse.map fun d => d.toNat - 0x30) ≠ [],
        (ds.reverse.map fun d => d.toNat - 0x30).getLast h ≠ 0 := by
      intro h
      rw [List.getLast_map (by simpa using hne), List.getLast_reverse]
      intro h0
      have hmem := hdigit (ds.head hne) (List.head_mem hne)
      have hhead : ds.head hne = 0x30 := by
        apply UInt8.toNat_inj.mp
        simp only [UInt8.reduceToNat]
        omega
      exact hds (hzero (by rw [List.head?_eq_some_head hne, hhead]))
    have hdigits : Nat.digits 10 (digitsValue ds) = ds.reverse.map fun d => d.toNat - 0x30 := by
      rw [digitsValue_eq]
      refine Nat.digits_ofDigits 10 (by decide) _ ?_ hlast
      intro l hl
      obtain ⟨d, hd, rfl⟩ := List.mem_map.mp hl
      have := hdigit d (List.mem_reverse.mp hd)
      omega
    have hpos : digitsValue ds ≠ 0 := by
      intro h0
      rw [h0, Nat.digits_zero] at hdigits
      exact hne (by simpa using hdigits.symm)
    rw [decimalNat, if_neg hpos, hdigits, ← List.map_reverse, List.reverse_reverse, List.map_map]
    refine (List.map_congr_left fun d hd => ?_).trans (List.map_id ds)
    have := hdigit d hd
    simp only [Function.comp_apply, id_eq]
    rw [show 0x30 + (d.toNat - 0x30) = d.toNat by omega, UInt8.ofNat_toNat]

/-! ## The digits of a number -/

theorem digitsValue_decimalNat (n : Nat) : digitsValue (decimalNat n) = n := by
  unfold decimalNat
  split
  case isTrue h =>
    rw [h]
    rfl
  case isFalse =>
    rw [digitsValue_eq, ← List.map_reverse, List.reverse_reverse, List.map_map]
    have hid : (Nat.digits 10 n).map ((fun d : UInt8 => d.toNat - 0x30) ∘ fun d => UInt8.ofNat (0x30 + d)) =
        Nat.digits 10 n := by
      refine (List.map_congr_left fun d hd => ?_).trans (List.map_id _)
      have hlt := Nat.digits_lt_base (by omega : 1 < 10) hd
      simp only [Function.comp_apply, UInt8.toNat_ofNat', id_eq]
      omega
    rw [hid, Nat.ofDigits_digits]

theorem decimalNat_all (n : Nat) : (decimalNat n).all isDigit = true := by
  unfold decimalNat
  split
  · decide
  · refine List.all_eq_true.mpr fun c hc => ?_
    obtain ⟨d, hd, rfl⟩ := List.mem_map.mp hc
    have hlt := Nat.digits_lt_base (by omega : 1 < 10) (List.mem_reverse.mp hd)
    rw [isDigit_iff, UInt8.toNat_ofNat']
    omega

theorem decimalNat_length {n : Nat} (h : n < 10 ^ 19) : (decimalNat n).length ≤ 19 := by
  unfold decimalNat
  split
  · decide
  · rw [List.length_map, List.length_reverse]
    exact (Nat.digits_length_le_iff (by omega) n).mpr h

theorem decimalNat_ne_nil (n : Nat) : decimalNat n ≠ [] := by
  unfold decimalNat
  split
  · decide
  case isFalse h =>
    intro hnil
    have hdigits : Nat.digits 10 n ≠ [] := Nat.digits_ne_nil_iff_ne_zero.mpr h
    exact hdigits (List.reverse_eq_nil_iff.mp (List.map_eq_nil_iff.mp hnil))

/-- Only zero begins with a zero. -/
theorem decimalNat_head {n : Nat} (h : (decimalNat n).head? = some 0x30) : n = 0 := by
  by_contra hne
  have hdigits : Nat.digits 10 n ≠ [] := Nat.digits_ne_nil_iff_ne_zero.mpr hne
  rw [decimalNat, if_neg hne, List.head?_map, List.head?_reverse, List.getLast?_eq_some_getLast hdigits,
    Option.map_some, Option.some.injEq] at h
  have hlast := Nat.getLast_digit_ne_zero 10 hne
  have hlt := Nat.digits_lt_base (by omega : 1 < 10) (List.getLast_mem hdigits)
  have hnat := congrArg UInt8.toNat h
  rw [UInt8.toNat_ofNat'] at hnat
  simp only [UInt8.reduceToNat] at hnat
  omega

theorem decimalNat_head_any (n : Nat) : (decimalNat n).head?.any isDigit = true := by
  obtain ⟨c, cs, hcs⟩ := List.exists_cons_of_ne_nil (decimalNat_ne_nil n)
  have hall := decimalNat_all n
  rw [hcs, List.all_cons, Bool.and_eq_true] at hall
  rw [hcs]
  exact hall.1

/-! ## `ZEND_HANDLE_NUMERIC` -/

theorem zendHandleNumeric_nat {n : Nat} (h : n ≤ longMax.toNat) :
    zendHandleNumeric (decimalNat n) = some (UInt64.ofNat n) := by
  have hmax : longMax.toNat = 2 ^ 63 - 1 := rfl
  have hneg : (decimalNat n).head? ≠ some 0x2d := by
    intro hminus
    have hany := decimalNat_head_any n
    rw [hminus] at hany
    cases hany
  have hzero : ¬ ((decimalNat n).head? = some 0x30 ∧ (decimalNat n).length > 1) := by
    rintro ⟨hhead, hlen⟩
    rw [decimalNat_head hhead] at hlen
    exact absurd hlen (by decide)
  have hlen := decimalNat_length (show n < 10 ^ 19 by omega)
  simp only [zendHandleNumeric, hneg, if_false, decimalNat_head_any, decimalNat_all, hzero, false_or,
    not_true_eq_false, digitsValue_decimalNat]
  rw [if_neg (by omega), if_neg (by omega)]

theorem zendHandleNumeric_neg {n : Nat} (hpos : 0 < n) (h : n ≤ longMax.toNat + 1) :
    zendHandleNumeric (0x2d :: decimalNat n) = some (0 - UInt64.ofNat n) := by
  have hmax : longMax.toNat = 2 ^ 63 - 1 := rfl
  have hzero : (decimalNat n).head? ≠ some 0x30 := fun hhead => by
    have := decimalNat_head hhead
    omega
  have hlen := decimalNat_length (show n < 10 ^ 19 by omega)
  simp only [zendHandleNumeric, List.head?_cons, if_true, List.tail_cons, decimalNat_head_any,
    decimalNat_all, hzero, false_and, false_or, not_true_eq_false, if_false, digitsValue_decimalNat]
  rw [if_neg (by omega), if_neg (by omega)]

theorem toInt_ofNat {n : Nat} (h : n ≤ longMax.toNat) : (UInt64.ofNat n).toInt64.toInt = n := by
  have hmax : longMax.toNat = 2 ^ 63 - 1 := rfl
  have hbits : (UInt64.ofNat n).toInt64 = Int64.ofNat n := rfl
  rw [hbits, Int64.toInt_ofNat_of_lt (by omega)]

theorem toInt_neg_ofNat {n : Nat} (h : n ≤ longMax.toNat + 1) :
    (0 - UInt64.ofNat n).toInt64.toInt = -n := by
  have hmax : longMax.toNat = 2 ^ 63 - 1 := rfl
  have hbits : (0 - UInt64.ofNat n).toInt64 = Int64.ofInt (-n) := by
    apply Int64.toBitVec_inj.mp
    simp
  rw [hbits, Int64.toInt_ofInt_of_le (by omega) (by omega)]

/-- A string that is taken for an index is a decimal integer in canonical form. -/
theorem zendHandleNumeric_some {key : Bytes} {h : UInt64} (hkey : zendHandleNumeric key = some h) :
    (∃ n, n ≤ longMax.toNat ∧ key = decimalNat n ∧ h = UInt64.ofNat n) ∨
      ∃ n, 0 < n ∧ n ≤ longMax.toNat + 1 ∧ key = 0x2d :: decimalNat n ∧ h = 0 - UInt64.ofNat n := by
  unfold zendHandleNumeric at hkey
  by_cases hneg : key.head? = some 0x2d
  · obtain ⟨tmp, rfl⟩ : ∃ tmp, key = 0x2d :: tmp := by
      cases key with
      | nil => simp at hneg
      | cons c tmp => exact ⟨tmp, by simpa using hneg⟩
    simp only [List.head?_cons, if_true, List.tail_cons, List.length_cons] at hkey
    split_ifs at hkey with hdigit hzero hall hover
    have hne : tmp ≠ [] := by
      rintro rfl
      simp at hdigit
    have htmp : decimalNat (digitsValue tmp) = tmp := by
      refine decimalNat_digitsValue hne hall fun h0 => ?_
      have := List.length_pos_of_ne_nil hne
      exact absurd (.inl ⟨h0, by omega⟩) hzero
    have hpos : digitsValue tmp ≠ 0 := by
      intro h0
      have h30 : tmp = [0x30] := by rw [← htmp, h0]; rfl
      exact absurd (.inl ⟨by rw [h30]; rfl, by rw [h30]; decide⟩) hzero
    exact .inr ⟨digitsValue tmp, by omega, by omega, by rw [htmp], (Option.some.inj hkey).symm⟩
  · simp only [hneg, if_false] at hkey
    split_ifs at hkey with hdigit hzero hall hover
    have hne : key ≠ [] := by
      rintro rfl
      simp at hdigit
    have htmp : decimalNat (digitsValue key) = key := by
      refine decimalNat_digitsValue hne hall fun h0 => ?_
      have hlen : key.length ≤ 1 := by
        by_contra hlong
        exact absurd (.inl ⟨h0, by omega⟩) hzero
      cases key with
      | nil => exact absurd rfl hne
      | cons c tmp =>
        simp only [List.head?_cons, Option.some.injEq] at h0
        simp only [List.length_cons] at hlen
        rw [h0, List.length_eq_zero_iff.mp (show tmp.length = 0 by omega)]
    exact .inl ⟨digitsValue key, by omega, htmp.symm, (Option.some.inj hkey).symm⟩

/-- A string is taken for an index exactly if it is the canonical decimal form of that long. -/
theorem zendHandleNumeric_eq_some {key : Bytes} {h : UInt64} :
    zendHandleNumeric key = some h ↔ key = decimal h.toInt64.toInt := by
  constructor
  · intro hkey
    rcases zendHandleNumeric_some hkey with ⟨n, hn, rfl, rfl⟩ | ⟨n, hpos, hn, rfl, rfl⟩
    · rw [toInt_ofNat hn, decimal, if_neg (by omega), Int.natAbs_natCast]
    · rw [toInt_neg_ofNat hn, decimal, if_pos (by omega), Int.natAbs_neg, Int.natAbs_natCast]
  · rintro rfl
    have hmax : longMax.toNat = 2 ^ 63 - 1 := rfl
    have hle := h.toInt64.le_toInt
    have hlt := h.toInt64.toInt_lt
    by_cases hneg : h.toInt64.toInt < 0
    · rw [decimal, if_pos hneg, zendHandleNumeric_neg (by omega) (by omega)]
      have hinj : (0 - UInt64.ofNat h.toInt64.toInt.natAbs).toInt64 = h.toInt64 := by
        apply Int64.toInt_inj.mp
        rw [toInt_neg_ofNat (by omega)]
        omega
      rw [← UInt64.toUInt64_toInt64 (0 - _), hinj, UInt64.toUInt64_toInt64]
    · rw [decimal, if_neg hneg, zendHandleNumeric_nat (by omega)]
      have hinj : (UInt64.ofNat h.toInt64.toInt.natAbs).toInt64 = h.toInt64 := by
        apply Int64.toInt_inj.mp
        rw [toInt_ofNat (by omega)]
        omega
      rw [← UInt64.toUInt64_toInt64 (UInt64.ofNat _), hinj, UInt64.toUInt64_toInt64]

end BeePhp
