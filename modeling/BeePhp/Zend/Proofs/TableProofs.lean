import BeePhp.Zend.Value
import Mathlib.Data.List.Nodup
import Mathlib.Data.List.Perm.Subperm

/-!
# Proofs: hash tables

Appending to a table whose indices are the first ones goes on with the next (`addNextIndexZval_next`),
and a table with as many indices as they are bounded by has all of them (`indices_of_bounded`).
-/

namespace BeePhp

open Codec (enter keys lookup_isSome enter_of_notMem)

variable {α : Type}

theorem toNat_ofNat {i : Nat} (h : i < 2 ^ 64) : (UInt64.ofNat i).toNat = i := by
  simp only [UInt64.toNat_ofNat']
  omega

theorem toInt64_nonneg_iff (h : UInt64) : h.toInt64 ≥ 0 ↔ h.toNat < 2 ^ 63 := by
  have hle : h.toInt64 ≥ 0 ↔ 0 ≤ h.toInt64.toInt := Int64.le_iff_toInt_le
  have hint : h.toInt64.toInt = (h.toNat : Int).bmod (2 ^ 64) := BitVec.toInt_eq_toNat_bmod _
  have hlt := h.toNat_lt
  rw [hle, hint, Int.bmod_def]
  split <;> omega

/-! ## Indices in a row -/

/-- The indices from `j` on. -/
def indices (j n : Nat) : List Key := (List.range' j n).map fun i => Key.idx (UInt64.ofNat i)

theorem mem_indices {n : Nat} (hn : n ≤ 2 ^ 64) (i : UInt64) :
    Key.idx i ∈ indices 0 n ↔ i.toNat < n := by
  constructor
  · intro h
    obtain ⟨j, hj, heq⟩ := List.mem_map.mp h
    rw [List.mem_range'_1] at hj
    have hj' := congrArg UInt64.toNat (Key.idx.inj heq)
    rw [toNat_ofNat (by omega)] at hj'
    omega
  · intro h
    exact List.mem_map.mpr ⟨i.toNat, List.mem_range'_1.mpr (by omega), by rw [UInt64.ofNat_toNat]⟩

theorem mem_indices_idx {n : Nat} {k : Key} (h : k ∈ indices 0 n) : ∃ i, k = .idx i := by
  obtain ⟨j, -, rfl⟩ := List.mem_map.mp h
  exact ⟨_, rfl⟩

theorem nodup_indices {n : Nat} (hn : n ≤ 2 ^ 64) : (indices 0 n).Nodup := by
  refine List.Nodup.map_on (fun i hi j hj heq => ?_) List.nodup_range'
  rw [List.mem_range'_1] at hi hj
  have hij := congrArg UInt64.toNat (Key.idx.inj heq)
  rwa [toNat_ofNat (by omega), toNat_ofNat (by omega)] at hij

/-! ## Appending -/

theorem nextFree_ofNat {j : Nat} (h : j < 2 ^ 63 - 1) :
    nextFree (UInt64.ofNat j) (UInt64.ofNat j) = UInt64.ofNat (j + 1) := by
  have hlt : UInt64.ofNat j < longMax := by
    rw [UInt64.lt_iff_toNat_lt, toNat_ofNat (by omega), longMax]
    simp only [UInt64.reduceToNat]
    omega
  rw [nextFree, if_pos (Int64.le_refl _), if_pos hlt]
  simp

/-- Behind the first `j` indices comes the next one. -/
theorem addNextIndexZval_next {t : Table α} {j : Nat} (hj : j < 2 ^ 63 - 1)
    (hnext : t.nNextFreeElement = UInt64.ofNat j) (hkeys : ∀ k ∈ keys t.entries, k ∈ indices 0 j) (v : α) :
    addNextIndexZval t v = ⟨t.entries ++ [(.idx (UInt64.ofNat j), v)], UInt64.ofNat (j + 1)⟩ := by
  have hnew : Key.idx (UInt64.ofNat j) ∉ keys t.entries := by
    intro hmem
    have hlt := (mem_indices (by omega) _).mp (hkeys _ hmem)
    rw [toNat_ofNat (by omega)] at hlt
    omega
  rw [addNextIndexZval, hnext, if_neg (fun h => hnew (lookup_isSome.mp h)), addIndexZval, hnext,
    enter_of_notMem hnew, nextFree_ofNat hj]

/-! ## Counting -/

/-- The index a key stands for. -/
def keyIndex : Key → Nat
  | .idx h => h.toNat
  | .str _ => 0

/-- Distinct indices below their number are all the indices below it. -/
theorem indices_of_bounded {l : List (Key × α)} (hnodup : (keys l).Nodup) (hlen : l.length ≤ 2 ^ 64)
    (hidx : ∀ k ∈ keys l, ∃ i : UInt64, k = .idx i ∧ i.toNat < l.length) (k : Key) :
    k ∈ keys l ↔ k ∈ indices 0 l.length := by
  have hnodup' : ((keys l).map keyIndex).Nodup := by
    refine List.Nodup.map_on (fun k hk k' hk' heq => ?_) hnodup
    obtain ⟨i, rfl, -⟩ := hidx k hk
    obtain ⟨i', rfl, -⟩ := hidx k' hk'
    rw [UInt64.toNat_inj.mp heq]
  have hsub : (keys l).map keyIndex ⊆ List.range l.length := by
    intro j hj
    obtain ⟨k, hk, rfl⟩ := List.mem_map.mp hj
    obtain ⟨i, rfl, hi⟩ := hidx k hk
    exact List.mem_range.mpr hi
  have hperm : ((keys l).map keyIndex).Perm (List.range l.length) :=
    (List.subperm_of_subset hnodup' hsub).perm_of_length_le (by simp [keys])
  constructor
  · intro hk
    obtain ⟨i, rfl, hi⟩ := hidx k hk
    exact (mem_indices hlen i).mpr hi
  · intro hk
    obtain ⟨i, rfl⟩ := mem_indices_idx hk
    have hi := (mem_indices hlen i).mp hk
    obtain ⟨k, hk, hki⟩ := List.mem_map.mp (hperm.mem_iff.mpr (List.mem_range.mpr hi))
    obtain ⟨i', rfl, -⟩ := hidx k hk
    rwa [← UInt64.toNat_inj.mp hki]

end BeePhp
