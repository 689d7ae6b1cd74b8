import BeePhp.Msgpack.Proofs.RoundTripProofs
import BeePhp.Zend.Built

/-!
# Proofs: arrays packed as lists

No operation lowers `nNextFreeElement`, so that it stays above the keys that are not negative
(`ArrayOp.run_indexed`). Then as many keys as it says, none of them negative or a string, are those of a
list.
-/

namespace BeePhp

open Codec

variable {α : Type}

/-! ## The invariant -/

/-- `nNextFreeElement` is not negative and above the keys that are not, unless it cannot go any higher. -/
structure Table.Indexed (t : Table α) : Prop where
  next_lt : t.nNextFreeElement.toNat < 2 ^ 63
  lt_next : ∀ h, Key.idx h ∈ keys t.entries → h.toNat < 2 ^ 63 →
    h.toNat < t.nNextFreeElement.toNat ∨ t.nNextFreeElement.toNat = 2 ^ 63 - 1

theorem nextFree_toNat {h next : UInt64} (hnext : next.toNat < 2 ^ 63) :
    (nextFree h next).toNat =
      if h.toNat < 2 ^ 63 ∧ next.toNat ≤ h.toNat then min (h.toNat + 1) (2 ^ 63 - 1) else next.toNat := by
  have hmax : longMax.toNat = 2 ^ 63 - 1 := rfl
  have hint (i : UInt64) : i.toInt64.toInt = (i.toNat : Int).bmod (2 ^ 64) := BitVec.toInt_eq_toNat_bmod _
  have hge : h.toInt64 ≥ next.toInt64 ↔ h.toNat < 2 ^ 63 ∧ next.toNat ≤ h.toNat := by
    have hle : h.toInt64 ≥ next.toInt64 ↔ next.toInt64.toInt ≤ h.toInt64.toInt := Int64.le_iff_toInt_le
    have hlt := h.toNat_lt
    rw [hle, hint, hint, Int.bmod_def, Int.bmod_def]
    split <;> split <;> omega
  unfold nextFree
  by_cases hcase : h.toNat < 2 ^ 63 ∧ next.toNat ≤ h.toNat
  · rw [if_pos (hge.mpr hcase), if_pos hcase]
    by_cases hlt : h < longMax
    · have hlt' := UInt64.lt_iff_toNat_lt.mp hlt
      rw [if_pos hlt, UInt64.toNat_add]
      simp only [UInt64.reduceToNat]
      omega
    · have hlt' := mt UInt64.lt_iff_toNat_lt.mpr hlt
      rw [if_neg hlt]
      omega
  · rw [if_neg (mt hge.mp hcase), if_neg hcase]

theorem addIndexZval_indexed {t : Table α} (ht : t.Indexed) (h : UInt64) (v : α) :
    (addIndexZval t h v).Indexed := by
  have hnext := nextFree_toNat (h := h) ht.next_lt
  refine ⟨?_, fun i hi hlt => ?_⟩
  · show (nextFree h t.nNextFreeElement).toNat < 2 ^ 63
    have := ht.next_lt
    rw [hnext]
    split <;> omega
  · show i.toNat < (nextFree h t.nNextFreeElement).toNat ∨ (nextFree h t.nNextFreeElement).toNat = 2 ^ 63 - 1
    have hold : i = h ∨ Key.idx i ∈ keys t.entries := by
      have hi : Key.idx i ∈ keys (enter (.idx h) v t.entries) := hi
      rw [keys_enter] at hi
      split at hi
      · exact .inr hi
      · rcases List.mem_append.mp hi with hi | hi
        · exact .inr hi
        · exact .inl (Key.idx.inj (List.mem_singleton.mp hi))
    rw [hnext]
    rcases hold with rfl | hold
    · split <;> omega
    · have := ht.lt_next i hold hlt
      split <;> omega

/-- What one operation preserves. -/
theorem ArrayOp.run_indexed {t : Table Zval} (ht : t.Indexed) (op : ArrayOp) : (op.run t).Indexed := by
  cases op with
  | insert h v => exact addIndexZval_indexed ht _ v
  | append v =>
    show (addNextIndexZval t v).Indexed
    unfold addNextIndexZval
    split
    · exact ht
    · exact addIndexZval_indexed ht _ v
  | insertStr s v =>
    refine ⟨ht.next_lt, fun h hh hlt => ht.lt_next h ?_ hlt⟩
    have hh : Key.idx h ∈ keys (enter (.str s) v t.entries) := hh
    rw [keys_enter] at hh
    split at hh
    · exact hh
    · rcases List.mem_append.mp hh with hh | hh
      · exact hh
      · cases List.mem_singleton.mp hh
  | unset k =>
    refine ⟨ht.next_lt, fun h hh hlt => ht.lt_next h ?_ hlt⟩
    obtain ⟨e, he, heq⟩ := List.mem_map.mp hh
    exact List.mem_map.mpr ⟨e, (List.mem_filter.mp he).1, heq⟩

theorem HashTable.Built.indexed {ht : HashTable} (h : ht.Built) : ht.contents.Indexed := by
  obtain ⟨ops, hops⟩ := h
  rw [← hops]
  have hrun (ops : List ArrayOp) : ∀ t : Table Zval, t.Indexed → (ops.foldl ArrayOp.run t).Indexed := by
    induction ops with
    | nil => exact fun t ht => ht
    | cons op ops ih => exact fun t ht => ih _ (op.run_indexed ht)
  exact hrun ops .empty ⟨by decide, fun h hh => absurd hh (List.not_mem_nil)⟩

/-! ## Lists -/

theorem isList_iff (ht : HashTable) :
    ht.IsList ↔ ∀ k, k ∈ keys ht.entries ↔ k ∈ indices 0 ht.entries.length := by
  have hindices (k : Key) : k ∈ indices 0 ht.entries.length ↔
      ∃ i < zendHashNumElements ht, k = .idx (UInt64.ofNat i) := by
    simp [indices, zendHashNumElements, List.mem_range'_1, eq_comm]
  constructor
  · intro h k
    rw [hindices]
    exact h.1 k
  · intro h
    refine ⟨fun k => (h k).trans (hindices k), fun i hi => ?_⟩
    exact lookup_isSome.mpr ((h _).mpr ((hindices _).mpr ⟨i, hi, rfl⟩))

/-- Of a table that operations have made, `php_mp_is_hash` says that it is a list only if it is one, exactly
if something tells. -/
theorem phpMpIsHash_isList {ht : HashTable} (h : ht.Built) :
    (phpMpIsHash ht = false → ht.IsList) ↔ ht.Telling := by
  have hindexed := h.indexed
  have hnext : ht.nNextFreeElement.toInt64 ≥ 0 := (toInt64_nonneg_iff _).mpr hindexed.next_lt
  have hcount := ht.count_lt
  rw [phpMpIsHash_eq_false hnext, isList_iff]
  constructor
  · intro hlist
    by_contra htell
    simp only [HashTable.Telling, not_or, not_exists, not_not, not_le, zendHashNumElements] at htell
    obtain ⟨hneg, hstr, hn, hlt⟩ := htell
    refine hneg fun i hi => ?_
    have hidx : ∀ k ∈ keys ht.entries, ∃ i, k = .idx i := by
      intro k hk
      cases k with
      | idx i => exact ⟨i, rfl⟩
      | str s => exact absurd hk (hstr s)
    have hi := (mem_indices (by omega) i).mp ((hlist ⟨hlt, hn, hidx⟩ _).mp hi)
    exact (toInt64_nonneg_iff i).mpr (by omega)
  · rintro htell ⟨hlt, hn, hidx⟩
    rcases htell with hnonneg | ⟨s, hs⟩ | hne | hge
    · refine indices_of_bounded ht.nodup (by omega) fun k hk => ?_
      obtain ⟨i, rfl⟩ := hidx k hk
      have hi := (toInt64_nonneg_iff i).mp (hnonneg i hk)
      have hbound : i.toNat < ht.nNextFreeElement.toNat ∨ ht.nNextFreeElement.toNat = 2 ^ 63 - 1 :=
        hindexed.lt_next i hk hi
      exact ⟨i, rfl, by omega⟩
    · obtain ⟨i, hi⟩ := hidx _ hs
      cases hi
    · exact absurd hn hne
    · rw [zendHashNumElements] at hge
      omega

/-- `$a = array(); $a[] = true; $a[1] = null;` -/
theorem phpMpIsHash_isList_appended :
    (HashTable.list [.bool true, .null] (by decide)).IsList := by
  have hbuilt : (HashTable.list [.bool true, .null] (by decide)).Built :=
    ⟨[.append (.bool true), .insert 1 .null], rfl⟩
  refine (phpMpIsHash_isList hbuilt).mpr (.inl fun h hh => ?_) (by decide)
  have hmem : h = 0 ∨ h = 1 := by simpa [HashTable.list, keys] using hh
  rcases hmem with rfl | rfl <;> decide

/-- `$a = array(-5 => true, 1 => null)`, two elements with 2 as the next index. -/
theorem phpMpIsHash_isList_negative :
    ¬ ∀ ht : HashTable, ht.Built → phpMpIsHash ht = false → ht.IsList := by
  intro h
  let ht : HashTable := ⟨[(.idx (-5), .bool true), (.idx 1, .null)], 2, by decide, by decide, by simp [keys]⟩
  have hbuilt : ht.Built := ⟨[.insert (-5) (.bool true), .insert 1 .null], rfl⟩
  obtain ⟨i, hi, hkey⟩ := ((h ht hbuilt (by decide)).1 (.idx (-5))).mp (by simp [ht, keys])
  have hlt : i < 2 := hi
  have hnat := congrArg UInt64.toNat (Key.idx.inj hkey)
  rw [toNat_ofNat (by omega)] at hnat
  have hneg : (-5 : UInt64).toNat = 2 ^ 64 - 5 := rfl
  omega

end BeePhp
