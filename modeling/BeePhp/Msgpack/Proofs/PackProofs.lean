import BeePhp.Msgpack.Value
import BeePhp.Proofs.MsgpuckProofs
import BeePhp.Proofs.SmartStringProofs
import Mathlib.Algebra.Order.BigOperators.Group.Finset

/-!
# Proofs: packing

`php_mp_pack` appends the bytes of `zvalDoc`, and `php_mp_sizeof` returns their number. Both end on
every heap, since a traversal enters a table at most twice: the number of entries that remain,
`Heap.room`, goes down with every call.
-/

namespace BeePhp

open Codec

/-! ## Scalars -/

/-- A packing routine that appends the bytes of a document. -/
def Appends (pack : SmartString → Except Fault SmartString) (d : Doc) : Prop :=
  ∀ str, ∃ str', pack str = .ok str' ∧ str'.data = str.data ++ d.encode

theorem phpMpPackNil_appends : Appends phpMpPackNil .nil :=
  fun str => str.pack_spec rfl

theorem phpMpPackDouble_appends (bits : UInt64) :
    Appends (phpMpPackDouble · bits) (.double bits.toNat) :=
  fun str => str.pack_spec (by simp [mpEncodeDouble, mpSizeofDouble])

theorem phpMpPackBool_appends (b : Bool) : Appends (phpMpPackBool · b) (.bool b) :=
  fun str => mpEncodeBool_eq b ▸ str.pack_spec rfl

theorem toNat_toUInt64 {n : Int64} (h : n ≥ 0) : n.toUInt64.toNat = n.toInt.toNat := by
  rw [Int64.toNat_toUInt64_of_le h]
  rfl

theorem int64_nonneg_iff (n : Int64) : n ≥ 0 ↔ 0 ≤ n.toInt := by
  rw [ge_iff_le, Int64.le_iff_toInt_le]
  rfl

theorem phpMpPackLong_appends (ndebug : Bool) (n : Int64) :
    Appends (phpMpPackLong ndebug · n) (.ofInt n.toInt) := by
  intro str
  by_cases h : n ≥ 0
  · have hn := (int64_nonneg_iff n).mp h
    have hdoc : Doc.ofInt n.toInt = .ofNat n.toInt.toNat := if_pos hn
    simp only [phpMpPackLong, if_pos h, phpMpPackLongPos, toNat_toUInt64 h, hdoc]
    rw [← mpEncodeUint_eq]
    exact str.pack_spec (by rw [mpEncodeUint_eq, mpSizeofUint_eq])
  · have hn : n.toInt < 0 := by
      rw [int64_nonneg_iff] at h
      omega
    simp only [phpMpPackLong, if_neg h, phpMpPackLongNeg, mpSizeofInt_eq ndebug hn,
      mpEncodeInt_eq ndebug hn]
    exact str.pack_spec rfl

theorem toUint32_eq {n : Nat} (h : n < 2 ^ 32) : toUint32 n = n := Nat.mod_eq_of_lt h

theorem phpMpPackString_appends {s : Bytes} (h : s.length + 5 < 2 ^ 32) :
    Appends (phpMpPackString · s) (.ofStr s) := by
  intro str
  simp only [phpMpPackString, toUint32_eq (show s.length < 2 ^ 32 by omega), mpEncodeStr_eq,
    mpSizeofStr_eq h]
  exact str.pack_spec rfl

theorem phpMpPackArray_spec (str : SmartString) {n : Nat} (h : n < 2 ^ 32) :
    ∃ str', phpMpPackArray str n = .ok str' ∧
      str'.data = str.data ++ (SeqWidth.forNat n).arrayHead n := by
  simp only [phpMpPackArray, toUint32_eq h, mpEncodeArray_eq, mpSizeofArray_eq]
  exact str.pack_spec rfl

theorem phpMpPackHash_spec (str : SmartString) {n : Nat} (h : n < 2 ^ 32) :
    ∃ str', phpMpPackHash str n = .ok str' ∧
      str'.data = str.data ++ (SeqWidth.forNat n).mapHead n := by
  simp only [phpMpPackHash, toUint32_eq h, mpEncodeMap_eq, mpSizeofMap_eq]
  exact str.pack_spec rfl

theorem phpMpPackKey_appends (ndebug : Bool) {k : Key} (h : ∀ s, k = .str s → s.length < 2 ^ 31) :
    Appends (phpMpPackKey ndebug · k) (keyDoc k) := by
  cases k with
  | idx i => exact phpMpPackLong_appends ndebug i.toInt64
  | str s => exact phpMpPackString_appends (by have := h s rfl; omega)

/-! ## The recursion guard -/

theorem Counts.dec_inc (c : Counts) (id : Nat) : (c.inc id).dec id = c := by
  funext i
  by_cases h : i = id
  · simp [Counts.dec, Counts.inc, h]
  · simp [Counts.dec, Counts.inc, h]

/-- The number of times tables can still be entered. -/
def Heap.room (H : Heap) (c : Counts) : Nat := ∑ id ∈ Finset.range H.length, (2 - (c id).toNat)

theorem Heap.room_le (H : Heap) (c : Counts) : H.room c ≤ 2 * H.length := by
  calc H.room c ≤ ∑ _id ∈ Finset.range H.length, 2 := Finset.sum_le_sum fun _ _ => Nat.sub_le _ _
    _ = 2 * H.length := by simp [Nat.mul_comm]

/-- Entering a table uses up one of its entries. -/
theorem Heap.room_inc {H : Heap} {c : Counts} {id : Nat} (hid : id < H.length) (hc : ¬ c id > 1) :
    H.room (c.inc id) + 1 = H.room c := by
  have hmem : id ∈ Finset.range H.length := Finset.mem_range.mpr hid
  unfold Heap.room
  rw [← Finset.add_sum_erase _ _ hmem, ← Finset.add_sum_erase _ _ hmem]
  have hrest : ∑ i ∈ (Finset.range H.length).erase id, (2 - ((c.inc id) i).toNat) =
      ∑ i ∈ (Finset.range H.length).erase id, (2 - (c i).toNat) := by
    refine Finset.sum_congr rfl fun i hi => ?_
    simp [Counts.inc, (Finset.mem_erase.mp hi).1]
  have hle : (c id).toNat ≤ 1 := by
    rw [gt_iff_lt, UInt8.lt_iff_toNat_lt] at hc
    exact not_lt.mp hc
  have hinc : ((c.inc id) id).toNat = (c id).toNat + 1 := by
    simp only [Counts.inc, if_pos, UInt8.toNat_add, UInt8.toNat_one]
    omega
  omega

/-- Calls enough for a traversal of a value. -/
def Enough (H : Heap) (fuel : Nat) (c : Counts) : Zval → Prop
  | .arr id => if id < H.length then H.room c + 2 ≤ fuel else 1 ≤ fuel
  | _ => 1 ≤ fuel

theorem enough_depth (H : Heap) (c : Counts) (v : Zval) : Enough H H.depth c v := by
  have := H.room_le c
  unfold Enough Heap.depth
  split
  · split <;> omega
  · omega

theorem enough_pos {H : Heap} {fuel : Nat} {c : Counts} {v : Zval} (h : Enough H fuel c v) :
    1 ≤ fuel := by
  unfold Enough at h
  split at h
  · split at h <;> omega
  · exact h

theorem Heap.table_out {H : Heap} {id : Nat} (h : ¬ id < H.length) : H.table id = .empty := by
  simp [Heap.table, List.getD_eq_getElem?_getD, List.getElem?_eq_none (not_lt.mp h)]

/-- Calls enough for the table that is entered. -/
theorem enough_inc {H : Heap} {fuel : Nat} {c : Counts} {id : Nat} (hfuel : H.room c + 1 ≤ fuel)
    (hc : ¬ c id > 1) : Enough H fuel (c.inc id) (.arr id) := by
  simp only [Enough]
  split
  case isTrue hid =>
    have := H.room_inc hid hc
    omega
  case isFalse => omega

/-- Calls enough for the elements of a table: one outside the heap is empty and needs none. -/
theorem enough_table {H : Heap} {fuel : Nat} {c : Counts} {id : Nat}
    (h : Enough H (fuel + 1) c (.arr id)) (hne : (H.table id).entries ≠ []) :
    H.room c + 1 ≤ fuel := by
  by_cases hid : id < H.length
  · simp only [Enough, if_pos hid] at h
    omega
  · exact absurd (by rw [Heap.table_out hid]; rfl) hne

/-! ## Packing a value -/

/-- What a call of `php_mp_pack` does when it may make `fuel` calls inside each other. -/
def PacksWith (H : Heap) (fuel : Nat)
    (rec : SmartString → Counts → Zval → Except Fault (SmartString × Counts))
    (doc : Counts → Zval → Doc) : Prop :=
  ∀ str c v, Enough H fuel c v →
    ∃ str', rec str c v = .ok (str', c) ∧ str'.data = str.data ++ (doc c v).encode

section Rows

variable {H : Heap} {fuel : Nat}
  {rec : SmartString → Counts → Zval → Except Fault (SmartString × Counts)}
  {doc : Counts → Zval → Doc}

/-- A call for the value under a key leaves the counts as they are: a table is left when it has been
entered. -/
theorem phpMpPackElement_spec (hrec : PacksWith H fuel rec doc) {c : Counts}
    (hfuel : H.room c + 1 ≤ fuel) (str : SmartString) (v : Option Zval) :
    ∃ str', phpMpPackElement rec str c v = .ok (str', c) ∧
      str'.data = str.data ++ (elementDoc doc c v).encode := by
  match v with
  | none =>
    obtain ⟨str', hstr', hdata⟩ := phpMpPackNil_appends str
    exact ⟨str', by simp only [phpMpPackElement, hstr']; rfl, hdata⟩
  | some (.arr id) =>
    by_cases hc : c id > 1
    · obtain ⟨str', hstr', hdata⟩ := phpMpPackNil_appends str
      refine ⟨str', by simp only [phpMpPackElement, if_pos hc, hstr']; rfl, ?_⟩
      simpa only [elementDoc, if_pos hc] using hdata
    · have henough := enough_inc hfuel hc
      obtain ⟨str', hstr', hdata⟩ := hrec str (c.inc id) (.arr id) henough
      refine ⟨str', ?_, by simpa only [elementDoc, if_neg hc] using hdata⟩
      simp only [phpMpPackElement, if_neg hc, hstr', bind, Except.bind, pure, Except.pure,
        Counts.dec_inc]
  | some .null | some (.long _) | some (.double _) | some (.bool _) | some (.str _) | some .other =>
    exact hrec str c _ (show 1 ≤ fuel by omega)

theorem packIndices_spec (hrec : PacksWith H fuel rec doc) {c : Counts} (ht : HashTable) {n : Nat}
    (hfuel : n ≠ 0 → H.room c + 1 ≤ fuel) (i : Nat) (str : SmartString) :
    ∃ str', packIndices rec ht n i str c = .ok (str', c) ∧
      str'.data = str.data ++ encodeAll ((List.range' i n).map fun i =>
        elementDoc doc c (zendHashIndexFind ht (UInt64.ofNat i))) := by
  induction n generalizing i str with
  | zero => exact ⟨str, rfl, by simp [encodeAll]⟩
  | succ n ih =>
    obtain ⟨str₁, h₁, hdata₁⟩ :=
      phpMpPackElement_spec hrec (hfuel (by simp)) str (zendHashIndexFind ht (UInt64.ofNat i))
    obtain ⟨str', h', hdata'⟩ := ih (fun _ => hfuel (by simp)) (i + 1) str₁
    refine ⟨str', by simp only [packIndices, h₁, bind, Except.bind, h'], ?_⟩
    rw [hdata', hdata₁, List.range'_succ, List.map_cons, encodeAll, List.append_assoc]

theorem packEntries_spec (ndebug : Bool) (hrec : PacksWith H fuel rec doc) {c : Counts}
    {entries : List (Key × Zval)} (hfuel : entries ≠ [] → H.room c + 1 ≤ fuel)
    (hkeys : ∀ s, Key.str s ∈ keys entries → s.length < 2 ^ 31) (str : SmartString) :
    ∃ str', packEntries ndebug rec entries str c = .ok (str', c) ∧
      str'.data = str.data ++ encodeAll (flatten (entries.map fun e =>
        (keyDoc e.1, elementDoc doc c (some e.2)))) := by
  induction entries generalizing str with
  | nil => exact ⟨str, rfl, by simp [flatten, encodeAll]⟩
  | cons e entries ih =>
    obtain ⟨k, v⟩ := e
    have hkey : Appends (phpMpPackKey ndebug · k) (keyDoc k) :=
      phpMpPackKey_appends ndebug fun s hs => hkeys s (hs ▸ List.mem_cons_self)
    obtain ⟨str₁, h₁, hdata₁⟩ := hkey str
    obtain ⟨str₂, h₂, hdata₂⟩ := phpMpPackElement_spec hrec (hfuel (by simp)) str₁ (some v)
    obtain ⟨str', h', hdata'⟩ := ih (fun _ => hfuel (by simp))
      (fun s hs => hkeys s (List.mem_cons_of_mem _ hs)) str₂
    refine ⟨str', by simp only [packEntries, h₁, bind, Except.bind, h₂, h'], ?_⟩
    simp only [hdata', hdata₂, hdata₁, List.map_cons, flatten, encodeAll, List.append_assoc]

end Rows

/-- `php_mp_pack` ends, appends the document of the value and leaves the counts as they were. -/
theorem phpMpPackRec_spec (ndebug : Bool) (H : Heap) (fuel : Nat) :
    PacksWith H fuel (phpMpPackRec ndebug H fuel) (zvalDocRec H fuel) := by
  induction fuel with
  | zero => exact fun _ _ _ h => absurd (enough_pos h) (by omega)
  | succ fuel ih =>
    intro str c v henough
    have hlift {pack : SmartString → Except Fault SmartString} {d : Doc} (h : Appends pack d) :
        ∃ str', (do return (← pack str, c)) = Except.ok (str', c) ∧
          str'.data = str.data ++ d.encode := by
      obtain ⟨str', hstr', hdata⟩ := h str
      exact ⟨str', by rw [hstr']; rfl, hdata⟩
    match v with
    | .null => exact hlift phpMpPackNil_appends
    | .long n => exact hlift (phpMpPackLong_appends ndebug n)
    | .double bits => exact hlift (phpMpPackDouble_appends bits)
    | .bool b => exact hlift (phpMpPackBool_appends b)
    | .str s => exact hlift (phpMpPackString_appends (by have := s.small; omega))
    | .other => exact hlift phpMpPackNil_appends
    | .arr id =>
      simp only [phpMpPackRec, zvalDocRec]
      have hfuel := enough_table henough
      split
      · obtain ⟨str₁, h₁, hdata₁⟩ := phpMpPackHash_spec str (H.table id).count_lt
        obtain ⟨str', h', hdata'⟩ :=
          packEntries_spec ndebug ih hfuel (H.table id).key_small str₁
        refine ⟨str', by simp only [zendHashNumElements, h₁, bind, Except.bind, h'], ?_⟩
        simp only [hdata', hdata₁, Doc.ofPairs, Doc.encode, flatten_length, List.length_map,
          List.append_assoc, Nat.mul_div_cancel_left _ (show 0 < 2 by decide)]
      · obtain ⟨str₁, h₁, hdata₁⟩ := phpMpPackArray_spec str (H.table id).count_lt
        have hn : zendHashNumElements (H.table id) ≠ 0 → H.room c + 1 ≤ fuel :=
          fun hne => hfuel (by simpa [zendHashNumElements] using hne)
        obtain ⟨str', h', hdata'⟩ := packIndices_spec ih (H.table id) hn 0 str₁
        rw [← zendHashNumElements] at h₁ hdata₁
        refine ⟨str', by simp only [h₁, bind, Except.bind, h'], ?_⟩
        simp only [hdata', hdata₁, Doc.ofList, Doc.encode, List.length_map, List.length_range',
          List.append_assoc, List.range_eq_range']

theorem phpMpPack_spec (ndebug : Bool) (H : Heap) (str : SmartString) (v : Zval) :
    ∃ str', phpMpPack ndebug H str (fun _ => 0) v = .ok (str', fun _ => 0) ∧
      str'.data = str.data ++ (zvalDoc H v).encode :=
  phpMpPackRec_spec ndebug H H.depth str (fun _ => 0) v (enough_depth H _ v)

/-! ## The document of a value is well formed -/

theorem keyDoc_wf {k : Key} (h : ∀ s, k = .str s → s.length < 2 ^ 31) : (keyDoc k).WF := by
  cases k with
  | idx i => exact Doc.ofInt_wf (Int64.le_toInt _) (Int64.toInt_lt _)
  | str s =>
    have hsmall := h s rfl
    refine Doc.ofStr_wf ?_
    omega

theorem elementDoc_wf {rec : Counts → Zval → Doc} (hrec : ∀ c v, (rec c v).WF) (c : Counts)
    (v : Option Zval) : (elementDoc rec c v).WF := by
  match v with
  | none => exact trivial
  | some (.arr id) =>
    rw [elementDoc]
    split_ifs
    · exact trivial
    · exact hrec _ _
  | some .null | some (.long _) | some (.double _) | some (.bool _) | some (.str _) | some .other =>
    exact hrec _ _

theorem zvalDocRec_wf (H : Heap) (fuel : Nat) (c : Counts) (v : Zval) :
    (zvalDocRec H fuel c v).WF := by
  induction fuel generalizing c v with
  | zero => exact trivial
  | succ fuel ih =>
    cases v with
    | null => exact trivial
    | bool b => exact trivial
    | other => exact trivial
    | long n => exact Doc.ofInt_wf (Int64.le_toInt _) (Int64.toInt_lt _)
    | double bits => exact bits.toNat_lt
    | str s =>
      have hsmall := s.small
      refine Doc.ofStr_wf ?_
      omega
    | arr id =>
      have hcount := (H.table id).count_lt
      rw [zvalDocRec]
      cases phpMpIsHash (H.table id) with
      | true =>
        rw [if_pos rfl]
        refine Doc.ofPairs_wf (by rw [List.length_map]; omega) fun p hp => ?_
        obtain ⟨⟨k, v⟩, he, rfl⟩ := List.mem_map.mp hp
        refine ⟨keyDoc_wf fun s hs => ?_, elementDoc_wf ih c (some v)⟩
        exact (H.table id).key_small s (hs ▸ List.mem_map_of_mem he)
      | false =>
        rw [if_neg Bool.false_ne_true]
        refine Doc.ofList_wf ?_ fun d hd => ?_
        · rw [List.length_map, List.length_range, zendHashNumElements]
          omega
        · obtain ⟨i, -, rfl⟩ := List.mem_map.mp hd
          exact elementDoc_wf ih c _

theorem zvalDoc_wf (H : Heap) (v : Zval) : (zvalDoc H v).WF := zvalDocRec_wf H _ _ v

/-! ## The size of a value -/

theorem phpMpSizeofLong_eq (ndebug : Bool) (n : Int64) :
    phpMpSizeofLong ndebug n = .ok (Doc.ofInt n.toInt).encode.length := by
  by_cases h : n ≥ 0
  · have hn := (int64_nonneg_iff n).mp h
    have hdoc : Doc.ofInt n.toInt = .ofNat n.toInt.toNat := if_pos hn
    simp only [phpMpSizeofLong, if_pos h, phpMpSizeofLongPos, toNat_toUInt64 h, hdoc,
      mpSizeofUint_eq]
  · have hn : n.toInt < 0 := by
      rw [int64_nonneg_iff] at h
      omega
    simp only [phpMpSizeofLong, if_neg h, phpMpSizeofLongNeg, mpSizeofInt_eq ndebug hn]

theorem phpMpSizeofString_eq {s : Bytes} (h : s.length + 5 < 2 ^ 32) :
    phpMpSizeofString s.length = (Doc.ofStr s).encode.length := by
  rw [phpMpSizeofString, toUint32_eq (by omega), mpSizeofStr_eq h]

theorem phpMpSizeofKey_eq (ndebug : Bool) {k : Key} (h : ∀ s, k = .str s → s.length < 2 ^ 31) :
    phpMpSizeofKey ndebug k = .ok (keyDoc k).encode.length := by
  cases k with
  | idx i => exact phpMpSizeofLong_eq ndebug i.toInt64
  | str s => exact congrArg Except.ok (phpMpSizeofString_eq (by have := h s rfl; omega))

/-- What a call of `php_mp_sizeof` does when it may make `fuel` calls inside each other. -/
def SizesWith (H : Heap) (fuel : Nat) (rec : Counts → Zval → Except Fault (Nat × Counts))
    (doc : Counts → Zval → Doc) : Prop :=
  ∀ c v, Enough H fuel c v → rec c v = .ok ((doc c v).encode.length, c)

section SizeRows

variable {H : Heap} {fuel : Nat} {rec : Counts → Zval → Except Fault (Nat × Counts)}
  {doc : Counts → Zval → Doc}

theorem phpMpSizeofElement_eq (hrec : SizesWith H fuel rec doc) {c : Counts}
    (hfuel : H.room c + 1 ≤ fuel) (v : Option Zval) :
    phpMpSizeofElement rec c v = .ok ((elementDoc doc c v).encode.length, c) := by
  match v with
  | none => rfl
  | some (.arr id) =>
    by_cases hc : c id > 1
    · simp only [phpMpSizeofElement, elementDoc, if_pos hc]
      rfl
    · have henough : Enough H fuel (c.inc id) (.arr id) := enough_inc hfuel hc
      simp only [phpMpSizeofElement, elementDoc, if_neg hc, hrec _ _ henough, bind, Except.bind,
        pure, Except.pure, Counts.dec_inc]
  | some .null | some (.long _) | some (.double _) | some (.bool _) | some (.str _) | some .other =>
    exact hrec c _ (show 1 ≤ fuel by omega)

theorem sizeofIndices_eq (hrec : SizesWith H fuel rec doc) {c : Counts} (ht : HashTable) {n : Nat}
    (hfuel : n ≠ 0 → H.room c + 1 ≤ fuel) (i needed : Nat) :
    sizeofIndices rec ht n i needed c = .ok (needed + (encodeAll ((List.range' i n).map fun i =>
      elementDoc doc c (zendHashIndexFind ht (UInt64.ofNat i)))).length, c) := by
  induction n generalizing i needed with
  | zero => simp [sizeofIndices, encodeAll]
  | succ n ih =>
    simp only [sizeofIndices, phpMpSizeofElement_eq hrec (hfuel (by simp)), bind, Except.bind,
      ih fun _ => hfuel (by simp)]
    simp only [List.range'_succ, List.map_cons, encodeAll, List.length_append, Nat.add_assoc]

theorem sizeofEntries_eq (ndebug : Bool) (hrec : SizesWith H fuel rec doc) {c : Counts}
    {entries : List (Key × Zval)} (hfuel : entries ≠ [] → H.room c + 1 ≤ fuel)
    (hkeys : ∀ s, Key.str s ∈ keys entries → s.length < 2 ^ 31) (needed : Nat) :
    sizeofEntries ndebug rec entries needed c =
      .ok (needed + (encodeAll (flatten (entries.map fun e =>
        (keyDoc e.1, elementDoc doc c (some e.2))))).length, c) := by
  induction entries generalizing needed with
  | nil => simp [sizeofEntries, flatten, encodeAll]
  | cons e entries ih =>
    obtain ⟨k, v⟩ := e
    have hkey : phpMpSizeofKey ndebug k = .ok (keyDoc k).encode.length :=
      phpMpSizeofKey_eq ndebug fun s hs => hkeys s (hs ▸ List.mem_cons_self)
    simp only [sizeofEntries, hkey, phpMpSizeofElement_eq hrec (hfuel (by simp)), bind, Except.bind,
      ih (fun _ => hfuel (by simp)) fun s hs => hkeys s (List.mem_cons_of_mem _ hs)]
    simp only [List.map_cons, flatten, encodeAll, List.length_append, Nat.add_assoc]

end SizeRows

/-- `php_mp_sizeof` ends, returns the size of the document of the value and leaves the counts as they
were. -/
theorem phpMpSizeofRec_eq (ndebug : Bool) (H : Heap) (fuel : Nat) :
    SizesWith H fuel (phpMpSizeofRec ndebug H fuel) (zvalDocRec H fuel) := by
  induction fuel with
  | zero => exact fun _ _ h => absurd (enough_pos h) (by omega)
  | succ fuel ih =>
    intro c v henough
    match v with
    | .null => rfl
    | .long n =>
      simp only [phpMpSizeofRec, phpMpSizeofLong_eq]
      rfl
    | .double bits => simp [phpMpSizeofRec, zvalDocRec, Doc.encode, Doc.head, phpMpSizeofDouble, mpSizeofDouble]
    | .bool b => cases b <;> rfl
    | .str s =>
      have hsmall : s.val.length + 5 < 2 ^ 32 := by have := s.small; omega
      exact congrArg (fun n => Except.ok (n, c)) (phpMpSizeofString_eq hsmall)
    | .other => rfl
    | .arr id =>
      have hfuel := enough_table henough
      simp only [phpMpSizeofRec, zvalDocRec]
      split
      · rw [sizeofEntries_eq ndebug ih hfuel (H.table id).key_small]
        simp only [phpMpSizeofHash, toUint32_eq (H.table id).count_lt, zendHashNumElements,
          mpSizeofMap_eq, Doc.ofPairs, Doc.encode, flatten_length, List.length_map,
          List.length_append, Nat.mul_div_cancel_left _ (show 0 < 2 by decide)]
      · have hn : zendHashNumElements (H.table id) ≠ 0 → H.room c + 1 ≤ fuel :=
          fun hne => hfuel (by simpa [zendHashNumElements] using hne)
        rw [sizeofIndices_eq ih (H.table id) hn]
        simp only [phpMpSizeofArray, zendHashNumElements, toUint32_eq (H.table id).count_lt,
          mpSizeofArray_eq, Doc.ofList, Doc.encode, List.length_map, List.length_range',
          List.length_append, List.range_eq_range']

theorem phpMpSizeof_eq (ndebug : Bool) (H : Heap) (v : Zval) :
    phpMpSizeof ndebug H (fun _ => 0) v = .ok ((zvalDoc H v).encode.length, fun _ => 0) :=
  phpMpSizeofRec_eq ndebug H H.depth (fun _ => 0) v (enough_depth H _ v)

/-! ## Sizes and bytes agree -/

/-- On every heap of PHP values, whatever its arrays contain, `php_mp_sizeof` and `php_mp_pack` end,
`php_mp_pack` appends as many bytes as `php_mp_sizeof` has said, and both leave every `nApplyCount` at
zero. -/
theorem phpMpPack_size (ndebug : Bool) (H : Heap) (str : SmartString) (v : Zval) :
    ∃ n str', phpMpSizeof ndebug H (fun _ => 0) v = .ok (n, fun _ => 0) ∧
      phpMpPack ndebug H str (fun _ => 0) v = .ok (str', fun _ => 0) ∧
      ∃ bs, bs.length = n ∧ str'.data = str.data ++ bs := by
  obtain ⟨str', hpack, hdata⟩ := phpMpPack_spec ndebug H str v
  exact ⟨_, str', phpMpSizeof_eq ndebug H v, hpack, _, rfl, hdata⟩

end BeePhp
