import BeePhp.Msgpack.Proofs.PackProofs
import BeePhp.Msgpack.Proofs.UnpackProofs
import BeePhp.Proofs.MachineProofs
import BeePhp.Zend.Proofs.TableProofs
import Mathlib.Logic.Relation

/-!
# Proofs: unpacking what php_mp_pack has packed

A plain value comes back from its bytes as the same value (`phpMpUnpack_phpMpPack`). An array packed as
a list has, by counting, every index below its number of elements; an array packed as a map comes back
entry by entry.
-/

namespace BeePhp

open Codec
open Codec.Reader

/-! ## The document of a value is plain -/

theorem ofInt_plain (i : Int) : Plain (.ofInt i) ∧ isKeyDoc (.ofInt i) := by
  rw [Doc.ofInt]
  split_ifs
  · exact ⟨trivial, rfl⟩
  · exact ⟨trivial, rfl⟩

theorem keyDoc_isKeyDoc (k : Key) : isKeyDoc (keyDoc k) := by
  cases k with
  | idx h => exact (ofInt_plain _).2
  | str s => exact rfl

theorem elementDoc_plain {rec : Counts → Zval → Doc} (hrec : ∀ c v, Plain (rec c v)) (c : Counts)
    (v : Option Zval) : Plain (elementDoc rec c v) := by
  match v with
  | none => exact trivial
  | some (.arr id) =>
    rw [elementDoc]
    split_ifs
    · exact trivial
    · exact hrec _ _
  | some .null | some (.long _) | some (.double _) | some (.bool _) | some (.str _) | some .other =>
    exact hrec _ _

theorem zvalDocRec_plain (H : Heap) (fuel : Nat) (c : Counts) (v : Zval) :
    Plain (zvalDocRec H fuel c v) := by
  induction fuel generalizing c v with
  | zero => exact trivial
  | succ fuel ih =>
    cases v with
    | long n => exact (ofInt_plain _).1
    | arr id =>
      rw [zvalDocRec]
      cases phpMpIsHash (H.table id) with
      | true =>
        rw [if_pos rfl]
        refine (pairsPlain_iff _).mpr fun p hp => ?_
        obtain ⟨⟨k, v⟩, -, rfl⟩ := List.mem_map.mp hp
        exact ⟨keyDoc_isKeyDoc k, elementDoc_plain ih c (some v)⟩
      | false =>
        rw [if_neg Bool.false_ne_true]
        refine (allPlain_iff _).mpr fun d hd => ?_
        obtain ⟨i, -, rfl⟩ := List.mem_map.mp hd
        exact elementDoc_plain ih c _
    | null | bool _ | double _ | str _ | other => exact trivial

theorem zvalDoc_plain (H : Heap) (v : Zval) : Plain (zvalDoc H v) := zvalDocRec_plain H _ _ v

/-! ## Tables inside tables -/

/-- The table `i` is an element of the table `id`. -/
def Heap.Inside (H : Heap) (i id : Nat) : Prop := ∃ k, (k, Zval.arr i) ∈ (H.table id).entries

theorem acc_irrefl {α : Type} {r : α → α → Prop} {a : α} (h : Acc r a) : ¬ r a a := by
  induction h with
  | intro a _ ih => exact fun ha => ih a ha ha

theorem PlainValue.acc {H : Heap} {v : Zval} (h : PlainValue H v) :
    ∀ id, v = .arr id → Acc H.Inside id := by
  induction h with
  | arr ht _ ih =>
    rintro id ⟨⟩
    exact Acc.intro _ fun i ⟨k, hk⟩ => ih k _ hk i rfl
  | _ => rintro id ⟨⟩

/-- A table is not somewhere inside itself. -/
theorem PlainValue.not_inside {H : Heap} {id : Nat} (h : PlainValue H (.arr id)) :
    ¬ Relation.TransGen H.Inside id id :=
  acc_irrefl (h.acc id rfl).transGen

/-- No table inside `v` has been entered. -/
def Clear (H : Heap) (c : Counts) (v : Zval) : Prop :=
  ∀ id, v = .arr id → ∀ i, Relation.TransGen H.Inside i id → c i = 0

/-! ## Keys and scalars -/

theorem int64_ofNat_toNat {n : Int64} (h : 0 ≤ n.toInt) : Int64.ofNat n.toInt.toNat = n := by
  apply Int64.toInt_inj.mp
  have := n.toInt_lt
  rw [Int64.toInt_ofNat_of_lt (by omega), Int.toNat_of_nonneg h]

theorem ofInt_toPhp (ndebug : Bool) (n : Int64) : docToPhp ndebug (.ofInt n.toInt) = .ok (.long n) := by
  by_cases hn : 0 ≤ n.toInt
  · rw [Doc.ofInt, if_pos hn, Doc.ofNat, docToPhp, int64_ofNat_toNat hn]
  · rw [ofInt_neg (by omega), docToPhp, if_neg (fun h => hn h.2), Int64.ofInt_toInt]

/-- A key that comes back from its document. -/
def PlainKey : Key → Prop
  | .idx h => h.toInt64 ≥ 0
  | .str s => zendHandleNumeric s = none ∧ s.length < 2 ^ 31

theorem PlainTable.key {ht : HashTable} (h : PlainTable ht) {k : Key} (hk : k ∈ keys ht.entries) :
    PlainKey k := by
  cases k with
  | idx i => exact h.nonneg i hk
  | str s =>
    refine ⟨?_, ht.key_small s hk⟩
    cases hs : zendHandleNumeric s with
    | none => rfl
    | some i => exact absurd (zendHandleNumeric_eq_some.mp hs) (h.not_decimal s hk _)

/-- A new plain key is entered at the end of a table, as itself. -/
theorem addPair_plain (ndebug : Bool) {k : Key} (hk : PlainKey k) {t : Table PVal}
    (hnew : k ∉ keys t.entries) (u : PVal) :
    ∃ key next, docToPhp ndebug (keyDoc k) = .ok key ∧
      addPair t key u = .ok ⟨t.entries ++ [(k, u)], next⟩ := by
  cases k with
  | idx i =>
    refine ⟨_, nextFree i t.nNextFreeElement, ofInt_toPhp ndebug i.toInt64, ?_⟩
    simp only [addPair, addIndexZval, UInt64.toUInt64_toInt64, enter_of_notMem hnew]
  | str s =>
    refine ⟨.str s, t.nNextFreeElement, rfl, ?_⟩
    simp only [addPair, addAssocZval, hk.1, enter_of_notMem hnew]

/-! ## Arrays -/

/-- The same keys, and under them the same values. -/
def SameEntry (H : Heap) (e : Key × Zval) (e' : Key × PVal) : Prop :=
  e.1 = e'.1 ∧ SameValue H e.2 e'.2

/-- Entries in a row that come back entry by entry. -/
theorem pairsToPhp_plain (ndebug : Bool) {H : Heap} {f : Zval → Doc} {E : List (Key × Zval)}
    (hnodup : (keys E).Nodup) (hkeys : ∀ k ∈ keys E, PlainKey k)
    (hf : ∀ e ∈ E, ∃ u, docToPhp ndebug (f e.2) = .ok u ∧ SameValue H e.2 u) (t : Table PVal)
    (hnew : ∀ k ∈ keys E, k ∉ keys t.entries) :
    ∃ us next, pairsToPhp ndebug (flatten (E.map fun e => (keyDoc e.1, f e.2))) t =
      .ok ⟨t.entries ++ us, next⟩ ∧ List.Forall₂ (SameEntry H) E us := by
  induction E generalizing t with
  | nil => exact ⟨[], t.nNextFreeElement, by simp [flatten, pairsToPhp], .nil⟩
  | cons e E ih =>
    obtain ⟨k, v⟩ := e
    obtain ⟨hnot, hnodup⟩ := List.nodup_cons.mp (show (k :: keys E).Nodup from hnodup)
    obtain ⟨u, hu, hsame⟩ := hf (k, v) List.mem_cons_self
    obtain ⟨key, next, hkey, hadd⟩ := addPair_plain ndebug (hkeys k List.mem_cons_self)
      (hnew k List.mem_cons_self) u
    obtain ⟨us, next', hrun, hus⟩ := ih hnodup (fun k' hk' => hkeys k' (List.mem_cons_of_mem _ hk'))
      (fun e' he' => hf e' (List.mem_cons_of_mem _ he')) ⟨t.entries ++ [(k, u)], next⟩ (by
        intro k' hk' hmem
        simp only [keys, List.map_append, List.mem_append, List.map_cons, List.map_nil,
          List.mem_singleton] at hmem
        rcases hmem with hmem | rfl
        · exact hnew k' (List.mem_cons_of_mem _ hk') hmem
        · exact hnot hk')
    refine ⟨(k, u) :: us, next', ?_, .cons ⟨rfl, hsame⟩ hus⟩
    simp only [List.map_cons, flatten, pairsToPhp, hkey, hu, hadd, bind, Except.bind, hrun,
      List.append_assoc, List.singleton_append]

/-- Elements in a row that come back under the next indices. -/
theorem itemsToPhp_plain (ndebug : Bool) {H : Heap} {f : Zval → Doc} {E : List (Key × Zval)} {j : Nat}
    (hkeys : keys E = indices j E.length) (hj : j + E.length ≤ 2 ^ 31)
    (hf : ∀ e ∈ E, ∃ u, docToPhp ndebug (f e.2) = .ok u ∧ SameValue H e.2 u) {t : Table PVal}
    (hnext : t.nNextFreeElement = UInt64.ofNat j) (ht : ∀ k ∈ keys t.entries, k ∈ indices 0 j) :
    ∃ us next, itemsToPhp ndebug (E.map fun e => f e.2) t = .ok ⟨t.entries ++ us, next⟩ ∧
      List.Forall₂ (SameEntry H) E us := by
  induction E generalizing j t with
  | nil => exact ⟨[], t.nNextFreeElement, by simp [itemsToPhp], .nil⟩
  | cons e E ih =>
    obtain ⟨k, v⟩ := e
    simp only [List.length_cons] at hj
    simp only [keys, indices, List.map_cons, List.length_cons, List.range'_succ,
      List.cons.injEq] at hkeys
    obtain ⟨rfl, hkeys⟩ := hkeys
    obtain ⟨u, hu, hsame⟩ := hf _ List.mem_cons_self
    have hadd := addNextIndexZval_next (show j < 2 ^ 63 - 1 by omega) hnext ht u
    obtain ⟨us, next', hrun, hus⟩ := ih hkeys (by omega)
      (fun e' he' => hf e' (List.mem_cons_of_mem _ he'))
      (show (addNextIndexZval t u).nNextFreeElement = _ by rw [hadd]) (by
        intro k' hk'
        rw [hadd] at hk'
        simp only [keys, List.map_append, List.mem_append, List.map_cons, List.map_nil,
          List.mem_singleton] at hk'
        rcases hk' with hk' | rfl
        · obtain ⟨i, hi, rfl⟩ := List.mem_map.mp (ht k' hk')
          rw [List.mem_range'_1] at hi
          exact List.mem_map.mpr ⟨i, List.mem_range'_1.mpr (by omega), rfl⟩
        · exact List.mem_map.mpr ⟨j, List.mem_range'_1.mpr (by omega), rfl⟩)
    refine ⟨(.idx (UInt64.ofNat j), u) :: us, next', ?_, .cons ⟨rfl, hsame⟩ hus⟩
    simp only [List.map_cons, itemsToPhp, hu, bind, Except.bind, hrun]
    rw [hadd]
    simp

/-! ## Lists -/

/-- A table that is packed as a list has as many elements as `nNextFreeElement` says, if that is not
negative, and no string among its keys. -/
theorem phpMpIsHash_eq_false {ht : HashTable} (hnext : ht.nNextFreeElement.toInt64 ≥ 0) :
    phpMpIsHash ht = false ↔ ht.entries.length < 2 ^ 31 ∧
      ht.nNextFreeElement.toNat = ht.entries.length ∧ ∀ k ∈ keys ht.entries, ∃ i, k = .idx i := by
  have hcount := ht.count_lt
  have hnext := (toInt64_nonneg_iff _).mp hnext
  have hall (n : Nat) (hn : n = ht.entries.length) : (!(ht.entries.take n).all (·.1.isIdx)) = false ↔
      ∀ k ∈ keys ht.entries, ∃ i, k = .idx i := by
    have hisIdx (k : Key) : k.isIdx = true ↔ ∃ i, k = .idx i := by
      cases k <;> simp [Key.isIdx]
    simp only [hn, List.take_length, Bool.not_eq_eq_eq_not, Bool.not_false, List.all_eq_true, keys,
      List.forall_mem_map, hisIdx]
  obtain ⟨i, hi⟩ : ∃ i, toInt (zendHashNumElements ht) = i := ⟨_, rfl⟩
  simp only [phpMpIsHash, hi]
  by_cases hlt : ht.entries.length < 2 ^ 31
  · have hcount' : i = ht.entries.length := hi.symm.trans (toInt_of_lt hlt)
    by_cases heq : ht.nNextFreeElement.toNat = ht.entries.length
    · rw [if_neg (by omega), hall i.toNat (by omega)]
      simp only [hlt, heq, true_and]
    · rw [if_pos (by omega)]
      exact iff_of_false nofun fun h => heq h.2.1
  · -- so many elements make a negative `int`, which is no `nNextFreeElement`
    have hcount' : i = ht.entries.length - 2 ^ 32 := hi.symm.trans (toInt_of_ge (not_lt.mp hlt) hcount)
    rw [if_pos (by omega)]
    exact iff_of_false nofun fun h => hlt h.1

/-- A plain table that is packed as a list has exactly the indices below its number of elements. -/
theorem PlainTable.keys_of_list {ht : HashTable} (h : PlainTable ht) (hlist : phpMpIsHash ht = false) :
    ht.entries.length < 2 ^ 31 ∧ ∀ k, k ∈ keys ht.entries ↔ k ∈ indices 0 ht.entries.length := by
  obtain ⟨hlt, hnext, hidx⟩ := (phpMpIsHash_eq_false h.next_nonneg).mp hlist
  refine ⟨hlt, indices_of_bounded ht.nodup (by omega) fun k hk => ?_⟩
  obtain ⟨i, rfl⟩ := hidx k hk
  have hi := h.lt_next i hk
  rw [UInt64.lt_iff_toNat_lt, hnext] at hi
  exact ⟨i, rfl, hi⟩

/-- Entries that come back entry by entry make the same array. -/
theorem sameValue_arr {H : Heap} {id : Nat} {E : List (Key × Zval)} {us : List (Key × PVal)}
    {next : UInt64} (hE : ∀ e, e ∈ E ↔ e ∈ (H.table id).entries) (hnodup : (keys E).Nodup)
    (hus : List.Forall₂ (SameEntry H) E us) : SameValue H (.arr id) (.arr us next) := by
  have hkeys : keys us = keys E := by
    clear hE hnodup
    induction hus with
    | nil => rfl
    | cons hsame _ ih => simp only [keys, List.map_cons, ← hsame.1] at ih ⊢; rw [ih]
  have hfrom : ∀ e' ∈ us, ∃ e ∈ E, SameEntry H e e' := by
    clear hE hnodup hkeys
    induction hus with
    | nil => simp
    | cons hsame _ ih =>
      intro e' he'
      rcases List.mem_cons.mp he' with rfl | he'
      · exact ⟨_, List.mem_cons_self, hsame⟩
      · obtain ⟨e, he, hee'⟩ := ih e' he'
        exact ⟨e, List.mem_cons_of_mem _ he, hee'⟩
  refine .arr (hkeys ▸ hnodup) (fun k => ?_) fun k v u hv hu => ?_
  · rw [hkeys]
    constructor
    · intro hk
      obtain ⟨e, he, rfl⟩ := List.mem_map.mp hk
      exact List.mem_map.mpr ⟨e, (hE e).mp he, rfl⟩
    · intro hk
      obtain ⟨e, he, rfl⟩ := List.mem_map.mp hk
      exact List.mem_map.mpr ⟨e, (hE e).mpr he, rfl⟩
  · obtain ⟨⟨k', v'⟩, he, hk, hsame⟩ := hfrom (k, u) hu
    obtain rfl : k' = k := hk
    have hlook := (mem_iff_lookup (H.table id).nodup).mp ((hE _).mp he)
    rw [(mem_iff_lookup (H.table id).nodup).mp hv, Option.some.injEq] at hlook
    exact hlook ▸ hsame

/-! ## Values -/

/-- The document `d` stands for the value `v`. -/
def Comes (ndebug : Bool) (H : Heap) (d : Doc) (v : Zval) : Prop :=
  ∃ u, docToPhp ndebug d = .ok u ∧ SameValue H v u

section Table

variable {H : Heap} {id : Nat} {ndebug : Bool} {f : Zval → Doc}

/-- A plain table packed as a map comes back. -/
theorem ofPairs_comes (ht : PlainTable (H.table id))
    (hf : ∀ k v, (k, v) ∈ (H.table id).entries → Comes ndebug H (f v) v) :
    Comes ndebug H (.ofPairs ((H.table id).entries.map fun e => (keyDoc e.1, f e.2))) (.arr id) := by
  obtain ⟨us, next, hrun, hus⟩ := pairsToPhp_plain ndebug (H.table id).nodup (fun k => ht.key)
    (fun e he => hf e.1 e.2 he) .empty (fun k _ => List.not_mem_nil)
  refine ⟨.arr us next, ?_, sameValue_arr (fun e => Iff.rfl) (H.table id).nodup hus⟩
  rw [Doc.ofPairs, docToPhp, hrun]
  rfl

/-- A plain table packed as a list comes back. -/
theorem ofList_comes {g : Option Zval → Doc} (ht : PlainTable (H.table id))
    (hlist : phpMpIsHash (H.table id) = false)
    (hg : ∀ k v, (k, v) ∈ (H.table id).entries → Comes ndebug H (g (some v)) v) :
    Comes ndebug H (.ofList ((List.range (zendHashNumElements (H.table id))).map fun i =>
      g (zendHashIndexFind (H.table id) (UInt64.ofNat i)))) (.arr id) := by
  obtain ⟨hlt, hkeys⟩ := ht.keys_of_list hlist
  rw [zendHashNumElements]
  -- the elements in the order of their indices
  have hfind : ∀ i < (H.table id).entries.length,
      ∃ v, (H.table id).entries.lookup (.idx (UInt64.ofNat i)) = some v := by
    intro i hi
    refine Option.isSome_iff_exists.mp (lookup_isSome.mpr ((hkeys _).mpr ?_))
    exact List.mem_map.mpr ⟨i, List.mem_range'_1.mpr (by omega), rfl⟩
  let at' (i : Nat) : Zval := ((H.table id).entries.lookup (.idx (UInt64.ofNat i))).getD .null
  let E : List (Key × Zval) :=
    (List.range (H.table id).entries.length).map fun i => (.idx (UInt64.ofNat i), at' i)
  have hat : ∀ i < (H.table id).entries.length,
      (H.table id).entries.lookup (.idx (UInt64.ofNat i)) = some (at' i) := by
    intro i hi
    obtain ⟨v, hv⟩ := hfind i hi
    simp [at', hv]
  have hmem : ∀ e, e ∈ E ↔ e ∈ (H.table id).entries := by
    rintro ⟨k, v⟩
    rw [mem_iff_lookup (H.table id).nodup]
    constructor
    · intro he
      obtain ⟨i, hi, heq⟩ := List.mem_map.mp he
      obtain ⟨rfl, rfl⟩ := Prod.mk.inj heq
      exact hat i (List.mem_range.mp hi)
    · intro hlook
      have hk := (hkeys k).mp (lookup_isSome.mp (by rw [hlook]; rfl))
      obtain ⟨i, hi, rfl⟩ := List.mem_map.mp hk
      rw [List.mem_range'_1] at hi
      rw [hat i (by omega), Option.some.injEq] at hlook
      exact List.mem_map.mpr ⟨i, List.mem_range.mpr (by omega), by rw [hlook]⟩
  have hkeysE : keys E = indices 0 E.length := by
    simp [keys, E, indices, List.range_eq_range']
  have hnodupE : (keys E).Nodup := by
    have hlengthE : E.length = (H.table id).entries.length := by rw [List.length_map, List.length_range]
    rw [hkeysE]
    exact nodup_indices (by omega)
  have hdocs : ((List.range (H.table id).entries.length).map fun i =>
      g (zendHashIndexFind (H.table id) (UInt64.ofNat i))) = E.map fun e => g (some e.2) := by
    simp only [E, List.map_map]
    refine List.map_congr_left fun i hi => ?_
    rw [zendHashIndexFind, hat i (List.mem_range.mp hi)]
    rfl
  have hcomes : ∀ e ∈ E, Comes ndebug H (g (some e.2)) e.2 :=
    fun e he => hg e.1 e.2 ((hmem e).mp he)
  obtain ⟨us, next, hrun, hus⟩ := itemsToPhp_plain ndebug (f := fun v => g (some v)) hkeysE
    (show 0 + E.length ≤ 2 ^ 31 by simp [E]; omega) hcomes
    (t := .empty) rfl (by simp [Table.empty, keys])
  rw [hdocs]
  refine ⟨.arr us next, ?_, sameValue_arr hmem hnodupE hus⟩
  rw [Doc.ofList, docToPhp, hrun]
  rfl

end Table

theorem plainValue_comes (ndebug : Bool) {H : Heap} {v : Zval} (h : PlainValue H v) {fuel : Nat}
    {c : Counts} (henough : Enough H fuel c v) (hclear : Clear H c v) :
    Comes ndebug H (zvalDocRec H fuel c v) v := by
  induction h generalizing fuel c with
  | null =>
    obtain ⟨fuel, rfl⟩ : ∃ f, fuel = f + 1 := ⟨fuel - 1, by have := enough_pos henough; omega⟩
    exact ⟨.null, rfl, .null⟩
  | long n =>
    obtain ⟨fuel, rfl⟩ : ∃ f, fuel = f + 1 := ⟨fuel - 1, by have := enough_pos henough; omega⟩
    exact ⟨.long n, ofInt_toPhp ndebug n, .long n⟩
  | double bits =>
    obtain ⟨fuel, rfl⟩ : ∃ f, fuel = f + 1 := ⟨fuel - 1, by have := enough_pos henough; omega⟩
    refine ⟨.double bits, ?_, .double bits⟩
    simp only [zvalDocRec, docToPhp, UInt64.ofNat_toNat]
  | bool b =>
    obtain ⟨fuel, rfl⟩ : ∃ f, fuel = f + 1 := ⟨fuel - 1, by have := enough_pos henough; omega⟩
    exact ⟨.bool b, rfl, .bool b⟩
  | str s =>
    obtain ⟨fuel, rfl⟩ : ∃ f, fuel = f + 1 := ⟨fuel - 1, by have := enough_pos henough; omega⟩
    exact ⟨.str s.val, rfl, .str s⟩
  | @arr id ht hin ih =>
    obtain ⟨fuel, rfl⟩ : ∃ f, fuel = f + 1 := ⟨fuel - 1, by have := enough_pos henough; omega⟩
    have helem : ∀ k v, (k, v) ∈ (H.table id).entries →
        Comes ndebug H (elementDoc (zvalDocRec H fuel) c (some v)) v := by
      intro k v hkv
      have hroom := enough_table henough (List.ne_nil_of_mem hkv)
      cases v with
      | arr id' =>
        have hinside : H.Inside id' id := ⟨k, hkv⟩
        have hzero := hclear id rfl id' (.single hinside)
        have hc : ¬ c id' > 1 := by rw [hzero]; decide
        rw [elementDoc, if_neg hc]
        refine ih k _ hkv (enough_inc hroom hc) ?_
        rintro _ ⟨⟩ i hi
        have hne : i ≠ id' := fun heq => (hin k _ hkv).not_inside (heq ▸ hi)
        rw [Counts.inc, if_neg hne]
        exact hclear id rfl i (hi.tail hinside)
      | _ => exact ih k _ hkv (show 1 ≤ fuel by omega) (by rintro _ ⟨⟩)
    rw [zvalDocRec]
    split
    · exact ofPairs_comes (f := fun v => elementDoc (zvalDocRec H fuel) c (some v)) ht helem
    case isFalse hlist =>
      exact ofList_comes ht (by simpa using hlist) helem

/-- A plain value comes back: whatever the buffer held before and whatever follows the bytes that
`php_mp_pack` appends, `php_mp_unpack` reads exactly these bytes and builds the same value. -/
theorem phpMpUnpack_phpMpPack (ndebug : Bool) {H : Heap} {v : Zval} (h : PlainValue H v)
    (str : SmartString) : ∃ str' bs,
      phpMpPack ndebug H str (fun _ => 0) v = .ok (str', fun _ => 0) ∧ str'.data = str.data ++ bs ∧
      ∀ rest, ∃ u, phpMpUnpack ndebug (bs ++ rest) = .ok (u, rest) ∧ SameValue H v u := by
  obtain ⟨str', hpack, hdata⟩ := phpMpPack_spec ndebug H str v
  obtain ⟨u, hu, hsame⟩ := plainValue_comes ndebug h (enough_depth H _ v) (fun _ _ _ _ => rfl)
  refine ⟨str', _, hpack, hdata, fun rest => ⟨u, ?_, hsame⟩⟩
  exact phpMpUnpack_ok_iff.mpr ⟨zvalDoc H v, zvalDoc_wf H v, rfl, hu⟩

/-- `array(7 => array(true))`, packed into a buffer without memory. -/
theorem phpMpUnpack_phpMpPack_nested :
    let H : Heap := [⟨[(.idx 7, .arr 1)], 8, by decide, by decide, by simp [keys]⟩,
      ⟨[(.idx 0, .bool true)], 1, by decide, by decide, by simp [keys]⟩]
    ∃ str' bs, phpMpPack false H (.null fun _ => 0) (fun _ => 0) (.arr 0) =
        .ok (str', fun _ => 0) ∧ str'.data = (SmartString.null fun _ => 0).data ++ bs ∧
      ∀ rest, ∃ u, phpMpUnpack false (bs ++ rest) = .ok (u, rest) ∧ SameValue H (.arr 0) u := by
  intro H
  have hidx : ∀ (h next : UInt64) (v : Zval) hk hc hs, h.toInt64 ≥ 0 → h < next →
      next.toInt64 ≥ 0 → PlainTable ⟨[(.idx h, v)], next, hk, hc, hs⟩ := by
    intro h next v hk hc hs hpos hlt hnext
    refine ⟨?_, ?_, ?_, hnext, show 1 ≤ 2 ^ 31 by decide⟩
    · intro h' hh'
      obtain rfl : h' = h := by simpa [keys] using hh'
      exact hpos
    · intro s hs
      simp [keys] at hs
    · intro h' hh'
      obtain rfl : h' = h := by simpa [keys] using hh'
      exact hlt
  have houter : PlainTable (H.table 0) := hidx 7 8 _ _ _ _ (by decide) (by decide) (by decide)
  have hinner : PlainTable (H.table 1) := hidx 0 1 _ _ _ _ (by decide) (by decide) (by decide)
  refine phpMpUnpack_phpMpPack false (.arr houter ?_) _
  rintro k v hkv
  obtain ⟨rfl, rfl⟩ : k = .idx 7 ∧ v = .arr 1 := by simpa [H, Heap.table] using hkv
  refine .arr hinner ?_
  rintro k v hkv
  obtain ⟨rfl, rfl⟩ : k = .idx 0 ∧ v = .bool true := by simpa [H, Heap.table] using hkv
  exact .bool true

end BeePhp
