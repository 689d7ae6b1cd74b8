import BeePhp.Msgpack.Proofs.ListProofs
import BeePhp.Msgpack.Proofs.ReferenceProofs
import BeePhp.Msgpack.Rewrite
import Mathlib.Data.List.Forall2

/-!
# Proofs: reading a document and writing it again

The zvals of a value form a tree on the heap, on which no table is inside itself (`load_holds`). So
`php_mp_pack` goes through the whole tree, and what it writes of the value of a document has that value
(`holds_rewritten`), unless `php_mp_is_hash` takes a map for a list that is none.
-/

namespace BeePhp

open Codec

/-! ## Trees on the heap -/

/-- The value of the heap is the tree: an array has the same entries in the same order and the same next
index. The tables inside a table have smaller numbers. -/
inductive Holds (H : Heap) : Zval → PVal → Prop
  | null : Holds H .null .null
  | long (n : Int64) : Holds H (.long n) (.long n)
  | double (bits : UInt64) : Holds H (.double bits) (.double bits)
  | bool (b : Bool) : Holds H (.bool b) (.bool b)
  | str (s : ZStr) : Holds H (.str s) (.str s.val)
  | bin (s : ZStr) : Holds H (.str s) (.bin s.val)
  | arr {id : Nat} {entries : List (Key × PVal)} : id < H.length →
    keys (H.table id).entries = keys entries →
    (∀ e ∈ (H.table id).entries.zip entries, Holds H e.1.2 e.2.2) →
    (∀ k i, (k, Zval.arr i) ∈ (H.table id).entries → i < id) →
    Holds H (.arr id) (.arr entries (H.table id).nNextFreeElement)

theorem table_append {H : Heap} {id : Nat} (h : id < H.length) (H' : Heap) :
    Heap.table (H ++ H') id = H.table id := by
  simp [Heap.table, List.getD_eq_getElem?_getD, List.getElem?_append_left h]

theorem table_append_self (H : Heap) (ht : HashTable) : Heap.table (H ++ [ht]) H.length = ht := by
  simp [Heap.table, List.getD_eq_getElem?_getD]

theorem Holds.append {H : Heap} {v : Zval} {u : PVal} (h : Holds H v u) (H' : Heap) :
    Holds (H ++ H') v u := by
  induction h with
  | null => exact .null
  | long n => exact .long n
  | double bits => exact .double bits
  | bool b => exact .bool b
  | str s => exact .str s
  | bin s => exact .bin s
  | arr hid hkeys hzip hless ih =>
    have htable := table_append hid H'
    rw [← htable] at hkeys hless ih ⊢
    exact .arr (by rw [List.length_append]; omega) hkeys ih hless

theorem Holds.lt_length {H : Heap} {id : Nat} {u : PVal} (h : Holds H (.arr id) u) : id < H.length := by
  cases h
  assumption

/-- A tree that fits the types of Zend. -/
inductive Storable : PVal → Prop
  | null : Storable .null
  | long (n : Int64) : Storable (.long n)
  | double (bits : UInt64) : Storable (.double bits)
  | bool (b : Bool) : Storable (.bool b)
  | str {s : Bytes} : s.length < 2 ^ 31 → Storable (.str s)
  | bin {s : Bytes} : s.length < 2 ^ 31 → Storable (.bin s)
  | arr {entries : List (Key × PVal)} (next : UInt64) : (keys entries).Nodup →
    entries.length < 2 ^ 32 → (∀ k ∈ keys entries, k.length < 2 ^ 31) →
    (∀ e ∈ entries, Storable e.2) → Storable (.arr entries next)

/-- What loading a tree does to a heap. -/
def Loads (u : PVal) : Prop :=
  ∀ H : Heap, ∃ H', (load u H).1 = H ++ H' ∧ Holds (H ++ H') (load u H).2 u

theorem loadEntries_holds {entries : List (Key × PVal)} (h : ∀ e ∈ entries, Loads e.2) (H : Heap) :
    ∃ H' es, loadEntries entries H = (H ++ H', es) ∧ keys es = keys entries ∧
      ∀ e ∈ es.zip entries, Holds (H ++ H') e.1.2 e.2.2 := by
  induction entries generalizing H with
  | nil => exact ⟨[], [], by simp [loadEntries], rfl, by simp⟩
  | cons e entries ih =>
    obtain ⟨k, u⟩ := e
    obtain ⟨H₁, hheap, hone⟩ := h (k, u) List.mem_cons_self H
    obtain ⟨H₂, es, hrest, hkeys, hzip⟩ := ih (fun e he => h e (List.mem_cons_of_mem _ he)) (H ++ H₁)
    refine ⟨H₁ ++ H₂, (k, (load u H).2) :: es, ?_, ?_, ?_⟩
    · simp only [loadEntries, hheap, hrest, List.append_assoc]
    · simp only [keys, List.map_cons] at hkeys ⊢
      rw [hkeys]
    · rw [List.append_assoc] at hzip
      simp only [List.zip_cons_cons, List.forall_mem_cons]
      refine ⟨?_, hzip⟩
      rw [← List.append_assoc]
      exact hone.append H₂

/-- In lists of one length every element has its counterpart. -/
theorem mem_zip_of_mem {α β : Type} {l : List α} {l' : List β} (hlength : l.length = l'.length) {a : α}
    (h : a ∈ l) : ∃ b, (a, b) ∈ l.zip l' := by
  rw [← List.map_fst_zip (le_of_eq hlength)] at h
  obtain ⟨⟨_, b⟩, hmem, rfl⟩ := List.mem_map.mp h
  exact ⟨b, hmem⟩

theorem ofTable_eq {t : Table Zval} (hnodup : (keys t.entries).Nodup)
    (hcount : t.entries.length < 2 ^ 32) (hsmall : ∀ k ∈ keys t.entries, k.length < 2 ^ 31) :
    (HashTable.ofTable t).entries = t.entries ∧
      (HashTable.ofTable t).nNextFreeElement = t.nNextFreeElement := by
  rw [HashTable.ofTable, dif_pos ⟨hnodup, hcount, hsmall⟩]
  exact ⟨rfl, rfl⟩

/-- A tree that fits is on the heap after it has been loaded. -/
theorem load_holds {u : PVal} (h : Storable u) : Loads u := by
  induction h with
  | null => exact fun H => ⟨[], by simp [load], .null⟩
  | long n => exact fun H => ⟨[], by simp [load], .long n⟩
  | double bits => exact fun H => ⟨[], by simp [load], .double bits⟩
  | bool b => exact fun H => ⟨[], by simp [load], .bool b⟩
  | @str s hs =>
    intro H
    refine ⟨[], by simp [load], ?_⟩
    rw [load, Zval.ofBytes, dif_pos hs]
    exact .str ⟨s, hs⟩
  | @bin s hs =>
    intro H
    refine ⟨[], by simp [load], ?_⟩
    rw [load, Zval.ofBytes, dif_pos hs]
    exact .bin ⟨s, hs⟩
  | @arr entries next hnodup hcount hsmall _ ih =>
    intro H
    obtain ⟨H₁, es, hload, hkeys, hzip⟩ := loadEntries_holds ih H
    have hlength := congrArg List.length hkeys
    simp only [keys, List.length_map] at hlength
    obtain ⟨hentries, hnext⟩ := @ofTable_eq ⟨es, next⟩ (hkeys ▸ hnodup) (hlength ▸ hcount) (hkeys ▸ hsmall)
    simp only [load, hload]
    refine ⟨H₁ ++ [.ofTable ⟨es, next⟩], by rw [List.append_assoc], ?_⟩
    rw [← List.append_assoc]
    have htable := table_append_self (H ++ H₁) (.ofTable ⟨es, next⟩)
    have harr : Holds (H ++ H₁ ++ [.ofTable ⟨es, next⟩]) (.arr (H ++ H₁).length)
        (.arr entries (Heap.table (H ++ H₁ ++ [.ofTable ⟨es, next⟩]) (H ++ H₁).length).nNextFreeElement) := by
      refine .arr ?_ ?_ ?_ ?_
      · simp
      · rw [htable, hentries, hkeys]
      · rw [htable, hentries]
        exact fun e he => (hzip e he).append _
      · intro k i hi
        rw [htable, hentries] at hi
        obtain ⟨e', he'⟩ := mem_zip_of_mem hlength hi
        exact (hzip _ he').lt_length
    rwa [htable, hnext] at harr

/-! ## Keys -/

/-- The key that a document is of an array. -/
noncomputable def docKey (k : Doc) : Key := (valueKey (refValue k)).getD (.idx 0)

theorem valueKey_docKey {k : Doc} (h : isKeyDoc k) : valueKey (refValue k) = some (docKey k) := by
  obtain ⟨key, hkey⟩ := valueKey_isKeyDoc h
  rw [docKey, hkey]
  rfl

theorem stringKey_cases (s : Bytes) : (∃ h, stringKey s = .idx h) ∨ stringKey s = .str s := by
  unfold stringKey
  split
  · exact .inl ⟨_, rfl⟩
  · exact .inr rfl

/-- A key is an integer with its 64 bits, or a string. -/
theorem docKey_cases {k : Doc} (h : isKeyDoc k) :
    (∃ i, k.integer = some i ∧ docKey k = .idx (Int64.ofInt i).toUInt64) ∨
      ∃ s, k.integer = none ∧ k.bytes = some s ∧ docKey k = stringKey s := by
  cases k with
  | uint w n =>
    refine .inl ⟨n, rfl, ?_⟩
    rw [Int64.ofInt_eq_ofNat]
    rfl
  | int w i => exact .inl ⟨i, rfl, rfl⟩
  | str w s => exact .inr ⟨s, rfl, rfl, rfl⟩
  | bin w s => exact .inr ⟨s, rfl, rfl, rfl⟩
  | _ => cases h

theorem indexOf_docKey {k : Doc} (h : isKeyDoc k) : Reading.php.indexOf k = (docKey k).index := by
  rcases docKey_cases h with ⟨i, hi, hkey⟩ | ⟨s, hi, hs, hkey⟩
  · simp only [Reading.indexOf, hi, hkey, Reading.php, Key.index, Int64.toInt64_toUInt64]
  · simp only [Reading.indexOf, hi, hs, hkey, Reading.php, Option.bind_some]

theorem docKey_bytes {k : Doc} (h : isKeyDoc k) {s : Bytes} (hkey : docKey k = .str s) :
    k.bytes = some s := by
  rcases docKey_cases h with ⟨i, -, hidx⟩ | ⟨s', -, hs, hstr⟩
  · rw [hidx] at hkey
    cases hkey
  · rw [hstr] at hkey
    rcases stringKey_cases s' with ⟨i, hi⟩ | hi
    · rw [hi] at hkey
      cases hkey
    · rw [hi] at hkey
      rw [hs, Key.str.inj hkey]

theorem ofInt_integer (i : Int) : (Doc.ofInt i).integer = some i := by
  rw [Doc.ofInt]
  split
  case isTrue h => simp [Doc.ofNat, Doc.integer, Int.toNat_of_nonneg h]
  case isFalse => rfl

/-- A key is packed as the key that it is to PHP. -/
theorem sameKey_keyDoc {k : Doc} (h : isKeyDoc k) : Reading.php.SameKey k (keyDoc (docKey k)) := by
  rw [Reading.SameKey, indexOf_docKey h]
  cases hkey : docKey k with
  | idx i => exact ofInt_integer _
  | str s => exact ⟨.forNat s.length, s, docKey_bytes h hkey, rfl⟩

/-! ## Tables of documents -/

theorem refItems_eq (ds : List Doc) : refItems ds = ds.map refValue := by
  induction ds with
  | nil => rfl
  | cons d ds ih => rw [refItems, ih, List.map_cons]

theorem refPairs_cons {k v : Doc} (h : isKeyDoc k) (ps : List (Doc × Doc)) (t : Table PVal) :
    refPairs (flatten ((k, v) :: ps)) t = refPairs (flatten ps) (t.put (docKey k) (refValue v)) := by
  rw [flatten, refPairs, valueKey_docKey h]

theorem put_new {t : Table PVal} {k : Key} (h : k ∉ keys t.entries) (v : PVal) :
    (t.put k v).entries = t.entries ++ [(k, v)] := enter_of_notMem h v

/-- Distinct keys make as many entries, in order. -/
theorem refPairs_entries {ps : List (Doc × Doc)} (hkeys : ∀ p ∈ ps, isKeyDoc p.1)
    (hnodup : (ps.map fun p => docKey p.1).Nodup) {t : Table PVal}
    (hnew : ∀ p ∈ ps, docKey p.1 ∉ keys t.entries) :
    (refPairs (flatten ps) t).entries = t.entries ++ ps.map fun p => (docKey p.1, refValue p.2) := by
  induction ps generalizing t with
  | nil => simp [flatten, refPairs]
  | cons p ps ih =>
    obtain ⟨k, v⟩ := p
    obtain ⟨hnot, hnodup⟩ := List.nodup_cons.mp hnodup
    have hentries := put_new (hnew (k, v) List.mem_cons_self) (refValue v)
    rw [refPairs_cons (hkeys (k, v) List.mem_cons_self), ih (fun p hp => hkeys p (List.mem_cons_of_mem _ hp))
      hnodup, hentries, List.append_assoc, List.map_cons, List.singleton_append]
    intro p hp hmem
    rw [hentries, keys, List.map_append, List.mem_append] at hmem
    rcases hmem with hmem | hmem
    · exact hnew p (List.mem_cons_of_mem _ hp) hmem
    · rw [List.map_singleton, List.mem_singleton] at hmem
      exact hnot (List.mem_map.mpr ⟨p, hp, hmem⟩)

/-- `nNextFreeElement` is above the keys that are not negative, and not far above all of them. -/
structure Table.Topped (t : Table PVal) : Prop extends t.Indexed where
  top : t.nNextFreeElement = 0 ∨
    ∃ h, Key.idx h ∈ keys t.entries ∧ h.toNat < 2 ^ 63 ∧ t.nNextFreeElement.toNat ≤ h.toNat + 1

theorem mem_keys_enter {k k' : Key} {v : PVal} {l : List (Key × PVal)} :
    k' ∈ keys (enter k v l) ↔ k' ∈ keys l ∨ k' = k := by
  rw [keys_enter]
  split
  case isTrue h => exact ⟨.inl, fun h' => h'.elim id fun heq => heq ▸ h⟩
  case isFalse => simp

theorem Table.Topped.put {t : Table PVal} (h : t.Topped) (k : Key) (v : PVal) : (t.put k v).Topped := by
  cases k with
  | idx i =>
    refine ⟨addIndexZval_indexed h.toIndexed i v, ?_⟩
    have hnext := nextFree_toNat (h := i) h.next_lt
    show nextFree i t.nNextFreeElement = 0 ∨ ∃ h, Key.idx h ∈ keys (enter (.idx i) v t.entries) ∧
      h.toNat < 2 ^ 63 ∧ (nextFree i t.nNextFreeElement).toNat ≤ h.toNat + 1
    by_cases hi : i.toNat < 2 ^ 63 ∧ t.nNextFreeElement.toNat ≤ i.toNat
    · rw [if_pos hi] at hnext
      exact .inr ⟨i, mem_keys_enter.mpr (.inr rfl), hi.1, by omega⟩
    · rw [if_neg hi] at hnext
      rw [UInt64.toNat_inj.mp hnext]
      exact h.top.imp_right fun ⟨j, hj, hlt, hle⟩ => ⟨j, mem_keys_enter.mpr (.inl hj), hlt, hle⟩
  | str s =>
    refine ⟨⟨h.next_lt, fun i hi hlt => h.lt_next i ?_ hlt⟩, ?_⟩
    · exact (mem_keys_enter.mp hi).resolve_right nofun
    · exact h.top.imp_right fun ⟨j, hj, hlt, hle⟩ => ⟨j, mem_keys_enter.mpr (.inl hj), hlt, hle⟩

theorem refPairs_topped {ps : List (Doc × Doc)} (hkeys : ∀ p ∈ ps, isKeyDoc p.1) {t : Table PVal}
    (h : t.Topped) : (refPairs (flatten ps) t).Topped := by
  induction ps generalizing t with
  | nil => simpa [flatten, refPairs] using h
  | cons p ps ih =>
    rw [refPairs_cons (hkeys p List.mem_cons_self)]
    exact ih (fun p hp => hkeys p (List.mem_cons_of_mem _ hp)) (h.put _ _)

theorem empty_topped : (Table.empty : Table PVal).Topped :=
  ⟨⟨by decide, fun _ h => absurd h List.not_mem_nil⟩, .inl rfl⟩

theorem map_value {w : SeqWidth} {ps : List (Doc × Doc)} (hkeys : ∀ p ∈ ps, isKeyDoc p.1)
    (hnodup : (ps.map fun p => docKey p.1).Nodup) :
    ∃ next, refValue (.map w (flatten ps)) = .arr (ps.map fun p => (docKey p.1, refValue p.2)) next ∧
      Table.Topped ⟨ps.map fun p => (docKey p.1, refValue p.2), next⟩ := by
  have htopped := refPairs_topped hkeys empty_topped
  have hentries := refPairs_entries hkeys hnodup (t := .empty) fun p _ => List.not_mem_nil
  rw [show (Table.empty : Table PVal).entries = [] from rfl, List.nil_append] at hentries
  refine ⟨(refPairs (flatten ps) .empty).nNextFreeElement, ?_, ?_⟩
  · rw [refValue, Table.toPVal, hentries]
  · rwa [← hentries]

theorem array_value (w : SeqWidth) (ds : List Doc) : refValue (.array w ds) =
    .arr (ds.zipIdx.map fun e => (.idx (UInt64.ofNat e.2), refValue e.1)) (UInt64.ofNat ds.length) := by
  rw [refValue, listValue, refItems_eq, List.length_map, List.zipIdx_map, List.map_map]
  rfl

theorem keys_zipIdx (ds : List Doc) :
    keys (ds.zipIdx.map fun e => (Key.idx (UInt64.ofNat e.2), refValue e.1)) = indices 0 ds.length := by
  rw [keys, List.map_map, indices, ← List.zipIdx_map_snd 0 ds, List.map_map]
  rfl

/-- The keys of a map are distinct if no two of them are one to PHP. -/
theorem docKeys_nodup {w : SeqWidth} {ps : List (Doc × Doc)} (hkeys : ∀ p ∈ ps, isKeyDoc p.1)
    (h : Distinct (.map w (flatten ps))) : (ps.map fun p => docKey p.1).Nodup := by
  rw [Distinct, Doc.pairs, pairUp_flatten] at h
  have hsome : (ps.map fun p => valueKey (refValue p.1)) = (ps.map fun p => docKey p.1).map some := by
    rw [List.map_map]
    exact List.map_congr_left fun p hp => valueKey_docKey (hkeys p hp)
  rw [hsome] at h
  exact h.of_map

theorem every_self {P : Doc → Prop} {d : Doc} (h : d.Every P) : P d := by
  cases h
  assumption

theorem every_item {P : Doc → Prop} {d e : Doc} (h : d.Every P) (he : e ∈ d.items) : e.Every P := by
  cases h with
  | node _ h => exact h e he

/-- The pairs of a plain map. -/
theorem plain_pairs {w : SeqWidth} {ds : List Doc} (hwf : (Doc.map w ds).WF) (hplain : Plain (.map w ds)) :
    ∃ ps, ds = flatten ps ∧ ps.length < w.bound ∧ (∀ p ∈ ps, isKeyDoc p.1 ∧ Plain p.2) := by
  obtain ⟨hfits, -⟩ := (Doc.wf_iff _).mp hwf
  have hflatten := flatten_pairUp hfits.1
  refine ⟨pairUp ds, hflatten.symm, ?_, ?_⟩
  · have hpairs := pairUp_length hfits.1
    have hlt : ds.length / 2 < w.bound := hfits.2
    omega
  · rw [← pairsPlain_iff, hflatten]
    exact hplain

/-- The value of a document fits the types of Zend. -/
theorem refValue_storable {d : Doc} (hwf : d.WF) (hplain : Plain d) (hdistinct : d.Every Distinct)
    (hlength : d.Every IntLength) : Storable (refValue d) := by
  induction d using Doc.induct with
  | node d ih =>
    obtain ⟨hfits, hitems⟩ := d.wf_iff.mp hwf
    have hitems := (allWF_iff _).mp hitems
    cases d with
    | str w s => exact .str ((every_self hlength).1 s rfl)
    | bin w s => exact .bin ((every_self hlength).1 s rfl)
    | array w ds =>
      have hlt := (every_self hlength).2 w ds rfl
      rw [array_value]
      refine .arr _ ?_ ?_ ?_ ?_
      · rw [keys_zipIdx]
        exact nodup_indices (by omega)
      · rw [List.length_map, List.length_zipIdx]
        omega
      · rw [keys_zipIdx]
        intro k hk
        obtain ⟨i, rfl⟩ := mem_indices_idx hk
        show 0 < 2 ^ 31
        decide
      · intro e he
        obtain ⟨⟨d, i⟩, hmem, rfl⟩ := List.mem_map.mp he
        have hd : d ∈ ds := (List.mem_zipIdx' hmem).2 ▸ List.getElem_mem _
        exact ih d hd (hitems d hd) ((allPlain_iff ds).mp hplain d hd) (every_item hdistinct hd)
          (every_item hlength hd)
    | map w ds =>
      obtain ⟨ps, rfl, hbound, hps⟩ := plain_pairs hwf hplain
      have hkeys : ∀ p ∈ ps, isKeyDoc p.1 := fun p hp => (hps p hp).1
      have hnodup := docKeys_nodup hkeys (every_self hdistinct)
      obtain ⟨next, hvalue, -⟩ := @map_value w ps hkeys hnodup
      have hkeysEq : keys (ps.map fun p => (docKey p.1, refValue p.2)) = ps.map fun p => docKey p.1 := by
        rw [keys, List.map_map]
        rfl
      rw [hvalue]
      refine .arr _ ?_ ?_ ?_ ?_
      · rwa [hkeysEq]
      · have hle : w.bound ≤ 2 ^ 32 := by cases w <;> decide
        rw [List.length_map]
        omega
      · rw [hkeysEq]
        intro k hk
        obtain ⟨p, hp, rfl⟩ := List.mem_map.mp hk
        have hmem : p.1 ∈ (Doc.map w (flatten ps)).items := mem_flatten.mpr ⟨p, hp, .inl rfl⟩
        cases hkey : docKey p.1 with
        | idx i =>
          show 0 < 2 ^ 31
          decide
        | str s => exact (every_self (every_item hlength hmem)).1 s (docKey_bytes (hkeys p hp) hkey)
      · intro e he
        obtain ⟨p, hp, rfl⟩ := List.mem_map.mp he
        have hmem : p.2 ∈ (Doc.map w (flatten ps)).items := mem_flatten.mpr ⟨p, hp, .inr rfl⟩
        exact ih p.2 hmem (hitems p.2 hmem) (hps p hp).2 (every_item hdistinct hmem)
          (every_item hlength hmem)
    | unused => exact hplain.elim
    | ext => exact hplain.elim
    | nil => exact .null
    | bool b => exact .bool b
    | uint w n => exact .long _
    | int w i => exact .long _
    | float bits => exact .double _
    | double bits => exact .double _

/-! ## Arrays -/

theorem mem_zip_swap {α β : Type} {l : List α} {l' : List β} {a : α} {b : β} (h : (a, b) ∈ l.zip l') :
    (b, a) ∈ l'.zip l := by
  rw [← List.zip_swap]
  exact List.mem_map.mpr ⟨(a, b), h, rfl⟩

/-- In lists with the same keys an entry and its counterpart have one key. -/
theorem fst_eq_of_mem_zip {α β : Type} {l : List (Key × α)} {l' : List (Key × β)}
    (hkeys : keys l = keys l') {e : Key × α} {e' : Key × β} (h : (e, e') ∈ l.zip l') : e.1 = e'.1 := by
  obtain ⟨j, hj, hget⟩ := List.mem_iff_getElem.mp h
  rw [List.length_zip] at hj
  have hkey := congrArg (fun ks : List Key => ks[j]?) hkeys
  simp only [keys, List.getElem?_map, List.getElem?_eq_getElem (show j < l.length by omega),
    List.getElem?_eq_getElem (show j < l'.length by omega), Option.map_some, Option.some.injEq] at hkey
  rw [List.getElem_zip, Prod.mk.injEq] at hget
  rwa [hget.1, hget.2] at hkey

section Arrays

variable {H : Heap} {id : Nat} {entries : List (Key × PVal)} {next : UInt64}

theorem Holds.exists_arr {v : Zval} (h : Holds H v (.arr entries next)) : ∃ id, v = .arr id := by
  cases h
  exact ⟨_, rfl⟩

theorem Holds.exists_str {v : Zval} {s : Bytes} (h : Holds H v (.str s)) : ∃ s', v = .str s' ∧ s'.val = s := by
  cases h
  exact ⟨_, rfl, rfl⟩

theorem Holds.exists_bin {v : Zval} {s : Bytes} (h : Holds H v (.bin s)) : ∃ s', v = .str s' ∧ s'.val = s := by
  cases h
  exact ⟨_, rfl, rfl⟩

theorem Holds.next_eq (h : Holds H (.arr id) (.arr entries next)) :
    (H.table id).nNextFreeElement = next := by
  cases h
  rfl

theorem Holds.keys_eq (h : Holds H (.arr id) (.arr entries next)) :
    keys (H.table id).entries = keys entries := by
  cases h
  assumption

theorem Holds.length_eq (h : Holds H (.arr id) (.arr entries next)) :
    (H.table id).entries.length = entries.length := by
  have hlength := congrArg List.length h.keys_eq
  simpa [keys] using hlength

theorem Holds.zip (h : Holds H (.arr id) (.arr entries next)) {e : Key × Zval} {e' : Key × PVal}
    (he : (e, e') ∈ (H.table id).entries.zip entries) : e.1 = e'.1 ∧ Holds H e.2 e'.2 := by
  refine ⟨fst_eq_of_mem_zip h.keys_eq he, ?_⟩
  cases h with
  | arr _ _ hzip _ => exact hzip _ he

/-- The value under a key of the tree is found in the table. -/
theorem Holds.found (h : Holds H (.arr id) (.arr entries next)) {k : Key} {u : PVal}
    (hu : (k, u) ∈ entries) : ∃ v, (k, v) ∈ (H.table id).entries ∧
      (H.table id).entries.lookup k = some v ∧ Holds H v u := by
  obtain ⟨⟨k', v⟩, he⟩ := mem_zip_of_mem h.length_eq.symm hu
  obtain ⟨hkey, hholds⟩ := h.zip (mem_zip_swap he)
  obtain rfl : k' = k := hkey
  have hmem : (k', v) ∈ (H.table id).entries := (List.of_mem_zip (mem_zip_swap he)).1
  exact ⟨v, hmem, (mem_iff_lookup (H.table id).nodup).mp hmem, hholds⟩

theorem Holds.less (h : Holds H (.arr id) (.arr entries next)) {k : Key} {i : Nat}
    (hi : (k, Zval.arr i) ∈ (H.table id).entries) : i < id := by
  cases h with
  | arr _ _ _ hless => exact hless k i hi

end Arrays

section Rewritten

variable {H : Heap} {id : Nat} {w : SeqWidth} {g : Option Zval → Doc}

/-- What is written for the values in a table. -/
def Writes (H : Heap) (id : Nat) (g : Option Zval → Doc) (ds : List Doc) : Prop :=
  ∀ k v, (k, v) ∈ (H.table id).entries → ∀ d ∈ ds, Holds H v (refValue d) →
    Rewritten .php d (g (some v))

/-- An array is packed as an array. -/
theorem array_rewritten {ds : List Doc} (hlt : ds.length < 2 ^ 31)
    (h : Holds H (.arr id) (refValue (.array w ds))) (hg : Writes H id g ds) :
    phpMpIsHash (H.table id) = false ∧
      Rewritten .php (.array w ds) (.ofList ((List.range (zendHashNumElements (H.table id))).map fun i =>
        g (zendHashIndexFind (H.table id) (UInt64.ofNat i)))) := by
  rw [array_value] at h
  have hlength := h.length_eq
  rw [List.length_map, List.length_zipIdx] at hlength
  constructor
  · have hnext := h.next_eq
    have hnat : (H.table id).nNextFreeElement.toNat = ds.length := by rw [hnext, toNat_ofNat (by omega)]
    refine (phpMpIsHash_eq_false ((toInt64_nonneg_iff _).mpr (by omega))).mpr
      ⟨by omega, by omega, fun k hk => ?_⟩
    rw [h.keys_eq, keys_zipIdx] at hk
    exact mem_indices_idx hk
  · rw [Doc.ofList, zendHashNumElements, hlength]
    refine .array _ _ (by simp) fun e he => ?_
    obtain ⟨i, hi, rfl⟩ := List.mem_iff_getElem.mp he
    rw [List.length_zip, List.length_map, List.length_range, Nat.min_self] at hi
    rw [List.getElem_zip, List.getElem_map, List.getElem_range]
    have hmem : (Key.idx (UInt64.ofNat i), refValue ds[i]) ∈
        ds.zipIdx.map fun e => (Key.idx (UInt64.ofNat e.2), refValue e.1) :=
      List.mem_map.mpr ⟨(ds[i], i), List.mem_iff_getElem.mpr ⟨i, by simpa using hi, by simp⟩, rfl⟩
    obtain ⟨v, hv, hlookup, hholds⟩ := h.found hmem
    rw [zendHashIndexFind, hlookup]
    exact hg _ v hv _ (List.getElem_mem hi) hholds

section Map

variable {ps : List (Doc × Doc)}

/-- A map that is packed as one. -/
theorem map_rewritten (hkeys : ∀ p ∈ ps, isKeyDoc p.1) (hnodup : (ps.map fun p => docKey p.1).Nodup)
    (h : Holds H (.arr id) (refValue (.map w (flatten ps)))) (hg : Writes H id g (ps.map Prod.snd)) :
    Rewritten .php (.map w (flatten ps))
      (.ofPairs ((H.table id).entries.map fun e => (keyDoc e.1, g (some e.2)))) := by
  obtain ⟨next, hvalue, -⟩ := @map_value w ps hkeys hnodup
  rw [hvalue] at h
  have hlength := h.length_eq
  rw [List.length_map] at hlength
  -- every pair has its entry
  have hentry : ∀ p e, (p, e) ∈ ps.zip (H.table id).entries → p ∈ ps ∧ e ∈ (H.table id).entries ∧
      e.1 = docKey p.1 ∧ Holds H e.2 (refValue p.2) := by
    intro p e hpe
    obtain ⟨hp, he⟩ := List.of_mem_zip hpe
    have hzip : (e, (docKey p.1, refValue p.2)) ∈
        (H.table id).entries.zip (ps.map fun p => (docKey p.1, refValue p.2)) := by
      rw [List.zip_map_right]
      exact List.mem_map.mpr ⟨(e, p), mem_zip_swap hpe, rfl⟩
    exact ⟨hp, he, h.zip hzip⟩
  have hsplit : ∀ q ∈ ps.zip ((H.table id).entries.map fun e => (keyDoc e.1, g (some e.2))),
      ∃ e, (q.1, e) ∈ ps.zip (H.table id).entries ∧ q.2 = (keyDoc e.1, g (some e.2)) := by
    intro q hq
    rw [List.zip_map_right] at hq
    obtain ⟨⟨p, e⟩, hpe, rfl⟩ := List.mem_map.mp hq
    exact ⟨e, hpe, rfl⟩
  refine .map _ _ ?_ (fun q hq => ?_) fun q hq => ?_
  · rw [List.length_map, hlength]
  · obtain ⟨e, hpe, hq₂⟩ := hsplit q hq
    obtain ⟨hp, -, hkey, -⟩ := hentry _ _ hpe
    rw [hq₂, hkey]
    exact sameKey_keyDoc (hkeys _ hp)
  · obtain ⟨e, hpe, hq₂⟩ := hsplit q hq
    obtain ⟨hp, he, -, hholds⟩ := hentry _ _ hpe
    rw [hq₂]
    exact hg e.1 e.2 he _ (List.mem_map.mpr ⟨_, hp, rfl⟩) hholds

theorem toInt_of_lt_max {h : UInt64} (hlt : h.toNat < 2 ^ 63) : h.toInt64.toInt = h.toNat := by
  have hmax : longMax.toNat = 2 ^ 63 - 1 := rfl
  have hint := toInt_ofNat (show h.toNat ≤ longMax.toNat by omega)
  rwa [UInt64.ofNat_toNat] at hint

theorem toInt_neg_of_ge {h : UInt64} (hge : 2 ^ 63 ≤ h.toNat) : h.toInt64.toInt < 0 := by
  by_contra hnonneg
  have hge' := (int64_nonneg_iff _).mpr (not_lt.mp hnonneg)
  have := (toInt64_nonneg_iff h).mp hge'
  omega

/-- A false list: its keys are integers below the number of pairs, the largest of them just below it, and one
of them is negative. -/
theorem falseList_of_neg (hkeys : ∀ p ∈ ps, isKeyDoc p.1) (hkey : ∀ p ∈ ps, ∃ i, docKey p.1 = .idx i)
    (hbelow : ∀ p ∈ ps, ∀ i, docKey p.1 = .idx i → i.toNat < 2 ^ 63 → i.toNat < ps.length)
    (htop : ∃ p ∈ ps, ∃ i, docKey p.1 = .idx i ∧ i.toNat < 2 ^ 63 ∧ i.toNat + 1 = ps.length)
    {p : Doc × Doc} (hp : p ∈ ps) {i : UInt64} (hi : docKey p.1 = .idx i) (hge : 2 ^ 63 ≤ i.toNat) :
    ¬ NoFalseList (.map w (flatten ps)) := by
  have hindex : ∀ p ∈ ps, ∀ i, docKey p.1 = .idx i →
      Reading.php.indexOf p.1 = some i.toInt64.toInt := by
    intro p hp i hi
    rw [indexOf_docKey (hkeys p hp), hi]
    rfl
  rw [NoFalseList, Doc.pairs, pairUp_flatten, not_not]
  refine ⟨fun q hq => ?_, ⟨p, hp, _, toInt_neg_of_ge hge, hindex p hp i hi⟩, ?_, fun q hq j hj => ?_⟩
  · obtain ⟨i, hi⟩ := hkey q hq
    rw [hindex q hq i hi]
    rfl
  · obtain ⟨e, he, top, htop, hlt, hlast⟩ := htop
    refine ⟨e, he, ?_⟩
    rw [hindex e he top htop, toInt_of_lt_max hlt, Option.some.injEq]
    omega
  · obtain ⟨i, hi⟩ := hkey q hq
    rw [hindex q hq i hi, Option.some.injEq] at hj
    by_cases hlt : i.toNat < 2 ^ 63
    · have hbound := hbelow q hq i hi hlt
      rw [toInt_of_lt_max hlt] at hj
      omega
    · have hneg := toInt_neg_of_ge (not_lt.mp hlt)
      omega

/-- A map that `php_mp_is_hash` takes for a list has the keys of one, if it is no false list. -/
theorem list_keys (hkeys : ∀ p ∈ ps, isKeyDoc p.1) (hnodup : (ps.map fun p => docKey p.1).Nodup)
    (h : Holds H (.arr id) (refValue (.map w (flatten ps)))) (hlist : phpMpIsHash (H.table id) = false)
    (hfalse : NoFalseList (.map w (flatten ps))) :
    ps.length < 2 ^ 31 ∧ ∀ p ∈ ps, ∃ i < ps.length, docKey p.1 = .idx (UInt64.ofNat i) := by
  obtain ⟨next, hvalue, htopped⟩ := @map_value w ps hkeys hnodup
  rw [hvalue] at h
  have hlength := h.length_eq
  rw [List.length_map] at hlength
  have hnext : (H.table id).nNextFreeElement.toNat < 2 ^ 63 := by
    rw [h.next_eq]
    exact htopped.next_lt
  obtain ⟨hlt, hn, hidx⟩ := (phpMpIsHash_eq_false ((toInt64_nonneg_iff _).mpr hnext)).mp hlist
  rw [h.next_eq, hlength] at hn
  have hmem : ∀ p ∈ ps, docKey p.1 ∈ keys (ps.map fun p => (docKey p.1, refValue p.2)) := by
    intro p hp
    rw [keys, List.map_map]
    exact List.mem_map.mpr ⟨p, hp, rfl⟩
  have hkey : ∀ p ∈ ps, ∃ i, docKey p.1 = .idx i := fun p hp =>
    hidx _ (by rw [h.keys_eq]; exact hmem p hp)
  -- the keys that are not negative are below the number of pairs
  have hbelow : ∀ p ∈ ps, ∀ i, docKey p.1 = .idx i → i.toNat < 2 ^ 63 → i.toNat < ps.length := by
    intro p hp i hi hlt'
    have := htopped.lt_next i (hi ▸ hmem p hp) hlt'
    simp only at this
    omega
  have hnonneg : ∀ p ∈ ps, ∀ i, docKey p.1 = .idx i → i.toNat < 2 ^ 63 := by
    intro p hp i hi
    by_contra hge
    refine falseList_of_neg hkeys hkey hbelow ?_ hp hi (not_lt.mp hge) hfalse
    -- the next index is the number of pairs, and there is a key just below it
    have hpos := List.length_pos_of_mem hp
    rcases htopped.top with hzero | ⟨top, htop, htoplt, hle⟩
    · have hzero : next = 0 := hzero
      rw [hzero] at hn
      simp only [UInt64.toNat_zero] at hn
      omega
    · rw [keys, List.map_map] at htop
      obtain ⟨e, he, htop⟩ := List.mem_map.mp htop
      have hbound := hbelow e he top htop htoplt
      simp only [hn] at hle
      exact ⟨e, he, top, htop, htoplt, by omega⟩
  refine ⟨by omega, fun p hp => ?_⟩
  obtain ⟨i, hi⟩ := hkey p hp
  refine ⟨i.toNat, hbelow p hp i hi (hnonneg p hp i hi), ?_⟩
  rw [UInt64.ofNat_toNat, hi]

theorem index_idx {i : Nat} (h : i < 2 ^ 31) : (Key.idx (UInt64.ofNat i)).index = some (i : Int) := by
  have hmax : longMax.toNat = 2 ^ 63 - 1 := rfl
  rw [Key.index, toInt_ofNat (by omega)]

/-- A map that is packed as a list. -/
theorem list_rewritten (hkeys : ∀ p ∈ ps, isKeyDoc p.1) (hnodup : (ps.map fun p => docKey p.1).Nodup)
    (h : Holds H (.arr id) (refValue (.map w (flatten ps)))) (hlist : phpMpIsHash (H.table id) = false)
    (hfalse : NoFalseList (.map w (flatten ps))) (hg : Writes H id g (ps.map Prod.snd)) :
    Rewritten .php (.map w (flatten ps))
      (.ofList ((List.range (zendHashNumElements (H.table id))).map fun i =>
        g (zendHashIndexFind (H.table id) (UInt64.ofNat i)))) := by
  obtain ⟨hlt, hrow⟩ := list_keys hkeys hnodup h hlist hfalse
  obtain ⟨next, hvalue, -⟩ := @map_value w ps hkeys hnodup
  rw [hvalue] at h
  have hlength := h.length_eq
  rw [List.length_map] at hlength
  have hindexOf : (ps.map fun p => Reading.php.indexOf p.1) = (ps.map fun p => docKey p.1).map Key.index := by
    rw [List.map_map]
    exact List.map_congr_left fun p hp => indexOf_docKey (hkeys p hp)
  rw [Doc.ofList, zendHashNumElements, hlength]
  refine .list _ _ (by simp) ?_ (fun p hp => ?_) fun p hp i d hi hd => ?_
  · rw [hindexOf]
    refine List.Nodup.map_on (fun k hk k' hk' heq => ?_) hnodup
    obtain ⟨p, hp, rfl⟩ := List.mem_map.mp hk
    obtain ⟨p', hp', rfl⟩ := List.mem_map.mp hk'
    obtain ⟨i, hi, hkey⟩ := hrow p hp
    obtain ⟨i', hi', hkey'⟩ := hrow p' hp'
    rw [hkey, hkey', index_idx (by omega), index_idx (by omega), Option.some.injEq, Nat.cast_inj] at heq
    rw [hkey, hkey', heq]
  · obtain ⟨i, hi, hkey⟩ := hrow p hp
    refine ⟨i, by simpa using hi, ?_⟩
    rw [indexOf_docKey (hkeys p hp), hkey, index_idx (by omega)]
  · obtain ⟨j, hj, hkey⟩ := hrow p hp
    rw [indexOf_docKey (hkeys p hp), hkey, index_idx (by omega), Option.some.injEq, Nat.cast_inj] at hi
    subst hi
    have hmem : (docKey p.1, refValue p.2) ∈ ps.map fun p => (docKey p.1, refValue p.2) :=
      List.mem_map.mpr ⟨p, hp, rfl⟩
    obtain ⟨v, hv, hlookup, hholds⟩ := h.found hmem
    rw [List.getElem?_map, List.getElem?_range hj, Option.map_some, Option.some.injEq, zendHashIndexFind,
      ← hkey, hlookup] at hd
    subst hd
    exact hg _ v hv _ (List.mem_map.mpr ⟨p, hp, rfl⟩) hholds

end Map

end Rewritten

/-! ## Documents -/

/-- Inside a table nothing is visited twice, so its values are written in full. -/
theorem writes_elementDoc {H : Heap} {id fuel : Nat} {c : Counts} {ds : List Doc}
    (henough : Enough H (fuel + 1) c (.arr id)) (hclear : ∀ i < id, c i = 0)
    (hless : ∀ k i, (k, Zval.arr i) ∈ (H.table id).entries → i < id)
    (hrec : ∀ e ∈ ds, ∀ v, Holds H v (refValue e) → ∀ fuel c, Enough H fuel c v →
      (∀ id, v = .arr id → ∀ i < id, c i = 0) → Rewritten .php e (zvalDocRec H fuel c v)) :
    Writes H id (elementDoc (zvalDocRec H fuel) c) ds := by
  intro k v hv e he hholds
  have hroom := enough_table henough (List.ne_nil_of_mem hv)
  cases v with
  | arr i =>
    have hlt := hless k i hv
    have hc : ¬ c i > 1 := by rw [hclear i hlt]; decide
    rw [elementDoc, if_neg hc]
    refine hrec e he _ hholds _ _ (enough_inc hroom hc) ?_
    rintro _ ⟨⟩ j hj
    rw [Counts.inc, if_neg (by omega)]
    exact hclear j (by omega)
  | _ => exact hrec e he _ hholds _ _ (show 1 ≤ fuel by omega) (by rintro _ ⟨⟩)

/-- What is written of the value of a document has that value. -/
theorem holds_rewritten {d : Doc} (hwf : d.WF) (hplain : Plain d) (hdistinct : d.Every Distinct)
    (hlength : d.Every IntLength) (hfalse : d.Every NoFalseList) {H : Heap} {v : Zval}
    (h : Holds H v (refValue d)) {fuel : Nat} {c : Counts} (henough : Enough H fuel c v)
    (hclear : ∀ id, v = .arr id → ∀ i < id, c i = 0) :
    Rewritten .php d (zvalDocRec H fuel c v) := by
  induction d using Doc.induct generalizing v fuel c with
  | node d ih =>
    obtain ⟨hfits, hitems⟩ := d.wf_iff.mp hwf
    have hitems := (allWF_iff _).mp hitems
    obtain ⟨fuel, rfl⟩ : ∃ f, fuel = f + 1 := ⟨fuel - 1, by have := enough_pos henough; omega⟩
    have hrec (e : Doc) (hitem : e ∈ d.items) (hplain' : Plain e) :=
      @ih e hitem (hitems e hitem) hplain' (every_item hdistinct hitem) (every_item hlength hitem)
        (every_item hfalse hitem)
    cases d with
    | array w ds =>
      obtain ⟨id, rfl⟩ : ∃ id, v = .arr id := by
        rw [array_value] at h
        exact h.exists_arr
      have hplains := (allPlain_iff ds).mp hplain
      have hless : ∀ k i, (k, Zval.arr i) ∈ (H.table id).entries → i < id := by
        rw [array_value] at h
        exact fun k i => h.less
      obtain ⟨hlist, hrewritten⟩ := array_rewritten ((every_self hlength).2 w ds rfl) h
        (writes_elementDoc henough (hclear id rfl) hless fun e he _ hholds _ _ =>
          hrec e he (hplains e he) hholds)
      rw [zvalDocRec, hlist, if_neg Bool.false_ne_true]
      exact hrewritten
    | map w ds =>
      obtain ⟨ps, rfl, -, hps⟩ := plain_pairs hwf hplain
      have hkeys : ∀ p ∈ ps, isKeyDoc p.1 := fun p hp => (hps p hp).1
      have hnodup := docKeys_nodup hkeys (every_self hdistinct)
      obtain ⟨next, hvalue, -⟩ := @map_value w ps hkeys hnodup
      obtain ⟨id, rfl⟩ : ∃ id, v = .arr id := by
        rw [hvalue] at h
        exact h.exists_arr
      have hless : ∀ k i, (k, Zval.arr i) ∈ (H.table id).entries → i < id := by
        rw [hvalue] at h
        exact fun k i => h.less
      have hvalues : Writes H id (elementDoc (zvalDocRec H fuel) c) (ps.map Prod.snd) := by
        refine writes_elementDoc henough (hclear id rfl) hless fun e he _ hholds _ _ => ?_
        obtain ⟨p, hp, rfl⟩ := List.mem_map.mp he
        exact hrec p.2 (mem_flatten.mpr ⟨p, hp, .inr rfl⟩) (hps p hp).2 hholds
      rw [zvalDocRec]
      cases hlist : phpMpIsHash (H.table id) with
      | true =>
        rw [if_pos rfl]
        exact map_rewritten hkeys hnodup h hvalues
      | false =>
        rw [if_neg Bool.false_ne_true]
        exact list_rewritten hkeys hnodup h hlist (every_self hfalse) hvalues
    | unused => exact hplain.elim
    | ext => exact hplain.elim
    | nil =>
      cases h
      exact .nil
    | bool b =>
      cases h
      exact .bool b
    | uint w n =>
      cases h
      refine .int rfl ?_
      rw [zvalDocRec, ofInt_integer]
      simp only [Reading.php, Int64.ofInt_eq_ofNat]
    | int w i =>
      cases h
      refine .int rfl ?_
      rw [zvalDocRec, ofInt_integer]
      rfl
    | float bits =>
      cases h
      exact .float bits
    | double bits =>
      cases h
      have hlt : bits < 256 ^ 8 := hfits
      rw [zvalDocRec, UInt64.toNat_ofNat', Nat.mod_eq_of_lt (by omega)]
      exact .double bits
    | str w s =>
      obtain ⟨s', rfl, rfl⟩ := Holds.exists_str h
      exact .str _ rfl
    | bin w s =>
      obtain ⟨s', rfl, rfl⟩ := Holds.exists_bin h
      exact .str _ rfl

/-- Unpacked and packed again, a document keeps its value as PHP reads it. -/
theorem repack_keepsValue (ndebug : Bool) {d : Doc} (hwf : d.WF) (hplain : Plain d)
    (hdistinct : d.Every Distinct) (hlength : d.Every IntLength) (hfalse : d.Every NoFalseList)
    (hsigned : ndebug = true ∨ SignedNegative d) : KeepsValue .php ndebug d := by
  intro str rest
  obtain ⟨u, hu⟩ := (docToPhp_ok_iff d hwf).mpr ⟨hplain, hsigned⟩
  obtain rfl : u = refValue d :=
    Except.ok.inj ((docToPhp_ndebug d hu).symm.trans (docToPhp_refValue hwf hplain))
  have hunpack : phpMpUnpack ndebug (d.encode ++ rest) = .ok (refValue d, rest) :=
    (phpMpUnpack_doc hwf).mpr ⟨hu, rfl⟩
  obtain ⟨H', hheap, hholds⟩ := load_holds (refValue_storable hwf hplain hdistinct hlength) []
  rw [← hheap] at hholds
  obtain ⟨str', hpack, hdata⟩ := phpMpPack_spec ndebug (load (refValue d) []).1 str (load (refValue d) []).2
  refine ⟨str', zvalDoc _ _, ?_, zvalDoc_wf _ _, hdata, ?_⟩
  · simp only [repack, hunpack, hpack]
  · exact holds_rewritten hwf hplain hdistinct hlength hfalse hholds (enough_depth _ _ _)
      (fun _ _ _ _ => rfl)

theorem every_leaf {P : Doc → Prop} {d : Doc} (hd : d.items = []) (h : P d) : d.Every P :=
  .node h (by simp [hd])

/-- A map from 0 to a float, in a wide form. -/
theorem repack_keepsValue_float :
    KeepsValue .php false (.map .w16 [.uint .w8 0, .float 0x3f800000]) := by
  have hevery {P : Doc → Prop} (hmap : P (.map .w16 [.uint .w8 0, .float 0x3f800000]))
      (hkey : P (.uint .w8 0)) (hvalue : P (.float 0x3f800000)) :
      Doc.Every P (.map .w16 [.uint .w8 0, .float 0x3f800000]) := by
    refine .node hmap fun e he => ?_
    obtain rfl | rfl : e = .uint .w8 0 ∨ e = .float 0x3f800000 := by simpa [Doc.items] using he
    · exact every_leaf rfl hkey
    · exact every_leaf rfl hvalue
  refine repack_keepsValue false (by decide) ⟨rfl, trivial, trivial⟩ (hevery ?_ ?_ ?_) (hevery ?_ ?_ ?_)
    (hevery ?_ ?_ ?_) (.inr ⟨trivial, trivial, trivial⟩)
  · simp [Distinct, Doc.pairs, pairUp]
  · simp [Distinct, Doc.pairs]
  · simp [Distinct, Doc.pairs]
  · simp [IntLength, Doc.bytes]
  · simp [IntLength, Doc.bytes]
  · simp [IntLength, Doc.bytes]
  · simp [NoFalseList, Doc.pairs, pairUp, Reading.indexOf, Doc.integer, Reading.php]
  · simp [NoFalseList, Doc.pairs]
  · simp [NoFalseList, Doc.pairs]

/-! ## What changes -/

/-- A document that keeps its value is written as some document. -/
theorem KeepsValue.written {r : Reading} {ndebug : Bool} {d : Doc} (h : KeepsValue r ndebug d) :
    ∃ d' : Doc, (repack ndebug (.null fun _ => 0) d.encode).map (·.data) = .ok d'.encode ∧ d'.WF ∧
      Rewritten r d d' := by
  obtain ⟨str', d', hrun, hwf, hdata, hrewritten⟩ := h (.null fun _ => 0) []
  rw [List.append_nil] at hrun
  refine ⟨d', ?_, hwf, hrewritten⟩
  rw [hrun, Except.map, hdata]
  rfl

theorem docType_lead {d : Doc} (hwf : d.WF) {c : UInt8} {bs : Bytes} (h : d.encode = c :: bs) :
    docType d = mpTypeof c := by
  obtain ⟨c', tl, hhead, htype⟩ := head_type ((Doc.wf_iff d).mp hwf).1
  rw [Doc.encode_eq, hhead, List.cons_append, List.cons.injEq] at h
  rw [← htype, h.1]

/-- 2^63, which is written as -2^63. -/
theorem not_keepsValue_uint : ¬ KeepsValue .exact true (.uint .w64 (2 ^ 63)) := by
  intro h
  obtain ⟨d', hrun, hwf, hrewritten⟩ := h.written
  have hbytes : (repack true (.null fun _ => 0) (Doc.uint .w64 (2 ^ 63)).encode).map (·.data) =
      .ok [0xd3, 0x80, 0, 0, 0, 0, 0, 0, 0] := by decide +kernel
  have htype := docType_lead hwf (Except.ok.inj (hrun.symm.trans hbytes))
  have hint : d'.integer = some (2 ^ 63) := by
    cases hrewritten with
    | int hi hi' =>
      cases hi
      exact hi'
    | str w hs => cases hs
  cases d' with
  | int w i =>
    obtain rfl := Option.some.inj hint
    cases w <;> simp [Doc.WF, Doc.Fits, IntWidth.fitsInt] at hwf
  | _ => cases htype

/-- The key `"5"`, which is written as the integer. -/
theorem not_keepsValue_decimal : ¬ KeepsValue .exact true (.map .fix [.str .fix [0x35], .nil]) := by
  intro h
  obtain ⟨d', hrun, hwf, hrewritten⟩ := h.written
  have hbytes : (repack true (.null fun _ => 0) (Doc.map .fix [.str .fix [0x35], .nil]).encode).map
      (·.data) = .ok [0x81, 5, 0xc0] := by decide +kernel
  have hencode := Except.ok.inj (hrun.symm.trans hbytes)
  have htype := docType_lead hwf hencode
  generalize hd : Doc.map .fix [.str .fix [0x35], .nil] = d at hrewritten
  cases hrewritten with
  | @map w w' ps ps' hlength hkeys _ =>
    obtain ⟨-, hitems⟩ := Doc.map.inj hd
    obtain rfl : ps = [(.str .fix [0x35], .nil)] := by
      have hpairs := congrArg pairUp hitems
      rwa [pairUp_flatten, eq_comm] at hpairs
    obtain ⟨⟨k', v'⟩, rfl⟩ := List.length_eq_one_iff.mp hlength.symm
    obtain ⟨w'', s, -, rfl⟩ : Reading.exact.SameKey (.str .fix [0x35]) k' :=
      hkeys ((.str .fix [0x35], .nil), (k', v')) (by simp)
    have hkeyWF : (Doc.str w'' s).WF :=
      (allWF_iff _).mp ((Doc.wf_iff _).mp hwf).2 _ (by simp [Doc.items, flatten])
    have hkey : ∃ bs, (Doc.str w'' s).encode ++ bs = [5, 0xc0] := by
      cases w' with
      | fix => exact ⟨_, (List.cons.inj hencode).2⟩
      | _ => cases (List.cons.inj hencode).1
    obtain ⟨bs, hbs⟩ := hkey
    cases hcons : (Doc.str w'' s).encode with
    | nil =>
      have hpos := (Doc.str w'' s).encode_length_pos
      simp [hcons] at hpos
    | cons c cs =>
      have hstr := docType_lead hkeyWF hcons
      rw [hcons] at hbs
      rw [(List.cons.inj hbs).1] at hstr
      cases hstr
  | list => cases htype
  | int hi =>
    subst hd
    cases hi
  | str w hs =>
    subst hd
    cases hs
  | _ => cases hd

/-- The keys -5 and 1, which are written as a list of two nils. -/
theorem not_keepsValue_negative :
    ¬ KeepsValue .exact true (.map .fix [.int .fix (-5), .bool true, .uint .fix 1, .nil]) := by
  intro h
  obtain ⟨d', hrun, hwf, hrewritten⟩ := h.written
  have hbytes : (repack true (.null fun _ => 0)
      (Doc.map .fix [.int .fix (-5), .bool true, .uint .fix 1, .nil]).encode).map (·.data) =
      .ok [0x92, 0xc0, 0xc0] := by decide +kernel
  have htype := docType_lead hwf (Except.ok.inj (hrun.symm.trans hbytes))
  generalize hd : Doc.map .fix [.int .fix (-5), .bool true, .uint .fix 1, .nil] = d at hrewritten
  cases hrewritten with
  | @list w w' ps ds _ _ hindices _ =>
    obtain ⟨-, hitems⟩ := Doc.map.inj hd
    have hpairs := congrArg pairUp hitems
    rw [pairUp_flatten] at hpairs
    obtain ⟨i, -, hi⟩ := hindices (.int .fix (-5), .bool true) (hpairs ▸ by simp [pairUp])
    have hneg : (-5 : Int) = i := Option.some.inj hi
    omega
  | map => cases htype
  | int hi =>
    subst hd
    cases hi
  | str w hs =>
    subst hd
    cases hs
  | _ => cases hd

/-- The number 5 in a signed form, at which an assertion fails. -/
theorem not_keepsValue_signed : ¬ KeepsValue .exact false (.int .w8 5) := by
  intro h
  obtain ⟨d', hrun, -⟩ := h.written
  have hfault : (repack false (.null fun _ => 0) (Doc.int .w8 5).encode).map (·.data) =
      .error (.fault .assertion) := by decide +kernel
  cases hrun.symm.trans hfault

/-- The key `"a"` as a bin, behind which the unpacking routines read. -/
theorem not_keepsValue_bin : ¬ KeepsValue .exact true (.map .fix [.bin .w8 [0x61], .nil]) := by
  intro h
  obtain ⟨d', hrun, -⟩ := h.written
  have hfault : (repack true (.null fun _ => 0) (Doc.map .fix [.bin .w8 [0x61], .nil]).encode).map (·.data) =
      .error (.fault .oob) := by decide +kernel
  cases hrun.symm.trans hfault

/-- A representable document that has no two keys that are one to PHP need not keep its value: large numbers,
decimal keys, negative keys, bins that are keys and assertions stand against it. -/
theorem not_keepsValue :
    (¬ ∀ d : Doc, d.WF → Representable d → d.Every Distinct → KeepsValue .exact true d) ∧
      ¬ KeepsValue .exact true (.uint .w64 (2 ^ 63)) ∧
      ¬ KeepsValue .exact true (.map .fix [.str .fix [0x35], .nil]) ∧
      ¬ KeepsValue .exact true (.map .fix [.int .fix (-5), .bool true, .uint .fix 1, .nil]) ∧
      ¬ KeepsValue .exact true (.map .fix [.bin .w8 [0x61], .nil]) ∧
      ¬ KeepsValue .exact false (.int .w8 5) := by
  refine ⟨fun h => not_keepsValue_uint (h _ (by decide) trivial ?_), not_keepsValue_uint,
    not_keepsValue_decimal, not_keepsValue_negative, not_keepsValue_bin, not_keepsValue_signed⟩
  exact every_leaf rfl (by simp [Distinct, Doc.pairs])

end BeePhp
