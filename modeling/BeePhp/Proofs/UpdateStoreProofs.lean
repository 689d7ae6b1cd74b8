import BeePhp.Proofs.UpdateOpsProofs
import BeePhp.UpdateStore
import BeePhp.Zend.Proofs.CountingProofs
import BeePhp.Zend.Proofs.TableProofs

/-!
# Proofs: verifying update operations in the memory of the zvals

An argument of `=` or `!` is put into a list without being counted. If the call returns `NULL` after
that, the zval counts fewer places than hold it, or it is gone (`verifyOps_moved`). If there is no such
operation before the one that fails, all that is released is new (`verifyOps_grown`). So the arguments
are left intact exactly in that case (`leavesIntact_iff`).
-/

namespace BeePhp.Store

open Codec

/-! ## Reading -/

theorem lookup_map (l : List (Key × Nat)) (f : Nat → Zval) (k : Key) :
    (l.map fun e => (e.1, f e.2)).lookup k = (l.lookup k).map f := by
  induction l with
  | nil => rfl
  | cons e l ih =>
    obtain ⟨k₀, x⟩ := e
    rw [List.map_cons, lookup_cons_ite, lookup_cons_ite, ih]
    by_cases hk : k = k₀
    · rw [if_pos hk, if_pos hk]
      rfl
    · rw [if_neg hk, if_neg hk]

theorem heap_table (σ : Store) (id : Nat) : σ.heap.table id = (σ.table id).read σ.zval := by
  by_cases hid : id < σ.next
  · simp [Heap.table, heap, List.getD_eq_getElem?_getD, hid]
  · have hnone : σ.get id = none := get_of_le (not_lt.mp hid)
    simp [Heap.table, heap, List.getD_eq_getElem?_getD, hid, table, hnone]
    rfl

theorem zendHashIndexFind_heap (σ : Store) (id : Nat) (h : UInt64) :
    zendHashIndexFind (σ.heap.table id) h = (σ.slot id (.idx h)).map σ.zval := by
  rw [heap_table]
  exact lookup_map _ _ _

/-- What an operation is found to be depends on its own table only. -/
theorem verifyOp_congr {H H' : Heap} {op : Zval} (h : ∀ id, op = .arr id → H.table id = H'.table id)
    (position : Int) :
    BeePhp.beeUpdateVerifyOp H op position = BeePhp.beeUpdateVerifyOp H' op position := by
  cases op with
  | arr id => simp only [BeePhp.beeUpdateVerifyOp, h id rfl]
  | _ => rfl

/-- The list of an operation that is accepted begins with its name. -/
theorem verifyOp_assigns {H : Heap} {op : Zval} {position : Int} {vs : List Zval}
    (h : BeePhp.beeUpdateVerifyOp H op position = .ok vs) : byReference vs = assigns H op := by
  obtain ⟨id, c, field, rfl, hop, -, hshape⟩ := beeUpdateVerifyOp_cases h
  have hhead : ∃ rest, vs = .str (.char c) :: rest := by
    rcases hshape with ⟨-, h⟩ | ⟨-, wrongArg, h⟩ | ⟨-, wrongArg, h⟩
    · obtain ⟨-, offset, length, list, -, -, -, rfl⟩ := verifySplice_ok.mp h
      exact ⟨_, rfl⟩
    · obtain ⟨-, arg, -, -, rfl⟩ := verifyArg_ok.mp h
      exact ⟨_, rfl⟩
    · obtain ⟨-, arg, -, -, rfl⟩ := verifyArg_ok.mp h
      exact ⟨_, rfl⟩
  obtain ⟨rest, rfl⟩ := hhead
  simp only [assigns, hop]
  rfl

theorem read_congr {t : ZTable} {f g : Nat → Zval} (h : ∀ x ∈ t.children, f x = g x) :
    t.read f = t.read g := by
  have hentries : (t.entries.map fun e => (e.1, f e.2)) = t.entries.map fun e => (e.1, g e.2) :=
    List.map_congr_left fun e he => by rw [h e.2 (List.mem_map_of_mem he)]
  simp only [ZTable.read, hentries]

theorem zval_arr {σ : Store} {x id : Nat} (h : σ.zval x = .arr id) : id = x := by
  cases hget : σ.get x with
  | none => simp [zval, hget] at h
  | some c =>
    obtain ⟨refcount, isRef, value⟩ := c
    cases value <;> simp_all [zval, ZValue.zval]

section Counted

variable {σ₀ σ : Store} {roots : List Nat} {args : Nat} {work : List Release} {locals : List Nat}

/-- What can be reached from the arguments is alive. -/
theorem Counted.lt_next (h : σ.Counted roots args) {x : Nat} (hx : σ.Reaches args x) : x < σ.next := by
  obtain ⟨c, hget, -⟩ := h x hx
  exact Store.lt_next hget

theorem Reaches.slot {x y : Nat} {k : Key} (hx : σ.Reaches args x) (hy : σ.slot x k = some y) :
    σ.Reaches args y :=
  hx.tail (mem_held_of_slot hy)

theorem Grown.zval_eq (h : Grown σ₀ σ work locals) {x : Nat} (hx : x < σ₀.next) :
    σ.zval x = σ₀.zval x := by
  simp only [zval, h.old x hx]

theorem Grown.table_eq (h : Grown σ₀ σ work locals) {x : Nat} (hx : x < σ₀.next) :
    σ.table x = σ₀.table x := by
  simp only [table, h.old x hx]

theorem Grown.slot_eq (h : Grown σ₀ σ work locals) {x : Nat} (hx : x < σ₀.next) (k : Key) :
    σ.slot x k = σ₀.slot x k := by
  simp only [slot, h.table_eq hx]

/-- The arrays that can be reached are as they were. -/
theorem Grown.heap_table_eq (h : Grown σ₀ σ work locals) (hcounted : σ₀.Counted roots args) {x : Nat}
    (hx : σ₀.Reaches args x) : σ.heap.table x = σ₀.heap.table x := by
  have hlt := hcounted.lt_next hx
  rw [heap_table, heap_table, h.table_eq hlt]
  refine read_congr fun y hy => h.zval_eq (hcounted.lt_next (hx.tail ?_))
  obtain ⟨c, hget, -⟩ := hcounted x hx
  rw [hget]
  simpa [table, hget, held, children_eq] using hy

theorem Grown.verifyOp_eq (h : Grown σ₀ σ work locals) (hcounted : σ₀.Counted roots args) {op : Nat}
    (hop : σ₀.Reaches args op) (position : Int) :
    BeePhp.beeUpdateVerifyOp σ.heap (σ.zval op) position =
      BeePhp.beeUpdateVerifyOp σ₀.heap (σ₀.zval op) position := by
  rw [h.zval_eq (hcounted.lt_next hop)]
  refine verifyOp_congr (fun id hid => ?_) position
  obtain rfl := zval_arr hid
  exact h.heap_table_eq hcounted hop

end Counted

/-! ## A list that is being built has room -/

/-- The zval is a list with `n` elements. -/
def HasRow (σ : Store) (arr n : Nat) : Prop :=
  ∃ c t, σ.get arr = some c ∧ c.value = .arr t ∧ t.nNextFreeElement = UInt64.ofNat n ∧
    keys t.entries = indices 0 n

theorem hasRow_new (σ : Store) : HasRow σ.allocArray σ.next 0 :=
  ⟨_, .empty, get_alloc_self σ _, rfl, rfl, rfl⟩

theorem HasRow.congr {σ σ' : Store} {arr n : Nat} (h : HasRow σ arr n)
    (hsame : ∀ c, σ.get arr = some c → ∃ c', σ'.get arr = some c' ∧ c'.value = c.value) :
    HasRow σ' arr n := by
  obtain ⟨c, t, hget, hvalue, hnext, hkeys⟩ := h
  obtain ⟨c', hget', hvalue'⟩ := hsame c hget
  exact ⟨c', t, hget', hvalue'.trans hvalue, hnext, hkeys⟩

theorem HasRow.alloc {σ : Store} {arr n : Nat} (h : HasRow σ arr n) (c : ZCell) :
    HasRow (σ.alloc c) arr n :=
  h.congr fun c₀ hget => ⟨c₀, get_alloc hget c, rfl⟩

/-- Appending to a short list succeeds. -/
theorem HasRow.insert {σ : Store} {arr n : Nat} (h : HasRow σ arr n) (hn : n + 1 < 2 ^ 32) (id : Nat) :
    ∃ σ', σ.addNextIndexZval arr id = some σ' ∧ HasRow σ' arr (n + 1) := by
  obtain ⟨c, t, hget, hvalue, hnext, hkeys⟩ := h
  have hlength := congrArg List.length hkeys
  simp only [keys, indices, List.length_map, List.length_range'] at hlength
  have hfree : Key.idx t.nNextFreeElement ∉ keys t.entries ∧ t.entries.length + 1 < 2 ^ 32 := by
    refine ⟨fun hmem => ?_, by omega⟩
    rw [hkeys, mem_indices (by omega), hnext, toNat_ofNat (by omega)] at hmem
    omega
  cases hinsert : t.insertNext id with
  | none =>
    rw [ZTable.insertNext, dif_pos hfree] at hinsert
    cases hinsert
  | some t' =>
    obtain ⟨refcount, isRef, value⟩ := c
    obtain rfl : value = .arr t := hvalue
    obtain ⟨-, htable, -⟩ := insertNext_some hinsert
    refine ⟨σ.setTable arr t', ?_, _, t', get_setTable_self hget t', rfl, ?_, ?_⟩
    · simp only [addNextIndexZval, hget, hinsert, Option.map_some]
    · have hnext' := congrArg Table.nNextFreeElement htable
      simp only [addIndexZval, hnext] at hnext'
      rw [hnext', nextFree_ofNat (by omega)]
    · have hentries := congrArg Table.entries htable
      simp only [addIndexZval] at hentries
      rw [hentries, keys_enter, if_neg hfree.1, hkeys, hnext]
      simp [indices, List.range'_concat]

theorem HasRow.addScalars {σ : Store} {arr n : Nat} (h : HasRow σ arr n) (vs : List Zval)
    (hn : n + vs.length < 2 ^ 32) : HasRow (σ.addScalars arr vs) arr (n + vs.length) := by
  induction vs generalizing σ n with
  | nil => exact h
  | cons v vs ih =>
    rw [List.length_cons] at hn ⊢
    obtain ⟨σ', hinsert, hrow⟩ := (h.alloc ⟨1, false, .scalar v⟩).insert (by omega) σ.next
    have hone : σ.addNextIndex arr (.scalar v) = σ' := by rw [Store.addNextIndex, hinsert]; rfl
    have hrest := ih hrow (by omega)
    rw [Nat.add_right_comm, Nat.add_assoc] at hrest
    rw [Store.addScalars, List.foldl_cons, hone]
    exact hrest

theorem HasRow.separate {σ σ' : Store} {arr n op x : Nat} (h : HasRow σ arr n) {k : Key}
    (hrun : σ.separateToMakeIsRef op k = .ok (σ', x)) (hop : arr ≠ op)
    (hfree : ∀ y, σ.slot op k = some y → arr ≠ y) : HasRow σ' arr n := by
  obtain ⟨y, c, hslot, hy, hcase⟩ := separate_cases hrun
  have hne := hfree y hslot
  rcases hcase with ⟨-, rfl, -⟩ | ⟨-, -, rfl, -⟩ | ⟨-, -, -, hcopied⟩
  · exact h
  · exact h.congr fun c₀ hget => ⟨c₀, (get_set_ne σ hne _).trans hget, rfl⟩
  · refine h.congr fun c₀ hget => ?_
    obtain ⟨c', n', hget', -, -, -, hvalue⟩ := hcopied.kept hne hget
    exact ⟨c', hget', hvalue hop⟩

theorem addNextIndex_get_ne {σ : Store} {arr x : Nat} {c : ZCell} (hne : x ≠ arr)
    (hget : σ.get x = some c) (v : ZValue) : (σ.addNextIndex arr v).get x = some c := by
  have hnew := get_alloc hget ⟨1, false, v⟩
  unfold addNextIndex
  cases hinsert : (σ.alloc ⟨1, false, v⟩).addNextIndexZval arr σ.next with
  | none => exact hnew
  | some σ' => exact (addNextIndexZval_get_ne hinsert hne).trans hnew

theorem addScalars_get_ne {σ : Store} {arr x : Nat} {c : ZCell} (hne : x ≠ arr)
    (hget : σ.get x = some c) (vs : List Zval) : (σ.addScalars arr vs).get x = some c := by
  induction vs generalizing σ with
  | nil => exact hget
  | cons v vs ih => exact ih (addNextIndex_get_ne hne hget (.scalar v))

/-- A list keeps its room while another one is built. -/
theorem HasRow.addScalars_ne {σ : Store} {arr n : Nat} (h : HasRow σ arr n) (vs : List Zval) :
    HasRow (σ.allocArray.addScalars σ.next vs) arr n :=
  h.congr fun c hget => ⟨c, addScalars_get_ne (lt_next hget).ne (get_alloc hget _) vs, rfl⟩

/-! ## Operations that put in new zvals only -/

section Grown

variable {σ₀ : Store}

theorem scalar_children (v : Zval) : (ZValue.scalar v).children = [] := by
  cases v <;> rfl

theorem Grown.allocArray {σ : Store} {locals : List Nat} (h : Grown σ₀ σ [] locals) :
    Grown σ₀ σ.allocArray [] (σ.next :: locals) :=
  h.alloc false rfl

/-- A new zval is appended, or it is left over. -/
theorem Grown.addNextIndex {σ : Store} {locals : List Nat} (h : Grown σ₀ σ [] locals) {arr : Nat}
    (harr : σ₀.next ≤ arr) (v : Zval) :
    ∃ extra, Grown σ₀ (σ.addNextIndex arr (.scalar v)) [] (extra ++ locals) := by
  have hnew := h.alloc false (scalar_children v)
  unfold Store.addNextIndex
  cases hinsert : (σ.alloc ⟨1, false, .scalar v⟩).addNextIndexZval arr σ.next with
  | none => exact ⟨[σ.next], hnew⟩
  | some σ' => exact ⟨[], hnew.insert harr hinsert⟩

theorem Grown.addScalars {σ : Store} {locals : List Nat} (h : Grown σ₀ σ [] locals) {arr : Nat}
    (harr : σ₀.next ≤ arr) (vs : List Zval) :
    ∃ extra, Grown σ₀ (σ.addScalars arr vs) [] (extra ++ locals) := by
  induction vs generalizing σ locals with
  | nil => exact ⟨[], h⟩
  | cons v vs ih =>
    obtain ⟨extra, hone⟩ := h.addNextIndex harr v
    obtain ⟨extra', hrest⟩ := ih hone
    exact ⟨extra' ++ extra, by rwa [List.append_assoc]⟩

theorem Grown.cleanup {σ : Store} {arr : Nat} {locals : List Nat} (h : Grown σ₀ σ [] (arr :: locals))
    (msg : Message) : ∃ σ', σ.cleanup arr msg = .ok (σ', .error msg) ∧ Grown σ₀ σ' [] locals := by
  obtain ⟨σ', hrun, hgrown⟩ := h.zvalPtrDtor
  refine ⟨σ', ?_, hgrown⟩
  rw [Store.cleanup, hrun]
  rfl

/-- An operation that is refused. -/
theorem Grown.refused {σ : Store} {locals : List Nat} (h : Grown σ₀ σ [] locals) {op : Nat}
    {position : Int} {msg : Message}
    (hverdict : BeePhp.beeUpdateVerifyOp σ.heap (σ.zval op) position = .error msg) :
    ∃ σ', σ.beeUpdateVerifyOp op position = .ok (σ', .error msg) ∧ Grown σ₀ σ' [] locals := by
  simp only [Store.beeUpdateVerifyOp, hverdict]
  by_cases hmap : σ.isMap op = true
  · rw [if_pos hmap]
    exact h.allocArray.cleanup msg
  · rw [if_neg hmap]
    exact ⟨σ, rfl, h⟩

/-- An operation that is accepted, and is none of `=` and `!`, is put into the list as a new zval. -/
theorem Grown.copied {σ : Store} {arr : Nat} {locals : List Nat} (h : Grown σ₀ σ [] (arr :: locals))
    {i : Nat} (hrow : HasRow σ arr i) (hi : i + 1 < 2 ^ 32) {op : Nat} {position : Int}
    {vs : List Zval} (hverdict : BeePhp.beeUpdateVerifyOp σ.heap (σ.zval op) position = .ok vs)
    (hcopy : byReference vs = false) :
    ∃ σ₁ σ₂ locals', σ.beeUpdateVerifyOp op position = .ok (σ₁, .ok σ.next) ∧
      σ₁.addNextIndexZval arr σ.next = some σ₂ ∧ Grown σ₀ σ₂ [] (arr :: locals') ∧
      HasRow σ₂ arr (i + 1) := by
  obtain ⟨extra, hgrown⟩ := h.allocArray.addScalars h.le vs
  have hperm : (extra ++ σ.next :: arr :: locals).Perm (σ.next :: arr :: (extra ++ locals)) := by
    refine List.perm_iff_count.mpr fun x => ?_
    simp only [List.count_append, List.count_cons]
    omega
  obtain ⟨σ₂, hinsert, hrow'⟩ := (hrow.addScalars_ne vs).insert hi σ.next
  refine ⟨_, σ₂, extra ++ locals, ?_, hinsert, ?_, hrow'⟩
  · simp only [Store.beeUpdateVerifyOp, hverdict, hcopy, Bool.false_eq_true, if_false]
  · exact (hgrown.perm hperm).insert (h.new_locals arr List.mem_cons_self) hinsert

end Grown

section Loop

variable {σ₀ : Store} {roots : List Nat} {args : Nat}

/-- If none of the operations that are accepted is `=` or `!`, only new zvals are released, and the
verdict is the one on the values. -/
theorem verifyOps_grown (hcounted : σ₀.Counted roots args) {n i arr : Nat} {σ : Store}
    {locals : List Nat} (hgrown : Grown σ₀ σ [] (arr :: locals)) (hrow : HasRow σ arr i)
    (hn : i + n < 2 ^ 32)
    (hcopy : ∀ op ∈ acceptedOps σ₀.heap (σ₀.heap.table args) n i, assigns σ₀.heap op = false) :
    (∃ vss σ', BeePhp.verifyOps σ₀.heap (σ₀.heap.table args) n i = .ok vss ∧
      verifyOps args arr n i σ = .ok (σ', .ok arr)) ∨
    ∃ msg σ' locals', BeePhp.verifyOps σ₀.heap (σ₀.heap.table args) n i = .error msg ∧
      verifyOps args arr n i σ = .ok (σ', .error msg) ∧ Grown σ₀ σ' [] locals' := by
  have hargs : σ₀.Reaches args args := .refl
  induction n generalizing i σ locals with
  | zero => exact .inl ⟨[], σ, rfl, rfl⟩
  | succ n ih =>
    rw [acceptedOps, zendHashIndexFind_heap] at hcopy
    rw [verifyOps, hgrown.slot_eq (hcounted.lt_next hargs), BeePhp.verifyOps, zendHashIndexFind_heap]
    cases hslot : σ₀.slot args (.idx (UInt64.ofNat i)) with
    | none =>
      obtain ⟨σ', hrun, hgrown'⟩ := hgrown.cleanup ⟨"Internal Array Error", []⟩
      exact .inr ⟨_, σ', locals, rfl, hrun, hgrown'⟩
    | some op =>
      have hop := Reaches.slot hargs hslot
      have hverdict := hgrown.verifyOp_eq hcounted hop i
      simp only [hslot, Option.map_some] at hcopy
      simp only [Option.map_some]
      cases hfound : BeePhp.beeUpdateVerifyOp σ₀.heap (σ₀.zval op) i with
      | error msg =>
        obtain ⟨σ₁, hone, hgrown₁⟩ := hgrown.refused (hverdict.trans hfound)
        obtain ⟨σ₂, htwo, hgrown₂⟩ := hgrown₁.cleanup msg
        refine .inr ⟨msg, σ₂, locals, rfl, ?_, hgrown₂⟩
        simp only [hone, bind, Except.bind]
        exact htwo
      | ok vs =>
        simp only [hfound, List.mem_cons, forall_eq_or_imp] at hcopy
        obtain ⟨σ₁, σ₂, locals', hone, hinsert, hgrown₂, hrow₂⟩ :=
          hgrown.copied hrow (by omega) (hverdict.trans hfound) ((verifyOp_assigns hfound).trans hcopy.1)
        simp only [hone, bind, Except.bind, hinsert]
        rcases ih hgrown₂ hrow₂ (by omega) hcopy.2 with
          ⟨vss, σ', hvalues, hrun⟩ | ⟨msg, σ', locals'', hvalues, hrun, hgrown'⟩
        · exact .inl ⟨vs :: vss, σ', by rw [hvalues]; rfl, hrun⟩
        · exact .inr ⟨msg, σ', locals'', by rw [hvalues], hrun, hgrown'⟩

end Loop

/-! ## An argument that is put into a list -/

/-- The key of the argument of an operation. -/
def argKey : Key := .str (ascii "arg")

/-- The argument of an operation has been put into a list: it is a reference, which is not separated
again, and counts fewer places than hold it. -/
structure Moved (roots : List Nat) (args i op id : Nat) (σ : Store) : Prop where
  element : σ.slot args (.idx (UInt64.ofNat i)) = some op
  argument : σ.slot op argKey = some id
  short : ∃ c, σ.get id = some c ∧ c.isRef = true ∧ 1 ≤ c.refcount ∧ c.refcount < σ.places roots id

/-- The slots that lead from the arguments to that zval. -/
def pathTo (args i op id : Nat) : List (Nat × Key × Nat) :=
  [(args, .idx (UInt64.ofNat i), op), (op, argKey, id)]

section Moved

variable {roots : List Nat} {args i op id : Nat}

theorem Moved.undercounted {σ : Store} (h : Moved roots args i op id σ) :
    Undercounted roots (pathTo args i op id) id σ [] := by
  refine ⟨by simp, fun s hs => .inr ?_, .inr ?_⟩
  · obtain rfl | rfl : s = _ ∨ s = _ := by simpa [pathTo] using hs
    · exact h.element
    · exact h.argument
  · obtain ⟨c, hget, -, hone, hlt⟩ := h.short
    exact ⟨c, hget, hone, hlt⟩

theorem slot_alloc {σ : Store} {x y : Nat} {k : Key} (h : σ.slot x k = some y) (c : ZCell) :
    (σ.alloc c).slot x k = some y := by
  obtain ⟨cx, hget⟩ := get_of_slot h
  rw [slot_congr hget (get_alloc hget c) rfl, h]

theorem Moved.alloc {σ : Store} (h : Moved roots args i op id σ) (c : ZCell) :
    Moved roots args i op id (σ.alloc c) := by
  refine ⟨slot_alloc h.element c, slot_alloc h.argument c, ?_⟩
  obtain ⟨cid, hget, href, hone, hlt⟩ := h.short
  refine ⟨cid, get_alloc hget c, href, hone, ?_⟩
  simp only [places, slots_alloc, List.count_append] at hlt ⊢
  omega

theorem Moved.insert {σ σ' : Store} (h : Moved roots args i op id σ) {arr x : Nat}
    (hinsert : σ.addNextIndexZval arr x = some σ') : Moved roots args i op id σ' := by
  refine ⟨addNextIndexZval_slot hinsert h.element, addNextIndexZval_slot hinsert h.argument, ?_⟩
  obtain ⟨c, hget, href, hone, hlt⟩ := h.short
  obtain ⟨c', hget', hrc, href', -⟩ := addNextIndexZval_get hinsert hget
  refine ⟨c', hget', href'.trans href, hrc ▸ hone, ?_⟩
  simp only [places, addNextIndexZval_count hinsert, hrc] at hlt ⊢
  omega

theorem Moved.addNextIndex {σ : Store} (h : Moved roots args i op id σ) (arr : Nat) (v : ZValue) :
    Moved roots args i op id (σ.addNextIndex arr v) := by
  have hnew := h.alloc ⟨1, false, v⟩
  unfold Store.addNextIndex
  cases hinsert : (σ.alloc ⟨1, false, v⟩).addNextIndexZval arr σ.next with
  | none => exact hnew
  | some σ' => exact hnew.insert hinsert

theorem Moved.addScalars {σ : Store} (h : Moved roots args i op id σ) (arr : Nat) (vs : List Zval) :
    Moved roots args i op id (σ.addScalars arr vs) := by
  induction vs generalizing σ with
  | nil => exact h
  | cons v vs ih => exact ih (h.addNextIndex arr (.scalar v))

/-- Another argument, or the same, is put into a list. -/
theorem Moved.separate {σ σ' : Store} (h : Moved roots args i op id σ) {arr x : Nat}
    (hrun : σ.separateToMakeIsRef arr argKey = .ok (σ', x)) : Moved roots args i op id σ' := by
  obtain ⟨y, c, hslot, hy, hcase⟩ := separate_cases hrun
  obtain ⟨cid, hget, href, hone, hlt⟩ := h.short
  rcases hcase with ⟨-, rfl, -⟩ | ⟨hfalse, -, rfl, -⟩ | ⟨hfalse, -, -, hcopied⟩
  · exact h
  · have hne : id ≠ y := by
      rintro rfl
      cases hget.symm.trans hy
      simp [href] at hfalse
    have hkeep := slot_set_same hy { c with isRef := true } rfl
    refine ⟨(hkeep _ _).trans h.element, (hkeep _ _).trans h.argument, cid,
      (get_set_ne σ hne _).trans hget, href, hone, ?_⟩
    simpa only [places, count_slots_set_same hy { c with isRef := true } rfl] using hlt
  · have hne : id ≠ y := by
      rintro rfl
      cases hget.symm.trans hy
      simp [href] at hfalse
    have harr : ¬ (op = arr ∧ argKey = argKey) := by
      rintro ⟨rfl, -⟩
      exact hne (Option.some.inj (h.argument.symm.trans hslot))
    obtain ⟨c', n, hget', href', hrc, hcount, -⟩ := hcopied.kept hne hget
    refine ⟨hcopied.other (by simp [argKey]) h.element, hcopied.other harr h.argument, c', hget',
      href'.trans href, by omega, ?_⟩
    simp only [places, hcount, hrc] at hlt ⊢
    omega

/-- An operation that is verified after it. -/
theorem Moved.verifyOp {σ σ' : Store} (h : Moved roots args i op id σ) {op' : Nat} {position : Int}
    {verdict : Except Message Nat} (hrun : σ.beeUpdateVerifyOp op' position = .ok (σ', verdict)) :
    Undercounted roots (pathTo args i op id) id σ' [] ∧
      ∀ arr, verdict = .ok arr → Moved roots args i op id σ' := by
  unfold Store.beeUpdateVerifyOp at hrun
  have hlist := h.alloc ⟨1, false, .arr .empty⟩
  cases hverdict : BeePhp.beeUpdateVerifyOp σ.heap (σ.zval op') position with
  | error msg =>
    simp only [hverdict] at hrun
    by_cases hmap : σ.isMap op' = true
    · rw [if_pos hmap] at hrun
      obtain ⟨σ₁, hdtor, hok⟩ := except_bind_eq_ok.mp hrun
      cases hok
      exact ⟨hlist.undercounted.zvalPtrDtor hdtor, by simp⟩
    · rw [if_neg hmap] at hrun
      cases hrun
      exact ⟨h.undercounted, by simp⟩
  | ok vs =>
    simp only [hverdict] at hrun
    have hmoved : Moved roots args i op id σ' := by
      by_cases hcopy : byReference vs = true
      · rw [if_pos hcopy] at hrun
        obtain ⟨⟨σ₁, arg⟩, hsep, hok⟩ := except_bind_eq_ok.mp hrun
        cases hok
        have hsep := (hlist.addScalars σ.next (vs.take 2)).separate hsep
        cases hinsert : σ₁.addNextIndexZval σ.next arg with
        | none => exact hsep
        | some σ₂ => exact hsep.insert hinsert
      · rw [if_neg hcopy] at hrun
        cases hrun
        exact hlist.addScalars σ.next vs
    exact ⟨hmoved.undercounted, fun _ _ => hmoved⟩

theorem Undercounted.cleanup {σ σ' : Store} {path : List (Nat × Key × Nat)}
    (h : Undercounted roots path id σ []) {arr : Nat} {msg : Message} {verdict : Except Message Nat}
    (hrun : σ.cleanup arr msg = .ok (σ', verdict)) : Undercounted roots path id σ' [] := by
  obtain ⟨σ₁, hdtor, hok⟩ := except_bind_eq_ok.mp hrun
  cases hok
  exact h.zvalPtrDtor hdtor

/-- The zval still counts too few places when the call returns `NULL`. -/
theorem Moved.verifyOps {n j arr : Nat} {σ σ' : Store} {msg : Message}
    (h : Moved roots args i op id σ) (hrun : Store.verifyOps args arr n j σ = .ok (σ', .error msg)) :
    Undercounted roots (pathTo args i op id) id σ' [] := by
  induction n generalizing j σ with
  | zero => cases hrun
  | succ n ih =>
    rw [Store.verifyOps] at hrun
    cases hslot : σ.slot args (.idx (UInt64.ofNat j)) with
    | none =>
      simp only [hslot] at hrun
      exact h.undercounted.cleanup hrun
    | some op' =>
      simp only [hslot] at hrun
      obtain ⟨⟨σ₁, verdict⟩, hone, hrest⟩ := except_bind_eq_ok.mp hrun
      obtain ⟨hunder, hmoved⟩ := h.verifyOp hone
      cases verdict with
      | error msg' => exact hunder.cleanup hrest
      | ok opArr =>
        dsimp only at hrest
        cases hinsert : σ₁.addNextIndexZval arr opArr with
        | some σ₂ =>
          simp only [hinsert] at hrest
          exact ih ((hmoved opArr rfl).insert hinsert) hrest
        | none =>
          simp only [hinsert] at hrest
          obtain ⟨σ₂, hdtor, hcleanup⟩ := except_bind_eq_ok.mp hrest
          exact (hunder.zvalPtrDtor hdtor).cleanup hcleanup

end Moved

/-! ## The first argument that is put into a list -/

section Moving

variable {σ₀ : Store} {roots : List Nat} {args : Nat}

/-- The zval that is in the place of the argument after the separation counts at least the places
that it had before it is put into the list. -/
theorem first_separate (hcounted : σ₀.Counted roots args) {σ σ' : Store} {locals : List Nat}
    (hgrown : Grown σ₀ σ [] locals) {i op x : Nat}
    (hop : σ₀.slot args (.idx (UInt64.ofNat i)) = some op)
    (hrun : σ.separateToMakeIsRef op argKey = .ok (σ', x)) :
    σ'.slot args (.idx (UInt64.ofNat i)) = some op ∧ σ'.slot op argKey = some x ∧
      ∃ c, σ'.get x = some c ∧ c.isRef = true ∧ 1 ≤ c.refcount ∧ c.refcount ≤ σ'.places roots x := by
  have hargs : σ₀.Reaches args args := .refl
  have hreach := Reaches.slot hargs hop
  have hop' : σ.slot args (.idx (UInt64.ofNat i)) = some op := by
    rw [hgrown.slot_eq (hcounted.lt_next hargs), hop]
  obtain ⟨y, c, hslot, hy, hcase⟩ := separate_cases hrun
  have hslot₀ : σ₀.slot op argKey = some y := by
    rw [← hgrown.slot_eq (hcounted.lt_next hreach), hslot]
  have hreachy := Reaches.slot hreach hslot₀
  obtain ⟨c₀, hy₀, hrc⟩ := hcounted y hreachy
  rw [hgrown.old y (hcounted.lt_next hreachy), hy₀] at hy
  obtain rfl := Option.some.inj hy
  have hy : σ.get y = some c₀ := by rw [hgrown.old y (hcounted.lt_next hreachy), hy₀]
  have hpos := count_pos_of_held (mem_held_of_slot hslot₀)
  have hle := count_slots_le hgrown.le hgrown.old y
  rw [places] at hrc
  rcases hcase with ⟨href, rfl, rfl⟩ | ⟨-, -, rfl, rfl⟩ | ⟨-, -, rfl, hcopied⟩
  · refine ⟨hop', hslot, c₀, hy, href, by omega, ?_⟩
    rw [places]
    omega
  · have hkeep := slot_set_same hy { c₀ with isRef := true } rfl
    refine ⟨(hkeep _ _).trans hop', (hkeep _ _).trans hslot, _, get_set_self (lt_next hy) _, rfl, ?_, ?_⟩
    · simp only
      omega
    · simp only [places, count_slots_set_same hy { c₀ with isRef := true } rfl]
      omega
  · obtain ⟨c, n, hget, href, hone, hcount⟩ := hcopied.copy
    refine ⟨hcopied.other (by simp [argKey]) hop', hcopied.slot, c, hget, href, by omega, ?_⟩
    rw [places]
    omega

/-- The first operation that is `=` or `!`. -/
theorem first_move (hcounted : σ₀.Counted roots args) {σ σ' : Store} {locals : List Nat}
    (hgrown : Grown σ₀ σ [] locals) {i op : Nat} {vs : List Zval} {verdict : Except Message Nat}
    (hop : σ₀.slot args (.idx (UInt64.ofNat i)) = some op)
    (hverdict : BeePhp.beeUpdateVerifyOp σ.heap (σ.zval op) i = .ok vs) (href : byReference vs = true)
    (hrun : σ.beeUpdateVerifyOp op i = .ok (σ', verdict)) :
    verdict = .ok σ.next ∧ ∃ id, Moved roots args i op id σ' := by
  simp only [Store.beeUpdateVerifyOp, hverdict, href, if_true] at hrun
  obtain ⟨⟨σ₁, x⟩, hsep, hok⟩ := except_bind_eq_ok.mp hrun
  cases hok
  refine ⟨rfl, x, ?_⟩
  have hle := hgrown.le
  obtain ⟨extra, hgrown₁⟩ := hgrown.allocArray.addScalars hle (vs.take 2)
  obtain ⟨helement, hargument, c, hget, hisRef, hone, hplaces⟩ :=
    first_separate hcounted hgrown₁ hop hsep
  have hargs : σ₀.Reaches args args := .refl
  have hreach := Reaches.slot hargs hop
  -- the list is none of the zvals that can be reached, so it still has room
  have hlength : (vs.take 2).length ≤ 2 := List.length_take_le 2 vs
  have hrow := (hasRow_new σ).addScalars (vs.take 2) (by omega)
  have hrow' := hrow.separate hsep (by have := hcounted.lt_next hreach; omega) fun y hslot => by
    rw [hgrown₁.slot_eq (hcounted.lt_next hreach)] at hslot
    have := hcounted.lt_next (Reaches.slot hreach hslot)
    omega
  obtain ⟨σ₂, hinsert, -⟩ := hrow'.insert (by omega) x
  rw [hinsert, Option.getD_some]
  obtain ⟨c', hget', hrc, hisRef', -⟩ := addNextIndexZval_get hinsert hget
  refine ⟨addNextIndexZval_slot hinsert helement, addNextIndexZval_slot hinsert hargument, c', hget',
    hisRef'.trans hisRef, by omega, ?_⟩
  rw [places, addNextIndexZval_count hinsert, List.count_singleton_self]
  rw [places] at hplaces
  omega

/-- If the call returns `NULL` after an operation that is `=` or `!`, a zval counts too few places. -/
theorem verifyOps_moved (hcounted : σ₀.Counted roots args) {n i arr : Nat} {σ σ' : Store}
    {locals : List Nat} {msg : Message} (hgrown : Grown σ₀ σ [] (arr :: locals))
    (hrow : HasRow σ arr i) (hn : i + n < 2 ^ 32)
    (hmoved : ∃ op ∈ acceptedOps σ₀.heap (σ₀.heap.table args) n i, assigns σ₀.heap op = true)
    (hrun : verifyOps args arr n i σ = .ok (σ', .error msg)) :
    ∃ j op id, Undercounted roots (pathTo args j op id) id σ' [] := by
  have hargs : σ₀.Reaches args args := .refl
  induction n generalizing i σ locals with
  | zero => cases hrun
  | succ n ih =>
    rw [acceptedOps, zendHashIndexFind_heap] at hmoved
    rw [verifyOps, hgrown.slot_eq (hcounted.lt_next hargs)] at hrun
    cases hslot : σ₀.slot args (.idx (UInt64.ofNat i)) with
    | none => simp [hslot] at hmoved
    | some op =>
      have hop := Reaches.slot hargs hslot
      have hverdict := hgrown.verifyOp_eq hcounted hop i
      simp only [hslot, Option.map_some] at hmoved hrun
      cases hfound : BeePhp.beeUpdateVerifyOp σ₀.heap (σ₀.zval op) i with
      | error msg => simp [hfound] at hmoved
      | ok vs =>
        simp only [hfound, List.mem_cons, exists_eq_or_imp] at hmoved
        rw [← verifyOp_assigns hfound] at hmoved
        by_cases href : byReference vs = true
        · -- this is the first one
          obtain ⟨⟨σ₁, verdict⟩, hone, hrest⟩ := except_bind_eq_ok.mp hrun
          obtain ⟨rfl, id, hid⟩ := first_move hcounted hgrown hslot (hverdict.trans hfound) href hone
          refine ⟨i, op, id, ?_⟩
          dsimp only at hrest
          cases hinsert : σ₁.addNextIndexZval arr σ.next with
          | some σ₂ =>
            simp only [hinsert] at hrest
            exact (hid.insert hinsert).verifyOps hrest
          | none =>
            simp only [hinsert] at hrest
            obtain ⟨σ₂, hdtor, hcleanup⟩ := except_bind_eq_ok.mp hrest
            exact (hid.undercounted.zvalPtrDtor hdtor).cleanup hcleanup
        · have hlater := hmoved.resolve_left href
          have hcopy : byReference vs = false := Bool.not_eq_true _ ▸ href
          obtain ⟨σ₁, σ₂, locals', hone, hinsert, hgrown₂, hrow₂⟩ :=
            hgrown.copied hrow (by omega) (hverdict.trans hfound) hcopy
          simp only [hone, bind, Except.bind, hinsert] at hrun
          exact ih hgrown₂ hrow₂ (by omega) hlater hrun

end Moving

/-! ## What is left of the arguments -/

section Intact

variable {σ σ' : Store} {roots : List Nat} {args : Nat}

/-- The path to a zval that counts too few places ends at it, or before it at one that is gone. -/
theorem Undercounted.not_intact {i op id : Nat}
    (h : Undercounted roots (pathTo args i op id) id σ' []) : ¬ Intact roots σ σ' args := by
  intro hintact
  have halive {x : Nat} (hx : σ'.Reaches args x) : ¬ σ'.Gone [] x := by
    obtain ⟨-, c', -, hget, -⟩ := hintact x hx
    rintro (hnone | hmem)
    · rw [hget] at hnone
      cases hnone
    · cases hmem
  have hargs : σ'.Reaches args args := .refl
  have helement := (h.filled _ List.mem_cons_self).resolve_left (halive hargs)
  have hop := Reaches.slot hargs helement
  have hargument := (h.filled (op, argKey, id) (by simp [pathTo])).resolve_left (halive hop)
  have hid := Reaches.slot hop hargument
  obtain ⟨-, c', -, hget', hrc, -⟩ := hintact id hid
  rcases h.short with hgone | ⟨c, hget, -, hlt⟩
  · exact halive hid hgone
  · cases hget.symm.trans hget'
    simp only [List.count_nil] at hlt
    omega

/-- What can be reached from the arguments when only new zvals were released could be reached
before. -/
theorem Grown.reaches {locals : List Nat} (h : Grown σ σ' [] locals) (hcounted : σ.Counted roots args)
    {x : Nat} (hx : σ'.Reaches args x) : σ.Reaches args x := by
  induction hx with
  | refl => exact .refl
  | tail _ hy ih =>
    rw [h.old _ (hcounted.lt_next ih)] at hy
    exact ih.tail hy

theorem Grown.intact {locals : List Nat} (h : Grown σ σ' [] locals) (hcounted : σ.Counted roots args) :
    Intact roots σ σ' args := by
  intro x hx
  obtain ⟨c, hget, hrc⟩ := hcounted x (h.reaches hcounted hx)
  have hlt := Store.lt_next hget
  refine ⟨c, c, hget, (h.old x hlt).trans hget, ?_, rfl⟩
  have hlocal : locals.count x = 0 := by
    refine List.count_eq_zero.mpr fun hmem => ?_
    have := h.new_locals x hmem
    omega
  have hslots := h.counted x
  rw [if_pos hlt, hlocal, List.count_nil] at hslots
  rw [hrc, places, places]
  omega

/-- A value that is no array has no operations. -/
theorem accepted_of_not_arr (h : ∀ id, σ.zval args ≠ .arr id) : σ.accepted args = [] := by
  have htable : (σ.heap.table args).entries = [] := by
    cases hget : σ.get args with
    | none => simp [heap_table, ZTable.read, table, hget, ZTable.empty, Table.empty]
    | some c =>
      obtain ⟨refcount, isRef, value⟩ := c
      cases value with
      | arr t => exact absurd (by simp [zval, hget, ZValue.zval]) (h args)
      | _ => simp [heap_table, ZTable.read, table, hget, ZValue.table, ZTable.empty, Table.empty]
  rw [accepted, zendHashNumElements, htable]
  simp [acceptedOps]

/-- What is no list is refused as it is, and a list is gone through. -/
theorem verifyArgs_cases (σ : Store) (args : Nat) :
    (∃ msg, σ.beeUpdateVerifyArgs args = .ok (σ, .error msg) ∧ σ.accepted args = [] ∧
      BeePhp.beeUpdateVerifyArgs σ.heap (σ.zval args) = .error msg) ∨
    ∃ n < 2 ^ 32, σ.beeUpdateVerifyArgs args = verifyOps args σ.next n 0 σ.allocArray ∧
      σ.accepted args = acceptedOps σ.heap (σ.heap.table args) n 0 ∧
      BeePhp.beeUpdateVerifyArgs σ.heap (σ.zval args) =
        (BeePhp.verifyOps σ.heap (σ.heap.table args) n 0).map fun vss =>
          (σ.heap.allocAll vss).1.alloc (σ.heap.allocAll vss).2 := by
  by_cases harr : ∃ id, σ.zval args = .arr id
  · obtain ⟨id, hid⟩ := harr
    obtain rfl := zval_arr hid
    by_cases hmap : phpMpIsHash (σ.heap.table id) = true
    · refine .inl ⟨⟨"Provided value for update OPS must be Array", []⟩, ?_, ?_, ?_⟩
      · simp only [beeUpdateVerifyArgs, hid, hmap, if_true]
      · simp only [accepted, isMap, hid, hmap, if_true]
      · simp only [BeePhp.beeUpdateVerifyArgs, hid, hmap, if_true]
    · refine .inr ⟨_, (σ.heap.table id).count_lt, ?_, ?_, ?_⟩
      · simp only [beeUpdateVerifyArgs, hid, if_neg hmap]
        rfl
      · simp only [accepted, isMap, hid, if_neg hmap]
        rfl
      · simp only [BeePhp.beeUpdateVerifyArgs, hid, if_neg hmap]
        rfl
  · have harr : ∀ id, σ.zval args ≠ .arr id := not_exists.mp harr
    refine .inl ⟨⟨"Provided value for update OPS must be Array", []⟩, ?_, accepted_of_not_arr harr, ?_⟩
    · unfold beeUpdateVerifyArgs
      split
      case h_1 id hid => exact absurd hid (harr id)
      case h_2 => rfl
    · unfold BeePhp.beeUpdateVerifyArgs
      split
      case h_1 id hid => exact absurd hid (harr id)
      case h_2 => rfl

/-- If none of the operations that are accepted is `=` or `!`, the call returns what the verification of
the values does, and `NULL` leaves the arguments intact. -/
theorem verifyArgs_copied (hcounted : σ.Counted roots args)
    (hcopy : ∀ op ∈ σ.accepted args, assigns σ.heap op = false) :
    (∃ σ' arr r, σ.beeUpdateVerifyArgs args = .ok (σ', .ok arr) ∧
      BeePhp.beeUpdateVerifyArgs σ.heap (σ.zval args) = .ok r) ∨
    ∃ σ' msg, σ.beeUpdateVerifyArgs args = .ok (σ', .error msg) ∧
      BeePhp.beeUpdateVerifyArgs σ.heap (σ.zval args) = .error msg ∧ Intact roots σ σ' args := by
  have hnone : Grown σ σ [] [] := .refl σ
  rcases verifyArgs_cases σ args with ⟨msg, hrun, -, hvalue⟩ | ⟨n, hn, hrun, haccepted, hvalue⟩
  · exact .inr ⟨σ, msg, hrun, hvalue, hnone.intact hcounted⟩
  · rw [haccepted] at hcopy
    rw [hrun, hvalue]
    rcases verifyOps_grown hcounted hnone.allocArray (hasRow_new σ) (by omega) hcopy with
      ⟨vss, σ', hvalues, hlist⟩ | ⟨msg, σ', locals, hvalues, hnull, hgrown⟩
    · exact .inl ⟨σ', σ.next, _, hlist, by rw [hvalues]; rfl⟩
    · exact .inr ⟨σ', msg, hnull, by rw [hvalues]; rfl, hgrown.intact hcounted⟩

/-- `NULL` after an operation that is `=` or `!`. -/
theorem verifyArgs_moved (hcounted : σ.Counted roots args) {msg : Message}
    (hmoved : ∃ op ∈ σ.accepted args, assigns σ.heap op = true)
    (hrun : σ.beeUpdateVerifyArgs args = .ok (σ', .error msg)) : ¬ Intact roots σ σ' args := by
  have hnone : Grown σ σ [] [] := .refl σ
  rcases verifyArgs_cases σ args with ⟨-, -, haccepted, -⟩ | ⟨n, hn, hloop, haccepted, -⟩
  · simp [haccepted] at hmoved
  · rw [haccepted] at hmoved
    obtain ⟨j, op, id, hunder⟩ := verifyOps_moved hcounted hnone.allocArray (hasRow_new σ) (by omega)
      hmoved (hloop.symm.trans hrun)
    exact hunder.not_intact

/-- When `bee_update_verify_args` returns no list, it returns `NULL` and leaves what can be reached from
the arguments intact exactly if none of the operations that it accepted is `=` or `!`. -/
theorem leavesIntact_iff (hcounted : σ.Counted roots args)
    (hnull : ∀ σ' arr, σ.beeUpdateVerifyArgs args ≠ .ok (σ', .ok arr)) :
    σ.LeavesIntact roots args ↔ ∀ op ∈ σ.accepted args, assigns σ.heap op = false := by
  constructor
  · rintro ⟨σ', msg, hrun, hintact⟩ op hop
    by_contra hassign
    exact verifyArgs_moved hcounted ⟨op, hop, Bool.not_eq_false _ ▸ hassign⟩ hrun hintact
  · intro hcopy
    rcases verifyArgs_copied hcounted hcopy with ⟨σ', arr, -, hlist, -⟩ | ⟨σ', msg, hrun, -, hintact⟩
    · exact absurd hlist (hnull σ' arr)
    · exact ⟨σ', msg, hrun, hintact⟩

end Intact

/-! ## Two operations -/

/-- If what is reached from a zval counts its places right everywhere in the store, it does so there. -/
theorem counted_of_cells {σ : Store} {roots : List Nat} {args : Nat} (hargs : args < σ.next)
    (hclosed : ∀ x < σ.next, ∀ y ∈ held (σ.get x), y < σ.next)
    (hcells : ∀ x < σ.next, (σ.get x).map ZCell.refcount = some (σ.places roots x)) :
    σ.Counted roots args := by
  intro x hx
  have hlt : x < σ.next := by
    induction hx with
    | refl => exact hargs
    | tail _ hy ih => exact hclosed _ ih _ hy
  obtain ⟨c, hget, hrc⟩ := Option.map_eq_some_iff.mp (hcells x hlt)
  exact ⟨c, hget, hrc⟩

/-- The table of an operation with an argument, whose parts are three zvals in a row. -/
def opTable (id : Nat) : ZTable where
  entries := [(.str (ascii "op"), id), (.str (ascii "field"), id + 1), (.str (ascii "arg"), id + 2)]
  nNextFreeElement := 0
  nodup := by simp [keys, ascii]
  count_lt := (by decide : 3 < 2 ^ 32)
  key_small := by simp [keys, ascii]

def pairTable (x y : Nat) : ZTable where
  entries := [(.idx 0, x), (.idx 1, y)]
  nNextFreeElement := 2
  nodup := by simp [keys]
  count_lt := (by decide : 2 < 2 ^ 32)
  key_small := by simp [keys]

/-- The arguments `[{op: op, field: 1, arg: 5}, 42]`. -/
def opThenLong (op : UInt8) : Store where
  cells := [.arr (pairTable 1 5), .arr (opTable 2), .str (.char op), .long 1, .long 5, .long 42].map
    fun v => some ⟨1, false, v⟩

theorem opThenLong_counted :
    (opThenLong 0x2b).Counted [0] 0 ∧ (opThenLong 0x3d).Counted [0] 0 :=
  ⟨counted_of_cells (by decide) (by decide) (by decide),
    counted_of_cells (by decide) (by decide) (by decide)⟩

/-- What is seen of a store after `NULL`. -/
theorem null_of_toOption {α : Type} (f : Store → α) {run : Except Fault (Store × Except Message Nat)}
    {a : α} (h : run.toOption.map (fun r => (r.2.toOption, f r.1)) = some (none, a)) :
    ∃ σ' msg, run = .ok (σ', .error msg) ∧ f σ' = a := by
  cases run with
  | error fault => cases h
  | ok r =>
    obtain ⟨σ', verdict⟩ := r
    cases verdict with
    | ok arr => cases h
    | error msg =>
      cases h
      exact ⟨σ', msg, rfl, rfl⟩

/-- `+` before the element that fails is harmless, and `=` is not. -/
theorem opThenLong_leavesIntact :
    (opThenLong 0x2b).LeavesIntact [0] 0 ∧ ¬ (opThenLong 0x3d).LeavesIntact [0] 0 := by
  obtain ⟨hplus, hassign⟩ := opThenLong_counted
  have hnull (op : UInt8) (h : ((opThenLong op).beeUpdateVerifyArgs 0).toOption.map
      (fun r => (r.2.toOption, r.1.slot 0 (.idx 0))) = some (none, some 1)) (σ' : Store) (arr : Nat) :
      (opThenLong op).beeUpdateVerifyArgs 0 ≠ .ok (σ', .ok arr) := by
    obtain ⟨σ₁, msg, hrun, -⟩ := null_of_toOption (fun σ' => σ'.slot 0 (.idx 0)) h
    rw [hrun]
    simp
  have hplus' := leavesIntact_iff hplus (hnull 0x2b (by decide +kernel))
  have hassign' := leavesIntact_iff hassign (hnull 0x3d (by decide +kernel))
  rw [hplus', hassign']
  decide +kernel

/-- The argument 5 of `=` has been freed, and the operation still holds it. -/
theorem opThenLong_assign :
    (opThenLong 0x3d).Counted [0] 0 ∧
      ∃ σ' msg, (opThenLong 0x3d).beeUpdateVerifyArgs 0 = .ok (σ', .error msg) ∧
        σ'.Reaches 0 4 ∧ σ'.get 4 = none ∧ ¬ Intact [0] (opThenLong 0x3d) σ' 0 := by
  have hseen : ((opThenLong 0x3d).beeUpdateVerifyArgs 0).toOption.map (fun r => (r.2.toOption,
      r.1.slot 0 (.idx 0), r.1.slot 1 argKey, (r.1.get 4).isNone)) =
      some (none, some 1, some 4, true) := by decide +kernel
  obtain ⟨σ', msg, hrun, hafter⟩ := null_of_toOption
    (fun σ' => (σ'.slot 0 (.idx 0), σ'.slot 1 argKey, (σ'.get 4).isNone)) hseen
  obtain ⟨hop, harg, hfreed⟩ : σ'.slot 0 (.idx 0) = some 1 ∧ σ'.slot 1 argKey = some 4 ∧
      (σ'.get 4).isNone = true := by simpa using hafter
  have hargs : σ'.Reaches 0 0 := .refl
  have hreach := Reaches.slot (Reaches.slot hargs hop) harg
  have hnone := Option.isNone_iff_eq_none.mp hfreed
  refine ⟨opThenLong_counted.2, σ', msg, hrun, hreach, hnone, fun hintact => ?_⟩
  obtain ⟨-, c', -, hget, -⟩ := hintact 4 hreach
  rw [hnone] at hget
  cases hget

end BeePhp.Store
