import BeePhp.Zend.Proofs.StoreProofs
import Mathlib.Data.List.Count

/-!
# Proofs: counting places

New zvals that count their places right are released without a trace (`Grown.zvalPtrDtor`). A zval that
counts too few places does not recover when zvals are released (`Undercounted.zvalPtrDtor`).
-/

namespace BeePhp.Store

open Codec

/-! ## A zval that counts too few places -/

section Undercounted

variable {roots : List Nat} {path : List (Nat × Key × Nat)} {id : Nat}

/-- Freeing a zval that holds nothing changes no places. -/
theorem count_slots_free {σ : Store} {y : Nat} (h : held (σ.get y) = []) (x : Nat) :
    (σ.set y none).slots.count x = σ.slots.count x := by
  by_cases hy : y < σ.next
  · have hcount := count_slots_set hy none x
    rw [h] at hcount
    exact hcount
  · simp only [set, List.set_eq_of_length_le (not_lt.mp hy)]

theorem get_set_none (σ : Store) (y : Nat) : (σ.set y none).get y = none := by
  by_cases hy : y < σ.next
  · exact get_set_self hy none
  · have hnone : σ.cells[y]? = none := List.getElem?_eq_none (not_lt.mp hy)
    simp [set, List.set_eq_of_length_le (not_lt.mp hy), get, hnone]

theorem count_ptrDtor (ids : List Nat) (x : Nat) :
    (ids.map Release.ptrDtor).count (.ptrDtor x) = ids.count x :=
  List.count_map_of_injective ids _ (fun _ _ h => Release.ptrDtor.inj h) x

/-- Places other than those of a zval that has changed are filled as they were. -/
theorem slot_set_ne (σ : Store) {x y : Nat} (h : x ≠ y) (c : Option ZCell) (k : Key) :
    (σ.set y c).slot x k = σ.slot x k := by
  simp only [slot, table, get_set_ne σ h]

theorem slot_set_same {σ : Store} {y : Nat} {c : ZCell} (hy : σ.get y = some c) (c' : ZCell)
    (hvalue : c'.value = c.value) (x : Nat) (k : Key) :
    (σ.set y (some c')).slot x k = σ.slot x k := by
  by_cases hne : x = y
  · rw [hne]
    exact slot_congr hy (get_set_self (lt_next hy) (some c')) hvalue k
  · exact slot_set_ne σ hne _ k

/-- One step of a release. -/
theorem Undercounted.step {σ σ' : Store} {w : Release} {work more : List Release}
    (h : Undercounted roots path id σ (w :: work)) (hstep : σ.releaseStep w = .ok (σ', more)) :
    Undercounted roots path id σ' (more ++ work) := by
  obtain ⟨hemptied, hfilled, hshort⟩ := h
  rcases releaseStep_cases hstep with ⟨y, rfl, rfl, rfl⟩ |
    ⟨y, c, rfl, hy, ⟨hzero, rfl, rfl⟩ | ⟨hpos, isRef, rfl, rfl⟩⟩
  · -- the zval is freed
    have hgone {x : Nat} (hx : σ.Gone (.free y :: work) x) : (σ.set y none).Gone work x := by
      by_cases hne : x = y
      · exact .inl (hne ▸ get_set_none σ y)
      · rcases hx with hx | hx
        · exact .inl ((get_set_ne σ hne none).trans hx)
        · exact .inr ((List.mem_cons.mp hx).resolve_left (by simpa using hne))
    refine ⟨fun x hx => ?_, fun s hs => ?_, ?_⟩
    · by_cases hne : x = y
      · rw [hne, get_set_none]
        rfl
      · rw [get_set_ne σ hne]
        exact hemptied x (List.mem_cons_of_mem _ hx)
    · by_cases hne : s.1 = y
      · exact .inl (.inl (hne ▸ get_set_none σ y))
      · rcases hfilled s hs with hs | hs
        · exact .inl (hgone hs)
        · exact .inr ((slot_set_ne σ hne none _).trans hs)
    · by_cases hne : id = y
      · exact .inl (.inl (hne ▸ get_set_none σ y))
      · rcases hshort with hid | ⟨c, hc, hone, hlt⟩
        · exact .inl (hgone hid)
        · have hcount := count_slots_free (hemptied y List.mem_cons_self) id
          refine .inr ⟨c, (get_set_ne σ hne none).trans hc, hone, ?_⟩
          simp only [places, hcount, List.nil_append]
          simpa [places] using hlt
  · -- it is emptied, and what it held is left to release
    have hgone {x : Nat} (hne : x ≠ y) (hx : σ.Gone (.ptrDtor y :: work) x) :
        (σ.set y (some ⟨0, c.isRef, c.value.destroyed⟩)).Gone
          (c.value.children.map .ptrDtor ++ [.free y] ++ work) x := by
      rcases hx with hx | hx
      · exact .inl ((get_set_ne σ hne _).trans hx)
      · have hmem : Release.free x ∈ work := (List.mem_cons.mp hx).resolve_left (by simp)
        exact .inr (List.mem_append_right _ hmem)
    have hfree : Release.free y ∈ c.value.children.map .ptrDtor ++ [.free y] ++ work :=
      List.mem_append_left _ (List.mem_append_right _ List.mem_cons_self)
    refine ⟨fun x hx => ?_, fun s hs => ?_, ?_⟩
    · by_cases hne : x = y
      · rw [hne, get_set_self (lt_next hy)]
        exact destroyed_children _
      · rw [get_set_ne σ hne]
        have hmem : Release.free x ∈ work := by simpa [hne] using hx
        exact hemptied x (List.mem_cons_of_mem _ hmem)
    · by_cases hne : s.1 = y
      · exact .inl (.inr (hne ▸ hfree))
      · rcases hfilled s hs with hs | hs
        · exact .inl (hgone hne hs)
        · exact .inr ((slot_set_ne σ hne _ _).trans hs)
    · by_cases hne : id = y
      · exact .inl (.inr (hne ▸ hfree))
      · rcases hshort with hid | ⟨cid, hcid, hone, hlt⟩
        · exact .inl (hgone hne hid)
        · have hcount := count_slots_set (lt_next hy) (some ⟨0, c.isRef, c.value.destroyed⟩) id
          rw [hy] at hcount
          simp only [held, Option.elim_some, destroyed_children, List.count_nil] at hcount
          have hwork : (Release.ptrDtor y :: work).count (.ptrDtor id) = work.count (.ptrDtor id) :=
            List.count_cons_of_ne (by simpa using Ne.symm hne)
          refine .inr ⟨cid, (get_set_ne σ hne _).trans hcid, hone, ?_⟩
          simp only [places, hwork, List.count_append, count_ptrDtor] at hlt ⊢
          omega
  · -- another place holds it
    have hgone {x : Nat} (hx : σ.Gone (.ptrDtor y :: work) x) :
        (σ.set y (some ⟨delref c.refcount, isRef, c.value⟩)).Gone ([] ++ work) x := by
      rcases hx with hx | hx
      · have hne : x ≠ y := by
          rintro rfl
          simp [hx] at hy
        exact .inl ((get_set_ne σ hne _).trans hx)
      · exact .inr ((List.mem_cons.mp hx).resolve_left (by simp))
    have hsame := count_slots_set_same hy ⟨delref c.refcount, isRef, c.value⟩ rfl
    refine ⟨fun x hx => ?_, fun s hs => ?_, ?_⟩
    · have hx := hemptied x (List.mem_cons_of_mem _ hx)
      by_cases hne : x = y
      · rw [hne, hy] at hx
        rw [hne, get_set_self (lt_next hy)]
        exact hx
      · rwa [get_set_ne σ hne]
    · rcases hfilled s hs with hs | hs
      · exact .inl (hgone hs)
      · exact .inr ((slot_set_same hy ⟨delref c.refcount, isRef, c.value⟩ rfl _ _).trans hs)
    · rcases hshort with hid | ⟨cid, hcid, hone, hlt⟩
      · exact .inl (hgone hid)
      · simp only [places, List.nil_append, hsame] at hlt ⊢
        by_cases hne : id = y
        · subst hne
          cases hy.symm.trans hcid
          have hdec : delref c.refcount = c.refcount - 1 := if_neg (by omega)
          rw [List.count_cons_self] at hlt
          exact .inr ⟨_, get_set_self (lt_next hy) _, by simp only; omega, by simp only; omega⟩
        · rw [List.count_cons_of_ne (by simpa using Ne.symm hne)] at hlt
          exact .inr ⟨cid, (get_set_ne σ hne _).trans hcid, hone, hlt⟩

/-- A release does not make up for it. -/
theorem Undercounted.zvalPtrDtor {σ σ' : Store} {y : Nat} (h : Undercounted roots path id σ [])
    (hrun : σ.zvalPtrDtor y = .ok σ') : Undercounted roots path id σ' [] := by
  refine release_keeps Undercounted.step ⟨?_, fun s hs => ?_, ?_⟩ hrun
  · intro x hx
    simp at hx
  · exact (h.filled s hs).imp_left fun hgone => .inl (hgone.resolve_right List.not_mem_nil)
  · rcases h.short with hid | ⟨c, hc, hone, hlt⟩
    · exact .inl (.inl (hid.resolve_right List.not_mem_nil))
    · exact .inr ⟨c, hc, hone, lt_of_lt_of_le hlt (by simp)⟩

end Undercounted

/-! ## New zvals -/

theorem get_of_le {σ : Store} {x : Nat} (h : σ.next ≤ x) : σ.get x = none := by
  have hnone : σ.cells[x]? = none := List.getElem?_eq_none h
  simp [get, hnone]

/-- The places of a store are there in one that has grown out of it. -/
theorem count_slots_le {σ₀ σ : Store} (hle : σ₀.next ≤ σ.next)
    (hold : ∀ x < σ₀.next, σ.get x = σ₀.get x) (x : Nat) :
    σ₀.slots.count x ≤ σ.slots.count x := by
  have htake : σ.cells.take σ₀.next = σ₀.cells := by
    refine List.ext_getElem? fun i => ?_
    by_cases hi : i < σ₀.next
    · have hlt : i < σ.cells.length := lt_of_lt_of_le hi hle
      have hlt₀ : i < σ₀.cells.length := hi
      have hsame := hold i hi
      simp only [get, List.getElem?_eq_getElem hlt, List.getElem?_eq_getElem hlt₀,
        Option.join_some] at hsame
      rw [List.getElem?_take_of_lt hi, List.getElem?_eq_getElem hlt, List.getElem?_eq_getElem hlt₀,
        hsame]
    · have hlength : σ₀.cells.length ≤ i := not_lt.mp hi
      rw [List.getElem?_take_eq_none (not_lt.mp hi), List.getElem?_eq_none hlength]
  have hslots : σ.slots = σ₀.slots ++ (σ.cells.drop σ₀.next).flatMap held := by
    rw [slots, slots, ← htake, ← List.flatMap_append]
    simp
  rw [hslots, List.count_append]
  exact Nat.le_add_right _ _

section Grown

variable {σ₀ : Store}

theorem Grown.refl (σ₀ : Store) : Grown σ₀ σ₀ [] [] where
  le := le_refl _
  old _ _ := rfl
  new_held x hx y hy := by simp [get_of_le hx, held] at hy
  new_work := by simp
  new_locals := by simp
  counted x := by
    by_cases hx : x < σ₀.next
    · simp [hx]
    · simp [hx, refcount, get_of_le (not_lt.mp hx)]
  freed := by simp

theorem refcount_eq {σ : Store} {x : Nat} {c : ZCell} (h : σ.get x = some c) :
    σ.refcount x = c.refcount := by
  simp [refcount, h]

theorem addNextIndexZval_refcount {σ σ' : Store} {arr id : Nat}
    (h : σ.addNextIndexZval arr id = some σ') (x : Nat) : σ'.refcount x = σ.refcount x := by
  cases hget : σ.get x with
  | none =>
    have hne : x ≠ arr := by
      rintro rfl
      obtain ⟨c, -, -, hc, -⟩ := addNextIndexZval_some h
      simp [hget] at hc
    simp [refcount, addNextIndexZval_get_ne h hne, hget]
  | some c =>
    obtain ⟨c', hc', hrc, -⟩ := addNextIndexZval_get h hget
    rw [refcount_eq hc', refcount_eq hget, hrc]

/-- A new zval without elements. -/
theorem Grown.alloc {σ : Store} {locals : List Nat} (h : Grown σ₀ σ [] locals) (isRef : Bool)
    {v : ZValue} (hv : v.children = []) :
    Grown σ₀ (σ.alloc ⟨1, isRef, v⟩) [] (σ.next :: locals) := by
  have hget {x : Nat} (hne : x ≠ σ.next) : (σ.alloc ⟨1, isRef, v⟩).get x = σ.get x := by
    by_cases hx : x < σ.next
    · exact get_alloc_of_lt hx _
    · rw [get_of_le (not_lt.mp hx), get_of_le (by rw [next_alloc]; omega)]
  have hslots : (σ.alloc ⟨1, isRef, v⟩).slots = σ.slots := by
    rw [slots_alloc, hv, List.append_nil]
  refine ⟨?_, fun x hx => ?_, fun x hx y hy => ?_, by simp, fun x hx => ?_, fun x => ?_, by simp⟩
  · rw [next_alloc]
    exact le_trans h.le (Nat.le_succ _)
  · have := h.le
    rw [hget (by omega), h.old x hx]
  · by_cases hne : x = σ.next
    · rw [hne, get_alloc_self] at hy
      simp [held, hv] at hy
    · rw [hget hne] at hy
      exact h.new_held x hx y hy
  · rcases List.mem_cons.mp hx with rfl | hx
    · exact h.le
    · exact h.new_locals x hx
  · have hcounted := h.counted x
    rw [hslots]
    by_cases hne : x = σ.next
    · have hnew : ¬ x < σ₀.next := by
        have := h.le
        omega
      have hzero : σ.refcount x = 0 := by simp [refcount, get_of_le (le_of_eq hne.symm)]
      have hone : (σ.alloc ⟨1, isRef, v⟩).refcount x = 1 := hne ▸ refcount_eq (get_alloc_self σ _)
      rw [if_neg hnew, hzero] at hcounted
      rw [if_neg hnew, hone, hne, List.count_cons_self]
      rw [hne] at hcounted
      omega
    · have hsame : (σ.alloc ⟨1, isRef, v⟩).refcount x = σ.refcount x := by
        simp only [refcount, hget hne]
      rw [hsame, List.count_cons_of_ne (Ne.symm hne)]
      exact hcounted

/-- Appending a new zval to a new array. -/
theorem Grown.insert {σ σ' : Store} {arr id : Nat} {locals : List Nat}
    (h : Grown σ₀ σ [] (id :: locals)) (harr : σ₀.next ≤ arr)
    (hinsert : σ.addNextIndexZval arr id = some σ') : Grown σ₀ σ' [] locals := by
  have hid : σ₀.next ≤ id := h.new_locals id List.mem_cons_self
  refine ⟨?_, fun x hx => ?_, fun x hx y hy => ?_, by simp, fun x hx => ?_, fun x => ?_, by simp⟩
  · rw [addNextIndexZval_next hinsert]
    exact h.le
  · rw [addNextIndexZval_get_ne hinsert (by omega), h.old x hx]
  · by_cases hne : x = arr
    · rw [hne, addNextIndexZval_held hinsert] at hy
      rcases List.mem_append.mp hy with hy | hy
      · exact h.new_held arr harr y hy
      · rwa [List.mem_singleton.mp hy]
    · rw [addNextIndexZval_get_ne hinsert hne] at hy
      exact h.new_held x hx y hy
  · exact h.new_locals x (List.mem_cons_of_mem _ hx)
  · have hcounted := h.counted x
    rw [count_cons_eq] at hcounted
    rw [addNextIndexZval_refcount hinsert, addNextIndexZval_count hinsert]
    omega

theorem Grown.perm {σ : Store} {locals locals' : List Nat} (h : Grown σ₀ σ [] locals)
    (hperm : locals.Perm locals') : Grown σ₀ σ [] locals' where
  le := h.le
  old := h.old
  new_held := h.new_held
  new_work := h.new_work
  new_locals x hx := h.new_locals x (hperm.mem_iff.mpr hx)
  counted x := by rw [← hperm.count_eq x, h.counted x]
  freed := h.freed

/-- A new zval whose release is still to be done is alive and counts that place. -/
theorem Grown.refcount_pos {σ : Store} {y : Nat} {work : List Release} {locals : List Nat}
    (h : Grown σ₀ σ (.ptrDtor y :: work) locals) : 0 < σ.refcount y := by
  have hle := count_slots_le h.le h.old y
  have hcounted := h.counted y
  have hnew : ¬ y < σ₀.next := not_lt.mpr (h.new_work _ List.mem_cons_self)
  rw [if_neg hnew, List.count_cons_self] at hcounted
  omega

/-- One step of a release. -/
theorem Grown.step {σ σ' : Store} {w : Release} {work more : List Release} {locals : List Nat}
    (h : Grown σ₀ σ (w :: work) locals) (hstep : σ.releaseStep w = .ok (σ', more)) :
    Grown σ₀ σ' (more ++ work) locals := by
  have hrest : ∀ w ∈ work, σ₀.next ≤ w.id := fun w hw => h.new_work w (List.mem_cons_of_mem _ hw)
  have hle (y : Nat) (c : Option ZCell) : σ₀.next ≤ (σ.set y c).next := by
    rw [next_set]
    exact h.le
  rcases releaseStep_cases hstep with ⟨y, rfl, rfl, rfl⟩ |
    ⟨y, c, rfl, hy, ⟨hzero, rfl, rfl⟩ | ⟨hpos, isRef, rfl, rfl⟩⟩
  · -- the zval is freed
    have hnew : σ₀.next ≤ y := h.new_work _ List.mem_cons_self
    obtain ⟨hrc, hheld⟩ := h.freed y List.mem_cons_self
    refine ⟨hle _ _, fun x hx => ?_, fun x hx z hz => ?_, hrest, h.new_locals, fun x => ?_,
      fun x hx => ?_⟩
    · rw [get_set_ne σ (by omega), h.old x hx]
    · by_cases hne : x = y
      · simp [hne, get_set_none, held] at hz
      · rw [get_set_ne σ hne] at hz
        exact h.new_held x hx z hz
    · have hcounted := h.counted x
      have hsame : (σ.set y none).refcount x = σ.refcount x := by
        by_cases hne : x = y
        · rw [hne, hrc, refcount, get_set_none]
          rfl
        · simp only [refcount, get_set_ne σ hne]
      rw [List.count_cons_of_ne (by simp)] at hcounted
      rwa [hsame, count_slots_free hheld, List.nil_append]
    · obtain ⟨hrc', hheld'⟩ := h.freed x (List.mem_cons_of_mem _ hx)
      by_cases hne : x = y
      · simp [hne, get_set_none, refcount, held]
      · simp only [refcount, get_set_ne σ hne]
        exact ⟨hrc', hheld'⟩
  · -- it is emptied, and what it held is left to release
    have hnew : σ₀.next ≤ y := h.new_work _ List.mem_cons_self
    have hone : c.refcount = 1 := by
      have hpos := h.refcount_pos
      rw [refcount_eq hy] at hpos
      rw [delref, if_neg (by omega)] at hzero
      omega
    have hself := get_set_self (lt_next hy) (some ⟨0, c.isRef, c.value.destroyed⟩)
    refine ⟨hle _ _, fun x hx => ?_, fun x hx z hz => ?_, fun w hw => ?_, h.new_locals, fun x => ?_,
      fun x hx => ?_⟩
    · rw [get_set_ne σ (by omega), h.old x hx]
    · by_cases hne : x = y
      · rw [hne, hself] at hz
        simp [held, destroyed_children] at hz
      · rw [get_set_ne σ hne] at hz
        exact h.new_held x hx z hz
    · rcases List.mem_append.mp hw with hw | hw
      · rcases List.mem_append.mp hw with hw | hw
        · obtain ⟨z, hz, rfl⟩ := List.mem_map.mp hw
          exact h.new_held y hnew z (by rwa [hy])
        · rw [List.mem_singleton.mp hw]
          exact hnew
      · exact hrest w hw
    · have hcounted := h.counted x
      have hcount := count_slots_set (lt_next hy) (some ⟨0, c.isRef, c.value.destroyed⟩) x
      rw [hy] at hcount
      simp only [held, Option.elim_some, destroyed_children, List.count_nil] at hcount
      have hfree : [Release.free y].count (.ptrDtor x) = 0 := by simp
      simp only [List.count_append, count_ptrDtor, hfree]
      by_cases hne : x = y
      · have hnot : ¬ x < σ₀.next := by omega
        subst hne
        rw [if_neg hnot, refcount_eq hy, hone, List.count_cons_self] at hcounted
        rw [if_neg hnot, refcount_eq hself]
        simp only
        omega
      · have hsame : (σ.set y (some ⟨0, c.isRef, c.value.destroyed⟩)).refcount x = σ.refcount x := by
          simp only [refcount, get_set_ne σ hne]
        rw [List.count_cons_of_ne (by simpa using Ne.symm hne)] at hcounted
        rw [hsame]
        omega
    · by_cases hne : x = y
      · rw [hne, hself, refcount_eq hself]
        exact ⟨rfl, destroyed_children _⟩
      · have hmem : Release.free x ∈ work := by simpa [hne] using hx
        simp only [refcount, get_set_ne σ hne]
        exact h.freed x (List.mem_cons_of_mem _ hmem)
  · -- another place holds it
    have hnew : σ₀.next ≤ y := h.new_work _ List.mem_cons_self
    have hdec : delref c.refcount + 1 = c.refcount := by
      have hpos := h.refcount_pos
      rw [refcount_eq hy] at hpos
      rw [delref, if_neg (by omega)]
      omega
    have hself := get_set_self (lt_next hy) (some ⟨delref c.refcount, isRef, c.value⟩)
    have hslots := count_slots_set_same hy ⟨delref c.refcount, isRef, c.value⟩ rfl
    refine ⟨hle _ _, fun x hx => ?_, fun x hx z hz => ?_, hrest, h.new_locals, fun x => ?_,
      fun x hx => ?_⟩
    · rw [get_set_ne σ (by omega), h.old x hx]
    · by_cases hne : x = y
      · rw [hne, hself] at hz
        exact h.new_held y hnew z (by rwa [hy])
      · rw [get_set_ne σ hne] at hz
        exact h.new_held x hx z hz
    · have hcounted := h.counted x
      rw [hslots, List.nil_append]
      by_cases hne : x = y
      · have hnot : ¬ x < σ₀.next := by omega
        subst hne
        rw [if_neg hnot, refcount_eq hy, List.count_cons_self] at hcounted
        rw [if_neg hnot, refcount_eq hself]
        simp only
        omega
      · rw [List.count_cons_of_ne (by simpa using Ne.symm hne)] at hcounted
        simp only [refcount, get_set_ne σ hne]
        exact hcounted
    · obtain ⟨hrc, hheld⟩ := h.freed x (List.mem_cons_of_mem _ hx)
      have hne : x ≠ y := by
        rintro rfl
        have hpos := h.refcount_pos
        omega
      simp only [refcount, get_set_ne σ hne]
      exact ⟨hrc, hheld⟩

/-- A new zval is released without a trace. -/
theorem Grown.zvalPtrDtor {σ : Store} {y : Nat} {locals : List Nat}
    (h : Grown σ₀ σ [] (y :: locals)) :
    ∃ σ', σ.zvalPtrDtor y = .ok σ' ∧ Grown σ₀ σ' [] locals := by
  have hstart : Grown σ₀ σ [.ptrDtor y] locals := by
    refine ⟨h.le, h.old, h.new_held, fun w hw => ?_, fun x hx => ?_, fun x => ?_, by simp⟩
    · rw [List.mem_singleton.mp hw]
      exact h.new_locals y List.mem_cons_self
    · exact h.new_locals x (List.mem_cons_of_mem _ hx)
    · have hcounted := h.counted x
      by_cases hne : x = y
      · subst hne
        rw [List.count_cons_self] at hcounted ⊢
        simp only [List.count_nil] at hcounted ⊢
        omega
      · rw [List.count_cons_of_ne (Ne.symm hne)] at hcounted
        rw [List.count_cons_of_ne (by simpa using Ne.symm hne)]
        exact hcounted
  refine release_total (I := fun σ work => Grown σ₀ σ work locals) (fun h => ?_) Grown.step hstart
    (by simp only [weight, List.map_cons, List.map_nil, List.sum_cons, List.sum_nil,
      Release.weight]; omega)
  rename_i σ w work
  cases w with
  | free id => exact ⟨_, rfl⟩
  | ptrDtor id =>
    have hpos := h.refcount_pos
    simp only [releaseStep]
    cases hget : σ.get id with
    | none => simp [refcount, hget] at hpos
    | some c =>
      dsimp only
      split
      · exact ⟨_, rfl⟩
      · exact ⟨_, rfl⟩

end Grown

end BeePhp.Store
