import BeePhp.Codec.Proofs.ReaderProofs
import BeePhp.Zend.Store

/-!
# Proofs: zvals with reference counts

What the macros do to the places that hold a zval. `zval_ptr_dtor` comes to an end (`release_total`), and
what every step of it keeps is kept by all of it (`release_keeps`).
-/

namespace BeePhp.Store

open Codec

/-! ## Cells -/

@[simp] theorem next_set (σ : Store) (id : Nat) (c : Option ZCell) : (σ.set id c).next = σ.next := by
  simp [next, set]

@[simp] theorem next_alloc (σ : Store) (c : ZCell) : (σ.alloc c).next = σ.next + 1 := by
  simp [next, alloc]

theorem get_set_self {σ : Store} {id : Nat} (h : id < σ.next) (c : Option ZCell) :
    (σ.set id c).get id = c := by
  have h' : id < σ.cells.length := h
  simp [get, set, h']

theorem get_set_ne (σ : Store) {id x : Nat} (h : x ≠ id) (c : Option ZCell) :
    (σ.set id c).get x = σ.get x := by
  simp [get, set, List.getElem?_set_ne h.symm]

theorem get_alloc_self (σ : Store) (c : ZCell) : (σ.alloc c).get σ.next = some c := by
  simp [get, alloc, next]

theorem get_alloc_of_lt {σ : Store} {x : Nat} (h : x < σ.next) (c : ZCell) :
    (σ.alloc c).get x = σ.get x := by
  have h' : x < σ.cells.length := h
  simp [get, alloc, List.getElem?_append_left h']

theorem lt_next {σ : Store} {id : Nat} {c : ZCell} (h : σ.get id = some c) : id < σ.next := by
  by_contra hge
  have hnone : σ.cells[id]? = none := List.getElem?_eq_none (not_lt.mp hge)
  simp [get, hnone] at h

theorem get_alloc {σ : Store} {id : Nat} {c : ZCell} (h : σ.get id = some c) (c' : ZCell) :
    (σ.alloc c').get id = some c := by
  rw [get_alloc_of_lt (lt_next h), h]

/-! ## Places -/

theorem children_arr (t : ZTable) : (ZValue.arr t).children = t.children := rfl

theorem children_eq (v : ZValue) : v.children = v.table.children := rfl

theorem slots_alloc (σ : Store) (c : ZCell) : (σ.alloc c).slots = σ.slots ++ c.value.children := by
  simp [slots, alloc, held]

/-- Another cell in the place of one: its places take the place of those of the old one. -/
theorem slots_set {σ : Store} {id : Nat} (h : id < σ.next) (c : Option ZCell) :
    ((σ.set id c).slots ++ held (σ.get id)).Perm (σ.slots ++ held c) := by
  have h' : id < σ.cells.length := h
  have hget : σ.get id = σ.cells[id] := by simp [get, h']
  obtain ⟨before, after, hcells, -, hset⟩ := @List.exists_of_set _ id c _ h'
  have hslots : σ.slots = before.flatMap held ++ (held σ.cells[id] ++ after.flatMap held) := by
    have hflat := congrArg (List.flatMap held) hcells
    rwa [List.flatMap_append, List.flatMap_cons] at hflat
  have hslots' : (σ.set id c).slots = before.flatMap held ++ (held c ++ after.flatMap held) := by
    rw [slots, set, hset, List.flatMap_append, List.flatMap_cons]
  rw [hslots, hslots', hget]
  refine List.perm_iff_count.mpr fun x => ?_
  simp only [List.count_append]
  omega

theorem count_slots_set {σ : Store} {id : Nat} (h : id < σ.next) (c : Option ZCell) (x : Nat) :
    (σ.set id c).slots.count x + (held (σ.get id)).count x = σ.slots.count x + (held c).count x := by
  have hcount := (slots_set h c).count_eq x
  rwa [List.count_append, List.count_append] at hcount

theorem length_slots_set {σ : Store} {id : Nat} (h : id < σ.next) (c : Option ZCell) :
    (σ.set id c).slots.length + (held (σ.get id)).length = σ.slots.length + (held c).length := by
  have hlength := (slots_set h c).length_eq
  rwa [List.length_append, List.length_append] at hlength

/-- A cell that holds the same zvals changes no places. -/
theorem count_slots_set_same {σ : Store} {id : Nat} {c : ZCell} (h : σ.get id = some c) (c' : ZCell)
    (hsame : c'.value.children = c.value.children) (x : Nat) :
    (σ.set id (some c')).slots.count x = σ.slots.count x := by
  have hcount := count_slots_set (lt_next h) (some c') x
  rw [h] at hcount
  simp only [held, Option.elim_some, hsame] at hcount
  omega

/-! ## Releasing -/

theorem destroyed_children (v : ZValue) : v.destroyed.children = [] := by
  cases v <;> rfl

/-- What a step of a release can do. -/
theorem releaseStep_cases {σ σ' : Store} {w : Release} {more : List Release}
    (h : σ.releaseStep w = .ok (σ', more)) :
    (∃ id, w = .free id ∧ σ' = σ.set id none ∧ more = []) ∨
      ∃ id c, w = .ptrDtor id ∧ σ.get id = some c ∧
        ((delref c.refcount = 0 ∧ σ' = σ.set id (some ⟨0, c.isRef, c.value.destroyed⟩) ∧
          more = c.value.children.map .ptrDtor ++ [.free id]) ∨
        (delref c.refcount ≠ 0 ∧ ∃ isRef,
          σ' = σ.set id (some ⟨delref c.refcount, isRef, c.value⟩) ∧ more = [])) := by
  cases w with
  | free id =>
    cases h
    exact .inl ⟨id, rfl, rfl, rfl⟩
  | ptrDtor id =>
    simp only [releaseStep] at h
    cases hget : σ.get id with
    | none => simp [hget] at h
    | some c =>
      simp only [hget] at h
      by_cases hzero : delref c.refcount = 0
      · rw [if_pos hzero] at h
        cases h
        exact .inr ⟨id, c, rfl, hget, .inl ⟨hzero, rfl, rfl⟩⟩
      · rw [if_neg hzero] at h
        cases h
        exact .inr ⟨id, c, rfl, hget, .inr ⟨hzero, _, rfl, rfl⟩⟩

/-- What every step keeps is kept by the release. -/
theorem release_keeps {I : Store → List Release → Prop}
    (hstep : ∀ {σ w work σ' more}, I σ (w :: work) → σ.releaseStep w = .ok (σ', more) →
      I σ' (more ++ work)) {fuel : Nat} {σ σ' : Store} {work : List Release} (hI : I σ work)
    (h : release fuel σ work = .ok σ') : I σ' [] := by
  induction fuel generalizing σ work with
  | zero =>
    cases work with
    | nil =>
      cases h
      exact hI
    | cons w work => cases h
  | succ fuel ih =>
    cases work with
    | nil =>
      cases h
      exact hI
    | cons w work =>
      obtain ⟨⟨σ₁, more⟩, hone, hrest⟩ := except_bind_eq_ok.mp h
      exact ih (hstep hI hone) hrest

/-- What is left to do, in steps: a zval that is released may still have to be freed. -/
def Release.weight : Release → Nat
  | .ptrDtor _ => 2
  | .free _ => 1

def weight (work : List Release) : Nat := (work.map Release.weight).sum

theorem weight_append (xs ys : List Release) : weight (xs ++ ys) = weight xs + weight ys := by
  simp [weight]

theorem weight_ptrDtor (ids : List Nat) : weight (ids.map .ptrDtor) = 2 * ids.length := by
  induction ids with
  | nil => rfl
  | cons id ids ih =>
    simp only [weight, List.map_cons, List.sum_cons, List.length_cons, Release.weight] at ih ⊢
    omega

/-- A step leaves less to do, or to be done when the zvals that are left are released. -/
theorem releaseStep_weight {σ σ' : Store} {w : Release} {more : List Release}
    (h : σ.releaseStep w = .ok (σ', more)) :
    weight more + 2 * σ'.slots.length < weight [w] + 2 * σ.slots.length := by
  rcases releaseStep_cases h with ⟨id, rfl, rfl, rfl⟩ | ⟨id, c, rfl, hget, hcase⟩
  · by_cases hid : id < σ.next
    · have hlength := length_slots_set hid none
      simp only [held, Option.elim_none, List.length_nil] at hlength
      simp only [weight, Release.weight, List.map_nil, List.map_cons, List.sum_nil, List.sum_cons]
      omega
    · have hsame : σ.set id none = σ := by
        simp only [set, List.set_eq_of_length_le (not_lt.mp hid)]
      rw [hsame]
      simp [weight, Release.weight]
  · have hlength := length_slots_set (lt_next hget) (c := some ⟨0, c.isRef, c.value.destroyed⟩)
    rcases hcase with ⟨-, rfl, rfl⟩ | ⟨-, isRef, rfl, rfl⟩
    · simp only [hget, held, Option.elim_some, destroyed_children, List.length_nil] at hlength
      rw [weight_append, weight_ptrDtor]
      simp only [weight, Release.weight, List.map_nil, List.map_cons, List.sum_nil, List.sum_cons]
      omega
    · have hsame := length_slots_set (lt_next hget) (some ⟨delref c.refcount, isRef, c.value⟩)
      simp only [hget, held, Option.elim_some] at hsame
      simp only [weight, Release.weight, List.map_nil, List.map_cons, List.sum_nil, List.sum_cons]
      omega

/-- A release whose steps are possible comes to an end. -/
theorem release_total {I : Store → List Release → Prop}
    (hprogress : ∀ {σ w work}, I σ (w :: work) → ∃ r, σ.releaseStep w = .ok r)
    (hstep : ∀ {σ w work σ' more}, I σ (w :: work) → σ.releaseStep w = .ok (σ', more) →
      I σ' (more ++ work)) {fuel : Nat} {σ : Store} {work : List Release} (hI : I σ work)
    (hfuel : weight work + 2 * σ.slots.length ≤ fuel) :
    ∃ σ', release fuel σ work = .ok σ' ∧ I σ' [] := by
  induction fuel generalizing σ work with
  | zero =>
    cases work with
    | nil => exact ⟨σ, rfl, hI⟩
    | cons w work =>
      simp only [weight, List.map_cons, List.sum_cons] at hfuel
      cases w <;> simp [Release.weight] at hfuel
  | succ fuel ih =>
    cases work with
    | nil => exact ⟨σ, rfl, hI⟩
    | cons w work =>
      obtain ⟨⟨σ₁, more⟩, hone⟩ := hprogress hI
      have hless := releaseStep_weight hone
      have hcons : weight (w :: work) = weight [w] + weight work := weight_append [w] work
      have hmore := weight_append more work
      obtain ⟨σ', hrun, hI'⟩ := ih (hstep hI hone) (by omega)
      refine ⟨σ', ?_, hI'⟩
      rw [release, hone]
      exact hrun

/-- The bound on the steps of `zval_ptr_dtor` is never reached. -/
theorem release_ne_fuel {fuel : Nat} {σ : Store} {work : List Release}
    (hfuel : weight work + 2 * σ.slots.length ≤ fuel) : release fuel σ work ≠ .error .fuel := by
  induction fuel generalizing σ work with
  | zero =>
    cases work with
    | nil => simp [release]
    | cons w work =>
      simp only [weight, List.map_cons, List.sum_cons] at hfuel
      cases w <;> simp [Release.weight] at hfuel
  | succ fuel ih =>
    cases work with
    | nil => simp [release]
    | cons w work =>
      rw [release]
      cases hone : σ.releaseStep w with
      | error f =>
        intro h
        cases w with
        | free id => cases hone
        | ptrDtor id =>
          cases h
          simp only [releaseStep] at hone
          cases hget : σ.get id with
          | none => simp [hget] at hone
          | some c =>
            simp only [hget] at hone
            split at hone <;> cases hone
      | ok r =>
        obtain ⟨σ₁, more⟩ := r
        have hless := releaseStep_weight hone
        have hcons : weight (w :: work) = weight [w] + weight work := weight_append [w] work
        have hmore := weight_append more work
        exact ih (by omega)

theorem zvalPtrDtor_ne_fuel (σ : Store) (id : Nat) : σ.zvalPtrDtor id ≠ .error .fuel :=
  release_ne_fuel (by simp [weight, Release.weight]; omega)

/-! ## Slots -/

theorem slot_eq {σ : Store} {id : Nat} {c : ZCell} (h : σ.get id = some c) (k : Key) :
    σ.slot id k = c.value.table.entries.lookup k := by
  simp [slot, table, h]

/-- A slot that is filled belongs to a zval that is alive. -/
theorem get_of_slot {σ : Store} {id x : Nat} {k : Key} (h : σ.slot id k = some x) :
    ∃ c, σ.get id = some c := by
  cases hget : σ.get id with
  | some c => exact ⟨c, rfl⟩
  | none => simp [slot, table, hget, ZTable.empty, Table.empty] at h

theorem slot_congr {σ σ' : Store} {id : Nat} {c c' : ZCell} (h : σ.get id = some c)
    (h' : σ'.get id = some c') (hvalue : c'.value = c.value) (k : Key) :
    σ'.slot id k = σ.slot id k := by
  rw [slot_eq h, slot_eq h', hvalue]

/-- What a slot holds is among what its zval holds. -/
theorem mem_held_of_slot {σ : Store} {id x : Nat} {k : Key} (h : σ.slot id k = some x) :
    x ∈ held (σ.get id) := by
  obtain ⟨c, hget⟩ := get_of_slot h
  rw [slot_eq hget] at h
  rw [hget]
  exact List.mem_map.mpr ⟨(k, x), (mem_iff_lookup c.value.table.nodup).mpr h, rfl⟩

/-- A zval in a slot has a place. -/
theorem count_pos_of_held {σ : Store} {id x : Nat} (h : x ∈ held (σ.get id)) :
    0 < σ.slots.count x := by
  have hne : σ.get id ≠ none := by
    rintro hnone
    simp [hnone, held] at h
  obtain ⟨c, hget⟩ := Option.ne_none_iff_exists'.mp hne
  have hmem : some c ∈ σ.cells := List.mem_of_getElem? (Option.join_eq_some_iff.mp hget)
  rw [hget] at h
  exact List.count_pos_iff.mpr (List.mem_flatMap.mpr ⟨_, hmem, h⟩)

/-! ## Tables -/

/-- Another zval under a key takes the place of the one that was there. -/
theorem enter_children {l : List (Key × Nat)} {k : Key} {x : Nat} (hx : l.lookup k = some x)
    (id : Nat) : (x :: (enter k id l).map Prod.snd).Perm (id :: l.map Prod.snd) := by
  induction l with
  | nil => cases hx
  | cons e l ih =>
    obtain ⟨k₀, x₀⟩ := e
    rw [lookup_cons_ite] at hx
    by_cases hk : k = k₀
    · rw [if_pos hk] at hx
      cases hx
      simp only [enter, if_pos hk.symm, List.map_cons]
      exact List.Perm.swap _ _ _
    · rw [if_neg hk] at hx
      have hswap := List.Perm.swap x₀ x ((enter k id l).map Prod.snd)
      simp only [enter, if_neg (Ne.symm hk), List.map_cons]
      exact (hswap.trans ((ih hx).cons x₀)).trans (List.Perm.swap _ _ _)

theorem mem_keys_of_lookup {t : ZTable} {k : Key} {x : Nat} (h : t.entries.lookup k = some x) :
    k ∈ keys t.entries := by
  rw [← lookup_isSome, h]
  rfl

theorem assign_entries {t : ZTable} {k : Key} (h : k ∈ keys t.entries) (id : Nat) :
    (t.assign k id).entries = enter k id t.entries := by
  rw [ZTable.assign, dif_pos h]

theorem assign_lookup {t : ZTable} {k : Key} (h : k ∈ keys t.entries) (id : Nat) (k' : Key) :
    (t.assign k id).entries.lookup k' = if k' = k then some id else t.entries.lookup k' := by
  rw [assign_entries h, lookup_enter]

theorem assign_children {t : ZTable} {k : Key} {x : Nat} (h : t.entries.lookup k = some x)
    (id : Nat) : (x :: (t.assign k id).children).Perm (id :: t.children) := by
  rw [ZTable.children, assign_entries (mem_keys_of_lookup h)]
  exact enter_children h id

/-- What is appended to a table comes after what it holds, under a new key. -/
theorem insertNext_some {t t' : ZTable} {id : Nat} (h : t.insertNext id = some t') :
    Key.idx t.nNextFreeElement ∉ keys t.entries ∧
      t'.toTable = addIndexZval t.toTable t.nNextFreeElement id ∧
      t'.children = t.children ++ [id] := by
  by_cases hfree : Key.idx t.nNextFreeElement ∉ keys t.entries ∧ t.entries.length + 1 < 2 ^ 32
  · rw [ZTable.insertNext, dif_pos hfree] at h
    cases h
    refine ⟨hfree.1, rfl, ?_⟩
    simp [ZTable.children, addIndexZval, enter_of_notMem hfree.1]
  · rw [ZTable.insertNext, dif_neg hfree] at h
    cases h

theorem insertNext_lookup {t t' : ZTable} {id x : Nat} (h : t.insertNext id = some t') {k : Key}
    (hk : t.entries.lookup k = some x) : t'.entries.lookup k = some x := by
  obtain ⟨hfree, htable, -⟩ := insertNext_some h
  have hne : k ≠ .idx t.nNextFreeElement := fun heq => hfree (heq ▸ mem_keys_of_lookup hk)
  have hentries : t'.entries = enter (.idx t.nNextFreeElement) id t.entries :=
    congrArg Table.entries htable
  rw [hentries, lookup_enter, if_neg hne, hk]

/-! ## Appending -/

theorem get_setTable_self {σ : Store} {arr : Nat} {c : ZCell} (h : σ.get arr = some c)
    (t : ZTable) : (σ.setTable arr t).get arr = some { c with value := .arr t } := by
  rw [setTable, get_set_self (lt_next h), h]
  rfl

theorem get_setTable_ne (σ : Store) {arr x : Nat} (h : x ≠ arr) (t : ZTable) :
    (σ.setTable arr t).get x = σ.get x :=
  get_set_ne σ h _

/-- What `add_next_index_zval` does when it succeeds. -/
theorem addNextIndexZval_some {σ σ' : Store} {arr id : Nat}
    (h : σ.addNextIndexZval arr id = some σ') :
    ∃ c t t', σ.get arr = some c ∧ c.value = .arr t ∧ t.insertNext id = some t' ∧
      σ' = σ.setTable arr t' := by
  unfold addNextIndexZval at h
  split at h
  case h_1 refcount isRef t hget =>
    obtain ⟨t', ht', rfl⟩ := Option.map_eq_some_iff.mp h
    exact ⟨_, t, t', hget, rfl, ht', rfl⟩
  case h_2 => cases h

/-- The array holds one zval more. -/
theorem addNextIndexZval_count {σ σ' : Store} {arr id : Nat}
    (h : σ.addNextIndexZval arr id = some σ') (x : Nat) :
    σ'.slots.count x = σ.slots.count x + [id].count x := by
  obtain ⟨c, t, t', hget, hvalue, hinsert, rfl⟩ := addNextIndexZval_some h
  obtain ⟨-, -, hchildren⟩ := insertNext_some hinsert
  have hcount := count_slots_set (lt_next hget) (some { c with value := .arr t' }) x
  rw [hget] at hcount
  simp only [held, Option.elim_some, ZValue.children, hvalue, ZValue.table, hchildren,
    List.count_append] at hcount
  rw [setTable, hget]
  simp only [Option.map_some]
  omega

theorem addNextIndexZval_get_ne {σ σ' : Store} {arr id : Nat}
    (h : σ.addNextIndexZval arr id = some σ') {x : Nat} (hne : x ≠ arr) : σ'.get x = σ.get x := by
  obtain ⟨c, t, t', -, -, -, rfl⟩ := addNextIndexZval_some h
  exact get_setTable_ne σ hne t'

theorem addNextIndexZval_held {σ σ' : Store} {arr id : Nat}
    (h : σ.addNextIndexZval arr id = some σ') : held (σ'.get arr) = held (σ.get arr) ++ [id] := by
  obtain ⟨c, t, t', hget, hvalue, hinsert, rfl⟩ := addNextIndexZval_some h
  obtain ⟨-, -, hchildren⟩ := insertNext_some hinsert
  rw [get_setTable_self hget, hget]
  simp only [held, Option.elim_some, hvalue, children_arr, hchildren]

/-- The zvals are the same but for the table of the array. -/
theorem addNextIndexZval_get {σ σ' : Store} {arr id : Nat} (h : σ.addNextIndexZval arr id = some σ')
    {x : Nat} {c : ZCell} (hx : σ.get x = some c) :
    ∃ c', σ'.get x = some c' ∧ c'.refcount = c.refcount ∧ c'.isRef = c.isRef ∧
      (x ≠ arr → c' = c) := by
  obtain ⟨c₀, t, t', hget, -, -, rfl⟩ := addNextIndexZval_some h
  by_cases hne : x = arr
  · subst hne
    cases hget.symm.trans hx
    exact ⟨_, get_setTable_self hget t', rfl, rfl, fun hne => absurd rfl hne⟩
  · exact ⟨c, by rw [get_setTable_ne σ hne, hx], rfl, rfl, fun _ => rfl⟩

theorem addNextIndexZval_slot {σ σ' : Store} {arr id : Nat}
    (h : σ.addNextIndexZval arr id = some σ') {x y : Nat} {k : Key} (hk : σ.slot x k = some y) :
    σ'.slot x k = some y := by
  obtain ⟨c, t, t', hget, hvalue, hinsert, rfl⟩ := addNextIndexZval_some h
  by_cases hne : x = arr
  · subst hne
    rw [slot_eq hget, hvalue] at hk
    rw [slot_eq (get_setTable_self hget t')]
    exact insertNext_lookup hinsert hk
  · obtain ⟨c', hget'⟩ := get_of_slot hk
    rw [slot_congr hget' (by rw [get_setTable_ne σ hne, hget']) rfl, hk]

theorem addNextIndexZval_next {σ σ' : Store} {arr id : Nat}
    (h : σ.addNextIndexZval arr id = some σ') : σ'.next = σ.next := by
  obtain ⟨c, t, t', -, -, -, rfl⟩ := addNextIndexZval_some h
  exact next_set _ _ _

/-! ## Separating -/

theorem get_addref (σ : Store) (id x : Nat) : (σ.addref id).get x =
    (σ.get x).map fun c => { c with refcount := c.refcount + [id].count x } := by
  unfold addref
  cases hget : σ.get id with
  | none =>
    by_cases hx : x = id
    · subst hx
      simp [hget]
    · simp [Ne.symm hx]
  | some c =>
    by_cases hx : x = id
    · subst hx
      simp [get_set_self (lt_next hget), hget]
    · simp [get_set_ne σ hx, Ne.symm hx]

theorem count_slots_addref (σ : Store) (id x : Nat) :
    (σ.addref id).slots.count x = σ.slots.count x := by
  unfold addref
  cases hget : σ.get id with
  | none => rfl
  | some c =>
    exact count_slots_set_same hget { c with refcount := c.refcount + 1 } rfl x

theorem count_cons_eq (x id : Nat) (ids : List Nat) :
    (id :: ids).count x = [id].count x + ids.count x := by
  rw [← List.count_append, List.singleton_append]

/-- The zvals that are held by one place more count so. -/
theorem get_addrefs (σ : Store) (ids : List Nat) (x : Nat) : (ids.foldl addref σ).get x =
    (σ.get x).map fun c => { c with refcount := c.refcount + ids.count x } := by
  induction ids generalizing σ with
  | nil => simp
  | cons id ids ih =>
    rw [List.foldl_cons, ih, get_addref]
    cases σ.get x with
    | none => rfl
    | some c =>
      simp only [Option.map_some]
      rw [count_cons_eq x id ids, Nat.add_assoc]

theorem count_slots_addrefs (σ : Store) (ids : List Nat) (x : Nat) :
    (ids.foldl addref σ).slots.count x = σ.slots.count x := by
  induction ids generalizing σ with
  | nil => rfl
  | cons id ids ih => rw [List.foldl_cons, ih, count_slots_addref]

section Assign

variable {σ : Store} {arr id : Nat} {k : Key} (copy : Nat)

theorem assign_get (h : σ.slot arr k = some id) {x : Nat} {c : ZCell} (hx : σ.get x = some c) :
    ∃ c', (σ.setTable arr ((σ.table arr).assign k copy)).get x = some c' ∧ c'.refcount = c.refcount ∧
      c'.isRef = c.isRef ∧ (x ≠ arr → c'.value = c.value) := by
  obtain ⟨c₀, hget⟩ := get_of_slot h
  by_cases hne : x = arr
  · subst hne
    cases hget.symm.trans hx
    exact ⟨_, get_setTable_self hget _, rfl, rfl, fun hne => absurd rfl hne⟩
  · exact ⟨c, by rw [get_setTable_ne σ hne, hx], rfl, rfl, fun _ => rfl⟩

theorem assign_count (h : σ.slot arr k = some id) (x : Nat) :
    (σ.setTable arr ((σ.table arr).assign k copy)).slots.count x + [id].count x =
      σ.slots.count x + [copy].count x := by
  obtain ⟨c, hget⟩ := get_of_slot h
  have htable : σ.table arr = c.value.table := by simp [table, hget]
  rw [slot_eq hget] at h
  have hchildren := (assign_children h copy).count_eq x
  have hcount := count_slots_set (lt_next hget)
    (some { c with value := .arr (c.value.table.assign k copy) }) x
  rw [hget] at hcount
  simp only [held, Option.elim_some, children_arr, children_eq c.value] at hcount
  rw [List.count_cons, List.count_cons] at hchildren
  simp only [setTable, htable, hget, Option.map_some, List.count_cons, List.count_nil]
  omega

theorem assign_slot (h : σ.slot arr k = some id) (x : Nat) (k' : Key) :
    (σ.setTable arr ((σ.table arr).assign k copy)).slot x k' =
      if x = arr ∧ k' = k then some copy else σ.slot x k' := by
  obtain ⟨c, hget⟩ := get_of_slot h
  have htable : σ.table arr = c.value.table := by simp [table, hget]
  rw [slot_eq hget] at h
  by_cases hne : x = arr
  · subst hne
    rw [slot_eq (get_setTable_self hget _), htable, slot_eq hget]
    simp only [ZValue.table, true_and]
    exact assign_lookup (mem_keys_of_lookup h) copy k'
  · rw [if_neg fun hand => hne hand.1]
    simp only [slot, table, get_setTable_ne σ hne]

end Assign

/-- The first step of a separation: the zval counts one place less, and there is a new zval. -/
def shared (σ : Store) (id : Nat) (c : ZCell) : Store :=
  (σ.set id (some { c with refcount := c.refcount - 1 })).alloc ⟨1, true, .null⟩

section Shared

variable {σ : Store} {id : Nat} {c : ZCell} (hget : σ.get id = some c)

include hget

theorem shared_get {x : Nat} {cx : ZCell} (hx : σ.get x = some cx) :
    ∃ c', (σ.shared id c).get x = some c' ∧ c'.isRef = cx.isRef ∧ c'.value = cx.value ∧
      (x ≠ id → c'.refcount = cx.refcount) := by
  by_cases hne : x = id
  · subst hne
    cases hget.symm.trans hx
    exact ⟨_, get_alloc (get_set_self (lt_next hx) _) _, rfl, rfl, fun hne => absurd rfl hne⟩
  · exact ⟨cx, get_alloc ((get_set_ne σ hne _).trans hx) _, rfl, rfl, fun _ => rfl⟩

omit hget in
theorem shared_get_next : (σ.shared id c).get σ.next = some ⟨1, true, .null⟩ := by
  have hself := get_alloc_self (σ.set id (some { c with refcount := c.refcount - 1 })) ⟨1, true, .null⟩
  rwa [next_set] at hself

theorem shared_count (x : Nat) : (σ.shared id c).slots.count x = σ.slots.count x := by
  rw [shared, slots_alloc, List.count_append,
    count_slots_set_same hget { c with refcount := c.refcount - 1 } rfl x]
  simp [ZValue.children, ZValue.table, ZTable.children, ZTable.empty, Table.empty]

theorem shared_slot {x y : Nat} {k : Key} (hy : σ.slot x k = some y) :
    (σ.shared id c).slot x k = some y := by
  obtain ⟨cx, hx⟩ := get_of_slot hy
  obtain ⟨c', hc', -, hvalue, -⟩ := shared_get hget hx
  rw [slot_congr hx hc' hvalue, hy]

end Shared

section CopyCtor

variable {σ : Store} {copy id : Nat} {c : ZCell} (hget : σ.get id = some c)

include hget

theorem copyCtor_get_ne {x : Nat} {cx : ZCell} (hne : x ≠ copy) (hx : σ.get x = some cx) :
    (σ.copyCtor copy id).get x =
      some { cx with refcount := cx.refcount + c.value.children.count x } := by
  rw [copyCtor, hget]
  dsimp only
  rw [get_addrefs, get_set_ne σ hne, hx]
  rfl

theorem copyCtor_get_self (hcopy : copy < σ.next) : (σ.copyCtor copy id).get copy =
    some ⟨1 + c.value.children.count copy, true, c.value⟩ := by
  rw [copyCtor, hget]
  dsimp only
  rw [get_addrefs, get_set_self hcopy]
  rfl

/-- The copy holds what the zval holds. -/
theorem copyCtor_count {cnew : ZCell} (hnew : σ.get copy = some cnew)
    (hempty : cnew.value.children = []) (x : Nat) :
    (σ.copyCtor copy id).slots.count x = σ.slots.count x + c.value.children.count x := by
  have hcount := count_slots_set (lt_next hnew) (some ⟨1, true, c.value⟩) x
  rw [copyCtor, hget]
  dsimp only
  rw [hnew] at hcount
  rw [count_slots_addrefs]
  simpa [held, hempty] using hcount

theorem copyCtor_slot {x y : Nat} {k : Key} (hne : x ≠ copy) (hy : σ.slot x k = some y) :
    (σ.copyCtor copy id).slot x k = some y := by
  obtain ⟨cx, hx⟩ := get_of_slot hy
  rw [slot_congr hx (copyCtor_get_ne hget hne hx) rfl, hy]

end CopyCtor

/-- The store after a zval has been separated: a copy is in its place. -/
structure Copied (σ σ' : Store) (arr : Nat) (k : Key) (id : Nat) : Prop where
  slot : σ'.slot arr k = some σ.next
  other : ∀ {x y k'}, ¬ (x = arr ∧ k' = k) → σ.slot x k' = some y → σ'.slot x k' = some y
  /-- A zval that is not the one that is copied counts what the copy holds. -/
  kept : ∀ {x c}, x ≠ id → σ.get x = some c → ∃ c' n, σ'.get x = some c' ∧ c'.isRef = c.isRef ∧
    c'.refcount = c.refcount + n ∧ σ'.slots.count x = σ.slots.count x + n ∧
    (x ≠ arr → c'.value = c.value)
  /-- The copy counts one place and those that it holds itself. -/
  copy : ∃ c n, σ'.get σ.next = some c ∧ c.isRef = true ∧ c.refcount = 1 + n ∧
    1 + n ≤ σ'.slots.count σ.next

/-- The copy before its value is filled in, and its place. -/
theorem copied {σ : Store} {arr id : Nat} {k : Key} {c : ZCell} (hslot : σ.slot arr k = some id)
    (hget : σ.get id = some c) : Copied σ (((σ.shared id c).setTable arr
      (((σ.shared id c).table arr).assign k σ.next)).copyCtor σ.next id) arr k id := by
  obtain ⟨carr, harr⟩ := get_of_slot hslot
  have hid := lt_next hget
  have harrlt := lt_next harr
  -- the copy takes the place before it has its value
  have hat := shared_slot hget hslot
  generalize hσ₂ : (σ.shared id c).setTable arr (((σ.shared id c).table arr).assign k σ.next) = σ₂
  have hget₂ {x : Nat} {cx : ZCell} (hx : (σ.shared id c).get x = some cx) : ∃ c', σ₂.get x = some c' ∧
      c'.refcount = cx.refcount ∧ c'.isRef = cx.isRef ∧ (x ≠ arr → c'.value = cx.value) :=
    hσ₂ ▸ assign_get σ.next hat hx
  have hcount₂ (x : Nat) : σ₂.slots.count x + [id].count x = σ.slots.count x + [σ.next].count x := by
    rw [← shared_count hget, ← hσ₂]
    exact assign_count σ.next hat x
  have hslot₂ (x : Nat) (k' : Key) : σ₂.slot x k' = if x = arr ∧ k' = k then some σ.next
      else (σ.shared id c).slot x k' := hσ₂ ▸ assign_slot σ.next hat x k'
  obtain ⟨c₁, hc₁, -, -, -⟩ := shared_get hget hget
  obtain ⟨c₂, hc₂, -, -, -⟩ := hget₂ hc₁
  obtain ⟨cnew, hnew, -, -, hnull⟩ := hget₂ shared_get_next
  have hempty : cnew.value.children = [] := by
    rw [hnull (by omega)]
    rfl
  have hcount₃ := copyCtor_count hc₂ hnew hempty
  refine ⟨?_, fun {x y k'} hother hy => ?_, fun {x cx} hne hx => ?_, ?_⟩
  · exact copyCtor_slot hc₂ (by omega) (by rw [hslot₂, if_pos ⟨rfl, rfl⟩])
  · obtain ⟨cx, hx⟩ := get_of_slot hy
    have hlt := lt_next hx
    exact copyCtor_slot hc₂ (by omega) (by rw [hslot₂, if_neg hother, shared_slot hget hy])
  · have hlt := lt_next hx
    obtain ⟨c', hc', href', hvalue', hrc'⟩ := shared_get hget hx
    obtain ⟨c'', hc'', hrc'', href'', hvalue''⟩ := hget₂ hc'
    refine ⟨_, c₂.value.children.count x, copyCtor_get_ne hc₂ (by omega) hc'', href''.trans href',
      ?_, ?_, ?_⟩
    · simp only [hrc'', hrc' hne]
    · have hcount := hcount₂ x
      rw [List.count_singleton, List.count_singleton, if_neg (by simpa using hne.symm),
        if_neg (by simp only [beq_iff_eq]; omega)] at hcount
      rw [hcount₃]
      omega
    · intro hnarr
      exact (hvalue'' hnarr).trans hvalue'
  · refine ⟨_, c₂.value.children.count σ.next, copyCtor_get_self hc₂ (lt_next hnew), rfl, rfl, ?_⟩
    have hcount := hcount₂ σ.next
    rw [List.count_singleton, List.count_singleton, if_neg (by simp only [beq_iff_eq]; omega),
      if_pos (by simp)] at hcount
    rw [hcount₃]
    omega

/-- What `SEPARATE_ZVAL_TO_MAKE_IS_REF` does. -/
theorem separate_cases {σ σ' : Store} {arr id' : Nat} {k : Key}
    (h : σ.separateToMakeIsRef arr k = .ok (σ', id')) :
    ∃ id c, σ.slot arr k = some id ∧ σ.get id = some c ∧
      ((c.isRef = true ∧ σ' = σ ∧ id' = id) ∨
        (c.isRef = false ∧ c.refcount ≤ 1 ∧ σ' = σ.set id (some { c with isRef := true }) ∧ id' = id) ∨
        (c.isRef = false ∧ 1 < c.refcount ∧ id' = σ.next ∧ Copied σ σ' arr k id)) := by
  unfold separateToMakeIsRef at h
  cases hslot : σ.slot arr k with
  | none => simp [hslot] at h
  | some id =>
    simp only [hslot] at h
    cases hget : σ.get id with
    | none => simp [hget] at h
    | some c =>
      refine ⟨id, c, rfl, hget, ?_⟩
      simp only [hget] at h
      by_cases href : c.isRef = true
      · rw [if_pos href] at h
        cases h
        exact .inl ⟨href, rfl, rfl⟩
      · rw [if_neg href] at h
        have hfalse : c.isRef = false := Bool.not_eq_true _ ▸ href
        by_cases hone : c.refcount ≤ 1
        · rw [if_pos hone] at h
          cases h
          exact .inr (.inl ⟨hfalse, hone, rfl, rfl⟩)
        · rw [if_neg hone] at h
          cases h
          exact .inr (.inr ⟨hfalse, by omega, rfl, copied hslot hget⟩)

end BeePhp.Store
