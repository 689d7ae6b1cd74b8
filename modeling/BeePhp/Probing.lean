import Mathlib.Combinatorics.Enumerative.DoubleCounting
import Mathlib.Data.Nat.ModEq
import Mathlib.Data.Nat.Prime.Basic
import Mathlib.Data.Nat.SuccPred
import Mathlib.Order.Interval.Finset.Nat
import Mathlib.Order.Interval.Finset.SuccPred

/-!
# Open addressing

Values in numbered slots. Every key has a sequence of slots that are probed for it, and a slot may be marked
as one that a chain of probes has passed. The chain of a key ends at the first slot that is not marked.
-/

namespace BeePhp.Probing

/-- What the slots hold, and which are marked. -/
structure Slots (ν : Type) where
  node : Nat → Option ν
  dirty : Nat → Bool

namespace Slots

variable {κ ν : Type}

/-! ## Operations -/

def put (s : Slots ν) (i : Nat) (v : ν) : Slots ν :=
  { s with node := fun j => if j = i then some v else s.node j }

def free (s : Slots ν) (i : Nat) : Slots ν :=
  { s with node := fun j => if j = i then none else s.node j }

/-- The value is in a slot. -/
def Holds (s : Slots ν) (v : ν) : Prop := ∃ i, s.node i = some v

/-- The slot holds a value or is marked. -/
def Used (s : Slots ν) (i : Nat) : Prop := (s.node i).isSome = true ∨ s.dirty i = true

instance (s : Slots ν) : DecidablePred s.Used := fun _ => inferInstanceAs (Decidable (_ ∨ _))

/-! ## Chains -/

section Chains

variable (probe : κ → Nat → Nat) (key : ν → κ)

/-- All slots before the probe `j` are marked. -/
def Passed (s : Slots ν) (k : κ) (j : Nat) : Prop := ∀ j' < j, s.dirty (probe k j') = true

/-- The chain of a key leads to a slot. -/
def Leads (s : Slots ν) (k : κ) (i : Nat) : Prop := ∃ j, probe k j = i ∧ s.Passed probe k j

/-- Every value is found along the chain of its key, and no two have one key. -/
structure Sound (s : Slots ν) : Prop where
  leads : ∀ {i v}, s.node i = some v → s.Leads probe (key v) i
  unique : ∀ {i i' v v'}, s.node i = some v → s.node i' = some v' → key v = key v' → i = i'

variable {probe key} {s : Slots ν}

theorem Passed.succ {k : κ} {j : Nat} (h : s.Passed probe k j) (hj : s.dirty (probe k j) = true) :
    s.Passed probe k (j + 1) := by
  intro j' hlt
  rcases Nat.lt_succ_iff_lt_or_eq.mp hlt with hlt | rfl
  · exact h j' hlt
  · exact hj

/-- More slots may be marked. -/
theorem Passed.mono {s' : Slots ν} (hd : ∀ i, s.dirty i = true → s'.dirty i = true) {k : κ} {j : Nat}
    (h : s.Passed probe k j) : s'.Passed probe k j :=
  fun j' hj' => hd _ (h j' hj')

theorem Sound.mono {s' : Slots ν} (h : s.Sound probe key) (hnode : s'.node = s.node)
    (hd : ∀ i, s.dirty i = true → s'.dirty i = true) : s'.Sound probe key where
  leads hv := by
    obtain ⟨j, hj, hp⟩ := h.leads (hnode ▸ hv)
    exact ⟨j, hj, hp.mono hd⟩
  unique hv hv' := h.unique (hnode ▸ hv) (hnode ▸ hv')

theorem node_free {i j : Nat} {v : ν} (h : (s.free i).node j = some v) : s.node j = some v := by
  by_cases hj : j = i
  · simp [Slots.free, hj] at h
  · simpa [Slots.free, hj] using h

theorem Sound.free (h : s.Sound probe key) (i : Nat) : (s.free i).Sound probe key :=
  ⟨fun hv => h.leads (node_free hv), fun hv hv' => h.unique (node_free hv) (node_free hv')⟩

/-- What a slot holds after a value has been put into one. -/
theorem node_put {i j : Nat} {v w : ν} (h : (s.put i v).node j = some w) :
    j = i ∧ w = v ∨ j ≠ i ∧ s.node j = some w := by
  by_cases hj : j = i
  · exact .inl ⟨hj, by simpa [Slots.put, hj] using h.symm⟩
  · exact .inr ⟨hj, by simpa [Slots.put, hj] using h⟩

/-- A value may go into a slot to which the chain of its key leads, unless another slot has the key. -/
theorem Sound.put (h : s.Sound probe key) {i : Nat} {v : ν} (hi : s.Leads probe (key v) i)
    (hv : ∀ j w, s.node j = some w → key w = key v → j = i) : (s.put i v).Sound probe key where
  leads hw := by
    rcases node_put hw with ⟨rfl, rfl⟩ | ⟨-, hw⟩
    · exact hi
    · exact h.leads hw
  unique := by
    intro j j' w w' hw hw' hkey
    rcases node_put hw with ⟨rfl, rfl⟩ | ⟨-, hold⟩
    · rcases node_put hw' with ⟨rfl, -⟩ | ⟨-, hold'⟩
      · rfl
      · exact (hv j' w' hold' hkey.symm).symm
    · rcases node_put hw' with ⟨rfl, rfl⟩ | ⟨-, hold'⟩
      · exact hv j w hold hkey
      · exact h.unique hold hold' hkey

/-- A key that no probe finds up to the end of its chain is in no slot. -/
theorem Sound.absent (h : s.Sound probe key) {k : κ} {j : Nat} (hend : s.dirty (probe k j) = false)
    (hj : ∀ j' ≤ j, ∀ v, s.node (probe k j') = some v → key v ≠ k) : ∀ v, s.Holds v → key v ≠ k := by
  rintro v ⟨i, hv⟩ rfl
  obtain ⟨j', rfl, hp⟩ := h.leads hv
  rcases Nat.lt_or_ge j j' with hlt | hle
  · exact absurd (hp j hlt) (by simp [hend])
  · exact hj j' hle v hv rfl

theorem Sound.eq_of_holds (h : s.Sound probe key) {v w : ν} (hv : s.Holds v) (hw : s.Holds w)
    (hkey : key v = key w) : v = w := by
  obtain ⟨i, hv⟩ := hv
  obtain ⟨i', hw⟩ := hw
  have := h.unique hv hw hkey
  subst this
  exact Option.some.inj (hv.symm.trans hw)

theorem holds_put {i : Nat} {v : ν}
    (hi : ∀ w, s.node i = some w → key w = key v)
    (hv : ∀ j w, s.node j = some w → key w = key v → j = i) (w : ν) :
    (s.put i v).Holds w ↔ w = v ∨ s.Holds w ∧ key w ≠ key v := by
  constructor
  · rintro ⟨j, hw⟩
    rcases node_put hw with ⟨-, rfl⟩ | ⟨hj, hw⟩
    · exact .inl rfl
    · exact .inr ⟨⟨j, hw⟩, fun hkey => hj (hv j w hw hkey)⟩
  · rintro (rfl | ⟨⟨j, hw⟩, hkey⟩)
    · exact ⟨i, by simp [Slots.put]⟩
    · have hj : j ≠ i := by
        rintro rfl
        exact hkey (hi w hw)
      exact ⟨j, by simp [Slots.put, hj, hw]⟩

theorem Sound.holds_free (h : s.Sound probe key) {i : Nat} {v : ν} (hv : s.node i = some v) (w : ν) :
    (s.free i).Holds w ↔ s.Holds w ∧ key w ≠ key v := by
  constructor
  · rintro ⟨j, hw⟩
    by_cases hj : j = i
    · simp [Slots.free, hj] at hw
    · simp only [Slots.free, hj, if_false] at hw
      exact ⟨⟨j, hw⟩, fun hkey => hj (h.unique hw hv hkey)⟩
  · rintro ⟨⟨j, hw⟩, hkey⟩
    have hj : j ≠ i := by
      rintro rfl
      exact hkey (congrArg key (Option.some.inj (hw.symm.trans hv)))
    exact ⟨j, by simp [Slots.free, hj, hw]⟩

end Chains

/-! ## Counting -/

section Counting

variable {s : Slots ν} {n : Nat}

/-- How many of the first `n` slots are used. -/
def used (s : Slots ν) (n : Nat) : Nat := ((Finset.range n).filter s.Used).card

/-- How many of the slots from `a` to `n` hold a value. -/
def held (s : Slots ν) (a n : Nat) : Nat := ((Finset.Ico a n).filter fun i => (s.node i).isSome = true).card

theorem used_congr {s' : Slots ν} (h : ∀ i, s'.Used i ↔ s.Used i) : s'.used n = s.used n := by
  unfold used
  congr 1
  exact Finset.filter_congr fun i _ => h i

/-- Where not all slots are used, one is neither held nor marked. -/
theorem exists_unused (h : s.used n < n) : ∃ i < n, s.node i = none ∧ s.dirty i = false := by
  by_contra hall
  push Not at hall
  have : (Finset.range n).filter s.Used = Finset.range n := by
    refine Finset.filter_true_of_mem fun i hi => ?_
    by_cases hnode : s.node i = none
    · exact .inr (by simpa using hall i (Finset.mem_range.mp hi) hnode)
    · exact .inl (Option.isSome_iff_ne_none.mpr hnode)
  unfold used at h
  rw [this, Finset.card_range] at h
  exact Nat.lt_irrefl n h

/-- Sets of numbers that differ in one number. -/
theorem card_filter_succ {t : Finset Nat} {P Q : Nat → Prop} [DecidablePred P] [DecidablePred Q] {i : Nat}
    (hi : i ∈ t) (hP : P i) (hQ : ¬Q i) (h : ∀ j, j ≠ i → (P j ↔ Q j)) :
    (t.filter P).card = (t.filter Q).card + 1 := by
  have : t.filter P = insert i (t.filter Q) := by
    ext j
    by_cases hj : j = i
    · simp [hj, hi, hP]
    · simp [hj, h j hj]
  rw [this, Finset.card_insert_of_notMem (by simp [hQ])]

theorem used_put {i : Nat} {v : ν} (hi : s.Used i) : (s.put i v).used n = s.used n := by
  refine used_congr fun j => ?_
  unfold Used put at *
  by_cases hj : j = i
  · subst hj
    simpa using hi
  · simp [hj]

theorem used_put_succ {i : Nat} {v : ν} (hin : i < n) (hi : ¬s.Used i) :
    (s.put i v).used n = s.used n + 1 := by
  refine card_filter_succ (Finset.mem_range.mpr hin) (.inl (by simp [put])) hi fun j hj => ?_
  simp [Used, put, hj]

theorem used_free {i : Nat} (hi : s.dirty i = true) : (s.free i).used n = s.used n := by
  refine used_congr fun j => ?_
  unfold Used free
  by_cases hj : j = i
  · subst hj
    simp [hi]
  · simp [hj]

theorem used_free_succ {i : Nat} (hin : i < n) (hnode : (s.node i).isSome = true)
    (hi : s.dirty i = false) : s.used n = (s.free i).used n + 1 := by
  refine card_filter_succ (Finset.mem_range.mpr hin) (.inl hnode) (by simp [Used, free, hi]) fun j hj => ?_
  simp [Used, free, hj]

theorem held_le_used (s : Slots ν) (n : Nat) : s.held 0 n ≤ s.used n := by
  refine Finset.card_le_card fun i hi => ?_
  simp only [Finset.mem_filter, Finset.mem_Ico, Finset.mem_range] at hi ⊢
  exact ⟨hi.1.2, .inl hi.2⟩

theorem held_congr {t : Slots ν} (h : t.node = s.node) (a n : Nat) : t.held a n = s.held a n := by
  unfold held
  rw [h]

theorem held_put {a i : Nat} {v : ν} (hi : (s.node i).isSome = true) :
    (s.put i v).held a n = s.held a n := by
  unfold held put
  congr 1
  refine Finset.filter_congr fun j _ => ?_
  by_cases hj : j = i
  · simp [hj, hi]
  · simp [hj]

theorem held_put_succ {a i : Nat} {v : ν} (hai : a ≤ i) (hin : i < n) (hi : s.node i = none) :
    (s.put i v).held a n = s.held a n + 1 := by
  refine card_filter_succ (Finset.mem_Ico.mpr ⟨hai, hin⟩) (by simp [put]) (by simp [hi]) fun j hj => ?_
  simp [put, hj]

theorem held_put_le {a i : Nat} {v : ν} : (s.put i v).held a n ≤ s.held a n + 1 := by
  have hsub : (Finset.Ico a n).filter (fun j => ((s.put i v).node j).isSome = true) ⊆
      insert i ((Finset.Ico a n).filter fun j => (s.node j).isSome = true) := by
    intro j hj
    by_cases hji : j = i
    · simp [hji]
    · rw [Finset.mem_filter] at hj
      simp only [put, hji, if_false] at hj
      rw [Finset.mem_insert, Finset.mem_filter]
      exact .inr hj
  exact (Finset.card_le_card hsub).trans (Finset.card_insert_le _ _)

theorem held_free_succ {a i : Nat} (hai : a ≤ i) (hin : i < n) (hi : (s.node i).isSome = true) :
    s.held a n = (s.free i).held a n + 1 := by
  refine card_filter_succ (Finset.mem_Ico.mpr ⟨hai, hin⟩) hi (by simp [free]) fun j hj => ?_
  simp [free, hj]

theorem held_free_le {a i : Nat} : (s.free i).held a n ≤ s.held a n := by
  refine Finset.card_le_card fun j hj => ?_
  rw [Finset.mem_filter] at hj ⊢
  refine ⟨hj.1, ?_⟩
  by_cases hji : j = i
  · simp [free, hji] at hj
  · simpa [free, hji] using hj.2

/-- The slot `a` alone. -/
theorem held_succ {a : Nat} (han : a < n) :
    s.held a n = s.held (a + 1) n + if (s.node a).isSome then 1 else 0 := by
  unfold held
  have : Finset.Ico a n = insert a (Finset.Ico (a + 1) n) := (Finset.insert_Ico_succ_left_eq_Ico han).symm
  rw [this, Finset.filter_insert]
  by_cases ha : (s.node a).isSome = true
  · rw [if_pos ha, if_pos ha, Finset.card_insert_of_notMem (by simp)]
  · rw [if_neg ha, if_neg ha]
    rfl

/-- Slots that hold no more values than others. -/
theorem held_le_of_holds {probe : κ → Nat → Nat} {key : ν → κ} {s' : Slots ν} {n' : Nat}
    (h : s.Sound probe key) (hn' : ∀ i v, s'.node i = some v → i < n')
    (hle : ∀ v, s.Holds v → s'.Holds v) : s.held 0 n ≤ s'.held 0 n' := by
  refine Finset.card_le_card_of_forall_subsingleton (fun i i' => s.node i = s'.node i') ?_ ?_
  · intro i hi
    obtain ⟨v, hv⟩ := Option.isSome_iff_exists.mp (Finset.mem_filter.mp hi).2
    obtain ⟨i', hv'⟩ := hle v ⟨i, hv⟩
    exact ⟨i', by simp [hv', hn' i' v hv'], hv.trans hv'.symm⟩
  · rintro i' - a ⟨ha, haeq⟩ b ⟨-, hbeq⟩
    obtain ⟨v, hv⟩ := Option.isSome_iff_exists.mp (Finset.mem_filter.mp ha).2
    exact h.unique hv ((hbeq.trans haeq.symm).trans hv) rfl

/-- Slots that hold the same values hold equally many. -/
theorem held_eq_of_holds {probe probe' : κ → Nat → Nat} {key : ν → κ} {s' : Slots ν} {n' : Nat}
    (h : s.Sound probe key) (h' : s'.Sound probe' key) (hn : ∀ i v, s.node i = some v → i < n)
    (hn' : ∀ i v, s'.node i = some v → i < n') (heq : ∀ v, s.Holds v ↔ s'.Holds v) :
    s.held 0 n = s'.held 0 n' := by
  exact le_antisymm (held_le_of_holds h hn' fun v => (heq v).mp)
    (held_le_of_holds h' hn fun v => (heq v).mpr)

end Counting

end Slots

/-! ## Double hashing -/

/-- The slots start, start + inc, start + 2 inc, … of `n`. -/
def probeAt (n start inc j : Nat) : Nat := (start + j * inc) % n

/-- For a prime number of slots, every slot is among the first `n` probes. -/
theorem exists_probeAt {n inc : Nat} (hn : n.Prime) (hpos : 0 < inc) (hlt : inc < n) (start : Nat) {i : Nat}
    (hi : i < n) : ∃ j < n, probeAt n start inc j = i := by
  have hcop : Nat.Coprime n inc := (Nat.Prime.coprime_iff_not_dvd hn).mpr (Nat.not_dvd_of_pos_of_lt hpos hlt)
  have hinj : Set.InjOn (probeAt n start inc) (Finset.range n) := by
    intro j hj j' hj' h
    have h : Nat.ModEq n (start + j * inc) (start + j' * inc) := h
    have h := Nat.ModEq.cancel_right_of_coprime hcop (Nat.ModEq.add_left_cancel' start h)
    simp only [Finset.coe_range, Set.mem_Iio] at hj hj'
    rwa [Nat.ModEq, Nat.mod_eq_of_lt hj, Nat.mod_eq_of_lt hj'] at h
  have himage : (Finset.range n).image (probeAt n start inc) = Finset.range n := by
    refine Finset.eq_of_subset_of_card_le ?_ (by rw [Finset.card_image_of_injOn hinj])
    intro x hx
    obtain ⟨j, -, rfl⟩ := Finset.mem_image.mp hx
    exact Finset.mem_range.mpr (Nat.mod_lt _ hn.pos)
  have hmem : i ∈ (Finset.range n).image (probeAt n start inc) := by
    rw [himage]
    exact Finset.mem_range.mpr hi
  obtain ⟨j, hj, hji⟩ := Finset.mem_image.mp hmem
  exact ⟨j, Finset.mem_range.mp hj, hji⟩

end BeePhp.Probing
