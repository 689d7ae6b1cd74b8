import BeePhp.Occupancy

/-!
# Proofs: one table

`mh_find`, `mh_put_slot` and what `mh_put` and `mh_del` do to the buckets of a table whose chains end.
-/

namespace BeePhp

open Probing

variable {κ ν : Type} {d : Hashed κ ν}

namespace Buckets

variable {h h' : Buckets ν}

/-! ## Bits -/

@[simp] theorem slots_node (h : Buckets ν) : h.slots.node = h.node := rfl

@[simp] theorem slots_dirty (h : Buckets ν) : h.slots.dirty = h.dirty := rfl

theorem dirty_setDirty (h : Buckets ν) (i j : Nat) :
    (h.setDirty i).dirty j = (h.dirty j || decide (i = j)) := by
  unfold dirty setDirty
  rw [Nat.testBit_or, Nat.one_shiftLeft, Nat.testBit_two_pow]

theorem node_setNode {i : Nat} {v : ν} (hi : h.p.Has i) :
    (h.setNode i v).node = (h.slots.put i v).node := by
  funext j
  unfold node exist setNode
  simp only [Nat.testBit_or, Nat.one_shiftLeft, Nat.testBit_two_pow, Slots.put, Codec.Pages.get_set hi]
  by_cases hj : j = i
  · subst hj
    simp
  · have hj' : i ≠ j := fun h => hj h.symm
    simp [hj, hj', node, exist]
    rfl

theorem node_setFree (h : Buckets ν) (i : Nat) : (h.setFree i).node = (h.slots.free i).node := by
  funext j
  unfold node exist setFree
  simp only [Slots.free, slots_node]
  by_cases hj : j = i
  · subst hj
    by_cases hi : h.existBits.testBit j = true
    · simp [exist, hi, Nat.testBit_xor, Nat.one_shiftLeft]
    · simp [exist, hi]
  · have hj' : i ≠ j := fun h => hj h.symm
    by_cases hi : h.existBits.testBit i = true
    · simp [exist, node, hi, hj, hj', Nat.testBit_xor, Nat.one_shiftLeft]
      rfl
    · simp [exist, node, hi, hj]
      rfl

end Buckets

/-! ## Probes -/

theorem probe_zero (d : Hashed κ ν) (n : Nat) (k : κ) : probe d n k 0 = firstSlot d k n := by
  simp [probe, probeAt, firstSlot]

theorem probe_lt {n : Nat} (hn : 3 ≤ n) (k : κ) (j : Nat) : probe d n k j < n := Nat.mod_lt _ (by omega)

theorem slotInc_lt {n : Nat} (hn : 3 ≤ n) (k : κ) : slotInc d k n < n := by
  have := Nat.mod_lt (d.hash k).toNat (show 0 < n - 1 by omega)
  unfold slotInc
  omega

/-- `mh_next_slot` goes from one probe to the next. -/
theorem nextSlot_probe {n : Nat} (hn : 3 ≤ n) (hsmall : n ≤ 2 ^ 31) (k : κ) (j : Nat) :
    nextSlot (probe d n k j) (slotInc d k n) n = probe d n k (j + 1) := by
  have hlt := probe_lt (d := d) hn k j
  have hinc := slotInc_lt (d := d) hn k
  have hstep : probe d n k (j + 1) = (probe d n k j + slotInc d k n) % n := by
    simp only [probe, probeAt, Nat.add_mul, Nat.one_mul, Nat.mod_add_mod, Nat.add_assoc]
  rw [hstep]
  unfold nextSlot toUint32
  rw [Nat.mod_eq_of_lt (show probe d n k j + slotInc d k n < 2 ^ 32 by omega)]
  by_cases hge : probe d n k j + slotInc d k n ≥ n
  · rw [if_pos hge, Nat.mod_eq_sub_mod hge, Nat.mod_eq_of_lt (by omega)]
  · rw [if_neg hge, Nat.mod_eq_of_lt (by omega)]

namespace Buckets

variable {h h' : Buckets ν}

/-- Every chain comes to a slot without a node and without a mark. -/
theorem Ok.exists_end (hh : h.Ok d) (k : κ) :
    ∃ j < h.nBuckets, h.node (probe d h.nBuckets k j) = none ∧ h.dirty (probe d h.nBuckets k j) = false := by
  obtain ⟨i, hi, hnode, hdirty⟩ := Slots.exists_unused (Nat.lt_of_le_of_lt hh.used hh.room)
  obtain ⟨j, hj, hji⟩ := exists_probeAt hh.prime (show 0 < slotInc d k h.nBuckets by unfold slotInc; omega)
    (slotInc_lt hh.three_le k) (firstSlot d k h.nBuckets) hi
  have hji : probe d h.nBuckets k j = i := hji
  exact ⟨j, hj, by rw [hji]; exact hnode, by rw [hji]; exact hdirty⟩

/-- A key is not among the first probes. -/
def Missed (d : Hashed κ ν) (h : Buckets ν) (k : κ) (j : Nat) : Prop :=
  ∀ j' < j, ∀ v, h.node (probe d h.nBuckets k j') = some v → d.key v ≠ k

theorem Missed.succ {k : κ} {j : Nat} (h₀ : h.Missed d k j)
    (hj : ∀ v, h.node (probe d h.nBuckets k j) = some v → d.key v ≠ k) : h.Missed d k (j + 1) := by
  intro j' hlt
  rcases Nat.lt_succ_iff_lt_or_eq.mp hlt with hlt | rfl
  · exact h₀ j' hlt
  · exact hj

theorem Ok.absent (hh : h.Ok d) {k : κ} {j : Nat} (hend : h.dirty (probe d h.nBuckets k j) = false)
    (hj : h.Missed d k (j + 1)) : ∀ v, h.slots.Holds v → d.key v ≠ k :=
  hh.sound.absent hend fun j' hle => hj j' (by omega)

theorem map_key_eq {i : Nat} {k : κ} :
    (h.node i).map d.key = some k ↔ ∃ v, h.node i = some v ∧ d.key v = k := by
  cases h.node i <;> simp

variable [DecidableEq κ]

/-! ## mh_find -/

/-- What `mh_find` returns: the slot with the key, or the end of a table without it. -/
def Found (d : Hashed κ ν) (h : Buckets ν) (k : κ) (x : Nat) : Prop :=
  (∃ v, h.node x = some v ∧ d.key v = k) ∨ x = h.nBuckets ∧ ∀ v, h.slots.Holds v → d.key v ≠ k

theorem findLoop_found (hh : h.Ok d) {k : κ} {e : Nat} (hend : h.dirty (probe d h.nBuckets k e) = false)
    (fuel : Nat) {j : Nat} (hje : j ≤ e) (hfuel : e < j + fuel) (hmiss : h.Missed d k j) :
    ∃ x, findLoop d h k fuel (probe d h.nBuckets k j) = .ok x ∧ h.Found d k x := by
  induction fuel generalizing j with
  | zero => omega
  | succ fuel ih =>
    unfold findLoop
    by_cases hkey : (h.node (probe d h.nBuckets k j)).map d.key = some k
    · rw [if_pos hkey]
      exact ⟨_, rfl, .inl (map_key_eq.mp hkey)⟩
    rw [if_neg hkey]
    have hmiss := hmiss.succ fun v hv hk => hkey (map_key_eq.mpr ⟨v, hv, hk⟩)
    by_cases hdirty : h.dirty (probe d h.nBuckets k j) = true
    · have hne : j ≠ e := by
        rintro rfl
        rw [hend] at hdirty
        cases hdirty
      rw [if_neg (not_not_intro hdirty), nextSlot_probe hh.three_le hh.small]
      exact ih (by omega) (by omega) hmiss
    · rw [if_pos hdirty]
      exact ⟨_, rfl, .inr ⟨rfl, hh.absent (Bool.eq_false_iff.mpr hdirty) hmiss⟩⟩

theorem mhFind_found (hh : h.Ok d) (k : κ) : ∃ x, mhFind d h k = .ok x ∧ h.Found d k x := by
  obtain ⟨e, hlt, -, hend⟩ := hh.exists_end k
  unfold mhFind
  rw [← probe_zero]
  exact findLoop_found hh hend _ (Nat.zero_le e) (by omega) fun _ hlt => absurd hlt (Nat.not_lt_zero _)

/-! ## mh_put_slot -/

theorem Marks.refl (h : Buckets ν) : h.Marks h := ⟨rfl, fun _ => id, fun _ => .inr⟩

theorem Marks.node (hm : h.Marks h') : h'.node = h.node := by
  rw [hm.eq]
  rfl

theorem Marks.setDirty (hm : h.Marks h') {i : Nat} (hi : (h.node i).isSome = true) :
    h.Marks (h'.setDirty i) where
  eq := by
    unfold Buckets.setDirty
    rw [hm.eq]
  more j hj := by rw [dirty_setDirty, hm.more j hj, Bool.true_or]
  only j hj := by
    rw [dirty_setDirty, Bool.or_eq_true, decide_eq_true_iff] at hj
    rcases hj with hj | rfl
    · exact hm.only j hj
    · exact .inl hi

theorem Marks.used (hm : h.Marks h') (n : Nat) : h'.slots.used n = h.slots.used n := by
  refine Slots.used_congr fun i => ?_
  unfold Slots.Used
  rw [slots_node, slots_dirty, slots_node, hm.node, slots_dirty]
  refine ⟨fun hu => ?_, fun hu => hu.imp_right (hm.more i)⟩
  rcases hu with hu | hu
  · exact .inl hu
  · exact hm.only i hu

theorem Marks.nBuckets (hm : h.Marks h') : h'.nBuckets = h.nBuckets := by
  rw [hm.eq]

/-- An end of a chain stays one. -/
theorem Marks.dirty_eq_false (hm : h.Marks h') {i : Nat} (hnode : h.node i = none)
    (hdirty : h.dirty i = false) : h'.dirty i = false := by
  by_contra hd
  rcases hm.only i (by simpa using hd) with hu | hu
  · rw [slots_node, hnode] at hu
    cases hu
  · rw [slots_dirty, hdirty] at hu
    cases hu

/-- The first loop of `mh_put_slot` stops at a probe up to which all slots are marked now. -/
theorem skipLoop_spec {k : κ} (hthree : 3 ≤ h.nBuckets) (hsmall : h.nBuckets ≤ 2 ^ 31) {e : Nat}
    (hend : h.node (probe d h.nBuckets k e) = none) (fuel : Nat) {h' : Buckets ν} {j : Nat}
    (hm : h.Marks h') (hje : j ≤ e) (hfuel : e < j + fuel)
    (hpass : h'.slots.Passed (probe d h.nBuckets) k j) (hmiss : h.Missed d k j) :
    ∃ h₁ j₁ found, skipLoop d k fuel h' (probe d h.nBuckets k j) = .ok (h₁, probe d h.nBuckets k j₁, found) ∧
      h.Marks h₁ ∧ j₁ ≤ e ∧ h₁.slots.Passed (probe d h.nBuckets) k j₁ ∧ h.Missed d k j₁ ∧
      if found then ∃ v, h.node (probe d h.nBuckets k j₁) = some v ∧ d.key v = k
      else h.node (probe d h.nBuckets k j₁) = none := by
  induction fuel generalizing h' j with
  | zero => omega
  | succ fuel ih =>
    unfold skipLoop
    rw [hm.node]
    cases hnode : h.node (probe d h.nBuckets k j) with
    | none => exact ⟨h', j, false, rfl, hm, hje, hpass, hmiss, hnode⟩
    | some v =>
      by_cases hk : d.key v = k
      · exact ⟨h', j, true, if_pos hk, hm, hje, hpass, hmiss, v, hnode, hk⟩
      · have hne : j ≠ e := by
          rintro rfl
          rw [hend] at hnode
          cases hnode
        have hm' := hm.setDirty (show (h.node (probe d h.nBuckets k j)).isSome = true by rw [hnode]; rfl)
        have hpass' : (h'.setDirty (probe d h.nBuckets k j)).slots.Passed (probe d h.nBuckets) k (j + 1) := by
          refine (hpass.mono fun i hi => ?_).succ ?_
          · rw [slots_dirty] at hi
            rw [slots_dirty, dirty_setDirty, hi, Bool.true_or]
          · rw [slots_dirty, dirty_setDirty, decide_eq_true rfl, Bool.or_true]
        simp only [if_neg hk]
        rw [hm.nBuckets, nextSlot_probe hthree hsmall]
        refine ih hm' (by omega) (by omega) hpass' (hmiss.succ fun w hw => ?_)
        rw [← Option.some.inj (hnode.symm.trans hw)]
        exact hk

/-- The second loop finds the node with the key, if there is one. -/
theorem scanLoop_spec (hh : h.Ok d) {k : κ} (save : Nat) {e : Nat} (hm : h.Marks h')
    (hend : h'.dirty (probe d h.nBuckets k e) = false) (fuel : Nat) {j : Nat} (hje : j ≤ e)
    (hfuel : e < j + fuel) (hmiss : h.Missed d k (j + 1)) :
    ∃ x, scanLoop d h' k save fuel (probe d h.nBuckets k j) = .ok x ∧
      ((∃ v, h.node x = some v ∧ d.key v = k) ∨ x = save ∧ ∀ v, h.slots.Holds v → d.key v ≠ k) := by
  induction fuel generalizing j with
  | zero => omega
  | succ fuel ih =>
    unfold scanLoop
    by_cases hdirty : h'.dirty (probe d h.nBuckets k j) = true
    · have hne : j ≠ e := by
        rintro rfl
        rw [hend] at hdirty
        cases hdirty
      simp only [if_pos hdirty]
      rw [hm.nBuckets, nextSlot_probe hh.three_le hh.small, hm.node]
      by_cases hkey : (h.node (probe d h.nBuckets k (j + 1))).map d.key = some k
      · rw [if_pos hkey]
        exact ⟨_, rfl, .inl (map_key_eq.mp hkey)⟩
      · rw [if_neg hkey]
        exact ih (by omega) (by omega) (hmiss.succ fun v hv hk => hkey (map_key_eq.mpr ⟨v, hv, hk⟩))
    · rw [if_neg hdirty]
      refine ⟨save, rfl, .inr ⟨rfl, hh.absent (Bool.eq_false_iff.mpr fun hd => hdirty (hm.more _ hd)) hmiss⟩⟩

/-- `mh_put_slot` finds the slot for a node. -/
theorem mhPutSlot_finds (hh : h.Ok d) (v : ν) :
    ∃ h' x, mhPutSlot d h v = .ok (h', x) ∧ h.Finds d h' (d.key v) x := by
  obtain ⟨e, hlt, hnode, hend⟩ := hh.exists_end (d.key v)
  obtain ⟨h₁, j, found, hskip, hm, hje, hpass, hmiss, hfound⟩ := skipLoop_spec hh.three_le hh.small hnode
    h.nBuckets (Marks.refl h) (Nat.zero_le e) (by omega) (fun _ hlt => absurd hlt (Nat.not_lt_zero _))
    fun _ hlt => absurd hlt (Nat.not_lt_zero _)
  rw [probe_zero] at hskip
  have hleads : h₁.slots.Leads (probe d h.nBuckets) (d.key v) (probe d h.nBuckets (d.key v) j) := ⟨j, rfl, hpass⟩
  -- a slot with a node that has the key
  have hhas : ∀ x w, h.node x = some w → d.key w = d.key v → h.Finds d h₁ (d.key v) x := by
    intro x w hw hk
    refine ⟨hm, hh.lt _ _ hw, ?_, fun w' hw' => ?_, fun i w' hw' hk' => ?_⟩
    · obtain ⟨j', hj', hp⟩ := hh.sound.leads hw
      exact ⟨j', hk ▸ hj', hk ▸ hp.mono hm.more⟩
    · rw [← Option.some.inj (hw.symm.trans hw'), hk]
    · exact hh.sound.unique hw' hw (hk'.trans hk.symm)
  unfold mhPutSlot
  rw [hskip]
  cases found with
  | true =>
    obtain ⟨w, hw, hk⟩ := hfound
    exact ⟨h₁, _, rfl, hhas _ w hw hk⟩
  | false =>
    have hfree : h.node (probe d h.nBuckets (d.key v) j) = none := hfound
    have hmiss' := hmiss.succ fun w hw => absurd (hfree.symm.trans hw) (Option.some_ne_none w).symm
    obtain ⟨x, hscan, hx⟩ := scanLoop_spec hh (probe d h.nBuckets (d.key v) j) hm
      (hm.dirty_eq_false hnode hend) h.nBuckets hje (by omega) hmiss'
    refine ⟨h₁, x, ?_, ?_⟩
    · simp only [bind, Except.bind, hm.nBuckets, hscan]
      rfl
    · rcases hx with ⟨w, hw, hk⟩ | ⟨rfl, habsent⟩
      · exact hhas x w hw hk
      · refine ⟨hm, probe_lt hh.three_le _ _, hleads, fun w hw => ?_, fun i w hw hk => ?_⟩
        · rw [hfree] at hw
          cases hw
        · exact absurd hk (habsent w ⟨i, hw⟩)

/-! ## Storing a node -/

omit [DecidableEq κ] in
/-- A node goes into the slot that was found for it, whatever is counted of the buckets otherwise. -/
theorem Finds.stores (hh : h.Ok d) {v : ν} {x : Nat} (hf : h.Finds d h' (d.key v) x) (size nDirty : Nat) :
    h.Stores d { h'.setNode x v with size := size, nDirty := nDirty } v x where
  lt := hf.lt
  node := by
    have hx : h'.p.Has x := by
      rw [hf.marks.eq]
      exact hh.has x hf.lt
    have hnode : (h'.setNode x v).node = (h'.slots.put x v).node := node_setNode hx
    unfold Slots.put at hnode ⊢
    rw [slots_node, hf.marks.node] at hnode
    exact hnode
  fits := hf.fits
  alone := hf.alone
  nBuckets := hf.marks.nBuckets
  upperBound := by rw [hf.marks.eq]; rfl
  prime := by rw [hf.marks.eq]; rfl

omit [DecidableEq κ] in
theorem Stores.holds {v : ν} {x : Nat} (hs : h.Stores d h' v x) (w : ν) :
    h'.slots.Holds w ↔ w = v ∨ h.slots.Holds w ∧ d.key w ≠ d.key v := by
  unfold Slots.Holds
  rw [slots_node, hs.node]
  exact @Slots.holds_put _ _ d.key h.slots x v hs.fits hs.alone w

omit [DecidableEq κ] in
/-- The buckets are still sound if one more slot is counted as used, unless it was used before. -/
theorem Finds.ok (hh : h.Ok d) {v : ν} {x : Nat} (hf : h.Finds d h' (d.key v) x) {size nDirty : Nat}
    (hdirty : h.nDirty + (if h.slots.Used x then 0 else 1) ≤ nDirty) (hroom : nDirty < h.nBuckets) :
    ({ h'.setNode x v with size := size, nDirty := nDirty } : Buckets ν).Ok d := by
  have hs := hf.stores hh size nDirty
  have hn : ({ h'.setNode x v with size := size, nDirty := nDirty } : Buckets ν).nBuckets = h.nBuckets := hs.nBuckets
  have hsound : h'.slots.Sound (probe d h.nBuckets) d.key := hh.sound.mono hf.marks.node hf.marks.more
  have hput : (h'.slots.put x v).Sound (probe d h.nBuckets) d.key := by
    refine hsound.put hf.leads fun i w hw hk => hf.alone i w ?_ hk
    rw [slots_node, hf.marks.node] at hw
    exact hw
  have hnode : (h'.slots.put x v).node = (h.slots.put x v).node := by
    unfold Slots.put
    rw [slots_node, hf.marks.node, slots_node]
  have hslots : ({ h'.setNode x v with size := size, nDirty := nDirty } : Buckets ν).slots = h'.slots.put x v := by
    unfold slots
    rw [hs.node, ← hnode]
    rfl
  have hused : (h'.slots.put x v).used h.nBuckets ≤ h.slots.used h.nBuckets + if h.slots.Used x then 0 else 1 := by
    have hux : h'.slots.Used x ↔ h.slots.Used x := by
      unfold Slots.Used
      rw [slots_node, slots_dirty, slots_node, hf.marks.node, slots_dirty]
      exact ⟨fun hu => hu.elim .inl (hf.marks.only x), fun hu => hu.imp_right (hf.marks.more x)⟩
    by_cases hu : h.slots.Used x
    · rw [if_pos hu, Slots.used_put (hux.mpr hu), hf.marks.used]
      exact Nat.le_refl _
    · rw [if_neg hu, Slots.used_put_succ hf.lt (mt hux.mp hu), hf.marks.used]
  have hp : h'.p = h.p := by rw [hf.marks.eq]
  refine ⟨fun i hi => ?_, fun i w hw => ?_, hn ▸ hh.prime, hn ▸ hh.three_le, hn ▸ hh.small, ?_, ?_, hn ▸ hroom⟩
  · show (h'.p.set x (some v)).Has i
    rw [hp, Codec.Pages.has_set (hh.has x hf.lt)]
    exact hh.has i (hn ▸ hi)
  · rw [hs.node] at hw
    rw [hn]
    rcases Slots.node_put hw with ⟨rfl, -⟩ | ⟨-, hw⟩
    · exact hf.lt
    · exact hh.lt i w hw
  · rw [hn, hslots]
    exact hput
  · rw [hn, hslots]
    have := hh.used
    show _ ≤ nDirty
    omega

/-- What `mh_put` does to a table with room for one more node. -/
theorem putNode_stores (hh : h.Ok d) (hroom : h.nDirty + 1 < h.nBuckets) (v : ν) :
    ∃ h' x, putNode d h v = .ok h' ∧ h.Stores d h' v x ∧ h'.Ok d ∧ h'.nDirty ≤ h.nDirty + 1 ∧
      h'.size = if (h.node x).isSome then h.size else h.size + 1 := by
  obtain ⟨h₁, x, hslot, hf⟩ := mhPutSlot_finds hh v
  have hsize : h₁.size = h.size := by rw [hf.marks.eq]
  have hcount : h₁.nDirty = h.nDirty := by rw [hf.marks.eq]
  unfold putNode
  rw [hslot]
  simp only [bind, Except.bind, hf.marks.node]
  by_cases hnode : (h.node x).isSome = true
  · have hused : h.slots.Used x := .inl hnode
    rw [if_pos hnode]
    refine ⟨_, x, rfl, hf.stores hh h₁.size h₁.nDirty, hf.ok hh ?_ (by omega), by rw [← hcount]; exact Nat.le_succ _,
      by rw [if_pos hnode, ← hsize]; rfl⟩
    rw [if_pos hused, hcount]
    exact Nat.le_refl _
  · rw [if_neg hnode]
    refine ⟨_, x, rfl, hf.stores hh _ _, hf.ok hh ?_ ?_, ?_, by rw [if_neg hnode, ← hsize]⟩
    · by_cases hd : h₁.dirty x = true
      · rw [if_pos (hf.marks.only x hd), if_pos hd, hcount]
        exact Nat.le_refl _
      · rw [if_neg hd, hcount]
        split <;> omega
    · split <;> omega
    · show (if h₁.dirty x = true then h₁.nDirty else h₁.nDirty + 1) ≤ _
      split <;> omega

/-! ## Deleting a node -/

omit [DecidableEq κ] in
theorem delNode_node (h : Buckets ν) (x : Nat) : (delNode h x).node = (h.slots.free x).node := node_setFree h x

omit [DecidableEq κ] in
theorem delNode_holds (hh : h.Ok d) {x : Nat} {v : ν} (hv : h.node x = some v) (w : ν) :
    (delNode h x).slots.Holds w ↔ h.slots.Holds w ∧ d.key w ≠ d.key v := by
  unfold Slots.Holds
  rw [slots_node, delNode_node]
  exact hh.sound.holds_free hv w

omit [DecidableEq κ] in
theorem delNode_ok (hh : h.Ok d) {x : Nat} {v : ν} (hv : h.node x = some v) :
    (delNode h x).Ok d ∧ (delNode h x).nDirty ≤ h.nDirty := by
  have hslots : (delNode h x).slots = h.slots.free x := by
    unfold slots
    rw [delNode_node]
    rfl
  have hsome : (h.slots.node x).isSome = true := by rw [slots_node, hv]; rfl
  have hle : (delNode h x).nDirty ≤ h.nDirty := by
    show (if h.dirty x = true then h.nDirty else h.nDirty - 1) ≤ _
    split <;> omega
  have hlt : ∀ i w, (delNode h x).node i = some w → i < h.nBuckets := by
    intro i w hw
    rw [delNode_node] at hw
    exact hh.lt i w (Slots.node_free hw)
  refine ⟨⟨hh.has, hlt, hh.prime, hh.three_le, hh.small, ?_, ?_, Nat.lt_of_le_of_lt hle hh.room⟩, hle⟩
  · rw [hslots]
    exact hh.sound.free x
  · rw [hslots]
    show _ ≤ if h.dirty x = true then h.nDirty else h.nDirty - 1
    have hused := hh.used
    by_cases hd : h.dirty x = true
    · rw [if_pos hd]
      exact (Slots.used_free (s := h.slots) (n := h.nBuckets) hd).trans_le hused
    · rw [if_neg hd]
      have := Slots.used_free_succ (hh.lt _ _ hv) hsome (Bool.eq_false_iff.mpr hd)
      show (h.slots.free x).used h.nBuckets ≤ _
      omega

end Buckets

end BeePhp
