import BeePhp.Proofs.GrowthProofs
import BeePhp.TableRuns

/-!
# Proofs: runs of a table

Fewer than 2^29 puts never fill a table so much that it needs more buckets than `uint32_t` allows. So any run of
calls with no more puts returns, and finds what a map holds.
-/

namespace BeePhp

open Codec (except_bind_eq_ok)
open Probing

variable {κ ν : Type} [DecidableEq κ] {d : Hashed κ ν}

/-! ## Counting nodes -/

namespace Buckets

variable {h s : Buckets ν}

theorem skipLoop_nDirty {k : κ} {fuel : Nat} {i : Nat} {r : Buckets ν × Nat × Bool}
    (hrun : skipLoop d k fuel h i = .ok r) : r.1.nDirty = h.nDirty ∧ r.1.size = h.size := by
  induction fuel generalizing h i with
  | zero => cases hrun
  | succ fuel ih =>
    unfold skipLoop at hrun
    split at hrun
    · cases hrun
      exact ⟨rfl, rfl⟩
    · split at hrun
      · cases hrun
        exact ⟨rfl, rfl⟩
      · obtain ⟨hdirty, hsize⟩ := ih hrun
        exact ⟨hdirty.trans rfl, hsize.trans rfl⟩

theorem mhPutSlot_nDirty {v : ν} {r : Buckets ν × Nat} (hrun : mhPutSlot d h v = .ok r) :
    r.1.nDirty = h.nDirty ∧ r.1.size = h.size := by
  obtain ⟨⟨t, i, found⟩, hskip, hrun⟩ := except_bind_eq_ok.mp hrun
  have hcounts := skipLoop_nDirty hskip
  simp only at hrun
  split at hrun
  · cases hrun
    exact hcounts
  · obtain ⟨x, -, hrun⟩ := except_bind_eq_ok.mp hrun
    cases hrun
    exact hcounts

theorem putNode_nDirty {v : ν} {b : Buckets ν} (hrun : putNode d h v = .ok b) :
    b.nDirty ≤ h.nDirty + 1 ∧ b.size ≤ h.size + 1 := by
  obtain ⟨⟨t, x⟩, hslot, hrun⟩ := except_bind_eq_ok.mp hrun
  obtain ⟨hdirty, hsize⟩ := mhPutSlot_nDirty hslot
  dsimp only at hrun hdirty hsize
  split at hrun
  · cases hrun
    have hd : (t.setNode x v).nDirty = t.nDirty := rfl
    have hs : (t.setNode x v).size = t.size := rfl
    omega
  · cases hrun
    dsimp only
    split <;> omega

theorem putShadow_nDirty {v : ν} (hrun : putShadow d h v = .ok s) : s.nDirty ≤ h.nDirty + 1 := by
  unfold putShadow at hrun
  split at hrun
  · cases hrun
    exact Nat.le_succ _
  · split at hrun
    · cases hrun
    · exact (putNode_nDirty hrun).1

/-- A node that is moved is counted in the shadow, and no longer among those that are left. -/
theorem resizeLoop_nDirty {batch i : Nat} {r : Buckets ν × Nat} (hrun : resizeLoop d h batch i s = .ok r) :
    r.1.nDirty + h.slots.held r.2 h.nBuckets = s.nDirty + h.slots.held i h.nBuckets := by
  induction batch generalizing i s with
  | zero =>
    cases hrun
    rfl
  | succ batch ih =>
    unfold resizeLoop at hrun
    split at hrun
    case isTrue hi =>
      have hheld := Slots.held_succ (s := h.slots) hi
      rw [slots_node] at hheld
      split at hrun
      case h_1 hnone =>
        rw [hnone] at hheld
        exact (ih hrun).trans (by rw [hheld]; rfl)
      case h_2 v hnode =>
        obtain ⟨⟨t, n⟩, hslot, hrun⟩ := except_bind_eq_ok.mp hrun
        have hdirty := (mhPutSlot_nDirty hslot).1
        have hmoved := ih hrun
        rw [hnode, if_pos (Option.isSome_some)] at hheld
        dsimp only at hmoved hdirty
        have hset : (t.setNode n v).nDirty = t.nDirty := rfl
        omega
    case isFalse =>
      cases hrun
      rfl

end Buckets

namespace Mhash

variable {h h' : Mhash ν} {n : Nat}

theorem mhResize_counts (hsize : h.size ≤ n) (hdirty : h.nDirty ≤ 2 * n)
    (hshadow : h.shadow.nDirty + h.slots.held h.resizePosition h.nBuckets ≤ 2 * n)
    (hrun : mhResize d h = .ok h') : h'.Counts n := by
  obtain ⟨⟨s, i⟩, hloop, hrun⟩ := except_bind_eq_ok.mp hrun
  have hmoved := Buckets.resizeLoop_nDirty hloop
  dsimp only at hrun hmoved
  split at hrun
  · cases hrun
    refine ⟨hsize, hdirty, fun _ => ?_⟩
    show s.nDirty + h.slots.held i h.nBuckets ≤ 2 * n
    omega
  · cases hrun
    refine ⟨hsize, ?_, fun hpos => absurd hpos (Nat.lt_irrefl 0)⟩
    show s.nDirty ≤ 2 * n
    omega

theorem Counts.grow (hh : h.Ok d) (hc : h.Counts n) (hrun : mhGrow d h = .ok h') : h'.Counts n := by
  have hheld := hh.size
  have hsize := hc.size
  have hdirty := hc.nDirty
  unfold mhGrow at hrun
  split at hrun
  case isTrue hpos => exact mhResize_counts hsize hdirty (hc.shadow hpos) hrun
  case isFalse hpos =>
    split at hrun
    · unfold mhStartResize at hrun
      dsimp only at hrun
      split at hrun
      · cases hrun
      · refine mhResize_counts ?_ ?_ ?_ hrun
        · exact hsize
        · exact hdirty
        · show 0 + h.slots.held h.resizePosition h.nBuckets ≤ 2 * n
          rw [Nat.eq_zero_of_not_pos hpos]
          omega
    · cases hrun
      exact hc

theorem Counts.put (hh : h.Ok d) (hroom : h.CanGrow) (hc : h.Counts n) {v : ν} (hrun : mhPut d h v = .ok h') :
    h'.Counts (n + 1) := by
  unfold mhPut at hrun
  rw [if_neg hh.size_ne] at hrun
  obtain ⟨g, hgrow, hrun⟩ := except_bind_eq_ok.mp hrun
  obtain ⟨g', hshadow, hrun⟩ := except_bind_eq_ok.mp hrun
  obtain ⟨b, hput, hrun⟩ := except_bind_eq_ok.mp hrun
  cases hrun
  obtain ⟨g₁, hgrow₁, hsame, hready⟩ := mhGrow_ready hh hroom
  cases hgrow₁.symm.trans hgrow
  obtain ⟨hsize, hdirty, hwaits⟩ := hc.grow hh hgrow
  obtain ⟨b₁, x, hput₁, hstores, -⟩ := Buckets.putNode_stores hsame.buckets (hready.room hsame.buckets) v
  have hbuckets : g'.toBuckets = g.toBuckets ∧ g'.resizePosition = g.resizePosition ∧
      (0 < g.resizePosition → g'.shadow.nDirty ≤ g.shadow.nDirty + 1) := by
    unfold mhPutShadow at hshadow
    split at hshadow
    · obtain ⟨s, hs, hshadow⟩ := except_bind_eq_ok.mp hshadow
      cases hshadow
      exact ⟨rfl, rfl, fun _ => Buckets.putShadow_nDirty hs⟩
    · cases hshadow
      exact ⟨rfl, rfl, fun _ => Nat.le_succ _⟩
  obtain ⟨hb, hposition, hmore⟩ := hbuckets
  rw [hb] at hput
  cases hput₁.symm.trans hput
  obtain ⟨hdirty', hsize'⟩ := Buckets.putNode_nDirty hput
  refine ⟨?_, ?_, fun hpos => ?_⟩
  · show b.size ≤ n + 1
    omega
  · show b.nDirty ≤ 2 * (n + 1)
    omega
  · have hpos : 0 < g.resizePosition := hposition ▸ hpos
    have hheld : b.slots.held g.resizePosition g.nBuckets ≤ g.slots.held g.resizePosition g.nBuckets + 1 := by
      rw [Slots.held_congr (s := g.slots.put x v) (t := b.slots) hstores.node]
      exact Slots.held_put_le
    have hshadow := hmore hpos
    have hbefore := hwaits hpos
    show g'.shadow.nDirty + b.slots.held g'.resizePosition b.nBuckets ≤ 2 * (n + 1)
    rw [hposition, hstores.nBuckets]
    omega

theorem Counts.del (hc : h.Counts n) {x : Nat} (hrun : mhDel d h x = .ok h') : h'.Counts n := by
  obtain ⟨hsize, hdirty, hwaits⟩ := hc
  unfold mhDel at hrun
  split at hrun
  · cases hrun
    exact ⟨hsize, hdirty, hwaits⟩
  case h_2 v hnode =>
    have hsize' : (delNode h.toBuckets x).size ≤ n := (Nat.sub_le _ 1).trans hsize
    have hdirty' : (delNode h.toBuckets x).nDirty ≤ 2 * n := by
      show (if h.dirty x = true then h.nDirty else h.nDirty - 1) ≤ _
      split <;> omega
    have hheld : (delNode h.toBuckets x).slots.held h.resizePosition h.nBuckets ≤
        h.slots.held h.resizePosition h.nBuckets := by
      rw [Slots.held_congr (s := h.slots.free x) (t := (delNode h.toBuckets x).slots)
        (Buckets.delNode_node h.toBuckets x)]
      exact Slots.held_free_le
    dsimp only at hrun
    split at hrun
    case isTrue hpos =>
      obtain ⟨y, -, hrun⟩ := except_bind_eq_ok.mp hrun
      have hbefore := hwaits hpos
      refine mhResize_counts ?_ ?_ ?_ hrun
      · exact hsize'
      · exact hdirty'
      show (if (h.shadow.node y).isSome = true then delNode h.shadow y else h.shadow).nDirty +
        (delNode h.toBuckets x).slots.held h.resizePosition h.nBuckets ≤ 2 * n
      have hshadow : (if (h.shadow.node y).isSome = true then delNode h.shadow y else h.shadow).nDirty ≤
          h.shadow.nDirty := by
        split
        · show (if h.shadow.dirty y = true then h.shadow.nDirty else h.shadow.nDirty - 1) ≤ _
          split <;> omega
        · exact Nat.le_refl _
      omega
    case isFalse hpos =>
      cases hrun
      exact ⟨hsize', hdirty', fun hpos' => absurd hpos' hpos⟩

omit [DecidableEq κ] in
/-- There is a larger prime for a table with so few nodes. -/
theorem Counts.canGrow (hh : h.Ok d) (hc : h.Counts n) (hn : n < 2 ^ 29) : h.CanGrow := by
  intro hposition hfull
  by_contra hprime
  rcases hh.state with hi | ⟨-, -, hpos, -⟩
  · have hranked := hi.ranked
    have hupper := hi.upperBound
    have hdirty := hc.nDirty
    have hlt : h.prime < primeList.length := (List.getElem?_eq_some_iff.mp hranked).1
    have hwide : 2 ^ 30 ≤ density (primeList.getD h.prime 0) := by
      have hprimes : ∀ i < primeList.length, 28 ≤ i → 2 ^ 30 ≤ density (primeList.getD i 0) := by decide
      exact hprimes _ hlt (Nat.le_of_not_lt hprime)
    rw [List.getD_eq_getElem?_getD, hranked, Option.getD_some] at hwide
    omega
  · omega

/-! ## Runs -/

omit [DecidableEq κ] in
theorem new_represents (d : Hashed κ ν) : (mhNew : Mhash ν).Represents d (fun _ => none) 0 where
  ok := (mhNew_ok d).1
  counts := ⟨Nat.le_refl 0, Nat.le_refl 0, fun hpos => absurd hpos (Nat.lt_irrefl 0)⟩
  holds k v := by
    refine ⟨fun h => ?_, fun hv => ?_⟩
    · cases h
    · exact absurd hv.1 ((mhNew_ok d).2 v)

variable {m : κ → Option ν}

/-- What `mh_find` finds is what the map holds. -/
theorem Represents.find (hr : h.Represents d m n) (k : κ) :
    ∃ x, mhFind d h.toBuckets k = .ok x ∧ h.node x = m k := by
  obtain ⟨x, hfind, hfound⟩ := Buckets.mhFind_found hr.ok.buckets k
  refine ⟨x, hfind, ?_⟩
  rcases hfound with ⟨v, hv, hkey⟩ | ⟨rfl, habsent⟩
  · rw [(hr.holds k v).mpr ⟨⟨x, hv⟩, hkey⟩]
    exact hv
  · have hnone : h.node h.nBuckets = none := by
      cases hnode : h.node h.nBuckets with
      | none => rfl
      | some v => exact absurd (hr.ok.buckets.lt _ v hnode) (Nat.lt_irrefl _)
    rw [hnone]
    cases hm : m k with
    | none => rfl
    | some v =>
      obtain ⟨hv, hkey⟩ := (hr.holds k v).mp hm
      exact absurd hkey (habsent v hv)

theorem Represents.put (hr : h.Represents d m n) (hn : n < 2 ^ 29) (v : ν) :
    ∃ h', mhPut d h v = .ok h' ∧ h'.Represents d (Function.update m (d.key v) (some v)) (n + 1) := by
  have hroom := hr.counts.canGrow hr.ok hn
  obtain ⟨h', hrun, hok, hholds⟩ := mhPut_spec hr.ok hroom v
  refine ⟨h', hrun, hok, hr.counts.put hr.ok hroom hrun, fun k w => ?_⟩
  rw [hholds]
  by_cases hk : k = d.key v
  · subst hk
    rw [Function.update_self, Option.some.injEq]
    constructor
    · rintro rfl
      exact ⟨.inl rfl, rfl⟩
    · rintro ⟨rfl | ⟨-, hne⟩, hkey⟩
      · rfl
      · exact absurd hkey hne
  · rw [Function.update_of_ne hk, hr.holds]
    constructor
    · rintro ⟨hw, rfl⟩
      exact ⟨.inr ⟨hw, hk⟩, rfl⟩
    · rintro ⟨rfl | ⟨hw, -⟩, hkey⟩
      · exact absurd hkey.symm hk
      · exact ⟨hw, hkey⟩

theorem Represents.del (hr : h.Represents d m n) {k : κ} {x : Nat} (hnode : h.node x = m k) :
    ∃ h', mhDel d h x = .ok h' ∧ h'.Represents d (Function.update m k none) n := by
  cases hm : m k with
  | none =>
    rw [hm] at hnode
    have hrun : mhDel d h x = .ok h := by
      unfold mhDel
      rw [hnode]
    have hsame : Function.update m k none = m := by
      rw [← hm, Function.update_eq_self]
    refine ⟨h, hrun, ?_⟩
    rw [hsame]
    exact hr
  | some v =>
    rw [hm] at hnode
    obtain ⟨-, hkey⟩ := (hr.holds k v).mp hm
    obtain ⟨h', hrun, hok, hholds, -⟩ := mhDel_spec hr.ok hnode
    refine ⟨h', hrun, hok, hr.counts.del hrun, fun k' w => ?_⟩
    rw [hholds, hkey]
    by_cases hk : k' = k
    · subst hk
      rw [Function.update_self]
      exact ⟨fun h => (Option.some_ne_none w h.symm).elim, fun h => absurd h.2 h.1.2⟩
    · rw [Function.update_of_ne hk, hr.holds]
      constructor
      · rintro ⟨hw, rfl⟩
        exact ⟨⟨hw, hk⟩, rfl⟩
      · rintro ⟨⟨hw, -⟩, hkey'⟩
        exact ⟨hw, hkey'⟩

/-- A call on the table does and finds what it does and finds on the map. -/
theorem Represents.call (hr : h.Represents d m n) {c : TableCall κ ν} (hn : n + c.puts ≤ 2 ^ 29) :
    ∃ h', c.run d h = .ok (h', (c.runMap d m).2) ∧ h'.Represents d (c.runMap d m).1 (n + c.puts) := by
  cases c with
  | put v =>
    obtain ⟨h', hrun, hr'⟩ := hr.put (Nat.lt_of_succ_le hn) v
    exact ⟨h', by rw [TableCall.run, hrun]; rfl, hr'⟩
  | del k =>
    obtain ⟨x, hfind, hnode⟩ := hr.find k
    obtain ⟨h', hrun, hr'⟩ := hr.del hnode
    refine ⟨h', ?_, hr'⟩
    rw [TableCall.run, hfind]
    simp only [bind, Except.bind, hrun, hnode]
    rfl
  | find k =>
    obtain ⟨x, hfind, hnode⟩ := hr.find k
    refine ⟨h, ?_, hr⟩
    rw [TableCall.run, hfind]
    simp only [bind, Except.bind, hnode]
    rfl

theorem Represents.calls (hr : h.Represents d m n) {cs : List (TableCall κ ν)}
    (hn : n + (cs.map TableCall.puts).sum ≤ 2 ^ 29) :
    ∃ h', runTableCalls d cs h = .ok (h', (runMapCalls d cs m).2) := by
  induction cs generalizing h m n with
  | nil => exact ⟨h, rfl⟩
  | cons c cs ih =>
    rw [List.map_cons, List.sum_cons] at hn
    obtain ⟨h₁, hrun, hr₁⟩ := hr.call (c := c) (by omega)
    obtain ⟨h₂, hrest⟩ := ih hr₁ (by omega)
    refine ⟨h₂, ?_⟩
    rw [runTableCalls, hrun]
    simp only [bind, Except.bind, hrest]
    rfl

end Mhash

/-- Calls on a new table, at most 2^29 of them puts, return, and find what they find on an empty map. -/
theorem runTableCalls_answers (d : Hashed κ ν) {cs : List (TableCall κ ν)}
    (hputs : (cs.map TableCall.puts).sum ≤ 2 ^ 29) :
    ∃ h, runTableCalls d cs mhNew = .ok (h, (runMapCalls d cs fun _ => none).2) :=
  (Mhash.new_represents d).calls (by omega)

theorem runTableCalls_answers_three :
    ∃ h, runTableCalls (⟨UInt32.ofNat, fun v : Nat × Nat => v.1⟩ : Hashed Nat (Nat × Nat))
      [.put (7, 1), .put (10, 2), .del 7, .find 10, .find 7] mhNew =
        .ok (h, [none, none, some (7, 1), some (10, 2), none]) :=
  runTableCalls_answers _ (by decide)

end BeePhp
