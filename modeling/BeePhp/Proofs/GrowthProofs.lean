import BeePhp.Codec.Proofs.ReaderProofs
import BeePhp.Proofs.ResizeProofs

/-!
# Proofs: tables that have become too large

A table never shrinks, so that one with too many buckets for `uint32_t` stays such a table. Of all others the
invariant holds.
-/

namespace BeePhp

open Codec (except_bind_eq_ok)

variable {κ ν : Type} [DecidableEq κ] {d : Hashed κ ν}

/-! ## The prime of a table -/

theorem skipLoop_prime {k : κ} {fuel : Nat} {h : Buckets ν} {i : Nat} {r : Buckets ν × Nat × Bool}
    (hrun : skipLoop d k fuel h i = .ok r) : r.1.prime = h.prime := by
  induction fuel generalizing h i with
  | zero => cases hrun
  | succ fuel ih =>
    unfold skipLoop at hrun
    split at hrun
    · cases hrun
      rfl
    · split at hrun
      · cases hrun
        rfl
      · exact (ih hrun).trans rfl

theorem mhPutSlot_prime {h : Buckets ν} {v : ν} {r : Buckets ν × Nat} (hrun : mhPutSlot d h v = .ok r) :
    r.1.prime = h.prime := by
  obtain ⟨⟨s, i, found⟩, hskip, hrun⟩ := except_bind_eq_ok.mp hrun
  have hprime := skipLoop_prime hskip
  simp only at hrun
  split at hrun
  · cases hrun
    exact hprime
  · obtain ⟨x, -, hrun⟩ := except_bind_eq_ok.mp hrun
    cases hrun
    exact hprime

theorem putNode_prime {h h' : Buckets ν} {v : ν} (hrun : putNode d h v = .ok h') : h'.prime = h.prime := by
  obtain ⟨⟨s, x⟩, hslot, hrun⟩ := except_bind_eq_ok.mp hrun
  have hprime := mhPutSlot_prime hslot
  simp only at hrun
  split at hrun
  · cases hrun
    exact hprime
  · cases hrun
    exact hprime

theorem putShadow_prime {s s' : Buckets ν} {v : ν} (hrun : putShadow d s v = .ok s') : s'.prime = s.prime := by
  unfold putShadow at hrun
  split at hrun
  · cases hrun
    rfl
  · split at hrun
    · cases hrun
    · exact putNode_prime hrun

theorem resizeLoop_prime {h s : Buckets ν} {batch i : Nat} {r : Buckets ν × Nat}
    (hrun : resizeLoop d h batch i s = .ok r) : r.1.prime = s.prime := by
  induction batch generalizing i s with
  | zero =>
    cases hrun
    rfl
  | succ batch ih =>
    unfold resizeLoop at hrun
    split at hrun
    · split at hrun
      · exact ih hrun
      · obtain ⟨⟨t, n⟩, hslot, hrun⟩ := except_bind_eq_ok.mp hrun
        exact (ih hrun).trans (mhPutSlot_prime hslot)
    · cases hrun
      rfl

/-! ## Operations -/

namespace Mhash

variable {h h' : Mhash ν}

/-- The resize of a table whose shadow is too large. -/
theorem mhResize_huge (hp : 28 < h.prime) (hs : 28 < h.shadow.prime) (hrun : mhResize d h = .ok h') : h'.Huge := by
  obtain ⟨⟨s, i⟩, hloop, hrun⟩ := except_bind_eq_ok.mp hrun
  have hprime := resizeLoop_prime hloop
  simp only at hrun
  split at hrun
  · cases hrun
    exact ⟨hp, fun _ => hprime.symm ▸ hs⟩
  · cases hrun
    exact ⟨hprime.symm ▸ hs, fun hpos => absurd hpos (Nat.lt_irrefl 0)⟩

theorem mhStartResize_huge (hp : 28 < nextPrime (h.nBuckets + 1) h.prime) (hrun : mhStartResize d h = .ok h') :
    h'.Huge := by
  unfold mhStartResize at hrun
  simp only at hrun
  split at hrun
  · cases hrun
  · exact mhResize_huge (h := { h with prime := _, batch := _, shadow := _ }) hp hp hrun

theorem mhPutShadow_huge {v : ν} (hh : h.Huge) (hrun : mhPutShadow d h v = .ok h') : h'.Huge := by
  unfold mhPutShadow at hrun
  split at hrun
  case isTrue hpos =>
    obtain ⟨s, hput, hrun⟩ := except_bind_eq_ok.mp hrun
    cases hrun
    exact ⟨hh.1, fun _ => (putShadow_prime hput).symm ▸ hh.2 hpos⟩
  case isFalse =>
    cases hrun
    exact hh

/-- A table is still too large after one step of a put that has grown it. -/
theorem mhPut_of_grow_huge {v : ν} (hh : ∀ g, mhGrow d h = .ok g → g.Huge) (hfull : h.size ≠ h.nBuckets)
    (hrun : mhPut d h v = .ok h') : h'.Huge := by
  unfold mhPut at hrun
  rw [if_neg hfull] at hrun
  obtain ⟨g, hgrow, hrun⟩ := except_bind_eq_ok.mp hrun
  obtain ⟨g', hshadow, hrun⟩ := except_bind_eq_ok.mp hrun
  obtain ⟨b, hput, hrun⟩ := except_bind_eq_ok.mp hrun
  have hg := mhPutShadow_huge (hh g hgrow) hshadow
  cases hrun
  exact ⟨(putNode_prime hput).symm ▸ hg.1, hg.2⟩

theorem le_nextPrime (buckets prime : Nat) : prime ≤ nextPrime buckets prime := Nat.le_add_right _ _

theorem mhPut_huge {v : ν} (hh : h.Huge) (hrun : mhPut d h v = .ok h') : h'.Huge := by
  by_cases hfull : h.size = h.nBuckets
  · unfold mhPut at hrun
    rw [if_pos hfull] at hrun
    cases hrun
    exact hh
  · refine mhPut_of_grow_huge (fun g hgrow => ?_) hfull hrun
    unfold mhGrow at hgrow
    split at hgrow
    case isTrue hpos => exact mhResize_huge hh.1 (hh.2 hpos) hgrow
    case isFalse =>
      split at hgrow
      · exact mhStartResize_huge (Nat.lt_of_lt_of_le hh.1 (le_nextPrime _ _)) hgrow
      · cases hgrow
        exact hh

theorem mhDel_huge {x : Nat} (hh : h.Huge) (hrun : mhDel d h x = .ok h') : h'.Huge := by
  unfold mhDel at hrun
  split at hrun
  · cases hrun
    exact hh
  · simp only at hrun
    split at hrun
    case isTrue hpos =>
      obtain ⟨y, -, hrun⟩ := except_bind_eq_ok.mp hrun
      refine mhResize_huge (h := { h with toBuckets := delNode h.toBuckets x, shadow := _ }) hh.1 ?_ hrun
      show 28 < Buckets.prime (if _ then _ else _)
      split
      · exact hh.2 hpos
      · exact hh.2 hpos
    case isFalse hpos =>
      cases hrun
      exact ⟨hh.1, fun h => absurd h hpos⟩

/-- What `mh_put` does to a table that is not too large, unless it becomes so. -/
theorem mhPut_ok {v : ν} (hh : h.Ok d) (hrun : mhPut d h v = .ok h') :
    h'.Huge ∨ h'.Ok d ∧ ∀ w, h'.Holds w ↔ w = v ∨ h.Holds w ∧ d.key w ≠ d.key v := by
  by_cases hroom : h.CanGrow
  · obtain ⟨g, hput, hg⟩ := mhPut_spec hh hroom v
    cases hput.symm.trans hrun
    exact .inr hg
  · left
    unfold CanGrow at hroom
    push Not at hroom
    obtain ⟨hpos, hfull, hprime⟩ := hroom
    refine mhPut_of_grow_huge (fun g hgrow => ?_) hh.size_ne hrun
    unfold mhGrow at hgrow
    rw [if_neg (by rw [hpos]; exact Nat.lt_irrefl 0), if_pos hfull] at hgrow
    refine mhStartResize_huge ?_ hgrow
    rcases Nat.lt_or_eq_of_le hprime with hlt | heq
    · exact Nat.lt_of_lt_of_le hlt (le_nextPrime _ _)
    · obtain ⟨c, -, hbusy, -⟩ | hi := hh.state.symm
      · omega
      · have hnext := nextPrime_primeList 28 (by omega)
        have hranked := hi.ranked
        rw [← heq] at hranked ⊢
        rw [List.getD_eq_getElem?_getD, hranked, Option.getD_some] at hnext
        rw [hnext]
        exact Nat.lt_succ_self 28

omit [DecidableEq κ] in
/-- `mh_new`. -/
theorem mhNew_ok (d : Hashed κ ν) : (mhNew : Mhash ν).Ok d ∧ ∀ v, ¬(mhNew : Mhash ν).Holds v := by
  obtain ⟨hprime, hthree, hsmall⟩ := primeList_prime (Nat.zero_le 28) rfl
  have hnone : ∀ v, ¬(mhNew : Mhash ν).Holds v := by
    rintro v ⟨i, hv⟩
    exact absurd ((blank_node 3 0 0 i).symm.trans hv) (Option.some_ne_none v).symm
  have hheld : (mhNew : Mhash ν).slots.held 0 3 = 0 := by
    refine Finset.card_eq_zero.mpr (Finset.filter_eq_empty_iff.mpr fun i _ hi => ?_)
    obtain ⟨v, hv⟩ := Option.isSome_iff_exists.mp hi
    exact hnone v ⟨i, hv⟩
  exact ⟨⟨blank_ok hprime hthree hsmall 0 0, hheld.symm, .inl ⟨rfl, rfl, rfl, Nat.zero_le _⟩⟩, hnone⟩

end Mhash

end BeePhp
