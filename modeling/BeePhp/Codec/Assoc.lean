import Mathlib.Data.List.Basic
import Mathlib.Data.List.Nodup

/-!
# Ordered association lists

A table that remembers the order in which its keys were first entered: entering a key that is there
replaces its value in place, a new key goes to the end. `List.lookup` reads such a table.
-/

namespace BeePhp.Codec

variable {κ α : Type} [DecidableEq κ]

/-- Enter `v` under `k`. -/
def enter (k : κ) (v : α) : List (κ × α) → List (κ × α)
  | [] => [(k, v)]
  | (k', v') :: l => if k' = k then (k, v) :: l else (k', v') :: enter k v l

/-- The keys of a table, in order. -/
def keys (l : List (κ × α)) : List κ := l.map Prod.fst

theorem lookup_cons_ite [BEq κ] [LawfulBEq κ] (k k' : κ) (v : α) (l : List (κ × α)) :
    ((k', v) :: l).lookup k = if k = k' then some v else l.lookup k := by
  by_cases h : k = k'
  · simp [h]
  · rw [List.lookup_cons, beq_false_of_ne h, if_neg h]

theorem lookup_enter [BEq κ] [LawfulBEq κ] (k k' : κ) (v : α) (l : List (κ × α)) :
    (enter k v l).lookup k' = if k' = k then some v else l.lookup k' := by
  induction l with
  | nil => simp only [enter, lookup_cons_ite]
  | cons p l ih =>
    obtain ⟨k₀, v₀⟩ := p
    by_cases h₀ : k₀ = k
    · subst h₀
      by_cases h : k' = k₀ <;> simp [enter, lookup_cons_ite, h]
    · by_cases h : k' = k₀
      · subst h
        simp [enter, h₀]
      · simp [enter, lookup_cons_ite, h₀, h, ih]

theorem keys_enter (k : κ) (v : α) (l : List (κ × α)) :
    keys (enter k v l) = if k ∈ keys l then keys l else keys l ++ [k] := by
  induction l with
  | nil => simp [enter, keys]
  | cons p l ih =>
    obtain ⟨k₀, v₀⟩ := p
    by_cases h₀ : k₀ = k
    · simp [enter, keys, h₀]
    · have hne : k ≠ k₀ := fun h => h₀ h.symm
      simp only [enter, h₀, if_false]
      simp only [keys, List.map_cons, List.mem_cons, hne, false_or] at ih ⊢
      rw [ih]
      split <;> simp_all

/-- A new key goes to the end. -/
theorem enter_of_notMem {k : κ} {l : List (κ × α)} (h : k ∉ keys l) (v : α) :
    enter k v l = l ++ [(k, v)] := by
  induction l with
  | nil => rfl
  | cons p l ih =>
    obtain ⟨k₀, v₀⟩ := p
    simp only [keys, List.map_cons, List.mem_cons, not_or] at h
    rw [enter, if_neg (fun h₀ => h.1 h₀.symm), ih h.2]
    rfl

theorem nodup_enter {k : κ} {v : α} {l : List (κ × α)} (h : (keys l).Nodup) :
    (keys (enter k v l)).Nodup := by
  rw [keys_enter]
  split
  · exact h
  case isFalse hk =>
    exact List.nodup_append.mpr ⟨h, by simp, fun a ha b hb hab => by simp_all⟩

theorem lookup_isSome {k : κ} {l : List (κ × α)} : (l.lookup k).isSome ↔ k ∈ keys l := by
  simp [keys]

/-- In a table without a repeated key, the entries are what `lookup` finds. -/
theorem mem_iff_lookup {l : List (κ × α)} (h : (keys l).Nodup) {k : κ} {v : α} :
    (k, v) ∈ l ↔ l.lookup k = some v := by
  induction l with
  | nil => simp
  | cons p l ih =>
    obtain ⟨k₀, v₀⟩ := p
    obtain ⟨hnot, hnodup⟩ := List.nodup_cons.mp (show (k₀ :: keys l).Nodup from h)
    by_cases hk : k = k₀
    · subst hk
      have hout : (k, v) ∉ l := fun hm => hnot (List.mem_map.mpr ⟨_, hm, rfl⟩)
      simp [hout, eq_comm]
    · simp [lookup_cons_ite, hk, ih hnodup]

end BeePhp.Codec
