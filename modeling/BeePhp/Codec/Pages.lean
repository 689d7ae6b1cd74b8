import Mathlib.Data.List.Basic

/-!
# Arrays in pages

An array of values in pages of sixteen. Reading and writing take as many steps as there are pages before, not
entries, so that a run over such arrays can be evaluated.
-/

namespace BeePhp.Codec

/-- An array, page after page. -/
abbrev Pages (α : Type) := List (List α)

namespace Pages

variable {α : Type}

/-- An array with room for `n` entries. -/
def blank (n : Nat) (a : α) : Pages α := List.replicate (n / 16 + 1) (List.replicate 16 a)

def get (p : Pages α) (i : Nat) (a : α) : α := (p.getD (i / 16) []).getD (i % 16) a

def set (p : Pages α) (i : Nat) (a : α) : Pages α :=
  List.set p (i / 16) ((p.getD (i / 16) []).set (i % 16) a)

/-- The entry is there. -/
def Has (p : Pages α) (i : Nat) : Prop := i % 16 < (p.getD (i / 16) []).length

theorem has_blank {n i : Nat} (a : α) (hi : i < n) : (blank n a).Has i := by
  unfold Has blank
  rw [List.getD_eq_getElem?_getD, List.getElem?_replicate, if_pos (by omega), Option.getD_some,
    List.length_replicate]
  exact Nat.mod_lt i (by omega)

theorem lt_length {p : Pages α} {i : Nat} (hi : p.Has i) : i / 16 < p.length := by
  by_contra hge
  unfold Has at hi
  rw [List.getD_eq_getElem?_getD, List.getElem?_eq_none (Nat.not_lt.mp hge)] at hi
  exact Nat.not_lt_zero _ hi

/-- The page of an entry, after an entry has been written. -/
theorem getD_set {p : Pages α} {i : Nat} (hi : p.Has i) (a : α) (k : Nat) :
    (p.set i a).getD k [] = if k = i / 16 then (p.getD k []).set (i % 16) a else p.getD k [] := by
  unfold set
  rw [List.getD_eq_getElem?_getD, List.getElem?_set]
  by_cases hk : i / 16 = k
  · subst hk
    rw [if_pos rfl, if_pos (lt_length hi), if_pos rfl, Option.getD_some]
  · rw [if_neg hk, if_neg (fun h => hk h.symm), List.getD_eq_getElem?_getD]

theorem get_set {p : Pages α} {i : Nat} (hi : p.Has i) (a b : α) (j : Nat) :
    (p.set i a).get j b = if j = i then a else p.get j b := by
  unfold get
  rw [getD_set hi]
  by_cases hpage : j / 16 = i / 16
  · rw [if_pos hpage, List.getD_eq_getElem?_getD, List.getElem?_set]
    by_cases hj : i % 16 = j % 16
    · have hji : j = i := by omega
      unfold Has at hi
      rw [← hpage] at hi
      rw [if_pos hj, if_pos hi, if_pos hji, Option.getD_some]
    · rw [if_neg hj, if_neg (fun h => hj (by rw [h]))]
      simp only [List.getD_eq_getElem?_getD]
  · rw [if_neg hpage, if_neg (fun h => hpage (by rw [h]))]

theorem has_set {p : Pages α} {i : Nat} (hi : p.Has i) (a : α) (j : Nat) : (p.set i a).Has j ↔ p.Has j := by
  unfold Has
  rw [getD_set hi]
  by_cases hpage : j / 16 = i / 16
  · rw [if_pos hpage, List.length_set]
  · rw [if_neg hpage]

end Pages

end BeePhp.Codec
