import BeePhp.SmartString
import Mathlib.Tactic.SplitIfs

/-!
# Proofs: smart_string

`smart_string_ensure` keeps the bytes of a buffer and makes room for more, so that a packing routine
whose size function is right appends its bytes (`pack_spec`).
-/

namespace BeePhp.SmartString

open Codec (Bytes)

@[simp] theorem data_length (s : SmartString) : s.data.length = s.len := by
  have := s.len_le
  simp only [data, List.length_take]
  omega

@[simp] theorem realloc_len (s : SmartString) (n : Nat) (h : s.len ≤ n) :
    (s.realloc n h).len = s.len := rfl

@[simp] theorem realloc_a (s : SmartString) (n : Nat) (h : s.len ≤ n) : (s.realloc n h).a = n := by
  simp only [a, realloc, List.length_append, List.length_take, List.length_map, List.length_range']
  omega

@[simp] theorem realloc_data (s : SmartString) (n : Nat) (h : s.len ≤ n) :
    (s.realloc n h).data = s.data := by
  have := s.len_le
  simp only [data, realloc]
  rw [List.take_append_of_le_length (by simp only [List.length_take]; omega), List.take_take]
  congr 1
  omega

theorem alloc4_spec (s : SmartString) (n : Nat) :
    (s.alloc4 n).len = s.len ∧ (s.alloc4 n).data = s.data ∧ s.len + n < (s.alloc4 n).a := by
  have hlen := s.len_le
  unfold alloc4
  split_ifs with hnull hsmall hfull
  · simp only [hnull, List.length_nil] at hlen
    simp only [realloc_len, realloc_data, realloc_a, true_and]
    omega
  · simp only [hnull, List.length_nil] at hlen
    simp only [realloc_len, realloc_data, realloc_a, true_and, prealloc]
    omega
  · simp only [realloc_len, realloc_data, realloc_a, true_and, prealloc]
    omega
  · exact ⟨rfl, rfl, by omega⟩

/-- `smart_string_ensure` keeps the bytes and makes room. -/
theorem ensure_spec (s : SmartString) (n : Nat) :
    (s.ensure n).len = s.len ∧ (s.ensure n).data = s.data ∧ s.len + n < (s.ensure n).a := by
  by_cases h : s.a > s.len + n
  · rw [ensure, if_pos h]
    exact ⟨rfl, rfl, h⟩
  · have hspec (m : Nat) (hm : n ≤ m) : (s.alloc4 m).len = s.len ∧ (s.alloc4 m).data = s.data ∧
        s.len + n < (s.alloc4 m).a := by
      obtain ⟨h1, h2, h3⟩ := s.alloc4_spec m
      exact ⟨h1, h2, by omega⟩
    simp only [ensure, if_neg h]
    split_ifs
    · exact hspec _ (by omega)
    · exact hspec _ (by omega)

/-- A packing routine appends its bytes, when it is right about their number. -/
theorem pack_spec (s : SmartString) {needed : Nat} {bs : Bytes} (h : bs.length = needed) :
    ∃ s', s.pack needed bs = .ok s' ∧ s'.data = s.data ++ bs := by
  obtain ⟨hlen, hdata, hroom⟩ := s.ensure_spec needed
  have hle := (s.ensure needed).len_le
  simp only [a] at hroom
  simp only [pack, write, bind, Except.bind]
  rw [dif_pos (show (s.ensure needed).len + bs.length ≤ (s.ensure needed).c.length by omega)]
  simp only [setLen]
  rw [dif_pos (by simp only [List.length_append, List.length_take, List.length_drop]; omega)]
  refine ⟨_, rfl, ?_⟩
  simp only [data] at hdata ⊢
  rw [← hdata, hlen, List.take_append_of_le_length
    (by simp only [List.length_append, List.length_take]; omega), List.take_of_length_le
    (by simp only [List.length_append, List.length_take]; omega)]

end BeePhp.SmartString
