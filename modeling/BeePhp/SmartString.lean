import BeePhp.Machine

/-!
# smart_string

The growing buffer of PHP 5 (`smart_str`) and `smart_string_ensure`, `smart_string_nullify` of
bee_msgpack.c. The packing routines write at `SSTR_POS` and then add to the length.
-/

namespace BeePhp

open Codec (Bytes)

/-- A buffer: `c` is its memory, `a + 1` bytes long, or empty for a null pointer. New memory holds the
bytes of `fresh`. -/
structure SmartString where
  c : Bytes
  len : Nat
  fresh : Nat → UInt8
  len_le : len ≤ c.length

namespace SmartString

/-- `SSTR_AWA`. -/
def a (s : SmartString) : Nat := s.c.length - 1

/-- The bytes below the length. -/
def data (s : SmartString) : Bytes := s.c.take s.len

/-- A buffer without memory. -/
def null (fresh : Nat → UInt8) : SmartString := ⟨[], 0, fresh, le_refl 0⟩

/-- `realloc` to `n + 1` bytes. -/
def realloc (s : SmartString) (n : Nat) (h : s.len ≤ n) : SmartString where
  c := s.c.take (n + 1) ++ (List.range' s.c.length (n + 1 - s.c.length)).map s.fresh
  len := s.len
  fresh := s.fresh
  len_le := by
    have := s.len_le
    simp only [List.length_append, List.length_take, List.length_map, List.length_range']
    omega

def startSize : Nat := 78
def prealloc : Nat := 128

theorem len_eq_zero {s : SmartString} (h : s.c = []) : s.len = 0 := by
  simpa [h] using s.len_le

/-- `smart_string_alloc4`: room for `n` more bytes. -/
def alloc4 (s : SmartString) (n : Nat) : SmartString :=
  if h : s.c = [] then
    if n < startSize then s.realloc startSize (by simp [len_eq_zero h])
    else s.realloc (n + prealloc) (by simp [len_eq_zero h])
  else if s.len + n ≥ s.a then s.realloc (s.len + n + prealloc) (by omega)
  else s

/-- `smart_string_ensure`. -/
def ensure (s : SmartString) (len : Nat) : SmartString :=
  if s.a > s.len + len then s
  else
    let needed := s.a * 2
    let needed := if s.len + len > needed then s.len + len else needed
    s.alloc4 needed

/-- `smart_string_nullify`. -/
def nullify (s : SmartString) : SmartString where
  c := List.replicate s.a 0 ++ s.c.drop s.a
  len := s.len
  fresh := s.fresh
  len_le := by
    have := s.len_le
    simp only [a, List.length_append, List.length_replicate, List.length_drop]
    omega

/-- Write `bs` at the offset `pos`. -/
def write (s : SmartString) (pos : Nat) (bs : Bytes) : Except Fault SmartString :=
  if h : pos + bs.length ≤ s.c.length then
    .ok ⟨s.c.take pos ++ bs ++ s.c.drop (pos + bs.length), s.len, s.fresh, by
      have := s.len_le
      simp only [List.length_append, List.length_take, List.length_drop]
      omega⟩
  else .error .overrun

/-- `SSTR_LEN(str) = len`; the memory must have that many bytes. -/
def setLen (s : SmartString) (len : Nat) : Except Fault SmartString :=
  if h : len ≤ s.c.length then .ok { s with len := len, len_le := h } else .error .overrun

/-- What the packing routines have in common: make room for `needed` bytes, write `bs` at the end, and
add `needed` to the length. -/
def pack (s : SmartString) (needed : Nat) (bs : Bytes) : Except Fault SmartString := do
  let s := s.ensure needed
  let s ← s.write s.len bs
  s.setLen (s.len + needed)

end SmartString

end BeePhp
