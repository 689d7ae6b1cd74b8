import BeePhp.Arguments

/-!
# bee.c: the names of the iterators

`convert_iterator` recognises a name by comparing byte after byte, and looks at a byte only when those
before it have matched. The branches are kept here as they stand; `iteratorConstants` is the list of
names and constants of `enum beex_iterator_type` that they are to recognise.
-/

namespace BeePhp

open Codec (Bytes)

def iteratorBitsAllSet : Int := 7
def iteratorBitsAnySet : Int := 8
def iteratorBitsAllNotSet : Int := 9

/-- The constants of the enumeration, each under its name without `ITERATOR_`. -/
def iteratorConstants : List (Bytes × Int) :=
  [(ascii "EQ", iteratorEq), (ascii "REQ", iteratorReq), (ascii "ALL", iteratorAll),
    (ascii "LT", iteratorLt), (ascii "LE", iteratorLe), (ascii "GE", iteratorGe),
    (ascii "GT", iteratorGt), (ascii "BITS_ALL_SET", iteratorBitsAllSet),
    (ascii "BITSET_ALL_SET", iteratorBitsetAllSet), (ascii "BITS_ANY_SET", iteratorBitsAnySet),
    (ascii "BITSET_ANY_SET", iteratorBitsetAnySet),
    (ascii "BITS_ALL_NOT_SET", iteratorBitsAllNotSet),
    (ascii "BITSET_ALL_NOT_SET", iteratorBitsetAllNotSet), (ascii "OVERLAPS", iteratorOverlaps),
    (ascii "NEIGHBOR", iteratorNeighbor)]

section Bytes

variable (i : ZStr)

/-- `toupper(i[k])`. Behind the bytes of a string there is a NUL, and nothing that may be read. -/
def upperAt (k : Nat) : Except Fault UInt8 :=
  match (i.val ++ [0])[k]? with
  | some c => .ok (toUpper c)
  | none => .error .oob

/-- `toupper(i[k]) == cs[0] && toupper(i[k + 1]) == cs[1] && …` -/
def spells : Nat → Bytes → Except Fault Bool
  | _, [] => .ok true
  | k, c :: cs => do if (← upperAt i k) = c then spells (k + 1) cs else return false

/-- `i_len == n`, and then the bytes from `k` on. -/
def endsWith (n k : Nat) (cs : String) : Except Fault Bool :=
  if i.val.length = n then spells i k (ascii cs) else .ok false

/-- `i_len > n`, and then the bytes from `k` on. -/
def goesOnWith (n k : Nat) (cs : String) : Except Fault Bool :=
  if i.val.length > n then spells i k (ascii cs) else .ok false

/-- The switch of `convert_iterator` on the first letter: the iterator, or none where it jumps to the
error. -/
def iteratorOfName : Except Fault (Option Int) := do
  let first ← upperAt i 0
  if first = 'A'.toUInt8 then
    if ← endsWith i 3 1 "LL" then return some iteratorAll
    return none
  else if first = 'B'.toUInt8 then
    if ← goesOnWith i 7 1 "ITSET_" then
      if ← endsWith i 18 7 "ALL_NOT_SET" then return some iteratorBitsetAllNotSet
      if ← endsWith i 14 7 "ALL_SET" then return some iteratorBitsetAllSet
      if ← endsWith i 14 7 "ANY_SET" then return some iteratorBitsetAnySet
    if ← goesOnWith i 4 1 "ITS_" then
      if ← endsWith i 16 5 "ALL_NOT_SET" then return some iteratorBitsetAllNotSet
      if ← endsWith i 12 5 "ALL_SET" then return some iteratorBitsetAllSet
      if ← endsWith i 12 5 "ANY_SET" then return some iteratorBitsetAnySet
    return none
  else if first = 'E'.toUInt8 then
    if ← endsWith i 2 1 "Q" then return some iteratorEq
    return none
  else if first = 'G'.toUInt8 then
    if i.val.length = 2 then
      let second ← upperAt i 1
      if second = 'E'.toUInt8 then return some iteratorGe
      if second = 'T'.toUInt8 then return some iteratorGt
    return none
  else if first = 'L'.toUInt8 then
    if i.val.length = 2 then
      let second ← upperAt i 1
      if second = 'T'.toUInt8 then return some iteratorLt
      if second = 'E'.toUInt8 then return some iteratorLe
    return none
  else if first = 'N'.toUInt8 then
    if ← endsWith i 8 1 "EIGHBOR" then return some iteratorNeighbor
    return none
  else if first = 'O'.toUInt8 then
    if ← endsWith i 8 1 "VERLAPS" then return some iteratorOverlaps
    return none
  else if first = 'R'.toUInt8 then
    if ← endsWith i 3 1 "EQ" then return some iteratorReq
    return none
  else return none

/-- `convert_iterator` for a string. -/
def convertIteratorName : M Int := do
  match ← iteratorOfName i with
  | some iterator => return iterator
  | none =>
    throwExc "Bad iterator name '%.*s'" [.s i.val]
    return -1

end Bytes

end BeePhp
