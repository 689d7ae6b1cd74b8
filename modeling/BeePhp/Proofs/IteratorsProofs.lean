import BeePhp.Iterators

/-!
# Proofs: the names of the iterators

Every comparison of `convert_iterator` stays inside the string and its NUL (`spells_eq`), and together
they recognise the names of the constants (`iteratorOfName_eq`).
-/

namespace BeePhp

open Codec (Bytes)

section Reading

variable {i : ZStr}

/-- The string in upper case. -/
def upper (i : ZStr) : Bytes := i.val.map toUpper

theorem upper_length : (upper i).length = i.val.length := List.length_map _

theorem upperAt_lt {k : Nat} (h : k < (upper i).length) : upperAt i k = .ok (upper i)[k] := by
  have hk : k < i.val.length := upper_length ▸ h
  have hget : (i.val ++ [0])[k]? = some i.val[k] := by
    rw [List.getElem?_append_left hk, List.getElem?_eq_getElem hk]
  simp only [upperAt, hget, upper, List.getElem_map]

/-- The first byte can always be read: it is the NUL of an empty string. -/
theorem upperAt_zero : upperAt i 0 = .ok ((upper i).headD 0) := by
  by_cases h : 0 < (upper i).length
  · rw [upperAt_lt h]
    obtain ⟨c, t, ht⟩ : ∃ c t, upper i = c :: t := List.exists_cons_of_length_pos h
    simp only [ht, List.getElem_cons_zero, List.headD_cons]
  · have hnil : i.val = [] := by
      rw [upper_length] at h
      exact List.eq_nil_of_length_eq_zero (by omega)
    simp only [upperAt, upper, hnil]
    rfl

theorem spells_eq {cs : Bytes} {k : Nat} (h : k + cs.length ≤ (upper i).length) :
    spells i k cs = .ok (decide (((upper i).drop k).take cs.length = cs)) := by
  induction cs generalizing k with
  | nil => simp [spells]
  | cons c cs ih =>
    rw [List.length_cons] at h
    have hk : k < (upper i).length := by omega
    simp only [spells, upperAt_lt hk, bind, Except.bind, List.drop_eq_getElem_cons hk, List.length_cons,
      List.take_succ_cons, List.cons.injEq]
    by_cases hc : (upper i)[k] = c
    · rw [if_pos hc, ih (by omega)]
      simp only [hc, true_and]
    · rw [if_neg hc]
      simp only [hc, false_and, decide_false]
      rfl

/-- Comparing the length first keeps the comparisons inside the string. -/
theorem endsWith_eq {n k : Nat} {cs : String} (hn : n = k + (ascii cs).length) (hcs : ascii cs ≠ []) :
    endsWith i n k cs = .ok (decide ((upper i).drop k = ascii cs)) := by
  have hpos := List.length_pos_of_ne_nil hcs
  unfold endsWith
  rw [← upper_length]
  by_cases h : (upper i).length = n
  · rw [if_pos h, spells_eq (by omega), List.take_of_length_le (by rw [List.length_drop]; omega)]
  · rw [if_neg h]
    have hne : (upper i).drop k ≠ ascii cs := by
      intro heq
      have hlen := congrArg List.length heq
      rw [List.length_drop] at hlen
      omega
    rw [decide_eq_false hne]

theorem goesOnWith_eq {n k : Nat} {cs : String} (hn : k + (ascii cs).length ≤ n + 1) :
    goesOnWith i n k cs = .ok (decide (n < (upper i).length ∧
      ((upper i).drop k).take (ascii cs).length = ascii cs)) := by
  unfold goesOnWith
  rw [← upper_length]
  by_cases h : (upper i).length > n
  · have hlt : n < (upper i).length := h
    rw [if_pos h, spells_eq (by omega)]
    simp only [hlt, true_and]
  · rw [if_neg h]
    have hle : ¬ n < (upper i).length := h
    simp only [hle, false_and, decide_false]

end Reading

/-! ## The table of the names -/

theorem iteratorConstants_eq : iteratorConstants =
    [([69, 81], 0), ([82, 69, 81], 1), ([65, 76, 76], 2), ([76, 84], 3), ([76, 69], 4), ([71, 69], 5),
      ([71, 84], 6), ([66, 73, 84, 83, 95, 65, 76, 76, 95, 83, 69, 84], 7),
      ([66, 73, 84, 83, 69, 84, 95, 65, 76, 76, 95, 83, 69, 84], 7),
      ([66, 73, 84, 83, 95, 65, 78, 89, 95, 83, 69, 84], 8),
      ([66, 73, 84, 83, 69, 84, 95, 65, 78, 89, 95, 83, 69, 84], 8),
      ([66, 73, 84, 83, 95, 65, 76, 76, 95, 78, 79, 84, 95, 83, 69, 84], 9),
      ([66, 73, 84, 83, 69, 84, 95, 65, 76, 76, 95, 78, 79, 84, 95, 83, 69, 84], 9),
      ([79, 86, 69, 82, 76, 65, 80, 83], 10), ([78, 69, 73, 71, 72, 66, 79, 82], 11)] := rfl

section Lookup

variable (t : Bytes)

theorem lookup_A : iteratorConstants.lookup (65 :: t) = if t = [76, 76] then some 2 else none := by
  rw [iteratorConstants_eq]
  simp [Codec.lookup_cons_ite]

theorem lookup_B : iteratorConstants.lookup (66 :: t) =
    if t = [73, 84, 83, 95, 65, 76, 76, 95, 83, 69, 84] then some 7
    else if t = [73, 84, 83, 69, 84, 95, 65, 76, 76, 95, 83, 69, 84] then some 7
    else if t = [73, 84, 83, 95, 65, 78, 89, 95, 83, 69, 84] then some 8
    else if t = [73, 84, 83, 69, 84, 95, 65, 78, 89, 95, 83, 69, 84] then some 8
    else if t = [73, 84, 83, 95, 65, 76, 76, 95, 78, 79, 84, 95, 83, 69, 84] then some 9
    else if t = [73, 84, 83, 69, 84, 95, 65, 76, 76, 95, 78, 79, 84, 95, 83, 69, 84] then some 9
    else none := by
  rw [iteratorConstants_eq]
  simp [Codec.lookup_cons_ite]

theorem lookup_E : iteratorConstants.lookup (69 :: t) = if t = [81] then some 0 else none := by
  rw [iteratorConstants_eq]
  simp [Codec.lookup_cons_ite]

theorem lookup_G : iteratorConstants.lookup (71 :: t) =
    if t = [69] then some 5 else if t = [84] then some 6 else none := by
  rw [iteratorConstants_eq]
  simp [Codec.lookup_cons_ite]

theorem lookup_L : iteratorConstants.lookup (76 :: t) =
    if t = [84] then some 3 else if t = [69] then some 4 else none := by
  rw [iteratorConstants_eq]
  simp [Codec.lookup_cons_ite]

theorem lookup_N : iteratorConstants.lookup (78 :: t) =
    if t = [69, 73, 71, 72, 66, 79, 82] then some 11 else none := by
  rw [iteratorConstants_eq]
  simp [Codec.lookup_cons_ite]

theorem lookup_O : iteratorConstants.lookup (79 :: t) =
    if t = [86, 69, 82, 76, 65, 80, 83] then some 10 else none := by
  rw [iteratorConstants_eq]
  simp [Codec.lookup_cons_ite]

theorem lookup_R : iteratorConstants.lookup (82 :: t) = if t = [69, 81] then some 1 else none := by
  rw [iteratorConstants_eq]
  simp [Codec.lookup_cons_ite]

/-- No name begins with another letter. -/
theorem lookup_other {c : UInt8} (h : c ∉ ascii "ABEGLNOR") :
    iteratorConstants.lookup (c :: t) = none := by
  have hne : ∀ d ∈ ascii "ABEGLNOR", c ≠ d := fun d hd hcd => h (hcd ▸ hd)
  have hletters : ascii "ABEGLNOR" = [65, 66, 69, 71, 76, 78, 79, 82] := rfl
  simp only [hletters, List.forall_mem_cons] at hne
  rw [iteratorConstants_eq]
  simp [Codec.lookup_cons_ite, hne]

end Lookup

/-- A beginning that is compared first, and what stands behind it. -/
theorem take_drop_iff {t a s : Bytes} {n m : Nat} (ha : a.length = m) (hn : n < m + s.length + 1) :
    (n < t.length + 1 ∧ t.take m = a) ∧ t.drop m = s ↔ t = a ++ s := by
  constructor
  · rintro ⟨⟨-, rfl⟩, rfl⟩
    exact (List.take_append_drop m t).symm
  · rintro rfl
    refine ⟨⟨?_, ?_⟩, ?_⟩
    · rw [List.length_append]
      omega
    · rw [List.take_append_of_le_length (by omega), List.take_of_length_le (by omega)]
    · rw [List.drop_append_of_le_length (by omega), List.drop_of_length_le (by omega),
        List.nil_append]

/-- Three names with a common beginning, and what comes after them. -/
theorem ite_common {P A B C : Prop} [Decidable P] [Decidable A] [Decidable B] [Decidable C]
    {x y z r : Except Fault (Option Int)} :
    (if P then if A then x else if B then y else if C then z else r else r) =
      if P ∧ A then x else if P ∧ B then y else if P ∧ C then z else r := by
  by_cases h : P
  · simp only [h, true_and, if_true]
  · simp only [h, false_and, if_false]

/-- What may stand behind the `B` of a name. -/
def bitNames : List Bytes :=
  [[73, 84, 83, 69, 84, 95, 65, 76, 76, 95, 78, 79, 84, 95, 83, 69, 84],
    [73, 84, 83, 69, 84, 95, 65, 76, 76, 95, 83, 69, 84],
    [73, 84, 83, 69, 84, 95, 65, 78, 89, 95, 83, 69, 84],
    [73, 84, 83, 95, 65, 76, 76, 95, 78, 79, 84, 95, 83, 69, 84],
    [73, 84, 83, 95, 65, 76, 76, 95, 83, 69, 84], [73, 84, 83, 95, 65, 78, 89, 95, 83, 69, 84]]

/-- Names of two letters, told apart by the second. -/
theorem secondLetter_eq {i : ZStr} {c : UInt8} {t : Bytes} (hu : upper i = c :: t) (d e : UInt8)
    (x y : Int) :
    (if i.val.length = 2 then do
        let second ← upperAt i 1
        if second = d then .ok (some x) else if second = e then .ok (some y) else .ok none
      else .ok none) =
      (.ok (if t = [d] then some x else if t = [e] then some y else none) :
        Except Fault (Option Int)) := by
  have hlen : i.val.length = t.length + 1 := by rw [← upper_length, hu, List.length_cons]
  cases t with
  | nil => simp [hlen]
  | cons v t =>
    cases t with
    | cons v' t => simp [hlen]
    | nil =>
      have h1 : upperAt i 1 = .ok v := by
        rw [upperAt_lt (by rw [hu, List.length_cons, List.length_singleton]; decide)]
        simp only [hu, List.getElem_cons_succ, List.getElem_cons_zero]
      simp only [hlen, h1, List.length_singleton, if_true, List.cons.injEq, and_true]
      show (if v = d then _ else _) = _
      split
      · rfl
      · split <;> rfl

theorem iteratorOfName_eq (i : ZStr) : iteratorOfName i = .ok (iteratorConstants.lookup (upper i)) := by
  cases hu : upper i with
  | nil =>
    have h0 : upperAt i 0 = .ok 0 := by rw [upperAt_zero, hu, List.headD_nil]
    unfold iteratorOfName
    rw [h0]
    rfl
  | cons c t =>
    have h0 : upperAt i 0 = .ok c := by rw [upperAt_zero, hu, List.headD_cons]
    have hbind {α β : Type} (a : α) (f : α → Except Fault β) : (Except.ok a >>= f) = f a := rfl
    have hends (n k : Nat) (cs : String) (bs : Bytes) (hbs : ascii cs = bs)
        (hn : n = k + 1 + bs.length) (hne : bs ≠ []) :
        endsWith i n (k + 1) cs = .ok (decide (t.drop k = bs)) := by
      subst hbs
      rw [endsWith_eq hn hne, hu, List.drop_succ_cons]
    have hgoes (n m : Nat) (cs : String) (bs : Bytes) (hbs : ascii cs = bs) (hm : bs.length = m)
        (hn : m ≤ n) : goesOnWith i n 1 cs = .ok (decide (n < t.length + 1 ∧ t.take m = bs)) := by
      subst hbs hm
      rw [goesOnWith_eq (by omega), hu, List.drop_one, List.tail_cons, List.length_cons]
    unfold iteratorOfName
    simp only [h0, hends 3 0 "LL" [76, 76] rfl rfl (by decide),
      hgoes 7 6 "ITSET_" [73, 84, 83, 69, 84, 95] rfl rfl (by decide),
      hends 18 6 "ALL_NOT_SET" [65, 76, 76, 95, 78, 79, 84, 95, 83, 69, 84] rfl rfl (by decide),
      hends 14 6 "ALL_SET" [65, 76, 76, 95, 83, 69, 84] rfl rfl (by decide),
      hends 14 6 "ANY_SET" [65, 78, 89, 95, 83, 69, 84] rfl rfl (by decide),
      hgoes 4 4 "ITS_" [73, 84, 83, 95] rfl rfl (by decide),
      hends 16 4 "ALL_NOT_SET" [65, 76, 76, 95, 78, 79, 84, 95, 83, 69, 84] rfl rfl (by decide),
      hends 12 4 "ALL_SET" [65, 76, 76, 95, 83, 69, 84] rfl rfl (by decide),
      hends 12 4 "ANY_SET" [65, 78, 89, 95, 83, 69, 84] rfl rfl (by decide),
      hends 2 0 "Q" [81] rfl rfl (by decide),
      hends 8 0 "EIGHBOR" [69, 73, 71, 72, 66, 79, 82] rfl rfl (by decide),
      hends 8 0 "VERLAPS" [86, 69, 82, 76, 65, 80, 83] rfl rfl (by decide),
      hends 3 0 "EQ" [69, 81] rfl rfl (by decide), hbind, pure, Except.pure,
      decide_eq_true_eq, List.drop_zero]
    by_cases hA : c = 65
    · subst hA
      rw [if_pos (show (65 : UInt8) = 'A'.toUInt8 from rfl), lookup_A]
      split <;> rfl
    rw [if_neg (show c ≠ 'A'.toUInt8 from hA)]
    by_cases hB : c = 66
    · subst hB
      have hbitset (s : Bytes) (hs : 0 < s.length) :
          (7 < t.length + 1 ∧ t.take 6 = [73, 84, 83, 69, 84, 95]) ∧ t.drop 6 = s ↔
            t = [73, 84, 83, 69, 84, 95] ++ s := take_drop_iff rfl (by omega)
      have hbits (s : Bytes) (hs : 0 < s.length) :
          (4 < t.length + 1 ∧ t.take 4 = [73, 84, 83, 95]) ∧ t.drop 4 = s ↔
            t = [73, 84, 83, 95] ++ s := take_drop_iff rfl (by omega)
      rw [if_pos (show (66 : UInt8) = 'B'.toUInt8 from rfl), lookup_B, ite_common, ite_common]
      simp (disch := decide) only [hbitset, hbits, List.cons_append, List.nil_append]
      by_cases hmem : t ∈ bitNames
      · simp only [bitNames, List.mem_cons, List.not_mem_nil, or_false] at hmem
        rcases hmem with rfl | rfl | rfl | rfl | rfl | rfl <;> rfl
      · simp only [bitNames, List.mem_cons, List.not_mem_nil, or_false, not_or] at hmem
        simp only [hmem, if_false]
    rw [if_neg (show c ≠ 'B'.toUInt8 from hB)]
    by_cases hE : c = 69
    · subst hE
      rw [if_pos (show (69 : UInt8) = 'E'.toUInt8 from rfl), lookup_E]
      split <;> rfl
    rw [if_neg (show c ≠ 'E'.toUInt8 from hE)]
    by_cases hG : c = 71
    · subst hG
      rw [if_pos (show (71 : UInt8) = 'G'.toUInt8 from rfl), lookup_G]
      exact secondLetter_eq hu 69 84 5 6
    rw [if_neg (show c ≠ 'G'.toUInt8 from hG)]
    by_cases hL : c = 76
    · subst hL
      rw [if_pos (show (76 : UInt8) = 'L'.toUInt8 from rfl), lookup_L]
      exact secondLetter_eq hu 84 69 3 4
    rw [if_neg (show c ≠ 'L'.toUInt8 from hL)]
    by_cases hN : c = 78
    · subst hN
      rw [if_pos (show (78 : UInt8) = 'N'.toUInt8 from rfl), lookup_N]
      split <;> rfl
    rw [if_neg (show c ≠ 'N'.toUInt8 from hN)]
    by_cases hO : c = 79
    · subst hO
      rw [if_pos (show (79 : UInt8) = 'O'.toUInt8 from rfl), lookup_O]
      split <;> rfl
    rw [if_neg (show c ≠ 'O'.toUInt8 from hO)]
    by_cases hR : c = 82
    · subst hR
      rw [if_pos (show (82 : UInt8) = 'R'.toUInt8 from rfl), lookup_R]
      split <;> rfl
    rw [if_neg (show c ≠ 'R'.toUInt8 from hR), lookup_other t]
    simp only [show ascii "ABEGLNOR" = [65, 66, 69, 71, 76, 78, 79, 82] from rfl, List.mem_cons, hA, hB, hE,
      hG, hL, hN, hO, hR, List.not_mem_nil, or_self, not_false_eq_true]

/-! ## The whole function -/

theorem lookup_constants_some {u : Bytes} {code : Int} (h : iteratorConstants.lookup u = some code) :
    (u, code) ∈ iteratorConstants := by
  obtain ⟨l₁, l₂, hl, -⟩ := List.lookup_eq_some_iff.mp h
  rw [hl]
  exact List.mem_append_right _ List.mem_cons_self

theorem lookup_constants_none {u : Bytes} :
    iteratorConstants.lookup u = none ↔ ∀ p ∈ iteratorConstants, u ≠ p.1 := by
  rw [List.lookup_eq_none_iff]
  simp only [bne_iff_ne]

theorem lookup_constants_mem : ∀ p ∈ iteratorConstants, iteratorConstants.lookup p.1 = some p.2 := by
  decide

/-- For every string the function looks at no byte behind the NUL and returns. The code is not negative if
and only if the string is the name of a constant but for the case of its letters, and it is that constant
then; for every other string there is an exception and -1. -/
theorem convertIterator_exact (i : ZStr) (w : World) :
    ∃ code w', (convertIteratorName i).run w = .ok (code, w') ∧
      (0 ≤ code ↔ ∃ p ∈ iteratorConstants, upper i = p.1) ∧
      (∀ p ∈ iteratorConstants, upper i = p.1 → code = p.2 ∧ w' = w) ∧
      ((∀ p ∈ iteratorConstants, upper i ≠ p.1) → code = -1 ∧
        w'.exceptions = w.exceptions ++ [⟨"Bad iterator name '%.*s'", [.s i.val]⟩]) := by
  have hcodes : ∀ p ∈ iteratorConstants, 0 ≤ p.2 := by decide
  cases hlookup : iteratorConstants.lookup (upper i) with
  | some code =>
    have hrun : (convertIteratorName i).run w = .ok (code, w) := by
      simp only [convertIteratorName, iteratorOfName_eq, hlookup]
      rfl
    have hmem := lookup_constants_some hlookup
    refine ⟨code, w, hrun, iff_of_true (hcodes _ hmem) ⟨_, hmem, rfl⟩, fun p hp hu => ⟨?_, rfl⟩,
      fun hnone => absurd rfl (hnone _ hmem)⟩
    have hp' := lookup_constants_mem p hp
    rw [← hu, hlookup] at hp'
    exact Option.some.inj hp'
  | none =>
    have hnone := lookup_constants_none.mp hlookup
    have hneg : ¬ (0 : Int) ≤ -1 := by decide
    refine ⟨-1, { w with exceptions := w.exceptions ++ [⟨"Bad iterator name '%.*s'", [.s i.val]⟩] }, ?_,
      iff_of_false hneg ?_, fun p hp hu => absurd hu (hnone p hp), fun _ => ⟨rfl, rfl⟩⟩
    · simp only [convertIteratorName, iteratorOfName_eq, hlookup]
      rfl
    · rintro ⟨p, hp, hu⟩
      exact hnone p hp hu

/-- The names that the methods look through are those of the constants. -/
theorem find_iteratorNames (u : Bytes) :
    (iteratorNames.find? fun p => ascii p.1 = u).map Prod.snd = iteratorConstants.lookup u := by
  by_cases h : ∃ p ∈ iteratorConstants, u = p.1
  · obtain ⟨p, hp, rfl⟩ := h
    exact (by decide : ∀ p ∈ iteratorConstants, (iteratorNames.find? fun q => ascii q.1 = p.1).map
      Prod.snd = iteratorConstants.lookup p.1) p hp
  · have hnone : ∀ p ∈ iteratorConstants, u ≠ p.1 := fun p hp hu => h ⟨p, hp, hu⟩
    rw [lookup_constants_none.mpr hnone, Option.map_eq_none_iff, List.find?_eq_none]
    intro q hq hu
    have hkey : ascii q.1 ∈ Codec.keys iteratorConstants :=
      (by decide : ∀ q ∈ iteratorNames, ascii q.1 ∈ Codec.keys iteratorConstants) q hq
    obtain ⟨p, hp, hp'⟩ := List.mem_map.mp hkey
    exact hnone p hp (hp'.trans (of_decide_eq_true hu)).symm

/-- The methods' way to look a name up is the switch. -/
theorem convertIterator_name (i : ZStr) (all : Bool) :
    convertIterator (some (.str i)) all = convertIteratorName i := by
  have hfind := find_iteratorNames (i.val.map toUpper)
  simp only [convertIterator, convertIteratorName, iteratorOfName_eq, upper, ← hfind]
  cases (iteratorNames.find? fun p => ascii p.1 = i.val.map toUpper) with
  | none => rfl
  | some p => rfl

end BeePhp
