import BeePhp.Msgpack.Reference
import BeePhp.Msgpack.Proofs.MeaningProofs
import BeePhp.Msgpack.Proofs.UnpackProofs
import BeePhp.Zend.Proofs.TableProofs

/-!
# Proofs: the values documents are to stand for

The unpacking routines build the value of a document (`docToPhp_refValue`): appending goes through the
indices in order, and `ZEND_HANDLE_NUMERIC` knows the canonical decimal strings.
-/

namespace BeePhp

open Codec

/-! ## Keys -/

theorem stringKey_some {s : Bytes} {h : UInt64} (hs : zendHandleNumeric s = some h) :
    stringKey s = .idx h := by
  have hdecimal := zendHandleNumeric_eq_some.mp hs
  have hex : ∃ i : Int64, s = decimal i.toInt := ⟨h.toInt64, hdecimal⟩
  have hchoose : zendHandleNumeric s = some hex.choose.toUInt64 := by
    rw [zendHandleNumeric_eq_some, Int64.toInt64_toUInt64]
    exact hex.choose_spec
  rw [stringKey, dif_pos hex, ← Option.some.inj (hs.symm.trans hchoose)]

theorem stringKey_none {s : Bytes} (hs : zendHandleNumeric s = none) : stringKey s = .str s := by
  have hno : ¬ ∃ i : Int64, s = decimal i.toInt := by
    rintro ⟨i, hi⟩
    have hsome : zendHandleNumeric s = some i.toUInt64 := by
      rw [zendHandleNumeric_eq_some, Int64.toInt64_toUInt64]
      exact hi
    rw [hs] at hsome
    cases hsome
  rw [stringKey, dif_neg hno]

/-- An entry of a map is made under the key that its value is. -/
theorem addPair_put {key : PVal} {k : Key} (hk : valueKey key = some k) (hbin : ∀ s, key ≠ .bin s)
    (t : Table PVal) (v : PVal) : addPair t key v = .ok (t.put k v) := by
  cases key with
  | long n =>
    obtain rfl := Option.some.inj hk
    rfl
  | str s =>
    obtain rfl := Option.some.inj hk
    rw [addPair, addAssocZval]
    cases hs : zendHandleNumeric s with
    | some h => rw [stringKey_some hs]; rfl
    | none => rw [stringKey_none hs]; rfl
  | bin s => exact absurd rfl (hbin s)
  | _ => cases hk

theorem valueKey_isKeyDoc {d : Doc} (h : isKeyDoc d) : ∃ k, valueKey (refValue d) = some k := by
  cases d <;> first | exact ⟨_, rfl⟩ | cases h

theorem refValue_ne_bin {d : Doc} (h : isKeyDoc d) (s : Bytes) : refValue d ≠ .bin s := by
  cases d with
  | bin => cases h
  | _ => exact PVal.noConfusion

/-! ## Rows -/

theorem refItems_length (ds : List Doc) : (refItems ds).length = ds.length := by
  induction ds with
  | nil => rfl
  | cons d ds ih => rw [refItems, List.length_cons, List.length_cons, ih]

/-- Behind the first `j` indices the items come under the next ones. -/
theorem itemsToPhp_refItems {ds : List Doc} (hds : ∀ d ∈ ds, docToPhp true d = .ok (refValue d))
    {t : Table PVal} {j : Nat} (hj : j + ds.length < 2 ^ 63) (hnext : t.nNextFreeElement = UInt64.ofNat j)
    (hkeys : ∀ k ∈ keys t.entries, k ∈ indices 0 j) :
    itemsToPhp true ds t = .ok ⟨t.entries ++ ((refItems ds).zipIdx j).map fun v =>
      (.idx (UInt64.ofNat v.2), v.1), UInt64.ofNat (j + ds.length)⟩ := by
  induction ds generalizing t j with
  | nil =>
    rw [itemsToPhp, refItems, List.zipIdx_nil, List.map_nil, List.append_nil, List.length_nil, Nat.add_zero,
      ← hnext]
  | cons d ds ih =>
    rw [List.length_cons] at hj
    have hadd := addNextIndexZval_next (show j < 2 ^ 63 - 1 by omega) hnext hkeys (refValue d)
    have hkeys' : ∀ k ∈ keys (addNextIndexZval t (refValue d)).entries, k ∈ indices 0 (j + 1) := by
      intro k hk
      rw [hadd] at hk
      simp only [keys, List.map_append, List.mem_append, List.map_cons, List.map_nil,
        List.mem_singleton] at hk
      rcases hk with hk | rfl
      · obtain ⟨i, rfl⟩ := mem_indices_idx (hkeys k hk)
        have hi := (mem_indices (by omega) i).mp (hkeys _ hk)
        exact (mem_indices (by omega) i).mpr (by omega)
      · rw [mem_indices (by omega), toNat_ofNat (by omega)]
        omega
    have hrest := ih (fun d' hd' => hds d' (List.mem_cons_of_mem d hd')) (by omega)
      (show (addNextIndexZval t (refValue d)).nNextFreeElement = UInt64.ofNat (j + 1) by rw [hadd]) hkeys'
    simp only [itemsToPhp, hds d List.mem_cons_self, bind, Except.bind, hrest, refItems, List.zipIdx_cons,
      List.map_cons, List.length_cons]
    rw [hadd, List.append_assoc, List.singleton_append, show j + 1 + ds.length = j + (ds.length + 1) by omega]

theorem pairsToPhp_refPairs {ps : List (Doc × Doc)} (hps : ∀ p ∈ ps, isKeyDoc p.1 ∧
      docToPhp true p.1 = .ok (refValue p.1) ∧ docToPhp true p.2 = .ok (refValue p.2))
    (t : Table PVal) : pairsToPhp true (flatten ps) t = .ok (refPairs (flatten ps) t) := by
  induction ps generalizing t with
  | nil => simp [flatten, pairsToPhp, refPairs]
  | cons p ps ih =>
    obtain ⟨k, v⟩ := p
    obtain ⟨hkey, hk, hv⟩ := hps (k, v) List.mem_cons_self
    obtain ⟨key, hvalue⟩ := valueKey_isKeyDoc hkey
    simp only [flatten, pairsToPhp, refPairs, hk, hv, bind, Except.bind, addPair_put hvalue (refValue_ne_bin hkey),
      hvalue]
    exact ih (fun p hp => hps p (List.mem_cons_of_mem _ hp)) _

/-! ## Documents -/

/-- With the assertions compiled out, a plain document is read as its value. -/
theorem docToPhp_refValue {d : Doc} (hwf : d.WF) (hplain : Plain d) :
    docToPhp true d = .ok (refValue d) := by
  induction d using Doc.induct with
  | node d ih =>
    obtain ⟨hfits, hitems⟩ := d.wf_iff.mp hwf
    have hitems := (allWF_iff _).mp hitems
    cases d with
    | array w ds =>
      have hds : ∀ d ∈ ds, docToPhp true d = .ok (refValue d) := fun d hd =>
        ih d hd (hitems d hd) ((allPlain_iff ds).mp hplain d hd)
      have hbound : w.bound ≤ 2 ^ 32 := by cases w <;> decide
      have hlen : ds.length < w.bound := hfits
      have hrun := itemsToPhp_refItems hds (t := .empty) (j := 0) (by omega) rfl
        (by simp [Table.empty, keys])
      simp only [docToPhp, hrun, bind, Except.bind, pure, Except.pure, refValue, listValue,
        refItems_length, Nat.zero_add]
      rfl
    | map w ds =>
      obtain ⟨ps, rfl⟩ : ∃ ps, ds = flatten ps := ⟨pairUp ds, (flatten_pairUp hfits.1).symm⟩
      have hps := (pairsPlain_iff ps).mp hplain
      have hrun := @pairsToPhp_refPairs ps (by
        intro p hp
        have h1 : p.1 ∈ flatten ps := mem_flatten.mpr ⟨p, hp, .inl rfl⟩
        have h2 : p.2 ∈ flatten ps := mem_flatten.mpr ⟨p, hp, .inr rfl⟩
        obtain ⟨hkey, hvalue⟩ := hps p hp
        exact ⟨hkey, ih _ h1 (hitems _ h1) (isKeyDoc_plain hkey), ih _ h2 (hitems _ h2) hvalue⟩) .empty
      simp only [docToPhp, hrun, bind, Except.bind, pure, Except.pure, refValue]
    | int w i => simp [docToPhp, refValue]
    | unused => exact hplain.elim
    | ext => exact hplain.elim
    | _ => rfl

/-! ## Lengths -/

theorem zStrlen_eq_iff (s : Bytes) : zStrlen s = s.length ↔ s.length < 2 ^ 31 := by
  unfold zStrlen toInt
  rw [Int.bmod_eq_iff (by decide)]
  omega

/-- The length of a key is wrong only for the largest number of bytes, and where an `int` ends. -/
theorem keyLength_eq_iff {key : Bytes} :
    keyLength key = .ok (key.length + 1) ↔ key.length < 2 ^ 32 - 1 ∧ key.length ≠ 2 ^ 31 - 1 := by
  have hlength : (key.length : Int).bmod (2 ^ 32) % (2 ^ 32 : Nat) = key.length % (2 ^ 32 : Nat) := Int.bmod_emod
  have hle := @Int.le_bmod key.length (2 ^ 32) (by decide)
  have hlt := @Int.bmod_lt key.length (2 ^ 32) (by decide)
  unfold keyLength signedInt zStrlen toInt intMin intMax
  generalize (key.length : Int).bmod (2 ^ 32) = length at *
  by_cases hfits : -2 ^ 31 ≤ length + 1 ∧ length + 1 ≤ 2 ^ 31 - 1
  · rw [if_pos hfits]
    simp only [bind, Except.bind, pure, Except.pure, Except.ok.injEq]
    unfold toUint32 toSize
    omega
  · rw [if_neg hfits]
    simp only [bind, Except.bind, reduceCtorEq, false_iff]
    omega

theorem PVal.sized_iff (v : PVal) : v.Sized ↔ v.Short := by
  simp only [PVal.Sized, PVal.Short, zStrlen_eq_iff, keyLength_eq_iff]

/-! ## What is represented -/

/-- `php_mp_unpack` does with a well-formed document what it is to do, exactly if no key of a map is a bin, the
strings of its value are not too long, and the assertions are compiled out or no number in a signed form is
without its sign; or the document is not representable anyway. -/
theorem phpMpUnpack_represented (ndebug : Bool) {d : Doc} (hwf : d.WF) :
    Represented ndebug d ↔
      (Plain d ∧ (refValue d).Short ∧ (ndebug = true ∨ SignedNegative d)) ∨ ¬ Representable d := by
  have hreturns (rest : Bytes) : (∃ v pos, phpMpUnpack ndebug (d.encode ++ rest) = .ok (v, pos)) ↔
      Plain d ∧ (ndebug = true ∨ SignedNegative d) := by
    rw [← docToPhp_ok_iff d hwf]
    simp only [phpMpUnpack_doc hwf, exists_and_left, exists_eq, and_true]
  have hvalue {rest pos : Bytes} {v : PVal} (hrun : phpMpUnpack ndebug (d.encode ++ rest) = .ok (v, pos)) :
      v = refValue d ∧ pos = rest := by
    obtain ⟨hv, hpos⟩ := (phpMpUnpack_doc hwf).mp hrun
    have hplain := ((docToPhp_ok_iff d hwf).mp ⟨v, hv⟩).1
    exact ⟨Except.ok.inj ((docToPhp_ndebug d hv).symm.trans (docToPhp_refValue hwf hplain)), hpos⟩
  constructor
  · intro h
    by_cases hrepresentable : Representable d
    · have hok := (h []).1.mpr hrepresentable
      obtain ⟨hplain, hsigned⟩ := (hreturns []).mp hok
      obtain ⟨v, pos, hrun⟩ := hok
      obtain ⟨rfl, -, hsized⟩ := (h []).2 v pos hrun
      exact .inl ⟨hplain, (PVal.sized_iff _).mp hsized, hsigned⟩
    · exact .inr hrepresentable
  · intro h rest
    constructor
    · rw [hreturns]
      rcases h with ⟨hplain, -, hsigned⟩ | hnot
      · exact ⟨fun _ => hplain.representable hwf, fun _ => ⟨hplain, hsigned⟩⟩
      · exact ⟨fun hplain => hplain.1.representable hwf, fun hrepresentable => absurd hrepresentable hnot⟩
    · intro v pos hrun
      obtain ⟨rfl, hpos⟩ := hvalue hrun
      refine ⟨rfl, hpos, (PVal.sized_iff _).mpr ?_⟩
      rcases h with ⟨-, hshort, -⟩ | hnot
      · exact hshort
      · exact absurd (((hreturns rest).mp ⟨_, pos, hrun⟩).1.representable hwf) hnot

/-- A map under a decimal key, its length in two bytes, with a negative number in a long form. -/
theorem phpMpUnpack_represented_numeric :
    Represented false (.map .w16 [.str .w8 (ascii "-5"), .array .fix [.int .w64 (-1), .bin .w8 [0x61]]]) := by
  have hplain : Plain (.map .w16 [.str .w8 (ascii "-5"), .array .fix [.int .w64 (-1), .bin .w8 [0x61]]]) := by
    simp [Plain, PairsPlain, AllPlain, isKeyDoc]
  have hkey : stringKey (ascii "-5") = .idx (-5) := stringKey_some (by decide)
  refine (phpMpUnpack_represented false (by decide)).mpr (.inl ⟨hplain, ?_, .inr ?_⟩)
  · simp [refValue, refPairs, refItems, valueKey, hkey, Table.put, Table.empty, Table.toPVal, Codec.enter,
      listValue, PVal.Short, PVal.Strings, EntriesStrings, Key.Strings]
  · simp [SignedNegative, AllSignedNegative]

/-- The number 5 in the form of eight signed bits, with the assertions compiled in. -/
theorem phpMpUnpack_represented_signed :
    ¬ ∀ (ndebug : Bool) (d : Doc), d.WF → Represented ndebug d := by
  intro h
  obtain ⟨v, pos, hrun⟩ := (h false (.int .w8 5) (by decide) []).1.mpr trivial
  have hfault : phpMpUnpack false ((Doc.int .w8 5).encode ++ []) = .error (.fault .assertion) := rfl
  rw [hfault] at hrun
  cases hrun

end BeePhp
