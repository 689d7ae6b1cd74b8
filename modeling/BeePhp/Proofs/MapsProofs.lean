import BeePhp.Maps
import BeePhp.Proofs.FlushedProofs
import BeePhp.Proofs.SchemaProofs

/-!
# Proofs: the tables as maps

Rows are read the same way for both; a put enters a node under its key.
-/

namespace BeePhp

open Codec (Bytes enter except_bind_eq_ok lookup_enter)

/-! ## Entering nodes -/

/-- The two nodes of a row are entered. -/
theorem Keyed.enter {α : Type} {map : List (Bytes × α)} {holds holds' : SchemaValue → Prop}
    {stands : SchemaValue → α → Prop} (hk : Keyed map holds stands) {load : Nat} {number : UInt32} {name : Bytes}
    {a : α} (ha : ∀ byName a', stands ⟨load, byName, name, number⟩ a' ↔ a = a')
    (hholds : ∀ w, holds' w ↔ w = ⟨load, false, name, number⟩ ∨
      (w = ⟨load, true, name, number⟩ ∨ holds w ∧ w.key ≠ name) ∧ w.key ≠ numberKey number) :
    Keyed (enter (numberKey number) a (enter name a map)) holds' stands := by
  intro key a'
  rw [lookup_enter, lookup_enter]
  by_cases hnumber : key = numberKey number
  · rw [if_pos hnumber, Option.some.injEq]
    constructor
    · intro haa
      exact ⟨_, (hholds _).mpr (.inl rfl), hnumber.symm, (ha false a').mpr haa⟩
    · rintro ⟨v, hv, hkey, hs⟩
      rcases (hholds v).mp hv with rfl | ⟨-, hne⟩
      · exact (ha false a').mp hs
      · exact absurd (hkey.trans hnumber) hne
  rw [if_neg hnumber]
  by_cases hname : key = name
  · rw [if_pos hname, Option.some.injEq]
    constructor
    · intro haa
      refine ⟨⟨load, true, name, number⟩, (hholds _).mpr (.inr ⟨.inl rfl, ?_⟩), hname.symm, (ha true a').mpr haa⟩
      exact fun h => hnumber (hname.trans h)
    · rintro ⟨v, hv, hkey, hs⟩
      rcases (hholds v).mp hv with rfl | ⟨rfl | ⟨-, hne⟩, -⟩
      · exact absurd hkey.symm hnumber
      · exact (ha true a').mp hs
      · exact absurd (hkey.trans hname) hne
  rw [if_neg hname, hk key a']
  constructor
  · rintro ⟨v, hv, hkey, hs⟩
    refine ⟨v, (hholds v).mpr (.inr ⟨.inr ⟨hv, ?_⟩, ?_⟩), hkey, hs⟩
    · exact fun h => hname (hkey.symm.trans h)
    · exact fun h => hnumber (hkey.symm.trans h)
  · rintro ⟨v, hv, hkey, hs⟩
    rcases (hholds v).mp hv with rfl | ⟨rfl | ⟨hv, -⟩, -⟩
    · exact absurd hkey.symm hnumber
    · exact absurd hkey.symm hname
    · exact ⟨v, hv, hkey, hs⟩

namespace Tables

variable {t t' : Tables} {s : Schema} {base : Nat}

/-- A space is put into both. -/
theorem putSpace_maps (hg : t.Good) (hm : t.Maps s base) {number : UInt32} {name : Bytes}
    (hrun : t.putSpace number name = .ok t') : ¬t'.Roomy ∨ t'.Maps (s.putSpace number name) base := by
  obtain ⟨table, hput, hrun⟩ := except_bind_eq_ok.mp hrun
  cases hrun
  rcases putValues_ok hg.spaces hput with hh | ⟨-, hholds⟩
  · exact .inl (not_roomy.mpr (.inl hh))
  have hcount := hm.count
  refine .inr ⟨?_, fun v hv => ?_, hm.spaces.enter (fun byName value => ?_) hholds, fun i hi => ?_⟩
  · simp only [Schema.putSpace, List.length_append, List.length_singleton]
    omega
  · rcases (hholds v).mp hv with rfl | ⟨rfl | ⟨hv, -⟩, -⟩
    · show base ≤ t.indexHashes.length
      omega
    · show base ≤ t.indexHashes.length
      omega
    · exact hm.base_le v hv
  · cases value with
    | mk spaceNumber indexHash =>
      rw [SpaceValue.mk.injEq]
      show number = spaceNumber ∧ t.indexHashes.length = base + indexHash ↔ _
      rw [hcount, Nat.add_left_cancel_iff]
  · have hi : i < s.indexHashes.length + 1 := by
      simpa only [Schema.putSpace, List.length_append, List.length_singleton] using hi
    have hs : (s.putSpace number name).indexHashes.getD i [] = s.indexHashes.getD i [] := by
      simp only [Schema.putSpace, List.getD_eq_getElem?_getD, List.getElem?_append]
      split
      · rfl
      case isFalse hge =>
        have : i - s.indexHashes.length = 0 := by omega
        rw [this, List.getElem?_eq_none (Nat.not_lt.mp hge)]
        rfl
    rw [hs]
    rcases Nat.lt_succ_iff_lt_or_eq.mp hi with hlt | rfl
    · have ht : (t.indexHashes ++ [(⟨mhNew, 0⟩ : IndexTable)]).getD (base + i) ⟨mhNew, 0⟩ = t.indexHash (base + i) := by
        unfold indexHash
        rw [List.getD_eq_getElem?_getD, List.getElem?_append_left (by omega), List.getD_eq_getElem?_getD]
      unfold indexHash
      rw [ht]
      exact hm.indexes i hlt
    · have ht : (t.indexHashes ++ [(⟨mhNew, 0⟩ : IndexTable)]).getD (base + s.indexHashes.length) ⟨mhNew, 0⟩ =
          ⟨mhNew, 0⟩ := by
        rw [List.getD_eq_getElem?_getD, ← hcount, List.getElem?_append_right (Nat.le_refl _), Nat.sub_self]
        rfl
      unfold indexHash
      rw [ht]
      intro key a
      rw [List.getD_eq_getElem?_getD, List.getElem?_eq_none (Nat.le_refl _)]
      constructor
      · intro h
        cases h
      · rintro ⟨v, hv, -⟩
        exact absurd hv ((Mhash.mhNew_ok schemaHashed).2 v)

/-- An index is put into both. -/
theorem putIndex_maps (hg : t.Good) (hm : t.Maps s base) {i : Nat} (hi : i < s.indexHashes.length)
    {number : UInt32} {name : Bytes} (hrun : t.putIndex (base + i) number name = .ok t') :
    ¬t'.Roomy ∨ t'.Maps (s.putIndex i number name) base := by
  obtain ⟨table, hput, hrun⟩ := except_bind_eq_ok.mp hrun
  cases hrun
  have hcount := hm.count
  have hlt : base + i < t.indexHashes.length := by omega
  rcases putValues_ok (hg.indexes _ (indexHash_mem hlt)).1 hput with hh | ⟨-, hholds⟩
  · exact .inl (not_roomy.mpr (.inr ⟨_, List.mem_set hlt _, hh⟩))
  have hlen : (s.putIndex i number name).indexHashes.length = s.indexHashes.length := List.length_set
  refine .inr ⟨?_, hm.base_le, hm.spaces, fun j hj => ?_⟩
  · rw [hlen]
    exact List.length_set.trans hcount
  · rw [hlen] at hj
    unfold indexHash Schema.putIndex
    simp only [List.getD_eq_getElem?_getD]
    by_cases hij : i = j
    · subst hij
      rw [List.getElem?_set_self hi, List.getElem?_set_self hlt, Option.getD_some, Option.getD_some]
      have hold := hm.indexes i hi
      rw [List.getD_eq_getElem?_getD] at hold
      exact hold.enter (fun byName a => Iff.rfl) hholds
    · rw [List.getElem?_set_ne hij, List.getElem?_set_ne (fun h => hij (Nat.add_left_cancel h))]
      have hold := hm.indexes j hj
      unfold indexHash at hold
      simpa only [List.getD_eq_getElem?_getD] using hold

/-- A step that the maps follow, unless a table becomes too large. -/
def FollowedBy {α : Type} (base : Nat) (r : Tables × α) (run : Except Fault (Schema × α)) : Prop :=
  ¬r.1.Roomy ∨ ∃ s', run = .ok (s', r.2) ∧ r.1.Follows base s'

theorem addSpace_follows (hf : t.Follows base s) {data : Bytes} {r : Tables × Option Bytes}
    (hrun : t.addSpace data = .ok r) : FollowedBy base r (schemaAddSpace s data) := by
  rw [schemaAddSpace_eq]
  obtain ⟨row, hread, hrun⟩ := except_bind_eq_ok.mp hrun
  rw [hread]
  cases row with
  | none =>
    cases hrun
    exact .inr ⟨s, rfl, hf⟩
  | some row =>
    obtain ⟨t₁, hput, hrun⟩ := except_bind_eq_ok.mp hrun
    cases hrun
    rcases putSpace_sane (.inr hf.1) hput with hr | hg
    · exact .inl hr
    rcases putSpace_maps hf.1 hf.2 hput with hr | hm
    · exact .inl hr
    · exact .inr ⟨_, rfl, hg, hm⟩

/-- What is found under a key, and where its table of indexes is. -/
theorem findValue_maps (hf : t.Follows base s) (key : Bytes) :
    findValue t.spaceHash key = .ok none ∧ s.spaceHash.lookup key = none ∨
      ∃ v value, findValue t.spaceHash key = .ok (some v) ∧ s.spaceHash.lookup key = some value ∧
        v.number = value.spaceNumber ∧ v.load = base + value.indexHash ∧
        value.indexHash < s.indexHashes.length := by
  obtain ⟨hg, hm⟩ := hf
  obtain ⟨found, hfind, hfound⟩ := findValue_spec hg.spaces key
  cases hlookup : s.spaceHash.lookup key with
  | none =>
    left
    cases found with
    | none => exact ⟨hfind, rfl⟩
    | some v =>
      -- the map has a value for every node
      obtain ⟨hv, hkey⟩ := (hfound v).mp rfl
      have hbase := hm.base_le v hv
      have := (hm.spaces key ⟨v.number, v.load - base⟩).mpr ⟨v, hv, hkey, rfl, by simp only; omega⟩
      rw [hlookup] at this
      cases this
  | some value =>
    right
    obtain ⟨v, hv, hkey, hnumber, hload⟩ := (hm.spaces key value).mp hlookup
    rw [(hfound v).mpr ⟨hv, hkey⟩] at hfind
    have hlt := hg.fromLoads.load_lt v hv
    have hcount := hm.count
    exact ⟨v, value, hfind, rfl, hnumber, hload, by omega⟩

theorem addIndex_follows (hf : t.Follows base s) {data : Bytes} {r : Tables × Option Bytes}
    (hrun : t.addIndex data = .ok r) : FollowedBy base r (schemaAddIndex s data) := by
  rw [schemaAddIndex_eq]
  obtain ⟨⟨number, tuple⟩, hread, hrun⟩ := except_bind_eq_ok.mp hrun
  obtain ⟨space, hspace, hrun⟩ := except_bind_eq_ok.mp hrun
  rw [hread]
  show FollowedBy base r ((s.spaceHash.lookup (numberKey number)).elim _ _)
  rcases findValue_maps hf (numberKey number) with ⟨hfind, hlookup⟩ | ⟨v, value, hfind, hlookup, -, hload, hlt⟩
  · rw [hlookup]
    cases hfind.symm.trans hspace
    cases hrun
    exact .inr ⟨s, rfl, hf⟩
  · rw [hlookup]
    cases hfind.symm.trans hspace
    obtain ⟨row, hrow, hrun⟩ := except_bind_eq_ok.mp hrun
    rw [Option.elim_some, hrow]
    cases row with
    | none =>
      cases hrun
      exact .inr ⟨s, rfl, hf⟩
    | some row =>
      obtain ⟨t₁, hput, hrun⟩ := except_bind_eq_ok.mp hrun
      cases hrun
      rw [hload] at hput
      rcases putIndex_sane (.inr hf.1) hput with hr | hg
      · exact .inl hr
      rcases putIndex_maps hf.1 hf.2 hlt hput with hr | hm
      · exact .inl hr
      · exact .inr ⟨_, rfl, hg, hm⟩

/-! ## Calls -/

section Loops

variable {add : Tables → Bytes → Except Fault (Tables × Option Bytes)}
  {add' : Schema → Bytes → Except Fault (Schema × Option Bytes)}

/-- The loop over the rows is followed if every row is. -/
theorem addRows_follows
    (hadd : ∀ t s data r, t.Follows base s → add t data = .ok r → FollowedBy base r (add' s data))
    (hkeeps : ∀ t data r, ¬t.Roomy → add t data = .ok r → ¬r.1.Roomy) {n : Nat} {data : Bytes}
    {r : Tables × Bool} (hf : t.Follows base s) (hrun : Tables.addRows add n t data = .ok r) :
    FollowedBy base r (BeePhp.addRows add' n s data) := by
  induction n generalizing t s data with
  | zero =>
    cases hrun
    exact .inr ⟨s, rfl, hf⟩
  | succ n ih =>
    obtain ⟨⟨t₁, rest⟩, hrow, hrest⟩ := except_bind_eq_ok.mp hrun
    rcases hadd t s data _ hf hrow with hr | ⟨s₁, hrow', hf₁⟩
    · left
      cases rest with
      | none =>
        cases hrest
        exact hr
      | some rest => exact addRows_keeps (P := fun t => ¬t.Roomy) (hkeeps _ _ _) hr hrest
    · unfold BeePhp.addRows
      rw [hrow']
      cases rest with
      | none =>
        cases hrest
        exact .inr ⟨s₁, rfl, hf₁⟩
      | some rest => exact ih hf₁ hrest

theorem addTuples_follows
    (hadd : ∀ t s data r, t.Follows base s → add t data = .ok r → FollowedBy base r (add' s data))
    (hkeeps : ∀ t data r, ¬t.Roomy → add t data = .ok r → ¬r.1.Roomy) {data : Option Bytes} {size : Nat}
    {r : Tables × Bool} (hf : t.Follows base s) (hrun : Tables.addTuples add t data size = .ok r) :
    FollowedBy base r (BeePhp.addTuples add' s data size) := by
  cases data with
  | none =>
    cases hrun
    exact .inr ⟨s, rfl, hf⟩
  | some data =>
    obtain ⟨c, hcheck, hrun⟩ := except_bind_eq_ok.mp hrun
    unfold BeePhp.addTuples
    simp only [hcheck, bind, Except.bind]
    split at hrun
    case isTrue hbad =>
      cases hrun
      rw [if_pos hbad]
      exact .inr ⟨s, rfl, hf⟩
    case isFalse hgood =>
      rw [if_neg hgood]
      obtain ⟨type, htype, hrun⟩ := except_bind_eq_ok.mp hrun
      simp only [htype]
      split at hrun
      case isTrue hbad =>
        cases hrun
        rw [if_pos hbad]
        exact .inr ⟨s, rfl, hf⟩
      case isFalse hgood =>
        rw [if_neg hgood]
        obtain ⟨⟨count, tuple⟩, harray, hrun⟩ := except_bind_eq_ok.mp hrun
        simp only [harray]
        exact addRows_follows hadd hkeeps hf hrun

end Loops

/-- After a flush the maps are empty, and the tables stand for that if they are. -/
theorem flush_follows (hg : t.Good) (hsteady : t.spaceHash.Steady) (hrun : t.flush = .ok t') :
    t'.Follows t'.indexHashes.length .empty := by
  obtain ⟨t₁, hrun₁, hg', hempty⟩ := flush_good hg
  cases hrun₁.symm.trans hrun
  have hnone := hempty hsteady
  refine ⟨hg', rfl, fun v hv => absurd hv (hnone v), fun key value => ?_, fun i hi => absurd hi (Nat.not_lt_zero i)⟩
  constructor
  · intro h
    cases h
  · rintro ⟨v, hv, -⟩
    exact absurd hv (hnone v)

/-- What the maps answer is what the tables answer. -/
theorem Follows.answers (hf : t.Follows base s) : t.Answers s where
  getSid name hname := by
    unfold getSid beeSchemaGetSidByString
    rw [hname]
    rcases findValue_maps hf name with ⟨hfind, hlookup⟩ | ⟨v, value, hfind, hlookup, hnumber, -⟩
    · rw [hlookup]
      simp only [hfind, bind, Except.bind]
      rfl
    · rw [hlookup]
      simp only [hfind, bind, Except.bind, hnumber]
      rfl
  getIid sid name hname := by
    unfold getIid beeSchemaGetIidByString
    rcases findValue_maps hf (numberKey sid) with ⟨hfind, hlookup⟩ | ⟨v, value, hfind, hlookup, -, hload, hlt⟩
    · rw [hlookup]
      simp only [hfind, bind, Except.bind]
      rfl
    · rw [hlookup]
      simp only [hfind, bind, Except.bind, hname, hload]
      have hcount := hf.2.count
      obtain ⟨found, hindex, hfound⟩ := findValue_spec
        (hf.1.indexes _ (indexHash_mem (show base + value.indexHash < t.indexHashes.length by omega))).1 name
      have hkeyed := hf.2.indexes value.indexHash hlt name
      rw [hindex]
      cases hname' : (s.indexHashes.getD value.indexHash []).lookup name with
      | none =>
        cases found with
        | none => rfl
        | some w =>
          obtain ⟨hw, hkey⟩ := (hfound w).mp rfl
          have := (hkeyed w.number).mpr ⟨w, hw, hkey, rfl⟩
          rw [hname'] at this
          cases this
      | some number =>
        obtain ⟨w, hw, hkey, hnumber⟩ := (hkeyed number).mp hname'
        rw [(hfound w).mpr ⟨hw, hkey⟩]
        show Except.ok (toInt32 w.number) = _
        rw [hnumber]

theorem addSpace_not_roomy {data : Bytes} {r : Tables × Option Bytes} (hr : ¬t.Roomy)
    (hrun : t.addSpace data = .ok r) : ¬r.1.Roomy :=
  addSpace_keeps (P := fun t => ¬t.Roomy) putSpace_not_roomy hr hrun

theorem addIndex_not_roomy {data : Bytes} {r : Tables × Option Bytes} (hr : ¬t.Roomy)
    (hrun : t.addIndex data = .ok r) : ¬r.1.Roomy :=
  addIndex_keeps (P := fun t => ¬t.Roomy) putIndex_not_roomy hr hrun

theorem addSpaces_follows (hf : t.Follows base s) {data : Option Bytes} {size : Nat} {r : Tables × Bool}
    (hrun : t.addSpaces data size = .ok r) : FollowedBy base r (beeSchemaAddSpaces s data size) := by
  unfold Tables.addSpaces at hrun
  unfold beeSchemaAddSpaces
  refine addTuples_follows (fun t s data r hf hrow => ?_) (fun t data r hr hrow => ?_) hf hrun
  · exact addSpace_follows hf hrow
  · exact addSpace_not_roomy hr hrow

theorem addIndexes_follows (hf : t.Follows base s) {data : Option Bytes} {size : Nat} {r : Tables × Bool}
    (hrun : t.addIndexes data size = .ok r) : FollowedBy base r (beeSchemaAddIndexes s data size) := by
  unfold Tables.addIndexes at hrun
  unfold beeSchemaAddIndexes
  refine addTuples_follows (fun t s data r hf hrow => ?_) (fun t data r hr hrow => ?_) hf hrun
  · exact addIndex_follows hf hrow
  · exact addIndex_not_roomy hr hrow

/-- A call on tables that are followed. -/
theorem call_follows (hf : t.Follows base s) {c : SchemaCall} (hsteady : c = .flush → t.spaceHash.Steady)
    {r : Tables × Bool} (hrun : c.run t = .ok r) :
    ¬r.1.Roomy ∨ ∃ s' base', c.runMap s = .ok (s', r.2) ∧ r.1.Follows base' s' := by
  cases c with
  | addSpaces data size =>
    rcases addSpaces_follows hf hrun with hr | ⟨s', hmap, hf'⟩
    · exact .inl hr
    · exact .inr ⟨s', base, hmap, hf'⟩
  | addIndexes data size =>
    rcases addIndexes_follows hf hrun with hr | ⟨s', hmap, hf'⟩
    · exact .inl hr
    · exact .inr ⟨s', base, hmap, hf'⟩
  | flush =>
    obtain ⟨t', hflush, hrun⟩ := except_bind_eq_ok.mp hrun
    cases hrun
    exact .inr ⟨.empty, _, rfl, flush_follows hf.1 (hsteady rfl) hflush⟩

theorem call_not_roomy (hr : ¬t.Roomy) {c : SchemaCall} {r : Tables × Bool} (hrun : c.run t = .ok r) :
    ¬r.1.Roomy := by
  cases c with
  | addSpaces data size =>
    have hrun : t.addSpaces data size = .ok r := hrun
    unfold Tables.addSpaces at hrun
    exact addTuples_keeps (P := fun t => ¬t.Roomy) addSpace_not_roomy hr hrun
  | addIndexes data size =>
    have hrun : t.addIndexes data size = .ok r := hrun
    unfold Tables.addIndexes at hrun
    exact addTuples_keeps (P := fun t => ¬t.Roomy) addIndex_not_roomy hr hrun
  | flush =>
    obtain ⟨t', hflush, hrun⟩ := except_bind_eq_ok.mp hrun
    cases hrun
    exact flush_not_roomy hr hflush

theorem runSchemaCalls_not_roomy {cs : List SchemaCall} (hr : ¬t.Roomy) {r : Tables × List Bool}
    (hrun : runSchemaCalls SchemaCall.run cs t = .ok r) : ¬r.1.Roomy := by
  induction cs generalizing t r with
  | nil =>
    cases hrun
    exact hr
  | cons c cs ih =>
    obtain ⟨r₁, hcall, hrun⟩ := except_bind_eq_ok.mp hrun
    obtain ⟨rs, hrest, hrun⟩ := except_bind_eq_ok.mp hrun
    cases hrun
    have hr' := ih (call_not_roomy hr hcall) hrest
    exact hr'

theorem runSchemaCalls_follows {cs : List SchemaCall} (hf : t.Follows base s) (hsteady : Steadily cs t)
    {r : Tables × List Bool} (hrun : runSchemaCalls SchemaCall.run cs t = .ok r) :
    ¬r.1.Roomy ∨ ∃ s' base', runSchemaCalls SchemaCall.runMap cs s = .ok (s', r.2) ∧ r.1.Follows base' s' := by
  induction cs generalizing t s base r with
  | nil =>
    cases hrun
    exact .inr ⟨s, base, rfl, hf⟩
  | cons c cs ih =>
    obtain ⟨r₁, hcall, hrun⟩ := except_bind_eq_ok.mp hrun
    obtain ⟨rs, hrest, hrun⟩ := except_bind_eq_ok.mp hrun
    cases hrun
    rcases call_follows hf hsteady.1 hcall with hr | ⟨s₁, base₁, hmap, hf₁⟩
    · have hr' := runSchemaCalls_not_roomy hr hrest
      exact .inl hr'
    rcases ih hf₁ (hsteady.2 r₁ hcall) hrest with hr | ⟨s₂, base₂, hmaps, hf₂⟩
    · exact .inl hr
    · refine .inr ⟨s₂, base₂, ?_, hf₂⟩
      unfold runSchemaCalls
      rw [hmap]
      simp only [bind, Except.bind, hmaps]
      rfl

end Tables

/-- Loads and flushes of tables and of maps: every call returns the same, and afterwards every name is looked
up with the same answer. -/
theorem runSchemaCalls_answers {cs : List SchemaCall} {t : Tables} {rs : List Bool}
    (hrun : runSchemaCalls SchemaCall.run cs .new = .ok (t, rs)) (hsteady : Steadily cs .new) (hroomy : t.Roomy) :
    ∃ s, runSchemaCalls SchemaCall.runMap cs .empty = .ok (s, rs) ∧ t.Answers s := by
  have hnew : Tables.Follows 0 .new .empty := by
    obtain ⟨hok, hnone⟩ := Mhash.mhNew_ok schemaHashed
    rcases Tables.Reached.new.sane with hr | hg
    · exact absurd ⟨fun hh => absurd hh.1 (Nat.not_lt_zero _), fun hash hmem => absurd hmem List.not_mem_nil⟩ hr
    · refine ⟨hg, rfl, fun v hv => Nat.zero_le _, fun key value => ?_, fun i hi => absurd hi (Nat.not_lt_zero i)⟩
      constructor
      · intro h
        cases h
      · rintro ⟨v, hv, -⟩
        exact absurd hv (hnone v)
  rcases Tables.runSchemaCalls_follows hnew hsteady hrun with hr | ⟨s, base, hmap, hf⟩
  · exact absurd hroomy hr
  · exact ⟨s, hmap, hf.answers⟩

/-- A space is loaded, and once more after a flush. -/
def reloadCalls : List SchemaCall :=
  let rows := (Codec.Doc.array .fix [usersRow.doc]).encode
  [.addSpaces (some rows) rows.length, .flush, .addSpaces (some rows) rows.length]

theorem runSchemaCalls_answers_reload : ∃ t rs s, runSchemaCalls SchemaCall.run reloadCalls .new = .ok (t, rs) ∧
    runSchemaCalls SchemaCall.runMap reloadCalls .empty = .ok (s, rs) ∧ t.Answers s := by
  have hroomy : ((runSchemaCalls SchemaCall.run reloadCalls .new).map fun r =>
      decide (r.1.spaceHash.prime ≤ 28) && r.1.indexHashes.all fun hash => decide (hash.table.prime ≤ 28)).toOption =
        some true := by
    decide +kernel
  cases hrun : runSchemaCalls SchemaCall.run reloadCalls .new with
  | error e =>
    rw [hrun] at hroomy
    cases hroomy
  | ok r =>
    rw [hrun] at hroomy
    have hroomy := Option.some.inj hroomy
    simp only [Bool.and_eq_true, decide_eq_true_iff, List.all_eq_true] at hroomy
    have hsteady : Steadily reloadCalls .new := by
      refine ⟨fun h => SchemaCall.noConfusion h, fun r₁ hload => ⟨fun _ => .inl ?_, fun r₂ _ =>
        ⟨fun h => SchemaCall.noConfusion h, fun r₃ _ => trivial⟩⟩⟩
      have hidle : ((Tables.new.addSpaces (some (Codec.Doc.array .fix [usersRow.doc]).encode)
          (Codec.Doc.array .fix [usersRow.doc]).encode.length).map fun r => r.1.spaceHash.resizePosition).toOption =
            some 0 := by
        decide +kernel
      rw [show Tables.new.addSpaces _ _ = .ok r₁ from hload] at hidle
      exact Option.some.inj hidle
    obtain ⟨s, hmap, hanswers⟩ := runSchemaCalls_answers hrun hsteady
      ⟨fun hh => absurd hh.1 (Nat.not_lt.mpr hroomy.1),
        fun hash hmem hh => absurd hh.1 (Nat.not_lt.mpr (hroomy.2 hash hmem))⟩
    exact ⟨r.1, r.2, s, rfl, hmap, hanswers⟩

end BeePhp
