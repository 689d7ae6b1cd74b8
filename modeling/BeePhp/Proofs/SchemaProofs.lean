import BeePhp.Proofs.TablesProofs

/-!
# Proofs: the cache of names

Every row that is loaded does to the tables what `History.slot` and `keyed` say of the history
(`Schema.Holds`), so that the cache finds the latest entry under a name or under the bytes of a number.
This is the latest entry with that name exactly when the two kinds of keys do not meet
(`keyed_eq_iff`).
-/

namespace BeePhp

open Codec (Bytes Doc encodeAll AllWF IntWidth StrWidth SeqWidth enter lookup_enter)
open Codec.Reader

/-! ## Keys -/

theorem numberKey_inj {m n : UInt32} (h : numberKey m = numberKey n) : m = n := by
  have hbytes : Codec.toBE 4 m.toNat = Codec.toBE 4 n.toNat := List.reverse_injective h
  have hm := Codec.ofBE_toBE_of_lt (k := 4) (n := m.toNat) m.toNat_lt
  have hn := Codec.ofBE_toBE_of_lt (k := 4) (n := n.toNat) n.toNat_lt
  rw [hbytes, hn] at hm
  exact UInt32.toNat.inj hm.symm

/-- With both kinds of keys the latest entry with a name is found exactly when it is not shadowed. -/
theorem keyed_eq_iff (k : Bytes) (l : List (Bytes × UInt32)) :
    keyed k l = l.lookup k ↔ Unshadowed k l := by
  induction l with
  | nil => simp [keyed, Unshadowed]
  | cons p l ih =>
    obtain ⟨name, number⟩ := p
    by_cases hname : name = k
    · simp [keyed, Unshadowed, hname]
    · have hlookup : ((name, number) :: l).lookup k = l.lookup k := by
        rw [Codec.lookup_cons_ite, if_neg fun h => hname h.symm]
      rw [hlookup]
      by_cases hkey : numberKey number = k
      · simp [keyed, Unshadowed, hname, hkey, eq_comm]
      · simpa [keyed, Unshadowed, hname, hkey] using ih

/-! ## Nodes of the history -/

/-- The table of the indexes of a space. -/
def History.place (sid : UInt32) : History → Option Nat
  | [] => none
  | .index .. :: h => History.place sid h
  | .space number _ :: h =>
    if number = sid then some (History.spaceNames h).length else History.place sid h

theorem slot_keyed (k : Bytes) (h : History) :
    (h.slot k).map SpaceValue.spaceNumber = keyed k h.spaceNames := by
  induction h with
  | nil => rfl
  | cons e h ih =>
    cases e with
    | index => exact ih
    | space number name =>
      simp only [History.slot, History.spaceNames, keyed]
      split
      · rfl
      · exact ih

/-- A space that is reached is found under its number. -/
theorem slot_of_reaches {sid : UInt32} {h : History} (hreach : h.Reaches sid) :
    h.slot (numberKey sid) = (h.place sid).map fun n => ⟨sid, n⟩ := by
  induction h with
  | nil => rfl
  | cons e h ih =>
    cases e with
    | index => exact ih hreach
    | space number name =>
      by_cases hnumber : number = sid
      · simp [History.slot, History.place, hnumber]
      · obtain ⟨hname, hrest⟩ := hreach.resolve_left hnumber
        have hkey : numberKey number ≠ numberKey sid := fun h => hnumber (numberKey_inj h)
        simpa [History.slot, History.place, hnumber, hname, hkey] using ih hrest

theorem place_lt {sid : UInt32} {h : History} {n : Nat} (hplace : h.place sid = some n) :
    n < h.spaceNames.length := by
  induction h with
  | nil => cases hplace
  | cons e h ih =>
    cases e with
    | index => exact ih hplace
    | space number name =>
      simp only [History.place] at hplace
      simp only [History.spaceNames, List.length_cons]
      split at hplace
      · cases hplace
        omega
      · have hlt := ih hplace
        omega

/-- No two spaces have one table. -/
theorem place_inj {a b : UInt32} {h : History} {n : Nat} (ha : h.place a = some n)
    (hb : h.place b = some n) : a = b := by
  induction h with
  | nil => cases ha
  | cons e h ih =>
    cases e with
    | index => exact ih ha hb
    | space number name =>
      by_cases hna : number = a
      · by_cases hnb : number = b
        · exact hna.symm.trans hnb
        · rw [History.place, if_pos hna] at ha
          rw [History.place, if_neg hnb] at hb
          cases ha
          exact absurd (place_lt hb) (lt_irrefl _)
      · rw [History.place, if_neg hna] at ha
        by_cases hnb : number = b
        · rw [History.place, if_pos hnb] at hb
          cases hb
          exact absurd (place_lt ha) (lt_irrefl _)
        · rw [History.place, if_neg hnb] at hb
          exact ih ha hb

theorem knows_eq (h : History) (sid : UInt32) : h.knows sid = (h.place sid).isSome := by
  induction h with
  | nil => rfl
  | cons e h ih =>
    cases e with
    | index => exact ih
    | space number name =>
      by_cases hnumber : number = sid
      · simp [History.knows, History.spaceNames, History.place, hnumber]
      · simpa [History.knows, History.spaceNames, History.place, hnumber] using ih

/-! ## The tables hold the history -/

/-- The tables of a schema hold what has been loaded. -/
structure Schema.Holds (schema : Schema) (h : History) : Prop where
  spaces : ∀ k, schema.spaceHash.lookup k = h.slot k
  tables : schema.indexHashes.length = h.spaceNames.length
  indexes : ∀ sid n, h.place sid = some n → ∀ k,
    (schema.indexHashes.getD n []).lookup k = keyed k (h.indexNames sid)
  unknown : ∀ sid, h.place sid = none → h.indexNames sid = []

theorem holds_empty : Schema.empty.Holds [] where
  spaces := fun _ => rfl
  tables := rfl
  indexes := by
    intro sid n hplace
    cases hplace
  unknown := fun _ _ => rfl

theorem Schema.Holds.putSpace {schema : Schema} {h : History} (hholds : schema.Holds h)
    (number : UInt32) (name : Bytes) :
    (schema.putSpace number name).Holds (.space number name :: h) where
  spaces := by
    intro k
    simp only [Schema.putSpace, lookup_enter, hholds.spaces, hholds.tables, History.slot]
    by_cases hkey : numberKey number = k
    · simp [hkey]
    · by_cases hname : name = k
      · simp [hkey, hname]
      · simp [hkey, hname, Ne.symm hkey, Ne.symm hname]
  tables := by simp [Schema.putSpace, History.spaceNames, hholds.tables]
  indexes := by
    intro sid n hplace k
    simp only [Schema.putSpace, History.indexNames]
    rw [History.place] at hplace
    by_cases hnumber : number = sid
    · rw [if_pos hnumber, ← hholds.tables] at hplace
      cases hplace
      simp [hnumber, keyed]
    · rw [if_neg hnumber] at hplace
      have hlt := place_lt hplace
      rw [← hholds.tables] at hlt
      rw [if_neg hnumber, List.getD_eq_getElem?_getD, List.getElem?_append_left hlt,
        ← List.getD_eq_getElem?_getD]
      exact hholds.indexes sid n hplace k
  unknown := by
    intro sid hplace
    rw [History.place] at hplace
    by_cases hnumber : number = sid
    · simp [hnumber] at hplace
    · rw [if_neg hnumber] at hplace
      rw [History.indexNames, if_neg hnumber]
      exact hholds.unknown sid hplace

theorem Schema.Holds.putIndex {schema : Schema} {h : History} (hholds : schema.Holds h)
    {space : UInt32} {n : Nat} (hplace : h.place space = some n) (number : UInt32) (name : Bytes) :
    (schema.putIndex n number name).Holds (.index space number name :: h) where
  spaces := hholds.spaces
  tables := by
    rw [Schema.putIndex, List.length_set]
    exact hholds.tables
  indexes := by
    intro sid m hm k
    have hlt : n < schema.indexHashes.length := by
      rw [hholds.tables]
      exact place_lt hplace
    have hm' : h.place sid = some m := hm
    simp only [Schema.putIndex, History.indexNames]
    by_cases hspace : space = sid
    · subst hspace
      obtain rfl : n = m := Option.some.inj (hplace.symm.trans hm')
      rw [if_pos rfl, List.getD_eq_getElem?_getD, List.getElem?_set_self hlt, Option.getD_some,
        lookup_enter, lookup_enter, hholds.indexes space n hplace k, keyed]
      by_cases hkey : numberKey number = k
      · simp [hkey]
      · by_cases hname : name = k
        · simp [hkey, hname]
        · simp [hkey, hname, Ne.symm hkey, Ne.symm hname]
    · have hne : n ≠ m := fun heq => hspace (place_inj hplace (heq ▸ hm'))
      rw [if_neg hspace, List.getD_eq_getElem?_getD, List.getElem?_set_ne hne,
        ← List.getD_eq_getElem?_getD]
      exact hholds.indexes sid m hm' k
  unknown := by
    intro sid hnone
    have hnone' : h.place sid = none := hnone
    have hspace : space ≠ sid := by
      rintro rfl
      rw [hplace] at hnone'
      cases hnone'
    rw [History.indexNames, if_neg hspace]
    exact hholds.unknown sid hnone'

/-! ## Loading a row -/

/-- A row of spaces is put under its name and its number. -/
theorem schemaAddSpace_row (schema : Schema) {r : SpaceRow} (hlight : Light r.doc) (rest : Bytes) :
    schemaAddSpace schema (r.doc.encode ++ rest) =
      .ok (schema.putSpace r.number r.name, some rest) := by
  rw [schemaAddSpace_eq, readSpace_row hlight]
  rfl

/-- A row of indexes is put into the table of the space that its number finds; without one the loading
ends. -/
theorem schemaAddIndex_row (schema : Schema) {r : IndexRow} (hlight : Light r.doc) (rest : Bytes) :
    schemaAddIndex schema (r.doc.encode ++ rest) =
      .ok ((schema.spaceHash.lookup (numberKey r.space)).elim (schema, none) fun space =>
        (schema.putIndex space.indexHash r.number r.name, some rest)) := by
  rw [schemaAddIndex_eq, readIndexSpace_row]
  simp only [bind, Except.bind]
  cases schema.spaceHash.lookup (numberKey r.space) with
  | none => rfl
  | some space =>
    rw [Option.elim_some, readIndex_row hlight]
    rfl

/-! ## Loading rows -/

theorem SpaceRow.doc_wf (r : SpaceRow) : r.doc.WF := by
  obtain ⟨howner, hengine, hcount, hflags, hformat, -⟩ := r.skipped
  have hseven : 7 < r.width.bound := by cases r.width <;> simp [Codec.SeqWidth.bound]
  exact ⟨hseven, r.id_fits, howner, r.name_fits, hengine, hcount, hflags, hformat, trivial⟩

theorem IndexRow.doc_wf (r : IndexRow) : r.doc.WF := by
  obtain ⟨htype, hopts, hparts, -⟩ := r.skipped
  have hsix : 6 < r.width.bound := by cases r.width <;> simp [Codec.SeqWidth.bound]
  exact ⟨hsix, r.space_fits, r.id_fits, r.name_fits, htype, hopts, hparts, trivial⟩

theorem spaceDocs_wf (rows : List SpaceRow) : AllWF (rows.map SpaceRow.doc) :=
  (Codec.allWF_iff _).mpr (by simpa using fun r _ => r.doc_wf)

theorem indexDocs_wf (rows : List IndexRow) : AllWF (rows.map IndexRow.doc) :=
  (Codec.allWF_iff _).mpr (by simpa using fun r _ => r.doc_wf)

/-- An array of rows passes the check, and its rows are added one by one. -/
theorem addTuples_array {add : Schema → Bytes → Except Fault (Schema × Option Bytes)}
    (schema : Schema) {w : SeqWidth} {docs : List Doc} (hwf : (Doc.array w docs).WF)
    (hlight : Light (.array w docs)) (hlen : (Doc.array w docs).encode.length < 2 ^ 32)
    (rest : Bytes) :
    addTuples add schema (some ((Doc.array w docs).encode ++ rest)) (Doc.array w docs).encode.length =
      addRows add docs.length schema (encodeAll docs ++ rest) := by
  have hcheck := phpMpCheck_doc hwf hlight (le_refl _) rest
  have htype := @typeAt_doc (.array w docs) hwf.1 rest
  have harray := decodeArray_head hwf.1 (encodeAll docs ++ rest)
  rw [phpMpCheck] at hcheck
  simp only [addTuples, toUint32, Nat.mod_eq_of_lt hlen, hcheck, htype, bind, Except.bind]
  rw [Doc.encode, List.append_assoc, harray]
  rfl

/-- The schema after rows of spaces have been put into it. -/
def Schema.loadSpaces (schema : Schema) (rows : List SpaceRow) : Schema :=
  rows.foldl (fun schema r => schema.putSpace r.number r.name) schema

/-- The schema after rows of indexes have been put into it, up to the first one whose space it does not
find, and whether it found all. -/
def Schema.loadIndexes (schema : Schema) : List IndexRow → Schema × Bool
  | [] => (schema, true)
  | r :: rows => (schema.spaceHash.lookup (numberKey r.space)).elim (schema, false) fun space =>
    Schema.loadIndexes (schema.putIndex space.indexHash r.number r.name) rows

theorem addRows_spaces {rows : List SpaceRow} (hlight : ∀ r ∈ rows, Light r.doc) (schema : Schema)
    (rest : Bytes) :
    addRows schemaAddSpace rows.length schema (encodeAll (rows.map SpaceRow.doc) ++ rest) =
      .ok (schema.loadSpaces rows, true) := by
  induction rows generalizing schema with
  | nil => rfl
  | cons r rows ih =>
    obtain ⟨hrow, hrows⟩ := List.forall_mem_cons.mp hlight
    rw [List.map_cons, encodeAll, List.append_assoc, List.length_cons, addRows,
      schemaAddSpace_row schema hrow]
    exact ih hrows _

theorem addRows_indexes {rows : List IndexRow} (hlight : ∀ r ∈ rows, Light r.doc) (schema : Schema)
    (rest : Bytes) :
    addRows schemaAddIndex rows.length schema (encodeAll (rows.map IndexRow.doc) ++ rest) =
      .ok (schema.loadIndexes rows) := by
  induction rows generalizing schema with
  | nil => rfl
  | cons r rows ih =>
    obtain ⟨hrow, hrows⟩ := List.forall_mem_cons.mp hlight
    rw [List.map_cons, encodeAll, List.append_assoc, List.length_cons, addRows,
      schemaAddIndex_row schema hrow, Schema.loadIndexes]
    cases schema.spaceHash.lookup (numberKey r.space) with
    | none => rfl
    | some space => exact ih hrows _

theorem light_items {w : SeqWidth} {docs : List Doc} (h : Light (.array w docs)) :
    ∀ d ∈ docs, Light d := by
  intro d hd
  have hle := @Doc.peak_le_of_mem (.array w docs) d hd
  simp only [Light] at h ⊢
  omega

/-- A space list that an `int` and an `uint32_t` can count is loaded. -/
theorem beeSchemaAddSpaces_rows {w : SeqWidth} {rows : List SpaceRow}
    (hfits : (Doc.array w (rows.map SpaceRow.doc)).Fits)
    (hlight : Light (.array w (rows.map SpaceRow.doc)))
    (hlen : (Doc.array w (rows.map SpaceRow.doc)).encode.length < 2 ^ 32) (schema : Schema)
    (rest : Bytes) :
    beeSchemaAddSpaces schema (some ((Doc.array w (rows.map SpaceRow.doc)).encode ++ rest))
      (Doc.array w (rows.map SpaceRow.doc)).encode.length = .ok (schema.loadSpaces rows, true) := by
  have hdoc : (Doc.array w (rows.map SpaceRow.doc)).WF := ⟨hfits, spaceDocs_wf rows⟩
  have hrows := light_items hlight
  simp only [List.forall_mem_map] at hrows
  rw [beeSchemaAddSpaces, addTuples_array schema hdoc hlight hlen, List.length_map,
    addRows_spaces hrows]

theorem beeSchemaAddIndexes_rows {w : SeqWidth} {rows : List IndexRow}
    (hfits : (Doc.array w (rows.map IndexRow.doc)).Fits)
    (hlight : Light (.array w (rows.map IndexRow.doc)))
    (hlen : (Doc.array w (rows.map IndexRow.doc)).encode.length < 2 ^ 32) (schema : Schema)
    (rest : Bytes) :
    beeSchemaAddIndexes schema (some ((Doc.array w (rows.map IndexRow.doc)).encode ++ rest))
      (Doc.array w (rows.map IndexRow.doc)).encode.length = .ok (schema.loadIndexes rows) := by
  have hdoc : (Doc.array w (rows.map IndexRow.doc)).WF := ⟨hfits, indexDocs_wf rows⟩
  have hrows := light_items hlight
  simp only [List.forall_mem_map] at hrows
  rw [beeSchemaAddIndexes, addTuples_array schema hdoc hlight hlen, List.length_map,
    addRows_indexes hrows]

theorem Schema.Holds.loadSpaces {schema : Schema} {h : History} (hholds : schema.Holds h)
    (rows : List SpaceRow) : (schema.loadSpaces rows).Holds (h.addSpaces rows) := by
  induction rows generalizing schema h with
  | nil => exact hholds
  | cons r rows ih =>
    have hrest := ih (hholds.putSpace r.number r.name)
    simpa [History.addSpaces, Schema.loadSpaces] using hrest

/-- Rows of indexes that reach their spaces are put into the tables of these, up to the first one whose
space is not known. -/
theorem Schema.Holds.loadIndexes {schema : Schema} {h : History} (hholds : schema.Holds h)
    {rows : List IndexRow} (hreached : h.Reached rows) :
    (schema.loadIndexes rows).1.Holds (h.addIndexes rows) := by
  induction rows generalizing schema h with
  | nil => exact hholds
  | cons r rows ih =>
    obtain ⟨hreach, hrest⟩ := hreached
    rw [Schema.loadIndexes, hholds.spaces, slot_of_reaches hreach, History.addIndexes, knows_eq]
    cases hplace : h.place r.space with
    | none => exact hholds
    | some n =>
      have hknows : h.knows r.space = true := by rw [knows_eq, hplace]; rfl
      exact ih (hholds.putIndex hplace r.number r.name) (hrest hknows)

/-! ## Running operations -/

/-- A clear operation loads the cache with what it loads the catalogue with. -/
theorem SchemaOp.run_holds {op : SchemaOp} {schema : Schema} {h : History} (hholds : schema.Holds h)
    (hwf : op.WF) (hclear : op.Clear h) :
    ∃ schema', op.run schema = .ok schema' ∧ schema'.Holds (op.load h) := by
  cases op with
  | addSpaces w rows =>
    have hadd := beeSchemaAddSpaces_rows hwf.1 hclear.1 hwf.2 schema []
    rw [List.append_nil] at hadd
    refine ⟨schema.loadSpaces rows, ?_, hholds.loadSpaces rows⟩
    simp only [SchemaOp.run, SchemaOp.doc, hadd]
    rfl
  | addIndexes w rows =>
    have hadd := beeSchemaAddIndexes_rows hwf.1 hclear.1 hwf.2 schema []
    rw [List.append_nil] at hadd
    refine ⟨(schema.loadIndexes rows).1, ?_, hholds.loadIndexes hclear.2⟩
    simp only [SchemaOp.run, SchemaOp.doc, hadd]
    rfl
  | flush => exact ⟨Schema.empty, rfl, holds_empty⟩

theorem runSchema_holds {ops : List SchemaOp} {schema : Schema} {h : History}
    (hholds : schema.Holds h) (hwf : ∀ op ∈ ops, op.WF) (hclear : AllClear h ops) :
    ∃ schema', ops.foldlM SchemaOp.run schema = .ok schema' ∧
      schema'.Holds (ops.foldl SchemaOp.load h) := by
  induction ops generalizing schema h with
  | nil => exact ⟨schema, rfl, hholds⟩
  | cons op ops ih =>
    obtain ⟨hop, hops⟩ := hclear
    obtain ⟨schema₁, hrun, hholds₁⟩ := SchemaOp.run_holds hholds (hwf op List.mem_cons_self) hop
    obtain ⟨schema', hrest, hholds'⟩ := ih hholds₁ (fun op' hop' => hwf op' (List.mem_cons_of_mem _ hop'))
      hops
    refine ⟨schema', ?_, hholds'⟩
    rw [List.foldlM_cons, hrun]
    exact hrest

/-! ## Names -/

/-- The number of a row is below 2^31. -/
def Loaded.Small : Loaded → Prop
  | .space number _ => number.toNat < 2 ^ 31
  | .index _ number _ => number.toNat < 2 ^ 31

theorem toNat_ofNat_small {n : Nat} (h : n < 2 ^ 31) : (UInt32.ofNat n).toNat < 2 ^ 31 := by
  rw [UInt32.toNat_ofNat']
  omega

theorem addIndexes_small {h : History} (hsmall : ∀ e ∈ h, e.Small) (rows : List IndexRow) :
    ∀ e ∈ h.addIndexes rows, e.Small := by
  induction rows generalizing h with
  | nil => exact hsmall
  | cons r rows ih =>
    rw [History.addIndexes]
    split
    · apply ih
      intro e he
      rcases List.mem_cons.mp he with rfl | he
      · exact toNat_ofNat_small r.id_lt
      · exact hsmall e he
    · exact hsmall

theorem load_small {h : History} (hsmall : ∀ e ∈ h, e.Small) (op : SchemaOp) :
    ∀ e ∈ op.load h, e.Small := by
  cases op with
  | addSpaces w rows =>
    intro e he
    rcases List.mem_append.mp he with he | he
    · obtain ⟨r, -, rfl⟩ := List.mem_map.mp (List.mem_reverse.mp he)
      exact toNat_ofNat_small r.id_lt
    · exact hsmall e he
  | addIndexes w rows => exact addIndexes_small hsmall rows
  | flush =>
    intro e he
    cases he

theorem loads_small (ops : List SchemaOp) {h : History} (hsmall : ∀ e ∈ h, e.Small) :
    ∀ e ∈ ops.foldl SchemaOp.load h, e.Small := by
  induction ops generalizing h with
  | nil => exact hsmall
  | cons op ops ih => exact ih (load_small hsmall op)

theorem spaceNames_small {h : History} (hsmall : ∀ e ∈ h, e.Small) :
    ∀ p ∈ h.spaceNames, p.2.toNat < 2 ^ 31 := by
  induction h with
  | nil =>
    intro p hp
    cases hp
  | cons e h ih =>
    have hrest := ih fun e' he' => hsmall e' (List.mem_cons_of_mem _ he')
    have hfirst := hsmall e List.mem_cons_self
    cases e with
    | index => exact hrest
    | space number name =>
      intro p hp
      rcases List.mem_cons.mp hp with rfl | hp
      · exact hfirst
      · exact hrest p hp

theorem indexNames_small {h : History} (hsmall : ∀ e ∈ h, e.Small) (sid : UInt32) :
    ∀ p ∈ h.indexNames sid, p.2.toNat < 2 ^ 31 := by
  induction h with
  | nil =>
    intro p hp
    cases hp
  | cons e h ih =>
    have hrest := ih fun e' he' => hsmall e' (List.mem_cons_of_mem _ he')
    have hfirst := hsmall e List.mem_cons_self
    cases e with
    | space number name =>
      rw [History.indexNames]
      split
      · intro p hp
        cases hp
      · exact hrest
    | index space number name =>
      rw [History.indexNames]
      split
      · intro p hp
        rcases List.mem_cons.mp hp with rfl | hp
        · exact hfirst
        · exact hrest p hp
      · exact hrest

theorem keyed_mem {k : Bytes} {l : List (Bytes × UInt32)} {n : UInt32} (h : keyed k l = some n) :
    ∃ name, (name, n) ∈ l ∧ (name = k ∨ numberKey n = k) := by
  induction l with
  | nil => cases h
  | cons p l ih =>
    obtain ⟨name, number⟩ := p
    rw [keyed] at h
    split at h
    case isTrue hkey =>
      cases h
      exact ⟨name, List.mem_cons_self, hkey⟩
    case isFalse =>
      obtain ⟨name', hmem, hkey⟩ := ih h
      exact ⟨name', List.mem_cons_of_mem _ hmem, hkey⟩

theorem toInt32_small {n : UInt32} (h : n.toNat < 2 ^ 31) : toInt32 n = n.toNat := by
  unfold toInt32 toInt
  rw [Int.bmod_def]
  split <;> omega

/-- What is found under both kinds of keys is the number of the name exactly when the name is not
shadowed. -/
theorem answer_eq_iff {k : Bytes} {l : List (Bytes × UInt32)}
    (hsmall : ∀ p ∈ l, p.2.toNat < 2 ^ 31) :
    (keyed k l).elim (-1) toInt32 = numberOf l k ↔ Unshadowed k l := by
  rw [← keyed_eq_iff, numberOf]
  cases hkeyed : keyed k l with
  | none =>
    cases hlookup : l.lookup k with
    | none => simp
    | some n => simp
  | some m =>
    obtain ⟨name, hmem, -⟩ := keyed_mem hkeyed
    have hm := toInt32_small (hsmall _ hmem)
    rw [Option.elim_some, hm]
    cases hlookup : l.lookup k with
    | none => simp
    | some n => simp [UInt32.toNat_inj]

theorem getSid_some {schema : Schema} {name : Bytes} {space : SpaceValue}
    (h : schema.spaceHash.lookup name = some space) :
    beeSchemaGetSidByString schema name = toInt32 space.spaceNumber := by
  rw [beeSchemaGetSidByString, h]

theorem getSid_none {schema : Schema} {name : Bytes} (h : schema.spaceHash.lookup name = none) :
    beeSchemaGetSidByString schema name = -1 := by
  rw [beeSchemaGetSidByString, h]

theorem getIid_some {schema : Schema} {sid number : UInt32} {name : Bytes} {space : SpaceValue}
    (h : schema.spaceHash.lookup (numberKey sid) = some space)
    (hindex : (schema.indexHashes.getD space.indexHash []).lookup name = some number) :
    beeSchemaGetIidByString schema sid name = toInt32 number := by
  simp only [beeSchemaGetIidByString, h, hindex]

theorem getIid_none {schema : Schema} {sid : UInt32} {name : Bytes}
    (h : ∀ space, schema.spaceHash.lookup (numberKey sid) = some space →
      (schema.indexHashes.getD space.indexHash []).lookup name = none) :
    beeSchemaGetIidByString schema sid name = -1 := by
  cases hspace : schema.spaceHash.lookup (numberKey sid) with
  | none => rw [beeSchemaGetIidByString, hspace]
  | some space => simp only [beeSchemaGetIidByString, hspace, h space hspace]

theorem getSid_keyed {schema : Schema} {h : History} (hholds : schema.Holds h) (name : Bytes) :
    beeSchemaGetSidByString schema name = (keyed name h.spaceNames).elim (-1) toInt32 := by
  rw [← slot_keyed, ← hholds.spaces]
  cases hfound : schema.spaceHash.lookup name with
  | none => rw [getSid_none hfound, Option.map_none, Option.elim_none]
  | some space => rw [getSid_some hfound, Option.map_some, Option.elim_some]

theorem getIid_keyed {schema : Schema} {h : History} (hholds : schema.Holds h) {sid : UInt32}
    (hreach : h.Reaches sid) (name : Bytes) :
    beeSchemaGetIidByString schema sid name = (keyed name (h.indexNames sid)).elim (-1) toInt32 := by
  have hspace := hholds.spaces (numberKey sid)
  rw [slot_of_reaches hreach] at hspace
  cases hplace : h.place sid with
  | none =>
    rw [hplace, Option.map_none] at hspace
    rw [hholds.unknown sid hplace, keyed, Option.elim_none]
    exact getIid_none fun space h => by rw [hspace] at h; cases h
  | some n =>
    rw [hplace, Option.map_some] at hspace
    have hindex := hholds.indexes sid n hplace name
    cases hfound : keyed name (h.indexNames sid) with
    | none =>
      rw [hfound] at hindex
      rw [Option.elim_none]
      refine getIid_none fun space h => ?_
      rw [hspace] at h
      cases h
      exact hindex
    | some number =>
      rw [hfound] at hindex
      rw [Option.elim_some]
      exact getIid_some hspace hindex

/-- After any sequence of operations that reach their spaces, the cache answers with the number of the
space that was loaded last under a name exactly when no number shadows the name, and likewise for the
indexes of a space that is reached. -/
theorem schema_names {ops : List SchemaOp} (hwf : ∀ op ∈ ops, op.WF) (hclear : AllClear [] ops) :
    ∃ schema, runSchema ops = .ok schema ∧
      (∀ name, beeSchemaGetSidByString schema name = (historyOf ops).sid name ↔
        Unshadowed name (historyOf ops).spaceNames) ∧
      ∀ sid name, (historyOf ops).Reaches sid →
        (beeSchemaGetIidByString schema sid name = (historyOf ops).iid sid name ↔
          Unshadowed name ((historyOf ops).indexNames sid)) := by
  obtain ⟨schema, hrun, hholds⟩ := runSchema_holds holds_empty hwf hclear
  have hsmall := @loads_small ops [] (by simp)
  refine ⟨schema, hrun, ?_, ?_⟩
  · intro name
    rw [getSid_keyed hholds]
    exact answer_eq_iff (spaceNames_small hsmall)
  · intro sid name hreach
    rw [getIid_keyed hholds hreach]
    exact answer_eq_iff (indexNames_small hsmall sid)

/-- The row of the space `users`. -/
def usersRow : SpaceRow := .named 512 "users"

/-- The row of its primary index. -/
def primaryRow : IndexRow := .named 512 0 "primary"

/-- The space `users` with its primary index. -/
def usersOps : List SchemaOp :=
  [.addSpaces .fix [.named 512 "users"], .addIndexes .fix [.named 512 0 "primary"]]

theorem schema_names_users :
    ∃ schema, runSchema usersOps = .ok schema ∧
      (∀ name, beeSchemaGetSidByString schema name = (historyOf usersOps).sid name ↔
        Unshadowed name (historyOf usersOps).spaceNames) ∧
      ∀ sid name, (historyOf usersOps).Reaches sid →
        (beeSchemaGetIidByString schema sid name = (historyOf usersOps).iid sid name ↔
          Unshadowed name ((historyOf usersOps).indexNames sid)) :=
  schema_names (by decide +kernel) (by decide +kernel)

/-- After the space `user` a space is loaded whose number has the bytes of this name. -/
theorem schema_names_numbers : ¬ ∀ ops : List SchemaOp, (∀ op ∈ ops, op.WF) →
    ∃ schema, runSchema ops = .ok schema ∧
      (∀ name, beeSchemaGetSidByString schema name = (historyOf ops).sid name) ∧
      ∀ sid name, beeSchemaGetIidByString schema sid name = (historyOf ops).iid sid name := by
  intro h
  obtain ⟨schema, hrun, hsid, -⟩ := h
    [.addSpaces .fix [.named 513 "user", .named 1919251317 "orders"]] (by decide +kernel)
  have hanswers : (runSchema [.addSpaces .fix [.named 513 "user", .named 1919251317 "orders"]]).map
      (fun schema => beeSchemaGetSidByString schema (ascii "user")) = .ok 1919251317 := by
    decide +kernel
  rw [hrun] at hanswers
  have hname : (historyOf [.addSpaces .fix [.named 513 "user", .named 1919251317 "orders"]]).sid
      (ascii "user") = 513 := by decide
  rw [Except.map, hsid, hname] at hanswers
  cases hanswers

end BeePhp
