import BeePhp.Proofs.AuthProofs

/-!
# Proofs: loading a catalogue

The spaces and the indexes of a catalogue are cut off at the same number of rows, independently of each
other. When all rows of indexes find spaces, a table of indexes holds the rows that go into it
(`loadIndexes_lookup`).
-/

namespace BeePhp

open Codec Program

/-! ## Tables of indexes -/

theorem keyed_append (k : Bytes) (l l' : List (Bytes × UInt32)) :
    keyed k (l ++ l') = (keyed k l).or (keyed k l') := by
  induction l with
  | nil => rfl
  | cons p l ih =>
    obtain ⟨name, number⟩ := p
    rw [List.cons_append, keyed, keyed]
    split
    · rfl
    · exact ih

theorem slot_lt {k : Bytes} {h : History} {space : SpaceValue} (hslot : h.slot k = some space) :
    space.indexHash < h.spaceNames.length := by
  induction h with
  | nil => cases hslot
  | cons e h ih =>
    cases e with
    | index => exact ih hslot
    | space number name =>
      rw [History.slot] at hslot
      rw [History.spaceNames, List.length_cons]
      split at hslot
      · cases hslot
        exact Nat.lt_succ_self _
      · exact Nat.lt_succ_of_lt (ih hslot)

/-- The rows that go into a table of indexes, the latest first. -/
def Schema.tableRows (schema : Schema) (rows : List IndexRow) (table : Nat) : List (Bytes × UInt32) :=
  ((rows.filter fun i => decide
    ((schema.spaceHash.lookup (numberKey i.space)).map SpaceValue.indexHash = some table)).map fun i =>
      (i.name, i.number)).reverse

theorem Schema.tableRows_cons (schema : Schema) (i : IndexRow) (rows : List IndexRow) (table : Nat) :
    schema.tableRows (i :: rows) table = schema.tableRows rows table ++
      if (schema.spaceHash.lookup (numberKey i.space)).map SpaceValue.indexHash = some table then
        [(i.name, i.number)] else [] := by
  simp only [Schema.tableRows, List.filter_cons, decide_eq_true_eq]
  split
  · rw [List.map_cons, List.reverse_cons]
  · rw [List.append_nil]

/-- An index in front of a table. -/
theorem putIndex_lookup {schema : Schema} {n : Nat} (hn : n < schema.indexHashes.length)
    (number : UInt32) (name : Bytes) (table : Nat) (k : Bytes) :
    (((schema.putIndex n number name).indexHashes.getD table []).lookup k) =
      (if n = table then keyed k [(name, number)] else none).or
        ((schema.indexHashes.getD table []).lookup k) := by
  simp only [Schema.putIndex, List.getD_eq_getElem?_getD]
  by_cases htable : n = table
  · subst htable
    rw [List.getElem?_set_self hn, Option.getD_some, lookup_enter, lookup_enter, if_pos rfl, keyed]
    by_cases hkey : numberKey number = k
    · simp [hkey]
    · by_cases hname : name = k
      · simp [hkey, hname]
      · simp [hkey, hname, Ne.symm hkey, Ne.symm hname, keyed]
  · rw [List.getElem?_set_ne htable, if_neg htable, Option.none_or]

/-- After all rows have been loaded, a table finds the latest row under a name or under a number. -/
theorem loadIndexes_lookup {schema : Schema} {rows : List IndexRow}
    (hall : (schema.loadIndexes rows).2 = true)
    (hroom : ∀ k space, schema.spaceHash.lookup k = some space →
      space.indexHash < schema.indexHashes.length) (table : Nat) (k : Bytes) :
    ((schema.loadIndexes rows).1.indexHashes.getD table []).lookup k =
      (keyed k (schema.tableRows rows table)).or ((schema.indexHashes.getD table []).lookup k) := by
  induction rows generalizing schema with
  | nil => rfl
  | cons i rows ih =>
    rw [Schema.tableRows_cons, keyed_append]
    rw [Schema.loadIndexes] at hall ⊢
    cases hfound : schema.spaceHash.lookup (numberKey i.space) with
    | none =>
      rw [hfound] at hall
      cases hall
    | some space =>
      rw [hfound] at hall
      have hn := hroom _ space hfound
      have hrest := @ih (schema.putIndex space.indexHash i.number i.name) hall
        fun k' space' hlookup => by
          rw [Schema.putIndex, List.length_set]
          exact hroom k' space' hlookup
      rw [Option.elim_some, hrest, putIndex_lookup hn, Option.or_assoc]
      congr 2
      simp only [Option.map_some, Option.some.injEq]
      split <;> rfl

theorem loadIndexes_spaceHash (schema : Schema) (rows : List IndexRow) :
    (schema.loadIndexes rows).1.spaceHash = schema.spaceHash := by
  induction rows generalizing schema with
  | nil => rfl
  | cons i rows ih =>
    rw [Schema.loadIndexes]
    cases schema.spaceHash.lookup (numberKey i.space) with
    | none => rfl
    | some space => exact ih _

/-! ## Loading -/

/-- Spaces are loaded with empty tables of indexes. -/
theorem loadSpaces_tables {schema : Schema} (h : ∀ table ∈ schema.indexHashes, table = [])
    (rows : List SpaceRow) : ∀ table ∈ (schema.loadSpaces rows).indexHashes, table = [] := by
  induction rows generalizing schema with
  | nil => exact h
  | cons r rows ih =>
    refine @ih (schema.putSpace r.number r.name) fun table htable => ?_
    rcases List.mem_append.mp htable with htable | htable
    · exact h table htable
    · exact List.mem_singleton.mp htable

/-- In request order everything is loaded when every row of indexes finds a space. -/
theorem loads_request {r : AuthReplies} (schema : Schema) :
    r.loads .empty [.auth, .space, .index] = some schema ↔ r.Short ∧
      ((Schema.empty.loadSpaces r.spaces).loadIndexes r.indexes).2 = true ∧
      ((Schema.empty.loadSpaces r.spaces).loadIndexes r.indexes).1 = schema := by
  rw [AuthReplies.short_iff, AuthReplies.loads, Option.ite_none_right_eq_some, AuthReplies.loads,
    Option.ite_none_right_eq_some, AuthReplies.loads, Option.ite_none_right_eq_some, AuthReplies.loads]
  simp only [AuthReplies.load, AuthReplies.reply, and_true, Option.some.injEq]
  tauto

section Loaded

variable {spaces : List SpaceRow} {indexes : List IndexRow}

theorem tableRows_eq (table : Nat) : (Schema.empty.loadSpaces spaces).tableRows indexes table =
    (History.addSpaces [] spaces).tableRows indexes table := by
  simp only [Schema.tableRows, History.tableRows, lookup_loadSpaces]

/-- What is found in a table of indexes of a catalogue. -/
theorem catalogue_lookup
    (hall : ((Schema.empty.loadSpaces spaces).loadIndexes indexes).2 = true) (table : Nat) (k : Bytes) :
    (((Schema.empty.loadSpaces spaces).loadIndexes indexes).1.indexHashes.getD table []).lookup k =
      keyed k ((History.addSpaces [] spaces).tableRows indexes table) := by
  have hempty : (Schema.empty.loadSpaces spaces).indexHashes.getD table [] = [] := by
    rw [List.getD_eq_getElem?_getD]
    cases htable : (Schema.empty.loadSpaces spaces).indexHashes[table]? with
    | none => rfl
    | some rows =>
      exact @loadSpaces_tables .empty (by simp [Schema.empty]) spaces rows
        (List.mem_of_getElem? htable)
  have hroom (k : Bytes) (space : SpaceValue)
      (hlookup : (Schema.empty.loadSpaces spaces).spaceHash.lookup k = some space) :
      space.indexHash < (Schema.empty.loadSpaces spaces).indexHashes.length := by
    rw [lookup_loadSpaces] at hlookup
    rw [(holds_empty.loadSpaces spaces).tables]
    exact slot_lt hlookup
  rw [loadIndexes_lookup hall hroom, hempty, tableRows_eq, List.lookup_nil, Option.or_none]

theorem tableRows_small {h : History} {table : Nat} {k : Bytes} {number : UInt32}
    (hkeyed : keyed k (h.tableRows indexes table) = some number) : number.toNat < 2 ^ 31 := by
  obtain ⟨name, hmem, -⟩ := keyed_mem hkeyed
  obtain ⟨i, -, heq⟩ := List.mem_map.mp (List.mem_reverse.mp hmem)
  obtain ⟨-, rfl⟩ := Prod.mk.inj heq
  exact toNat_ofNat_small i.id_lt

/-- The number that is found under the name of an index is its own exactly when no later row of its
table hides it. -/
theorem getIid_catalogue (hall : ((Schema.empty.loadSpaces spaces).loadIndexes indexes).2 = true)
    {i : IndexRow} {space : SpaceValue}
    (hslot : (History.addSpaces [] spaces).slot (numberKey i.space) = some space) :
    beeSchemaGetIidByString ((Schema.empty.loadSpaces spaces).loadIndexes indexes).1 i.space i.name = i.id ↔
      keyed i.name ((History.addSpaces [] spaces).tableRows indexes space.indexHash) = some i.number := by
  have hspace : ((Schema.empty.loadSpaces spaces).loadIndexes indexes).1.spaceHash.lookup
      (numberKey i.space) = some space := by
    rw [loadIndexes_spaceHash, lookup_loadSpaces, hslot]
  have htable := catalogue_lookup hall space.indexHash i.name
  have hid : (i.id : Int) = i.number.toNat := by
    have hlt := i.id_lt
    rw [IndexRow.number, UInt32.toNat_ofNat', Nat.mod_eq_of_lt (by omega)]
  cases hkeyed : keyed i.name ((History.addSpaces [] spaces).tableRows indexes space.indexHash) with
  | none =>
    rw [hkeyed] at htable
    have hnone : beeSchemaGetIidByString ((Schema.empty.loadSpaces spaces).loadIndexes indexes).1
        i.space i.name = -1 := by
      refine getIid_none fun space' hspace' => ?_
      obtain rfl := Option.some.inj (hspace.symm.trans hspace')
      exact htable
    rw [hnone]
    refine ⟨fun h => by omega, nofun⟩
  | some number =>
    rw [hkeyed] at htable
    rw [getIid_some hspace htable, toInt32_small (tableRows_small hkeyed), hid, Option.some.injEq,
      Nat.cast_inj, UInt32.toNat_inj]

end Loaded

/-- With the responses in request order the authentication loads a catalogue so that every index is found
exactly when the responses are short and, in the rows up to the limit, every index finds a space and is
not hidden. -/
theorem load_catalogue {P : Platform} {c : ServerCatalogue} {r : AuthReplies} (hlists : r.Lists c)
    {w w₁ : World} {syncs : AuthSyncs} {rest : Bytes} (hanswers : r.Answers syncs)
    (hsent : BatchSent P w syncs w₁) (harrived : w₁.Arrived (r.frames [.auth, .space, .index]) rest) :
    LoadsSchema P w r.indexes ↔
      r.Short ∧ (History.addSpaces [] (c.spaces.take 4096)).Finds (c.indexes.take 4096) := by
  have hrun := authenticate_order rfl hanswers hsent harrived
  rw [← hlists.spaces, ← hlists.indexes]
  constructor
  · rintro ⟨w', hok, hfound⟩
    cases hloads : r.loads .empty [.auth, .space, .index] with
    | none =>
      rw [hloads] at hrun
      cases hrun true w' hok
    | some schema =>
      obtain ⟨hshort, hall, rfl⟩ := (loads_request schema).mp hloads
      rw [hloads] at hrun
      obtain ⟨w'', hok', hstands⟩ := hrun
      obtain ⟨-, rfl⟩ := Prod.mk.inj (Except.ok.inj (hok.symm.trans hok'))
      refine ⟨hshort, fun i hi => ?_⟩
      have hslot := (loadIndexes_all _ _).mp hall i hi
      rw [lookup_loadSpaces] at hslot
      obtain ⟨space, hslot⟩ := Option.isSome_iff_exists.mp hslot
      have hid := hfound i hi
      rw [hstands.schema] at hid
      exact ⟨space, hslot, (getIid_catalogue hall hslot).mp hid⟩
  · rintro ⟨hshort, hfinds⟩
    have hall : ((Schema.empty.loadSpaces r.spaces).loadIndexes r.indexes).2 = true := by
      rw [loadIndexes_all]
      intro i hi
      obtain ⟨space, hslot, -⟩ := hfinds i hi
      rw [lookup_loadSpaces, hslot]
      rfl
    rw [(loads_request _).mpr ⟨hshort, hall, rfl⟩] at hrun
    obtain ⟨w', hok, hstands⟩ := hrun
    refine ⟨w', hok, fun i hi => ?_⟩
    obtain ⟨space, hslot, hkeyed⟩ := hfinds i hi
    rw [hstands.schema]
    exact (getIid_catalogue hall hslot).mpr hkeyed

/-- A catalogue with one space and its index. -/
def usersCatalogue : ServerCatalogue where
  spaces := [usersRow]
  indexes := [primaryRow]
  spaces_sorted := List.pairwise_singleton _ _
  indexes_sorted := List.pairwise_singleton _ _
  belongs := fun i hi => by
    rw [List.mem_singleton.mp hi]
    exact ⟨_, List.mem_cons_self, rfl⟩

theorem load_catalogue_users : LoadsSchema (.blank true)
    (World.answered usersReplies [.auth, .space, .index]) usersReplies.indexes := by
  obtain ⟨w₁, hsent, harrived⟩ := answered_sent usersReplies .auth .space .index
  refine (load_catalogue (c := usersCatalogue) ⟨rfl, rfl⟩ (replies_answer _ _) hsent harrived).mpr
    ⟨replies_short _ _, fun i hi => ?_⟩
  rw [List.mem_singleton.mp hi]
  exact ⟨⟨512, 0⟩, rfl, by decide⟩

/-! ## More spaces than the limit -/

theorem skipped_space : AllWF [.nil, .nil, .nil, .nil, .nil] := by simp [AllWF, Doc.WF, Doc.Fits]

theorem skipped_index : AllWF [.nil, .nil, .nil] := by simp [AllWF, Doc.WF, Doc.Fits]

/-- The space `n`, of which three bytes are the name. -/
def SpaceRow.numbered (n : Nat) : SpaceRow where
  width := .fix
  idWidth := .w32
  id := n % 2 ^ 31
  owner := .nil
  nameWidth := .fix
  name := toBE 3 n
  engine := .nil
  fieldCount := .nil
  flags := .nil
  format := .nil
  id_fits := by
    simp only [IntWidth.uintBound]
    omega
  id_lt := Nat.mod_lt _ (by decide)
  name_fits := by
    rw [toBE_length]
    decide
  skipped := skipped_space

/-- The index 0 of the space `n`. -/
def IndexRow.numbered (n : Nat) : IndexRow where
  width := .fix
  spaceWidth := .w32
  spaceId := n % 2 ^ 31
  idWidth := .fix
  id := 0
  nameWidth := .fix
  name := ascii "pk"
  type := .nil
  opts := .nil
  parts := .nil
  space_fits := by
    simp only [IntWidth.uintBound]
    omega
  space_lt := Nat.mod_lt _ (by decide)
  id_fits := by decide
  id_lt := by decide
  name_fits := by decide
  skipped := skipped_index

/-- One space more than `n`, of which all but the first have an index. -/
def crowdedCatalogue (n : Nat) (hn : n < 2 ^ 24) : ServerCatalogue where
  spaces := (List.range (n + 1)).map SpaceRow.numbered
  indexes := (List.range n).map fun k => IndexRow.numbered (k + 1)
  spaces_sorted := by
    rw [List.pairwise_map]
    refine List.pairwise_lt_range.imp_of_mem fun hj hk hlt => ?_
    rw [List.mem_range] at hj hk
    simp only [SpaceRow.numbered]
    omega
  indexes_sorted := by
    rw [List.pairwise_map]
    refine List.pairwise_lt_range.imp_of_mem fun hj hk hlt => ?_
    rw [List.mem_range] at hj hk
    simp only [IndexRow.numbered]
    omega
  belongs := by
    intro i hi
    obtain ⟨k, hk, rfl⟩ := List.mem_map.mp hi
    rw [List.mem_range] at hk
    exact ⟨_, List.mem_map_of_mem (List.mem_range.mpr (Nat.succ_lt_succ hk)), rfl⟩

section Crowded

variable {n : Nat} {hn : n < 2 ^ 24}

theorem mem_crowded_spaces {r : SpaceRow} (h : r ∈ (crowdedCatalogue n hn).spaces.take n) :
    ∃ k < n, SpaceRow.numbered k = r := by
  rw [crowdedCatalogue, ← List.map_take, List.take_range, Nat.min_eq_left (Nat.le_succ n)] at h
  simpa only [List.mem_map, List.mem_range] using h

theorem mem_crowded_indexes {i : IndexRow} :
    i ∈ (crowdedCatalogue n hn).indexes.take n ↔ ∃ k < n, IndexRow.numbered (k + 1) = i := by
  rw [crowdedCatalogue, ← List.map_take, List.take_range, Nat.min_self]
  simp only [List.mem_map, List.mem_range]

theorem encodeAll_le {docs : List Doc} {n : Nat} (h : ∀ d ∈ docs, d.encode.length ≤ n) :
    (encodeAll docs).length ≤ docs.length * n := by
  induction docs with
  | nil => simp [encodeAll]
  | cons d docs ih =>
    obtain ⟨hd, hdocs⟩ := List.forall_mem_cons.mp h
    have hrest := ih hdocs
    rw [encodeAll, List.length_append, List.length_cons, Nat.add_mul]
    omega

theorem crowded_spaces :
    (encodeAll (((crowdedCatalogue n hn).spaces.take n).map SpaceRow.doc)).length < 2 ^ 30 := by
  have hle := @encodeAll_le (((crowdedCatalogue n hn).spaces.take n).map SpaceRow.doc) 20 fun d hd => by
    obtain ⟨r, hr, rfl⟩ := List.mem_map.mp hd
    obtain ⟨k, -, rfl⟩ := mem_crowded_spaces hr
    simp [SpaceRow.doc, SpaceRow.numbered, Doc.encode, encodeAll, Doc.head, IntWidth.uintHead,
      StrWidth.head, SeqWidth.arrayHead, toBE_length]
  rw [List.length_map, List.length_take] at hle
  omega

theorem crowded_indexes :
    (encodeAll (((crowdedCatalogue n hn).indexes.take n).map IndexRow.doc)).length < 2 ^ 30 := by
  have hle := @encodeAll_le (((crowdedCatalogue n hn).indexes.take n).map IndexRow.doc) 20 fun d hd => by
    obtain ⟨i, hi, rfl⟩ := List.mem_map.mp hd
    obtain ⟨k, -, rfl⟩ := mem_crowded_indexes.mp hi
    have hpk : (ascii "pk").length = 2 := rfl
    simp [IndexRow.doc, IndexRow.numbered, Doc.encode, encodeAll, Doc.head, IntWidth.uintHead,
      StrWidth.head, SeqWidth.arrayHead, toBE_length, hpk]
  rw [List.length_map, List.length_take] at hle
  omega

theorem slot_eq_none {k : Bytes} {h : History}
    (hnone : ∀ number name, .space number name ∈ h → name ≠ k ∧ numberKey number ≠ k) :
    h.slot k = none := by
  induction h with
  | nil => rfl
  | cons e h ih =>
    have hrest := ih fun number name hmem => hnone number name (List.mem_cons_of_mem _ hmem)
    cases e with
    | index => exact hrest
    | space number name =>
      obtain ⟨hname, hkey⟩ := hnone number name List.mem_cons_self
      rw [History.slot, if_neg (not_or.mpr ⟨hname, hkey⟩)]
      exact hrest

/-- The last space is cut off. -/
theorem crowded_slot : (History.addSpaces [] ((crowdedCatalogue n hn).spaces.take n)).slot
    (numberKey (IndexRow.numbered n).space) = none := by
  refine slot_eq_none fun number name hmem => ?_
  rw [History.addSpaces, List.append_nil, List.mem_reverse] at hmem
  obtain ⟨r, hr, heq⟩ := List.mem_map.mp hmem
  obtain ⟨k, hk, rfl⟩ := mem_crowded_spaces hr
  obtain ⟨rfl, rfl⟩ := Loaded.space.inj heq
  constructor
  · intro hname
    have hlen := congrArg List.length hname
    simp [SpaceRow.numbered, numberKey, toBE_length] at hlen
  · intro hkey
    have hnumber := congrArg UInt32.toNat (numberKey_inj hkey)
    simp only [SpaceRow.number, SpaceRow.numbered, IndexRow.space, IndexRow.numbered,
      UInt32.toNat_ofNat'] at hnumber
    omega

/-- The last index is not loaded. -/
theorem crowded_loads {r : AuthReplies} (hspaces : r.spaces = (crowdedCatalogue n hn).spaces.take n)
    (hindexes : r.indexes = (crowdedCatalogue n hn).indexes.take n) (hpos : 0 < n) :
    r.loads .empty [.auth, .space, .index] = none := by
  cases hloads : r.loads .empty [.auth, .space, .index] with
  | none => rfl
  | some schema =>
    obtain ⟨-, hall, -⟩ := (loads_request schema).mp hloads
    have hlast : IndexRow.numbered n ∈ r.indexes := by
      rw [hindexes, mem_crowded_indexes]
      exact ⟨n - 1, by omega, by rw [Nat.sub_add_cancel hpos]⟩
    have hslot := (loadIndexes_all _ _).mp hall _ hlast
    rw [lookup_loadSpaces, hspaces, crowded_slot] at hslot
    cases hslot

end Crowded

/-- The first space has no index, and the 4096 indexes reach up to a space that is cut off. -/
theorem load_catalogue_crowded : ¬ ∀ (P : Platform) (c : ServerCatalogue) (r : AuthReplies)
    (w w₁ : World) (syncs : AuthSyncs) (rest : Bytes), r.Lists c → r.Answers syncs →
    BatchSent P w syncs w₁ → w₁.Arrived (r.frames [.auth, .space, .index]) rest →
    LoadsSchema P w r.indexes := by
  intro h
  let c := crowdedCatalogue 4096 (by decide)
  let r : AuthReplies := .listing (c.spaces.take 4096) (c.indexes.take 4096) crowded_spaces
    crowded_indexes
  have hlists : r.Lists c := ⟨replies_spaces _ _, replies_indexes _ _⟩
  have hanswers : r.Answers (.from 0) := replies_answer _ _
  have hloads := crowded_loads hlists.spaces hlists.indexes (by decide)
  generalize r = r, c = c at hlists hanswers hloads
  obtain ⟨w₁, hsent, harrived⟩ := answered_sent r .auth .space .index
  obtain ⟨w', hok, -⟩ := h _ c r _ w₁ _ _ hlists hanswers hsent harrived
  have hrun := authenticate_order rfl hanswers hsent harrived
  rw [hloads] at hrun
  cases hrun true w' hok

end BeePhp
