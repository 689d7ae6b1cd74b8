import BeePhp.Proofs.FlushedProofs
import BeePhp.Proofs.RowsProofs

/-!
# Proofs: a flush during a resize

A resize that ends while `bee_schema_flush` goes over the table of spaces moves the nodes that are left, some of
them behind the loop. When no resize does so the flush is right, however the schema came about.
-/

namespace BeePhp

open Codec (Bytes Doc encodeAll except_bind_eq_ok)

/-! ## Schemas from rows -/

theorem fits_w32 (number : Fin (2 ^ 31)) : number < Codec.IntWidth.uintBound .w32 := by
  have hlt := number.isLt
  simp only [Codec.IntWidth.uintBound]
  omega

theorem number_small (number : Fin (2 ^ 31)) : (number : Nat) < 2 ^ 31 := number.isLt

theorem short_fits {name : Bytes} (h : name.length < 256) : name.length < Codec.StrWidth.bound .w32 := by
  simp only [Codec.StrWidth.bound]
  omega

/-- A row that has no more than a number and a name of a few bytes. -/
def SpaceRow.brief (number : Fin (2 ^ 31)) (name : Bytes) (h : name.length < 256) : SpaceRow where
  width := .fix
  idWidth := .w32
  id := number
  owner := .nil
  nameWidth := .w32
  name := name
  engine := .nil
  fieldCount := .nil
  flags := .nil
  format := .nil
  id_fits := fits_w32 number
  id_lt := number_small number
  name_fits := short_fits h
  skipped := usersRow.skipped

/-- An array of rows passes the check, and its rows are added one by one. -/
theorem Tables.addTuples_array {add : Tables → Bytes → Except Fault (Tables × Option Bytes)} (t : Tables)
    {w : Codec.SeqWidth} {docs : List Doc} (hwf : (Doc.array w docs).WF) (hlight : Light (.array w docs))
    (hlen : (Doc.array w docs).encode.length < 2 ^ 32) :
    Tables.addTuples add t (some (Doc.array w docs).encode) (Doc.array w docs).encode.length =
      Tables.addRows add docs.length t (encodeAll docs) := by
  have hcheck := phpMpCheck_doc hwf hlight (le_refl _) []
  have htype := @typeAt_doc (.array w docs) hwf.1 []
  have harray := decodeArray_head hwf.1 (encodeAll docs)
  rw [phpMpCheck] at hcheck
  rw [List.append_nil] at hcheck htype
  simp only [Tables.addTuples, toUint32, Nat.mod_eq_of_lt hlen, hcheck, htype, bind, Except.bind]
  rw [Doc.encode, harray]
  rfl

/-- A list of one row. -/
def SpaceRow.alone (r : SpaceRow) : Doc := .array .fix [r.doc]

theorem brief_light (number : Fin (2 ^ 31)) {name : Bytes} (h : name.length < 256) :
    Light (SpaceRow.brief number name h).alone := by
  simp [Light, SpaceRow.alone, SpaceRow.doc, SpaceRow.brief, Doc.peak, Codec.peakAll, intMax]

theorem brief_length (number : Fin (2 ^ 31)) {name : Bytes} (h : name.length < 256) :
    (SpaceRow.brief number name h).alone.encode.length = name.length + 17 := by
  simp [SpaceRow.alone, SpaceRow.doc, SpaceRow.brief, encodeAll, Doc.encode, Doc.head, Codec.SeqWidth.arrayHead,
    Codec.IntWidth.uintHead, Codec.StrWidth.head, Codec.toBE_length]
  omega

theorem SpaceRow.alone_wf (r : SpaceRow) : r.alone.WF :=
  ⟨by simp [Doc.Fits, Codec.SeqWidth.bound], r.doc_wf, trivial⟩

theorem addRows_one {add : Tables → Bytes → Except Fault (Tables × Option Bytes)} {t t' : Tables}
    {data rest : Bytes} (hrow : add t data = .ok (t', some rest)) : Tables.addRows add 1 t data = .ok (t', true) := by
  unfold Tables.addRows
  rw [hrow]
  rfl

theorem addSpace_of_readSpace {t t' : Tables} {data : Bytes} {row : UInt32 × Bytes × Bytes}
    (hread : readSpace data = .ok (some row)) (hrun : t.putSpace row.1 row.2.1 = .ok t') :
    t.addSpace data = .ok (t', some row.2.2) := by
  unfold Tables.addSpace
  rw [hread]
  simp only [bind, Except.bind, hrun]
  rfl

/-- A space whose nodes can be put into the tables can be loaded. -/
theorem Tables.Reached.putSpace {t t' : Tables} (ht : t.Reached) {number : Fin (2 ^ 31)} {name : Bytes}
    (h : name.length < 256) (hrun : t.putSpace (UInt32.ofNat number) name = .ok t') : t'.Reached := by
  generalize hr : SpaceRow.brief number name h = r
  have hlight : Light r.alone := hr ▸ brief_light number h
  have hlen : r.alone.encode.length < 2 ^ 32 := by
    rw [← hr, brief_length]
    omega
  have hput : t.putSpace r.number r.name = .ok t' := by
    rw [← hr]
    exact hrun
  have hread : readSpace (encodeAll [r.doc]) = .ok (some (r.number, r.name, [])) :=
    readSpace_row (light_items hlight _ (List.mem_singleton_self _)) []
  refine @Tables.Reached.addSpaces t t' (some r.alone.encode) r.alone.encode.length true ht ?_
  have hloop : t.addSpaces (some r.alone.encode) r.alone.encode.length =
      Tables.addRows Tables.addSpace 1 t (encodeAll [r.doc]) := Tables.addTuples_array t r.alone_wf hlight hlen
  rw [hloop]
  exact addRows_one (addSpace_of_readSpace hread hput)

/-- The schema after spaces have been put into a new one. -/
def putSpaces (rows : List (Nat × Bytes)) (t : Tables) : Except Fault Tables :=
  rows.foldlM (fun t row => t.putSpace (UInt32.ofNat row.1) row.2) t

theorem Tables.Reached.putSpaces {rows : List (Nat × Bytes)}
    (hrows : ∀ row ∈ rows, row.1 < 2 ^ 31 ∧ row.2.length < 256) {t t' : Tables} (ht : t.Reached)
    (hrun : BeePhp.putSpaces rows t = .ok t') : t'.Reached := by
  induction rows generalizing t with
  | nil =>
    cases hrun
    exact ht
  | cons row rows ih =>
    obtain ⟨t₁, hput, hrest⟩ := except_bind_eq_ok.mp hrun
    obtain ⟨⟨hnumber, hname⟩, hrows⟩ := List.forall_mem_cons.mp hrows
    exact ih hrows (@Tables.Reached.putSpace t t₁ ht ⟨row.1, hnumber⟩ row.2 hname hput) hrest

/-! ## The flush -/

/-- Of a schema that loads and flushes have led to: a flush returns and releases nothing twice. No node is left
if no resize of the table of spaces ends before the last one is deleted. -/
theorem flush_of_reached {t : Tables} (ht : t.Reached) (hroomy : t.Roomy) :
    (∃ t', t.flush = .ok t' ∧ t'.released.Nodup) ∧ (t.spaceHash.Steady → t.Flushes) := by
  rcases ht.sane with hnot | hg
  · exact absurd hroomy hnot
  obtain ⟨t', hrun, hg', hempty⟩ := Tables.flush_good hg
  refine ⟨⟨t', hrun, hg'.unreleased.nodup⟩, fun hsteady => ?_⟩
  exact ⟨t', hrun, hg'.empty (hempty hsteady), hg'.unreleased.nodup⟩

/-- Whether the tables of a schema are small, and none is being resized. -/
def Tables.atRest (t : Tables) : Bool :=
  decide (t.spaceHash.prime ≤ 28) && decide (t.spaceHash.resizePosition = 0) &&
    t.indexHashes.all fun hash => decide (hash.table.prime ≤ 28)

/-- The schema of the space `users`. -/
theorem flush_users : ∃ t, putSpaces [(512, ascii "users")] .new = .ok t ∧ t.Flushes := by
  have hrest : ((putSpaces [(512, ascii "users")] .new).map Tables.atRest).toOption = some true := by
    decide +kernel
  cases hload : putSpaces [(512, ascii "users")] .new with
  | error e =>
    rw [hload] at hrest
    cases hrest
  | ok t =>
    rw [hload] at hrest
    have hrest : t.atRest = true := Option.some.inj hrest
    unfold Tables.atRest at hrest
    simp only [Bool.and_eq_true, decide_eq_true_iff, List.all_eq_true] at hrest
    obtain ⟨⟨hprime, hposition⟩, hindexes⟩ := hrest
    have ht : t.Reached := Tables.Reached.new.putSpaces (by
      intro row hrow
      rw [List.mem_singleton.mp hrow]
      decide) hload
    refine ⟨t, rfl, (flush_of_reached ht ⟨fun hh => ?_, fun hash hmem hh => ?_⟩).2 (.inl hposition)⟩
    · exact absurd hh.1 (Nat.not_lt.mpr hprime)
    · exact absurd hh.1 (Nat.not_lt.mpr (hindexes hash hmem))

/-- The spaces 0 to 134, then 56 under another name, then 135: with the last one a resize of the table, which
has 389 buckets, has come to bucket 256. -/
def orphanRows : List (Nat × Bytes) :=
  (List.range 135).map (fun k => (k, Codec.toBE 3 k)) ++ [(56, Codec.toBE 3 135), (135, Codec.toBE 3 136)]

/-- The number of a space that is looked up after a flush. -/
def numberAfterFlush (rows : List (Nat × Bytes)) (name : Bytes) : Except Fault Int := do
  let t ← putSpaces rows .new
  let t ← t.flush
  t.getSid name

theorem orphan_number : (numberAfterFlush orphanRows (Codec.toBE 3 56)).toOption = some 56 := by
  decide +kernel

theorem orphanRows_brief : ∀ row ∈ orphanRows, row.1 < 2 ^ 31 ∧ row.2.length < 256 := by
  intro row hrow
  unfold orphanRows at hrow
  rcases List.mem_append.mp hrow with hrow | hrow
  · obtain ⟨k, hk, rfl⟩ := List.mem_map.mp hrow
    have hk := List.mem_range.mp hk
    rw [Codec.toBE_length]
    omega
  · simp only [List.mem_cons, List.not_mem_nil, or_false] at hrow
    rcases hrow with rfl | rfl
    · rw [Codec.toBE_length]
      omega
    · rw [Codec.toBE_length]
      omega

/-- The old name of the space 56 is found after the flush. -/
theorem flush_leaves_orphan : ¬∀ t : Tables, t.Reached → t.Flushes := by
  intro h
  obtain ⟨t, hload, hrest⟩ := except_bind_eq_ok.mp (toOption_eq_some.mp orphan_number)
  obtain ⟨t', hflush, hsid⟩ := except_bind_eq_ok.mp hrest
  obtain ⟨t'', hflush', hempty, -⟩ := h t (Tables.Reached.new.putSpaces orphanRows_brief hload)
  cases hflush.symm.trans hflush'
  have hnone := hempty.getSid (Codec.toBE 3 56) (if_pos (.inl (by rw [Codec.toBE_length]; omega)))
  cases hsid.symm.trans hnone

end BeePhp
