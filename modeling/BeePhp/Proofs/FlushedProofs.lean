import BeePhp.Flushed
import BeePhp.Proofs.GrowthProofs

/-!
# Proofs: flushing the schema

The loop of `bee_schema_flush` takes the nodes of every space out of the table it goes over. No node moves
unless a resize ends meanwhile; whether or not one does, nothing is released twice.
-/

namespace BeePhp

open Codec (Bytes except_bind_eq_ok)
open Probing

/-! ## Taking nodes out -/

namespace Taken

variable {table table' table'' : Mhash SchemaValue} {nodes nodes' : List SchemaValue}

theorem refl (h : table.Ok schemaHashed) : Taken table table [] :=
  ⟨h, fun w => by simp, by simp, List.nodup_nil, Nat.le_refl _, fun hs => ⟨hs, fun _ _ => id⟩⟩

theorem trans (h : Taken table table' nodes) (h' : Taken table' table'' nodes') :
    Taken table table'' (nodes ++ nodes') where
  ok := h'.ok
  holds w := by rw [h'.holds, h.holds, List.mem_append, not_or, and_assoc]
  held w hw := by
    rcases List.mem_append.mp hw with hw | hw
    · exact h.held w hw
    · exact ((h.holds w).mp (h'.held w hw)).1
  nodup := by
    refine List.nodup_append.mpr ⟨h.nodup, h'.nodup, fun a ha b hb hab => ?_⟩
    subst hab
    exact ((h.holds a).mp (h'.held a hb)).2 ha
  extent := h'.extent.trans h.extent
  steady hs := by
    obtain ⟨hs', hnode⟩ := h.steady hs
    obtain ⟨hs'', hnode'⟩ := h'.steady hs'
    exact ⟨hs'', fun i w hw => hnode i w (hnode' i w hw)⟩

end Taken

/-- Finding a node. -/
theorem findValue_spec {table : Mhash SchemaValue} (h : table.Ok schemaHashed) (key : Bytes) :
    ∃ v, findValue table key = .ok v ∧ ∀ w, v = some w ↔ table.Holds w ∧ w.key = key := by
  obtain ⟨x, hfind, hx⟩ := Buckets.mhFind_found h.buckets key
  refine ⟨table.node x, by unfold findValue; rw [hfind]; rfl, fun w => ?_⟩
  rcases hx with ⟨v, hv, hkey⟩ | ⟨rfl, habsent⟩
  · refine ⟨fun hw => ⟨⟨x, hw⟩, ?_⟩, fun hw => ?_⟩
    · rw [← Option.some.inj (hv.symm.trans hw)]
      exact hkey
    · rw [hv, h.buckets.sound.eq_of_holds ⟨x, hv⟩ hw.1 (hkey.trans hw.2.symm)]
  · refine ⟨fun hw => ?_, fun hw => absurd hw.2 (habsent w hw.1)⟩
    exact absurd (h.buckets.lt _ _ hw) (Nat.lt_irrefl _)

/-- The node under a key is taken out, if there is one. -/
theorem takeValue_taken {table : Mhash SchemaValue} (h : table.Ok schemaHashed) (key : Bytes) :
    ∃ table' v, takeValue table key = .ok (table', v) ∧ Taken table table' v.toList ∧
      ∀ w, table'.Holds w → w.key ≠ key := by
  obtain ⟨x, hfind, hx⟩ := Buckets.mhFind_found h.buckets key
  unfold takeValue
  rw [hfind]
  simp only [bind, Except.bind]
  rcases hx with ⟨v, hv, hkey⟩ | ⟨rfl, habsent⟩
  · obtain ⟨table', hdel, hok, hholds, hextent, hsteady⟩ := Mhash.mhDel_spec h hv
    refine ⟨table', some v, by rw [hv]; simp only [hdel]; rfl, ⟨hok, fun w => ?_, ?_, by simp, hextent, hsteady⟩,
      fun w hw hk => ((hholds w).mp hw).2 (hk.trans hkey.symm)⟩
    · rw [hholds]
      refine and_congr_right fun hw => ?_
      rw [Option.toList_some, List.mem_singleton]
      refine not_congr ⟨fun hk => h.buckets.sound.eq_of_holds hw ⟨x, hv⟩ hk, fun hk => by rw [hk]⟩
    · intro w hw
      rw [Option.toList_some, List.mem_singleton] at hw
      exact hw ▸ ⟨x, hv⟩
  · have hnone : table.node table.nBuckets = none := by
      by_contra hsome
      obtain ⟨v, hv⟩ := Option.ne_none_iff_exists'.mp hsome
      exact Nat.lt_irrefl _ (h.buckets.lt _ _ hv)
    exact ⟨table, none, by rw [hnone]; rfl, Taken.refl h, habsent⟩

/-- What `schema_space_free` and `schema_index_free` do for a node: afterwards no node is found under its
number or its name. -/
theorem takeBoth_taken {table : Mhash SchemaValue} (h : table.Ok schemaHashed) (key key' : Bytes) :
    ∃ table' v table'' v', takeValue table key = .ok (table', v) ∧ takeValue table' key' = .ok (table'', v') ∧
      Taken table table'' (v.toList ++ v'.toList) ∧
      ∀ w, table''.Holds w → w.key ≠ key ∧ w.key ≠ key' := by
  obtain ⟨table', v, hrun, htaken, hkey⟩ := takeValue_taken h key
  obtain ⟨table'', v', hrun', htaken', hkey'⟩ := takeValue_taken htaken.ok key'
  exact ⟨table', v, table'', v', hrun, hrun', htaken.trans htaken', fun w hw =>
    ⟨hkey w ((htaken'.holds w).mp hw).1, hkey' w hw⟩⟩

/-! ## The loop -/

/-- What `free` makes of the nodes of one row is an invariant of the loop. -/
theorem drain_runs {σ : Type} {free : SchemaValue → List SchemaValue → σ → Except Fault σ}
    {I : (SchemaValue → Prop) → σ → Prop}
    (hfree : ∀ {table table' : Mhash SchemaValue} {nodes value s}, Taken table table' nodes → table.Holds value →
      (∀ w, table'.Holds w → w.key ≠ numberKey value.number ∧ w.key ≠ value.name) → I table.Holds s →
      ∃ s', free value nodes s = .ok s' ∧ I table'.Holds s')
    (fuel : Nat) {pos : Nat} {table : Mhash SchemaValue} {s : σ} (hok : table.Ok schemaHashed)
    (hI : I table.Holds s) (hfuel : 0 < fuel) (hextent : table.extent < pos + fuel) :
    ∃ table' s', drain free fuel pos table s = .ok (table', s') ∧ table'.Ok schemaHashed ∧
      I table'.Holds s' ∧ (∀ w, table'.Holds w → table.Holds w) ∧
      (table.Steady → (∀ i < pos, table.node i = none) → ∀ w, ¬table'.Holds w) := by
  induction fuel generalizing pos table s with
  | zero => omega
  | succ fuel ih =>
    unfold drain
    by_cases hpos : pos < table.nBuckets
    · have hn : table.nBuckets ≤ table.extent := Nat.le_add_right _ _
      have hnext : table.extent < pos + 1 + fuel := by omega
      rw [if_pos hpos]
      cases hnode : table.node pos with
      | none =>
        obtain ⟨table', s', hrun, hok', hI', hsub, hempty⟩ := ih hok hI (by omega) hnext
        refine ⟨table', s', hrun, hok', hI', hsub, fun hs hnone => hempty hs fun i hi => ?_⟩
        rcases Nat.lt_succ_iff_lt_or_eq.mp hi with hi | rfl
        · exact hnone i hi
        · exact hnode
      | some value =>
        obtain ⟨table₁, v, table₂, v', hrun, hrun', htaken, hkeys⟩ :=
          takeBoth_taken hok (numberKey value.number) value.name
        obtain ⟨s₂, hs₂, hI₂⟩ := hfree htaken ⟨pos, hnode⟩ hkeys hI
        obtain ⟨table', s', hloop, hok', hI', hsub, hempty⟩ :=
          ih htaken.ok hI₂ (by omega) (Nat.lt_of_le_of_lt htaken.extent hnext)
        simp only [hrun, hrun', hs₂, bind, Except.bind]
        refine ⟨table', s', hloop, hok', hI', fun w hw => ((htaken.holds w).mp (hsub w hw)).1, fun hs hnone => ?_⟩
        obtain ⟨hs', hstay⟩ := htaken.steady hs
        refine hempty hs' fun i hi => ?_
        by_contra hsome
        obtain ⟨w, hw⟩ := Option.ne_none_iff_exists'.mp hsome
        have hold := hstay i w hw
        rcases Nat.lt_succ_iff_lt_or_eq.mp hi with hi | rfl
        · rw [hnone i hi] at hold
          cases hold
        · -- the node of this slot is under its number or its name
          cases hnode.symm.trans hold
          obtain ⟨hnumber, hname⟩ := hkeys value ⟨i, hw⟩
          unfold SchemaValue.key at hnumber hname
          split at hname
          · exact hname rfl
          case isFalse hby => exact hnumber (by rw [if_neg hby])
    · rw [if_neg hpos]
      refine ⟨table, s, rfl, hok, hI, fun _ => id, fun _ hnone => ?_⟩
      rintro w ⟨i, hw⟩
      have hi := hok.buckets.lt _ _ hw
      exact absurd ((hnone i (by omega)).symm.trans hw) (Option.some_ne_none w).symm

/-! ## What is released -/

theorem FromLoads.eq {holds : SchemaValue → Prop} {n : Nat} (hl : FromLoads holds n) {v w : SchemaValue} (hv : holds v)
    (hw : holds w) (hload : v.load = w.load) (hby : v.byName = w.byName) : v = w := by
  obtain ⟨hname, hnumber⟩ := hl.twins v w hv hw hload
  cases v
  cases w
  simp_all

/-- What is released for one row is new, and belongs to nothing that is left. -/
theorem Releases.step {before holds holds' : SchemaValue → Prop} {n : Nat} {owns : Nat → Block → Prop}
    {node : SchemaValue → Block} {free} {new own : List Block} {nodes : List SchemaValue} {value : SchemaValue}
    (hl : FromLoads before n) (hf : Frees before free owns node) (hr : Releases before holds owns node new)
    (hvalue : holds value) (hown : own.Nodup) (howns : ∀ b ∈ own, owns value.load b)
    (hnodes : ∀ w ∈ nodes, holds w) (hnodup : nodes.Nodup) (hleft : ∀ w, holds' w → holds w ∧ w ∉ nodes)
    (hkeys : ∀ w, holds' w → w.key ≠ numberKey value.number ∧ w.key ≠ value.name) :
    Releases before holds' owns node (new ++ (own ++ nodes.map node)) where
  left v hv := hr.left v (hleft v hv).1
  nodup := by
    have hmap : (nodes.map node).Nodup := by
      refine (List.nodup_map_iff_inj_on hnodup).mpr fun v hv w hw hvw => ?_
      obtain ⟨hload, hby⟩ := hf.node_inj hvw
      exact hl.eq (hr.left v (hnodes v hv)) (hr.left w (hnodes w hw)) hload hby
    have hrow : (own ++ nodes.map node).Nodup := by
      refine List.nodup_append.mpr ⟨hown, hmap, ?_⟩
      rintro b hb b' hb' rfl
      obtain ⟨w, -, rfl⟩ := List.mem_map.mp hb'
      exact hf.node_ne (howns _ hb)
    refine List.nodup_append.mpr ⟨hr.nodup, hrow, ?_⟩
    rintro b hb b' hb' rfl
    rcases List.mem_append.mp hb' with hb' | hb'
    · exact (hr.spared value hvalue b hb).1 (howns b hb')
    · obtain ⟨w, hw, rfl⟩ := List.mem_map.mp hb'
      exact (hr.spared w (hnodes w hw) _ hb).2 rfl
  source b hb := by
    rcases List.mem_append.mp hb with hb | hb
    · exact hr.source b hb
    rcases List.mem_append.mp hb with hb | hb
    · exact ⟨value, hr.left value hvalue, .inl (howns b hb)⟩
    · obtain ⟨w, hw, rfl⟩ := List.mem_map.mp hb
      exact ⟨w, hr.left w (hnodes w hw), .inr rfl⟩
  spared v hv b hb := by
    obtain ⟨hold, hnot⟩ := hleft v hv
    rcases List.mem_append.mp hb with hb | hb
    · exact hr.spared v hold b hb
    rcases List.mem_append.mp hb with hb | hb
    · refine ⟨fun ho => ?_, fun heq => hf.node_ne (heq ▸ howns b hb)⟩
      -- a node of the same load would be under the number or the name of the row
      obtain ⟨hname, hnumber⟩ := hl.twins v value (hr.left v hold) (hr.left value hvalue)
        (hf.load_eq ho (howns b hb))
      obtain ⟨hk, hk'⟩ := hkeys v hv
      unfold SchemaValue.key at hk hk'
      split at hk
      case isTrue hby => exact hk' (by rw [if_pos hby, hname])
      case isFalse => exact hk (by rw [hnumber])
    · obtain ⟨w, hw, rfl⟩ := List.mem_map.mp hb
      refine ⟨hf.node_ne, fun heq => ?_⟩
      obtain ⟨hload, hby⟩ := hf.node_inj heq
      exact hnot (hl.eq (hr.left w (hnodes w hw)) (hr.left v hold) hload hby ▸ hw)

/-- The loop releases nothing twice. -/
theorem drain_releases {table : Mhash SchemaValue} {n : Nat} {owns : Nat → Block → Prop}
    {node : SchemaValue → Block} {free : SchemaValue → List SchemaValue → List Block → Except Fault (List Block)}
    (hok : table.Ok schemaHashed) (hl : FromLoads table.Holds n) (hf : Frees table.Holds free owns node)
    (released : List Block) :
    ∃ table' new, drain free (drainFuel table) 0 table released = .ok (table', released ++ new) ∧
      table'.Ok schemaHashed ∧ Releases table.Holds table'.Holds owns node new ∧
      (table.Steady → ∀ w, ¬table'.Holds w) := by
  have hextent : table.extent < 0 + drainFuel table := by
    unfold Mhash.extent drainFuel
    split <;> omega
  have hnone : Releases table.Holds table.Holds owns node [] :=
    ⟨fun _ => id, List.nodup_nil, fun _ hb => absurd hb List.not_mem_nil, fun _ _ _ hb => absurd hb List.not_mem_nil⟩
  obtain ⟨table', s, hrun, hok', ⟨new, rfl, hr⟩, -, hempty⟩ := drain_runs
    (I := fun holds s => ∃ new, s = released ++ new ∧ Releases table.Holds holds owns node new)
    (by
      rintro table₁ table₂ nodes value s htaken hvalue hkeys ⟨new, rfl, hr⟩
      obtain ⟨own, hrun, hown, howns⟩ := hf.run (hr.left value hvalue) nodes (released ++ new)
      refine ⟨_, hrun, new ++ (own ++ nodes.map node), List.append_assoc _ _ _, ?_⟩
      exact hr.step hl hf hvalue hown howns htaken.held htaken.nodup (fun w => (htaken.holds w).mp) hkeys)
    (drainFuel table) hok ⟨[], (List.append_nil _).symm, hnone⟩ (Nat.succ_pos _) hextent
  exact ⟨table', new, hrun, hok', hr, fun hs => hempty hs fun _ hi => absurd hi (Nat.not_lt_zero _)⟩

/-! ## The two frees -/

theorem Block.ofIndex.ofSpace {space : Nat} {b : Block} (h : b.ofIndex space) : b.ofSpace space := by
  cases b with
  | indexNode _ _ _ => exact h
  | indexName _ _ => exact h
  | spaceNode _ _ => cases h
  | spaceName _ => cases h
  | indexHash _ => cases h

theorem Block.ofSpace.space {space : Nat} {b : Block} (h : b.ofSpace space) : b.space = space := by
  cases b with
  | spaceNode _ _ => cases h
  | _ => exact h

/-- `schema_index_free` releases blocks of the indexes of a space. -/
theorem schemaIndexFree_releases {table : Mhash SchemaValue} {n : Nat} (hok : table.Ok schemaHashed)
    (hl : FromLoads table.Holds n) (space : Nat) (released : List Block) :
    ∃ new, schemaIndexFree space table released = .ok (released ++ new) ∧ new.Nodup ∧
      ∀ b ∈ new, b.ofIndex space := by
  have hf : Frees table.Holds (fun value nodes released => .ok (released ++ .indexName space value.load ::
      nodes.map fun node => .indexNode space node.load node.byName))
      (fun load b => b = .indexName space load) (fun node => .indexNode space node.load node.byName) :=
    { run := fun {value} _ nodes released => ⟨[.indexName space value.load], rfl, List.nodup_singleton _,
        fun b hb => List.mem_singleton.mp hb⟩
      load_eq := by
        rintro load load' b rfl h
        injection h
      node_ne := by
        intro load v h
        cases h
      node_inj := by
        intro v w h
        injection h with _ hload hby
        exact ⟨hload, hby⟩ }
  obtain ⟨table', new, hrun, -, hr, -⟩ := drain_releases hok hl hf released
  refine ⟨new, by unfold schemaIndexFree; rw [hrun]; rfl, hr.nodup, fun b hb => ?_⟩
  obtain ⟨v, -, rfl | rfl⟩ := hr.source b hb
  · exact rfl
  · exact rfl

theorem Tables.indexHash_mem {t : Tables} {space : Nat} (h : space < t.indexHashes.length) :
    t.indexHash space ∈ t.indexHashes := by
  unfold indexHash
  rw [List.getD_eq_getElem?_getD, List.getElem?_eq_getElem h]
  exact List.getElem_mem h

/-- `schema_space_value_free` releases blocks of the space. -/
theorem schemaSpaceValueFree_frees {t : Tables} (hg : t.Good) :
    Frees t.spaceHash.Holds (schemaSpaceValueFree t) (fun load b => b.ofSpace load)
      (fun node => .spaceNode node.load node.byName) where
  run := by
    intro value hvalue nodes released
    obtain ⟨hok, hl⟩ := hg.indexes _ (Tables.indexHash_mem (hg.fromLoads.load_lt value hvalue))
    obtain ⟨new, hrun, hnodup, hindex⟩ := schemaIndexFree_releases hok hl value.load
      (released ++ [.spaceName value.load])
    refine ⟨.spaceName value.load :: (new ++ [.indexHash value.load]), ?_, ?_, ?_⟩
    · unfold schemaSpaceValueFree
      simp only [hrun, bind, Except.bind]
      simp [pure, Except.pure]
    · have hne : ∀ b ∈ new, b ≠ .indexHash value.load := by
        rintro b hb rfl
        exact hindex _ hb
      refine List.nodup_cons.mpr ⟨fun hmem => ?_, List.nodup_append.mpr ⟨hnodup, List.nodup_singleton _, ?_⟩⟩
      · rcases List.mem_append.mp hmem with hmem | hmem
        · exact hindex _ hmem
        · cases List.mem_singleton.mp hmem
      · rintro b hb b' hb' rfl
        exact hne b hb (List.mem_singleton.mp hb')
    · intro b hb
      rcases List.mem_cons.mp hb with rfl | hb
      · exact rfl
      rcases List.mem_append.mp hb with hb | hb
      · exact (hindex b hb).ofSpace
      · rw [List.mem_singleton.mp hb]
        exact rfl
  load_eq h h' := h.space.symm.trans h'.space
  node_ne := id
  node_inj := by
    intro v w h
    injection h with hload hby
    exact ⟨hload, hby⟩

/-! ## bee_schema_flush -/

theorem FromLoads.mono {holds holds' : SchemaValue → Prop} {n : Nat} (hl : FromLoads holds n)
    (hle : ∀ v, holds' v → holds v) : FromLoads holds' n :=
  ⟨fun v hv => hl.load_lt v (hle v hv), fun v w hv hw => hl.twins v w (hle v hv) (hle w hw)⟩

/-- What was released before and what is released for rows that were there. -/
theorem Unreleased.append {holds holds' : SchemaValue → Prop} {released new : List Block}
    (hu : Unreleased holds released)
    (hr : Releases holds holds' (fun load b => b.ofSpace load) (fun node => .spaceNode node.load node.byName) new) :
    Unreleased holds' (released ++ new) where
  nodup := by
    refine List.nodup_append.mpr ⟨hu.nodup, hr.nodup, ?_⟩
    rintro b hb b' hb' rfl
    obtain ⟨v, hv, ho | rfl⟩ := hr.source b hb'
    · rw [hu.other v hv b hb ho.space] at ho
      exact ho
    · have := hu.other v hv _ hb rfl
      simp at this
  other v hv b hb hspace := by
    rcases List.mem_append.mp hb with hb | hb
    · exact hu.other v (hr.left v hv) b hb hspace
    · obtain ⟨hnot, hne⟩ := hr.spared v hv b hb
      obtain ⟨w, -, ho | rfl⟩ := hr.source b hb
      · exact absurd (hspace ▸ ho.space ▸ ho) hnot
      · have hload : w.load = v.load := hspace
        rw [hload] at hne ⊢
        have hby : w.byName ≠ v.byName := fun h => hne (by rw [h])
        rw [Bool.eq_not.mpr hby]

/-- The flush returns, releases nothing twice, and empties the schema if no resize ends meanwhile. -/
theorem Tables.flush_good {t : Tables} (hg : t.Good) :
    ∃ t', t.flush = .ok t' ∧ t'.Good ∧ (t.spaceHash.Steady → ∀ v, ¬t'.spaceHash.Holds v) := by
  obtain ⟨table, new, hrun, hok, hr, hempty⟩ :=
    drain_releases hg.spaces hg.fromLoads (schemaSpaceValueFree_frees hg) t.released
  refine ⟨{ t with spaceHash := table, released := t.released ++ new }, by unfold flush; rw [hrun]; rfl,
    ⟨hok, hg.fromLoads.mono hr.left, hg.indexes, hg.unreleased.append hr, fun b hb => ?_⟩, hempty⟩
  rcases List.mem_append.mp hb with hb | hb
  · exact hg.space_lt b hb
  · obtain ⟨v, hv, ho | rfl⟩ := hr.source b hb
    · exact ho.space.symm ▸ hg.fromLoads.load_lt v hv
    · exact hg.fromLoads.load_lt v hv

/-- In a schema without nodes no name is found. -/
theorem Tables.Good.empty {t : Tables} (hg : t.Good) (hnone : ∀ v, ¬t.spaceHash.Holds v) : t.Empty := by
  have hfind : ∀ key, findValue t.spaceHash key = .ok none := by
    intro key
    obtain ⟨v, hrun, hv⟩ := findValue_spec hg.spaces key
    cases v with
    | none => exact hrun
    | some w => exact absurd ((hv w).mp rfl).1 (hnone w)
  refine ⟨hnone, fun name hname => ?_, fun sid name => ?_⟩
  · unfold getSid
    rw [hname, hfind]
    rfl
  · unfold getIid
    rw [hfind]
    rfl

/-! ## Tables that are too large -/

theorem takeValue_huge {table : Mhash SchemaValue} {key : Bytes} {r : Mhash SchemaValue × Option SchemaValue}
    (hh : table.Huge) (hrun : takeValue table key = .ok r) : r.1.Huge := by
  obtain ⟨x, -, hrun⟩ := except_bind_eq_ok.mp hrun
  split at hrun
  · cases hrun
    exact hh
  · obtain ⟨table', hdel, hrun⟩ := except_bind_eq_ok.mp hrun
    cases hrun
    exact Mhash.mhDel_huge hh hdel

theorem drain_huge {σ : Type} {free : SchemaValue → List SchemaValue → σ → Except Fault σ} {fuel pos : Nat}
    {table : Mhash SchemaValue} {s : σ} {r : Mhash SchemaValue × σ} (hh : table.Huge)
    (hrun : drain free fuel pos table s = .ok r) : r.1.Huge := by
  induction fuel generalizing pos table s with
  | zero => cases hrun
  | succ fuel ih =>
    unfold drain at hrun
    split at hrun
    · split at hrun
      · exact ih hh hrun
      · obtain ⟨⟨table₁, v⟩, htake, hrun⟩ := except_bind_eq_ok.mp hrun
        obtain ⟨⟨table₂, v'⟩, htake', hrun⟩ := except_bind_eq_ok.mp hrun
        obtain ⟨s', -, hrun⟩ := except_bind_eq_ok.mp hrun
        have hh₁ := takeValue_huge hh htake
        exact ih (takeValue_huge hh₁ htake') hrun
    · cases hrun
      exact hh

theorem putValues_huge {table table' : Mhash SchemaValue} {load : Nat} {number : UInt32} {name : Bytes}
    (hh : table.Huge) (hrun : putValues table load number name = .ok table') : table'.Huge := by
  obtain ⟨-, -, hrun⟩ := except_bind_eq_ok.mp hrun
  obtain ⟨table₁, hput, hput'⟩ := except_bind_eq_ok.mp hrun
  exact Mhash.mhPut_huge (Mhash.mhPut_huge hh hput) hput'

/-! ## Loads -/

/-- The two nodes of a row are put into a table. -/
theorem putValues_ok {table table' : Mhash SchemaValue} {load : Nat} {number : UInt32} {name : Bytes}
    (hok : table.Ok schemaHashed) (hrun : putValues table load number name = .ok table') :
    table'.Huge ∨ table'.Ok schemaHashed ∧ ∀ w, table'.Holds w ↔ w = ⟨load, false, name, number⟩ ∨
      (w = ⟨load, true, name, number⟩ ∨ table.Holds w ∧ w.key ≠ name) ∧ w.key ≠ numberKey number := by
  obtain ⟨-, -, hrun⟩ := except_bind_eq_ok.mp hrun
  obtain ⟨table₁, hput, hput'⟩ := except_bind_eq_ok.mp hrun
  rcases Mhash.mhPut_ok hok hput with hh | ⟨hok₁, hholds⟩
  · exact .inl (Mhash.mhPut_huge hh hput')
  rcases Mhash.mhPut_ok hok₁ hput' with hh | ⟨hok₂, hholds'⟩
  · exact .inl hh
  refine .inr ⟨hok₂, fun w => ?_⟩
  rw [hholds' w, hholds w]
  exact Iff.rfl

theorem putValues_fromLoads {table table' : Mhash SchemaValue} {load : Nat} {number : UInt32} {name : Bytes}
    (hok : table.Ok schemaHashed) (hl : FromLoads table.Holds load)
    (hrun : putValues table load number name = .ok table') :
    table'.Huge ∨ table'.Ok schemaHashed ∧ FromLoads table'.Holds (load + 1) ∧
      ∀ w, table'.Holds w → table.Holds w ∨ w.load = load := by
  rcases putValues_ok hok hrun with hh | ⟨hok', hholds⟩
  · exact .inl hh
  have hnew : ∀ w, table'.Holds w → table.Holds w ∨ w.load = load ∧ w.name = name ∧ w.number = number := by
    intro w hw
    rcases (hholds w).mp hw with rfl | ⟨rfl | ⟨hw, -⟩, -⟩
    · exact .inr ⟨rfl, rfl, rfl⟩
    · exact .inr ⟨rfl, rfl, rfl⟩
    · exact .inl hw
  refine .inr ⟨hok', ⟨fun v hv => ?_, fun v w hv hw hload => ?_⟩, fun w hw => (hnew w hw).imp_right And.left⟩
  · rcases hnew v hv with hv | ⟨hv, -⟩
    · exact Nat.lt_succ_of_lt (hl.load_lt v hv)
    · exact hv ▸ Nat.lt_succ_self _
  · rcases hnew v hv with hv | ⟨hv, hname, hnumber⟩
    · rcases hnew w hw with hw | ⟨hw, -⟩
      · exact hl.twins v w hv hw hload
      · exact absurd (hload.trans hw) (Nat.ne_of_lt (hl.load_lt v hv))
    · rcases hnew w hw with hw | ⟨hw, hname', hnumber'⟩
      · exact absurd (hload.symm.trans hv) (Nat.ne_of_lt (hl.load_lt w hw))
      · exact ⟨hname.trans hname'.symm, hnumber.trans hnumber'.symm⟩

namespace Tables

variable {t t' : Tables}

theorem not_roomy : ¬t.Roomy ↔ t.spaceHash.Huge ∨ ∃ hash ∈ t.indexHashes, hash.table.Huge := by
  unfold Roomy
  simp only [not_and_or, not_not, not_forall, exists_prop]

theorem putSpace_not_roomy {number : UInt32} {name : Bytes} (hr : ¬t.Roomy)
    (hrun : t.putSpace number name = .ok t') : ¬t'.Roomy := by
  obtain ⟨table, hput, hrun⟩ := except_bind_eq_ok.mp hrun
  cases hrun
  refine not_roomy.mpr ?_
  rcases not_roomy.mp hr with hh | ⟨hash, hmem, hh⟩
  · exact .inl (putValues_huge hh hput)
  · exact .inr ⟨hash, List.mem_append_left _ hmem, hh⟩

theorem putSpace_sane {number : UInt32} {name : Bytes} (hs : t.Sane) (hrun : t.putSpace number name = .ok t') :
    t'.Sane := by
  rcases hs with hr | hg
  · exact .inl (putSpace_not_roomy hr hrun)
  obtain ⟨table, hput, hrun⟩ := except_bind_eq_ok.mp hrun
  cases hrun
  rcases putValues_fromLoads hg.spaces hg.fromLoads hput with hh | ⟨hok, hl, hnew⟩
  · exact .inl (not_roomy.mpr (.inl hh))
  have hlen : (t.indexHashes ++ [(⟨mhNew, 0⟩ : IndexTable)]).length = t.indexHashes.length + 1 := List.length_append
  refine .inr ⟨hok, hlen ▸ hl, fun hash hmem => ?_, ⟨hg.unreleased.nodup, fun v hv b hb hspace => ?_⟩, fun b hb => ?_⟩
  · rcases List.mem_append.mp hmem with hmem | hmem
    · exact hg.indexes hash hmem
    · obtain ⟨hnewok, hnone⟩ := Mhash.mhNew_ok schemaHashed
      rw [List.mem_singleton.mp hmem]
      exact ⟨hnewok, fun v hv => absurd hv (hnone v), fun v _ hv => absurd hv (hnone v)⟩
  · rcases hnew v hv with hv | hload
    · exact hg.unreleased.other v hv b hb hspace
    · have := hg.space_lt b hb
      omega
  · exact hlen ▸ Nat.lt_succ_of_lt (hg.space_lt b hb)

theorem putIndex_not_roomy {space : Nat} {number : UInt32} {name : Bytes} (hr : ¬t.Roomy)
    (hrun : t.putIndex space number name = .ok t') : ¬t'.Roomy := by
  obtain ⟨table, hput, hrun⟩ := except_bind_eq_ok.mp hrun
  cases hrun
  refine not_roomy.mpr ?_
  rcases not_roomy.mp hr with hh | ⟨hash, hmem, hh⟩
  · exact .inl hh
  obtain ⟨i, hi⟩ := List.mem_iff_getElem?.mp hmem
  by_cases hsi : space = i
  · have hhash : t.indexHash space = hash := by
      unfold indexHash
      rw [List.getD_eq_getElem?_getD, hsi, hi, Option.getD_some]
    have hlt : space < t.indexHashes.length := hsi ▸ (List.getElem?_eq_some_iff.mp hi).1
    exact .inr ⟨_, List.mem_set hlt _, putValues_huge (hhash ▸ hh) hput⟩
  · refine .inr ⟨hash, List.mem_of_getElem? (i := i) ?_, hh⟩
    rw [List.getElem?_set_ne hsi]
    exact hi

theorem putIndex_sane {space : Nat} {number : UInt32} {name : Bytes} (hs : t.Sane)
    (hrun : t.putIndex space number name = .ok t') : t'.Sane := by
  rcases hs with hr | hg
  · exact .inl (putIndex_not_roomy hr hrun)
  obtain ⟨table, hput, hrun⟩ := except_bind_eq_ok.mp hrun
  cases hrun
  by_cases hspace : space < t.indexHashes.length
  case neg =>
    rw [List.set_eq_of_length_le (Nat.not_lt.mp hspace)]
    exact .inr hg
  obtain ⟨hok, hl⟩ := hg.indexes _ (indexHash_mem hspace)
  rcases putValues_fromLoads hok hl hput with hh | ⟨hok', hl', -⟩
  · exact .inl (not_roomy.mpr (.inr ⟨_, List.mem_set hspace _, hh⟩))
  · refine .inr ⟨hg.spaces, ?_, fun hash hmem => ?_, hg.unreleased, ?_⟩
    · show FromLoads _ (List.length (List.set _ _ _))
      rw [List.length_set]
      exact hg.fromLoads
    · rcases List.mem_or_eq_of_mem_set hmem with hmem | rfl
      · exact hg.indexes hash hmem
      · exact ⟨hok', hl'⟩
    · show ∀ b ∈ t.released, b.space < List.length (List.set _ _ _)
      rw [List.length_set]
      exact hg.space_lt

/-- The loop over the rows keeps what one row keeps. -/
theorem addRows_keeps {P : Tables → Prop} {add : Tables → Bytes → Except Fault (Tables × Option Bytes)}
    (hadd : ∀ {t data r}, P t → add t data = .ok r → P r.1) {n : Nat} {data : Bytes} {r : Tables × Bool}
    (hs : P t) (hrun : Tables.addRows add n t data = .ok r) : P r.1 := by
  induction n generalizing t data with
  | zero =>
    cases hrun
    exact hs
  | succ n ih =>
    obtain ⟨⟨t₁, rest⟩, hrow, hrun⟩ := except_bind_eq_ok.mp hrun
    have hs₁ := hadd hs hrow
    cases rest with
    | none =>
      cases hrun
      exact hs₁
    | some rest => exact ih hs₁ hrun

theorem addTuples_keeps {P : Tables → Prop} {add : Tables → Bytes → Except Fault (Tables × Option Bytes)}
    (hadd : ∀ {t data r}, P t → add t data = .ok r → P r.1) {data : Option Bytes} {size : Nat}
    {r : Tables × Bool} (hs : P t) (hrun : Tables.addTuples add t data size = .ok r) : P r.1 := by
  cases data with
  | none =>
    cases hrun
    exact hs
  | some data =>
    obtain ⟨c, -, hrun⟩ := except_bind_eq_ok.mp hrun
    split at hrun
    · cases hrun
      exact hs
    obtain ⟨type, -, hrun⟩ := except_bind_eq_ok.mp hrun
    split at hrun
    · cases hrun
      exact hs
    obtain ⟨⟨count, tuple⟩, -, hrun⟩ := except_bind_eq_ok.mp hrun
    exact addRows_keeps hadd hs hrun

theorem addSpace_keeps {P : Tables → Prop}
    (hput : ∀ {t t' : Tables} {number name}, P t → t.putSpace number name = .ok t' → P t') {data : Bytes}
    {r : Tables × Option Bytes} (hs : P t) (hrun : t.addSpace data = .ok r) : P r.1 := by
  obtain ⟨row, -, hrun⟩ := except_bind_eq_ok.mp hrun
  cases row with
  | none =>
    cases hrun
    exact hs
  | some row =>
    obtain ⟨t₁, hrow, hrun⟩ := except_bind_eq_ok.mp hrun
    cases hrun
    exact hput hs hrow

theorem addIndex_keeps {P : Tables → Prop}
    (hput : ∀ {t t' : Tables} {space number name}, P t → t.putIndex space number name = .ok t' → P t')
    {data : Bytes} {r : Tables × Option Bytes} (hs : P t) (hrun : t.addIndex data = .ok r) : P r.1 := by
  obtain ⟨⟨number, tuple⟩, -, hrun⟩ := except_bind_eq_ok.mp hrun
  obtain ⟨space, -, hrun⟩ := except_bind_eq_ok.mp hrun
  cases space with
  | none =>
    cases hrun
    exact hs
  | some space =>
    obtain ⟨row, -, hrun⟩ := except_bind_eq_ok.mp hrun
    cases row with
    | none =>
      cases hrun
      exact hs
    | some row =>
      obtain ⟨t₁, hrow, hrun⟩ := except_bind_eq_ok.mp hrun
      cases hrun
      exact hput hs hrow

theorem flush_not_roomy (hr : ¬t.Roomy) (hrun : t.flush = .ok t') : ¬t'.Roomy := by
  obtain ⟨⟨table, released⟩, hdrain, hrun⟩ := except_bind_eq_ok.mp hrun
  cases hrun
  exact not_roomy.mpr ((not_roomy.mp hr).imp_left fun hh => drain_huge hh hdrain)

theorem flush_sane (hs : t.Sane) (hrun : t.flush = .ok t') : t'.Sane := by
  rcases hs with hr | hg
  · exact .inl (flush_not_roomy hr hrun)
  · obtain ⟨t₁, hrun₁, hg₁, -⟩ := flush_good hg
    cases hrun₁.symm.trans hrun
    exact .inr hg₁

/-- What holds of every schema that loads and flushes lead to. -/
theorem Reached.sane (ht : t.Reached) : t.Sane := by
  induction ht with
  | new =>
    obtain ⟨hok, hnone⟩ := Mhash.mhNew_ok schemaHashed
    exact .inr ⟨hok, ⟨fun v hv => absurd hv (hnone v), fun v _ hv => absurd hv (hnone v)⟩,
      fun hash hmem => absurd hmem List.not_mem_nil, ⟨List.nodup_nil, fun v hv => absurd hv (hnone v)⟩,
      fun b hb => absurd hb List.not_mem_nil⟩
  | addSpaces _ hrun ih => exact addTuples_keeps (addSpace_keeps putSpace_sane) ih hrun
  | addIndexes _ hrun ih => exact addTuples_keeps (addIndex_keeps putIndex_sane) ih hrun
  | flush _ hrun ih => exact flush_sane ih hrun

end Tables

end BeePhp
