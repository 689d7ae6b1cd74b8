import BeePhp.Names
import BeePhp.Proofs.LoadProofs

/-!
# Proofs: lookups of index names

The row that answers a lookup goes into the table of the node of its space. Without the node it is
refused, and the lookup fails (`getIndexno_resolved`).
-/

namespace BeePhp

open Codec Program

variable {P : Platform}

/-! ## Numbers -/

theorem IndexRow.space_eq (r : IndexRow) : UInt32.ofNat (toSize r.spaceId) = r.space := by
  have hlt := r.space_lt
  have hsize : toSize r.spaceId = r.spaceId := by
    rw [toSize]
    omega
  rw [hsize, IndexRow.space]

theorem IndexRow.toInt32_number (r : IndexRow) : toInt32 r.number = r.id := by
  have hlt := r.id_lt
  have hnat : r.number.toNat = r.id := by
    rw [IndexRow.number, UInt32.toNat_ofNat']
    omega
  rw [toInt32_small (by omega), hnat]

theorem ofNat_toInt32 (n : UInt32) : UInt32.ofNat (toSize (toInt32 n)) = n := by
  have hlt := n.toNat_lt
  apply UInt32.toNat_inj.mp
  rw [UInt32.toNat_ofNat', toInt32, toSize, toInt, Int.bmod_def]
  split <;> omega

/-! ## Caches -/

theorem lookup_enter_isSome {α : Type} {k k' : Bytes} {a : α} {l : List (Bytes × α)}
    (h : (l.lookup k).isSome) : ((enter k' a l).lookup k).isSome := by
  rw [lookup_enter]
  split
  · rfl
  · exact h

theorem Schema.Linked.putSpace {schema : Schema} (h : schema.Linked) (number : UInt32) (name : Bytes) :
    (schema.putSpace number name).Linked := by
  intro k space hspace
  have hfound : space = ⟨number, schema.indexHashes.length⟩ ∨ schema.spaceHash.lookup k = some space := by
    simp only [Schema.putSpace, lookup_enter] at hspace
    split at hspace
    · exact .inl (Option.some.inj hspace).symm
    · split at hspace
      · exact .inl (Option.some.inj hspace).symm
      · exact .inr hspace
  simp only [Schema.putSpace, List.length_append, List.length_singleton]
  rcases hfound with rfl | hfound
  · refine ⟨Nat.lt_succ_self _, ?_⟩
    rw [lookup_enter, if_pos rfl]
    rfl
  · obtain ⟨hlt, hnumber⟩ := h k space hfound
    exact ⟨Nat.lt_succ_of_lt hlt, lookup_enter_isSome (lookup_enter_isSome hnumber)⟩

theorem Schema.Linked.putIndex {schema : Schema} (h : schema.Linked) (n : Nat) (number : UInt32)
    (name : Bytes) : (schema.putIndex n number name).Linked := by
  intro k space hspace
  obtain ⟨hlt, hnumber⟩ := h k space hspace
  exact ⟨by rwa [Schema.putIndex, List.length_set], hnumber⟩

/-- A row leaves the schema as it was, or with one space more. -/
theorem schemaAddSpace_cases {schema schema' : Schema} {data : Bytes} {cursor : Option Bytes}
    (h : schemaAddSpace schema data = .ok (schema', cursor)) :
    schema' = schema ∨ ∃ number name, schema' = schema.putSpace number name := by
  unfold schemaAddSpace at h
  obtain ⟨_, -, h⟩ := except_bind_eq_ok.mp h
  split at h
  · obtain ⟨_, hthrow, -⟩ := except_bind_eq_ok.mp h
    exact nomatch hthrow
  obtain ⟨⟨_, tuple⟩, -, h⟩ := except_bind_eq_ok.mp h
  dsimp only at h
  split at h
  · obtain ⟨_, hthrow, -⟩ := except_bind_eq_ok.mp h
    exact nomatch hthrow
  obtain ⟨_, -, h⟩ := except_bind_eq_ok.mp h
  split at h
  · exact .inl (Prod.mk.inj (Except.ok.inj h)).1.symm
  obtain ⟨⟨number, _⟩, -, h⟩ := except_bind_eq_ok.mp h
  obtain ⟨_, -, h⟩ := except_bind_eq_ok.mp h
  obtain ⟨_, -, h⟩ := except_bind_eq_ok.mp h
  split at h
  · exact .inl (Prod.mk.inj (Except.ok.inj h)).1.symm
  obtain ⟨⟨name, _⟩, -, h⟩ := except_bind_eq_ok.mp h
  iterate 4 obtain ⟨_, -, h⟩ := except_bind_eq_ok.mp h
  exact .inr ⟨_, name, (Prod.mk.inj (Except.ok.inj h)).1.symm⟩

/-- A row leaves the schema as it was, or with one index more in the table of a node. -/
theorem schemaAddIndex_cases {schema schema' : Schema} {data : Bytes} {cursor : Option Bytes}
    (h : schemaAddIndex schema data = .ok (schema', cursor)) :
    schema' = schema ∨ ∃ n number name, schema' = schema.putIndex n number name := by
  unfold schemaAddIndex at h
  obtain ⟨_, -, h⟩ := except_bind_eq_ok.mp h
  split at h
  · obtain ⟨_, hthrow, -⟩ := except_bind_eq_ok.mp h
    exact nomatch hthrow
  obtain ⟨⟨_, tuple⟩, -, h⟩ := except_bind_eq_ok.mp h
  dsimp only at h
  split at h
  · obtain ⟨_, hthrow, -⟩ := except_bind_eq_ok.mp h
    exact nomatch hthrow
  obtain ⟨⟨_, _⟩, -, h⟩ := except_bind_eq_ok.mp h
  obtain ⟨_, -, h⟩ := except_bind_eq_ok.mp h
  split at h
  · obtain ⟨_, hthrow, -⟩ := except_bind_eq_ok.mp h
    exact nomatch hthrow
  dsimp only at h
  split at h
  · exact .inl (Prod.mk.inj (Except.ok.inj h)).1.symm
  obtain ⟨_, -, h⟩ := except_bind_eq_ok.mp h
  split at h
  · exact .inl (Prod.mk.inj (Except.ok.inj h)).1.symm
  obtain ⟨⟨number, _⟩, -, h⟩ := except_bind_eq_ok.mp h
  obtain ⟨_, -, h⟩ := except_bind_eq_ok.mp h
  split at h
  · exact .inl (Prod.mk.inj (Except.ok.inj h)).1.symm
  obtain ⟨⟨name, _⟩, -, h⟩ := except_bind_eq_ok.mp h
  iterate 3 obtain ⟨_, -, h⟩ := except_bind_eq_ok.mp h
  exact .inr ⟨_, _, name, (Prod.mk.inj (Except.ok.inj h)).1.symm⟩

/-- What every row keeps holds after all of them. -/
theorem addRows_keeps {add : Schema → Bytes → Except Fault (Schema × Option Bytes)} {I : Schema → Prop}
    (hadd : ∀ {schema schema' data cursor}, I schema → add schema data = .ok (schema', cursor) → I schema')
    {n : Nat} {schema schema' : Schema} {data : Bytes} {ok : Bool} (hI : I schema)
    (h : addRows add n schema data = .ok (schema', ok)) : I schema' := by
  induction n generalizing schema data with
  | zero => exact (Prod.mk.inj (Except.ok.inj h)).1 ▸ hI
  | succ n ih =>
    unfold addRows at h
    obtain ⟨⟨schema₁, cursor⟩, hrow, h⟩ := except_bind_eq_ok.mp h
    have hI₁ := hadd hI hrow
    cases cursor with
    | none => exact (Prod.mk.inj (Except.ok.inj h)).1 ▸ hI₁
    | some data => exact ih hI₁ h

theorem addTuples_keeps {add : Schema → Bytes → Except Fault (Schema × Option Bytes)} {I : Schema → Prop}
    (hadd : ∀ {schema schema' data cursor}, I schema → add schema data = .ok (schema', cursor) → I schema')
    {schema schema' : Schema} {data : Option Bytes} {size : Nat} {ok : Bool} (hI : I schema)
    (h : addTuples add schema data size = .ok (schema', ok)) : I schema' := by
  unfold addTuples at h
  cases data with
  | none => exact (Prod.mk.inj (Except.ok.inj h)).1 ▸ hI
  | some data =>
    obtain ⟨_, -, h⟩ := except_bind_eq_ok.mp h
    split at h
    · exact (Prod.mk.inj (Except.ok.inj h)).1 ▸ hI
    obtain ⟨_, -, h⟩ := except_bind_eq_ok.mp h
    split at h
    · exact (Prod.mk.inj (Except.ok.inj h)).1 ▸ hI
    obtain ⟨⟨count, tuple⟩, -, h⟩ := except_bind_eq_ok.mp h
    exact addRows_keeps hadd hI h

theorem schemaAddSpace_linked {schema schema' : Schema} {data : Bytes} {cursor : Option Bytes}
    (hlinked : schema.Linked) (h : schemaAddSpace schema data = .ok (schema', cursor)) :
    schema'.Linked := by
  rcases schemaAddSpace_cases h with rfl | ⟨number, name, rfl⟩
  · exact hlinked
  · exact hlinked.putSpace number name

theorem schemaAddIndex_linked {schema schema' : Schema} {data : Bytes} {cursor : Option Bytes}
    (hlinked : schema.Linked) (h : schemaAddIndex schema data = .ok (schema', cursor)) :
    schema'.Linked := by
  rcases schemaAddIndex_cases h with rfl | ⟨n, number, name, rfl⟩
  · exact hlinked
  · exact hlinked.putIndex n number name

theorem Schema.Loaded.linked {schema : Schema} (h : schema.Loaded) : schema.Linked := by
  induction h with
  | empty => exact fun _ _ => nofun
  | spaces _ hadd ih => exact addTuples_keeps schemaAddSpace_linked ih hadd
  | indexes _ hadd ih => exact addTuples_keeps schemaAddIndex_linked ih hadd

/-! ## The row in the cache -/

/-- A row that is loaded into the table of its space is found there. -/
theorem iidOf_loadIndexes {schema : Schema} (hlinked : schema.Linked) (row : IndexRow)
    (hnode : (schema.spaceHash.lookup (numberKey row.space)).isSome) :
    (schema.loadIndexes [row]).2 = true ∧ (schema.loadIndexes [row]).1.iidOf row = row.id := by
  obtain ⟨space, hspace⟩ := Option.isSome_iff_exists.mp hnode
  obtain ⟨hlt, -⟩ := hlinked _ space hspace
  simp only [Schema.loadIndexes, hspace, Option.elim_some, true_and]
  have htable : ((schema.putIndex space.indexHash row.number row.name).indexHashes.getD space.indexHash
      []).lookup row.name = some row.number := by
    rw [putIndex_lookup hlt, if_pos rfl, keyed, if_pos (.inl rfl), Option.some_or]
  have hspace' : (schema.putIndex space.indexHash row.number row.name).spaceHash.lookup
      (numberKey row.space) = some space := hspace
  exact (getIid_some hspace' htable).trans row.toInt32_number

/-! ## The lookup -/

theorem LookupSent.schema_eq {w w₁ : World} {row : IndexRow} (h : LookupSent P w row w₁) :
    w₁.obj.schema = w.obj.schema := by
  obtain ⟨composed, hcompose, hsend⟩ := h
  have hkeeps : IgnoresWriter fun w' => w'.obj.schema = w.obj.schema :=
    ⟨fun _ _ _ h => h, fun _ _ h => h, fun _ _ _ h => h⟩
  have hcomposed := composeTp_keeps hkeeps (indexRequest_keeps hkeeps) w rfl () composed hcompose
  obtain ⟨stream, -, ⟨-, -, rfl⟩ | ⟨hok, -⟩⟩ := beeStreamSend_spec false composed true w₁ hsend
  · exact hcomposed
  · cases hok

/-- What a lookup does with a response without an error. -/
theorem lookupParse_run {find : Schema → Int}
    {add : Schema → Option Bytes → Nat → Except Fault (Schema × Bool)} (parseError missing : String)
    (name : Bytes) {w : World} {response : BeexResponse} {left : Bytes} {schema : Schema} {added : Bool}
    {inbox : Bytes} (hparse : phpTpResponse w.obj.value.c = .ok (response, some left))
    (herror : response.error = none)
    (hadd : add w.obj.schema response.data response.dataLen = .ok (schema, added))
    (h : w.Stands w.obj.schema inbox) :
    ∃ w', lookupParse find add parseError missing name w = .ok (if added then find schema else -1, w') := by
  let w₁ : World := w.withUsed w.lastSync
  obtain ⟨w₂, hrun, hstands⟩ := @addToSchema_run add response parseError w₁ schema added inbox hadd
    (h.used _)
  have hstart : lookupParse find add parseError missing name w = (do
      if ← addToSchema add response parseError true then
        let no := find (← getObj).schema
        throwIf (no = -1) missing [.s (cString name)]
        return no
      else return -1 : M Int) w₁ := by
    rw [lookupParse, run_bind (show getObj w = .ok (w.obj, w) from rfl), run_bind (run_lift hparse w)]
    simp only [Option.isNone_some, Bool.false_eq_true, if_false, herror, Option.isSome_none]
    rfl
  rw [hstart, run_bind hrun]
  cases added with
  | false => exact ⟨w₂, rfl⟩
  | true =>
    simp only [if_true]
    rw [run_bind (show getObj w₂ = .ok (w₂.obj, w₂) from rfl), hstands.schema]
    by_cases hmissing : find schema = -1
    · rw [throwIf, if_pos hmissing]
      exact ⟨_, rfl⟩
    · rw [throwIf, if_neg hmissing]
      exact ⟨_, rfl⟩

/-- What a lookup returns when its request goes out and a response arrives. -/
theorem lookup_answered {w w₁ : World} {row : IndexRow} {reply : OkReply} (hgives : reply.Gives row)
    (hmissing : w.obj.schema.iidOf row = -1) (hsent : LookupSent P w row w₁) {rest : Bytes}
    (harrived : w₁.Arrived (frame reply.payload) rest) {name : ZStr} (hname : name.val = row.name) :
    ∃ w', getIndexnoByName P row.spaceId (.str name) w = .ok
      (if reply.payload.length < 2 ^ 31 ∧ (w.obj.schema.loadIndexes [row]).2 = true then
        (w.obj.schema.loadIndexes [row]).1.iidOf row else -1, w') := by
  have hschema := hsent.schema_eq
  obtain ⟨composed, hcompose, hsend⟩ := hsent
  obtain ⟨hprompt, stream, hstream⟩ := harrived
  let w₂ : World := { w₁ with
    ahead := (w₁.obj.stream.map (·.inbox)).getD []
    asked := w₁.asked ++ [⟨w₁.lastSync, (w₁.obj.stream.map (·.inbox)).getD []⟩] }
  have hask : askResponse w₁ = .ok ((), w₂) := rfl
  obtain ⟨value, net, hread, hlater, -, left, hc⟩ :=
    @readPacket_frame w₂ stream reply.payload rest reply.framed hprompt hstream
  have hstart : getIndexnoByName P row.spaceId (.str name) w = (do
      lookupAnswer (← readPacket) (lookupParse (·.iidOf row) beeSchemaAddIndexes
        "Failed parsing schema (index) or memory issues" "No index '%s' defined" row.name)) w₂ := by
    have hfind : beeSchemaGetIidByString w.obj.schema row.space row.name = -1 := hmissing
    rw [getIndexnoByName, hname, row.space_eq, lookupName, run_bind (getObj_run w), hfind,
      if_neg (not_not.mpr rfl), run_bind hcompose, run_bind hsend, if_pos rfl, lookupReceive, run_bind hask]
    rfl
  let w₃ : World := { w₂ with
    obj := { w₂.obj with stream := some { stream with inbox := rest }, value := value }
    net := net }
  rw [hstart, run_bind hread]
  by_cases hshort : reply.payload.length < 2 ^ 31
  · rw [if_pos hshort]
    obtain ⟨response, hparse, hresponse⟩ := reply.phpTpResponse_reads hshort left
    obtain ⟨width, hdata⟩ := hgives
    obtain ⟨hlen, tail, hpointer⟩ := hresponse.data _ hdata
    obtain ⟨hwf, hlight, hlt⟩ := reply.data_fits hshort hdata
    have hadd := @beeSchemaAddIndexes_rows width [row] hwf.1 hlight hlt w.obj.schema tail
    rw [List.map_singleton, ← hlen, ← hpointer, ← hschema] at hadd
    obtain ⟨schema', added, hpair⟩ : ∃ schema' added, w₁.obj.schema.loadIndexes [row] = (schema', added) :=
      ⟨_, _, rfl⟩
    rw [hpair] at hadd
    have hstands : w₃.Stands w₃.obj.schema rest := ⟨hlater.prompt hprompt, ⟨stream, rfl⟩, rfl⟩
    obtain ⟨w', hrun⟩ := @lookupParse_run (·.iidOf row) beeSchemaAddIndexes
      "Failed parsing schema (index) or memory issues" "No index '%s' defined" row.name w₃ _ _ _ _ _
      (hc ▸ hparse) hresponse.error hadd hstands
    refine ⟨w', hrun.trans ?_⟩
    rw [← hschema, hpair]
    by_cases hall : added = true
    · rw [if_pos hall, if_pos ⟨hshort, hall⟩]
    · rw [if_neg hall, if_neg fun h => hall h.2]
  · rw [if_neg hshort]
    exact ⟨_, by rw [if_neg fun h => hshort h.1]; rfl⟩

/-- The cache answers without a request. -/
theorem lookup_cached {w : World} {row : IndexRow} (hfound : w.obj.schema.iidOf row ≠ -1) {name : ZStr}
    (hname : name.val = row.name) :
    getIndexnoByName P row.spaceId (.str name) w = .ok (w.obj.schema.iidOf row, w) := by
  have hfind : beeSchemaGetIidByString w.obj.schema row.space row.name ≠ -1 := hfound
  rw [getIndexnoByName, hname, row.space_eq, lookupName, run_bind (getObj_run w), if_pos hfind]
  rfl

theorem node_of_found {schema : Schema} {row : IndexRow} (h : schema.iidOf row ≠ -1) :
    (schema.spaceHash.lookup (numberKey row.space)).isSome := by
  rw [Option.isSome_iff_ne_none]
  intro hnone
  exact h (getIid_none fun space hspace => nomatch hnone.symm.trans hspace)

/-- When the server answers the lookup with the row of the index, its name resolves exactly when the number
of its space has a node in the cache, the cache has no other index of the space under the name, and an `int`
holds the length of the response. -/
theorem getIndexno_resolved {w : World} (hloaded : w.obj.schema.Loaded) {row : IndexRow} {reply : OkReply}
    (hgives : reply.Gives row) (hanswered : IndexAnswered P w row reply) {name : ZStr}
    (hname : name.val = row.name) :
    IndexResolved P w row name ↔ w.obj.schema.Files row reply := by
  by_cases hmissing : w.obj.schema.iidOf row = -1
  · obtain ⟨w₁, rest, hsent, harrived⟩ := hanswered hmissing
    constructor
    · rintro ⟨w', hrun⟩
      obtain ⟨w₂, hrun'⟩ := lookup_answered hgives hmissing hsent harrived hname
      obtain ⟨hid, -⟩ := Prod.mk.inj (Except.ok.inj (hrun.symm.trans hrun'))
      split at hid
      case isTrue hall =>
        refine ⟨?_, .inl hmissing, fun _ => hall.1⟩
        exact (loadIndexes_all _ _).mp hall.2 row (List.mem_singleton_self row)
      case isFalse => omega
    · intro hfiles
      obtain ⟨hall, hid⟩ := iidOf_loadIndexes hloaded.linked row hfiles.node
      obtain ⟨w', hrun⟩ := lookup_answered hgives hmissing hsent harrived hname
      rw [if_pos ⟨hfiles.short hmissing, hall⟩, hid] at hrun
      exact ⟨w', hrun⟩
  · constructor
    · rintro ⟨w', hrun⟩
      rw [lookup_cached hmissing hname] at hrun
      obtain ⟨hid, -⟩ := Prod.mk.inj (Except.ok.inj hrun)
      exact ⟨node_of_found hmissing, .inr hid, fun h => absurd h hmissing⟩
    · intro hfiles
      have hid : w.obj.schema.iidOf row = row.id := hfiles.name.resolve_left hmissing
      refine ⟨w, ?_⟩
      rw [← hid]
      exact lookup_cached hmissing hname

/-- A cache that holds a space and no index of it but those of the server has what the lookup of an index
needs, unless the name is the number of another index. -/
theorem Schema.Holds.files {schema : Schema} {h : History} (hholds : schema.Holds h) {row : IndexRow}
    (hreach : h.Reaches row.space) (hknown : h.knows row.space = true)
    (hnames : ∀ p ∈ h.indexNames row.space, p.1 = row.name ∨ numberKey p.2 = row.name → p.2 = row.number)
    {reply : OkReply} (hshort : reply.payload.length < 2 ^ 31) : schema.Files row reply where
  node := by
    rw [hholds.spaces, slot_of_reaches hreach, Option.isSome_map, ← knows_eq]
    exact hknown
  name := by
    rw [Schema.iidOf, getIid_keyed hholds hreach]
    cases hkeyed : keyed row.name (h.indexNames row.space) with
    | none => exact .inl rfl
    | some number =>
      obtain ⟨name, hmem, hkey⟩ := keyed_mem hkeyed
      have hnumber : number = row.number := hnames _ hmem hkey
      rw [hnumber, Option.elim_some]
      exact .inr row.toInt32_number
  short := fun _ => hshort

/-- A space whose number was found under a name has a node under that number. -/
theorem node_of_name {schema : Schema} (h : schema.Linked) {name : Bytes}
    (hfound : beeSchemaGetSidByString schema name ≠ -1) :
    (schema.spaceHash.lookup
      (numberKey (UInt32.ofNat (toSize (beeSchemaGetSidByString schema name))))).isSome := by
  cases hspace : schema.spaceHash.lookup name with
  | none => exact absurd (getSid_none hspace) hfound
  | some space =>
    obtain ⟨-, hnode⟩ := h name space hspace
    rwa [getSid_some hspace, ofNat_toInt32]

/-! ## A connection with a space in its cache, and one without -/

/-- A new connection with a cache, on a stream on which the server will answer with these bytes. -/
def World.caching (schema : Schema) (replies : List Bytes) : World :=
  let w := World.linked replies
  { w with obj := { w.obj with schema := schema } }

/-- The response with the row of the primary index. -/
def primaryReply : OkReply :=
  .listing 0 [primaryRow.doc] ⟨primaryRow.doc_wf, trivial⟩ (by decide)

/-- The request is written into the buffer of a new connection. -/
theorem primary_writes : ∃ s value, runCalls (.blank true) (indexCalls 512 (ascii "primary") 0)
      (World.linked []).writer = .ok ((), s) ∧ s.str.setLen (tpUsed s.tp) = .ok value := by
  have htest : ((runCalls (.blank true) (indexCalls 512 (ascii "primary") 0) (World.linked []).writer).bind
      fun r => r.2.str.setLen (tpUsed r.2.tp)).toBool = true := by decide +kernel
  cases hcalls : runCalls (.blank true) (indexCalls 512 (ascii "primary") 0) (World.linked []).writer with
  | error e =>
    rw [hcalls] at htest
    cases htest
  | ok r =>
    obtain ⟨⟨⟩, s⟩ := r
    rw [hcalls] at htest
    cases hvalue : s.str.setLen (tpUsed s.tp) with
    | error e =>
      simp only [Except.bind, hvalue] at htest
      cases htest
    | ok value => exact ⟨s, value, rfl, hvalue⟩

/-- Whatever is in the cache, the server can answer the lookup. -/
theorem caching_answered (schema : Schema) : IndexAnswered (.blank true)
    (World.caching schema [frame primaryReply.payload]) primaryRow primaryReply := by
  intro _
  obtain ⟨s, value, hcalls, hvalue⟩ := primary_writes
  let w : World := World.caching schema [frame primaryReply.payload]
  have hbody : indexRequest (.blank true) primaryRow.spaceId primaryRow.name w = .ok ((), w.withTp s 1) := by
    rw [indexRequest_eq]
    exact congrArg (fun x => Except.bind x _) hcalls
  obtain ⟨composed, hcompose⟩ := @composeTp_run _ (indexRequest (.blank true) _ _) w _ _ _ hbody hvalue
  obtain ⟨w₁, hsend, harrived⟩ := @composed_sent _ _ 1 [frame primaryReply.payload] w _ _ rfl rfl
    (fun _ => by simp [w, World.caching, World.linked, Connection.new, World.init])
    (indexRequest_keeps (World.SameLink.ignoresWriter w))
    (fun w₁ _ hwhole => indexRequest_whole (by decide) hwhole) hcompose
  refine ⟨w₁, [], ⟨composed, hcompose, hsend⟩, ?_⟩
  have hreplies : takeReplies 1 [frame primaryReply.payload] = frame primaryReply.payload := by
    simp [takeReplies]
  rwa [hreplies] at harrived

theorem primaryReply_gives : primaryReply.Gives primaryRow := ⟨_, rfl⟩

/-- The cache after the space `users` has been looked up by its name. -/
def usersCache : Schema := Schema.empty.loadSpaces [usersRow]

theorem usersCache_loaded : usersCache.Loaded := by
  have hadd := @beeSchemaAddSpaces_rows .fix [usersRow] (by decide) (by decide) (by decide) .empty []
  exact .spaces .empty hadd

theorem getIndexno_resolved_users : IndexResolved (.blank true)
    (World.caching usersCache [frame primaryReply.payload]) primaryRow ⟨ascii "primary", by decide⟩ := by
  refine (getIndexno_resolved usersCache_loaded primaryReply_gives (caching_answered _) rfl).mpr ?_
  refine ⟨by decide, .inl (by decide), fun _ => ?_⟩
  exact OkReply.listing_short _ _ _ _

/-- After a flush a space that is given as an integer has no node. -/
theorem getIndexno_unresolved : ¬ ∀ (P : Platform) (w : World) (row : IndexRow) (reply : OkReply)
    (name : ZStr), w.obj.schema.Loaded → reply.Gives row → IndexAnswered P w row reply →
    name.val = row.name → reply.payload.length < 2 ^ 31 → IndexResolved P w row name := by
  intro h
  obtain ⟨w', hrun⟩ := h (.blank true) (World.caching .empty [frame primaryReply.payload]) primaryRow
    primaryReply ⟨ascii "primary", by decide⟩ .empty primaryReply_gives (caching_answered _) rfl
    (OkReply.listing_short _ _ _ _)
  obtain ⟨w₁, rest, hsent, harrived⟩ := caching_answered .empty rfl
  obtain ⟨w₂, hrun'⟩ := lookup_answered primaryReply_gives rfl hsent harrived
    (show (⟨ascii "primary", by decide⟩ : ZStr).val = primaryRow.name from rfl)
  obtain ⟨hid, -⟩ := Prod.mk.inj (Except.ok.inj (hrun.symm.trans hrun'))
  rw [if_neg fun h => nomatch h.2] at hid
  cases hid

end BeePhp
