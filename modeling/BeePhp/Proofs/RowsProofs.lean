import BeePhp.Proofs.HeaderProofs
import BeePhp.Proofs.SchemaProofs
import BeePhp.Rows

/-!
# Proofs: rows of any shape

The loaders of bee_schema.c do to the bytes of documents what `addSpaceDocs` and `addIndexDocs` do to the
documents (`schemaAddSpace_docs`, `schemaAddIndex_docs`).
-/

namespace BeePhp

open Codec (Bytes Doc encodeAll AllWF IntWidth StrWidth SeqWidth)

/-! ## Documents ahead -/

/-- The documents are well formed, and an `int` can count what they announce. -/
def Pending (ds : List Doc) : Prop := ∀ d ∈ ds, d.WF ∧ Light d

theorem Pending.tail {d : Doc} {ds : List Doc} (h : Pending (d :: ds)) : Pending ds :=
  fun e he => h e (List.mem_cons_of_mem _ he)

theorem Pending.items {d : Doc} {ds : List Doc} (h : Pending (d :: ds)) : Pending (d.items ++ ds) := by
  intro e he
  rcases List.mem_append.mp he with he | he
  · obtain ⟨hwf, hlight⟩ := h d List.mem_cons_self
    have hle := Doc.peak_le_of_mem he
    simp only [Light] at hlight
    refine ⟨(Codec.allWF_iff _).mp (d.wf_iff.mp hwf).2 e he, ?_⟩
    simp only [Light]
    omega
  · exact h.tail e he

theorem Pending.drop {ds : List Doc} (h : Pending ds) (n : Nat) : Pending (ds.drop n) :=
  fun d hd => h d (List.mem_of_mem_drop hd)

theorem typeAt_pending {d : Doc} {ds : List Doc} (h : Pending (d :: ds)) :
    typeAt (encodeAll (d :: ds)) = .ok (docType d) :=
  typeAt_doc (d.wf_iff.mp (h d List.mem_cons_self).1).1 _

theorem mpNext_pending {d : Doc} {ds : List Doc} (h : Pending (d :: ds)) :
    mpNext (encodeAll (d :: ds)) = .ok (encodeAll ds) :=
  mpNext_doc (h d List.mem_cons_self).1 (h d List.mem_cons_self).2 _

theorem decodeArray_pending {w : SeqWidth} {fields ds : List Doc}
    (h : Pending (.array w fields :: ds)) :
    mpDecodeArray (encodeAll (.array w fields :: ds)) = .ok (fields.length, encodeAll (fields ++ ds)) := by
  have hfits := (Doc.wf_iff _).mp (h _ List.mem_cons_self).1 |>.1
  rw [encodeAll, Doc.encode, List.append_assoc, decodeArray_head hfits, Codec.encodeAll_append]

theorem decodeUint_pending {w : IntWidth} {n : Nat} {ds : List Doc} (h : Pending (.uint w n :: ds)) :
    mpDecodeUint (encodeAll (.uint w n :: ds)) = .ok (n, encodeAll ds) :=
  decodeUint_doc ((Doc.wf_iff _).mp (h _ List.mem_cons_self).1 |>.1) _

theorem decodeStr_pending {w : StrWidth} {s : Bytes} {ds : List Doc} (h : Pending (.str w s :: ds)) :
    mpDecodeStr (encodeAll (.str w s :: ds)) = .ok (s, encodeAll ds) :=
  decodeStr_doc ((Doc.wf_iff _).mp (h _ List.mem_cons_self).1 |>.1) _

/-! ## A row -/

/-- What a loader leaves, with the bytes of the documents ahead. -/
def inBytes (r : Schema × Option (List Doc)) : Schema × Option Bytes := (r.1, r.2.map encodeAll)

theorem exists_six {α : Type} {l : List α} (h : ¬ l.length < 6) :
    ∃ a b c d e f l', l = a :: b :: c :: d :: e :: f :: l' := by
  match l with
  | a :: b :: c :: d :: e :: f :: l' => exact ⟨a, b, c, d, e, f, l', rfl⟩
  | [] | [_] | [_, _] | [_, _, _] | [_, _, _, _] | [_, _, _, _, _] => exact absurd (by simp) h

/-- The first field of a row is the number of the space. -/
theorem schemaAddSpace_number {schema : Schema} {w : SeqWidth} {fields ds : List Doc}
    (h : Pending (.array w fields :: ds)) (hlen : ¬ fields.length < 6) :
    schemaAddSpace schema (encodeAll (.array w fields :: ds)) = (do
      let tuple := encodeAll (fields ++ ds)
      if (← typeAt tuple) ≠ .uint then return (schema, none)
      let (number, tuple) ← mpDecodeUint tuple
      let tuple ← mpNext tuple
      if (← typeAt tuple) ≠ .str then return (schema, none)
      let (name, tuple) ← mpDecodeStr tuple
      let tuple ← mpNext tuple
      let tuple ← mpNext tuple
      let tuple ← mpNext tuple
      let tuple ← mpNext tuple
      return (schema.putSpace (UInt32.ofNat number) name, some tuple)) := by
  rw [schemaAddSpace, typeAt_pending h, decodeArray_pending h]
  simp only [docType, bind, Except.bind, if_neg hlen]
  rfl

/-- `schema_add_space` in front of documents. -/
theorem schemaAddSpace_docs (schema : Schema) {ds : List Doc} (h : Pending ds) :
    (schemaAddSpace schema (encodeAll ds)).toOption = (addSpaceDocs schema ds).map inBytes := by
  cases ds with
  | nil => rfl
  | cons d ds =>
    have htype := typeAt_pending h
    cases d with
    | array w fields =>
      by_cases hlen : fields.length < 6
      · have harray := decodeArray_pending h
        simp only [schemaAddSpace, htype, docType, harray, bind, Except.bind, addSpaceDocs, if_pos hlen]
        rfl
      · rw [schemaAddSpace_number h hlen]
        obtain ⟨a, b, c, e, f, g, fields, rfl⟩ := exists_six hlen
        have hp : Pending (a :: b :: c :: e :: f :: g :: (fields ++ ds)) := h.items
        simp only [addSpaceDocs, if_neg hlen, List.cons_append, typeAt_pending hp, bind, Except.bind]
        cases a with
        | uint wa id =>
          have hp₃ := hp.tail.tail
          simp only [docType, decodeUint_pending hp, mpNext_pending hp.tail, typeAt_pending hp₃]
          cases c with
          | str wc name =>
            have hp₆ := hp₃.tail.tail.tail.tail
            simp only [decodeStr_pending hp₃, mpNext_pending hp₃.tail, mpNext_pending hp₃.tail.tail,
              mpNext_pending hp₃.tail.tail.tail]
            -- the seventh document is the next field or stands behind the row
            cases hrest : fields ++ ds with
            | nil => rfl
            | cons k rest =>
              rw [hrest] at hp₆
              simp only [mpNext_pending hp₆]
              rfl
          | _ => rfl
        | _ => rfl
    | _ =>
      simp only [schemaAddSpace, htype, docType, bind, Except.bind]
      rfl

/-- `mp_decode_uint` decodes nothing but an unsigned number. -/
theorem decodeUint_ne_ok {d : Doc} {ds : List Doc} (h : Pending (d :: ds)) (hd : docType d ≠ .uint)
    (r : Nat × Bytes) : mpDecodeUint (encodeAll (d :: ds)) ≠ .ok r := by
  obtain ⟨n, rest⟩ := r
  intro hrun
  obtain ⟨w, hn, heq⟩ := mpDecodeUint_ok hrun
  have htype := typeAt_pending h
  rw [heq] at htype
  exact hd (Except.ok.inj (htype.symm.trans (typeAt_uint hn rest)))

theorem schemaAddIndex_number {schema : Schema} {w : SeqWidth} {fields ds : List Doc}
    (h : Pending (.array w fields :: ds)) (hlen : ¬ fields.length < 6) :
    schemaAddIndex schema (encodeAll (.array w fields :: ds)) = (do
      let (number, tuple) ← mpDecodeUint (encodeAll (fields ++ ds))
      if (← typeAt tuple) ≠ .uint then throw .uninit
      match schema.spaceHash.lookup (numberKey (UInt32.ofNat number)) with
      | none => return (schema, none)
      | some space =>
        if (← typeAt tuple) ≠ .uint then return (schema, none)
        let (number, tuple) ← mpDecodeUint tuple
        if (← typeAt tuple) ≠ .str then return (schema, none)
        let (name, tuple) ← mpDecodeStr tuple
        let tuple ← mpNext tuple
        let tuple ← mpNext tuple
        let tuple ← mpNext tuple
        return (schema.putIndex space.indexHash (UInt32.ofNat number) name, some tuple)) := by
  rw [schemaAddIndex, typeAt_pending h, decodeArray_pending h]
  simp only [docType, bind, Except.bind, if_neg hlen]
  rfl

/-- `schema_add_index` in front of documents. -/
theorem schemaAddIndex_docs (schema : Schema) {ds : List Doc} (h : Pending ds) :
    (schemaAddIndex schema (encodeAll ds)).toOption = (addIndexDocs schema ds).map inBytes := by
  cases ds with
  | nil => rfl
  | cons d ds =>
    have htype := typeAt_pending h
    cases d with
    | array w fields =>
      by_cases hlen : fields.length < 6
      · have harray := decodeArray_pending h
        simp only [schemaAddIndex, htype, docType, harray, bind, Except.bind, addIndexDocs, if_pos hlen]
        rfl
      · rw [schemaAddIndex_number h hlen]
        obtain ⟨a, b, c, e, f, g, fields, rfl⟩ := exists_six hlen
        have hp : Pending (a :: b :: c :: e :: f :: g :: (fields ++ ds)) := h.items
        simp only [addIndexDocs, if_neg hlen, List.cons_append, bind, Except.bind]
        cases a with
        | uint wa space =>
          simp only [decodeUint_pending hp, typeAt_pending hp.tail]
          cases b with
          | uint wb id =>
            simp only [docType, decodeUint_pending hp.tail]
            cases hnode : schema.spaceHash.lookup (numberKey (UInt32.ofNat space)) with
            | none => rfl
            | some value =>
              have hp₃ := hp.tail.tail
              simp only [typeAt_pending hp₃]
              cases c with
              | str wc name =>
                simp only [docType, decodeStr_pending hp₃, mpNext_pending hp₃.tail, mpNext_pending hp₃.tail.tail,
                  mpNext_pending hp₃.tail.tail.tail]
                rfl
              | _ => rfl
          | _ => rfl
        | _ =>
          cases hrun : mpDecodeUint (encodeAll (_ :: b :: c :: e :: f :: g :: (fields ++ ds))) with
          | error e => rfl
          | ok r => exact absurd hrun (decodeUint_ne_ok hp (by simp [docType]) r)
    | _ =>
      simp only [schemaAddIndex, htype, docType, bind, Except.bind]
      rfl

/-! ## Rows after rows -/

theorem toOption_eq_some {ε α : Type} {x : Except ε α} {a : α} : x.toOption = some a ↔ x = .ok a := by
  cases x with
  | error e => exact ⟨nofun, nofun⟩
  | ok b => simp [Except.toOption]

/-- What the loader leaves ahead are documents again. -/
theorem addSpaceDocs_pending {schema schema' : Schema} {ds ds' : List Doc} (h : Pending ds)
    (hrun : addSpaceDocs schema ds = some (schema', some ds')) : Pending ds' := by
  unfold addSpaceDocs at hrun
  split at hrun
  case h_1 w fields ds =>
    have hp : Pending (fields ++ ds) := h.items
    split at hrun
    · cases hrun
    split at hrun
    · split at hrun
      · cases hrun
      obtain ⟨-, hds⟩ := Prod.mk.inj (Option.some.inj hrun)
      rw [← Option.some.inj hds]
      exact hp.drop 7
    · cases hrun
  · cases hrun

theorem addIndexDocs_pending {schema schema' : Schema} {ds ds' : List Doc} (h : Pending ds)
    (hrun : addIndexDocs schema ds = some (schema', some ds')) : Pending ds' := by
  unfold addIndexDocs at hrun
  split at hrun
  case h_1 w fields ds =>
    have hp : Pending (fields ++ ds) := h.items
    split at hrun
    · cases hrun
    split at hrun
    · split at hrun
      · obtain ⟨-, hds⟩ := Prod.mk.inj (Option.some.inj hrun)
        rw [← Option.some.inj hds]
        exact hp.drop 6
      · cases hrun
    · cases hrun
  · cases hrun

/-- One round of the loop over the rows. -/
theorem addRows_returns {add : Schema → Bytes → Except Fault (Schema × Option Bytes)} {schema : Schema}
    {ds : List Doc} {y : Option (Schema × Option (List Doc))}
    (hadd : (add schema (encodeAll ds)).toOption = y.map inBytes) (n : Nat) :
    (∃ r, addRows add (n + 1) schema (encodeAll ds) = .ok r) ↔ ∃ schema' ahead, y = some (schema', ahead) ∧
      ∀ ds', ahead = some ds' → ∃ r, addRows add n schema' (encodeAll ds') = .ok r := by
  cases y with
  | none =>
    refine iff_of_false ?_ (by simp)
    rintro ⟨r, hrun⟩
    cases hx : add schema (encodeAll ds) with
    | error e =>
      rw [addRows, hx] at hrun
      cases hrun
    | ok r' =>
      rw [hx] at hadd
      cases hadd
  | some p =>
    obtain ⟨schema', ahead⟩ := p
    have hx : add schema (encodeAll ds) = .ok (inBytes (schema', ahead)) := toOption_eq_some.mp hadd
    rw [addRows, hx]
    cases ahead with
    | none => exact iff_of_true ⟨_, rfl⟩ ⟨schema', none, rfl, fun _ h => absurd h.symm (Option.some_ne_none _)⟩
    | some ds' =>
      refine ⟨fun hrun => ⟨schema', some ds', rfl, fun ds'' heq => ?_⟩, ?_⟩
      · rw [← Option.some.inj heq]
        exact hrun
      · rintro ⟨_, _, heq, hrun⟩
        obtain ⟨rfl, rfl⟩ := Prod.mk.inj (Option.some.inj heq)
        exact hrun ds' rfl

theorem exists_ahead {schema : Schema} {ds : List Doc} {Q : Schema → List Doc → Prop} :
    (∃ schema' ahead, some (schema, some ds) = some (schema', ahead) ∧
      ∀ ds', ahead = some ds' → Q schema' ds') ↔ Q schema ds := by
  simp

theorem exists_ended {schema : Schema} {Q : Schema → List Doc → Prop} :
    ∃ schema' ahead, some (schema, none) = some (schema', ahead) ∧
      ∀ ds', ahead = some ds' → Q schema' ds' := by
  simp

theorem addSpaceDocs_returns (schema : Schema) (n : Nat) (ds : List Doc) :
    (∃ schema' ahead, addSpaceDocs schema ds = some (schema', ahead) ∧
      ∀ ds', ahead = some ds' → SpacesParsed n ds') ↔ SpacesParsed (n + 1) ds := by
  unfold addSpaceDocs
  split
  case h_1 w fields ds =>
    rw [SpacesParsed]
    by_cases hlen : fields.length < 6
    · rw [if_pos hlen]
      exact iff_of_false nofun fun h => absurd h.1 (by omega)
    · rw [if_neg hlen]
      have hsix := not_lt.mp hlen
      split
      case h_1 =>
        split
        case isTrue hseven => exact iff_of_false nofun fun h => absurd (h.2 trivial).1 (by omega)
        case isFalse hseven =>
          rw [exists_ahead (Q := fun _ => SpacesParsed n)]
          exact ⟨fun h => ⟨hsix, fun _ => ⟨not_lt.mp hseven, h⟩⟩, fun h => (h.2 trivial).2⟩
      case h_2 hfields =>
        refine iff_of_true exists_ended ⟨hsix, fun h => ?_⟩
        unfold SpaceFields at h
        split at h
        · exact (hfields _ _ _ _ _ _ rfl).elim
        · exact h.elim
  case h_2 hnone =>
    refine iff_of_false nofun ?_
    cases ds with
    | nil => exact id
    | cons d ds =>
      cases d with
      | array w fields => exact fun _ => hnone w fields ds rfl
      | _ => exact id

theorem addIndexDocs_returns (schema : Schema) (n : Nat) (ds : List Doc) :
    (∃ schema' ahead, addIndexDocs schema ds = some (schema', ahead) ∧
      ∀ ds', ahead = some ds' → IndexesParsed schema'.spaceHash n ds') ↔
      IndexesParsed schema.spaceHash (n + 1) ds := by
  unfold addIndexDocs
  split
  case h_1 w fields ds =>
    rw [IndexesParsed]
    by_cases hlen : fields.length < 6
    · rw [if_pos hlen]
      exact iff_of_false nofun fun h => absurd h.1 (by omega)
    · rw [if_neg hlen]
      have hsix := not_lt.mp hlen
      split
      case h_1 space _ id name _ =>
        split
        case h_1 value _ _ hnode =>
          rw [exists_ahead (Q := fun schema => IndexesParsed schema.spaceHash n)]
          refine ⟨fun h => ⟨hsix, trivial, fun _ => h⟩, fun h => h.2.2 ?_⟩
          rw [IndexAdded, hnode]
          exact rfl
        case h_2 hnot =>
          refine iff_of_true exists_ended ⟨hsix, trivial, fun h => ?_⟩
          unfold IndexAdded at h
          split at h
          case h_1 heq =>
            obtain ⟨value, hvalue⟩ := Option.isSome_iff_exists.mp h
            simp only [List.cons.injEq, Doc.uint.injEq] at heq
            obtain ⟨⟨-, rfl⟩, -, rfl, -⟩ := heq
            exact (hnot _ _ _ hvalue rfl).elim
          case h_2 => exact h.elim
      case h_2 hfields =>
        refine iff_of_false nofun fun h => ?_
        have hnumbers := h.2.1
        unfold IndexNumbers at hnumbers
        split at hnumbers
        case h_1 rest =>
          cases rest with
          | nil => exact absurd hsix (by simp)
          | cons name rest => exact hfields _ _ _ _ _ _ rfl
        case h_2 => exact hnumbers.elim
  case h_2 hnone =>
    refine iff_of_false nofun ?_
    cases ds with
    | nil => exact id
    | cons d ds =>
      cases d with
      | array w fields => exact fun _ => hnone w fields ds rfl
      | _ => exact id

theorem addRows_spacesParsed (n : Nat) (schema : Schema) {ds : List Doc} (h : Pending ds) :
    (∃ r, addRows schemaAddSpace n schema (encodeAll ds) = .ok r) ↔ SpacesParsed n ds := by
  induction n generalizing schema ds with
  | zero => exact iff_of_true ⟨_, rfl⟩ trivial
  | succ n ih =>
    rw [addRows_returns (schemaAddSpace_docs schema h), ← addSpaceDocs_returns schema]
    refine exists_congr fun schema' => exists_congr fun ahead => and_congr_right fun hdocs => ?_
    refine forall₂_congr fun ds' hds' => ih schema' ?_
    rw [hds'] at hdocs
    exact addSpaceDocs_pending h hdocs

theorem addRows_indexesParsed (n : Nat) (schema : Schema) {ds : List Doc} (h : Pending ds) :
    (∃ r, addRows schemaAddIndex n schema (encodeAll ds) = .ok r) ↔ IndexesParsed schema.spaceHash n ds := by
  induction n generalizing schema ds with
  | zero => exact iff_of_true ⟨_, rfl⟩ trivial
  | succ n ih =>
    rw [addRows_returns (schemaAddIndex_docs schema h), ← addIndexDocs_returns schema]
    refine exists_congr fun schema' => exists_congr fun ahead => and_congr_right fun hdocs => ?_
    refine forall₂_congr fun ds' hds' => ih schema' ?_
    rw [hds'] at hdocs
    exact addIndexDocs_pending h hdocs

/-! ## Whole lists -/

section Lists

variable {add : Schema → Bytes → Except Fault (Schema × Option Bytes)} {d : Doc}

theorem pending_items (hwf : d.WF) (hlight : Light d) : Pending d.items := by
  have h : Pending [d] := fun e he => List.mem_singleton.mp he ▸ ⟨hwf, hlight⟩
  have hitems := h.items
  rwa [List.append_nil] at hitems

/-- A value that is no array is rejected. -/
theorem addTuples_other (schema : Schema) (hwf : d.WF) (hlight : Light d) (hlen : d.encode.length < 2 ^ 32)
    (hd : docType d ≠ .array) : addTuples add schema (some d.encode) d.encode.length = .ok (schema, false) := by
  have hcheck := phpMpCheck_doc hwf hlight (le_refl _) []
  have htype := typeAt_doc (d.wf_iff.mp hwf).1 []
  rw [List.append_nil] at hcheck htype
  rw [phpMpCheck] at hcheck
  simp only [addTuples, toUint32, Nat.mod_eq_of_lt hlen, hcheck, htype, bind, Except.bind, if_pos hd]
  rfl

/-- A loader of rows that gets along with documents exactly when they are `parsed` gets along with a value
exactly when that is. -/
theorem addTuples_parsed {parsed : Nat → List Doc → Prop} (schema : Schema)
    (hadd : ∀ n ds, Pending ds → ((∃ r, addRows add n schema (encodeAll ds) = .ok r) ↔ parsed n ds))
    (hwf : d.WF) (hlen : d.encode.length < 2 ^ 31) :
    (∃ r, addTuples add schema (some d.encode) d.encode.length = .ok r) ↔ RowsParsed parsed d := by
  have hlight := light_of_length hlen
  cases d with
  | array w rows =>
    have harray := @addTuples_array add schema w rows hwf hlight (by omega) []
    rw [List.append_nil, List.append_nil] at harray
    rw [harray]
    exact hadd _ _ (pending_items hwf hlight)
  | _ => exact iff_of_true ⟨_, addTuples_other schema hwf hlight (by omega) nofun⟩ trivial

end Lists

/-- The loaders return for a well-formed value, with 0 or with -1, exactly when they get along with it:
every row they come upon is an array of six fields at least; seven documents are ahead of a row of spaces
that is added; and the numbers of a row of indexes are unsigned. -/
theorem beeSchemaAdd_parsed {d : Doc} (hwf : d.WF) (hlen : d.encode.length < 2 ^ 31) (schema : Schema) :
    ((∃ r, beeSchemaAddSpaces schema (some d.encode) d.encode.length = .ok r) ↔ RowsParsed SpacesParsed d) ∧
      ((∃ r, beeSchemaAddIndexes schema (some d.encode) d.encode.length = .ok r) ↔
        RowsParsed (IndexesParsed schema.spaceHash) d) :=
  ⟨addTuples_parsed schema (fun n _ h => addRows_spacesParsed n schema h) hwf hlen,
    addTuples_parsed schema (fun n _ h => addRows_indexesParsed n schema h) hwf hlen⟩

/-- A list with one row of spaces. -/
theorem beeSchemaAdd_parsed_users : ∃ r,
    beeSchemaAddSpaces .empty (some (Doc.array .fix [(SpaceRow.named 512 "users").doc]).encode)
      (Doc.array .fix [(SpaceRow.named 512 "users").doc]).encode.length = .ok r := by
  have hwf : (Doc.array .fix [(SpaceRow.named 512 "users").doc]).WF :=
    ⟨by decide, (SpaceRow.named 512 "users").doc_wf, trivial⟩
  refine (beeSchemaAdd_parsed hwf (by decide) .empty).1.mpr ⟨by decide, fun _ => ⟨by decide, trivial⟩⟩

/-- A row that is nil makes the loaders free a node that they have not made. -/
theorem beeSchemaAdd_parsed_nil : ¬ ∀ (d : Doc) (schema : Schema), d.WF → d.encode.length < 2 ^ 31 →
    (∃ r, beeSchemaAddSpaces schema (some d.encode) d.encode.length = .ok r) ∧
      ∃ r, beeSchemaAddIndexes schema (some d.encode) d.encode.length = .ok r := by
  intro h
  have hwf : (Doc.array .fix [.nil]).WF := ⟨by decide, trivial, trivial⟩
  obtain ⟨⟨r, hrun⟩, -⟩ := h (.array .fix [.nil]) .empty hwf (by decide)
  have hfault : beeSchemaAddSpaces .empty (some (Doc.array .fix [.nil]).encode)
      (Doc.array .fix [.nil]).encode.length = .error .uninit := rfl
  rw [hfault] at hrun
  cases hrun

/-! ## Rows in step -/

/-- The cursor is behind the row exactly when as many documents were taken as the row has fields. -/
theorem drop_encode_eq_iff {fields ds : List Doc} {n : Nat} (hlen : n ≤ (fields ++ ds).length) :
    encodeAll ((fields ++ ds).drop n) = encodeAll ds ↔ fields.length = n := by
  constructor
  · intro h
    rcases lt_trichotomy fields.length n with hlt | heq | hgt
    · have hsplit : encodeAll ds =
          encodeAll (ds.take (n - fields.length)) ++ encodeAll (ds.drop (n - fields.length)) := by
        rw [← Codec.encodeAll_append, List.take_append_drop]
      have hpos := Codec.length_le_encodeAll (ds.take (n - fields.length))
      have hdrop : (fields ++ ds).drop n = ds.drop (n - fields.length) := by
        rw [List.drop_append, List.drop_eq_nil_of_le (by omega), List.nil_append]
      have hbytes := congrArg List.length hsplit
      rw [hdrop] at h
      rw [List.length_append] at hlen hbytes
      rw [List.length_take] at hpos
      rw [h] at hbytes
      omega
    · exact heq
    · have hdrop : (fields ++ ds).drop n = fields.drop n ++ ds := by
        rw [List.drop_append_of_le_length (by omega)]
      have hpos := Codec.length_le_encodeAll (fields.drop n)
      have hbytes := congrArg List.length h
      rw [hdrop, Codec.encodeAll_append, List.length_append] at hbytes
      rw [List.length_drop] at hpos
      omega
  · rintro rfl
    rw [List.drop_left]

theorem addSpaceDocs_tuple (schema : Schema) (r : SpaceTuple) (ds : List Doc) :
    addSpaceDocs schema (r.doc :: ds) = if (r.doc.items ++ ds).length < 7 then none
      else some (r.put schema, some ((r.doc.items ++ ds).drop 7)) :=
  if_neg (not_lt.mpr r.six_le)

theorem addIndexDocs_tuple {schema : Schema} {r : IndexTuple} (hnode : (r.node schema).isSome)
    (ds : List Doc) :
    addIndexDocs schema (r.doc :: ds) = some (r.put schema, some ((r.doc.items ++ ds).drop 6)) := by
  obtain ⟨value, hvalue⟩ := Option.isSome_iff_exists.mp hnode
  have hput : r.put schema = schema.putIndex value.indexHash (UInt32.ofNat r.id) r.name := by
    rw [IndexTuple.put, hvalue, Option.elim_some]
  rw [IndexTuple.node] at hvalue
  rw [hput]
  refine (if_neg (not_lt.mpr r.six_le)).trans ?_
  simp only [hvalue]
  rfl

/-- The bytes that a row and the rows behind it begin with. -/
theorem some_inBytes_iff {schema : Schema} {ds ds' : List Doc} :
    Option.map inBytes (some (schema, some ds)) = some (schema, some (encodeAll ds')) ↔
      encodeAll ds = encodeAll ds' := by
  simp [inBytes]

/-- A row of spaces is left behind exactly when it has seven fields. -/
theorem schemaAddSpace_tuple (schema : Schema) {r : SpaceTuple} {ds : List Doc} (h : Pending (r.doc :: ds)) :
    schemaAddSpace schema (r.doc.encode ++ encodeAll ds) = .ok (r.put schema, some (encodeAll ds)) ↔
      r.others.length = 4 := by
  have hfields : r.doc.items.length = 7 ↔ r.others.length = 4 := by
    simp only [SpaceTuple.doc, Doc.items, List.length_cons]
    omega
  rw [← toOption_eq_some, show r.doc.encode ++ encodeAll ds = encodeAll (r.doc :: ds) from rfl,
    schemaAddSpace_docs schema h, addSpaceDocs_tuple, ← hfields]
  split
  case isTrue hshort =>
    rw [List.length_append] at hshort
    exact iff_of_false (Option.some_ne_none _).symm fun heq => by omega
  case isFalse hlen => exact some_inBytes_iff.trans (drop_encode_eq_iff (not_lt.mp hlen))

/-- A row of indexes of a space with a node is left behind exactly when it has six fields. -/
theorem schemaAddIndex_tuple {schema : Schema} {r : IndexTuple} (hnode : (r.node schema).isSome)
    {ds : List Doc} (h : Pending (r.doc :: ds)) :
    schemaAddIndex schema (r.doc.encode ++ encodeAll ds) = .ok (r.put schema, some (encodeAll ds)) ↔
      r.others.length = 3 := by
  have hsix : 6 ≤ (r.doc.items ++ ds).length := by
    have hrow : 6 ≤ r.doc.items.length := r.six_le
    rw [List.length_append]
    omega
  have hfields : r.doc.items.length = 6 ↔ r.others.length = 3 := by
    simp only [IndexTuple.doc, Doc.items, List.length_cons]
    omega
  rw [← toOption_eq_some, show r.doc.encode ++ encodeAll ds = encodeAll (r.doc :: ds) from rfl,
    schemaAddIndex_docs schema h, addIndexDocs_tuple hnode, ← hfields]
  exact some_inBytes_iff.trans (drop_encode_eq_iff hsix)

section Steps

variable {ρ : Type} {add : Schema → Bytes → Except Fault (Schema × Option Bytes)} {doc : ρ → Doc}
  {put : Schema → ρ → Schema}

/-- The rows are in step exactly when each of them is. -/
theorem inStep_iff {Exact : ρ → Prop} {Good : Schema → ρ → Prop}
    (hput : ∀ schema r r', Good schema r' → Good (put schema r) r')
    (hstep : ∀ schema r ds, Good schema r → Pending (doc r :: ds) →
      (add schema ((doc r).encode ++ encodeAll ds) = .ok (put schema r, some (encodeAll ds)) ↔ Exact r))
    {rows : List ρ} {schema : Schema} (hgood : ∀ r ∈ rows, Good schema r) (h : Pending (rows.map doc)) :
    InStep add doc put schema rows ↔ ∀ r ∈ rows, Exact r := by
  induction rows generalizing schema with
  | nil => exact iff_of_true trivial (List.forall_mem_nil _)
  | cons r rows ih =>
    obtain ⟨hr, hrows⟩ := List.forall_mem_cons.mp hgood
    rw [InStep, List.forall_mem_cons, hstep schema r _ hr h]
    exact and_congr_right fun _ => ih (fun r' hr' => hput schema r r' (hrows r' hr')) h.tail

/-- Rows in step are all added. -/
theorem InStep.addRows {rows : List ρ} {schema : Schema} (h : InStep add doc put schema rows) :
    addRows add rows.length schema (encodeAll (rows.map doc)) = .ok (rows.foldl put schema, true) := by
  induction rows generalizing schema with
  | nil => rfl
  | cons r rows ih =>
    obtain ⟨hr, hrows⟩ := h
    rw [List.map_cons, encodeAll, List.length_cons, BeePhp.addRows, hr]
    exact ih hrows

theorem InStep.addTuples {w : SeqWidth} {rows : List ρ} {schema : Schema}
    (hwf : (Doc.array w (rows.map doc)).WF) (hlen : (Doc.array w (rows.map doc)).encode.length < 2 ^ 31)
    (h : InStep add doc put schema rows) :
    addTuples add schema (some (Doc.array w (rows.map doc)).encode)
      (Doc.array w (rows.map doc)).encode.length = .ok (rows.foldl put schema, true) := by
  have harray := @addTuples_array add schema w (rows.map doc) hwf (light_of_length hlen) (by omega) []
  rw [List.append_nil, List.append_nil, List.length_map] at harray
  exact harray.trans h.addRows

end Steps

/-- Lists of rows that pass the checks of the loaders are loaded in step, and every row gives its entry,
exactly when all rows of spaces have seven fields and all rows of indexes, whose spaces have nodes, have
six. -/
theorem rows_inStep (schema : Schema) (w : SeqWidth) :
    (∀ rows : List SpaceTuple, (Doc.array w (rows.map SpaceTuple.doc)).WF →
      (Doc.array w (rows.map SpaceTuple.doc)).encode.length < 2 ^ 31 →
      ((InStep schemaAddSpace SpaceTuple.doc SpaceTuple.put schema rows ∧
          beeSchemaAddSpaces schema (some (Doc.array w (rows.map SpaceTuple.doc)).encode)
            (Doc.array w (rows.map SpaceTuple.doc)).encode.length =
              .ok (rows.foldl SpaceTuple.put schema, true)) ↔
        ∀ r ∈ rows, r.others.length = 4)) ∧
    (∀ rows : List IndexTuple, (Doc.array w (rows.map IndexTuple.doc)).WF →
      (Doc.array w (rows.map IndexTuple.doc)).encode.length < 2 ^ 31 →
      (∀ r ∈ rows, (r.node schema).isSome) →
      ((InStep schemaAddIndex IndexTuple.doc IndexTuple.put schema rows ∧
          beeSchemaAddIndexes schema (some (Doc.array w (rows.map IndexTuple.doc)).encode)
            (Doc.array w (rows.map IndexTuple.doc)).encode.length =
              .ok (rows.foldl IndexTuple.put schema, true)) ↔
        ∀ r ∈ rows, r.others.length = 3)) := by
  constructor
  · intro rows hwf hlen
    have hpending := pending_items hwf (light_of_length hlen)
    have hiff := @inStep_iff _ _ _ SpaceTuple.put (fun r => r.others.length = 4) (fun _ _ => True)
      (fun _ _ _ h => h) (fun schema r ds _ h => schemaAddSpace_tuple schema h) rows schema
      (fun _ _ => trivial) hpending
    rw [← hiff]
    exact and_iff_left_of_imp fun h => h.addTuples hwf hlen
  · intro rows hwf hlen hnodes
    have hpending := pending_items hwf (light_of_length hlen)
    have hput (schema : Schema) (r r' : IndexTuple) (h : (r'.node schema).isSome) :
        (r'.node (r.put schema)).isSome := by
      rw [IndexTuple.put]
      cases r.node schema with
      | none => exact h
      | some value => exact h
    rw [← inStep_iff hput (fun schema r ds hnode h => schemaAddIndex_tuple hnode h) hnodes hpending]
    exact and_iff_left_of_imp fun h => h.addTuples hwf hlen

/-- A row of the space `users`, with fields that are nil behind its name. -/
def usersTuple (others : List Doc) (h : 6 ≤ others.length + 3) : SpaceTuple :=
  ⟨.fix, .w32, 512, .nil, .w32, ascii "users", others, h⟩

/-- A row of its index `primary`. -/
def primaryTuple (others : List Doc) (h : 6 ≤ others.length + 3) : IndexTuple :=
  ⟨.fix, .w32, 512, .w32, 0, .w32, ascii "primary", others, h⟩

theorem rows_inStep_users :
    InStep schemaAddSpace SpaceTuple.doc SpaceTuple.put .empty
      [usersTuple [.nil, .nil, .nil, .nil] (by decide)] ∧
    InStep schemaAddIndex IndexTuple.doc IndexTuple.put (Schema.empty.putSpace 512 (ascii "users"))
      [primaryTuple [.nil, .nil, .nil] (by decide)] := by
  constructor
  · refine (((rows_inStep .empty .fix).1 _ ?_ ?_).mpr ?_).1
    · exact ⟨by decide, (SpaceRow.named 512 "users").doc_wf, trivial⟩
    · decide
    · decide
  · refine (((rows_inStep _ .fix).2 _ ?_ ?_ ?_).mpr ?_).1
    · exact ⟨by decide, (IndexRow.named 512 0 "primary").doc_wf, trivial⟩
    · decide
    · decide
    · decide

/-- A row of spaces of six fields is accepted, but the loader takes a seventh document. -/
theorem rows_inStep_six : ¬ ∀ (schema : Schema) (w : SeqWidth) (rows : List SpaceTuple),
    (Doc.array w (rows.map SpaceTuple.doc)).WF →
      (Doc.array w (rows.map SpaceTuple.doc)).encode.length < 2 ^ 31 →
      InStep schemaAddSpace SpaceTuple.doc SpaceTuple.put schema rows ∧
        beeSchemaAddSpaces schema (some (Doc.array w (rows.map SpaceTuple.doc)).encode)
          (Doc.array w (rows.map SpaceTuple.doc)).encode.length =
            .ok (rows.foldl SpaceTuple.put schema, true) := by
  intro h
  have hfault : beeSchemaAddSpaces .empty
      (some (Doc.array .fix [(usersTuple [.nil, .nil, .nil] (by decide)).doc]).encode)
      (Doc.array .fix [(usersTuple [.nil, .nil, .nil] (by decide)).doc]).encode.length = .error .oob := rfl
  have hrow : (usersTuple [.nil, .nil, .nil] (by decide)).doc.WF :=
    ⟨by decide, by decide, trivial, by decide, trivial, trivial, trivial, trivial⟩
  obtain ⟨-, hrun⟩ := h .empty .fix [usersTuple [.nil, .nil, .nil] (by decide)]
    ⟨by decide, hrow, trivial⟩ (by decide)
  rw [List.map_singleton, hfault] at hrun
  cases hrun

end BeePhp
