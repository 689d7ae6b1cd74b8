import BeePhp.Catalogue
import BeePhp.Proofs.WalkProofs
import BeePhp.Tables

/-!
# Proofs: reading rows

What a row of the catalogue reads as. The cache over maps reads rows the way the tables do.
-/

namespace BeePhp

open Codec (Bytes Doc encodeAll)

/-! ## The rows of the catalogue -/

/-- Of a row of spaces the number and the name are read. -/
theorem readSpace_row {r : SpaceRow} (hlight : Light r.doc) (rest : Bytes) :
    readSpace (r.doc.encode ++ rest) = .ok (some (r.number, r.name, rest)) := by
  obtain ⟨howner, hengine, hcount, hflags, hformat, -⟩ := r.skipped
  have hseven : 7 < r.width.bound := by cases r.width <;> simp [Codec.SeqWidth.bound]
  have hrow : r.doc.encode ++ rest = r.width.arrayHead 7 ++ ((Doc.uint r.idWidth r.id).encode ++
      (r.owner.encode ++ ((Doc.str r.nameWidth r.name).encode ++ (r.engine.encode ++
      (r.fieldCount.encode ++ (r.flags.encode ++ (r.format.encode ++ rest))))))) := by
    simp [SpaceRow.doc, Doc.encode, encodeAll]
  have htype : typeAt (r.doc.encode ++ rest) = .ok .array := @typeAt_doc r.doc hseven rest
  have hnext (e : Doc) (hmem : e ∈ r.doc.items) := @mpNext_item r.doc e hlight hmem
  simp only [SpaceRow.doc, Doc.items, List.mem_cons, List.not_mem_nil, or_false] at hnext
  rw [hrow] at htype ⊢
  simp only [readSpace, htype, decodeArray_head hseven, typeAt_uint r.id_fits,
    decodeUint_doc r.id_fits, hnext r.owner (by simp) howner, typeAt_str r.name_fits,
    decodeStr_doc r.name_fits, hnext r.engine (by simp) hengine, hnext r.fieldCount (by simp) hcount,
    hnext r.flags (by simp) hflags, hnext r.format (by simp) hformat, bind, Except.bind]
  rfl

/-- Of a row of indexes the number of the space is read first. -/
theorem readIndexSpace_row (r : IndexRow) (rest : Bytes) :
    readIndexSpace (r.doc.encode ++ rest) = .ok (r.space, encodeAll [.uint r.idWidth r.id,
      .str r.nameWidth r.name, r.type, r.opts, r.parts] ++ rest) := by
  have hsix : 6 < r.width.bound := by cases r.width <;> simp [Codec.SeqWidth.bound]
  have hrow : r.doc.encode ++ rest = r.width.arrayHead 6 ++ ((Doc.uint r.spaceWidth r.spaceId).encode ++
      ((Doc.uint r.idWidth r.id).encode ++ ((Doc.str r.nameWidth r.name).encode ++ (r.type.encode ++
      (r.opts.encode ++ (r.parts.encode ++ rest)))))) := by
    simp [IndexRow.doc, Doc.encode, encodeAll]
  have harray : typeAt (r.doc.encode ++ rest) = .ok .array := @typeAt_doc r.doc hsix rest
  rw [hrow] at harray ⊢
  simp only [encodeAll, List.append_assoc, List.nil_append]
  simp only [readIndexSpace, harray, decodeArray_head hsix, decodeUint_doc r.space_fits,
    typeAt_uint r.id_fits, bind, Except.bind]
  rfl

/-- Of the rest the number and the name are read. -/
theorem readIndex_row {r : IndexRow} (hlight : Light r.doc) (rest : Bytes) :
    readIndex (encodeAll [.uint r.idWidth r.id, .str r.nameWidth r.name, r.type, r.opts, r.parts] ++ rest) =
      .ok (some (r.number, r.name, rest)) := by
  obtain ⟨htype, hopts, hparts, -⟩ := r.skipped
  have hnext (e : Doc) (hmem : e ∈ r.doc.items) := @mpNext_item r.doc e hlight hmem
  simp only [IndexRow.doc, Doc.items, List.mem_cons, List.not_mem_nil, or_false] at hnext
  simp only [encodeAll, List.append_assoc, List.nil_append]
  simp only [readIndex, typeAt_uint r.id_fits, decodeUint_doc r.id_fits, typeAt_str r.name_fits,
    decodeStr_doc r.name_fits, hnext r.type (by simp) htype, hnext r.opts (by simp) hopts,
    hnext r.parts (by simp) hparts, bind, Except.bind]
  rfl

/-! ## The cache over maps -/

/-- `schema_add_space` on maps, with what it reads set apart. -/
theorem schemaAddSpace_eq (schema : Schema) (data : Bytes) :
    schemaAddSpace schema data = readSpace data >>= fun row => .ok (row.elim (schema, none) fun row =>
      (schema.putSpace row.1 row.2.1, some row.2.2)) := by
  unfold schemaAddSpace readSpace
  simp only [bind_assoc]
  apply bind_congr
  intro type
  split
  · rfl
  simp only [bind_assoc]
  apply bind_congr
  intro head
  split
  · rfl
  simp only [bind_assoc]
  apply bind_congr
  intro type
  split
  · rfl
  simp only [bind_assoc]
  apply bind_congr
  intro number
  apply bind_congr
  intro tuple
  apply bind_congr
  intro type
  split
  · rfl
  simp only [bind_assoc]
  rfl

/-- `schema_add_index` on maps. -/
theorem schemaAddIndex_eq (schema : Schema) (data : Bytes) :
    schemaAddIndex schema data = readIndexSpace data >>= fun r =>
      (schema.spaceHash.lookup (numberKey r.1)).elim (.ok (schema, none)) fun space =>
        readIndex r.2 >>= fun row => .ok (row.elim (schema, none) fun row =>
          (schema.putIndex space.indexHash row.1 row.2.1, some row.2.2)) := by
  unfold schemaAddIndex readIndexSpace
  simp only [bind_assoc]
  apply bind_congr
  intro type
  split
  · rfl
  simp only [bind_assoc]
  apply bind_congr
  intro head
  split
  · rfl
  simp only [bind_assoc]
  apply bind_congr
  intro number
  apply bind_congr
  intro type
  split
  · rfl
  simp only [pure_bind]
  cases schema.spaceHash.lookup (numberKey (UInt32.ofNat number.1)) with
  | none => rfl
  | some space =>
    unfold readIndex
    simp only [bind_assoc, Option.elim_some]
    apply bind_congr
    intro type
    split
    · rfl
    simp only [bind_assoc]
    apply bind_congr
    intro number
    apply bind_congr
    intro type
    split
    · rfl
    simp only [bind_assoc]
    rfl

end BeePhp
