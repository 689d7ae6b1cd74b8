import BeePhp.Parsers
import BeePhp.Proofs.ResponseProofs
import BeePhp.Proofs.WalkProofs

/-!
# Proofs: the two parsers of responses

`php_tp_response` gets through a response exactly when its entries have the types it takes them for
(`phpTpResponse_typed`, `phpTpResponse_untyped`), and then `bee_step_recv` goes by the code
(`beeStepRecv_typed`).
-/

namespace BeePhp

open Codec Program

/-! ## Entries -/

theorem entryDocs_cons (f : Entry) (fs : List Entry) :
    entryDocs (f :: fs) = .uint f.width f.key :: f.value :: entryDocs fs := rfl

/-- The items of a row of entries can be walked over. -/
structure Walkable (fs : List Entry) : Prop where
  wf : AllWF (entryDocs fs)
  light : ∀ d ∈ entryDocs fs, (d.peak 0 : Int) ≤ intMax

theorem Walkable.tail {f : Entry} {fs : List Entry} (h : Walkable (f :: fs)) : Walkable fs where
  wf := h.wf.2.2
  light := fun d hd => h.light d (List.mem_cons_of_mem _ (List.mem_cons_of_mem _ hd))

theorem Walkable.key {f : Entry} {fs : List Entry} (h : Walkable (f :: fs)) :
    f.key < f.width.uintBound := h.wf.1

theorem Walkable.value {f : Entry} {fs : List Entry} (h : Walkable (f :: fs)) : f.value.WF := h.wf.2.1

theorem Walkable.next {f : Entry} {fs : List Entry} (h : Walkable (f :: fs)) (rest : Bytes) :
    mpNext (f.value.encode ++ rest) = .ok rest :=
  mpNext_doc h.value (h.light _ (List.mem_cons_of_mem _ List.mem_cons_self)) rest

/-- The encoding of a row of entries, from the first one on. -/
theorem encode_entries (f : Entry) (fs : List Entry) (rest : Bytes) :
    encodeAll (entryDocs (f :: fs)) ++ rest = (Doc.uint f.width f.key).encode ++
      (f.value.encode ++ (encodeAll (entryDocs fs) ++ rest)) := by
  simp only [entryDocs_cons, encodeAll, List.append_assoc]

/-! ## The header in php_tp_response -/

/-- What the loop over the header does with a number under a key. -/
def BeexResponse.take (r : BeexResponse) (key n : Nat) : BeexResponse :=
  (if key = beexSync.toNat then { r with sync := UInt32.ofNat n }
    else if key = beexCode.toNat then { r with code := UInt32.ofNat n }
    else r).mark key

theorem responseHeader_number {f : Entry} {fs : List Entry} (hwalk : Walkable (f :: fs))
    {w : IntWidth} {n : Nat} (hvalue : f.value = .uint w n) (count : Nat) (r : BeexResponse)
    (rest : Bytes) :
    responseHeader (count + 1) r (encodeAll (entryDocs (f :: fs)) ++ rest) =
      responseHeader count (r.take (f.key % 2 ^ 32) n) (encodeAll (entryDocs fs) ++ rest) := by
  have hn : n < w.uintBound := by
    have hwf := hwalk.value
    rw [hvalue] at hwf
    exact hwf
  have hnext := hwalk.next (encodeAll (entryDocs fs) ++ rest)
  rw [hvalue] at hnext
  rw [encode_entries, hvalue, responseHeader]
  simp only [typeAt_uint hwalk.key, decodeUint_doc hwalk.key, typeAt_uint hn, decodeUint_doc hn, hnext,
    bind, Except.bind, BeexResponse.take, toUint32]
  split
  · simp_all
  · rename_i h
    split
    · simp_all
    · rename_i h
      split <;> simp_all

theorem responseHeader_other {f : Entry} {fs : List Entry} (hwalk : Walkable (f :: fs))
    (hvalue : ∀ w n, f.value ≠ .uint w n) (count : Nat) (r : BeexResponse) (rest : Bytes) :
    responseHeader (count + 1) r (encodeAll (entryDocs (f :: fs)) ++ rest) = .ok (r, none) := by
  have htype : typeAt (f.value.encode ++ (encodeAll (entryDocs fs) ++ rest)) = .ok (docType f.value) :=
    typeAt_doc (f.value.wf_iff.mp hwalk.value).1 _
  have hne : docType f.value ≠ .uint := by
    cases hdoc : f.value with
    | uint w n => exact absurd hdoc (hvalue w n)
    | _ => simp [docType]
  rw [encode_entries, responseHeader]
  simp only [typeAt_uint hwalk.key, decodeUint_doc hwalk.key, htype, bind, Except.bind]
  simp [hne]
  rfl

/-- The keys of a row of entries, cut to 32 bits, ask for a bit that is not there. -/
def wide (fs : List Entry) : Bool := fs.any fun f => 64 ≤ f.key % 2 ^ 32

theorem mark_wideShift (r : BeexResponse) (key : Nat) :
    (r.mark key).wideShift = (decide (64 ≤ key) || r.wideShift) := by
  unfold BeexResponse.mark
  by_cases h : key < 64
  · simp [h, Nat.not_le.mpr h]
  · simp [h, Nat.not_lt.mp h]

theorem mark_rest (r : BeexResponse) (key : Nat) : (r.mark key).code = r.code ∧
    (r.mark key).error = r.error ∧ (r.mark key).data = r.data := by
  unfold BeexResponse.mark
  split <;> exact ⟨rfl, rfl, rfl⟩

theorem mark_sync (r : BeexResponse) (key : Nat) : (r.mark key).sync = r.sync := by
  unfold BeexResponse.mark
  split <;> rfl

theorem mark_dataLen (r : BeexResponse) (key : Nat) : (r.mark key).dataLen = r.dataLen := by
  unfold BeexResponse.mark
  split <;> rfl

theorem take_wideShift (r : BeexResponse) (key n : Nat) :
    (r.take key n).wideShift = (decide (64 ≤ key) || r.wideShift) := by
  rw [BeexResponse.take, mark_wideShift]
  split
  · rfl
  · split <;> rfl

theorem take_rest (r : BeexResponse) (key n : Nat) : (r.take key n).error = r.error ∧
    (r.take key n).data = r.data ∧
    (r.take key n).code = if key = beexCode.toNat then UInt32.ofNat n else r.code := by
  obtain ⟨hcode, herror, hdata⟩ := mark_rest
    (if key = beexSync.toNat then { r with sync := UInt32.ofNat n }
      else if key = beexCode.toNat then { r with code := UInt32.ofNat n }
      else r) key
  rw [BeexResponse.take, hcode, herror, hdata]
  by_cases hsync : key = beexSync.toNat
  · have hne : ¬ key = beexCode.toNat := by
      rw [hsync]
      decide
    simp only [if_pos hsync, if_neg hne, and_self]
  · simp only [if_neg hsync]
    split <;> exact ⟨rfl, rfl, rfl⟩

theorem take_sync (r : BeexResponse) (key n : Nat) :
    (r.take key n).sync = if key = beexSync.toNat then UInt32.ofNat n else r.sync := by
  rw [BeexResponse.take, mark_sync]
  by_cases hsync : key = beexSync.toNat
  · simp only [if_pos hsync]
  · simp only [if_neg hsync]
    split <;> rfl

/-- The last number under a key of a header is what one taking it leaves. -/
theorem lastNumber {fs : List Entry} {f : Entry} {w w' : IntWidth} {n n' k : Nat}
    (hvalue : f.value = .uint w n) (hlast : valueAt32 k (f :: fs) = some (.uint w' n')) :
    valueAt32 k fs = some (.uint w' n') ∨
      valueAt32 k fs = none ∧ f.key % 2 ^ 32 = k ∧ n' = n := by
  rw [valueAt32] at hlast
  cases hrest : valueAt32 k fs with
  | some d =>
    rw [hrest] at hlast
    exact .inl hlast
  | none =>
    rw [hrest, Option.none_or] at hlast
    split at hlast
    case isTrue hkey =>
      rw [hvalue] at hlast
      obtain ⟨rfl, rfl⟩ := Doc.uint.inj (Option.some.inj hlast)
      exact .inr ⟨rfl, hkey, rfl⟩
    case isFalse => cases hlast

theorem noNumber {fs : List Entry} {f : Entry} {k : Nat} (hnone : valueAt32 k (f :: fs) = none) :
    valueAt32 k fs = none ∧ f.key % 2 ^ 32 ≠ k := by
  rw [valueAt32, Option.or_eq_none_iff] at hnone
  refine ⟨hnone.1, fun hkey => ?_⟩
  rw [if_pos hkey] at hnone
  cases hnone.2

/-- What the loop over a header of numbers fills in. -/
structure HeaderTaken (fs : List Entry) (r r' : BeexResponse) : Prop where
  wideShift : r'.wideShift = (wide fs || r.wideShift)
  error : r'.error = r.error
  data : r'.data = r.data
  code : ∀ w n, valueAt32 beexCode.toNat fs = some (.uint w n) → r'.code = UInt32.ofNat n
  noCode : valueAt32 beexCode.toNat fs = none → r'.code = r.code
  sync : ∀ w n, valueAt32 beexSync.toNat fs = some (.uint w n) → r'.sync = UInt32.ofNat n
  noSync : valueAt32 beexSync.toNat fs = none → r'.sync = r.sync

theorem HeaderTaken.cons {fs : List Entry} {f : Entry} {r r' : BeexResponse} {w : IntWidth} {n : Nat}
    (hvalue : f.value = .uint w n) (h : HeaderTaken fs (r.take (f.key % 2 ^ 32) n) r') :
    HeaderTaken (f :: fs) r r' := by
  obtain ⟨herror, hdata, hcode⟩ := take_rest r (f.key % 2 ^ 32) n
  have hsync := take_sync r (f.key % 2 ^ 32) n
  refine ⟨?_, h.error.trans herror, h.data.trans hdata, ?_, ?_, ?_, ?_⟩
  · rw [h.wideShift, take_wideShift, wide, wide, List.any_cons]
    cases decide (64 ≤ f.key % 2 ^ 32) <;> simp
  · intro w' n' hlast
    rcases lastNumber hvalue hlast with hrest | ⟨hrest, hkey, rfl⟩
    · exact h.code w' n' hrest
    · rw [h.noCode hrest, hcode, if_pos hkey]
  · intro hnone
    obtain ⟨hrest, hkey⟩ := noNumber hnone
    rw [h.noCode hrest, hcode, if_neg hkey]
  · intro w' n' hlast
    rcases lastNumber hvalue hlast with hrest | ⟨hrest, hkey, rfl⟩
    · exact h.sync w' n' hrest
    · rw [h.noSync hrest, hsync, if_pos hkey]
  · intro hnone
    obtain ⟨hrest, hkey⟩ := noNumber hnone
    rw [h.noSync hrest, hsync, if_neg hkey]

theorem responseHeader_numbers {fs : List Entry} (hwalk : Walkable fs)
    (hnumbers : ∀ f ∈ fs, ∃ w n, f.value = .uint w n) (r : BeexResponse) (rest : Bytes) :
    ∃ r', responseHeader fs.length r (encodeAll (entryDocs fs) ++ rest) = .ok (r', some rest) ∧
      HeaderTaken fs r r' := by
  induction fs generalizing r with
  | nil =>
    exact ⟨r, rfl, rfl, rfl, rfl, nofun, fun _ => rfl, nofun, fun _ => rfl⟩
  | cons f fs ih =>
    obtain ⟨w, n, hvalue⟩ := hnumbers f List.mem_cons_self
    obtain ⟨r', hrun, htaken⟩ := ih hwalk.tail
      (fun f' hf' => hnumbers f' (List.mem_cons_of_mem _ hf')) (r.take (f.key % 2 ^ 32) n)
    refine ⟨r', ?_, htaken.cons hvalue⟩
    rw [List.length_cons, responseHeader_number hwalk hvalue]
    exact hrun

theorem responseHeader_untyped {fs : List Entry} (hwalk : Walkable fs)
    (hother : ∃ f ∈ fs, ∀ w n, f.value ≠ .uint w n) (r : BeexResponse) (rest : Bytes) :
    ∃ r', responseHeader fs.length r (encodeAll (entryDocs fs) ++ rest) = .ok (r', none) := by
  induction fs generalizing r with
  | nil =>
    obtain ⟨f, hf, -⟩ := hother
    cases hf
  | cons f fs ih =>
    by_cases hnumber : ∃ w n, f.value = .uint w n
    · obtain ⟨w, n, hvalue⟩ := hnumber
      obtain ⟨f', hf', hne⟩ := hother
      have hmem : f' ∈ fs := by
        rcases List.mem_cons.mp hf' with rfl | hmem
        · exact absurd hvalue (hne w n)
        · exact hmem
      rw [List.length_cons, responseHeader_number hwalk hvalue]
      exact ih hwalk.tail ⟨f', hmem, hne⟩ _
    · refine ⟨r, ?_⟩
      rw [List.length_cons]
      exact responseHeader_other hwalk (fun w n h => hnumber ⟨w, n, h⟩) _ r rest

/-! ## The body in php_tp_response -/

/-- What the loop over the body does at an error text. -/
def BeexResponse.takeError (r : BeexResponse) (s : Bytes) : BeexResponse :=
  { r with error := some s, code := r.code &&& 0x7fff }.mark beexError.toNat

/-- What it does at an array of `size` bytes in front of `rest`. -/
def BeexResponse.takeData (r : BeexResponse) (data : Bytes) (size : Nat) : BeexResponse :=
  { r with data := some data, dataLen := size }.mark beexData.toNat

section Body

variable {f : Entry} {fs : List Entry} (hwalk : Walkable (f :: fs)) (count : Nat) (r : BeexResponse)
  (rest : Bytes)
include hwalk

theorem responseBody_error (hkey : f.key % 2 ^ 32 = beexError.toNat) {w : StrWidth} {s : Bytes}
    (hvalue : f.value = .str w s) :
    responseBody (count + 1) r (encodeAll (entryDocs (f :: fs)) ++ rest) =
      responseBody count (r.takeError s) (encodeAll (entryDocs fs) ++ rest) := by
  have hfits : s.length < w.bound := by
    have hwf := hwalk.value
    rw [hvalue] at hwf
    exact hwf
  rw [encode_entries, hvalue, responseBody]
  simp only [decodeUint_doc hwalk.key, toUint32, hkey, typeAt_str hfits, decodeStr_doc hfits, bind,
    Except.bind]
  rfl

theorem responseBody_noText (hkey : f.key % 2 ^ 32 = beexError.toNat)
    (hvalue : ∀ w s, f.value ≠ .str w s) :
    responseBody (count + 1) r (encodeAll (entryDocs (f :: fs)) ++ rest) = .ok (r, none) := by
  have htype := typeAt_doc (f.value.wf_iff.mp hwalk.value).1 (encodeAll (entryDocs fs) ++ rest)
  have hne : docType f.value ≠ .str := by
    cases hdoc : f.value with
    | str w s => exact absurd hdoc (hvalue w s)
    | _ => simp [docType]
  rw [encode_entries, responseBody]
  simp only [decodeUint_doc hwalk.key, toUint32, hkey, htype, bind, Except.bind, if_true, ne_eq, hne,
    not_false_eq_true]
  rfl

theorem responseBody_data (hkey : f.key % 2 ^ 32 = beexData.toNat) {w : SeqWidth} {ds : List Doc}
    (hvalue : f.value = .array w ds) :
    responseBody (count + 1) r (encodeAll (entryDocs (f :: fs)) ++ rest) =
      responseBody count (r.takeData (f.value.encode ++ (encodeAll (entryDocs fs) ++ rest))
        f.value.encode.length) (encodeAll (entryDocs fs) ++ rest) := by
  have htype := typeAt_doc (f.value.wf_iff.mp hwalk.value).1 (encodeAll (entryDocs fs) ++ rest)
  have hnext := hwalk.next (encodeAll (entryDocs fs) ++ rest)
  have hlen : (f.value.encode ++ (encodeAll (entryDocs fs) ++ rest)).length -
      (encodeAll (entryDocs fs) ++ rest).length = f.value.encode.length := by
    rw [List.length_append]
    omega
  have harray : docType f.value = .array := by rw [hvalue]; rfl
  rw [encode_entries, responseBody]
  simp only [decodeUint_doc hwalk.key, toUint32, hkey, htype, harray, hnext, hlen, bind, Except.bind]
  rfl

theorem responseBody_noArray (hkey : f.key % 2 ^ 32 = beexData.toNat)
    (hvalue : ∀ w ds, f.value ≠ .array w ds) :
    responseBody (count + 1) r (encodeAll (entryDocs (f :: fs)) ++ rest) = .ok (r, none) := by
  have htype := typeAt_doc (f.value.wf_iff.mp hwalk.value).1 (encodeAll (entryDocs fs) ++ rest)
  have hne : docType f.value ≠ .array := by
    cases hdoc : f.value with
    | array w ds => exact absurd hdoc (hvalue w ds)
    | _ => simp [docType]
  have herror : ¬ beexData.toNat = beexError.toNat := by decide
  rw [encode_entries, responseBody]
  simp only [decodeUint_doc hwalk.key, toUint32, hkey, htype, bind, Except.bind, if_true, ne_eq, hne,
    not_false_eq_true, if_neg herror]
  rfl

theorem responseBody_skip (herror : f.key % 2 ^ 32 ≠ beexError.toNat)
    (hdata : f.key % 2 ^ 32 ≠ beexData.toNat) :
    responseBody (count + 1) r (encodeAll (entryDocs (f :: fs)) ++ rest) =
      responseBody count (r.mark (f.key % 2 ^ 32)) (encodeAll (entryDocs fs) ++ rest) := by
  rw [encode_entries, responseBody]
  simp only [decodeUint_doc hwalk.key, toUint32, if_neg herror, if_neg hdata,
    hwalk.next (encodeAll (entryDocs fs) ++ rest), bind, Except.bind]

end Body

/-- The entries of a body have the types that the loop asks for. -/
def BodyTyped (fs : List Entry) : Prop :=
  (∀ f ∈ fs, f.key % 2 ^ 32 = beexError.toNat → ∃ w s, f.value = .str w s) ∧
    ∀ f ∈ fs, f.key % 2 ^ 32 = beexData.toNat → ∃ w ds, f.value = .array w ds

/-- What the loop over such a body fills in. -/
structure BodyTaken (fs : List Entry) (r r' : BeexResponse) : Prop where
  wideShift : r'.wideShift = (wide fs || r.wideShift)
  error : r'.error.isSome = ((valueAt32 beexError.toNat fs).isSome || r.error.isSome)
  code : r'.code = if (valueAt32 beexError.toNat fs).isSome then r.code &&& 0x7fff else r.code
  noData : valueAt32 beexData.toNat fs = none → r'.data = r.data
  lastData : ∀ d, valueAt32 beexData.toNat fs = some d →
    r'.dataLen = d.encode.length ∧ ∃ tail, r'.data = some (d.encode ++ tail)
  sync : r'.sync = r.sync
  dataLen : valueAt32 beexData.toNat fs = none → r'.dataLen = r.dataLen

theorem BodyTyped.tail {f : Entry} {fs : List Entry} (h : BodyTyped (f :: fs)) : BodyTyped fs :=
  ⟨fun f' hf' => h.1 f' (List.mem_cons_of_mem _ hf'), fun f' hf' => h.2 f' (List.mem_cons_of_mem _ hf')⟩

theorem valueAt32_cons (k : Nat) (f : Entry) (fs : List Entry) : valueAt32 k (f :: fs) =
    (valueAt32 k fs).or (if f.key % 2 ^ 32 = k then some f.value else none) := rfl

theorem wide_cons (f : Entry) (fs : List Entry) :
    wide (f :: fs) = (decide (64 ≤ f.key % 2 ^ 32) || wide fs) := rfl

theorem BodyTaken.cons_error {f : Entry} {fs : List Entry} {r r' : BeexResponse} {s : Bytes}
    (hkey : f.key % 2 ^ 32 = beexError.toNat) (h : BodyTaken fs (r.takeError s) r') :
    BodyTaken (f :: fs) r r' := by
  obtain ⟨hcode, herror, hdata⟩ :=
    mark_rest { r with error := some s, code := r.code &&& 0x7fff } beexError.toNat
  have hne : ¬ beexError.toNat = beexData.toNat := by decide
  refine ⟨?_, ?_, ?_, ?_, ?_, ?_, ?_⟩
  · rw [h.wideShift, BeexResponse.takeError, mark_wideShift, wide_cons, hkey]
    rfl
  · rw [h.error, BeexResponse.takeError, herror, valueAt32_cons, if_pos hkey]
    simp
  · rw [h.code, BeexResponse.takeError, hcode, valueAt32_cons, if_pos hkey]
    cases valueAt32 beexError.toNat fs <;> simp [UInt32.and_assoc]
  · intro hnone
    rw [valueAt32_cons, hkey, if_neg hne, Option.or_none] at hnone
    rw [h.noData hnone, BeexResponse.takeError, hdata]
  · intro d hsome
    rw [valueAt32_cons, hkey, if_neg hne, Option.or_none] at hsome
    exact h.lastData d hsome
  · rw [h.sync, BeexResponse.takeError, mark_sync]
  · intro hnone
    rw [valueAt32_cons, hkey, if_neg hne, Option.or_none] at hnone
    rw [h.dataLen hnone, BeexResponse.takeError, mark_dataLen]

theorem BodyTaken.cons_data {f : Entry} {fs : List Entry} {r r' : BeexResponse} {tail : Bytes}
    (hkey : f.key % 2 ^ 32 = beexData.toNat)
    (h : BodyTaken fs (r.takeData (f.value.encode ++ tail) f.value.encode.length) r') :
    BodyTaken (f :: fs) r r' := by
  obtain ⟨hcode, herror, hdata⟩ := mark_rest
    { r with data := some (f.value.encode ++ tail), dataLen := f.value.encode.length } beexData.toNat
  have hne : ¬ beexData.toNat = beexError.toNat := by decide
  refine ⟨?_, ?_, ?_, ?_, ?_, ?_, ?_⟩
  · rw [h.wideShift, BeexResponse.takeData, mark_wideShift, wide_cons, hkey]
    rfl
  · rw [h.error, BeexResponse.takeData, herror, valueAt32_cons, hkey, if_neg hne, Option.or_none]
  · rw [h.code, BeexResponse.takeData, hcode, valueAt32_cons, hkey, if_neg hne, Option.or_none]
  · intro hnone
    rw [valueAt32_cons, if_pos hkey, Option.or_eq_none_iff] at hnone
    cases hnone.2
  · intro d hsome
    rw [valueAt32_cons, if_pos hkey] at hsome
    cases hlast : valueAt32 beexData.toNat fs with
    | some d' =>
      rw [hlast] at hsome
      obtain rfl := Option.some.inj hsome
      exact h.lastData _ hlast
    | none =>
      rw [hlast] at hsome
      obtain rfl := Option.some.inj hsome
      refine ⟨?_, tail, ?_⟩
      · rw [h.dataLen hlast, BeexResponse.takeData, mark_dataLen]
      · rw [h.noData hlast, BeexResponse.takeData, hdata]
  · rw [h.sync, BeexResponse.takeData, mark_sync]
  · intro hnone
    rw [valueAt32_cons, if_pos hkey, Option.or_eq_none_iff] at hnone
    cases hnone.2

theorem BodyTaken.cons_skip {f : Entry} {fs : List Entry} {r r' : BeexResponse}
    (herror : f.key % 2 ^ 32 ≠ beexError.toNat) (hdata : f.key % 2 ^ 32 ≠ beexData.toNat)
    (h : BodyTaken fs (r.mark (f.key % 2 ^ 32)) r') : BodyTaken (f :: fs) r r' := by
  obtain ⟨hcode, herror', hdata'⟩ := mark_rest r (f.key % 2 ^ 32)
  have hlast (k : Nat) (hne : f.key % 2 ^ 32 ≠ k) : valueAt32 k (f :: fs) = valueAt32 k fs := by
    rw [valueAt32_cons, if_neg hne, Option.or_none]
  refine ⟨?_, ?_, ?_, ?_, ?_, ?_, ?_⟩
  · rw [h.wideShift, mark_wideShift, wide_cons]
    cases decide (64 ≤ f.key % 2 ^ 32) <;> simp
  · rw [h.error, herror', hlast _ herror]
  · rw [h.code, hcode, hlast _ herror]
  · intro hnone
    rw [hlast _ hdata] at hnone
    rw [h.noData hnone, hdata']
  · intro d hsome
    rw [hlast _ hdata] at hsome
    exact h.lastData d hsome
  · rw [h.sync, mark_sync]
  · intro hnone
    rw [hlast _ hdata] at hnone
    rw [h.dataLen hnone, mark_dataLen]

theorem responseBody_typed {fs : List Entry} (hwalk : Walkable fs) (htyped : BodyTyped fs)
    (r : BeexResponse) (rest : Bytes) :
    ∃ r', responseBody fs.length r (encodeAll (entryDocs fs) ++ rest) = .ok (r', some rest) ∧
      BodyTaken fs r r' := by
  induction fs generalizing r with
  | nil => exact ⟨r, rfl, rfl, rfl, rfl, fun _ => rfl, nofun, rfl, fun _ => rfl⟩
  | cons f fs ih =>
    have htail := ih hwalk.tail htyped.tail
    rw [List.length_cons]
    by_cases herror : f.key % 2 ^ 32 = beexError.toNat
    · obtain ⟨w, s, hvalue⟩ := htyped.1 f List.mem_cons_self herror
      obtain ⟨r', hrun, htaken⟩ := htail (r.takeError s)
      rw [responseBody_error hwalk _ r rest herror hvalue]
      exact ⟨r', hrun, htaken.cons_error herror⟩
    · by_cases hdata : f.key % 2 ^ 32 = beexData.toNat
      · obtain ⟨w, ds, hvalue⟩ := htyped.2 f List.mem_cons_self hdata
        obtain ⟨r', hrun, htaken⟩ := htail (r.takeData (f.value.encode ++
          (encodeAll (entryDocs fs) ++ rest)) f.value.encode.length)
        rw [responseBody_data hwalk _ r rest hdata hvalue]
        exact ⟨r', hrun, htaken.cons_data hdata⟩
      · obtain ⟨r', hrun, htaken⟩ := htail (r.mark (f.key % 2 ^ 32))
        rw [responseBody_skip hwalk _ r rest herror hdata]
        exact ⟨r', hrun, htaken.cons_skip herror hdata⟩

theorem responseBody_untyped {fs : List Entry} (hwalk : Walkable fs) (huntyped : ¬ BodyTyped fs)
    (r : BeexResponse) (rest : Bytes) :
    ∃ r', responseBody fs.length r (encodeAll (entryDocs fs) ++ rest) = .ok (r', none) := by
  induction fs generalizing r with
  | nil => exact absurd ⟨by simp, by simp⟩ huntyped
  | cons f fs ih =>
    have htail (hhead : (f.key % 2 ^ 32 = beexError.toNat → ∃ w s, f.value = .str w s) ∧
        (f.key % 2 ^ 32 = beexData.toNat → ∃ w ds, f.value = .array w ds)) := ih hwalk.tail
      fun htyped => huntyped ⟨List.forall_mem_cons.mpr ⟨hhead.1, htyped.1⟩,
        List.forall_mem_cons.mpr ⟨hhead.2, htyped.2⟩⟩
    rw [List.length_cons]
    by_cases herror : f.key % 2 ^ 32 = beexError.toNat
    · by_cases htext : ∃ w s, f.value = .str w s
      · obtain ⟨w, s, hvalue⟩ := htext
        rw [responseBody_error hwalk _ r rest herror hvalue]
        refine htail ⟨fun _ => ⟨w, s, hvalue⟩, fun hdata => ?_⟩ _
        rw [herror] at hdata
        exact absurd hdata (by decide)
      · exact ⟨r, responseBody_noText hwalk _ r rest herror fun w s h => htext ⟨w, s, h⟩⟩
    · by_cases hdata : f.key % 2 ^ 32 = beexData.toNat
      · by_cases harray : ∃ w ds, f.value = .array w ds
        · obtain ⟨w, ds, hvalue⟩ := harray
          rw [responseBody_data hwalk _ r rest hdata hvalue]
          exact htail ⟨fun h => absurd h herror, fun _ => ⟨w, ds, hvalue⟩⟩ _
        · exact ⟨r, responseBody_noArray hwalk _ r rest hdata fun w ds h => harray ⟨w, ds, h⟩⟩
      · rw [responseBody_skip hwalk _ r rest herror hdata]
        exact htail ⟨fun h => absurd h herror, fun h => absurd h hdata⟩ _

/-! ## php_tp_response -/

theorem entryDocs_length (fs : List Entry) : (entryDocs fs).length = 2 * fs.length := by
  rw [entryDocs, flatten_length, List.length_map]

/-- The entries of a map that is short enough to be walked over. -/
theorem walkable {w : SeqWidth} {fs : List Entry} (hwf : (Doc.map w (entryDocs fs)).WF)
    (hsize : (Doc.map w (entryDocs fs)).encode.length < 2 ^ 31) : Walkable fs where
  wf := hwf.2
  light := fun _ hd => by
    have hle := @Doc.peak_le_of_mem (.map w (entryDocs fs)) _ hd
    have hlight := light_of_length hsize
    simp only [Light] at hlight
    omega

/-- The front of a map in the memory. -/
theorem decodeMap_entries {w : SeqWidth} {fs : List Entry} (hwf : (Doc.map w (entryDocs fs)).WF)
    (rest : Bytes) : mpDecodeMap ((Doc.map w (entryDocs fs)).encode ++ rest) =
      .ok (fs.length, encodeAll (entryDocs fs) ++ rest) := by
  have hlen : (entryDocs fs).length / 2 = fs.length := by
    rw [entryDocs_length]
    omega
  have hbound : (entryDocs fs).length / 2 < w.bound := hwf.1.2
  rw [Doc.encode, List.append_assoc, hlen]
  rw [hlen] at hbound
  exact mpDecodeMap_reads hbound _

theorem MapResponse.payload_append (r : MapResponse) (more : Bytes) :
    r.payload ++ more = r.headerDoc.encode ++ (r.bodyDoc.encode ++ more) := List.append_assoc ..

theorem MapResponse.header_size {r : MapResponse} (hsize : r.payload.length < 2 ^ 31) :
    r.headerDoc.encode.length < 2 ^ 31 ∧ r.bodyDoc.encode.length < 2 ^ 31 := by
  rw [MapResponse.payload, List.length_append] at hsize
  omega

/-- The values of the header are numbers, and the entries of the body have their types. -/
def MapResponse.Readable (r : MapResponse) : Prop :=
  (∀ f ∈ r.header, ∃ w n, f.value = .uint w n) ∧ BodyTyped r.body

/-- What `php_tp_response` returns for a response it gets through. -/
structure Filled (r : MapResponse) (response : BeexResponse) : Prop where
  wideShift : response.wideShift = (wide r.header || wide r.body)
  error : response.error.isSome = (valueAt32 beexError.toNat r.body).isSome
  code : ∀ w n, valueAt32 beexCode.toNat r.header = some (.uint w n) → response.code =
    if (valueAt32 beexError.toNat r.body).isSome then UInt32.ofNat n &&& 0x7fff else UInt32.ofNat n
  noData : valueAt32 beexData.toNat r.body = none → response.data = none
  lastData : ∀ d, valueAt32 beexData.toNat r.body = some d →
    ∃ tail, response.data = some (d.encode ++ tail)

section Maps

variable {hw bw : SeqWidth} {header body : List Entry} (hheader : (Doc.map hw (entryDocs header)).WF)
  (hbody : (Doc.map bw (entryDocs body)).WF)
include hheader hbody

/-- Once the loop over the header is done, the one over the body decides. -/
theorem phpTpResponse_header (more : Bytes) {r₁ : BeexResponse}
    (hrun : responseHeader header.length .zero
      (encodeAll (entryDocs header) ++ ((Doc.map bw (entryDocs body)).encode ++ more)) =
        .ok (r₁, some ((Doc.map bw (entryDocs body)).encode ++ more))) :
    phpTpResponse ((Doc.map hw (entryDocs header)).encode ++
        ((Doc.map bw (entryDocs body)).encode ++ more)) =
      responseBody body.length r₁ (encodeAll (entryDocs body) ++ more) := by
  have htype : typeAt ((Doc.map hw (entryDocs header)).encode ++
      ((Doc.map bw (entryDocs body)).encode ++ more)) = .ok .map :=
    typeAt_doc ((Doc.wf_iff _).mp hheader).1 _
  have htype' : typeAt ((Doc.map bw (entryDocs body)).encode ++ more) = .ok .map :=
    typeAt_doc ((Doc.wf_iff _).mp hbody).1 _
  rw [phpTpResponse]
  simp only [htype, decodeMap_entries hheader, hrun, htype', decodeMap_entries hbody, bind, Except.bind]
  rfl

/-- A response of two maps that have the types they are to have is read to its end. -/
theorem phpTpResponse_taken (hlen : (Doc.map hw (entryDocs header)).encode.length < 2 ^ 31)
    (hlen' : (Doc.map bw (entryDocs body)).encode.length < 2 ^ 31)
    (hnumbers : ∀ f ∈ header, ∃ w n, f.value = .uint w n) (htyped : BodyTyped body) (more : Bytes) :
    ∃ r₁ r₂, phpTpResponse ((Doc.map hw (entryDocs header)).encode ++
        ((Doc.map bw (entryDocs body)).encode ++ more)) = .ok (r₂, some more) ∧
      HeaderTaken header .zero r₁ ∧ BodyTaken body r₁ r₂ := by
  obtain ⟨r₁, hrun₁, htaken₁⟩ := responseHeader_numbers (walkable hheader hlen) hnumbers .zero
    ((Doc.map bw (entryDocs body)).encode ++ more)
  obtain ⟨r₂, hrun₂, htaken₂⟩ := responseBody_typed (walkable hbody hlen') htyped r₁ more
  refine ⟨r₁, r₂, ?_, htaken₁, htaken₂⟩
  rw [phpTpResponse_header hheader hbody more hrun₁, hrun₂]

end Maps

section Payload

variable {r : MapResponse}

theorem phpTpResponse_typed (hsize : r.payload.length < 2 ^ 31) (hread : r.Readable) (more : Bytes) :
    ∃ response, phpTpResponse (r.payload ++ more) = .ok (response, some more) ∧ Filled r response := by
  obtain ⟨hheader, hbody⟩ := r.header_size hsize
  obtain ⟨r₁, r₂, hrun, htaken₁, htaken₂⟩ :=
    phpTpResponse_taken r.header_wf r.body_wf hheader hbody hread.1 hread.2 more
  refine ⟨r₂, ?_, ?_, ?_, ?_, ?_, fun d hd => (htaken₂.lastData d hd).2⟩
  · rw [r.payload_append]
    exact hrun
  · rw [htaken₂.wideShift, htaken₁.wideShift]
    simp [BeexResponse.zero, Bool.or_comm]
  · rw [htaken₂.error, htaken₁.error]
    simp [BeexResponse.zero]
  · intro w n hcode
    rw [htaken₂.code, htaken₁.code w n hcode]
  · intro hnone
    rw [htaken₂.noData hnone, htaken₁.data]
    rfl

theorem phpTpResponse_untyped (hsize : r.payload.length < 2 ^ 31) (hread : ¬ r.Readable)
    (more : Bytes) :
    ∃ response, phpTpResponse (r.payload ++ more) = .ok (response, none) := by
  obtain ⟨hheader, hbody⟩ := r.header_size hsize
  by_cases hnumbers : ∀ f ∈ r.header, ∃ w n, f.value = .uint w n
  · obtain ⟨r₁, hrun₁, -⟩ := responseHeader_numbers (walkable r.header_wf hheader) hnumbers .zero
      (r.bodyDoc.encode ++ more)
    obtain ⟨r₂, hrun₂⟩ := responseBody_untyped (walkable r.body_wf hbody)
      (fun hbody => hread ⟨hnumbers, hbody⟩) r₁ more
    refine ⟨r₂, ?_⟩
    rw [r.payload_append]
    exact (phpTpResponse_header r.header_wf r.body_wf more hrun₁).trans hrun₂
  · push Not at hnumbers
    obtain ⟨r₁, hrun₁⟩ := responseHeader_untyped (walkable r.header_wf hheader) hnumbers .zero
      (r.bodyDoc.encode ++ more)
    have htype : typeAt (r.headerDoc.encode ++ (r.bodyDoc.encode ++ more)) = .ok .map :=
      typeAt_doc (r.headerDoc.wf_iff.mp r.header_wf).1 _
    have hdecode : mpDecodeMap (r.headerDoc.encode ++ (r.bodyDoc.encode ++ more)) =
        .ok (r.header.length, encodeAll (entryDocs r.header) ++ (r.bodyDoc.encode ++ more)) :=
      decodeMap_entries r.header_wf _
    refine ⟨r₁, ?_⟩
    rw [r.payload_append, phpTpResponse]
    simp only [htype, hdecode, hrun₁, bind, Except.bind]
    rfl

end Payload

/-! ## bee_step_recv -/

theorem integerKeys {w : SeqWidth} {fs : List Entry} (hwf : (Doc.map w (entryDocs fs)).WF) :
    IntegerKeys (fs.map fun f => (.uint f.width f.key, f.value)) := by
  intro p hp
  obtain ⟨f, hf, rfl⟩ := List.mem_map.mp hp
  have hkey : (Doc.uint f.width f.key).WF := (allWF_iff _).mp hwf.2 _
    (mem_flatten.mpr ⟨_, hp, .inl rfl⟩)
  exact ⟨f.key, rfl, integerOf_bounds hkey rfl⟩

theorem valueAt_none {k : Nat} {fs : List Entry} (h : valueAt k fs = none) : ∀ f ∈ fs, f.key ≠ k := by
  induction fs with
  | nil =>
    intro f hf
    cases hf
  | cons f fs ih =>
    rw [valueAt] at h
    split at h
    case isTrue => cases h
    case isFalse hkey => exact List.forall_mem_cons.mpr ⟨hkey, ih h⟩

theorem valueAt_some {k : Nat} {fs : List Entry} {d : Doc} (h : valueAt k fs = some d) :
    ∃ f ∈ fs, f.key = k ∧ f.value = d := by
  induction fs with
  | nil => cases h
  | cons f fs ih =>
    rw [valueAt] at h
    split at h
    case isTrue hkey => exact ⟨f, List.mem_cons_self, hkey, Option.some.inj h⟩
    case isFalse =>
      obtain ⟨f', hf', hd⟩ := ih h
      exact ⟨f', List.mem_cons_of_mem _ hf', hd⟩

/-- What `zend_hash_index_find` finds in the array of a map. -/
theorem indexFind_entries {ndebug : Bool} {w : SeqWidth} {fs : List Entry}
    (hwf : (Doc.map w (entryDocs fs)).WF) (hdistinct : (fs.map Entry.key).Nodup) {t : Table PVal}
    (hrun : pairsToPhp ndebug (entryDocs fs) .empty = .ok t) (h : UInt32) :
    indexFind t.entries h = (valueAt h.toNat fs).bind fun d => (docToPhp ndebug d).toOption := by
  cases hvalue : valueAt h.toNat fs with
  | none =>
    have hnone : ∀ p ∈ fs.map fun f => (Doc.uint f.width f.key, f.value),
        integerOf p.1 ≠ some (h.toNat : Int) := by
      intro p hp heq
      obtain ⟨f, hf, rfl⟩ := List.mem_map.mp hp
      exact valueAt_none hvalue f hf (by exact_mod_cast Option.some.inj heq)
    have hlookup := lookup_pairs_none (integerKeys hwf) hnone hrun
    exact hlookup
  | some d =>
    obtain ⟨f, hf, hkey, rfl⟩ := valueAt_some hvalue
    have hdistinct' : ((fs.map fun f => (Doc.uint f.width f.key, f.value)).map
        fun p => integerOf p.1).Nodup := by
      have hmap : (fs.map fun f => (Doc.uint f.width f.key, f.value)).map (fun p => integerOf p.1) =
          (fs.map Entry.key).map fun k : Nat => some (k : Int) := by
        rw [List.map_map, List.map_map]
        rfl
      rw [hmap]
      exact hdistinct.map fun a b hab => by simpa using hab
    obtain ⟨value, hval, hlookup⟩ := lookup_pairs_some (integerKeys hwf) hdistinct'
      (List.mem_map_of_mem hf) (h := h) (by simp [integerOf, hkey]) hrun
    rw [Option.bind_some, hval]
    exact hlookup

theorem mask32 (n : Nat) : (UInt32.ofNat n &&& 0x7fff).toNat = n % 2 ^ 15 := by
  rw [UInt32.toNat_and, UInt32.toNat_ofNat', show (0x7fff : UInt32).toNat = 2 ^ 15 - 1 from rfl,
    Nat.and_two_pow_sub_one_eq_mod]
  omega

theorem mask64 (n : Nat) : (Int64.ofNat n &&& 0x7fff).toInt = (n % 2 ^ 15 : Nat) := by
  have hnat : (Int64.ofNat n &&& 0x7fff).toBitVec.toNat = n % 2 ^ 15 := by
    rw [Int64.toBitVec_and, BitVec.toNat_and,
      show (0x7fff : Int64).toBitVec.toNat = 2 ^ 15 - 1 from rfl, Nat.and_two_pow_sub_one_eq_mod]
    show (BitVec.ofNat 64 n).toNat % 2 ^ 15 = _
    rw [BitVec.toNat_ofNat]
    omega
  rw [← Int64.toInt_toBitVec, BitVec.toInt_eq_toNat_of_lt (by omega), hnat]

theorem ofNat_eq_zero {n : Nat} (h : n < 2 ^ 64) : Int64.ofNat n = 0 ↔ n = 0 := by
  constructor
  · intro heq
    have hnat := congrArg (fun x : Int64 => x.toBitVec.toNat) heq
    change (BitVec.ofNat 64 n).toNat = 0 at hnat
    rw [BitVec.toNat_ofNat] at hnat
    omega
  · rintro rfl
    rfl

/-- The number in an entry fits an `unsigned long`. -/
theorem number_lt {w : SeqWidth} {fs : List Entry} (hwf : (Doc.map w (entryDocs fs)).WF) {k n : Nat}
    {w' : IntWidth} (h : valueAt k fs = some (.uint w' n)) : n < 2 ^ 64 := by
  obtain ⟨f, hf, -, hvalue⟩ := valueAt_some h
  have hfits : (Doc.uint w' n).WF := (allWF_iff _).mp hwf.2 _
    (mem_flatten.mpr ⟨_, List.mem_map_of_mem hf, .inr hvalue.symm⟩)
  have hbounds := integerOf_bounds hfits rfl
  omega

section Decode

variable {P : Platform} {sync : UInt64} {bodySize : Nat} {w : World} {header body : Doc} {left : Bytes}
  (hc : w.obj.value.c = header.encode ++ (body.encode ++ left)) (hheader : header.WF)
  (hbody : body.WF) (hsize : bodySize < 2 ^ 31)
  (hfit : header.encode.length + body.encode.length ≤ bodySize) {entries : List (Key × PVal)}
  {next : UInt64} (hh : docToPhp P.ndebug header = .ok (.arr entries next))
include hc hheader hbody hsize hfit hh

/-- A header that PHP can hold is decoded, and then the body. -/
theorem stepDecode_pair {x : Except Halt PVal} (hx : docToPhp P.ndebug body = x) :
    stepDecode checkStatus P sync bodySize w =
      x.casesOn (fun h => unpackFailed h stepError w) fun b => stepFinish P sync entries next b w := by
  have hcheck := checkStatus_accepting header (body.encode ++ left) bodySize hheader (by omega) hsize
  have hcheck' := checkStatus_accepting body left bodySize hbody (by omega) hsize
  have hunpack : phpMpUnpack P.ndebug (header.encode ++ (body.encode ++ left)) =
      .ok (.arr entries next, body.encode ++ left) := (phpMpUnpack_doc hheader).mpr ⟨hh, rfl⟩
  have hunpack' := @phpMpUnpack_runs P.ndebug _ hbody left
  rw [stepDecode, run_bind (getObj_run w), hc, run_bind (run_lift hcheck w), if_neg (by simp), hunpack]
  dsimp only
  rw [run_bind (run_lift hcheck' w), if_neg (by simp), hunpack', hx]
  cases x <;> rfl

end Decode

section Finish

variable {P : Platform} {r : MapResponse} {tH tB : Table PVal} (w : World)
  (hH : pairsToPhp P.ndebug (entryDocs r.header) .empty = .ok tH)
  (hB : pairsToPhp P.ndebug (entryDocs r.body) .empty = .ok tB)
include hH

theorem indexFind_code : indexFind tH.entries beexCode = some (.long (Int64.ofNat r.code)) := by
  obtain ⟨w, hcode⟩ := r.code_entry
  rw [indexFind_entries r.header_wf r.header_distinct hH, hcode]
  rfl

theorem indexFind_sync : indexFind tH.entries beexSync = some (.long (Int64.ofNat r.sync)) := by
  obtain ⟨w, hsync⟩ := r.sync_entry
  rw [indexFind_entries r.header_wf r.header_distinct hH, hsync]
  rfl

/-- With the code 0 the response is returned. -/
theorem stepFinish_zero (hcode : r.code = 0) (next : UInt64) (body : PVal) :
    stepFinish P (UInt64.ofNat r.sync) tH.entries next body w =
      .ok (some (.arr tH.entries next, body), w.cleared) := by
  refine stepFinish_run ⟨?_, ?_⟩ next body w
  · intro val hval
    rw [indexFind_sync hH] at hval
    cases hval
    rfl
  · exact ⟨_, indexFind_code hH, by rw [hcode]; rfl⟩

/-- With another code it is an error. -/
theorem stepFinish_code (hcode : r.code ≠ 0) (next : UInt64) (body : PVal) :
    stepFinish P (UInt64.ofNat r.sync) tH.entries next body w =
      stepQueryError P (.long (Int64.ofNat r.code)) body w := by
  obtain ⟨w', hentry⟩ := r.code_entry
  have hne : ¬ zLval P (.long (Int64.ofNat r.code)) = 0 := fun h =>
    hcode ((ofNat_eq_zero (number_lt r.header_wf hentry)).mp h)
  have hmatch : ((indexFind tH.entries beexSync).any fun val =>
      (zLval P val).toUInt64 != UInt64.ofNat r.sync) = false := by
    rw [indexFind_sync hH]
    exact bne_self_eq_false _
  unfold stepFinish
  rw [hmatch, indexFind_code hH]
  simp only [Bool.false_eq_true, if_false, if_neg hne]

end Finish

theorem throwExc_run (format : String) (args : List MsgArg) (w : World) : throwExc format args w =
    .ok ((), { w with exceptions := w.exceptions ++ [⟨format, args⟩] }) := rfl

theorem stepError_run (w : World) : stepError w = .ok (none, w.cleared) := run_bind (resetValue_run w)

/-- An error text is thrown with the code. -/
theorem stepQueryError_text {P : Platform} {code : Nat} {entries : List (Key × PVal)} {next : UInt64}
    {text : Bytes} (h : indexFind entries beexError = some (.str text)) (w : World) :
    stepQueryError P (.long (Int64.ofNat code)) (.arr entries next) w = .ok (none, World.cleared
      { w with exceptions := w.exceptions ++
          [⟨queryErrorFormat, [.d (code % 2 ^ 15 : Nat), .s (cString text)]⟩] }) := by
  have hmask : (zLval P (.long (Int64.ofNat code)) &&& 0x7fff).toInt = (code % 2 ^ 15 : Nat) :=
    mask64 code
  simp only [stepQueryError, h]
  rw [hmask, run_bind (throwExc_run _ _ w)]
  exact stepError_run _

/-- Without a text there is a null pointer. -/
theorem stepQueryError_noText {P : Platform} {code : PVal} {entries : List (Key × PVal)}
    {next : UInt64} (h : indexFind entries beexError = none) (w : World) :
    stepQueryError P code (.arr entries next) w = .error .nullDeref := by
  simp only [stepQueryError, h]
  rfl

/-! ## Verdicts -/

section Verdicts

variable {P : Platform} {r : MapResponse} {w w' : World}
  (hreceives : Receives checkStatus w r.payload w') (hlen : w.obj.value.len = 0)
include hreceives

theorem Receives.size_lt : r.payload.length < 2 ^ 31 := by
  obtain ⟨packLen, w₁, rest, stream, hlength, -, hsize, hstream, hbody⟩ := hreceives
  obtain ⟨stream₀, hstream₀⟩ := readLength_stream hlength
  obtain ⟨ls, w₂, hdel, hread⟩ := readLength_delivers .length hstream₀
  obtain ⟨heq, rfl⟩ := Prod.mk.inj (Except.ok.inj (hlength.symm.trans hread))
  obtain ⟨hls, rfl⟩ := Prod.mk.inj heq
  have hpack := phpMpUnpackPackageSize_lt (by simp; omega) hsize
  obtain ⟨bs, value, w₂, hdel', hwrite, hread'⟩ := readBody_delivers r.payload.length hstream
  obtain ⟨heq, -⟩ := Prod.mk.inj (Except.ok.inj (hbody.symm.trans hread'))
  have hbs := eq_of_toSize_toInt hdel'.le hpack heq.symm
  rw [hbs] at heq
  unfold toSize toInt at heq
  rw [Int.bmod_def] at heq
  split at heq <;> omega

include hlen

/-- `bee_step_recv` on a response whose header PHP can hold. -/
theorem beeStepRecv_pair (hnumbers : ∀ f ∈ r.header, ∃ w n, f.value = .uint w n) :
    ∃ (tH : Table PVal) (w₁ : World), pairsToPhp P.ndebug (entryDocs r.header) .empty = .ok tH ∧
      w₁.exceptions = w.exceptions ∧ ∀ x, docToPhp P.ndebug r.bodyDoc = x →
        beeStepRecv P (UInt64.ofNat r.sync) w = x.casesOn (fun h => unpackFailed h stepError w₁)
          fun b => stepFinish P (UInt64.ofNat r.sync) tH.entries tH.nNextFreeElement b w₁ := by
  have hplain : Plain r.headerDoc := by
    rw [MapResponse.headerDoc, Plain, entryDocs, pairsPlain_iff]
    intro p hp
    obtain ⟨f, hf, rfl⟩ := List.mem_map.mp hp
    obtain ⟨w, n, hvalue⟩ := hnumbers f hf
    exact ⟨rfl, by rw [hvalue]; trivial⟩
  have hsigned : SignedNegative r.headerDoc := by
    rw [MapResponse.headerDoc, SignedNegative, allSignedNegative_iff]
    intro d hd
    obtain ⟨p, hp, hd⟩ := mem_flatten.mp hd
    obtain ⟨f, hf, rfl⟩ := List.mem_map.mp hp
    obtain ⟨w, n, hvalue⟩ := hnumbers f hf
    rcases hd with rfl | rfl
    · trivial
    · rw [hvalue]
      trivial
  obtain ⟨v, hv⟩ := (@docToPhp_ok_iff P.ndebug _ r.header_wf).mpr ⟨hplain, .inr hsigned⟩
  obtain ⟨tH, hH, rfl⟩ := header_toPhp hv
  obtain ⟨w₁, hc, -, hexc, hrun⟩ := hreceives.decodes hlen P (UInt64.ofNat r.sync)
  refine ⟨tH, w₁, hH, hexc, fun x hx => ?_⟩
  rw [r.payload_append] at hc
  rw [beeStepRecv, hrun]
  exact stepDecode_pair hc r.header_wf r.body_wf hreceives.size_lt (by simp [MapResponse.payload]) hv hx

section Numbers

variable (hnumbers : ∀ f ∈ r.header, ∃ w n, f.value = .uint w n)
include hnumbers

/-- The verdict on a response with the code 0. -/
theorem recv_data {b : PVal} (hb : docToPhp P.ndebug r.bodyDoc = .ok b) (hcode : r.code = 0) :
    ∃ recv, beeStepRecv P (UInt64.ofNat r.sync) w = .ok recv ∧
      recvVerdict w recv = some (.data ((valueAt beexData.toNat r.body).bind fun d =>
        (docToPhp P.ndebug d).toOption)) := by
  obtain ⟨tH, w₁, hH, -, hrun⟩ := @beeStepRecv_pair P r w w' hreceives hlen hnumbers
  obtain ⟨tB, hB, rfl⟩ := header_toPhp hb
  refine ⟨_, (hrun _ hb).trans (stepFinish_zero w₁ hH hcode _ _), ?_⟩
  simp only [recvVerdict, indexFind_entries r.body_wf r.body_distinct hB]

/-- The verdict on a response with another code and an error text. -/
theorem recv_error {b : PVal} (hb : docToPhp P.ndebug r.bodyDoc = .ok b) (hcode : r.code ≠ 0)
    {d : Doc} {text : Bytes} (herror : valueAt beexError.toNat r.body = some d)
    (htext : docToPhp P.ndebug d = .ok (.str text)) :
    ∃ recv, beeStepRecv P (UInt64.ofNat r.sync) w = .ok recv ∧
      recvVerdict w recv = some (.error (r.code % 2 ^ 15 : Nat)) := by
  obtain ⟨tH, w₁, hH, hexc, hrun⟩ := @beeStepRecv_pair P r w w' hreceives hlen hnumbers
  obtain ⟨tB, hB, rfl⟩ := header_toPhp hb
  have hfind : indexFind tB.entries beexError = some (.str text) := by
    rw [indexFind_entries r.body_wf r.body_distinct hB, herror, Option.bind_some, htext]
    rfl
  refine ⟨_, (hrun _ hb).trans ((stepFinish_code w₁ hH hcode _ _).trans
    (stepQueryError_text hfind w₁)), ?_⟩
  simp [recvVerdict, World.cleared, World.withValue, hexc]

/-- Without a text there is none. -/
theorem recv_noText {b : PVal} (hb : docToPhp P.ndebug r.bodyDoc = .ok b) (hcode : r.code ≠ 0)
    (herror : valueAt beexError.toNat r.body = none) :
    beeStepRecv P (UInt64.ofNat r.sync) w = .error .nullDeref := by
  obtain ⟨tH, w₁, hH, -, hrun⟩ := @beeStepRecv_pair P r w w' hreceives hlen hnumbers
  obtain ⟨tB, hB, rfl⟩ := header_toPhp hb
  have hfind : indexFind tB.entries beexError = none := by
    rw [indexFind_entries r.body_wf r.body_distinct hB, herror, Option.bind_none]
  exact (hrun _ hb).trans ((stepFinish_code w₁ hH hcode _ _).trans (stepQueryError_noText hfind w₁))

/-- A body that PHP cannot hold gives no verdict. -/
theorem recv_unsigned {h : Halt} (hb : docToPhp P.ndebug r.bodyDoc = .error h)
    {recv : Option (PVal × PVal) × World}
    (hrecv : beeStepRecv P (UInt64.ofNat r.sync) w = .ok recv) : recvVerdict w recv = none := by
  obtain ⟨tH, w₁, -, hexc, hrun⟩ := @beeStepRecv_pair P r w w' hreceives hlen hnumbers
  rw [hrun _ hb] at hrecv
  cases h with
  | fault f => cases hrecv
  | failure thrown =>
    cases thrown with
    | none =>
      obtain rfl := Except.ok.inj (hrecv.symm.trans (stepError_run w₁))
      simp [recvVerdict, World.cleared, World.withValue, hexc]
    | some text =>
      have hstop : unpackFailed (.failure (some text)) stepError w₁ = .ok (none, World.cleared
          { w₁ with exceptions := w₁.exceptions ++ [⟨text, []⟩] }) :=
        (run_bind (throwExc_run text [] w₁)).trans (stepError_run _)
      obtain rfl := Except.ok.inj (hrecv.symm.trans hstop)
      simp [recvVerdict, World.cleared, World.withValue, hexc]

end Numbers

end Verdicts

section Filled

variable {ndebug : Bool} {r : MapResponse} {response : BeexResponse} (h : Filled r response)
  (more : Bytes)
include h

theorem verdict_wide (hwide : (wide r.header || wide r.body) = true) :
    responseVerdict ndebug (response, some more) = none := by
  simp only [responseVerdict, h.wideShift, hwide, if_true]

theorem verdict_error (hwide : (wide r.header || wide r.body) = false)
    (herror : (valueAt32 beexError.toNat r.body).isSome) :
    responseVerdict ndebug (response, some more) = some (.error response.code.toNat) := by
  rw [← h.error] at herror
  simp only [responseVerdict, h.wideShift, hwide, Bool.false_eq_true, if_false, herror, if_true]

theorem verdict_none (hwide : (wide r.header || wide r.body) = false)
    (herror : valueAt32 beexError.toNat r.body = none)
    (hdata : valueAt32 beexData.toNat r.body = none) :
    responseVerdict ndebug (response, some more) = some (.data none) := by
  have hisSome : ¬ response.error.isSome = true := by
    rw [h.error, herror]
    exact Bool.false_ne_true
  simp only [responseVerdict, h.wideShift, hwide, Bool.false_eq_true, if_false, if_neg hisSome,
    h.noData hdata]

theorem verdict_data (hwide : (wide r.header || wide r.body) = false)
    (herror : valueAt32 beexError.toNat r.body = none) {d : Doc} (hwf : d.WF)
    (hdata : valueAt32 beexData.toNat r.body = some d) {v : PVal} (hv : docToPhp ndebug d = .ok v) :
    responseVerdict ndebug (response, some more) = some (.data (some v)) := by
  have hisSome : ¬ response.error.isSome = true := by
    rw [h.error, herror]
    exact Bool.false_ne_true
  obtain ⟨tail, htail⟩ := h.lastData d hdata
  have hunpack : phpMpUnpack ndebug (d.encode ++ tail) = .ok (v, tail) :=
    (phpMpUnpack_doc hwf).mpr ⟨hv, rfl⟩
  simp only [responseVerdict, h.wideShift, hwide, Bool.false_eq_true, if_false, if_neg hisSome, htail,
    hunpack]

end Filled

/-! ## Agreement -/

theorem valueAt32_some {k : Nat} {fs : List Entry} {d : Doc} (h : valueAt32 k fs = some d) :
    ∃ f ∈ fs, f.key % 2 ^ 32 = k ∧ f.value = d := by
  induction fs with
  | nil => cases h
  | cons f fs ih =>
    rw [valueAt32_cons] at h
    cases hlast : valueAt32 k fs with
    | some d' =>
      rw [hlast] at h
      obtain ⟨f', hf', hvalue⟩ := ih (hlast.trans h)
      exact ⟨f', List.mem_cons_of_mem _ hf', hvalue⟩
    | none =>
      rw [hlast, Option.none_or] at h
      split at h
      case isTrue hkey => exact ⟨f, List.mem_cons_self, hkey, Option.some.inj h⟩
      case isFalse => cases h

/-- A key below 2^32 is not lost when the keys are cut. -/
theorem valueAt32_of_valueAt {k : Nat} (hk : k < 2 ^ 32) {fs : List Entry} {d : Doc}
    (h : valueAt k fs = some d) : ∃ d', valueAt32 k fs = some d' := by
  induction fs with
  | nil => cases h
  | cons f fs ih =>
    rw [valueAt32_cons]
    rw [valueAt] at h
    split at h
    case isTrue hkey =>
      rw [if_pos (by omega)]
      cases valueAt32 k fs with
      | none => exact ⟨_, rfl⟩
      | some d' => exact ⟨_, rfl⟩
    case isFalse =>
      obtain ⟨d', hd'⟩ := ih h
      exact ⟨d', by rw [hd']; rfl⟩

theorem wide_eq_false {fs : List Entry} : wide fs = false ↔ ∀ f ∈ fs, f.key % 2 ^ 32 < 64 := by
  simp [wide]

/-- The entries of a body that PHP can hold are values of PHP. -/
theorem entry_toPhp {ndebug : Bool} {w : SeqWidth} {fs : List Entry} {b : PVal}
    (hb : docToPhp ndebug (.map w (entryDocs fs)) = .ok b) {f : Entry} (hf : f ∈ fs) :
    ∃ v, docToPhp ndebug f.value = .ok v := by
  obtain ⟨t, hrun, -⟩ := header_toPhp hb
  exact ((pairsToPhp_ok_iff _ _).mp ⟨t, hrun⟩ _ (List.mem_map_of_mem hf)).2.2

theorem MapResponse.entry_wf (r : MapResponse) {f : Entry} (hf : f ∈ r.body) : f.value.WF :=
  (allWF_iff _).mp r.body_wf.2 _ (mem_flatten.mpr ⟨_, List.mem_map_of_mem hf, .inr rfl⟩)

/-- The error text of a readable response is a string of PHP. -/
theorem MapResponse.Readable.text {r : MapResponse} (h : r.Readable) {ndebug : Bool} {d : Doc}
    (herror : valueAt beexError.toNat r.body = some d) :
    ∃ text, docToPhp ndebug d = .ok (.str text) := by
  obtain ⟨f, hf, hkey, rfl⟩ := valueAt_some herror
  have hlow : f.key % 2 ^ 32 = beexError.toNat := by
    rw [hkey]
    decide
  obtain ⟨w, s, hvalue⟩ := h.2.1 f hf hlow
  exact ⟨s, by rw [hvalue]; rfl⟩

/-- Called where it receives a response, `bee_step_recv` comes to the verdict of `php_tp_response`
exactly when the response is `Alike` to them. -/
theorem parsers_agree {P : Platform} {r : MapResponse} {w w' : World}
    (hreceives : Receives checkStatus w r.payload w') (hlen : w.obj.value.len = 0) (more : Bytes) :
    ParsersAgree P (UInt64.ofNat r.sync) w (r.payload ++ more) ↔ r.Alike P.ndebug := by
  have hsize : r.payload.length < 2 ^ 31 := @Receives.size_lt r w w' hreceives
  constructor
  · rintro ⟨recv, result, verdict, hrecv, hresult, hverdict, hverdict'⟩
    have hread : r.Readable := by
      by_contra hread
      obtain ⟨response, hrun⟩ := phpTpResponse_untyped hsize hread more
      obtain rfl := Except.ok.inj (hresult.symm.trans hrun)
      cases hverdict'
    obtain ⟨response, hrun, hfilled⟩ := phpTpResponse_typed hsize hread more
    obtain rfl := Except.ok.inj (hresult.symm.trans hrun)
    have hwide : (wide r.header || wide r.body) = false := by
      by_contra hwide
      rw [verdict_wide hfilled more (by simpa only [Bool.not_eq_false] using hwide)] at hverdict'
      cases hverdict'
    obtain ⟨hheader, hbody⟩ := Bool.or_eq_false_iff.mp hwide
    obtain ⟨b, hb⟩ : ∃ b, docToPhp P.ndebug r.bodyDoc = .ok b := by
      cases hb : docToPhp P.ndebug r.bodyDoc with
      | ok b => exact ⟨b, rfl⟩
      | error h =>
        rw [recv_unsigned hreceives hlen hread.1 hb hrecv] at hverdict
        cases hverdict
    obtain ⟨hplain, hsigned⟩ := (docToPhp_ok_iff _ r.body_wf).mp ⟨b, hb⟩
    refine ⟨⟨hread.1, wide_eq_false.mp hheader, wide_eq_false.mp hbody, hread.2.1, hread.2.2⟩,
      hplain, hsigned, ?_, ?_⟩
    · intro hcode
      obtain ⟨recv', hrecv', hdata⟩ := recv_data hreceives hlen hread.1 hb hcode
      obtain rfl := Except.ok.inj (hrecv.symm.trans hrecv')
      obtain rfl := Option.some.inj (hverdict.symm.trans hdata)
      have herror : valueAt32 beexError.toNat r.body = none := by
        cases herror : valueAt32 beexError.toNat r.body with
        | none => rfl
        | some d =>
          rw [verdict_error hfilled more hwide (by rw [herror]; rfl)] at hverdict'
          cases hverdict'
      refine ⟨herror, fun d hd => ?_⟩
      obtain ⟨f, hf, -, rfl⟩ := valueAt32_some hd
      obtain ⟨v, hv⟩ := entry_toPhp hb hf
      rw [verdict_data hfilled more hwide herror (r.entry_wf hf) hd hv] at hverdict'
      obtain ⟨d', hd', hv'⟩ := Option.bind_eq_some_iff.mp (Verdict.data.inj
        (Option.some.inj hverdict')).symm
      refine ⟨d', hd', ?_⟩
      rw [hv]
      cases hx : docToPhp P.ndebug d' with
      | error e => simp [hx, Except.toOption] at hv'
      | ok v' => simpa [hx, Except.toOption] using hv'
    · intro hcode
      cases herror : valueAt beexError.toNat r.body with
      | none =>
        rw [recv_noText hreceives hlen hread.1 hb hcode herror] at hrecv
        cases hrecv
      | some d =>
        obtain ⟨text, htext⟩ := hread.text herror
        obtain ⟨recv', hrecv', hrefused⟩ := recv_error hreceives hlen hread.1 hb hcode herror htext
        obtain rfl := Except.ok.inj (hrecv.symm.trans hrecv')
        obtain rfl := Option.some.inj (hverdict.symm.trans hrefused)
        obtain ⟨d', hd'⟩ := valueAt32_of_valueAt (by decide) herror
        have hisSome : (valueAt32 beexError.toNat r.body).isSome := by rw [hd']; rfl
        rw [verdict_error hfilled more hwide hisSome] at hverdict'
        refine ⟨rfl, fun w n hn => ?_⟩
        have heq := Verdict.error.inj (Option.some.inj hverdict')
        rw [hfilled.code w n hn, if_pos hisSome, mask32] at heq
        exact_mod_cast heq
  · intro halike
    have hread : r.Readable := ⟨halike.numbers, halike.error, halike.data⟩
    obtain ⟨response, hrun, hfilled⟩ := phpTpResponse_typed hsize hread more
    have hwide : (wide r.header || wide r.body) = false := Bool.or_eq_false_iff.mpr
      ⟨wide_eq_false.mpr halike.header_keys, wide_eq_false.mpr halike.body_keys⟩
    obtain ⟨b, hb⟩ := (docToPhp_ok_iff _ r.body_wf).mpr ⟨halike.plain, halike.signed⟩
    by_cases hcode : r.code = 0
    · obtain ⟨herror, hdata⟩ := halike.ok hcode
      obtain ⟨recv, hrecv, hverdict⟩ := recv_data hreceives hlen halike.numbers hb hcode
      refine ⟨recv, _, _, hrecv, hrun, hverdict, ?_⟩
      cases hlast : valueAt32 beexData.toNat r.body with
      | none =>
        have hnone : valueAt beexData.toNat r.body = none := by
          cases hvalue : valueAt beexData.toNat r.body with
          | none => rfl
          | some d =>
            obtain ⟨d', hd'⟩ := valueAt32_of_valueAt (by decide) hvalue
            rw [hd'] at hlast
            cases hlast
        rw [verdict_none hfilled more hwide herror hlast, hnone]
        rfl
      | some d =>
        obtain ⟨d', hd', hsame⟩ := hdata d hlast
        obtain ⟨f, hf, -, rfl⟩ := valueAt32_some hlast
        obtain ⟨v, hv⟩ := entry_toPhp hb hf
        rw [verdict_data hfilled more hwide herror (r.entry_wf hf) hlast hv, hd', Option.bind_some,
          hsame, hv]
        rfl
    · obtain ⟨hisSome, hcodes⟩ := halike.refused hcode
      obtain ⟨d, herror⟩ := Option.isSome_iff_exists.mp hisSome
      obtain ⟨text, htext⟩ := hread.text herror
      obtain ⟨recv, hrecv, hverdict⟩ := recv_error hreceives hlen halike.numbers hb hcode herror htext
      obtain ⟨d', hd'⟩ := valueAt32_of_valueAt (by decide) herror
      have hisSome' : (valueAt32 beexError.toNat r.body).isSome := by rw [hd']; rfl
      obtain ⟨wc, hentry⟩ := r.code_entry
      obtain ⟨dc, hdc⟩ := valueAt32_of_valueAt (by decide) hentry
      obtain ⟨f, hf, -, rfl⟩ := valueAt32_some hdc
      obtain ⟨wn, n, hn⟩ := halike.numbers f hf
      rw [hn] at hdc
      refine ⟨recv, _, _, hrecv, hrun, hverdict, ?_⟩
      rw [verdict_error hfilled more hwide hisSome', hfilled.code wn n hdc, if_pos hisSome', mask32,
        hcodes wn n hdc]

/-- The response with the code 0, the sync 7 and the value of one more entry in the header, and with an
array of one number as its data. -/
def numberResponse (extra : Doc) (h : extra.WF) : MapResponse where
  headWidth := .fix
  header := [⟨.fix, 0, .uint .fix 0⟩, ⟨.fix, 1, .uint .fix 7⟩, ⟨.fix, 5, extra⟩]
  bodyWidth := .fix
  body := [⟨.fix, 0x30, .array .fix [.uint .fix 1]⟩]
  code := 0
  sync := 7
  header_wf := by
    simp [entryDocs, flatten, Doc.WF, AllWF, Doc.Fits, IntWidth.uintBound, SeqWidth.bound, h]
  body_wf := by
    simp [entryDocs, flatten, Doc.WF, AllWF, Doc.Fits, IntWidth.uintBound, SeqWidth.bound]
  header_distinct := by simp
  body_distinct := by decide
  code_entry := ⟨.fix, rfl⟩
  sync_entry := ⟨.fix, rfl⟩
  body_representable := by
    simp [entryDocs, flatten, Representable, PairsRepresentable, AllRepresentable, isKeyDoc]

/-- A response with a number under one more key. -/
theorem parsers_agree_number : ParsersAgree (.blank false) 7
    (.receiving (frame (numberResponse (.uint .fix 3) (by decide)).payload) [])
    ((numberResponse (.uint .fix 3) (by decide)).payload ++ [0]) := by
  obtain ⟨w', hreceives⟩ := @receives_receiving checkStatus checkStatus_accepting
    (numberResponse (.uint .fix 3) (by decide)).payload (by decide)
  refine (@parsers_agree (.blank false) _ _ w' hreceives rfl [0]).mpr
    ⟨⟨?_, by decide, by decide, ?_, ?_⟩, ?_, .inr ?_, ?_, ?_⟩
  · simp [numberResponse]
  · simp [numberResponse, beexError]
  · simp [numberResponse]
  · simp [numberResponse, MapResponse.bodyDoc, entryDocs, flatten, Plain, PairsPlain, AllPlain, isKeyDoc]
  · simp [numberResponse, MapResponse.bodyDoc, entryDocs, flatten, SignedNegative, AllSignedNegative]
  · intro _
    simp [numberResponse, valueAt32, valueAt, beexError, beexData]
  · intro h
    exact absurd rfl h

/-- A response with a nil under it. -/
theorem parsers_agree_nil : ¬ ∀ (P : Platform) (r : MapResponse) (w w' : World) (more : Bytes),
    Receives checkStatus w r.payload w' → w.obj.value.len = 0 →
    ParsersAgree P (UInt64.ofNat r.sync) w (r.payload ++ more) := by
  intro h
  obtain ⟨w', hreceives⟩ := @receives_receiving checkStatus checkStatus_accepting
    (numberResponse .nil trivial).payload (by decide)
  obtain ⟨recv, result, verdict, -, hresult, -, hverdict⟩ := h (.blank false) _ _ w' [] hreceives rfl
  have hread : ¬ (numberResponse .nil trivial).Readable := by
    rintro ⟨hnumbers, -⟩
    obtain ⟨w, n, hvalue⟩ := hnumbers ⟨.fix, 5, .nil⟩ (by simp [numberResponse])
    cases hvalue
  obtain ⟨response, hrun⟩ := phpTpResponse_untyped (by decide) hread []
  obtain rfl := Except.ok.inj (hresult.symm.trans hrun)
  cases hverdict

end BeePhp
