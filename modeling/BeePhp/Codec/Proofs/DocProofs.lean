import BeePhp.Codec.Doc
import BeePhp.Codec.Proofs.BytesProofs
import Mathlib.Tactic.SplitIfs

/-!
# Proofs: MessagePack documents

Every notion about documents unfolds the same way: something about the head of the document, then the
same notion about the row of its items. `Doc.induct` is the induction that goes with it.
-/

namespace BeePhp.Codec

/-- Induction over documents, from the items of a document to the document. -/
theorem Doc.induct {P : Doc → Prop} (node : ∀ d, (∀ e ∈ d.items, P e) → P d) (d : Doc) : P d :=
  Doc.encode.induct P (fun ds => ∀ e ∈ ds, P e) (fun w ds h => node (.array w ds) h)
    (fun w ds h => node (.map w ds) h)
    (fun d harr hmap => node d (by cases d <;> simp_all [Doc.items]))
    (by simp) (fun d ds hd hds => by simpa using ⟨hd, hds⟩) d

/-! ## Head and items -/

theorem Doc.encode_eq (d : Doc) : d.encode = d.head ++ encodeAll d.items := by
  cases d <;> simp [Doc.encode, Doc.head, Doc.items, encodeAll]

theorem Doc.wf_iff (d : Doc) : d.WF ↔ d.Fits ∧ AllWF d.items := by
  cases d <;> simp [Doc.WF, Doc.items, AllWF]

theorem Doc.peak_eq (d : Doc) (m : Nat) :
    d.peak m = max (m + 1 + d.items.length) (peakAll m d.items) := by
  cases d <;> simp [Doc.peak, Doc.items, peakAll]

theorem allWF_iff (ds : List Doc) : AllWF ds ↔ ∀ d ∈ ds, d.WF := by
  induction ds with
  | nil => simp [AllWF]
  | cons d ds ih => simp [AllWF, ih]

@[simp] theorem encodeAll_append (ds es : List Doc) :
    encodeAll (ds ++ es) = encodeAll ds ++ encodeAll es := by
  induction ds with
  | nil => rfl
  | cons d ds ih => simp [encodeAll, ih]

theorem allWF_append (ds es : List Doc) : AllWF (ds ++ es) ↔ AllWF ds ∧ AllWF es := by
  simp only [allWF_iff, List.mem_append]
  exact ⟨fun h => ⟨fun d hd => h d (.inl hd), fun d hd => h d (.inr hd)⟩,
    fun h d hd => hd.elim (h.1 d) (h.2 d)⟩

theorem peakAll_append (m : Nat) (ds es : List Doc) :
    peakAll m (ds ++ es) = max (peakAll (m + es.length) ds) (peakAll m es) := by
  induction ds with
  | nil => simp [peakAll]
  | cons d ds ih =>
    simp only [List.cons_append, peakAll, ih, List.length_append]
    rw [show m + (ds.length + es.length) = m + es.length + ds.length by omega, max_assoc]

/-- Moving past the head of the first document of a row. -/
theorem peakAll_cons (d : Doc) (ds : List Doc) :
    peakAll 0 (d :: ds) = max (ds.length + 1 + d.items.length) (peakAll 0 (d.items ++ ds)) := by
  rw [peakAll, Doc.peak_eq, peakAll_append, max_assoc, Nat.zero_add]

theorem encodeAll_cons (d : Doc) (ds : List Doc) :
    encodeAll (d :: ds) = d.head ++ encodeAll (d.items ++ ds) := by
  rw [encodeAll, Doc.encode_eq, encodeAll_append, List.append_assoc]

/-! ## Lengths -/

theorem SeqWidth.arrayHead_length_pos (w : SeqWidth) (n : Nat) : 0 < (w.arrayHead n).length := by
  cases w <;> simp [SeqWidth.arrayHead]

theorem SeqWidth.mapHead_length_pos (w : SeqWidth) (n : Nat) : 0 < (w.mapHead n).length := by
  cases w <;> simp [SeqWidth.mapHead]

theorem Doc.head_length_pos (d : Doc) : 0 < d.head.length := by
  cases d with
  | bool b => cases b <;> simp [Doc.head]
  | uint w n => cases w <;> simp [Doc.head, IntWidth.uintHead]
  | int w n => cases w <;> simp [Doc.head, IntWidth.intHead]
  | str w s => cases w <;> simp [Doc.head, StrWidth.head]
  | bin w s => cases w <;> simp [Doc.head, BinWidth.head]
  | ext w t s => cases w <;> simp [Doc.head, ExtWidth.head]
  | array w ds => exact w.arrayHead_length_pos _
  | map w ds => exact w.mapHead_length_pos _
  | _ => simp [Doc.head]

theorem Doc.encode_length_pos (d : Doc) : 0 < d.encode.length := by
  rw [Doc.encode_eq, List.length_append]
  have := d.head_length_pos
  omega

/-- A row of documents has at least one byte for each of them. -/
theorem length_le_encodeAll (ds : List Doc) : ds.length ≤ (encodeAll ds).length := by
  induction ds with
  | nil => simp
  | cons d ds ih =>
    have := d.encode_length_pos
    simp only [encodeAll, List.length_cons, List.length_append]
    omega

theorem encode_length_le {d : Doc} {ds : List Doc} (h : d ∈ ds) :
    d.encode.length ≤ (encodeAll ds).length := by
  obtain ⟨es, fs, rfl⟩ := List.append_of_mem h
  simp only [encodeAll_append, encodeAll, List.length_append]
  omega

/-- No item is longer than the document. -/
theorem Doc.encode_le_of_mem {d e : Doc} (h : e ∈ d.items) : e.encode.length ≤ d.encode.length := by
  rw [d.encode_eq, List.length_append]
  exact Nat.le_trans (encode_length_le h) (Nat.le_add_left _ _)

/-! ## Pairs -/

@[simp] theorem pairUp_flatten (ps : List (Doc × Doc)) : pairUp (flatten ps) = ps := by
  induction ps with
  | nil => rfl
  | cons p ps ih => simp [flatten, pairUp, ih]

@[simp] theorem flatten_length (ps : List (Doc × Doc)) : (flatten ps).length = 2 * ps.length := by
  induction ps with
  | nil => rfl
  | cons p ps ih => simp [flatten, ih]; omega

theorem flatten_pairUp {ds : List Doc} (h : ds.length % 2 = 0) : flatten (pairUp ds) = ds := by
  induction ds using pairUp.induct with
  | case1 k v ds ih => simp [pairUp, flatten, ih (by simp at h; omega)]
  | case2 ds hne =>
    match ds with
    | [] => rfl
    | [_] => simp at h
    | k :: v :: ds => exact (hne k v ds rfl).elim

theorem pairUp_length {ds : List Doc} (h : ds.length % 2 = 0) :
    2 * (pairUp ds).length = ds.length := by
  rw [← flatten_length, flatten_pairUp h]

/-- No more documents are ahead of a reader than there are bytes. -/
theorem Doc.peak_le (d : Doc) (m : Nat) : d.peak m ≤ m + d.encode.length := by
  induction d using Doc.induct generalizing m with
  | node d ih =>
    have hrow : ∀ ds : List Doc, (∀ e ∈ ds, e ∈ d.items) → ∀ m,
        peakAll m ds ≤ m + (encodeAll ds).length := by
      intro ds hds m
      induction ds with
      | nil => simp [peakAll]
      | cons e ds ihds =>
        have hfirst := ih e (hds e List.mem_cons_self) (m + ds.length)
        have hrest := ihds fun e' he' => hds e' (List.mem_cons_of_mem e he')
        have hlen := length_le_encodeAll ds
        simp only [peakAll, encodeAll, List.length_append]
        omega
    have hitems := hrow d.items (fun _ h => h) m
    have hhead := d.head_length_pos
    have hlen := length_le_encodeAll d.items
    rw [Doc.peak_eq, Doc.encode_eq, List.length_append]
    omega

/-- With more documents waiting there are more ahead. -/
theorem Doc.peak_mono (d : Doc) {m m' : Nat} (h : m ≤ m') : d.peak m ≤ d.peak m' := by
  induction d using Doc.induct generalizing m m' with
  | node d ih =>
    have hrow : ∀ ds : List Doc, (∀ e ∈ ds, e ∈ d.items) → peakAll m ds ≤ peakAll m' ds := by
      intro ds hds
      induction ds with
      | nil => exact le_refl 0
      | cons e ds ihds =>
        have hfirst := ih e (hds e List.mem_cons_self) (Nat.add_le_add_right h ds.length)
        have hrest := ihds fun e' he' => hds e' (List.mem_cons_of_mem e he')
        exact max_le_max hfirst hrest
    have hitems := hrow d.items fun _ h => h
    rw [Doc.peak_eq, Doc.peak_eq]
    omega

theorem peak_le_peakAll {d : Doc} {ds : List Doc} (h : d ∈ ds) : d.peak 0 ≤ peakAll 0 ds := by
  obtain ⟨es, fs, rfl⟩ := List.append_of_mem h
  have hmono := d.peak_mono (Nat.zero_le (0 + fs.length))
  rw [peakAll_append, peakAll]
  omega

/-- The items of a document have no more ahead of them than it has. -/
theorem Doc.peak_le_of_mem {d e : Doc} (h : e ∈ d.items) : e.peak 0 ≤ d.peak 0 := by
  have hitems := peak_le_peakAll h
  rw [d.peak_eq]
  omega

/-! ## Shortest forms fit -/

theorem IntWidth.forNat_bound {n : Nat} (h : n < 256 ^ 8) : n < (IntWidth.forNat n).uintBound := by
  unfold IntWidth.forNat
  split_ifs <;> simp only [IntWidth.uintBound] <;> omega

theorem IntWidth.forInt_fits {i : Int} (hlo : -2 ^ 63 ≤ i) (hneg : i < 0) :
    (IntWidth.forInt i).fitsInt i := by
  unfold IntWidth.forInt
  split_ifs <;> simp only [IntWidth.fitsInt] <;> omega

theorem StrWidth.forNat_bound {n : Nat} (h : n < 256 ^ 4) : n < (StrWidth.forNat n).bound := by
  unfold StrWidth.forNat
  split_ifs <;> simp only [StrWidth.bound] <;> omega

theorem SeqWidth.forNat_bound {n : Nat} (h : n < 256 ^ 4) : n < (SeqWidth.forNat n).bound := by
  unfold SeqWidth.forNat
  split_ifs <;> simp only [SeqWidth.bound] <;> omega

theorem Doc.ofNat_wf {n : Nat} (h : n < 256 ^ 8) : (Doc.ofNat n).WF := IntWidth.forNat_bound h

theorem Doc.ofInt_wf {i : Int} (hlo : -2 ^ 63 ≤ i) (hhi : i < 2 ^ 63) : (Doc.ofInt i).WF := by
  unfold Doc.ofInt
  split_ifs
  · exact Doc.ofNat_wf (by omega)
  · exact IntWidth.forInt_fits hlo (by omega)

theorem Doc.ofStr_wf {s : Bytes} (h : s.length < 256 ^ 4) : (Doc.ofStr s).WF :=
  StrWidth.forNat_bound h

theorem Doc.ofList_wf {ds : List Doc} (h : ds.length < 256 ^ 4) (hds : ∀ d ∈ ds, d.WF) :
    (Doc.ofList ds).WF :=
  ⟨SeqWidth.forNat_bound h, (allWF_iff ds).mpr hds⟩

theorem mem_flatten {d : Doc} {ps : List (Doc × Doc)} :
    d ∈ flatten ps ↔ ∃ p ∈ ps, d = p.1 ∨ d = p.2 := by
  induction ps with
  | nil => simp [flatten]
  | cons p ps ih =>
    obtain ⟨k, v⟩ := p
    simp [flatten, ih, or_assoc]

theorem Doc.ofPairs_wf {ps : List (Doc × Doc)} (h : ps.length < 256 ^ 4)
    (hps : ∀ p ∈ ps, p.1.WF ∧ p.2.WF) : (Doc.ofPairs ps).WF := by
  refine ⟨⟨by simp, ?_⟩, (allWF_iff _).mpr fun d hd => ?_⟩
  · have hb := SeqWidth.forNat_bound h
    simpa using hb
  · obtain ⟨p, hp, rfl | rfl⟩ := mem_flatten.mp hd
    · exact (hps p hp).1
    · exact (hps p hp).2

end BeePhp.Codec
