import BeePhp.Header
import BeePhp.Msgpack.Proofs.MeaningProofs
import BeePhp.Codec.Proofs.DocProofs

/-!
# Proofs: headers

What `zend_hash_index_find` finds in the PHP array of a header is what the header has under that key
(`lookup_header`).
-/

namespace BeePhp

open Codec Codec.Reader

/-! ## Integer keys -/

theorem integerOf_toPhp {ndebug : Bool} {d : Doc} {i : Int} {v : PVal} (hi : integerOf d = some i)
    (hv : docToPhp ndebug d = .ok v) : v = .long (Int64.ofInt i) := by
  cases d with
  | uint w n =>
    obtain rfl := Option.some.inj hi
    obtain rfl := Except.ok.inj hv
    rfl
  | int w j =>
    obtain rfl := Option.some.inj hi
    simp only [docToPhp] at hv
    split at hv
    · cases hv
    · exact (Except.ok.inj hv).symm
  | _ => cases hi

/-- The integers that documents write. -/
theorem integerOf_bounds {d : Doc} {i : Int} (hwf : d.WF) (hi : integerOf d = some i) :
    -2 ^ 63 ≤ i ∧ i < 2 ^ 64 := by
  cases d with
  | uint w n =>
    obtain rfl := Option.some.inj hi
    have hn : n < w.uintBound := hwf
    cases w <;> simp only [IntWidth.uintBound] at hn <;> omega
  | int w j =>
    obtain rfl := Option.some.inj hi
    have hj : w.fitsInt j := hwf
    cases w <;> simp only [IntWidth.fitsInt] at hj <;> omega
  | _ => cases hi

/-- A small index is that of no other integer. -/
theorem idx_eq_iff {i : Int} (hlo : -2 ^ 63 ≤ i) (hhi : i < 2 ^ 64) {h : UInt32} :
    Key.idx (Int64.ofInt i).toUInt64 = .idx (UInt64.ofNat h.toNat) ↔ i = h.toNat := by
  have hh := h.toNat_lt
  have htoNat : (Int64.ofInt i).toUInt64.toNat = (i % 2 ^ 64).toNat := BitVec.toNat_ofInt i
  have hofNat : (UInt64.ofNat h.toNat).toNat = h.toNat := by
    rw [UInt64.toNat_ofNat']
    omega
  rw [Key.idx.injEq, ← UInt64.toNat_inj, htoNat, hofNat]
  omega

/-- The keys of a row of pairs are integers that documents can write. -/
def IntegerKeys (ps : List (Doc × Doc)) : Prop :=
  ∀ p ∈ ps, ∃ i, integerOf p.1 = some i ∧ -2 ^ 63 ≤ i ∧ i < 2 ^ 64

/-- A round of entering a pair with an integer key. -/
theorem addPair_lookup {ndebug : Bool} {k : Doc} {i : Int} (hi : integerOf k = some i)
    (hlo : -2 ^ 63 ≤ i) (hhi : i < 2 ^ 64) {key value : PVal} (hkey : docToPhp ndebug k = .ok key)
    {t t' : Table PVal} (ht : addPair t key value = .ok t') (h : UInt32) :
    t'.entries.lookup (.idx (UInt64.ofNat h.toNat)) =
      if i = h.toNat then some value else t.entries.lookup (.idx (UInt64.ofNat h.toNat)) := by
  obtain rfl := integerOf_toPhp hi hkey
  obtain rfl := Except.ok.inj ht
  rw [addIndexZval, lookup_enter]
  have hiff := idx_eq_iff hlo hhi (h := h)
  by_cases heq : i = h.toNat
  · rw [if_pos (hiff.mpr heq).symm, if_pos heq]
  · rw [if_neg (fun hk => heq (hiff.mp hk.symm)), if_neg heq]

theorem lookup_pairs_none {ndebug : Bool} {ps : List (Doc × Doc)} (hint : IntegerKeys ps) {h : UInt32}
    (hnone : ∀ p ∈ ps, integerOf p.1 ≠ some (h.toNat : Int)) {t t' : Table PVal}
    (hrun : pairsToPhp ndebug (flatten ps) t = .ok t') :
    t'.entries.lookup (.idx (UInt64.ofNat h.toNat)) =
      t.entries.lookup (.idx (UInt64.ofNat h.toNat)) := by
  induction ps generalizing t with
  | nil =>
    obtain rfl := Except.ok.inj hrun
    rfl
  | cons p ps ih =>
    obtain ⟨k, v⟩ := p
    simp only [flatten, pairsToPhp, except_bind_eq_ok] at hrun
    obtain ⟨key, hkey, value, -, t₁, ht₁, hrest⟩ := hrun
    obtain ⟨i, hi, hlo, hhi⟩ := hint _ List.mem_cons_self
    have hne : i ≠ h.toNat := fun heq => hnone _ List.mem_cons_self (heq ▸ hi)
    rw [ih (fun p hp => hint p (List.mem_cons_of_mem _ hp))
      (fun p hp => hnone p (List.mem_cons_of_mem _ hp)) hrest,
      addPair_lookup hi hlo hhi hkey ht₁, if_neg hne]

theorem lookup_pairs_some {ndebug : Bool} {ps : List (Doc × Doc)} (hint : IntegerKeys ps)
    (hdistinct : (ps.map fun p => integerOf p.1).Nodup) {h : UInt32} {p : Doc × Doc} (hp : p ∈ ps)
    (hk : integerOf p.1 = some (h.toNat : Int)) {t t' : Table PVal}
    (hrun : pairsToPhp ndebug (flatten ps) t = .ok t') :
    ∃ value, docToPhp ndebug p.2 = .ok value ∧
      t'.entries.lookup (.idx (UInt64.ofNat h.toNat)) = some value := by
  induction ps generalizing t with
  | nil => exact absurd hp List.not_mem_nil
  | cons q ps ih =>
    obtain ⟨k, v⟩ := q
    simp only [flatten, pairsToPhp, except_bind_eq_ok] at hrun
    obtain ⟨key, hkey, value, hvalue, t₁, ht₁, hrest⟩ := hrun
    obtain ⟨i, hi, hlo, hhi⟩ := hint _ List.mem_cons_self
    simp only [List.map_cons, List.nodup_cons] at hdistinct
    have hint' : IntegerKeys ps := fun p hp => hint p (List.mem_cons_of_mem _ hp)
    rcases List.mem_cons.mp hp with rfl | hp
    · refine ⟨value, hvalue, ?_⟩
      have hother : ∀ p ∈ ps, integerOf p.1 ≠ some (h.toNat : Int) := fun p hp heq =>
        hdistinct.1 (List.mem_map.mpr ⟨p, hp, heq.trans hk.symm⟩)
      have heq : i = h.toNat := Option.some.inj (hi.symm.trans hk)
      rw [lookup_pairs_none hint' hother hrest, addPair_lookup hi hlo hhi hkey ht₁, if_pos heq]
    · exact ih hint' hdistinct.2 hp hrest

/-! ## Headers -/

/-- The table of a header that PHP can hold. -/
theorem header_toPhp {ndebug : Bool} {w : SeqWidth} {ds : List Doc} {v : PVal}
    (h : docToPhp ndebug (.map w ds) = .ok v) :
    ∃ t, pairsToPhp ndebug ds .empty = .ok t ∧ v = .arr t.entries t.nNextFreeElement := by
  simp only [docToPhp, except_bind_eq_ok] at h
  obtain ⟨t, ht, hv⟩ := h
  exact ⟨t, ht, (Except.ok.inj hv).symm⟩

theorem OkHeader.integerKeys {sync : Nat} {ps : List (Doc × Doc)} (h : OkHeader sync ps)
    {w : SeqWidth} (hwf : (Doc.map w (flatten ps)).WF) : IntegerKeys ps := by
  intro p hp
  obtain ⟨i, hi⟩ := Option.isSome_iff_exists.mp (h.integer p hp)
  have hitems : ∀ d ∈ flatten ps, d.WF := (allWF_iff _).mp (Doc.wf_iff _ |>.mp hwf).2
  exact ⟨i, hi, integerOf_bounds (hitems _ (mem_flatten.mpr ⟨p, hp, .inl rfl⟩)) hi⟩

/-- An integer that a header has under a key is found there. -/
theorem lookup_header {ndebug : Bool} {sync : Nat} {ps : List (Doc × Doc)} (hok : OkHeader sync ps)
    {w : SeqWidth} (hwf : (Doc.map w (flatten ps)).WF) {t : Table PVal}
    (hrun : pairsToPhp ndebug (flatten ps) .empty = .ok t) {p : Doc × Doc} (hp : p ∈ ps)
    {h : UInt32} {i : Int} (hk : integerOf p.1 = some (h.toNat : Int)) (hi : integerOf p.2 = some i) :
    t.entries.lookup (.idx (UInt64.ofNat h.toNat)) = some (.long (Int64.ofInt i)) := by
  obtain ⟨value, hvalue, hlookup⟩ := lookup_pairs_some (hok.integerKeys hwf) hok.distinct hp hk hrun
  rw [hlookup, integerOf_toPhp hi hvalue]

/-- The header of a response that has a code and a sync and nothing else. -/
def shortHeader (sync : Nat) : List (Doc × Doc) :=
  [(.uint .fix 0, .uint .fix 0), (.uint .fix 1, .uint .fix sync)]

theorem shortHeader_plain (sync : Nat) : Plain (.map .fix (flatten (shortHeader sync))) := by
  simp [shortHeader, flatten, Plain, PairsPlain, isKeyDoc]

theorem okResponse_short {sync : Nat} (hsync : sync < 128) {d : Doc} (hwf : d.WF)
    (hrepresentable : Representable d) (hsize : d.encode.length < 2 ^ 30) :
    OkResponse sync .fix (shortHeader sync) d where
  header_wf := by
    simp [shortHeader, flatten, Doc.WF, AllWF, Doc.Fits, IntWidth.uintBound, SeqWidth.bound, hsync]
  body_wf := hwf
  header := {
    integer := by simp [shortHeader, integerOf]
    distinct := by simp [shortHeader, integerOf]
    code := ⟨_, List.mem_cons_self, rfl, rfl⟩
    sync := ⟨_, List.mem_cons_of_mem _ List.mem_cons_self, rfl, rfl⟩ }
  header_representable := by
    simp [shortHeader, flatten, Representable, PairsRepresentable, isKeyDoc]
  body_representable := hrepresentable
  size := by
    have hheader : (Doc.map .fix (flatten (shortHeader sync))).encode.length = 5 := rfl
    rw [List.length_append, hheader]
    omega

/-- Documents shorter than 2^31 bytes are light. -/
theorem light_of_length {d : Doc} (h : d.encode.length < 2 ^ 31) : Light d := by
  have := d.peak_le 0
  simp only [Light, intMax]
  omega

end BeePhp
