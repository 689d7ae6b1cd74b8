import BeePhp.Msgpack.Meaning
import BeePhp.Codec.Proofs.DocProofs
import BeePhp.Codec.Proofs.ReaderProofs

/-!
# Proofs: what MessagePack documents mean to PHP

A well-formed document stands for a PHP value exactly when it is `Decodable`.
-/

namespace BeePhp

open Codec

/-- Whether a pair can be entered depends on its key alone. -/
theorem addPair_ok_iff {ndebug : Bool} {k : Doc} {key : PVal} (h : docToPhp ndebug k = .ok key)
    (t : Table PVal) (value : PVal) : (∃ t', addPair t key value = .ok t') ↔ isKeyDoc k := by
  cases k with
  | int w i =>
    simp only [docToPhp] at h
    split at h
    · cases h
    · cases h
      simp [addPair, isKeyDoc]
  | array w ds =>
    obtain ⟨t₁, -, ht₁⟩ := except_bind_eq_ok.mp h
    cases ht₁
    simp [addPair, isKeyDoc, Table.toPVal]
  | map w ds =>
    obtain ⟨t₁, -, ht₁⟩ := except_bind_eq_ok.mp h
    cases ht₁
    simp [addPair, isKeyDoc, Table.toPVal]
  | _ => cases h <;> simp [addPair, isKeyDoc]

/-- A value that is no key makes `php_mp_unpack_map` throw. -/
theorem addPair_refused {ndebug : Bool} {k : Doc} {key : PVal} (h : docToPhp ndebug k = .ok key)
    (hnot : ¬ (isKeyDoc k ∨ isBinDoc k)) (t : Table PVal) (value : PVal) :
    addPair t key value = .error (.failure (some "Bad key type for PHP Array")) := by
  cases k with
  | uint | int | str | bin => simp [isKeyDoc, isBinDoc] at hnot
  | array w ds =>
    obtain ⟨t₁, -, ht₁⟩ := except_bind_eq_ok.mp h
    cases ht₁
    rfl
  | map w ds =>
    obtain ⟨t₁, -, ht₁⟩ := except_bind_eq_ok.mp h
    cases ht₁
    rfl
  | _ => cases h <;> rfl

/-- Only a value that is no key makes it throw. -/
theorem addPair_failure {ndebug : Bool} {k : Doc} {key value : PVal} (h : docToPhp ndebug k = .ok key)
    {t : Table PVal} {thrown : Option String} (hadd : addPair t key value = .error (.failure thrown)) :
    ¬ (isKeyDoc k ∨ isBinDoc k) := by
  rintro (hkey | hbin)
  · obtain ⟨t', ht'⟩ := (addPair_ok_iff h t value).mpr hkey
    cases hadd.symm.trans ht'
  · cases k with
    | bin => cases h; cases hadd
    | _ => cases hbin

theorem isKeyDoc_plain {k : Doc} (h : isKeyDoc k) : Plain k := by
  cases k <;> simp [isKeyDoc, Plain] at h ⊢

/-! ## Rows -/

theorem itemsToPhp_ok_iff {ndebug : Bool} (ds : List Doc) (t : Table PVal) :
    (∃ t', itemsToPhp ndebug ds t = .ok t') ↔ ∀ d ∈ ds, ∃ v, docToPhp ndebug d = .ok v := by
  induction ds generalizing t with
  | nil => simp [itemsToPhp]
  | cons d ds ih =>
    simp only [itemsToPhp, except_bind_eq_ok, List.mem_cons, forall_eq_or_imp]
    constructor
    · rintro ⟨t', v, hv, ht'⟩
      exact ⟨⟨v, hv⟩, (ih _).mp ⟨t', ht'⟩⟩
    · rintro ⟨⟨v, hv⟩, hds⟩
      obtain ⟨t', ht'⟩ := (ih (addNextIndexZval t v)).mpr hds
      exact ⟨t', v, hv, ht'⟩

theorem pairsToPhp_ok_iff {ndebug : Bool} (ps : List (Doc × Doc)) (t : Table PVal) :
    (∃ t', pairsToPhp ndebug (flatten ps) t = .ok t') ↔ ∀ p ∈ ps,
      (∃ v, docToPhp ndebug p.1 = .ok v) ∧ isKeyDoc p.1 ∧ ∃ v, docToPhp ndebug p.2 = .ok v := by
  induction ps generalizing t with
  | nil => simp [flatten, pairsToPhp]
  | cons p ps ih =>
    obtain ⟨k, v⟩ := p
    simp only [flatten, pairsToPhp, except_bind_eq_ok, List.mem_cons, forall_eq_or_imp]
    constructor
    · rintro ⟨t', key, hkey, value, hvalue, t₁, ht₁, ht'⟩
      exact ⟨⟨⟨key, hkey⟩, (addPair_ok_iff hkey t value).mp ⟨t₁, ht₁⟩, ⟨value, hvalue⟩⟩,
        (ih _).mp ⟨t', ht'⟩⟩
    · rintro ⟨⟨⟨key, hkey⟩, hisKey, ⟨value, hvalue⟩⟩, hps⟩
      obtain ⟨t₁, ht₁⟩ := (addPair_ok_iff hkey t value).mpr hisKey
      obtain ⟨t', ht'⟩ := (ih t₁).mpr hps
      exact ⟨t', key, hkey, value, hvalue, t₁, ht₁, ht'⟩

theorem allPlain_iff (ds : List Doc) : AllPlain ds ↔ ∀ d ∈ ds, Plain d := by
  induction ds with
  | nil => simp [AllPlain]
  | cons d ds ih => simp [AllPlain, ih]

theorem pairsPlain_iff (ps : List (Doc × Doc)) :
    PairsPlain (flatten ps) ↔ ∀ p ∈ ps, isKeyDoc p.1 ∧ Plain p.2 := by
  induction ps with
  | nil => simp [PairsPlain, flatten]
  | cons p ps ih =>
    obtain ⟨k, v⟩ := p
    simp [PairsPlain, flatten, ih, and_assoc]

theorem allSignedNegative_iff (ds : List Doc) :
    AllSignedNegative ds ↔ ∀ d ∈ ds, SignedNegative d := by
  induction ds with
  | nil => simp [AllSignedNegative]
  | cons d ds ih => simp [AllSignedNegative, ih]

theorem allRepresentable_iff (ds : List Doc) : AllRepresentable ds ↔ ∀ d ∈ ds, Representable d := by
  induction ds with
  | nil => simp [AllRepresentable]
  | cons d ds ih => simp [AllRepresentable, ih]

theorem pairsRepresentable_iff (ps : List (Doc × Doc)) : PairsRepresentable (flatten ps) ↔
    ∀ p ∈ ps, (isKeyDoc p.1 ∨ isBinDoc p.1) ∧ Representable p.2 := by
  induction ps with
  | nil => simp [PairsRepresentable, flatten]
  | cons p ps ih =>
    obtain ⟨k, v⟩ := p
    simp [PairsRepresentable, flatten, ih, and_assoc]

/-! ## Documents -/

/-- A plain document is representable. -/
theorem Plain.representable {d : Doc} (hwf : d.WF) (h : Plain d) : Representable d := by
  induction d using Doc.induct with
  | node d ih =>
    obtain ⟨hfits, hitems⟩ := d.wf_iff.mp hwf
    have hitems' := (allWF_iff _).mp hitems
    cases d with
    | array w ds =>
      rw [Plain, allPlain_iff] at h
      rw [Representable, allRepresentable_iff]
      exact fun d hd => ih d hd (hitems' d hd) (h d hd)
    | map w ds =>
      obtain ⟨ps, rfl⟩ : ∃ ps, ds = flatten ps := ⟨pairUp ds, (flatten_pairUp hfits.1).symm⟩
      rw [Plain, pairsPlain_iff] at h
      rw [Representable, pairsRepresentable_iff]
      intro p hp
      have hvalue : p.2 ∈ flatten ps := mem_flatten.mpr ⟨p, hp, .inr rfl⟩
      exact ⟨.inl (h p hp).1, ih _ hvalue (hitems' _ hvalue) (h p hp).2⟩
    | _ => exact h

theorem docToPhp_ok_iff {ndebug : Bool} (d : Doc) (hwf : d.WF) :
    (∃ v, docToPhp ndebug d = .ok v) ↔ Plain d ∧ (ndebug = true ∨ SignedNegative d) := by
  induction d using Doc.induct with
  | node d ih =>
    obtain ⟨hfits, hitems⟩ := d.wf_iff.mp hwf
    have hitems' := (allWF_iff _).mp hitems
    cases d with
    | int w i =>
      by_cases hn : ndebug = false ∧ 0 ≤ i
      · simp [docToPhp, hn, Plain, SignedNegative]
      · have hor : ndebug = true ∨ i < 0 := by
          cases ndebug
          · exact .inr (by simp at hn; omega)
          · exact .inl rfl
        simp [docToPhp, hn, Plain, SignedNegative, hor]
    | array w ds =>
      have hval : (∃ v, docToPhp ndebug (.array w ds) = .ok v) ↔
          ∃ t', itemsToPhp ndebug ds .empty = .ok t' := by
        simp only [docToPhp, except_bind_eq_ok]
        exact ⟨fun ⟨_, t, ht, _⟩ => ⟨t, ht⟩, fun ⟨t, ht⟩ => ⟨_, t, ht, rfl⟩⟩
      rw [hval, itemsToPhp_ok_iff, Plain, SignedNegative, allPlain_iff, allSignedNegative_iff]
      have hiff : ∀ d ∈ ds, (∃ v, docToPhp ndebug d = .ok v) ↔
          Plain d ∧ (ndebug = true ∨ SignedNegative d) := fun d hd => ih d hd (hitems' d hd)
      rw [forall₂_congr hiff]
      cases ndebug <;> simp [forall_and]
    | map w ds =>
      have hval : (∃ v, docToPhp ndebug (.map w ds) = .ok v) ↔
          ∃ t', pairsToPhp ndebug ds .empty = .ok t' := by
        simp only [docToPhp, except_bind_eq_ok]
        exact ⟨fun ⟨_, t, ht, _⟩ => ⟨t, ht⟩, fun ⟨t, ht⟩ => ⟨_, t, ht, rfl⟩⟩
      obtain ⟨ps, rfl⟩ : ∃ ps, ds = flatten ps := ⟨pairUp ds, (flatten_pairUp hfits.1).symm⟩
      have hiff : ∀ p ∈ ps, ((∃ v, docToPhp ndebug p.1 = .ok v) ∧ isKeyDoc p.1 ∧
          ∃ v, docToPhp ndebug p.2 = .ok v) ↔ (isKeyDoc p.1 ∧ Plain p.2) ∧
            (ndebug = true ∨ (SignedNegative p.1 ∧ SignedNegative p.2)) := by
        intro p hp
        have h1 : p.1 ∈ flatten ps := mem_flatten.mpr ⟨p, hp, .inl rfl⟩
        have h2 : p.2 ∈ flatten ps := mem_flatten.mpr ⟨p, hp, .inr rfl⟩
        rw [ih _ h1 (hitems' _ h1), ih _ h2 (hitems' _ h2)]
        have hkey := @isKeyDoc_plain p.1
        cases ndebug <;> simp <;> tauto
      rw [hval, pairsToPhp_ok_iff, Plain, SignedNegative, pairsPlain_iff, allSignedNegative_iff,
        forall₂_congr hiff]
      have hmem : (∀ d ∈ flatten ps, SignedNegative d) ↔
          ∀ p ∈ ps, SignedNegative p.1 ∧ SignedNegative p.2 := by
        constructor
        · exact fun h p hp => ⟨h _ (mem_flatten.mpr ⟨p, hp, .inl rfl⟩),
            h _ (mem_flatten.mpr ⟨p, hp, .inr rfl⟩)⟩
        · rintro h d hd
          obtain ⟨p, hp, rfl | rfl⟩ := mem_flatten.mp hd
          · exact (h p hp).1
          · exact (h p hp).2
      rw [hmem]
      cases ndebug <;> simp [forall_and]
    | _ => simp [docToPhp, Plain, SignedNegative]

theorem decodable_iff {ndebug : Bool} {d : Doc} :
    Decodable ndebug d ↔ d.WF ∧ ∃ v, docToPhp ndebug d = .ok v := by
  constructor
  · rintro ⟨hwf, h⟩
    exact ⟨hwf, (docToPhp_ok_iff d hwf).mpr h⟩
  · rintro ⟨hwf, h⟩
    exact ⟨hwf, (docToPhp_ok_iff d hwf).mp h⟩

/-! ## Assertions compiled out -/

theorem docToPhp_ndebug {ndebug : Bool} (d : Doc) {v : PVal} (h : docToPhp ndebug d = .ok v) :
    docToPhp true d = .ok v := by
  induction d using Doc.induct generalizing v with
  | node d ih =>
    have hitems : ∀ ds : List Doc, (∀ e ∈ ds, e ∈ d.items) → ∀ t t',
        itemsToPhp ndebug ds t = .ok t' → itemsToPhp true ds t = .ok t' := by
      intro ds hds t t' hrun
      induction ds generalizing t with
      | nil => exact hrun
      | cons e ds ihds =>
        simp only [itemsToPhp, except_bind_eq_ok] at hrun ⊢
        obtain ⟨u, hu, hrest⟩ := hrun
        exact ⟨u, ih e (hds e List.mem_cons_self) hu,
          ihds (fun e' he' => hds e' (List.mem_cons_of_mem e he')) _ hrest⟩
    have hpairs : ∀ ds : List Doc, (∀ e ∈ ds, e ∈ d.items) → ∀ t t',
        pairsToPhp ndebug ds t = .ok t' → pairsToPhp true ds t = .ok t' := by
      intro ds hds t t' hrun
      induction ds using pairUp.induct generalizing t with
      | case1 k w ds ihds =>
        simp only [pairsToPhp, except_bind_eq_ok] at hrun ⊢
        obtain ⟨key, hkey, u, hu, t₁, ht₁, hrest⟩ := hrun
        simp only [List.mem_cons] at hds
        exact ⟨key, ih k (hds k (.inl rfl)) hkey, u, ih w (hds w (.inr (.inl rfl))) hu, t₁, ht₁,
          ihds (fun e he => hds e (.inr (.inr he))) _ hrest⟩
      | case2 ds hne =>
        rcases ds with _ | ⟨k, _ | ⟨w, ds⟩⟩
        · exact hrun
        · exact hrun
        · exact absurd rfl (hne k w ds)
    cases d with
    | int w i =>
      simp only [docToPhp] at h ⊢
      split at h
      · cases h
      · simpa using h
    | array w ds =>
      simp only [docToPhp, except_bind_eq_ok] at h ⊢
      obtain ⟨t, ht, hv⟩ := h
      exact ⟨t, hitems ds (fun _ h => h) _ _ ht, hv⟩
    | map w ds =>
      simp only [docToPhp, except_bind_eq_ok] at h ⊢
      obtain ⟨t, ht, hv⟩ := h
      exact ⟨t, hpairs ds (fun _ h => h) _ _ ht, hv⟩
    | _ => exact h

end BeePhp
