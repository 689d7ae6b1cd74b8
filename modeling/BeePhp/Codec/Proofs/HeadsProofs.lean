import BeePhp.Codec.Heads
import BeePhp.Codec.Proofs.DocProofs

/-!
# Proofs: documents read head by head

Heads can be read until no documents are to come exactly when there are that many documents ahead
(`pends_iff`).
-/

namespace BeePhp.Codec

/-- The head of a document says how many items it has, and nothing else of them. -/
theorem Doc.withItems_spec {d : Doc} {ds : List Doc} (h : ds.length = d.items.length) :
    (d.withItems ds).head = d.head ∧ (d.withItems ds).items = ds ∧ ((d.withItems ds).Fits ↔ d.Fits) := by
  cases d with
  | array w es =>
    have hlen : ds.length = es.length := h
    exact ⟨by simp only [withItems, head, hlen], rfl, by simp only [withItems, Fits, hlen]⟩
  | map w es =>
    have hlen : ds.length = es.length := h
    exact ⟨by simp only [withItems, head, hlen], rfl, by simp only [withItems, Fits, hlen]⟩
  | _ => exact ⟨rfl, (List.length_eq_zero_iff.mp h).symm, Iff.rfl⟩

/-- The heads that were read are those of documents. -/
theorem docs_of_pends {k k' : Nat} {b rest : Bytes} (h : Pends k b k' rest) (hk : k' = 0) :
    ∃ ds, ds.length = k ∧ AllWF ds ∧ b = encodeAll ds ++ rest := by
  induction h with
  | refl => exact ⟨[], hk.symm, trivial, rfl⟩
  | @head k _ d _ _ hfits _ ih =>
    obtain ⟨ds, hlen, hwf, rfl⟩ := ih hk
    -- the first documents are the items of `d`
    have htake : (ds.take d.items.length).length = d.items.length := List.length_take_of_le (by omega)
    obtain ⟨hhead, hitems, hfits'⟩ := Doc.withItems_spec htake
    rw [← List.take_append_drop d.items.length ds] at hwf
    obtain ⟨hwf₁, hwf₂⟩ := (allWF_append _ _).mp hwf
    refine ⟨d.withItems (ds.take d.items.length) :: ds.drop d.items.length, ?_, ⟨?_, hwf₂⟩, ?_⟩
    · rw [List.length_cons, List.length_drop]
      omega
    · exact (Doc.wf_iff _).mpr ⟨hfits'.mpr hfits, by rwa [hitems]⟩
    · rw [encodeAll_cons, hhead, hitems, List.take_append_drop, List.append_assoc]

theorem pends_docs {ds : List Doc} (hwf : AllWF ds) (rest : Bytes) :
    Pends ds.length (encodeAll ds ++ rest) 0 rest := by
  induction hn : (encodeAll ds).length using Nat.strong_induction_on generalizing ds with
  | _ n ih =>
    cases ds with
    | nil => exact .refl
    | cons d ds =>
      obtain ⟨hd, hds⟩ := hwf
      obtain ⟨hfits, hitems⟩ := d.wf_iff.mp hd
      have hpos := d.head_length_pos
      rw [encodeAll_cons, List.length_append] at hn
      have hrest := ih _ (by omega) ((allWF_append _ _).mpr ⟨hitems, hds⟩) rfl
      rw [List.length_append, Nat.add_comm] at hrest
      rw [encodeAll_cons, List.append_assoc, List.length_cons]
      exact .head hfits hrest

theorem pends_iff {k : Nat} {b rest : Bytes} :
    Pends k b 0 rest ↔ ∃ ds, ds.length = k ∧ AllWF ds ∧ b = encodeAll ds ++ rest := by
  refine ⟨fun h => docs_of_pends h rfl, ?_⟩
  rintro ⟨ds, rfl, hwf, rfl⟩
  exact pends_docs hwf rest

/-- A document is read when one is to come. -/
theorem pends_one_iff {b rest : Bytes} : Pends 1 b 0 rest ↔ ∃ d : Doc, d.WF ∧ b = d.encode ++ rest := by
  rw [pends_iff]
  constructor
  · rintro ⟨ds, hlen, hwf, rfl⟩
    obtain ⟨d, rfl⟩ := List.length_eq_one_iff.mp hlen
    exact ⟨d, hwf.1, by rw [encodeAll, encodeAll, List.append_nil]⟩
  · rintro ⟨d, hwf, rfl⟩
    exact ⟨[d], rfl, ⟨hwf, trivial⟩, by rw [encodeAll, encodeAll, List.append_nil]⟩

/-- A head announces less than 2^17 items, unless it counts them in 32 bits. -/
theorem Doc.items_length_lt {d : Doc} (hfits : d.Fits) :
    d.items.length < 2 ^ 17 ∨ (0xdd : UInt8) ∈ d.head ∨ (0xdf : UInt8) ∈ d.head := by
  cases d with
  | array w ds =>
    cases w with
    | w32 => exact .inr (.inl List.mem_cons_self)
    | fix | w16 =>
      have hlt : ds.length < _ := hfits
      simp only [SeqWidth.bound] at hlt
      exact .inl (show ds.length < _ by omega)
  | map w ds =>
    cases w with
    | w32 => exact .inr (.inr List.mem_cons_self)
    | fix | w16 =>
      obtain ⟨heven, hlt⟩ := hfits
      simp only [SeqWidth.bound] at hlt
      exact .inl (show ds.length < _ by omega)
  | _ => exact .inl (by simp [Doc.items])

/-- Without the lead bytes of heads that count in 32 bits, few documents are to come. -/
theorem pends_le {k k' : Nat} {b b' : Bytes} (h : Pends k b k' b') (harray : (0xdd : UInt8) ∉ b)
    (hmap : (0xdf : UInt8) ∉ b) : k' ≤ k + 2 ^ 17 * b.length := by
  induction h with
  | refl => omega
  | @head k k' d rest _ hfits _ ih =>
    rw [List.mem_append, not_or] at harray hmap
    have hpos := d.head_length_pos
    have hle := ih harray.2 hmap.2
    rcases Doc.items_length_lt hfits with hlt | h | h
    · rw [List.length_append]
      omega
    · exact absurd h harray.1
    · exact absurd h hmap.1

end BeePhp.Codec
