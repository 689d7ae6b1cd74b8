import BeePhp.Packet
import BeePhp.Proofs.CheckProofs
import BeePhp.Proofs.ParsersProofs

/-!
# Proofs: the bounds of a packet

The loops of `php_tp_response` return with no shift too wide exactly when what is ahead of them is as
`HeaderInside` and `BodyInside` say (`fromHeader_inside`, `responseBody_inside`); what they store points into
the packet (`phpTpResponse_within`).
-/

namespace BeePhp

open Codec (Bytes Doc IntWidth StrWidth SeqWidth except_bind_eq_ok)

/-! ## The byte ahead -/

theorem typeAt_eq_ok {p : Bytes} {t : MpType} : typeAt p = .ok t ↔ ∃ c p', p = c :: p' ∧ mpTypeof c = t := by
  cases p with
  | nil => simp [typeAt]
  | cons c p' => simp [typeAt]

theorem foreign_iff {p : Bytes} {t : MpType} : Foreign t p ↔ ∃ t', typeAt p = .ok t' ∧ t' ≠ t := by
  simp only [typeAt_eq_ok, Foreign]
  constructor
  · rintro ⟨c, p', hp, hc⟩
    exact ⟨_, ⟨c, p', hp, rfl⟩, hc⟩
  · rintro ⟨-, ⟨c, p', hp, rfl⟩, hc⟩
    exact ⟨c, p', hp, hc⟩

theorem decodeUint_eq_ok {p p' : Bytes} {n : Nat} :
    mpDecodeUint p = .ok (n, p') ↔ ∃ w : IntWidth, n < w.uintBound ∧ p = (Doc.uint w n).encode ++ p' := by
  constructor
  · intro h
    obtain ⟨w, hn, hp⟩ := mpDecodeUint_ok h
    exact ⟨w, hn, hp⟩
  · rintro ⟨w, hn, rfl⟩
    exact decodeUint_doc hn p'

theorem decodeStr_eq_ok {p p' s : Bytes} :
    mpDecodeStr p = .ok (s, p') ↔ ∃ w : StrWidth, s.length < w.bound ∧ p = (Doc.str w s).encode ++ p' := by
  constructor
  · intro h
    obtain ⟨w, hs, hp⟩ := mpDecodeStr_ok h
    exact ⟨w, hs, hp⟩
  · rintro ⟨w, hs, rfl⟩
    exact decodeStr_doc hs p'

/-- A parse returns, with no shift too wide. -/
def Narrow (parse : Except Fault (BeexResponse × Option Bytes)) : Prop :=
  ∃ r cursor, parse = .ok (r, cursor) ∧ r.wideShift = false

/-! ## Loops of rounds -/

/-- A loop after a round that leaves `cursor`, with `none` when it gives up. -/
def goesOn (run : BeexResponse → Bytes → Except Fault (BeexResponse × Option Bytes)) (r : BeexResponse)
    (cursor : Option Bytes) : Except Fault (BeexResponse × Option Bytes) :=
  cursor.elim (.ok (r, none)) (run r)

variable {run : Nat → BeexResponse → Bytes → Except Fault (BeexResponse × Option Bytes)}
  {round : BeexResponse → Bytes → BeexResponse → Option Bytes → Prop}

/-- `run` is a loop of as many rounds as it has to make, or up to the one that gives up. -/
def Rounds (run : Nat → BeexResponse → Bytes → Except Fault (BeexResponse × Option Bytes))
    (round : BeexResponse → Bytes → BeexResponse → Option Bytes → Prop) : Prop :=
  ∀ n r p result, run (n + 1) r p = .ok result ↔
    ∃ r₁ cursor, round r p r₁ cursor ∧ goesOn (run n) r₁ cursor = .ok result

/-- What every round keeps, and what follows the last one, holds at the end. -/
theorem Rounds.invariant (hrun : Rounds run round) {I : BeexResponse → Option Bytes → Prop}
    (hround : ∀ {r p r₁ cursor}, I r (some p) → round r p r₁ cursor → I r₁ cursor)
    (hend : ∀ {r p r' cursor}, I r (some p) → run 0 r p = .ok (r', cursor) → I r' cursor)
    {n : Nat} {r r' : BeexResponse} {p : Bytes} {cursor' : Option Bytes}
    (h : run n r p = .ok (r', cursor')) (hI : I r (some p)) : I r' cursor' := by
  induction n generalizing r p with
  | zero => exact hend hI h
  | succ n ih =>
    obtain ⟨r₁, cursor, hr₁, hgoes⟩ := (hrun n r p _).mp h
    have hI₁ := hround hI hr₁
    cases cursor with
    | none =>
      obtain ⟨rfl, rfl⟩ := Prod.mk.inj (Except.ok.inj hgoes)
      exact hI₁
    | some p₁ => exact ih hgoes hI₁

/-- What neither a round nor the end forgets: a shift too wide. -/
structure KeepsWide (run : Nat → BeexResponse → Bytes → Except Fault (BeexResponse × Option Bytes))
    (round : BeexResponse → Bytes → BeexResponse → Option Bytes → Prop) : Prop where
  rounds : Rounds run round
  round : ∀ {r p r₁ cursor}, r.wideShift = true → round r p r₁ cursor → r₁.wideShift = true
  last : ∀ {r p r' cursor}, r.wideShift = true → run 0 r p = .ok (r', cursor) → r'.wideShift = true

theorem KeepsWide.narrow (h : KeepsWide run round) {n : Nat} {r : BeexResponse} {p : Bytes} :
    Narrow (run (n + 1) r p) ↔ ∃ r₁ cursor, round r p r₁ cursor ∧ r₁.wideShift = false ∧
      ∀ p₁, cursor = some p₁ → Narrow (run n r₁ p₁) := by
  constructor
  · rintro ⟨r', cursor', hrun, hwide⟩
    obtain ⟨r₁, cursor, hround, hgoes⟩ := (h.rounds n r p _).mp hrun
    refine ⟨r₁, cursor, hround, ?_, ?_⟩
    · by_contra hwide₁
      have hkept : r'.wideShift = true := by
        cases cursor with
        | none =>
          obtain ⟨rfl, -⟩ := Prod.mk.inj (Except.ok.inj hgoes)
          exact Bool.of_not_eq_false hwide₁
        | some p₁ =>
          exact h.rounds.invariant (I := fun r _ => r.wideShift = true) h.round h.last hgoes
            (Bool.of_not_eq_false hwide₁)
      simp [hwide] at hkept
    · rintro p₁ rfl
      exact ⟨r', cursor', hgoes, hwide⟩
  · rintro ⟨r₁, cursor, hround, hwide, hgoes⟩
    cases cursor with
    | none => exact ⟨r₁, none, (h.rounds n r p _).mpr ⟨r₁, none, hround, rfl⟩, hwide⟩
    | some p₁ =>
      obtain ⟨r', cursor', hrun, hwide'⟩ := hgoes p₁ rfl
      exact ⟨r', cursor', (h.rounds n r p _).mpr ⟨r₁, some p₁, hround, hrun⟩, hwide'⟩

/-! ## The loop over the body -/

/-- What a round of the loop does behind the key `k`, with `p` ahead: it goes on with what is ahead then,
or gives up. -/
inductive BodyRound (r : BeexResponse) (k : Nat) (p : Bytes) : BeexResponse → Option Bytes → Prop
  | noText : IsKey beexError k → Foreign .str p → BodyRound r k p r none
  | error {w : StrWidth} {s p' : Bytes} : IsKey beexError k → s.length < w.bound →
    p = (Doc.str w s).encode ++ p' → BodyRound r k p (r.takeError s) (some p')
  | noArray : IsKey beexData k → Foreign .array p → BodyRound r k p r none
  | data {c : UInt8} {q p' : Bytes} : IsKey beexData k → p = c :: q → mpTypeof c = .array →
    mpNext p = .ok p' → BodyRound r k p (r.takeData p (p.length - p'.length)) (some p')
  | other {p' : Bytes} : ¬ IsKey beexError k → ¬ IsKey beexData k → mpNext p = .ok p' →
    BodyRound r k p (r.mark (toUint32 k)) (some p')

/-- A round of the loop, with its key ahead. -/
def EntryRound (r : BeexResponse) (p : Bytes) (r₁ : BeexResponse) (cursor : Option Bytes) : Prop :=
  ∃ k rest, mpDecodeUint p = .ok (k, rest) ∧ BodyRound r k rest r₁ cursor

theorem isKey_data {k : Nat} (h : IsKey beexData k) : ¬ IsKey beexError k := by
  unfold IsKey at *
  rw [h]
  decide

theorem responseBody_round {n : Nat} {r : BeexResponse} {p : Bytes} {result : BeexResponse × Option Bytes} :
    responseBody (n + 1) r p = .ok result ↔ ∃ k rest, mpDecodeUint p = .ok (k, rest) ∧
      ∃ r₁ cursor, BodyRound r k rest r₁ cursor ∧ goesOn (responseBody n) r₁ cursor = .ok result := by
  simp only [responseBody, except_bind_eq_ok, Prod.exists]
  refine exists_congr fun k => exists_congr fun rest => and_congr_right fun _ => ?_
  by_cases herror : IsKey beexError k
  · have hkey : toUint32 k = beexError.toNat := herror
    rw [if_pos hkey]
    simp only [except_bind_eq_ok]
    constructor
    · rintro ⟨t, ht, h⟩
      split at h
      case isTrue hne => exact ⟨r, none, .noText herror (foreign_iff.mpr ⟨t, ht, hne⟩), h⟩
      case isFalse =>
        obtain ⟨⟨s, p'⟩, hs, h⟩ := except_bind_eq_ok.mp h
        obtain ⟨w, hw, hp⟩ := decodeStr_eq_ok.mp hs
        rw [hkey] at h
        exact ⟨_, _, .error herror hw hp, h⟩
    · rintro ⟨r₁, cursor, hround, h⟩
      cases hround with
      | noText _ hforeign =>
        obtain ⟨t, ht, hne⟩ := foreign_iff.mp hforeign
        exact ⟨t, ht, (if_pos hne).trans h⟩
      | error _ hw hp =>
        subst hp
        refine ⟨.str, typeAt_str hw _, (if_neg (not_not.mpr rfl)).trans ?_⟩
        rw [decodeStr_doc hw, hkey]
        exact h
      | noArray hdata => exact absurd herror (isKey_data hdata)
      | data hdata => exact absurd herror (isKey_data hdata)
      | other hnot => exact absurd herror hnot
  · have hkey : ¬ toUint32 k = beexError.toNat := herror
    rw [if_neg hkey]
    by_cases hdata : IsKey beexData k
    · have hkey' : toUint32 k = beexData.toNat := hdata
      rw [if_pos hkey']
      simp only [except_bind_eq_ok]
      constructor
      · rintro ⟨t, ht, h⟩
        split at h
        case isTrue hne => exact ⟨r, none, .noArray hdata (foreign_iff.mpr ⟨t, ht, hne⟩), h⟩
        case isFalse harray =>
          obtain ⟨p', hp', h⟩ := except_bind_eq_ok.mp h
          obtain ⟨c, q, hq, hc⟩ := typeAt_eq_ok.mp ht
          rw [hkey'] at h
          exact ⟨_, _, .data hdata hq (hc.trans (not_not.mp harray)) hp', h⟩
      · rintro ⟨r₁, cursor, hround, h⟩
        cases hround with
        | noArray _ hforeign =>
          obtain ⟨t, ht, hne⟩ := foreign_iff.mp hforeign
          exact ⟨t, ht, (if_pos hne).trans h⟩
        | data _ hq hc hp' =>
          refine ⟨.array, typeAt_eq_ok.mpr ⟨_, _, hq, hc⟩, (if_neg (not_not.mpr rfl)).trans ?_⟩
          rw [hp', hkey']
          exact h
        | noText herror' => exact absurd herror' herror
        | error herror' => exact absurd herror' herror
        | other _ hnot => exact absurd hdata hnot
    · have hkey' : ¬ toUint32 k = beexData.toNat := hdata
      rw [if_neg hkey']
      simp only [except_bind_eq_ok]
      constructor
      · rintro ⟨p', hp', h⟩
        exact ⟨_, _, .other herror hdata hp', h⟩
      · rintro ⟨r₁, cursor, hround, h⟩
        cases hround with
        | other _ _ hp' => exact ⟨_, hp', h⟩
        | noText herror' => exact absurd herror' herror
        | error herror' => exact absurd herror' herror
        | noArray hdata' => exact absurd hdata' hdata
        | data hdata' => exact absurd hdata' hdata

theorem BodyRound.wideShift {r r₁ : BeexResponse} {k : Nat} {p : Bytes} {cursor : Option Bytes}
    (h : BodyRound r k p r₁ cursor) : r₁.wideShift = r.wideShift ∨
      (¬ IsKey beexError k ∧ ¬ IsKey beexData k ∧ 64 ≤ toUint32 k ∧ r₁.wideShift = true) := by
  cases h with
  | noText | noArray => exact .inl rfl
  | error =>
    refine .inl ?_
    rw [BeexResponse.takeError, mark_wideShift]
    rfl
  | data =>
    refine .inl ?_
    rw [BeexResponse.takeData, mark_wideShift]
    rfl
  | other herror hdata =>
    rw [mark_wideShift]
    by_cases hwide : 64 ≤ toUint32 k
    · exact .inr ⟨herror, hdata, hwide, by simp [hwide]⟩
    · exact .inl (by simp [hwide])

theorem responseBody_rounds : Rounds responseBody EntryRound := by
  intro n r p result
  rw [responseBody_round]
  constructor
  · rintro ⟨k, rest, hkey, r₁, cursor, hround, hgoes⟩
    exact ⟨r₁, cursor, ⟨k, rest, hkey, hround⟩, hgoes⟩
  · rintro ⟨r₁, cursor, ⟨k, rest, hkey, hround⟩, hgoes⟩
    exact ⟨k, rest, hkey, r₁, cursor, hround, hgoes⟩

theorem responseBody_keepsWide : KeepsWide responseBody EntryRound where
  rounds := responseBody_rounds
  round := by
    rintro r p r₁ cursor hwide ⟨k, rest, -, hround⟩
    rcases hround.wideShift with heq | ⟨-, -, -, heq⟩
    · exact heq.trans hwide
    · exact heq
  last := by
    intro r p r' cursor hwide h
    obtain ⟨rfl, -⟩ := Prod.mk.inj (Except.ok.inj h)
    exact hwide

/-- The loop over the body gets along with what is ahead exactly when that is as `BodyInside` says. -/
theorem responseBody_inside {n : Nat} {r : BeexResponse} (hr : r.wideShift = false) {p : Bytes} :
    Narrow (responseBody n r p) ↔ BodyInside n p := by
  induction n generalizing r p with
  | zero => exact iff_of_true ⟨r, some p, rfl, hr⟩ .done
  | succ n ih =>
    rw [responseBody_keepsWide.narrow]
    constructor
    · rintro ⟨r₁, cursor, ⟨k, rest, hkey, hround⟩, hwide, hgoes⟩
      obtain ⟨w, hk, rfl⟩ := decodeUint_eq_ok.mp hkey
      cases hround with
      | noText herror hforeign => exact .noText hk herror hforeign
      | error herror hw hp =>
        subst hp
        exact .error hk herror hw ((ih hwide).mp (hgoes _ rfl))
      | noArray hdata hforeign => exact .noArray hk hdata hforeign
      | data hdata hp hc hp' =>
        subst hp
        exact .data hk hdata hc hp' ((ih hwide).mp (hgoes _ rfl))
      | other herror hdata hp' =>
        have hlt : toUint32 k < 64 := by
          rw [mark_wideShift] at hwide
          simpa using (Bool.or_eq_false_iff.mp hwide).1
        exact .other hk herror hdata hlt hp' ((ih hwide).mp (hgoes _ rfl))
    · intro h
      -- a round that goes on leaves no shift too wide
      have hon {w : IntWidth} {k : Nat} {rest p₁ : Bytes} {r₁ : BeexResponse} (hk : k < w.uintBound)
          (hround : BodyRound r k rest r₁ (some p₁))
          (hlt : IsKey beexError k ∨ IsKey beexData k ∨ toUint32 k < 64) (hp : BodyInside n p₁) :
          ∃ r₁ cursor, EntryRound r ((Doc.uint w k).encode ++ rest) r₁ cursor ∧ r₁.wideShift = false ∧
            ∀ p₁, cursor = some p₁ → Narrow (responseBody n r₁ p₁) := by
        have hwide : r₁.wideShift = false := by
          rcases hround.wideShift with heq | ⟨herror, hdata, hge, -⟩
          · exact heq.trans hr
          · rcases hlt with hlt | hlt | hlt
            · exact absurd hlt herror
            · exact absurd hlt hdata
            · omega
        refine ⟨r₁, some p₁, ⟨k, rest, decodeUint_doc hk _, hround⟩, hwide, fun p₂ heq => ?_⟩
        exact Option.some.inj heq ▸ (ih hwide).mpr hp
      cases h with
      | noText hk herror hforeign =>
        exact ⟨r, none, ⟨_, _, decodeUint_doc hk _, .noText herror hforeign⟩, hr, nofun⟩
      | @error _ _ k w s p hk herror hs hp => exact hon hk (.error herror hs rfl) (.inl herror) hp
      | noArray hk hdata hforeign =>
        exact ⟨r, none, ⟨_, _, decodeUint_doc hk _, .noArray hdata hforeign⟩, hr, nofun⟩
      | @data _ _ k c p p' hk hdata hc hnext hp =>
        exact hon hk (.data hdata rfl hc hnext) (.inr (.inl hdata)) hp
      | @other _ _ k p p' hk herror hdata hlt hnext hp =>
        exact hon hk (.other herror hdata hnext) (.inr (.inr hlt)) hp

/-! ## The loop over the header -/

theorem uint_lead : ∀ c : UInt8, mpTypeof c = .uint →
    c ≤ 0x7f ∨ c = 0xcc ∨ c = 0xcd ∨ c = 0xce ∨ c = 0xcf :=
  forall_byte (by decide)

/-- Nothing is skipped unless it is there. -/
theorem hint_le_of_mpNext {c : UInt8} {n : Nat} (hhint : mpParserHint c = n) {q p' : Bytes}
    (h : mpNext (c :: q) = .ok p') : n ≤ q.length := by
  have hbody : mpCheckHint (mpParserHint c) 1 q q.length =
      .ok (.next 1 (q.drop n) ((q.length : Int) - n)) := by
    unfold mpCheckHint mpCheckSkip
    rw [if_pos (by omega), hhint, Int.toNat_natCast]
  by_contra hgt
  have hround : mpNextBody 1 (c :: q) = .error .oob := by
    simp only [mpNextBody, hbody]
    exact if_pos (by omega)
  rw [mpNext, mpNextLoop, if_pos (by decide), hround] at h
  cases h

theorem number_of_le {k : Nat} {q : Bytes} (h : k ≤ q.length) :
    Codec.Reader.number Fault.oob k q = .ok (Codec.ofBE (q.take k), q.drop k) := by
  have hlen : (q.take k).length = k := List.length_take_of_le h
  refine Codec.Reader.number_eq_ok.mpr ⟨Codec.ofBE_lt_of_length hlen, ?_⟩
  rw [← Codec.eq_toBE hlen, List.take_append_drop]

/-- An unsigned number can be decoded when there are as many bytes as its lead byte announces. -/
theorem decodeUint_of_hint {c : UInt8} (htype : mpTypeof c = .uint) {q : Bytes}
    (h : ∀ n : Nat, mpParserHint c = n → n ≤ q.length) : ∃ v p', mpDecodeUint (c :: q) = .ok (v, p') := by
  rcases uint_lead c htype with hc | rfl | rfl | rfl | rfl
  · have hlt : c.toNat < 128 := Nat.lt_succ_of_le (UInt8.le_iff_toNat_le.mp hc)
    exact ⟨c.toNat, q, decodeUint_eq_ok.mpr ⟨.fix, hlt, by simp [Doc.encode, Doc.head, IntWidth.uintHead]⟩⟩
  · exact ⟨_, _, number_of_le (h 1 rfl)⟩
  · exact ⟨_, _, number_of_le (h 2 rfl)⟩
  · exact ⟨_, _, number_of_le (h 4 rfl)⟩
  · exact ⟨_, _, number_of_le (h 8 rfl)⟩

theorem mpNext_of_decodeUint {p q : Bytes} {k : Nat} (h : mpDecodeUint p = .ok (k, q)) :
    mpNext p = .ok q := by
  obtain ⟨w, hk, rfl⟩ := decodeUint_eq_ok.mp h
  have hlight : ((Doc.uint w k).peak 0 : Int) ≤ intMax := by simp [Doc.peak, intMax]
  exact @mpNext_doc (.uint w k) hk hlight q

/-- What `mp_next` skips behind the lead byte of an unsigned number is what `mp_decode_uint` decodes. -/
theorem decodeUint_of_mpNext {p p' : Bytes} (htype : typeAt p = .ok .uint) (h : mpNext p = .ok p') :
    ∃ v, mpDecodeUint p = .ok (v, p') := by
  obtain ⟨c, q, rfl, hc⟩ := typeAt_eq_ok.mp htype
  obtain ⟨v, p'', hdecode⟩ := decodeUint_of_hint hc fun n hn => hint_le_of_mpNext hn h
  have heq := Except.ok.inj ((mpNext_of_decodeUint hdecode).symm.trans h)
  exact ⟨v, heq ▸ hdecode⟩

/-- What a round of the loop does with `p` ahead. -/
inductive HeaderRound (r : BeexResponse) (p : Bytes) : BeexResponse → Option Bytes → Prop
  | noKey : Foreign .uint p → HeaderRound r p r none
  | noNumber {k : Nat} {q : Bytes} : mpDecodeUint p = .ok (k, q) → Foreign .uint q → HeaderRound r p r none
  | number {k v : Nat} {q p' : Bytes} : mpDecodeUint p = .ok (k, q) → mpDecodeUint q = .ok (v, p') →
    HeaderRound r p (r.take (toUint32 k) v) (some p')

theorem typeAt_of_decodeUint {p q : Bytes} {k : Nat} (h : mpDecodeUint p = .ok (k, q)) :
    typeAt p = .ok .uint := by
  obtain ⟨w, hk, rfl⟩ := decodeUint_eq_ok.mp h
  exact typeAt_uint hk q

/-- What a round does behind the key `k` when an unsigned number is ahead. -/
theorem header_number {n k : Nat} {r : BeexResponse} {q : Bytes} {result : BeexResponse × Option Bytes}
    (hq : typeAt q = .ok .uint) :
    (if toUint32 k = beexSync.toNat then do
        let (sync, p) ← mpDecodeUint q
        responseHeader n ({ r with sync := UInt32.ofNat sync }.mark (toUint32 k)) p
      else if toUint32 k = beexCode.toNat then do
        let (code, p) ← mpDecodeUint q
        responseHeader n ({ r with code := UInt32.ofNat code }.mark (toUint32 k)) p
      else do
        let p ← mpNext q
        responseHeader n (r.mark (toUint32 k)) p) = .ok result ↔
      ∃ v p', mpDecodeUint q = .ok (v, p') ∧ responseHeader n (r.take (toUint32 k) v) p' = .ok result := by
  by_cases hsync : toUint32 k = beexSync.toNat
  · simp only [if_pos hsync, except_bind_eq_ok, Prod.exists, BeexResponse.take]
  · by_cases hcode : toUint32 k = beexCode.toNat
    · simp only [if_neg hsync, if_pos hcode, except_bind_eq_ok, Prod.exists, BeexResponse.take]
    · simp only [if_neg hsync, if_neg hcode, except_bind_eq_ok, BeexResponse.take]
      constructor
      · rintro ⟨p', hp', h⟩
        obtain ⟨v, hv⟩ := decodeUint_of_mpNext hq hp'
        exact ⟨v, p', hv, h⟩
      · rintro ⟨v, p', hv, h⟩
        exact ⟨p', mpNext_of_decodeUint hv, h⟩

theorem responseHeader_round {n : Nat} {r : BeexResponse} {p : Bytes}
    {result : BeexResponse × Option Bytes} : responseHeader (n + 1) r p = .ok result ↔
      ∃ r₁ cursor, HeaderRound r p r₁ cursor ∧ goesOn (responseHeader n) r₁ cursor = .ok result := by
  simp only [responseHeader, except_bind_eq_ok]
  constructor
  · rintro ⟨t, ht, h⟩
    split at h
    case isTrue hne => exact ⟨r, none, .noKey (foreign_iff.mpr ⟨t, ht, hne⟩), h⟩
    case isFalse =>
      obtain ⟨⟨k, q⟩, hk, h⟩ := except_bind_eq_ok.mp h
      obtain ⟨t', ht', h⟩ := except_bind_eq_ok.mp h
      split at h
      case isTrue hne => exact ⟨r, none, .noNumber hk (foreign_iff.mpr ⟨t', ht', hne⟩), h⟩
      case isFalse huint =>
        obtain rfl := not_not.mp huint
        obtain ⟨v, p', hv, h⟩ := (header_number ht').mp h
        exact ⟨_, _, .number hk hv, h⟩
  · rintro ⟨r₁, cursor, hround, h⟩
    cases hround with
    | noKey hforeign =>
      obtain ⟨t, ht, hne⟩ := foreign_iff.mp hforeign
      exact ⟨t, ht, (if_pos hne).trans h⟩
    | noNumber hk hforeign =>
      obtain ⟨t, ht, hne⟩ := foreign_iff.mp hforeign
      refine ⟨.uint, typeAt_of_decodeUint hk, (if_neg (not_not.mpr rfl)).trans ?_⟩
      exact except_bind_eq_ok.mpr ⟨_, hk, except_bind_eq_ok.mpr ⟨t, ht, (if_pos hne).trans h⟩⟩
    | number hk hv =>
      refine ⟨.uint, typeAt_of_decodeUint hk, (if_neg (not_not.mpr rfl)).trans ?_⟩
      refine except_bind_eq_ok.mpr ⟨_, hk, except_bind_eq_ok.mpr ⟨.uint, typeAt_of_decodeUint hv, ?_⟩⟩
      exact (if_neg (not_not.mpr rfl)).trans ((header_number (typeAt_of_decodeUint hv)).mpr ⟨_, _, hv, h⟩)

/-! ## Maps -/

theorem decodeMap_eq_ok {p p' : Bytes} {n : Nat} :
    mpDecodeMap p = .ok (n, p') ↔ ∃ w : SeqWidth, n < w.bound ∧ p = w.mapHead n ++ p' := by
  constructor
  · exact mpDecodeMap_ok
  · rintro ⟨w, hn, rfl⟩
    exact mpDecodeMap_reads hn p'

theorem map_lead : ∀ c : UInt8, (c ≥ 0x80 ∧ c ≤ 0x8f) ∨ c = 0xde ∨ c = 0xdf → mpTypeof c = .map :=
  forall_byte (by decide)

theorem typeAt_of_decodeMap {p p' : Bytes} {n : Nat} (hrun : mpDecodeMap p = .ok (n, p')) :
    typeAt p = .ok .map := by
  obtain ⟨c, mid, hc, h⟩ := Codec.Reader.bind_eq_ok.mp hrun
  obtain rfl := Codec.Reader.byte_eq_ok.mp hc
  refine typeAt_eq_ok.mpr ⟨c, mid, rfl, map_lead c ?_⟩
  split_ifs at h with hfix h16 h32
  · exact .inl hfix
  · exact .inr (.inl h16)
  · exact .inr (.inr h32)
  · exact nomatch h

/-- The part of `php_tp_response` from a map on. -/
def atMap (r : BeexResponse) (loop : Nat → Bytes → Except Fault (BeexResponse × Option Bytes)) (p : Bytes) :
    Except Fault (BeexResponse × Option Bytes) := do
  if (← typeAt p) ≠ .map then return (r, none)
  let (n, p) ← mpDecodeMap p
  loop n p

theorem atMap_eq_ok {r : BeexResponse} {loop : Nat → Bytes → Except Fault (BeexResponse × Option Bytes)}
    {p : Bytes} {result : BeexResponse × Option Bytes} : atMap r loop p = .ok result ↔
      (Foreign .map p ∧ result = (r, none)) ∨ ∃ n p', mpDecodeMap p = .ok (n, p') ∧
        loop n p' = .ok result := by
  unfold atMap
  rw [except_bind_eq_ok]
  constructor
  · rintro ⟨t, ht, h⟩
    split at h
    case isTrue hne => exact .inl ⟨foreign_iff.mpr ⟨t, ht, hne⟩, (Except.ok.inj h).symm⟩
    case isFalse =>
      obtain ⟨⟨n, p'⟩, hn, h⟩ := except_bind_eq_ok.mp h
      exact .inr ⟨n, p', hn, h⟩
  · rintro (⟨hforeign, rfl⟩ | ⟨n, p', hn, h⟩)
    · obtain ⟨t, ht, hne⟩ := foreign_iff.mp hforeign
      exact ⟨t, ht, if_pos hne⟩
    · refine ⟨.map, typeAt_of_decodeMap hn, (if_neg (not_not.mpr rfl)).trans ?_⟩
      exact except_bind_eq_ok.mpr ⟨(n, p'), hn, h⟩

/-- A map lets the parse return when its entries do. -/
theorem narrow_atMap {r : BeexResponse} (hr : r.wideShift = false)
    {loop : Nat → Bytes → Except Fault (BeexResponse × Option Bytes)} {entries : Nat → Bytes → Prop}
    (hloop : ∀ n p, Narrow (loop n p) ↔ entries n p) {p : Bytes} :
    Narrow (atMap r loop p) ↔ MapInside entries p := by
  constructor
  · rintro ⟨r', cursor, hrun, hwide⟩
    rcases atMap_eq_ok.mp hrun with ⟨hforeign, -⟩ | ⟨n, p', hn, hrun⟩
    · exact .inl hforeign
    · obtain ⟨w, hw, hp⟩ := decodeMap_eq_ok.mp hn
      exact .inr ⟨w, n, p', hw, hp, (hloop n p').mp ⟨r', cursor, hrun, hwide⟩⟩
  · rintro (hforeign | ⟨w, n, p', hw, hp, hentries⟩)
    · exact ⟨r, none, atMap_eq_ok.mpr (.inl ⟨hforeign, rfl⟩), hr⟩
    · obtain ⟨r', cursor, hrun, hwide⟩ := (hloop n p').mpr hentries
      exact ⟨r', cursor, atMap_eq_ok.mpr (.inr ⟨n, p', decodeMap_eq_ok.mpr ⟨w, hw, hp⟩, hrun⟩), hwide⟩

/-! ## The whole packet -/

/-- The part of `php_tp_response` from the header on, with `n` entries of it to come. -/
def fromHeader (n : Nat) (r : BeexResponse) (p : Bytes) : Except Fault (BeexResponse × Option Bytes) := do
  let (r, cursor) ← responseHeader n r p
  goesOn (fun r => atMap r fun n => responseBody n r) r cursor

theorem phpTpResponse_eq (buf : Bytes) :
    phpTpResponse buf = atMap .zero (fun n => fromHeader n .zero) buf := by
  unfold phpTpResponse atMap fromHeader
  refine bind_congr fun t => ?_
  split
  · rfl
  · refine bind_congr fun ⟨n, p⟩ => bind_congr fun ⟨r, cursor⟩ => ?_
    cases cursor with
    | none => rfl
    | some p' => rfl

theorem fromHeader_zero (r : BeexResponse) (p : Bytes) :
    fromHeader 0 r p = atMap r (fun n => responseBody n r) p := rfl

theorem fromHeader_rounds : Rounds fromHeader HeaderRound := by
  intro n r p result
  simp only [fromHeader, except_bind_eq_ok, responseHeader_round]
  constructor
  · rintro ⟨⟨r', cursor'⟩, ⟨r₁, cursor, hround, hgoes⟩, h⟩
    refine ⟨r₁, cursor, hround, ?_⟩
    cases cursor with
    | none =>
      obtain ⟨rfl, rfl⟩ := Prod.mk.inj (Except.ok.inj hgoes)
      exact h
    | some p₁ => exact except_bind_eq_ok.mpr ⟨(r', cursor'), hgoes, h⟩
  · rintro ⟨r₁, cursor, hround, h⟩
    cases cursor with
    | none => exact ⟨(r₁, none), ⟨r₁, none, hround, rfl⟩, h⟩
    | some p₁ =>
      obtain ⟨result₁, hgoes, h⟩ := except_bind_eq_ok.mp h
      exact ⟨result₁, ⟨r₁, some p₁, hround, hgoes⟩, h⟩

/-- What a map leaves of an invariant that the loop over the body keeps. -/
theorem atMap_invariant {I : BeexResponse → Option Bytes → Prop} {r r' : BeexResponse} {p : Bytes}
    {cursor : Option Bytes} (h : atMap r (fun n => responseBody n r) p = .ok (r', cursor))
    (hnone : I r none) (hmap : ∀ n p', mpDecodeMap p = .ok (n, p') → I r (some p'))
    (hround : ∀ {r p r₁ cursor}, I r (some p) → EntryRound r p r₁ cursor → I r₁ cursor) : I r' cursor := by
  rcases atMap_eq_ok.mp h with ⟨-, heq⟩ | ⟨n, p', hn, hrun⟩
  · obtain ⟨rfl, rfl⟩ := Prod.mk.inj heq
    exact hnone
  · refine responseBody_rounds.invariant hround ?_ hrun (hmap n p' hn)
    intro r p r' cursor hI hend
    obtain ⟨rfl, rfl⟩ := Prod.mk.inj (Except.ok.inj hend)
    exact hI

theorem fromHeader_keepsWide : KeepsWide fromHeader HeaderRound where
  rounds := fromHeader_rounds
  round := by
    intro r p r₁ cursor hwide hround
    cases hround with
    | noKey | noNumber => exact hwide
    | number => rw [take_wideShift, hwide, Bool.or_true]
  last := by
    intro r p r' cursor hwide h
    exact atMap_invariant (I := fun r _ => r.wideShift = true) h hwide (fun _ _ _ => hwide)
      responseBody_keepsWide.round

/-- The loop over the header, and what follows it, get along with what is ahead exactly when that is as
`HeaderInside` says. -/
theorem fromHeader_inside {n : Nat} {r : BeexResponse} (hr : r.wideShift = false) {p : Bytes} :
    Narrow (fromHeader n r p) ↔ HeaderInside n p := by
  induction n generalizing r p with
  | zero =>
    rw [fromHeader_zero, narrow_atMap hr fun n p => responseBody_inside hr]
    constructor
    · exact .done
    · rintro ⟨h⟩
      exact h
  | succ n ih =>
    rw [fromHeader_keepsWide.narrow]
    constructor
    · rintro ⟨r₁, cursor, hround, hwide, hgoes⟩
      cases hround with
      | noKey hforeign => exact .noKey hforeign
      | noNumber hk hforeign =>
        obtain ⟨w, hw, rfl⟩ := decodeUint_eq_ok.mp hk
        exact .noNumber hw hforeign
      | number hk hv =>
        obtain ⟨w, hw, rfl⟩ := decodeUint_eq_ok.mp hk
        obtain ⟨w', hw', rfl⟩ := decodeUint_eq_ok.mp hv
        rw [take_wideShift] at hwide
        exact .number hw hw' (by simpa using (Bool.or_eq_false_iff.mp hwide).1) ((ih (by
          rw [take_wideShift]; exact hwide)).mp (hgoes _ rfl))
    · intro h
      cases h with
      | noKey hforeign => exact ⟨r, none, .noKey hforeign, hr, nofun⟩
      | noNumber hk hforeign => exact ⟨r, none, .noNumber (decodeUint_doc hk _) hforeign, hr, nofun⟩
      | @number _ _ _ k v p' hk hv hlt hp =>
        have hwide : (r.take (toUint32 k) v).wideShift = false := by
          simp [take_wideShift, hr, hlt]
        refine ⟨_, _, .number (decodeUint_doc hk _) (decodeUint_doc hv _), hwide, ?_⟩
        intro p₁ heq
        exact Option.some.inj heq ▸ (ih hwide).mpr hp

/-! ## Pointers -/

/-- The cursor and what has been stored point into the packet. -/
structure Within (buf : Bytes) (r : BeexResponse) (cursor : Option Bytes) : Prop where
  cursor : ∀ p, cursor = some p → p <:+ buf
  error : ∀ error, r.error = some error → error <:+: buf
  data : ∀ data, r.data = some data → ∃ k, data = buf.drop k ∧ k + r.dataLen ≤ buf.length

variable {buf : Bytes} {r : BeexResponse} {cursor : Option Bytes}

theorem Within.none (h : Within buf r cursor) : Within buf r none where
  cursor := nofun
  error := h.error
  data := h.data

theorem Within.move (h : Within buf r cursor) {p : Bytes} (hp : p <:+ buf) : Within buf r (some p) where
  cursor := by
    rintro _ ⟨⟩
    exact hp
  error := h.error
  data := h.data

theorem Within.of_eq (h : Within buf r cursor) {r₁ : BeexResponse} (herror : r₁.error = r.error)
    (hdata : r₁.data = r.data) (hlen : r₁.dataLen = r.dataLen) : Within buf r₁ cursor where
  cursor := h.cursor
  error := by
    rw [herror]
    exact h.error
  data := by
    rw [hdata, hlen]
    exact h.data

theorem Within.mark (h : Within buf r cursor) (key : Nat) : Within buf (r.mark key) cursor :=
  h.of_eq (mark_rest r key).2.1 (mark_rest r key).2.2 (mark_dataLen r key)

theorem Within.take (h : Within buf r cursor) (key n : Nat) : Within buf (r.take key n) cursor := by
  refine Within.mark (h.of_eq ?_ ?_ ?_) key
  all_goals
    split
    · rfl
    · split <;> rfl

theorem decodeUint_suffix {p q : Bytes} {k : Nat} (h : mpDecodeUint p = .ok (k, q)) : q <:+ p :=
  mpNext_suffix (mpNext_of_decodeUint h)

theorem Within.headerRound {p : Bytes} {r₁ : BeexResponse} (h : Within buf r (some p))
    (hround : HeaderRound r p r₁ cursor) : Within buf r₁ cursor := by
  have hp : p <:+ buf := h.cursor p rfl
  cases hround with
  | noKey | noNumber => exact h.none
  | number hk hv =>
    exact (h.move (((decodeUint_suffix hv).trans (decodeUint_suffix hk)).trans hp)).take _ _

theorem Within.entryRound {p : Bytes} {r₁ : BeexResponse} (h : Within buf r (some p))
    (hround : EntryRound r p r₁ cursor) : Within buf r₁ cursor := by
  obtain ⟨k, rest, hkey, hround⟩ := hround
  have hrest : rest <:+ buf := (decodeUint_suffix hkey).trans (h.cursor p rfl)
  cases hround with
  | noText | noArray => exact h.none
  | @error w s p' _ hs hp =>
    subst hp
    refine Within.mark ?_ _
    refine ⟨?_, ?_, h.data⟩
    · rintro _ ⟨⟩
      exact (List.suffix_append _ _).trans hrest
    · rintro _ ⟨⟩
      have hinfix : s <:+: (Doc.str w s).encode ++ p' := ⟨w.head s.length, p', rfl⟩
      exact hinfix.trans hrest.isInfix
  | @data _ _ p' _ _ _ hnext =>
    refine Within.mark ?_ _
    refine ⟨?_, h.error, ?_⟩
    · rintro _ ⟨⟩
      exact (mpNext_suffix hnext).trans hrest
    · rintro _ ⟨⟩
      have hlen := hrest.length_le
      exact ⟨buf.length - rest.length, List.suffix_iff_eq_drop.mp hrest, by dsimp only; omega⟩
  | other _ _ hnext => exact (h.move ((mpNext_suffix hnext).trans hrest)).mark _

theorem decodeMap_suffix {p p' : Bytes} {n : Nat} (h : mpDecodeMap p = .ok (n, p')) : p' <:+ p := by
  obtain ⟨w, -, rfl⟩ := decodeMap_eq_ok.mp h
  exact List.suffix_append _ _

theorem Within.map {cursor₀ : Option Bytes} (h : Within buf r cursor₀) {p : Bytes} (hp : p <:+ buf)
    {r' : BeexResponse} (hrun : atMap r (fun n => responseBody n r) p = .ok (r', cursor)) :
    Within buf r' cursor :=
  atMap_invariant hrun h.none (fun _ _ hn => h.move ((decodeMap_suffix hn).trans hp)) .entryRound

/-- What `php_tp_response` stores points into the packet. -/
theorem phpTpResponse_within (hrun : phpTpResponse buf = .ok (r, cursor)) : Within buf r cursor := by
  have hzero : Within buf .zero none := ⟨nofun, nofun, nofun⟩
  rw [phpTpResponse_eq] at hrun
  rcases atMap_eq_ok.mp hrun with ⟨-, heq⟩ | ⟨n, p', hn, hrun⟩
  · obtain ⟨rfl, rfl⟩ := Prod.mk.inj heq
    exact hzero
  · refine fromHeader_rounds.invariant Within.headerRound ?_ hrun (hzero.move (decodeMap_suffix hn))
    intro r p r' cursor h hend
    exact h.map (h.cursor p rfl) hend

/-- `php_tp_response` stays in its packet exactly when what it takes from it is there, up to where it gives
up. -/
theorem phpTpResponse_inside (buf : Bytes) : StaysInside buf ↔ PacketInside buf := by
  have hnarrow : Narrow (phpTpResponse buf) ↔ PacketInside buf := by
    rw [phpTpResponse_eq]
    exact narrow_atMap rfl fun n p => fromHeader_inside rfl
  rw [← hnarrow]
  constructor
  · rintro ⟨r, cursor, hrun, hwide, -⟩
    exact ⟨r, cursor, hrun, hwide⟩
  · rintro ⟨r, cursor, hrun, hwide⟩
    have hwithin := phpTpResponse_within hrun
    refine ⟨r, cursor, hrun, hwide, ?_⟩
    rintro p rfl
    have hp := hwithin.cursor p rfl
    refine ⟨⟨buf.length - p.length, Nat.sub_le _ _, List.suffix_iff_eq_drop.mp hp⟩, hwithin.error,
      hwithin.data⟩

/-- An empty map has nothing behind it where the body would begin. -/
theorem phpTpResponse_outside : ¬ StaysInside [0x80] := by
  rintro ⟨r, cursor, hrun, -⟩
  exact nomatch hrun

end BeePhp
