import BeePhp.Codec.Doc
import BeePhp.Proofs.MachineProofs
import BeePhp.Proofs.MsgpuckProofs

/-!
# Proofs: mp_check

`mp_check` keeps a counter of the documents still to come. On well-formed documents one round of its
loop moves past the head of the document it is at, and the counter grows by the items that the head
announces (`mpCheckBody_head`). As long as an `int` can hold the number of pending documents the
counter is that number; once it cannot, the loop ends before the documents do (`mpCheckLoop_docs`).
-/

namespace BeePhp

open Codec (Bytes Doc encodeAll AllWF toBE twos IntWidth StrWidth BinWidth SeqWidth ExtWidth
  peakAll except_bind_eq_ok)
open Codec.Reader

/-! ## One round -/

/-- The counter after the head of a document. -/
def countHead (d : Doc) (k : Int) : Except Fault Int :=
  match d with
  | .array .w32 ds => .ok (toInt (k + ds.length))
  | .map .w32 ds => .ok (toInt (k + ds.length))
  | .array _ ds => signedInt (k + ds.length)
  | .map _ ds => signedInt (k + ds.length)
  | _ => .ok k

theorem mpCheckLength_fits {n x short len : Nat} {data : Bytes} {room : Int}
    {go : Nat → Except Fault CheckRound} (hlen : len < 256 ^ n) (hroom : (n + x : Nat) ≤ room) :
    mpCheckLength n x short (toBE n len ++ data) room go = go len := by
  unfold mpCheckLength
  rw [if_neg (by omega), number_eq_ok.mpr ⟨hlen, rfl⟩]

theorem mpCheckBody_cons {k room : Int} (hroom : 0 < room) (c : UInt8) (data : Bytes) :
    mpCheckBody k (c :: data) room = mpCheckHint (mpParserHint c) k data (room - 1) := by
  simp only [mpCheckBody]
  rw [if_neg (by omega)]

/-- A round at a head that is a lead byte with a hint for the bytes after it. -/
theorem mpCheckBody_skip {head bs : Bytes} {c : UInt8} {k room : Int} (hhead : head = c :: bs)
    (hhint : mpParserHint c = (bs.length : Int)) (hroom : (head.length : Int) ≤ room) (rest : Bytes) :
    mpCheckBody k (head ++ rest) room = .ok (.next k rest (room - head.length)) := by
  subst hhead
  simp only [List.length_cons] at hroom
  rw [List.cons_append, mpCheckBody_cons (by omega), hhint]
  simp only [mpCheckHint, ge_iff_le, Int.natCast_nonneg, if_true, Int.toNat_natCast, mpCheckSkip,
    List.drop_left, Except.ok.injEq, CheckRound.next.injEq, true_and, List.length_cons]
  omega

/-- A round at a head that is a lead byte, a length and as many bytes. -/
theorem mpCheckBody_string {head s : Bytes} {c : UInt8} {n x len : Nat} {k room : Int}
    (hhead : head = c :: (toBE n len ++ s)) (hlen : len < 256 ^ n) (hs : s.length = len + x)
    (hhint : ∀ data, mpCheckHint (mpParserHint c) k data (room - 1) =
      mpCheckLength n x 1 data (room - 1) fun len => mpCheckSkip k data (room - 1) (len + n + x))
    (hroom : (head.length : Int) ≤ room) (rest : Bytes) :
    mpCheckBody k (head ++ rest) room = .ok (.next k rest (room - head.length)) := by
  subst hhead
  simp only [List.length_cons, List.length_append, Codec.toBE_length] at hroom ⊢
  have hdrop : (toBE n len ++ s ++ rest).drop (len + n + x) = rest := by
    rw [List.drop_append, List.drop_eq_nil_of_le (by simp; omega)]
    simp [hs, show len + n + x - (n + (len + x)) = 0 by omega]
  rw [List.cons_append, mpCheckBody_cons (by omega), hhint, List.append_assoc,
    mpCheckLength_fits hlen (by omega), mpCheckSkip, ← List.append_assoc, hdrop]
  simp only [Except.ok.injEq, CheckRound.next.injEq, true_and]
  omega

/-- A round at a head that is a lead byte and a number of items. -/
theorem mpCheckBody_count {head : Bytes} {c : UInt8} {n short len : Nat} {k k' room : Int}
    (m : Nat → Nat) (hhead : head = c :: toBE n len) (hlen : len < 256 ^ n)
    (hhint : ∀ data, mpCheckHint (mpParserHint c) k data (room - 1) =
      mpCheckLength n 0 short data (room - 1) fun len => mpCheckCount k data (room - 1) (m len) n)
    (hroom : (head.length : Int) ≤ room) (rest : Bytes) (hk' : k' = k + m len) :
    mpCheckBody k (head ++ rest) room =
      (signedInt k').map fun k' => .next k' rest (room - head.length) := by
  subst hhead hk'
  simp only [List.length_cons, Codec.toBE_length] at hroom ⊢
  rw [List.cons_append, mpCheckBody_cons (by omega), hhint, mpCheckLength_fits hlen (by omega),
    mpCheckCount, show room - 1 - (n : Int) = room - ((n + 1 : Nat) : Int) by omega]
  have hdrop : (toBE n len ++ rest).drop n = rest := by
    rw [List.drop_append, List.drop_eq_nil_of_le (by simp)]
    simp
  rw [hdrop]
  cases signedInt (k + m len) <;> rfl

theorem mpCheckBody_count32 {head : Bytes} {c : UInt8} {n short len : Nat} {k k' room : Int}
    (m : Nat → Nat) (hhead : head = c :: toBE n len) (hlen : len < 256 ^ n)
    (hhint : ∀ data, mpCheckHint (mpParserHint c) k data (room - 1) =
      mpCheckLength n 0 short data (room - 1) fun len => mpCheckCount32 k data (room - 1) (m len) n)
    (hroom : (head.length : Int) ≤ room) (rest : Bytes) (hk' : k' = k + m len) :
    mpCheckBody k (head ++ rest) room = .ok (.next (toInt k') rest (room - head.length)) := by
  subst hhead hk'
  simp only [List.length_cons, Codec.toBE_length] at hroom ⊢
  rw [List.cons_append, mpCheckBody_cons (by omega), hhint, mpCheckLength_fits hlen (by omega),
    mpCheckCount32, show room - 1 - (n : Int) = room - ((n + 1 : Nat) : Int) by omega]
  have hdrop : (toBE n len ++ rest).drop n = rest := by
    rw [List.drop_append, List.drop_eq_nil_of_le (by simp)]
    simp
  rw [hdrop]

/-- A round at a lead byte that announces `n` items by itself. -/
theorem mpCheckBody_fix {c : UInt8} {n : Nat} {k room : Int} (hhint : mpParserHint c = -(n : Int))
    (hn : n < 32) (hk : k ≤ intMax) (hlo : intMin ≤ k) (hroom : 1 ≤ room) (rest : Bytes) :
    mpCheckBody k ([c] ++ rest) room =
      (signedInt (k + n)).map fun k' => .next k' rest (room - 1) := by
  rw [List.singleton_append, mpCheckBody_cons (by omega), hhint]
  rcases Nat.eq_zero_or_pos n with rfl | hpos
  · simp [mpCheckHint, mpCheckSkip, signedInt, hk, hlo, Except.map]
  · have h1 : ¬ (-(n : Int) ≥ 0) := by omega
    have h2 : -(n : Int) > mpHint := by simp only [mpHint]; omega
    simp only [mpCheckHint, if_neg h1, if_pos h2, mpCheckCount]
    rw [show (- -(n : Int)).toNat = n by omega]
    cases signedInt (k + n) <;> simp [Except.map]

theorem fixUint_hint : ∀ n < 128, mpParserHint (UInt8.ofNat n) = 0 := by decide

theorem fixInt_hint : ∀ n : Nat, n < 32 →
    mpParserHint (UInt8.ofNat (twos 1 ((n : Int) - 32))) = 0 := by decide

theorem fixStr_hint : ∀ n : Nat, n < 32 → mpParserHint (UInt8.ofNat (0xa0 + n)) = n := by
  decide

theorem fixArray_hint : ∀ n : Nat, n < 16 → mpParserHint (UInt8.ofNat (0x90 + n)) = -n := by
  decide

theorem fixMap_hint : ∀ n : Nat, n < 16 →
    mpParserHint (UInt8.ofNat (0x80 + n)) = -(2 * n : Nat) := by
  decide

theorem fixExt_hint {c t : UInt8} {s : Bytes} {n : Nat} (hhint : mpParserHint c = (n + 1 : Nat))
    (hs : s.length = n) : mpParserHint c = ((t :: s).length : Int) := by
  rw [hhint, List.length_cons, hs]

/-- A round at a document. -/
theorem mpCheckBody_head {d : Doc} (hfits : d.Fits) {k room : Int} (hk : k ≤ intMax)
    (hlo : intMin ≤ k) (hroom : (d.head.length : Int) ≤ room) (rest : Bytes) :
    mpCheckBody k (d.head ++ rest) room =
      (countHead d k).map fun k' => .next k' rest (room - d.head.length) := by
  cases d with
  | nil => exact mpCheckBody_skip rfl rfl hroom rest
  | unused => exact mpCheckBody_skip rfl rfl hroom rest
  | bool b => cases b <;> exact mpCheckBody_skip rfl rfl hroom rest
  | float bits => exact mpCheckBody_skip rfl (by rw [Codec.toBE_length]; rfl) hroom rest
  | double bits => exact mpCheckBody_skip rfl (by rw [Codec.toBE_length]; rfl) hroom rest
  | uint w n =>
    cases w with
    | fix => exact mpCheckBody_skip rfl (fixUint_hint n hfits) hroom rest
    | _ => exact mpCheckBody_skip rfl (by rw [Codec.toBE_length]; rfl) hroom rest
  | int w i =>
    cases w with
    | fix =>
      simp only [Doc.Fits, IntWidth.fitsInt] at hfits
      have hhint := fixInt_hint (i + 32).toNat (by omega)
      rw [show ((i + 32).toNat : Int) - 32 = i by omega] at hhint
      exact mpCheckBody_skip rfl hhint hroom rest
    | _ => exact mpCheckBody_skip rfl (by rw [Codec.toBE_length]; rfl) hroom rest
  | str w s =>
    cases w with
    | fix => exact mpCheckBody_skip rfl (fixStr_hint _ hfits) hroom rest
    | _ => exact mpCheckBody_string (x := 0) rfl hfits rfl (fun _ => rfl) hroom rest
  | bin w s => cases w <;> exact mpCheckBody_string (x := 0) rfl hfits rfl (fun _ => rfl) hroom rest
  | ext w t s =>
    cases w with
    | fix1 => exact mpCheckBody_skip rfl (fixExt_hint rfl hfits) hroom rest
    | fix2 => exact mpCheckBody_skip rfl (fixExt_hint rfl hfits) hroom rest
    | fix4 => exact mpCheckBody_skip rfl (fixExt_hint rfl hfits) hroom rest
    | fix8 => exact mpCheckBody_skip rfl (fixExt_hint rfl hfits) hroom rest
    | fix16 => exact mpCheckBody_skip rfl (fixExt_hint rfl hfits) hroom rest
    | _ => exact mpCheckBody_string (x := 1) rfl hfits rfl (fun _ => rfl) hroom rest
  | array w ds =>
    cases w with
    | fix =>
      have hlt : ds.length < 16 := hfits
      exact mpCheckBody_fix (fixArray_hint _ hfits) (by omega) hk hlo hroom rest
    | w16 => exact mpCheckBody_count (fun n => n) rfl hfits (fun _ => rfl) hroom rest rfl
    | w32 => exact mpCheckBody_count32 (fun n => n) rfl hfits (fun _ => rfl) hroom rest rfl
  | map w ds =>
    obtain ⟨heven, hlt⟩ := hfits
    have hlen : (ds.length : Int) = (2 * (ds.length / 2) : Nat) := by omega
    cases w with
    | fix =>
      have hlt' : ds.length / 2 < 16 := hlt
      simp only [countHead, hlen]
      exact mpCheckBody_fix (fixMap_hint _ hlt) (by omega) hk hlo hroom rest
    | w16 =>
      exact mpCheckBody_count (fun n => 2 * n) rfl hlt (fun _ => rfl) hroom rest (by rw [hlen])
    | w32 =>
      exact mpCheckBody_count32 (fun n => 2 * n) rfl hlt (fun _ => rfl) hroom rest (by rw [hlen])

/-! ## The counter -/

/-- The counter never gains more than the items that are announced, and keeps its residue. -/
theorem countHead_ok {d : Doc} {k k' : Int} (hk : 0 < k) (hmax : k ≤ intMax)
    (h : countHead d k = .ok k') :
    k' ≤ intMax ∧ k' ≤ k + d.items.length ∧ (2 ^ 32 : Int) ∣ k + d.items.length - k' := by
  have hsigned : signedInt (k + d.items.length) = .ok k' → k' ≤ intMax ∧
      k' ≤ k + d.items.length ∧ (2 ^ 32 : Int) ∣ k + d.items.length - k' := by
    unfold signedInt
    split
    case isTrue hin =>
      rintro ⟨⟩
      exact ⟨hin.2, le_refl _, by simp⟩
    case isFalse => rintro ⟨⟩
  have hwrap : Except.ok (toInt (k + d.items.length)) = (.ok k' : Except Fault Int) →
      k' ≤ intMax ∧ k' ≤ k + d.items.length ∧ (2 ^ 32 : Int) ∣ k + d.items.length - k' := by
    rintro ⟨⟩
    exact toInt_spec (by omega)
  cases d with
  | array w ds => cases w <;> first | exact hsigned h | exact hwrap h
  | map w ds => cases w <;> first | exact hsigned h | exact hwrap h
  | _ =>
    obtain ⟨⟩ := h
    simpa [Doc.items] using hmax

/-- Without an overflow the counter gains the items that are announced. -/
theorem countHead_eq {d : Doc} {k : Int} (hk : 0 < k) (hmax : k + d.items.length ≤ intMax) :
    countHead d k = .ok (k + d.items.length) := by
  have hsigned : signedInt (k + d.items.length) = .ok (k + d.items.length) := by
    unfold signedInt
    rw [if_pos ⟨by simp only [intMin]; omega, hmax⟩]
  have hwrap : toInt (k + d.items.length) = k + d.items.length := by
    simp only [toInt, intMax, Int.bmod_def] at hmax ⊢
    split <;> omega
  cases d with
  | array w ds => cases w <;> first | exact hsigned | exact congrArg Except.ok hwrap
  | map w ds => cases w <;> first | exact hsigned | exact congrArg Except.ok hwrap
  | _ => simp [countHead, Doc.items]

/-! ## The loop -/

theorem signedInt_ok {i j : Int} (h : signedInt i = .ok j) : j = i ∧ intMin ≤ i ∧ i ≤ intMax := by
  unfold signedInt at h
  split at h
  case isTrue hin =>
    cases h
    exact ⟨rfl, hin⟩
  case isFalse => cases h

theorem signedInt_eq {i : Int} (hlo : intMin ≤ i) (hhi : i ≤ intMax) : signedInt i = .ok i :=
  if_pos ⟨hlo, hhi⟩

/-- The loop at a document. -/
theorem mpCheckLoop_cons {d : Doc} (hfits : d.Fits) {ds : List Doc} {fuel : Nat} {k room : Int}
    (hk : 0 < k) (hmax : k ≤ intMax) (hroom : ((encodeAll (d :: ds)).length : Int) ≤ room)
    (rest : Bytes) :
    mpCheckLoop (fuel + 1) k (encodeAll (d :: ds) ++ rest) room = (do
      let k' ← signedInt ((← countHead d k) - 1)
      mpCheckLoop fuel k' (encodeAll (d.items ++ ds) ++ rest) (room - d.head.length)) := by
  have hhead : (d.head.length : Int) ≤ room := by
    rw [Codec.encodeAll_cons, List.length_append] at hroom
    omega
  rw [Codec.encodeAll_cons, List.append_assoc, mpCheckLoop, if_pos hk,
    mpCheckBody_head hfits hmax (by simp only [intMin]; omega) hhead]
  cases countHead d k <;> rfl

/-- The loop over a row of documents so light that an `int` can count them. -/
theorem mpCheckLoop_light {fuel : Nat} {ds : List Doc} (hwf : AllWF ds) {room : Int}
    (hpeak : (peakAll 0 ds : Int) ≤ intMax) (hroom : ((encodeAll ds).length : Int) ≤ room)
    (hfuel : (encodeAll ds).length < fuel) (rest : Bytes) :
    mpCheckLoop fuel ds.length (encodeAll ds ++ rest) room = .ok (0, rest) := by
  induction fuel generalizing ds room with
  | zero => omega
  | succ fuel ih =>
    cases ds with
    | nil =>
      have hroom' : ¬ room < 0 := by simp [encodeAll] at hroom; omega
      simp [mpCheckLoop, encodeAll, hroom']
      rfl
    | cons d ds =>
      obtain ⟨hd, hds⟩ := hwf
      obtain ⟨hfits, hitems⟩ := d.wf_iff.mp hd
      have hpos := d.head_length_pos
      rw [Codec.peakAll_cons] at hpeak
      rw [mpCheckLoop_cons hfits (by simp) (by simp; omega) hroom,
        countHead_eq (by simp) (by simp; omega)]
      rw [Codec.encodeAll_cons, List.length_append] at hroom hfuel
      have hstep := ih ((Codec.allWF_append _ _).mpr ⟨hitems, hds⟩) (by omega)
        (show _ ≤ room - d.head.length by omega) (by omega)
      rw [List.length_append] at hstep
      simp only [bind, Except.bind]
      rw [signedInt_eq (by simp [intMin]; omega) (by simp; omega)]
      have hcount : ((d :: ds).length : Int) + d.items.length - 1 = (d.items.length + ds.length : Nat) := by
        simp
        omega
      simpa only [hcount] using hstep

/-- Where the loop ends on a row of documents: at their end if an `int` can count those pending all
along, and before it otherwise. -/
theorem mpCheckLoop_docs (fuel : Nat) {ds : List Doc} (hwf : AllWF ds) {k room : Int}
    {rest t : Bytes} {status : Nat} (hk : 0 < k) (hmax : k ≤ intMax) (hle : k ≤ ds.length)
    (hcong : (2 ^ 32 : Int) ∣ ds.length - k) (hroom : ((encodeAll ds).length : Int) ≤ room)
    (h : mpCheckLoop fuel k (encodeAll ds ++ rest) room = .ok (status, t)) :
    (k = ds.length ∧ (peakAll 0 ds : Int) ≤ intMax ∧ t = rest) ∨ rest.length < t.length := by
  induction fuel generalizing ds k room with
  | zero => simp [mpCheckLoop] at h
  | succ fuel ih =>
    cases ds with
    | nil => simp at hle; omega
    | cons d ds =>
      obtain ⟨hd, hds⟩ := hwf
      obtain ⟨hfits, hitems⟩ := d.wf_iff.mp hd
      have hwf' := (Codec.allWF_append _ _).mpr ⟨hitems, hds⟩
      have hpos := d.head_length_pos
      rw [mpCheckLoop_cons hfits hk hmax hroom] at h
      obtain ⟨k₁, hk₁, h⟩ := except_bind_eq_ok.mp h
      obtain ⟨k₂, hk₂, h⟩ := except_bind_eq_ok.mp h
      obtain ⟨hmax₁, hle₁, hcong₁⟩ := countHead_ok hk hmax hk₁
      obtain ⟨rfl, -, hmax₂⟩ := signedInt_ok hk₂
      rw [Codec.encodeAll_cons, List.length_append] at hroom
      simp only [List.length_cons] at hle hcong ⊢
      rw [Codec.peakAll_cons]
      by_cases hstop : k₁ - 1 ≤ 0
      · -- the loop ends here, whether or not the documents do
        have ht : t = encodeAll (d.items ++ ds) ++ rest := by
          cases fuel with
          | zero => simp [mpCheckLoop] at h
          | succ fuel =>
            have hroom' : ¬ room - d.head.length < 0 := by omega
            rw [mpCheckLoop, if_neg (by omega), if_neg hroom'] at h
            cases h
            rfl
        cases hrow : d.items ++ ds with
        | nil =>
          obtain ⟨hitems₀, rfl⟩ := List.append_eq_nil_iff.mp hrow
          refine .inl ⟨by simp at hle ⊢; omega, by simp [hitems₀, peakAll, intMax], ?_⟩
          rw [ht, hrow]
          rfl
        | cons e es =>
          have := e.encode_length_pos
          rw [ht, hrow]
          exact .inr (by simp [encodeAll]; omega)
      · have hlen : ((d.items ++ ds).length : Int) = d.items.length + ds.length := by simp
        rcases ih hwf' (by omega) (by omega) (by omega) (by omega) (by omega) h with
          ⟨heq, hpeak, rfl⟩ | hlong
        · exact .inl ⟨by omega, by omega, rfl⟩
        · exact .inr hlong

/-! ## Skipping -/

/-- A round of `mp_next` at a document. -/
theorem mpNextBody_head {d : Doc} (hfits : d.Fits) {k : Int} (hk : k ≤ intMax) (hlo : intMin ≤ k)
    (rest : Bytes) :
    mpNextBody k (d.head ++ rest) = (countHead d k).map fun k' => (k', rest) := by
  have hroom : (d.head.length : Int) ≤ ((d.head ++ rest).length : Nat) := by simp
  have hbody := mpCheckBody_head hfits hk hlo hroom rest
  cases hhead : d.head with
  | nil =>
    have hpos := d.head_length_pos
    rw [hhead] at hpos
    exact absurd hpos (by simp)
  | cons c tl =>
    rw [hhead, List.cons_append, mpCheckBody_cons (by simp; omega)] at hbody
    have hlen : (((c :: (tl ++ rest)).length : Nat) : Int) - 1 = (tl ++ rest).length := by simp
    have hleft : ¬ (((c :: (tl ++ rest)).length : Nat) : Int) - (c :: tl).length < 0 := by simp
    rw [hlen] at hbody
    rw [List.cons_append, mpNextBody, hbody]
    cases countHead d k with
    | error f => rfl
    | ok k' => exact if_neg hleft

/-- The loop of `mp_next` over a row of documents so light that an `int` can count them. -/
theorem mpNextLoop_light {fuel : Nat} {ds : List Doc} (hwf : AllWF ds)
    (hpeak : (peakAll 0 ds : Int) ≤ intMax) (hfuel : (encodeAll ds).length < fuel) (rest : Bytes) :
    mpNextLoop fuel ds.length (encodeAll ds ++ rest) = .ok rest := by
  induction fuel generalizing ds with
  | zero => omega
  | succ fuel ih =>
    cases ds with
    | nil => rfl
    | cons d ds =>
      obtain ⟨hd, hds⟩ := hwf
      obtain ⟨hfits, hitems⟩ := d.wf_iff.mp hd
      have hpos := d.head_length_pos
      rw [Codec.peakAll_cons] at hpeak
      rw [Codec.encodeAll_cons, List.length_append] at hfuel
      have hstep := ih ((Codec.allWF_append _ _).mpr ⟨hitems, hds⟩) (by omega) (by omega)
      rw [List.length_append] at hstep
      have hcount : ((d :: ds).length : Int) + d.items.length - 1 =
          (d.items.length + ds.length : Nat) := by
        simp
        omega
      rw [Codec.encodeAll_cons, List.append_assoc, mpNextLoop, if_pos (by simp),
        mpNextBody_head hfits (by simp; omega) (by simp [intMin]; omega),
        countHead_eq (by simp) (by simp; omega)]
      simp only [bind, Except.bind, Except.map]
      rw [signedInt_eq (by simp [intMin]; omega) (by simp; omega), hcount]
      exact hstep

/-- `mp_next` skips a light document. -/
theorem mpNext_doc {d : Doc} (hwf : d.WF) (hlight : (d.peak 0 : Int) ≤ intMax) (rest : Bytes) :
    mpNext (d.encode ++ rest) = .ok rest := by
  have hloop := @mpNextLoop_light ((d.encode ++ rest).length + 2) [d] ⟨hwf, trivial⟩
    (by simpa [peakAll] using hlight) (by simp [encodeAll]; omega) rest
  simpa [mpNext, encodeAll] using hloop

/-! ## The cursor stays in the memory -/

/-- A round that goes on leaves the cursor in what was ahead. -/
def Drops (data : Bytes) (x : Except Fault CheckRound) : Prop :=
  ∀ k data' room, x = .ok (.next k data' room) → data' <:+ data

theorem drops_skip {k room : Int} {data : Bytes} {n : Nat} : Drops data (mpCheckSkip k data room n) := by
  intro k' data' room' h
  obtain ⟨-, rfl, -⟩ := CheckRound.next.inj (Except.ok.inj h)
  exact List.drop_suffix n data

theorem drops_count {k room : Int} {data : Bytes} {n m : Nat} :
    Drops data (mpCheckCount k data room n m) := by
  intro k' data' room' h
  obtain ⟨_, -, h⟩ := except_bind_eq_ok.mp h
  obtain ⟨-, rfl, -⟩ := CheckRound.next.inj (Except.ok.inj h)
  exact List.drop_suffix m data

theorem drops_count32 {k room : Int} {data : Bytes} {n m : Nat} :
    Drops data (mpCheckCount32 k data room n m) := by
  intro k' data' room' h
  obtain ⟨-, rfl, -⟩ := CheckRound.next.inj (Except.ok.inj h)
  exact List.drop_suffix m data

theorem drops_length {n x short : Nat} {data : Bytes} {room : Int} {go : Nat → Except Fault CheckRound}
    (hgo : ∀ len, Drops data (go len)) : Drops data (mpCheckLength n x short data room go) := by
  intro k' data' room' h
  unfold mpCheckLength at h
  split at h
  · exact nomatch h
  · split at h
    · exact hgo _ k' data' room' h
    · exact nomatch h

theorem drops_ite {c : Prop} [Decidable c] {data : Bytes} {x y : Except Fault CheckRound}
    (hx : Drops data x) (hy : Drops data y) : Drops data (if c then x else y) := by
  split
  · exact hx
  · exact hy

theorem drops_hint {l k room : Int} {data : Bytes} : Drops data (mpCheckHint l k data room) := by
  unfold mpCheckHint
  refine drops_ite drops_skip (drops_ite drops_count ?_)
  iterate 3 refine drops_ite (drops_length fun _ => drops_skip) ?_
  refine drops_ite (drops_length fun _ => drops_count) ?_
  refine drops_ite (drops_length fun _ => drops_count32) ?_
  refine drops_ite (drops_length fun _ => drops_count) ?_
  refine drops_ite (drops_length fun _ => drops_count32) ?_
  iterate 3 refine drops_ite (drops_length fun _ => drops_skip) ?_
  exact nofun

theorem mpNextBody_suffix {k k' : Int} {data data' : Bytes} (h : mpNextBody k data = .ok (k', data')) :
    data' <:+ data := by
  unfold mpNextBody at h
  split at h
  · exact nomatch h
  · split at h
    · rename_i hhint
      split at h
      · exact nomatch h
      · obtain ⟨-, rfl⟩ := Prod.mk.inj (Except.ok.inj h)
        exact (drops_hint _ _ _ hhint).trans (List.suffix_cons _ _)
    · exact nomatch h
    · exact nomatch h

theorem mpNextLoop_suffix {fuel : Nat} {k : Int} {data data' : Bytes}
    (h : mpNextLoop fuel k data = .ok data') : data' <:+ data := by
  induction fuel generalizing k data with
  | zero => exact nomatch h
  | succ fuel ih =>
    unfold mpNextLoop at h
    split at h
    · obtain ⟨⟨k₁, data₁⟩, hbody, h⟩ := except_bind_eq_ok.mp h
      obtain ⟨k₂, -, h⟩ := except_bind_eq_ok.mp h
      exact (ih h).trans (mpNextBody_suffix hbody)
    · exact Except.ok.inj h ▸ List.suffix_rfl

/-- `mp_next` leaves the cursor in what was ahead. -/
theorem mpNext_suffix {p p' : Bytes} (h : mpNext p = .ok p') : p' <:+ p := mpNextLoop_suffix h

end BeePhp
