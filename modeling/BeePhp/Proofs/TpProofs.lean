import BeePhp.Proofs.MsgpuckProofs
import BeePhp.Proofs.NetworkProofs
import BeePhp.TpCalls

/-!
# Proofs: the writer of tp.h

While what is asked for fits the buffer, `tp_ensure` has nothing to do and every call of tp.h succeeds
(`TpCall.run_fits`). The first time it does not, `tp_ensure` takes the end of the buffer from a variable
that nobody has set.
-/

namespace BeePhp

open Codec Program

/-! ## Lengths -/

theorem mpEncodeUint_length (n : Nat) : (mpEncodeUint n).length = mpSizeofUint n := by
  rw [mpEncodeUint_eq, mpSizeofUint_eq]

theorem mpEncodeArray_length (n : Nat) : (mpEncodeArray n).length = mpSizeofArray n := by
  rw [mpEncodeArray_eq, mpSizeofArray_eq]

theorem mpEncodeMap_length (n : Nat) : (mpEncodeMap n).length = mpSizeofMap n := by
  rw [mpEncodeMap_eq, mpSizeofMap_eq]

theorem mpEncodeStr_length {s : Bytes} (h : s.length < 2 ^ 31) :
    (mpEncodeStr s (toUint32 s.length)).length = mpSizeofStr (toUint32 s.length) := by
  have hlen : toUint32 s.length = s.length := Nat.mod_eq_of_lt (by omega)
  rw [hlen, mpEncodeStr_eq, mpSizeofStr_eq (by omega)]

/-! ## Steps of the writer -/

theorem tpGet_run (s : TpState) : (get : TpM TpState) s = .ok (s, s) := rfl

theorem tpSet_run (s s₁ : TpState) : (set s₁ : TpM PUnit) s = .ok (⟨⟩, s₁) := rfl

theorem tpEnsure_of_le {s : TpState} {size : Nat} (hp : s.tp.p ≤ s.tp.e) (he : s.tp.e < 2 ^ 64)
    (h : s.tp.p + size ≤ s.tp.e) : tpEnsure size s = .ok (true, s) := by
  have hroom : toSize ((s.tp.e : Int) - s.tp.p) ≥ size := by
    unfold toSize
    omega
  rw [tpEnsure, run_bind (tpGet_run s)]
  simp only [if_pos hroom]
  rfl

/-- The state of the writer when `tp_ensure` has called `bee_tp_reserve`. -/
def TpState.reserved (s : TpState) (size : Nat) : TpState :=
  ⟨{ s.tp with e := s.tp.garbage 0, garbage := fun n => s.tp.garbage (n + 1) },
    s.str.ensure size⟩

theorem tpEnsure_of_gt {s : TpState} {size : Nat} (hp : s.tp.p ≤ s.tp.e) (he : s.tp.e < 2 ^ 64)
    (h : s.tp.e < s.tp.p + size) :
    tpEnsure size s = .ok (decide (s.tp.garbage 0 ≠ 2 ^ 64 - 1), s.reserved size) := by
  have hroom : ¬ toSize ((s.tp.e : Int) - s.tp.p) ≥ size := by
    unfold toSize
    omega
  rw [tpEnsure, run_bind (tpGet_run s)]
  simp only [if_neg hroom]
  rfl

theorem tpWrite_run {s : TpState} {pos : Nat} {bs : Bytes} (h : pos + bs.length ≤ s.str.c.length) :
    ∃ str, tpWrite pos bs s = .ok ((), ⟨s.tp, str⟩) ∧ s.str.write pos bs = .ok str ∧
      str.a = s.str.a := by
  obtain ⟨str, hwrite⟩ : ∃ str, s.str.write pos bs = .ok str := ⟨_, dif_pos h⟩
  obtain ⟨-, -, -, hc⟩ := SmartString.write_eq_ok.mp hwrite
  refine ⟨str, ?_, hwrite, ?_⟩
  · rw [tpWrite, run_bind (tpGet_run s), run_bind (run_lift hwrite s)]
    rfl
  · simp only [SmartString.a, hc, List.length_append, List.length_take, List.length_drop]
    omega

theorem tpAdd_run {ndebug : Bool} {s : TpState} {start size : Nat} (hsize : s.tp.size = some start)
    (h : start + 5 ≤ s.str.c.length) :
    ∃ str, tpAdd ndebug size s = .ok ((), ⟨{ s.tp with p := s.tp.p + size }, str⟩) ∧
      s.str.write start (0xce :: toBE 4 (toUint32 (toSize ((s.tp.p + size : Nat) - start - 5)))) = .ok str ∧
      str.a = s.str.a := by
  obtain ⟨str, hwrite⟩ : ∃ str,
      s.str.write start (0xce :: toBE 4 (toUint32 (toSize ((s.tp.p + size : Nat) - start - 5)))) = .ok str :=
    ⟨_, dif_pos (by simpa using h)⟩
  obtain ⟨-, -, -, hc⟩ := SmartString.write_eq_ok.mp hwrite
  refine ⟨str, ?_, hwrite, ?_⟩
  · rw [tpAdd, run_bind (tpGet_run s)]
    simp only [hsize]
    rw [run_bind (run_lift hwrite s)]
    rfl
  · simp only [SmartString.a, hc, List.length_append, List.length_take, List.length_drop]
    simp only [List.length_cons, toBE_length]
    omega

/-! ## Calls that fit -/

/-- `used` bytes are written, and `e` is the end of the buffer. -/
structure TpState.Roomy (s : TpState) (used : Nat) : Prop where
  p : s.tp.p = used
  le : used ≤ s.str.a
  e : s.tp.e = s.str.a
  lt : s.str.a < 2 ^ 64
  size : ∀ start, s.tp.size = some start → start + 5 ≤ used
  sync : ∀ pos, s.tp.sync = some pos → pos + 5 ≤ used

/-- A request has been begun. -/
def TpState.Begun (s : TpState) : Prop := s.tp.size.isSome ∧ s.tp.sync.isSome

/-- What a call that fits leaves. -/
structure TpState.Next (s : TpState) (used : Nat) (s' : TpState) : Prop where
  roomy : s'.Roomy used
  begun : s'.Begun
  a : s'.str.a = s.str.a
  garbage : s'.tp.garbage = s.tp.garbage

theorem tpEnsure_fits {s : TpState} {used size : Nat} (h : s.Roomy used)
    (hfits : used + size ≤ s.str.a) : tpEnsure size s = .ok (true, s) := by
  have hp := h.p
  have he := h.e
  have hle := h.le
  have hlt := h.lt
  exact tpEnsure_of_le (by omega) (by omega) (by omega)

/-- Moving the cursor behind what was written. -/
theorem tpAdd_fits (ndebug : Bool) {s : TpState} (s₁ : TpState) {used start pos size : Nat}
    (h : s.Roomy used) (ha : s₁.str.a = s.str.a) (hp : s₁.tp.p = s.tp.p) (he : s₁.tp.e = s.tp.e)
    (hgarbage : s₁.tp.garbage = s.tp.garbage) (hsize : s₁.tp.size = some start)
    (hsync : s₁.tp.sync = some pos) (hstart : start + 5 ≤ used + size) (hpos : pos + 5 ≤ used + size)
    (hfits : used + size ≤ s.str.a) :
    ∃ s', tpAdd ndebug size s₁ = .ok ((), s') ∧ s.Next (used + size) s' := by
  have hroom : start + 5 ≤ s₁.str.c.length := by
    have hle : s₁.str.a ≤ s₁.str.c.length := Nat.sub_le _ _
    omega
  obtain ⟨str, hrun, -, hstr⟩ := @tpAdd_run ndebug s₁ start size hsize hroom
  have hstr' : str.a = s.str.a := hstr.trans ha
  refine ⟨_, hrun, ?_, ⟨?_, ?_⟩, hstr', hgarbage⟩
  · constructor
    · show s₁.tp.p + size = used + size
      rw [hp, h.p]
    · exact hfits.trans_eq hstr'.symm
    · exact (he.trans h.e).trans hstr'.symm
    · exact hstr'.trans_lt h.lt
    · intro start' hstart'
      obtain rfl := Option.some.inj (hsize.symm.trans hstart')
      exact hstart
    · intro pos' hpos'
      obtain rfl := Option.some.inj (hsync.symm.trans hpos')
      exact hpos
  · exact Option.isSome_iff_exists.mpr ⟨start, hsize⟩
  · exact Option.isSome_iff_exists.mpr ⟨pos, hsync⟩

/-- A value appended to a request. -/
theorem tpAppend_fits (ndebug : Bool) {s : TpState} {used size : Nat} {bs : Bytes}
    (h : s.Roomy used) (hbegun : s.Begun) (hsize : bs.length = size)
    (hfits : used + size ≤ s.str.a) :
    ∃ s', tpAppend ndebug size bs s = .ok ((), s') ∧ s.Next (used + size) s' := by
  obtain ⟨start, hstart⟩ := Option.isSome_iff_exists.mp hbegun.1
  obtain ⟨pos, hpos⟩ := Option.isSome_iff_exists.mp hbegun.2
  have hle := h.size start hstart
  have hle' := h.sync pos hpos
  have hroom : s.tp.p + bs.length ≤ s.str.c.length := by
    have hp := h.p
    have ha : s.str.a ≤ s.str.c.length := Nat.sub_le _ _
    omega
  obtain ⟨str₁, hwrite, -, ha₁⟩ := tpWrite_run hroom
  obtain ⟨s', hadd, hnext⟩ := tpAdd_fits ndebug ⟨s.tp, str₁⟩ h ha₁ rfl rfl rfl hstart hpos (by omega)
    (by omega) hfits
  refine ⟨s', ?_, hnext⟩
  rw [tpAppend, run_bind (tpEnsure_fits h hfits), if_pos rfl, run_bind (tpGet_run s), run_bind hwrite]
  exact hadd

/-- The beginning of a request. -/
theorem tpRequest_fits (ndebug : Bool) {s : TpState} {used type sz : Nat} {body : Bytes}
    (h : s.Roomy used)
    (hsize : 5 + (mpSizeofMap 2 + mpSizeofUint tpCode + mpSizeofUint type + mpSizeofUint tpSync) + 5 +
      body.length = sz) (hfits : used + sz ≤ s.str.a) :
    ∃ s', tpRequest ndebug type sz body s = .ok ((), s') ∧ s.Next (used + sz) s' := by
  have hp := h.p
  have hheader : (mpEncodeMap 2 ++ mpEncodeUint tpCode ++ mpEncodeUint type ++
      mpEncodeUint tpSync).length =
      mpSizeofMap 2 + mpSizeofUint tpCode + mpSizeofUint type + mpSizeofUint tpSync := by
    simp only [List.length_append, mpEncodeMap_length, mpEncodeUint_length]
  set header := mpEncodeMap 2 ++ mpEncodeUint tpCode ++ mpEncodeUint type ++ mpEncodeUint tpSync
    with hdef
  let s₁ : TpState := ⟨{ s.tp with
    size := some s.tp.p, sync := some (s.tp.p + 5 + header.length) }, s.str⟩
  have hroom : s₁.tp.p + 5 + (header ++ 0xce :: toBE 4 0 ++ body).length ≤ s₁.str.c.length := by
    have ha : s.str.a ≤ s.str.c.length := Nat.sub_le _ _
    simp only [List.length_append, List.length_cons, toBE_length]
    show s.tp.p + 5 + _ ≤ s.str.c.length
    omega
  obtain ⟨str₁, hwrite, -, ha₁⟩ := tpWrite_run hroom
  obtain ⟨s', hadd, hnext⟩ := tpAdd_fits ndebug ⟨s₁.tp, str₁⟩ h ha₁ rfl rfl rfl rfl rfl (by omega)
    (by omega) hfits
  refine ⟨s', ?_, hnext⟩
  rw [tpRequest, run_bind (tpEnsure_fits h hfits), if_pos rfl, run_bind (tpGet_run s)]
  exact (run_bind (tpSet_run s s₁)).trans ((run_bind hwrite).trans hadd)

/-- The number of a request written to its place. -/
theorem tpReqid_fits (ndebug : Bool) (id : UInt32) {s : TpState} {used : Nat} (h : s.Roomy used)
    (hbegun : s.Begun) : ∃ s', tpReqid ndebug id s = .ok ((), s') ∧ s.Next used s' := by
  obtain ⟨pos, hpos⟩ := Option.isSome_iff_exists.mp hbegun.2
  have hroom : pos + (0xce :: toBE 4 id.toNat).length ≤ s.str.c.length := by
    have ha : s.str.a ≤ s.str.c.length := Nat.sub_le _ _
    have hle := h.sync pos hpos
    have hused := h.le
    simp only [List.length_cons, toBE_length]
    omega
  obtain ⟨str, hwrite, -, ha⟩ := tpWrite_run hroom
  refine ⟨⟨s.tp, str⟩, ?_, ⟨h.p, ?_, h.e.trans ha.symm, ?_, h.size, h.sync⟩, hbegun, ha, rfl⟩
  · rw [tpReqid, run_bind (tpGet_run s)]
    simp only [hpos]
    exact hwrite
  · exact h.le.trans_eq ha.symm
  · exact ha.trans_lt h.lt

/-! ## Sequences of calls -/

/-- The strings of a call are PHP strings. -/
def TpCall.Small : TpCall → Prop
  | .auth _ user _ => user.length < 2 ^ 31
  | .encodeStr str => str.length < 2 ^ 31
  | _ => True

/-- The calls that begin a request. -/
def TpCall.Begins : TpCall → Prop
  | .select .. | .auth .. => True
  | _ => False

theorem signedInt_of_le {n : Nat} (h : (n : Int) ≤ intMax) : signedInt n = .ok (n : Int) :=
  if_pos ⟨by unfold intMin; omega, h⟩

theorem authBody_length {scramble : Bytes → Bytes → Bytes} {salt user : Bytes} {pass : Option Bytes}
    (hscramble : ∀ pass, (scramble salt pass).length = scrambleSize) (huser : user.length < 2 ^ 31) :
    (authBody scramble salt user pass).length = mpSizeofMap 2 + mpSizeofUint tpUsername +
      mpSizeofStr (toUint32 user.length) + mpSizeofUint tpTuple +
      if pass.isSome then mpSizeofArray 2 + mpSizeofStr 0 + mpSizeofStr scrambleSize
      else mpSizeofArray 0 := by
  cases pass with
  | none =>
    simp [authBody, mpEncodeMap_length, mpEncodeUint_length, mpEncodeStr_length huser,
      mpEncodeArray_length]
    omega
  | some pass =>
    have hpass : (mpEncodeStr (scramble salt pass) scrambleSize).length =
        mpSizeofStr scrambleSize := by
      have hlt : (scramble salt pass).length < 2 ^ 31 := by
        rw [hscramble]
        decide
      have hlength := mpEncodeStr_length hlt
      rwa [hscramble] at hlength
    have hempty : (mpEncodeStr [] 0).length = mpSizeofStr 0 := rfl
    simp [authBody, mpEncodeMap_length, mpEncodeUint_length, mpEncodeStr_length huser,
      mpEncodeArray_length, hpass, hempty]
    omega

/-- A call whose size is an `int` and fits the buffer succeeds. -/
theorem TpCall.run_fits (P : Platform) {c : TpCall} {s : TpState} {used n : Nat} (h : s.Roomy used)
    (hsmall : c.Small) (hbegun : c.Begins ∨ s.Begun) (hsize : c.size = some n)
    (hint : (n : Int) ≤ intMax) (hfits : used + n ≤ s.str.a) :
    ∃ s', c.run P s = .ok ((), s') ∧ s.Next (used + n) s' := by
  cases c with
  | select space index offset limit =>
    obtain rfl := Option.some.inj hsize
    refine tpRequest_fits P.ndebug h ?_ hfits
    simp only [List.length_append, mpEncodeMap_length, mpEncodeUint_length]
    omega
  | auth salt user pass =>
    have hn := Option.some.inj hsize
    have hlength : 5 + (mpSizeofMap 2 + mpSizeofUint tpCode + mpSizeofUint tpAuthType +
        mpSizeofUint tpSync) + 5 + (authBody P.scramble salt user pass).length = n := by
      rw [authBody_length (P.scramble_length salt) hsmall, ← hn]
      omega
    have hrun (i : Int) (hi : i = n) : ∃ s', tpRequest P.ndebug tpAuthType i.toNat
        (authBody P.scramble salt user pass) s = .ok ((), s') ∧ s.Next (used + n) s' := by
      rw [hi, Int.toNat_natCast]
      exact tpRequest_fits P.ndebug h hlength hfits
    have hsigned := signedInt_of_le hint
    rw [← hn] at hsigned
    push_cast at hsigned
    simp only [TpCall.run, tpAuth]
    push_cast
    rw [run_bind (run_lift hsigned s)]
    refine hrun _ ?_
    rw [← hn]
    push_cast
    rfl
  | key partCount =>
    obtain rfl := Option.some.inj hsize
    exact tpAppend_fits P.ndebug h (hbegun.resolve_left id) (mpEncodeArray_length _) hfits
  | encodeUint num =>
    obtain rfl := Option.some.inj hsize
    exact tpAppend_fits P.ndebug h (hbegun.resolve_left id) (mpEncodeUint_length _) hfits
  | encodeStr str =>
    obtain rfl := Option.some.inj hsize
    simp only [TpCall.run, tpEncodeStr]
    rw [run_bind (run_lift (signedInt_of_le hint) s)]
    exact tpAppend_fits P.ndebug h (hbegun.resolve_left id) (mpEncodeStr_length hsmall) hfits
  | reqid id => cases hsize

/-- A sequence of calls can go on where a request has been begun, or begins one. -/
def CanGoOn (cs : List TpCall) (s : TpState) : Prop :=
  s.Begun ∨ ∃ c rest, cs = c :: rest ∧ c.Begins

theorem ensureProvides_of_fits {s : TpState} {used n : Nat} (h : s.Roomy used)
    (hfits : used + n ≤ s.str.a) : EnsureProvides n s := by
  intro s' hrun
  rw [tpEnsure_fits h hfits] at hrun
  obtain ⟨-, rfl⟩ := Prod.mk.inj (Except.ok.inj hrun)
  exact ⟨by rw [h.p]; exact hfits, h.e⟩

/-- Where `tp_ensure` has to reserve, a variable that happens to be 0 is not the size of the buffer. -/
theorem not_ensureProvides {s : TpState} {used n : Nat} (h : s.Roomy used)
    (hfull : s.str.a < used + n) (hgarbage : s.tp.garbage 0 = 0) : ¬ EnsureProvides n s := by
  intro hprovides
  have hp := h.p
  have he := h.e
  have hle := h.le
  have hlt := h.lt
  have hrun : tpEnsure n s = .ok (decide (s.tp.garbage 0 ≠ 2 ^ 64 - 1), s.reserved n) :=
    tpEnsure_of_gt (by omega) (by omega) (by omega)
  rw [hgarbage] at hrun
  obtain ⟨-, hend⟩ := hprovides _ hrun
  obtain ⟨-, -, hroom⟩ := s.str.ensure_spec n
  have hzero : s.tp.garbage 0 = (s.str.ensure n).a := hend
  omega

/-- The first call of a sequence can go on. -/
theorem CanGoOn.head {c : TpCall} {cs : List TpCall} {s : TpState} (h : CanGoOn (c :: cs) s) :
    c.Begins ∨ s.Begun := by
  rcases h with h | ⟨c', rest, heq, h⟩
  · exact .inr h
  · obtain ⟨rfl, -⟩ := List.cons.inj heq
    exact .inl h

theorem mpSizeofUint_le (n : Nat) : mpSizeofUint n ≤ 9 := by
  unfold mpSizeofUint
  split_ifs <;> omega

theorem mpSizeofArray_le (n : Nat) : mpSizeofArray n ≤ 5 := by
  unfold mpSizeofArray
  split_ifs <;> omega

theorem signedInt_of_gt {n : Nat} (h : ¬ (n : Int) ≤ intMax) :
    signedInt n = .error .signedOverflow := if_neg fun hint => h hint.2

/-- A call whose size is no `int` does not return. -/
theorem TpCall.run_overflow (P : Platform) {c : TpCall} {n : Nat} (hsize : c.size = some n)
    (hint : ¬ (n : Int) ≤ intMax) (s s' : TpState) : c.run P s ≠ .ok ((), s') := by
  intro hrun
  have hbig : 2 ^ 31 ≤ n := by
    unfold intMax at hint
    omega
  cases c with
  | select space index offset limit =>
    have hn := Option.some.inj hsize
    have hspace := mpSizeofUint_le space
    have hindex := mpSizeofUint_le index
    have hoffset := mpSizeofUint_le offset
    have hlimit := mpSizeofUint_le limit
    simp [mpSizeofMap, mpSizeofUint, tpCode, tpSelectType, tpSync, tpSpace, tpIndex, tpOffset, tpLimit,
      tpKeyField] at hn hspace hindex hoffset hlimit
    omega
  | auth salt user pass =>
    have hsigned := signedInt_of_gt hint
    rw [← Option.some.inj hsize] at hsigned
    push_cast at hsigned
    simp only [TpCall.run, tpAuth] at hrun
    push_cast at hrun
    rw [hsigned] at hrun
    cases hrun
  | key partCount =>
    have hle := mpSizeofArray_le partCount
    have hn := Option.some.inj hsize
    omega
  | encodeUint num =>
    have hle := mpSizeofUint_le num
    have hn := Option.some.inj hsize
    omega
  | encodeStr str =>
    have hsigned := signedInt_of_gt hint
    rw [← Option.some.inj hsize] at hsigned
    simp only [TpCall.run, tpEncodeStr] at hrun
    rw [hsigned] at hrun
    cases hrun
  | reqid id => cases hsize

/-- `askedFor` of a call and more. -/
theorem askedFor_some {c : TpCall} {n : Nat} (hsize : c.size = some n) (hint : (n : Int) ≤ intMax)
    (cs : List TpCall) : askedFor (c :: cs) = n + askedFor cs := by
  simp only [askedFor, hsize, if_pos hint]

/-- The first call of a sequence returns in the state `s₁`. -/
theorem provided_cons {P : Platform} {c : TpCall} {cs : List TpCall} {s s₁ : TpState}
    (hrun : c.run P s = .ok ((), s₁)) : Provided P (c :: cs) s ↔
      (∀ n, c.size = some n → (n : Int) ≤ intMax → EnsureProvides n s) ∧ Provided P cs s₁ := by
  refine and_congr_right fun _ => ⟨fun h => h s₁ hrun, fun h s' hrun' => ?_⟩
  obtain ⟨-, rfl⟩ := Prod.mk.inj (Except.ok.inj (hrun.symm.trans hrun'))
  exact h

/-- When the calls fit they are provided for, and when the variable that nobody has set holds 0 they are
provided for only then. -/
theorem provided_iff {P : Platform} {cs : List TpCall} {s : TpState} {used : Nat} (h : s.Roomy used)
    (hsmall : ∀ c ∈ cs, c.Small) (hgo : CanGoOn cs s) :
    (used + askedFor cs ≤ s.str.a → Provided P cs s) ∧
      (s.tp.garbage 0 = 0 → Provided P cs s → used + askedFor cs ≤ s.str.a) := by
  induction cs generalizing s used with
  | nil => exact ⟨fun _ => trivial, fun _ _ => h.le⟩
  | cons c cs ih =>
    obtain ⟨hc, hcs⟩ := List.forall_mem_cons.mp hsmall
    have hhead := hgo.head
    cases hsize : c.size with
    | none =>
      have hasked : askedFor (c :: cs) = askedFor cs := by simp only [askedFor, hsize]
      obtain ⟨s₁, hrun, hnext⟩ : ∃ s₁, c.run P s = .ok ((), s₁) ∧ s.Next used s₁ := by
        cases c with
        | reqid sync => exact tpReqid_fits P.ndebug sync h (hhead.resolve_left id)
        | _ => cases hsize
      obtain ⟨hto, hof⟩ := ih hnext.roomy hcs (.inl hnext.begun)
      rw [hnext.a] at hto hof
      rw [hasked, provided_cons hrun]
      refine ⟨fun hfits => ⟨fun n hn => ?_, hto hfits⟩, fun hgarbage hprovided => ?_⟩
      · rw [hsize] at hn
        cases hn
      · exact hof (by rw [hnext.garbage, hgarbage]) hprovided.2
    | some n =>
      by_cases hint : (n : Int) ≤ intMax
      · rw [askedFor_some hsize hint]
        by_cases hfits : used + n ≤ s.str.a
        · obtain ⟨s₁, hrun, hnext⟩ := c.run_fits P h hc hhead hsize hint hfits
          obtain ⟨hto, hof⟩ := ih hnext.roomy hcs (.inl hnext.begun)
          rw [hnext.a] at hto hof
          rw [provided_cons hrun, ← Nat.add_assoc]
          refine ⟨fun hall => ⟨fun m hm _ => ?_, hto hall⟩, fun hgarbage hprovided => ?_⟩
          · obtain rfl := Option.some.inj (hsize.symm.trans hm)
            exact ensureProvides_of_fits h hfits
          · exact hof (by rw [hnext.garbage, hgarbage]) hprovided.2
        · refine ⟨fun hall => by omega, fun hgarbage hprovided => ?_⟩
          exact absurd (hprovided.1 n hsize hint) (not_ensureProvides h (by omega) hgarbage)
      · -- the call does not get as far as `tp_ensure`
        have hasked : askedFor (c :: cs) = 0 := by simp only [askedFor, hsize, if_neg hint]
        rw [hasked]
        refine ⟨fun _ => ⟨fun m hm hm' => ?_, fun s' hrun => ?_⟩, fun _ _ => h.le⟩
        · obtain rfl := Option.some.inj (hsize.symm.trans hm)
          exact absurd hm' hint
        · exact absurd hrun (c.run_overflow P hsize hint s s')

/-! ## The requests of bee.c -/

theorem Issued.small {cs : List TpCall} (h : Issued cs) : ∀ c ∈ cs, c.Small := by
  cases h with
  | space name sync =>
    have hname := name.small
    simp only [spaceCalls, List.forall_mem_cons, TpCall.Small, hname, true_and]
    exact List.forall_mem_nil _
  | index spaceNo name sync =>
    have hname := name.small
    simp only [indexCalls, List.forall_mem_cons, TpCall.Small, hname, true_and]
    exact List.forall_mem_nil _
  | auth salt login passwd auth space index =>
    have hlogin := login.small
    simp only [authCalls, List.forall_mem_cons, TpCall.Small, hlogin, true_and]
    exact List.forall_mem_nil _

theorem Issued.canGoOn {cs : List TpCall} (h : Issued cs) (s : TpState) : CanGoOn cs s := by
  cases h with
  | space name sync => exact .inr ⟨_, _, rfl, trivial⟩
  | index spaceNo name sync => exact .inr ⟨_, _, rfl, trivial⟩
  | auth salt login passwd auth space index => exact .inr ⟨_, _, rfl, trivial⟩

theorem updated_roomy (tp : Tp) {str : SmartString} (h : str.a < 2 ^ 64) :
    (TpState.updated tp str).Roomy 0 where
  p := rfl
  le := Nat.zero_le _
  e := rfl
  lt := h
  size := by
    intro start hstart
    cases hstart
  sync := by
    intro pos hpos
    cases hpos

/-- The buffer provides what the requests of bee.c ask for, whatever the variable that `tp_ensure` does
not set holds, exactly when all of a request fits the buffer there is. -/
theorem tpEnsure_provided {P : Platform} {cs : List TpCall} (h : Issued cs) (tp : Tp)
    {str : SmartString} (ha : str.a < 2 ^ 64) :
    (∀ garbage, Provided P cs (.updated { tp with garbage := garbage } str)) ↔
      askedFor cs ≤ str.a := by
  constructor
  · intro hprovided
    have hroomy := updated_roomy { tp with garbage := fun _ => 0 } ha
    have hfits := (provided_iff hroomy h.small (h.canGoOn _)).2 rfl (hprovided _)
    rwa [Nat.zero_add] at hfits
  · intro hfits garbage
    refine (provided_iff (updated_roomy { tp with garbage := garbage } ha) h.small (h.canGoOn _)).1 ?_
    rw [Nat.zero_add]
    exact hfits

/-- The buffer of a new connection. -/
def greetingBuffer : SmartString := (SmartString.null fun _ => 0).ensure greetingSize

/-- The lookup of the space `users` in the buffer of a new connection. -/
theorem tpEnsure_provided_users : Provided (.blank true) (spaceCalls (ascii "users") 0)
    (.updated ⟨0, 0, none, none, fun _ => 7⟩ greetingBuffer) :=
  (tpEnsure_provided (.space ⟨ascii "users", by decide⟩ 0) ⟨0, 0, none, none, fun _ => 0⟩
    (by decide +kernel)).mpr (by decide +kernel) _

/-- The lookup of a space whose name has 230 letters is not provided for there. -/
theorem tpEnsure_provided_long : ¬ ∀ (P : Platform) (cs : List TpCall) (tp : Tp) (str : SmartString),
    Issued cs → str.a < 2 ^ 64 → Provided P cs (.updated tp str) := by
  intro h
  have hissued : Issued (spaceCalls (List.replicate 230 0x61) 0) :=
    .space ⟨List.replicate 230 0x61, by decide +kernel⟩ 0
  have ha : greetingBuffer.a < 2 ^ 64 := by decide +kernel
  let tp : Tp := ⟨0, 0, none, none, fun _ => 0⟩
  have hfits := (provided_iff (updated_roomy tp ha) hissued.small (hissued.canGoOn _)).2 rfl
    (h (.blank true) _ tp greetingBuffer hissued ha)
  exact absurd hfits (by decide +kernel)

end BeePhp
