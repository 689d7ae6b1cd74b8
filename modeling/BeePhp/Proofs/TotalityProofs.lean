import BeePhp.Totality
import BeePhp.Proofs.QuietProofs
import BeePhp.Proofs.RecvProofs

/-!
# Proofs: receiving any bytes

`bee_step_recv` is total exactly on sound bytes (`beeStepRecv_total`). Each stage returns exactly when
the bytes it is handed can be read: `stepDecode_returns`, `stepFinish_returns`.
-/

namespace BeePhp

open Codec Program

/-! ## The decoders -/

theorem phpMpUnpackPackageSize_ok_iff {bs : Bytes} :
    (∃ n, phpMpUnpackPackageSize bs = .ok n) ↔ BeginsUint bs := by
  unfold phpMpUnpackPackageSize
  constructor
  · rintro ⟨n, hn⟩
    split at hn
    case h_1 m rest hdecode =>
      obtain ⟨w, hbound, rfl⟩ := mpDecodeUint_ok hdecode
      exact ⟨w, m, rest, hbound, rfl⟩
    case h_2 => cases hn
  · rintro ⟨w, n, rest, hbound, rfl⟩
    rw [mpDecodeUint_reads hbound rest]
    exact ⟨n, rfl⟩

/-- Unpacking ends with a value or with `FAILURE` exactly on bytes that can be unpacked. -/
theorem unpackable_iff {ndebug : Bool} {bs : Bytes} : Unpackable ndebug bs ↔
    (∃ v rest, phpMpUnpack ndebug bs = .ok (v, rest)) ∨
      ∃ e, phpMpUnpack ndebug bs = .error (.failure e) := by
  unfold Unpackable
  rw [phpMpUnpack_failure_iff]
  refine or_congr_left ?_
  constructor
  · rintro ⟨d, rest, hdec, rfl⟩
    obtain ⟨hwf, v, hv⟩ := decodable_iff.mp hdec
    exact ⟨v, rest, phpMpUnpack_ok_iff.mpr ⟨d, hwf, rfl, hv⟩⟩
  · rintro ⟨v, rest, hrun⟩
    obtain ⟨d, hwf, rfl, hv⟩ := phpMpUnpack_ok_iff.mp hrun
    exact ⟨d, rest, decodable_iff.mpr ⟨hwf, v, hv⟩, rfl⟩

/-! ## Each stage returns -/

theorem modifyObj_returns {f : Connection → Connection} {w : World} : Returns (modifyObj f) w :=
  ⟨(), _, rfl⟩

theorem stepError_returns {w : World} : Returns stepError w :=
  Returns.bind ⟨_, _, resetValue_run w⟩ fun _ _ => .pure

theorem stepErrorCon_returns {w : World} : Returns stepErrorCon w :=
  Returns.bind modifyObj_returns fun _ _ => stepError_returns

theorem throwExc_returns {format : String} {args : List MsgArg} {x : M (Option (PVal × PVal))}
    (hx : ∀ w, Returns x w) {w : World} : Returns (throwExc format args >>= fun _ => x) w :=
  Returns.bind ⟨(), _, rfl⟩ fun _ w' => hx w'

theorem unpackFailed_returns {e : Option String} {k : M (Option (PVal × PVal))}
    (hk : ∀ w, Returns k w) {w : World} : Returns (unpackFailed (.failure e) k) w := by
  cases e with
  | none => exact hk w
  | some text => exact throwExc_returns hk

theorem stepQueryError_returns {P : Platform} {code body : PVal} {w : World} :
    Returns (stepQueryError P code body) w ↔ HasError body := by
  unfold HasError
  cases body with
  | arr entries next =>
    simp only [stepQueryError]
    cases herror : indexFind entries beexError with
    | none => exact iff_of_false not_returns_throw (by simp [herror])
    | some errstr =>
      cases errstr with
      | str text =>
        exact iff_of_true (throwExc_returns fun _ => stepError_returns) ⟨_, _, text, rfl, .inl herror⟩
      | bin text =>
        rw [returns_ite]
        by_cases hnul : 0 ∈ text
        · rw [if_pos hnul]
          exact iff_of_true (throwExc_returns fun _ => stepError_returns) ⟨_, _, text, rfl, .inr ⟨herror, hnul⟩⟩
        · rw [if_neg hnul]
          exact iff_of_false not_returns_throw (by simp [herror, hnul])
      | _ => exact iff_of_false not_returns_throw (by simp [herror])
  | _ => exact iff_of_false not_returns_throw (by simp)

theorem stepFinish_returns {P : Platform} {sync : UInt64} {header : List (Key × PVal)} {next : UInt64}
    {body : PVal} {w : World} : Returns (stepFinish P sync header next body) w ↔
      (SyncFits P sync header → ∀ val, indexFind header beexCode = some val → zLval P val ≠ 0 →
        HasError body) := by
  simp only [stepFinish]
  rw [returns_ite]
  by_cases hmismatch :
      ((indexFind header beexSync).any fun val => (zLval P val).toUInt64 != sync) = true
  · rw [if_pos hmismatch]
    refine iff_of_true (throwExc_returns fun _ => stepErrorCon_returns) fun hsync => ?_
    cases hval : indexFind header beexSync with
    | none => simp [hval] at hmismatch
    | some val => simp [hval, hsync val hval] at hmismatch
  · rw [if_neg hmismatch]
    have hsync : SyncFits P sync header := by
      intro val hval
      simpa [hval] using hmismatch
    cases hcode : indexFind header beexCode with
    | none => exact iff_of_true (throwExc_returns fun _ => stepErrorCon_returns) (by simp)
    | some code =>
      dsimp only
      rw [returns_ite]
      by_cases hzero : zLval P code = 0
      · rw [if_pos hzero]
        refine iff_of_true (Returns.bind ⟨_, _, resetValue_run w⟩ fun _ _ => .pure) ?_
        rintro - val ⟨⟩ hne
        exact absurd hzero hne
      · rw [if_neg hzero, stepQueryError_returns]
        exact ⟨fun h _ _ _ _ => h, fun h => h hsync code rfl hzero⟩

/-- The validator, and behind it a computation that goes on with what is unpacked from the same bytes. -/
theorem unpacks_returns {ndebug : Bool} {bs : Bytes} {size : Nat} {Q : PVal → Bytes → Prop} {w : World}
    {fail next : M (Option (PVal × PVal))} (hfail : Returns fail w)
    (hok : ∀ v rest, phpMpUnpack ndebug bs = .ok (v, rest) → (Returns next w ↔ Q v rest))
    (hfailure : ∀ e, phpMpUnpack ndebug bs = .error (.failure e) → Returns next w)
    (hfault : ∀ f, phpMpUnpack ndebug bs = .error (.fault f) → ¬ Returns next w) :
    Returns (StateT.lift (checkStatus bs size) >>= fun status => if status ≠ 0 then fail else next) w ↔
      Unpacks ndebug bs size Q := by
  rw [returns_lift]
  refine exists_congr fun status => and_congr_right fun _ => ?_
  rw [returns_ite]
  by_cases hstatus : status = 0
  swap
  · rw [if_pos hstatus]
    exact iff_of_true hfail fun h => absurd h hstatus
  rw [if_neg (not_not.mpr hstatus), unpackable_iff, forall_prop_of_true hstatus]
  constructor
  · intro hnext
    cases hrun : phpMpUnpack ndebug bs with
    | ok r =>
      obtain ⟨v, rest⟩ := r
      refine ⟨.inl ⟨v, rest, rfl⟩, fun v' rest' hbegins => ?_⟩
      exact (hok v' rest' (phpMpUnpack_ok_iff.mpr hbegins)).mp hnext
    | error h =>
      cases h with
      | failure e =>
        refine ⟨.inr ⟨e, rfl⟩, fun v rest hbegins => ?_⟩
        cases hrun.symm.trans (phpMpUnpack_ok_iff.mpr hbegins)
      | fault f => exact absurd hnext (hfault f hrun)
  · rintro ⟨⟨v, rest, hrun⟩ | ⟨e, hrun⟩, hQ⟩
    · exact (hok v rest hrun).mpr (hQ v rest (phpMpUnpack_ok_iff.mp hrun))
    · exact hfailure e hrun

/-- Decoding returns when both values can be read and what is looked up in them is there. -/
theorem stepDecode_returns {P : Platform} {sync : UInt64} {size : Nat} {w : World} :
    Returns (stepDecode checkStatus P sync size) w ↔
      Unpacks P.ndebug w.obj.value.c size fun header rest => ∀ entries next, header = .arr entries next →
        Unpacks P.ndebug rest size fun body _ => Returns (stepFinish P sync entries next body) w := by
  rw [stepDecode, returns_bind (getObj_run w)]
  refine unpacks_returns (throwExc_returns fun _ => stepError_returns) ?_ ?_ ?_
  · intro header rest hrun
    rw [hrun]
    cases header with
    | arr entries next =>
      have hbody := @unpacks_returns P.ndebug rest size
        (fun body _ => Returns (stepFinish P sync entries next body) w) w
      refine Iff.trans (hbody (throwExc_returns fun _ => stepErrorCon_returns) ?_ ?_ ?_)
        ⟨fun h entries' next' heq => ?_, fun h => h entries next rfl⟩
      · intro body rest' hrun'
        rw [hrun']
      · intro e hrun'
        rw [hrun']
        exact unpackFailed_returns fun _ => stepError_returns
      · intro f hrun'
        rw [hrun']
        exact not_returns_throw
      · obtain ⟨rfl, rfl⟩ := PVal.arr.inj heq
        exact h
    | _ => exact iff_of_true stepError_returns (by simp)
  · intro e hrun
    rw [hrun]
    exact unpackFailed_returns fun _ => stepError_returns
  · intro f hrun
    rw [hrun]
    exact not_returns_throw

/-! ## The whole function -/

theorem lvalReads_long {P : Platform} {sync : UInt64} {header : List (Key × PVal)} :
    (∀ val ∈ lvalReads P sync header, val.IsLong) ↔
      (∀ val, indexFind header beexSync = some val → val.IsLong) ∧
      (SyncFits P sync header → ∀ val, indexFind header beexCode = some val → val.IsLong) := by
  unfold lvalReads SyncFits
  cases hsync : indexFind header beexSync with
  | none => simp
  | some val =>
    by_cases hfits : (zLval P val).toUInt64 = sync
    · simp [hfits]
    · simp [hfits]

theorem Unpacks.mono {ndebug : Bool} {bs : Bytes} {size : Nat} {Q Q' : PVal → Bytes → Prop}
    (h : Unpacks ndebug bs size Q) (hQ : checkStatus bs size = .ok 0 → ∀ v rest,
      phpMpUnpack ndebug bs = .ok (v, rest) → Q v rest → Q' v rest) : Unpacks ndebug bs size Q' := by
  obtain ⟨status, hcheck, hnext⟩ := h
  refine ⟨status, hcheck, ?_⟩
  rintro rfl
  obtain ⟨hunpackable, hall⟩ := hnext rfl
  exact ⟨hunpackable, fun v rest hb =>
    hQ hcheck v rest (phpMpUnpack_ok_iff.mpr hb) (hall v rest hb)⟩

theorem Unpacks.apply {ndebug : Bool} {bs : Bytes} {size : Nat} {Q : PVal → Bytes → Prop}
    (h : Unpacks ndebug bs size Q) (hcheck : checkStatus bs size = .ok 0) {v : PVal} {rest : Bytes}
    (hrun : phpMpUnpack ndebug bs = .ok (v, rest)) : Q v rest := by
  obtain ⟨status, hstatus, hnext⟩ := h
  obtain rfl := Except.ok.inj (hcheck.symm.trans hstatus)
  exact (hnext rfl).2 v rest (phpMpUnpack_ok_iff.mp hrun)

/-- A payload is read without a fault exactly when it is sound. -/
theorem Receives.sound {P : Platform} {sync : UInt64} {w w' : World} {payload : Bytes}
    (h : Receives checkStatus w payload w') (hlen : w.obj.value.len = 0) :
    (Returns (beeStepRecv P sync) w ∧ ∀ header next body, Finishes P w header next body →
      ∀ val ∈ lvalReads P sync header, val.IsLong) ↔
    Unpacks P.ndebug (payload ++ w.obj.value.behind payload.length) payload.length fun header rest =>
      ∀ entries next, header = .arr entries next →
        Unpacks P.ndebug rest payload.length fun body _ => Legible P sync entries body := by
  obtain ⟨w'', hc, -, -, hrun⟩ := h.decodes hlen P sync
  have hreturns : Returns (beeStepRecv P sync) w ↔
      Returns (stepDecode checkStatus P sync payload.length) w'' := by
    simp only [Returns, beeStepRecv, hrun]
  rw [hreturns, stepDecode_returns, hc]
  constructor
  · rintro ⟨hdecode, htyped⟩
    refine hdecode.mono fun hcheck header rest hheader hbody entries next heq => ?_
    refine (hbody entries next heq).mono fun hcheck' body rest' hrun' hfinish => ?_
    obtain ⟨hsync, hcode⟩ := lvalReads_long.mp (htyped entries next body
      ⟨payload, w', rest, rest', h, hcheck, by rw [hheader, heq], hcheck', hrun'⟩)
    exact ⟨hsync, hcode, stepFinish_returns.mp hfinish⟩
  · intro hsound
    refine ⟨hsound.mono fun _ header rest _ hbody entries next heq => ?_, ?_⟩
    · refine (hbody entries next heq).mono fun _ body _ _ hlegible => ?_
      exact stepFinish_returns.mpr hlegible.errorText
    · rintro header next body ⟨payload', w₁, pos, rest, h', hcheck, hheader, hcheck', hbody⟩
      obtain rfl := h.unique h'
      have hlegible := (hsound.apply hcheck hheader header next rfl).apply hcheck' hbody
      exact lvalReads_long.mpr ⟨hlegible.longSync, hlegible.longCode⟩

theorem Receives.length {w w' : World} {payload : Bytes} (h : Receives checkStatus w payload w') :
    ∀ packLen w', readLength .length w = .ok ((5, packLen), w') →
      Validated packLen 5 (BeginsUint packLen) := by
  obtain ⟨packLen, w₁, rest, stream, hlength, hcheck, hsize, -, -⟩ := h
  intro packLen' w₂ hlength'
  obtain ⟨heq, -⟩ := Prod.mk.inj (Except.ok.inj (hlength.symm.trans hlength'))
  obtain ⟨-, rfl⟩ := Prod.mk.inj heq
  exact ⟨0, hcheck, fun _ => phpMpUnpackPackageSize_ok_iff.mp ⟨_, hsize⟩⟩

/-- As long as no payload is received, all depends on the length. -/
theorem beeStepRecv_length {P : Platform} {sync : UInt64} {w : World} {stream : Stream}
    (hstream : w.obj.stream = some stream) (hnone : ¬ ∃ payload w', Receives checkStatus w payload w') :
    Returns (beeStepRecv P sync) w ↔ ∀ packLen w', readLength .length w = .ok ((5, packLen), w') →
      Validated packLen 5 (BeginsUint packLen) := by
  obtain ⟨ls, w₁, hdel, hlength⟩ := readLength_delivers .length hstream
  obtain ⟨rest, net, -, -, rfl⟩ := hdel.after
  rw [beeStepRecv, beeStepRecvWith, returns_bind hlength]
  dsimp only
  rw [returns_ite]
  by_cases hfive : ls.length = 5
  swap
  · rw [if_pos hfive]
    refine iff_of_true (throwExc_returns fun _ => stepErrorCon_returns) fun packLen w' h => ?_
    obtain ⟨heq, -⟩ := Prod.mk.inj (Except.ok.inj (hlength.symm.trans h))
    exact absurd (Prod.mk.inj heq).1 hfive
  rw [hfive] at hlength ⊢
  rw [if_neg (not_not.mpr rfl), returns_lift]
  have hfivebytes : (ls ++ [0, 0, 0, 0, 0].drop 5).length = 5 := by simp [hfive]
  generalize ls ++ [0, 0, 0, 0, 0].drop 5 = packLen at hlength hfivebytes ⊢
  trans Validated packLen 5 (BeginsUint packLen)
  · refine exists_congr fun status => and_congr_right fun hcheck => ?_
    rw [returns_ite]
    by_cases hstatus : status = 0
    swap
    · rw [if_pos hstatus]
      exact iff_of_true (throwExc_returns fun _ => stepErrorCon_returns) fun h => absurd h hstatus
    rw [if_neg (not_not.mpr hstatus), returns_lift, forall_prop_of_true hstatus,
      ← phpMpUnpackPackageSize_ok_iff]
    refine exists_congr fun size => and_iff_left_of_imp fun hsize => ?_
    have hopen : (w.after stream rest net).obj.stream = some { stream with inbox := rest } := rfl
    obtain ⟨n, w₂, hbody⟩ := readBody_returns size hopen
    rw [returns_bind hbody, returns_ite]
    by_cases hn : n = size
    swap
    · rw [if_pos hn]
      exact throwExc_returns fun _ => stepError_returns
    -- a complete payload would have been received
    rw [hstatus] at hcheck
    rw [hn] at hbody
    obtain ⟨payload, hreceives⟩ := receives_of_read hlength hfivebytes hcheck hsize hbody
    exact absurd ⟨payload, w₂, hreceives⟩ hnone
  · constructor
    · intro h packLen' w' hlength'
      obtain ⟨heq, -⟩ := Prod.mk.inj (Except.ok.inj (hlength.symm.trans hlength'))
      obtain ⟨-, rfl⟩ := Prod.mk.inj heq
      exact h
    · intro h
      exact h packLen _ hlength

/-- `bee_step_recv` is total exactly on sound bytes. -/
theorem beeStepRecv_total {P : Platform} {sync : UInt64} {w : World} {stream : Stream}
    (hstream : w.obj.stream = some stream) (hlen : w.obj.value.len = 0) :
    Total P sync w ↔ Sound P sync w := by
  have hreturns : Total P sync w ↔ Returns (beeStepRecv P sync) w ∧
      ∀ header next body, Finishes P w header next body →
        ∀ val ∈ lvalReads P sync header, val.IsLong := by
    refine ⟨fun ⟨⟨answer, w', hrun, _⟩, htyped⟩ => ⟨⟨answer, w', hrun⟩, htyped⟩, ?_⟩
    rintro ⟨⟨answer, w', hrun⟩, htyped⟩
    exact ⟨⟨answer, w', hrun, fun _ => beeStepRecvWith_empties w answer w' hrun⟩, htyped⟩
  rw [hreturns]
  by_cases hpayload : ∃ payload w', Receives checkStatus w payload w'
  · obtain ⟨payload, w', h⟩ := hpayload
    rw [h.sound hlen]
    refine ⟨fun hsound => ⟨h.length, fun payload' w'' h' => ?_⟩, fun hsound => hsound.payload _ _ h⟩
    obtain rfl := h.unique h'
    exact hsound
  · rw [beeStepRecv_length hstream hpayload]
    constructor
    · rintro ⟨hlength, -⟩
      exact ⟨hlength, fun payload w' h => absurd ⟨payload, w', h⟩ hpayload⟩
    · intro hsound
      refine ⟨hsound.length, fun header next body hfinishes => ?_⟩
      obtain ⟨payload, w', pos, rest, h, -⟩ := hfinishes
      exact absurd ⟨payload, w', h⟩ hpayload

/-- The theorem at a response with the code 0 and a nil. -/
theorem beeStepRecv_total_nil :
    let w := World.receiving (frame [0x81, 0x00, 0x00, 0xc0]) []
    Total (.blank false) 7 w ↔ Sound (.blank false) 7 w :=
  beeStepRecv_total rfl rfl

/-- A response with the code 1 and a nil, which has no hash table to look up the text of the error. -/
theorem beeStepRecv_total_error : ¬ ∀ (P : Platform) (sync : UInt64) (w : World) (stream : Stream),
    w.obj.stream = some stream → w.obj.value.len = 0 → Total P sync w := by
  intro h
  let payload : Bytes := [0x81, 0x00, 0x01, 0xc0]
  let w := World.receiving (frame payload) []
  let left := w.obj.value.behind payload.length
  let header := Doc.map .fix [.uint .fix 0, .uint .fix 1]
  obtain ⟨w', hreceives⟩ := receives_receiving checkStatus_accepting
    (show payload.length < 2 ^ 31 by decide)
  obtain ⟨⟨answer, w'', hrun, -⟩, htyped⟩ := h (.blank false) 7 w _ rfl rfl
  have hsound := (hreceives.sound rfl).mp ⟨⟨answer, w'', hrun⟩, htyped⟩
  have hheader : phpMpUnpack false (header.encode ++ (Doc.nil.encode ++ left)) =
      .ok (.arr [(.idx 0, .long 1)] 1, Doc.nil.encode ++ left) :=
    (phpMpUnpack_doc (by decide)).mpr ⟨rfl, rfl⟩
  have hbody : phpMpUnpack false (Doc.nil.encode ++ left) = .ok (.null, left) :=
    (phpMpUnpack_doc (by decide)).mpr ⟨rfl, rfl⟩
  have hcheck := checkStatus_accepting header (Doc.nil.encode ++ left) 4 (by decide) (by decide)
    (by decide)
  have hcheck' := checkStatus_accepting .nil left 4 (by decide) (by decide) (by decide)
  have hlegible := (hsound.apply hcheck hheader _ _ rfl).apply hcheck' hbody
  have hfits : SyncFits (.blank false) 7 [(.idx 0, .long 1)] := by
    intro val hval
    cases show (none : Option PVal) = some val from hval
  obtain ⟨entries, next, text, heq, -⟩ := hlegible.errorText hfits (.long 1) rfl (by decide)
  cases heq

end BeePhp
