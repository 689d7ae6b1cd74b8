import BeePhp.Proofs.RecvProofs

/-!
# Proofs: what is decoded lies in the payload

The body is checked against the size of the whole payload, though the header stands before it. So
`bee_step_recv` decodes inside the payload exactly when the bytes behind it do not complete it
(`beeStepRecv_inside`).
-/

namespace BeePhp

open Codec Program

/-- A payload that is completed by the bytes behind it is decoded together with them. -/
theorem Completed.not_inside {check : Bytes → Nat → Except Fault Nat} {P : Platform} {sync : UInt64}
    {w w' : World} {payload : Bytes} (h : Receives check w payload w') (hlen : w.obj.value.len = 0)
    (hcompleted : Completed check P sync payload (w.obj.value.behind payload.length)) :
    ¬ LiesInside check P sync w payload := by
  intro hinside
  obtain ⟨w₁, hc, -, -, hrun⟩ := h.decodes hlen P sync
  obtain ⟨header, body, more, entries, next, hheader, hbody, heq, hlong, hcheck, hcheck', hval, hacc⟩ :=
    hcompleted
  obtain ⟨hbodywf, b, hb⟩ := decodable_iff.mp hbody
  have hdec : Decodes check P sync payload.length w₁.obj.value.c (.arr entries next) b := by
    rw [hc]
    refine ⟨hcheck, _, _, _, _, ?_, rfl, hacc, hcheck', (phpMpUnpack_doc hbodywf).mpr ⟨hb, rfl⟩⟩
    rw [heq]
    exact (phpMpUnpack_doc hheader).mpr ⟨hval, rfl⟩
  obtain ⟨header', body', more', hwf, hwf', hpayload, hval', hb'⟩ :=
    hinside _ _ _ (hrun.trans (stepDecode_run hdec))
  -- both pairs of documents stand at the front of the same bytes
  have heq' : header'.encode ++ (body'.encode ++ (more' ++ w.obj.value.behind payload.length)) =
      header.encode ++ (body.encode ++ more) := by
    rw [← heq, hpayload]
    simp only [List.append_assoc]
  have hrest := rest_unique hwf hheader hval' heq'
  have hmore := rest_unique hwf' hbodywf hb' hrest
  have hlength := congrArg List.length heq
  simp only [hmore.symm, hpayload, List.length_append] at hlength hlong
  omega

/-- What `bee_step_recv` decodes lies in the payload it has read unless the bytes behind the payload in
the buffer complete it. -/
theorem beeStepRecv_inside {check : Bytes → Nat → Except Fault Nat} {P : Platform} {sync : UInt64}
    {w w' : World} {payload : Bytes} (h : Receives check w payload w') (hlen : w.obj.value.len = 0) :
    LiesInside check P sync w payload ↔
      ¬ Completed check P sync payload (w.obj.value.behind payload.length) := by
  refine ⟨fun hinside hcompleted => hcompleted.not_inside h hlen hinside, ?_⟩
  intro hnot header b w'' hr
  obtain ⟨w₁, hc, -, -, hrun⟩ := h.decodes hlen P sync
  rw [hrun] at hr
  obtain ⟨hcheck, entries, next, pos, rest, hheader, rfl, hacc, hcheck', hbody⟩ :=
    stepDecode_some check P sync _ w₁ _ _ hr _ _ rfl
  rw [hc] at hcheck hheader
  obtain ⟨d, hwf, heq, hval⟩ := phpMpUnpack_ok_iff.mp hheader
  obtain ⟨d', hwf', rfl, hval'⟩ := phpMpUnpack_ok_iff.mp hbody
  have hfits : (d.encode ++ d'.encode).length ≤ payload.length := by
    by_contra hlong
    exact hnot ⟨d, d', rest, entries, next, hwf, decodable_iff.mpr ⟨hwf', b, hval'⟩, heq, by omega,
      hcheck, hcheck', hval, hacc⟩
  rw [← List.append_assoc] at heq
  obtain ⟨more, hpayload⟩ : d.encode ++ d'.encode <+: payload :=
    List.prefix_of_prefix_length_le ⟨rest, heq.symm⟩ ⟨_, rfl⟩ hfits
  exact ⟨d, d', more, hwf, hwf', by rw [← hpayload, List.append_assoc], hval, hval'⟩

/-- The theorem at a response with the code 0 and a nil. -/
theorem beeStepRecv_inside_nil :
    let payload : Bytes := [0x81, 0x00, 0x00, 0xc0]
    let w := World.receiving (frame payload) []
    LiesInside checkStatus (.blank false) 7 w payload ↔
      ¬ Completed checkStatus (.blank false) 7 payload (w.obj.value.behind payload.length) := by
  obtain ⟨w', h⟩ := receives_receiving checkStatus_accepting
    (show [0x81, 0x00, 0x00, 0xc0].length < 2 ^ 31 by decide)
  exact beeStepRecv_inside h rfl

/-- The payload ends two bytes before the string in it does. -/
theorem completed_short {check : Bytes → Nat → Except Fault Nat} (haccepting : Accepting check) :
    ¬ ∀ (P : Platform) (sync : UInt64) (w : World) (payload : Bytes) (w' : World),
      Receives check w payload w' → w.obj.value.len = 0 → LiesInside check P sync w payload := by
  intro h
  let payload : Bytes := [0x81, 0x00, 0x00, 0xa4, 0x61, 0x62]
  obtain ⟨w', hreceives⟩ := receives_receiving haccepting (show payload.length < 2 ^ 31 by decide)
  let header := Doc.map .fix [.uint .fix 0, .uint .fix 0]
  let body := Doc.str .fix [0x61, 0x62, 0x00, 0x00]
  have hleft : (World.receiving (frame payload) []).obj.value.behind payload.length =
      0 :: 0 :: List.replicate 249 0 := receiving_behind _ _ (by decide)
  suffices hcompleted : Completed check (.blank false) 7 payload
      ((World.receiving (frame payload) []).obj.value.behind payload.length) from
    hcompleted.not_inside hreceives rfl (h _ _ _ _ _ hreceives rfl)
  rw [hleft]
  refine ⟨header, body, List.replicate 249 0, _, _, by decide, ⟨by decide, trivial, .inr trivial⟩, rfl, by decide, ?_, ?_,
    rfl, ?_⟩
  · exact haccepting header _ 6 (by decide) (by decide) (by decide)
  · exact haccepting body _ 6 (by decide) (by decide) (by decide)
  · refine ⟨fun val hval => ?_, _, rfl, rfl⟩
    cases show (none : Option PVal) = some val from hval

/-- Neither `mp_check` nor an exact validator keeps what is decoded inside the payload. -/
theorem beeStepRecv_inside_short :
    (¬ ∀ (P : Platform) (sync : UInt64) (w : World) (payload : Bytes) (w' : World),
      Receives checkStatus w payload w' → w.obj.value.len = 0 →
      LiesInside checkStatus P sync w payload) ∧
    (∃ check, ExactValidator check) ∧ ∀ check, ExactValidator check →
      ¬ ∀ (P : Platform) (sync : UInt64) (w : World) (payload : Bytes) (w' : World),
        Receives check w payload w' → w.obj.value.len = 0 → LiesInside check P sync w payload :=
  ⟨completed_short checkStatus_accepting, exists_exactValidator,
    fun _ h => completed_short h.accepting⟩

end BeePhp
