import BeePhp.Proofs.RecvProofs
import BeePhp.Proofs.RequestProofs

/-!
# Proofs: well-formed responses

When `bee_step_recv` receives a well-formed OK response (`beeStepRecv_response`), and for which requests
the sync in the request is the one it expects in the response (`beeStepRecv_correlates`).
-/

namespace BeePhp

open Codec Program

/-! ## Receiving -/

/-- The header of an OK response is accepted by the request with its sync and by no other. -/
theorem OkHeader.accepts_iff {P : Platform} {sync : Nat} {ps : List (Doc × Doc)}
    (h : OkHeader sync ps) {sw : SeqWidth} (hwf : (Doc.map sw (flatten ps)).WF) {t : Table PVal}
    (hrun : pairsToPhp P.ndebug (flatten ps) .empty = .ok t) {sync' : UInt64} :
    Accepts P sync' t.entries ↔ sync' = UInt64.ofNat sync := by
  obtain ⟨p, hp, hkey, hval⟩ := h.sync
  have hfind := lookup_header h hwf hrun hp hkey hval
  have hlong : (Int64.ofInt sync).toUInt64 = UInt64.ofNat sync := by
    rw [← UInt64.toNat_inj, UInt64.toNat_ofNat']
    exact (BitVec.toNat_ofInt (sync : Int)).trans (by omega)
  constructor
  · intro hacc
    exact (hacc.sync _ hfind).symm.trans hlong
  · rintro rfl
    obtain ⟨q, hq, hkey', hval'⟩ := h.code
    refine ⟨fun val hval => ?_, _, lookup_header h hwf hrun hq hkey' hval', rfl⟩
    obtain rfl := Option.some.inj (hval.symm.trans hfind)
    exact hlong

/-- The documents of a response are decoded for the request with its sync, when the assertions allow
it. -/
theorem decodes_response {P : Platform} {sync : Nat} {sw : SeqWidth} {ps : List (Doc × Doc)} {d : Doc}
    (hok : OkResponse sync sw ps d) (sync' : UInt64) (left : Bytes) (h b : PVal) :
    Decodes checkStatus P sync' ((Doc.map sw (flatten ps)).encode ++ d.encode).length
      ((Doc.map sw (flatten ps)).encode ++ d.encode ++ left) h b ↔
    sync' = UInt64.ofNat sync ∧ docToPhp P.ndebug (.map sw (flatten ps)) = .ok h ∧
      docToPhp P.ndebug d = .ok b := by
  have hsize := hok.size
  rw [List.append_assoc]
  constructor
  · rintro ⟨-, entries, next, pos, rest, hheader, rfl, hacc, -, hbody⟩
    obtain ⟨hh, rfl⟩ := (phpMpUnpack_doc hok.header_wf).mp hheader
    obtain ⟨t, hrun, ht⟩ := header_toPhp hh
    obtain ⟨rfl, rfl⟩ := PVal.arr.inj ht
    exact ⟨(hok.header.accepts_iff hok.header_wf hrun).mp hacc, hh,
      ((phpMpUnpack_doc hok.body_wf).mp hbody).1⟩
  · rintro ⟨hsync, hheader, hbody⟩
    obtain ⟨t, hrun, rfl⟩ := header_toPhp hheader
    refine ⟨checkStatus_accepting _ _ _ hok.header_wf (by simp) hsize, _, _, _, _,
      (phpMpUnpack_doc hok.header_wf).mpr ⟨hheader, rfl⟩, rfl,
      (hok.header.accepts_iff hok.header_wf hrun).mpr hsync,
      checkStatus_accepting _ _ _ hok.body_wf (by simp) hsize,
      (phpMpUnpack_doc hok.body_wf).mpr ⟨hbody, rfl⟩⟩

/-- `bee_step_recv` on a well-formed OK response returns what its documents are to PHP, to the request
with its sync. -/
theorem beeStepRecv_frame {P : Platform} {sync : Nat} {sw : SeqWidth} {ps : List (Doc × Doc)}
    {d : Doc} (hok : OkResponse sync sw ps d) (sync' : UInt64) {w : World} {stream : Stream}
    {rest : Bytes} (hstream : w.obj.stream = some { stream with
      inbox := frame ((Doc.map sw (flatten ps)).encode ++ d.encode) ++ rest })
    (hlen : w.obj.value.len = 0) (hlength : w.net.Prompt .length) (hother : w.net.Prompt .other) :
    ∃ w', w'.obj.stream = some { stream with inbox := rest } ∧ w'.obj.value.len = 0 ∧
      (∀ h b, sync' = UInt64.ofNat sync → docToPhp P.ndebug (.map sw (flatten ps)) = .ok h →
        docToPhp P.ndebug d = .ok b → beeStepRecv P sync' w = .ok (some (h, b), w')) ∧
      Wlp (beeStepRecv P sync') (fun r _ => ∀ h b, r = some (h, b) → sync' = UInt64.ofNat sync ∧
        docToPhp P.ndebug (.map sw (flatten ps)) = .ok h ∧ docToPhp P.ndebug d = .ok b) w := by
  obtain ⟨w₁, hreceives, hrest⟩ := receives_frame checkStatus_accepting hok.size hlength hother hstream
  obtain ⟨w₂, hc, hstream₂, -, hrun⟩ := hreceives.decodes hlen P sync'
  refine ⟨w₂.cleared, hstream₂.trans hrest, rfl, fun h b hsync hheader hbody => ?_, ?_⟩
  · rw [beeStepRecv, hrun]
    refine stepDecode_run ?_
    rw [hc]
    exact (decodes_response hok sync' _ h b).mpr ⟨hsync, hheader, hbody⟩
  · intro r w' hr h b hv
    rw [beeStepRecv, hrun] at hr
    have hdec := stepDecode_some checkStatus P _ _ w₂ r w' hr h b hv
    rw [hc] at hdec
    exact (decodes_response hok sync' _ h b).mp hdec

/-- The documents of a response are values of PHP when no key in them is a bin and the assertions allow it. -/
theorem OkResponse.toPhp_iff {P : Platform} {sync : Nat} {sw : SeqWidth} {ps : List (Doc × Doc)}
    {d : Doc} (hok : OkResponse sync sw ps d) :
    (∃ h b, docToPhp P.ndebug (.map sw (flatten ps)) = .ok h ∧ docToPhp P.ndebug d = .ok b) ↔
      (Plain (.map sw (flatten ps)) ∧ Plain d) ∧
        (P.ndebug = true ∨ SignedNegative (.map sw (flatten ps)) ∧ SignedNegative d) := by
  have hheader := @docToPhp_ok_iff P.ndebug _ hok.header_wf
  have hbody := @docToPhp_ok_iff P.ndebug _ hok.body_wf
  constructor
  · rintro ⟨h, b, hh, hb⟩
    have hheader := hheader.mp ⟨h, hh⟩
    have hbody := hbody.mp ⟨b, hb⟩
    tauto
  · rintro ⟨⟨hplain, hplain'⟩, hsigned⟩
    obtain ⟨h, hh⟩ := hheader.mpr ⟨hplain, hsigned.imp_right (·.1)⟩
    obtain ⟨b, hb⟩ := hbody.mpr ⟨hplain', hsigned.imp_right (·.2)⟩
    exact ⟨h, b, hh, hb⟩

/-- A well-formed OK response, however it is cut into chunks, is received exactly when no map in it has a bin for
a key, and the assertions are compiled out or no number in it is written in a signed form without being negative. -/
theorem beeStepRecv_response {P : Platform} {sync : Nat} {sw : SeqWidth} {ps : List (Doc × Doc)}
    {d : Doc} (hok : OkResponse sync sw ps d) {w : World} {stream : Stream} {rest : Bytes}
    (hstream : w.obj.stream = some { stream with
      inbox := frame ((Doc.map sw (flatten ps)).encode ++ d.encode) ++ rest })
    (hlen : w.obj.value.len = 0) (hlength : w.net.Prompt .length) (hother : w.net.Prompt .other) :
    ReceivesOk P (UInt64.ofNat sync) w (.map sw (flatten ps)) d stream rest ↔
      (Plain (.map sw (flatten ps)) ∧ Plain d) ∧
        (P.ndebug = true ∨ SignedNegative (.map sw (flatten ps)) ∧ SignedNegative d) := by
  obtain ⟨w', hstream', hlen', hrun, hwlp⟩ :=
    beeStepRecv_frame hok (UInt64.ofNat sync) hstream hlen hlength hother
  rw [← hok.toPhp_iff]
  constructor
  · rintro ⟨h, b, w'', hr, -⟩
    exact ⟨h, b, (hwlp _ _ hr h b rfl).2⟩
  · rintro ⟨h, b, hh, hb⟩
    exact ⟨h, b, w', hrun h b rfl hh hb, docToPhp_ndebug _ hh, docToPhp_ndebug _ hb, hstream', hlen'⟩

/-- A nil is received in chunks of one, two and three bytes. -/
theorem beeStepRecv_response_chunked :
    let header := Doc.map .fix (flatten (shortHeader 7))
    ReceivesOk (.blank false) 7 (.receiving (frame (header.encode ++ Doc.nil.encode)) [1, 2, 3]) header
      .nil ⟨[], [], none⟩ [] := by
  intro header
  have hok : OkResponse 7 .fix (shortHeader 7) .nil :=
    okResponse_short (by decide) (by decide) trivial (by decide)
  have hprompt (kind : ReadKind) :
      (World.receiving (frame (header.encode ++ Doc.nil.encode)) [1, 2, 3]).net.Prompt kind :=
    receiving_prompt (by decide) kind
  refine (@beeStepRecv_response (.blank false) 7 .fix _ .nil hok _ ⟨[], [], none⟩ []
    (receiving_stream _ _) rfl (hprompt .length) (hprompt .other)).mpr ⟨⟨?_, trivial⟩, .inr ⟨?_, trivial⟩⟩
  · exact shortHeader_plain 7
  · simp [shortHeader, flatten, SignedNegative, AllSignedNegative]

/-- With the assertions compiled in, a 5 in the form of eight signed bits is not received. -/
theorem beeStepRecv_response_signed : ¬ ∀ (P : Platform) (sync : Nat) (sw : SeqWidth)
    (ps : List (Doc × Doc)) (d : Doc), sync < 2 ^ 32 → OkResponse sync sw ps d →
    ∀ (w : World) (stream : Stream) (rest : Bytes), w.obj.stream = some { stream with
      inbox := frame ((Doc.map sw (flatten ps)).encode ++ d.encode) ++ rest } →
    w.obj.value.len = 0 → w.net.Prompt .length → w.net.Prompt .other →
    ReceivesOk P (UInt64.ofNat sync) w (.map sw (flatten ps)) d stream rest := by
  intro h
  have hok : OkResponse 7 .fix (shortHeader 7) (.int .w8 5) :=
    okResponse_short (by decide) (by decide) trivial (by decide)
  let w := World.receiving (frame ((Doc.map .fix (flatten (shortHeader 7))).encode ++
    (Doc.int .w8 5).encode)) []
  have hstream := receiving_stream (frame ((Doc.map .fix (flatten (shortHeader 7))).encode ++
    (Doc.int .w8 5).encode)) []
  have hprompt (kind : ReadKind) : w.net.Prompt kind := receiving_prompt (List.forall_mem_nil _) kind
  obtain ⟨v, b, w', hrun, -⟩ := h (.blank false) 7 .fix (shortHeader 7) (.int .w8 5) (by decide) hok w _
    [] hstream rfl (hprompt _) (hprompt _)
  obtain ⟨-, -, -, -, hwlp⟩ := beeStepRecv_frame (P := .blank false) hok 7 hstream rfl
    (hprompt _) (hprompt _)
  have hb := (hwlp _ _ hrun v b rfl).2.2
  simp [docToPhp, Platform.blank] at hb

/-! ## The sync of a request -/

/-- The pairs of the header of a request. -/
theorem headerDoc_eq (type sync : UInt32) : headerDoc type sync = .map (.forNat 2) (flatten
    [(.ofNat beexCode.toNat, .ofNat type.toNat), (.ofNat beexSync.toNat, .ofNat sync.toNat)]) := rfl

/-- The header of a request stands for an array with the sync. -/
theorem headerDoc_toPhp (type sync : UInt32) : ∃ t : Table PVal,
    docToPhp true (headerDoc type sync) = .ok (.arr t.entries t.nNextFreeElement) ∧
      indexFind t.entries beexSync = some (.long (.ofNat sync.toNat)) := by
  have hwf := headerDoc_wf type sync
  have hplain : Plain (headerDoc type sync) := by
    simp [headerDoc_eq, flatten, Plain, PairsPlain, isKeyDoc, Doc.ofNat]
  obtain ⟨v, hv⟩ := (@docToPhp_ok_iff true _ hwf).mpr ⟨hplain, .inl rfl⟩
  rw [headerDoc_eq] at hv
  obtain ⟨t, hrun, rfl⟩ := header_toPhp hv
  refine ⟨t, hv, ?_⟩
  have htype := type.toNat_lt
  have hint : IntegerKeys
      [(.ofNat beexCode.toNat, .ofNat type.toNat), (.ofNat beexSync.toNat, .ofNat sync.toNat)] := by
    rintro p hp
    obtain rfl | rfl : p = _ ∨ p = _ := by simpa using hp
    · exact ⟨_, rfl, by decide, by decide⟩
    · exact ⟨_, rfl, by decide, by decide⟩
  obtain ⟨value, hvalue, hlookup⟩ := lookup_pairs_some hint
    (by simp [integerOf, Doc.ofNat, beexCode, beexSync]) (List.mem_cons_of_mem _ List.mem_cons_self)
    (h := beexSync) rfl hrun
  obtain rfl := Except.ok.inj hvalue
  exact hlookup

/-- The sync that an encoder writes is found in the request. -/
theorem requestSync_encodes {ndebug : Bool} {H : Heap} {r : Request} (hproper : r.Proper)
    (hsmall : r.Small) (sync : UInt32) {str str' : SmartString} {c : Counts} (hempty : str.len = 0)
    (hencode : r.encode ndebug H str (fun _ => 0) sync = .ok (str', c)) :
    requestSync str'.data = some (.ofNat sync.toNat) := by
  obtain ⟨str'', hencode', hdata⟩ := r.encodes ndebug H str hproper hsmall sync
  obtain ⟨rfl, rfl⟩ := Prod.mk.inj (Except.ok.inj (hencode.symm.trans hencode'))
  obtain ⟨type, rest, hpayload⟩ : ∃ type rest,
      r.payload H sync = (headerDoc type sync).encode ++ rest := by
    rcases r.docs_cases H sync with rfl | ⟨hdocs, -⟩
    · exact ⟨beexPing, [], by simp [Request.payload, Request.docs, encodeAll]⟩
    · exact ⟨r.type, _, body_payload hdocs⟩
  have hnil : str.data = [] := by
    simp [SmartString.data, hempty]
  have hdrop : str'.data.drop 5 = (headerDoc type sync).encode ++ rest := by
    rw [hdata, hnil, hpayload, List.nil_append]
    exact List.drop_left' (by simp)
  obtain ⟨t, hval, hfind⟩ := headerDoc_toPhp type sync
  rw [requestSync, hdrop, (phpMpUnpack_doc (headerDoc_wf type sync)).mpr ⟨hval, rfl⟩]
  simp only [hfind]

/-- The counter is below 2^32 exactly when its low 32 bits are all of it. -/
theorem longToUint32_eq_iff {c : Int64} (hc : 0 ≤ c) :
    c.toUInt64 = UInt64.ofNat (longToUint32 c).toNat ↔ c.toInt < 2 ^ 32 := by
  have hint : 0 ≤ c.toInt := Int64.le_iff_toInt_le.mp hc
  have hnat := toNat_toUInt64 hc
  have hlt := c.toUInt64.toNat_lt
  rw [← UInt64.toNat_inj, UInt64.toNat_ofNat', longToUint32, UInt64.toNat_toUInt32, hnat]
  omega

/-- A request takes its sync from the counter, and a well-formed OK response comes with the sync that is
found in the request. It is accepted exactly when the counter is below 2^32, no map in the response has a bin for
a key, and the assertions allow the numbers in it. -/
theorem beeStepRecv_correlates {P : Platform} {H : Heap} {r : Request} (hproper : r.Proper)
    (hsmall : r.Small) {c : Int64} (hc : 0 ≤ c) {str str' : SmartString} {counts : Counts}
    (hempty : str.len = 0)
    (hencode : r.encode P.ndebug H str (fun _ => 0) (longToUint32 c) = .ok (str', counts))
    {sync : Int64} (hsync : requestSync str'.data = some sync) {sw : SeqWidth}
    {ps : List (Doc × Doc)} {d : Doc} (hok : OkResponse sync.toUInt64.toNat sw ps d) {w : World}
    {stream : Stream} {rest : Bytes} (hstream : w.obj.stream = some { stream with
      inbox := frame ((Doc.map sw (flatten ps)).encode ++ d.encode) ++ rest })
    (hlen : w.obj.value.len = 0) (hlength : w.net.Prompt .length) (hother : w.net.Prompt .other) :
    (∃ v w', beeStepRecv P c.toUInt64 w = .ok (some v, w') ∧ w'.obj.stream.isSome) ↔
      c.toInt < 2 ^ 32 ∧ (Plain (.map sw (flatten ps)) ∧ Plain d) ∧
        (P.ndebug = true ∨ SignedNegative (.map sw (flatten ps)) ∧ SignedNegative d) := by
  obtain ⟨w', hstream', -, hrun, hwlp⟩ :=
    beeStepRecv_frame hok c.toUInt64 hstream hlen hlength hother
  obtain rfl := Option.some.inj
    (hsync.symm.trans (requestSync_encodes hproper hsmall _ hempty hencode))
  have hofNat : UInt64.ofNat (Int64.ofNat (longToUint32 c).toNat).toUInt64.toNat =
      UInt64.ofNat (longToUint32 c).toNat := by
    rw [UInt64.ofNat_toNat]
    rfl
  rw [hofNat] at hrun hwlp
  rw [← hok.toPhp_iff, ← longToUint32_eq_iff hc]
  constructor
  · rintro ⟨⟨h, b⟩, w'', hr, -⟩
    obtain ⟨heq, hh, hb⟩ := hwlp _ _ hr h b rfl
    exact ⟨heq, h, b, hh, hb⟩
  · rintro ⟨heq, h, b, hh, hb⟩
    exact ⟨(h, b), w', hrun h b heq hh hb, by rw [hstream']; rfl⟩

theorem ping_small : Request.ping.Small := by
  simp [Request.Small, Request.fields]

/-- The response to a ping with the sync 3 is accepted. -/
theorem beeStepRecv_correlates_ping :
    let inbox := frame ((Doc.map .fix (flatten (shortHeader 3))).encode ++ Doc.nil.encode)
    ∃ v w', beeStepRecv (.blank false) 3 (.receiving inbox []) = .ok (some v, w') ∧
      w'.obj.stream.isSome := by
  obtain ⟨str', hencode, -⟩ :=
    Request.encodes false [] (.null fun _ => 0) .ping trivial ping_small 3
  intro inbox
  have hsync := requestSync_encodes (r := .ping) trivial ping_small 3 rfl hencode
  have hok : OkResponse 3 .fix (shortHeader 3) .nil :=
    okResponse_short (by decide) (by decide) trivial (by decide)
  have hprompt (kind : ReadKind) : (World.receiving inbox []).net.Prompt kind :=
    receiving_prompt (List.forall_mem_nil _) kind
  refine (@beeStepRecv_correlates (.blank false) [] .ping trivial ping_small 3 (by decide) _ str' _ rfl
    hencode 3 hsync .fix _ .nil hok _ ⟨[], [], none⟩ [] (receiving_stream _ _) rfl (hprompt .length)
    (hprompt .other)).mpr ⟨by decide, ⟨shortHeader_plain 3, trivial⟩, .inr ⟨?_, trivial⟩⟩
  simp [shortHeader, flatten, SignedNegative, AllSignedNegative]

/-- The response to the request that takes 2^32 from the counter is refused. -/
theorem beeStepRecv_correlates_old : ¬ ∀ (P : Platform) (H : Heap) (r : Request) (c : Int64)
    (str str' : SmartString) (counts : Counts) (sync : Int64) (sw : SeqWidth) (ps : List (Doc × Doc))
    (d : Doc) (w : World) (stream : Stream) (rest : Bytes), r.Proper → r.Small → 0 ≤ c → str.len = 0 →
    r.encode P.ndebug H str (fun _ => 0) (longToUint32 c) = .ok (str', counts) →
    requestSync str'.data = some sync → OkResponse sync.toUInt64.toNat sw ps d →
    w.obj.stream = some { stream with
      inbox := frame ((Doc.map sw (flatten ps)).encode ++ d.encode) ++ rest } →
    w.obj.value.len = 0 → w.net.Prompt .length → w.net.Prompt .other →
    ∃ v w', beeStepRecv P c.toUInt64 w = .ok (some v, w') ∧ w'.obj.stream.isSome := by
  intro h
  obtain ⟨str', hencode, -⟩ :=
    Request.encodes true [] (.null fun _ => 0) .ping trivial ping_small 0
  have hsync := requestSync_encodes (r := .ping) trivial ping_small 0 rfl hencode
  have hok : OkResponse 0 .fix (shortHeader 0) .nil :=
    okResponse_short (by decide) (by decide) trivial (by decide)
  let w := World.receiving (frame ((Doc.map .fix (flatten (shortHeader 0))).encode ++
    Doc.nil.encode)) []
  have hstream := receiving_stream (frame ((Doc.map .fix (flatten (shortHeader 0))).encode ++
    Doc.nil.encode)) []
  have hprompt (kind : ReadKind) : w.net.Prompt kind := receiving_prompt (List.forall_mem_nil _) kind
  have hlow : longToUint32 4294967296 = 0 := by decide
  obtain ⟨⟨v, b⟩, w', hrun, -⟩ := h (.blank true) [] .ping 4294967296 _ str' _ 0 .fix (shortHeader 0) .nil
    w _ [] trivial ping_small (by decide) rfl (hlow ▸ hencode) hsync hok hstream rfl (hprompt _)
    (hprompt _)
  obtain ⟨-, -, -, -, hwlp⟩ := beeStepRecv_frame (P := .blank true) hok
    (Int64.toUInt64 4294967296) hstream rfl (hprompt _) (hprompt _)
  have heq := (hwlp _ _ hrun v b rfl).1
  exact absurd heq (by decide)

end BeePhp
