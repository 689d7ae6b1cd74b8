import BeePhp.Proofs.AuthProofs
import BeePhp.Proofs.AuthRequestProofs
import BeePhp.TpRequests

/-!
# Proofs: what the calls of tp.h compose

The writer composes the requests that the calls are for (`runCalls_composes`), whatever the order of the calls
is. What bee.c composes are the requests that it means.
-/

namespace BeePhp

open Codec Program

/-! ## One call -/

theorem requestHead_length (type : Nat) : (requestHead type).length =
    mpSizeofMap 2 + mpSizeofUint tpCode + mpSizeofUint type + mpSizeofUint tpSync := by
  simp only [requestHead, List.length_append, mpEncodeMap_length, mpEncodeUint_length]

theorem requestFrames_cons (r : TpRequest) (rs : List TpRequest) :
    requestFrames (r :: rs) = requestFrames rs ++ frame r.payload := by
  simp [requestFrames]

theorem TpState.Composed.wrote {s : TpState} {rs : List TpRequest} (h : s.Composed rs) :
    s.Wrote (requestFrames rs) := ⟨h.memory, h.p⟩

section Calls

variable {ndebug : Bool} {s : TpState} {r : TpRequest} {rs : List TpRequest}

/-- A request is begun. -/
theorem tpRequest_composed {type sz : Nat} {body : Bytes}
    (hsize : 5 + (mpSizeofMap 2 + mpSizeofUint tpCode + mpSizeofUint type + mpSizeofUint tpSync) + 5 +
      body.length = sz) (hwrote : s.Wrote (requestFrames rs)) (h : s.tp.Healthy) :
    Wlp (tpRequest ndebug type sz body) (fun _ s' => s'.Composed (⟨type, 0, body⟩ :: rs) ∧ s'.tp.Healthy) s := by
  refine .bind ((tpEnsure_spec h).mono ?_)
  rintro ok s₁ ⟨rfl, hhealthy, -, -, hkeeps⟩
  have hwrote₁ := hkeeps _ hwrote
  obtain ⟨more, hmore⟩ := hwrote₁.memory
  have hp := hwrote₁.p
  refine .ite (fun _ => .bind (.get (.bind (.set (.bind (tpWrite_spec.mono ?_)))))) fun hno => absurd rfl hno
  rintro - ⟨tp, str⟩ ⟨rfl, hwrite⟩
  refine (@tpAdd_spec _ _ (requestFrames rs).length _ (by rw [← hp])).mono ?_
  rintro - ⟨tp, str'⟩ ⟨rfl, hadd⟩
  simp only [hp] at hwrite hadd
  change s₁.str.write _ (TpRequest.payload ⟨type, 0, body⟩) = .ok str at hwrite
  obtain ⟨skipped, more', hskipped, hc⟩ := write_behind hmore hwrite
  have hpayload : 5 + (TpRequest.payload ⟨type, 0, body⟩).length = sz := by
    simp only [TpRequest.payload, List.length_append, requestHead_length, List.length_cons, toBE_length]
    omega
  rw [← hpayload, frameLength] at hadd
  have hover := write_over hc (by rw [hskipped, List.length_cons, toBE_length]) hadd
  refine ⟨⟨⟨more', ?_⟩, ?_, ?_, ?_⟩, hhealthy⟩
  · rw [requestFrames_cons]
    simp only [frame, List.append_assoc] at hover ⊢
    exact hover
  · rw [requestFrames_cons]
    simp only [hp, List.length_append, frame_length]
    omega
  · simp only [hp, List.head?_cons, Option.map_some, List.tail_cons]
  · simp only [hp, List.head?_cons, Option.map_some, List.tail_cons]
    rfl

/-- A value is added to the latest request. -/
theorem tpAppend_composed {sz : Nat} {bs : Bytes} (hsize : bs.length = sz) (hc : s.Composed rs)
    (h : s.tp.Healthy) : Wlp (tpAppend ndebug sz bs) (fun _ s' => ∃ rs', addToLatest bs rs = some rs' ∧
      s'.Composed rs' ∧ s'.tp.Healthy) s := by
  refine .bind ((tpEnsure_spec h).mono ?_)
  rintro ok s₁ ⟨rfl, hhealthy, hstart, hsync, hkeeps⟩
  have hwrote := hkeeps _ hc.wrote
  obtain ⟨more, hmore⟩ := hwrote.memory
  have hp := hwrote.p
  refine .ite (fun _ => .bind (.get (.bind (tpWrite_spec.mono ?_)))) fun hno => absurd rfl hno
  rintro - ⟨tp, str⟩ ⟨rfl, hwrite⟩
  cases rs with
  | nil =>
    have hnone : s₁.tp.size = none := hstart.trans hc.size
    rw [tpAdd]
    refine .bind (.get ?_)
    simp only [hnone]
    exact .throw
  | cons r rs =>
    have hsize₁ : s₁.tp.size = some (requestFrames rs).length := hstart.trans hc.size
    refine (@tpAdd_spec _ _ _ ⟨s₁.tp, str⟩ hsize₁).mono ?_
    rintro - ⟨tp, str'⟩ ⟨rfl, hadd⟩
    simp only [hp] at hwrite hadd
    obtain ⟨skipped, more', hskipped, hc'⟩ := @write_behind _ _ _ _ _ 0 hmore hwrite
    obtain rfl := List.length_eq_zero_iff.mp hskipped
    have hpayload : TpRequest.payload { r with body := r.body ++ bs } = r.payload ++ bs := by
      simp only [TpRequest.payload, List.append_assoc]
    have hlen : (requestFrames (r :: rs)).length + sz =
        (requestFrames rs).length + (5 + (TpRequest.payload { r with body := r.body ++ bs }).length) := by
      rw [requestFrames_cons, hpayload]
      simp only [List.length_append, frame_length]
      omega
    rw [hlen, frameLength] at hadd
    have hsplit : str.c = requestFrames rs ++ ((0xce :: toBE 4 r.payload.length) ++ (r.payload ++ bs ++ more')) := by
      rw [hc', requestFrames_cons]
      simp only [frame, List.append_assoc, List.nil_append]
    have hover := write_over hsplit (by simp only [List.length_cons, toBE_length]) hadd
    refine ⟨_, rfl, ⟨⟨more', ?_⟩, ?_, hsize₁, hsync.trans hc.sync⟩, hhealthy⟩
    · rw [hover, requestFrames_cons]
      simp only [frame, hpayload, List.append_assoc]
    · rw [requestFrames_cons]
      simp only [hp, hlen]
      simp only [List.length_append, frame_length]

/-- The sync of the latest request is written. -/
theorem tpReqid_composed {id : UInt32} (hc : s.Composed (r :: rs)) (h : s.tp.Healthy) :
    Wlp (tpReqid ndebug id) (fun _ s' => s'.Composed ({ r with sync := id } :: rs) ∧ s'.tp.Healthy) s := by
  have hpos : s.tp.sync = some ((requestFrames rs).length + 5 + (requestHead r.type).length) := hc.sync
  refine .bind (.get ?_)
  simp only [hpos]
  refine tpWrite_spec.mono ?_
  rintro - ⟨tp, str⟩ ⟨rfl, hwrite⟩
  obtain ⟨more, hmore⟩ := hc.memory
  have hlength : (TpRequest.payload { r with sync := id }).length = r.payload.length := by
    simp only [TpRequest.payload, List.length_append, List.length_cons, toBE_length]
  have hsplit : s.str.c = (requestFrames rs ++ (0xce :: toBE 4 r.payload.length) ++ requestHead r.type) ++
      ((0xce :: toBE 4 r.sync.toNat) ++ (r.body ++ more)) := by
    rw [hmore, requestFrames_cons]
    simp only [frame, TpRequest.payload, List.append_assoc]
  have hlen : (requestFrames rs ++ (0xce :: toBE 4 r.payload.length) ++ requestHead r.type).length =
      (requestFrames rs).length + 5 + (requestHead r.type).length := by
    simp only [List.length_append, List.length_cons, toBE_length]
  rw [← hlen] at hwrite
  have hover := write_over hsplit (by simp only [List.length_cons, toBE_length]) hwrite
  refine ⟨⟨⟨more, ?_⟩, ?_, hc.size, hc.sync⟩, h⟩
  · rw [hover, requestFrames_cons, frame, hlength]
    simp only [TpRequest.payload, List.append_assoc]
  · have hp := hc.p
    simp only [requestFrames_cons, List.length_append, frame_length, hlength] at hp ⊢
    exact hp

end Calls

/-! ## Any calls -/

section Runs

variable {P : Platform} {s : TpState} {rs : List TpRequest}

/-- A call that begins a request does so whatever `size` and `sync` are. -/
theorem TpCall.Begins.run_composed {c : TpCall} (hbegins : c.Begins) (hsmall : c.Small)
    (hwrote : s.Wrote (requestFrames rs)) (h : s.tp.Healthy) :
    Wlp (c.run P) (fun _ s' => ∃ rs', c.compose P rs = some rs' ∧ s'.Composed rs' ∧ s'.tp.Healthy) s := by
  cases c with
  | select space index offset limit =>
    refine (@tpRequest_composed _ _ _ _ _ (selectBody space index offset limit) ?_ hwrote h).mono
      fun _ s' h' => ⟨_, rfl, h'⟩
    simp only [selectBody, List.length_append, mpEncodeMap_length, mpEncodeUint_length]
    omega
  | auth salt user pass =>
    refine .bind (.lift fun sz hsz => ?_)
    obtain ⟨rfl, -⟩ := signedInt_eq_ok hsz
    refine (@tpRequest_composed _ _ _ _ _ (authBody P.scramble salt user pass) ?_ hwrote h).mono
      fun _ s' h' => ⟨_, rfl, h'⟩
    rw [authBody_length (P.scramble_length salt) hsmall]
    omega
  | key partCount => exact hbegins.elim
  | encodeUint num => exact hbegins.elim
  | encodeStr str => exact hbegins.elim
  | reqid id => exact hbegins.elim

/-- What a call does to the requests. -/
theorem TpCall.run_composed {c : TpCall} (hsmall : c.Small) (hc : s.Composed rs) (h : s.tp.Healthy) :
    Wlp (c.run P) (fun _ s' => ∃ rs', c.compose P rs = some rs' ∧ s'.Composed rs' ∧ s'.tp.Healthy) s := by
  cases c with
  | select space index offset limit => exact TpCall.Begins.run_composed trivial hsmall hc.wrote h
  | auth salt user pass => exact TpCall.Begins.run_composed trivial hsmall hc.wrote h
  | key partCount => exact tpAppend_composed (mpEncodeArray_length partCount) hc h
  | encodeUint num => exact tpAppend_composed (mpEncodeUint_length num) hc h
  | encodeStr str =>
    refine .bind (.lift fun sz hsz => ?_)
    obtain ⟨rfl, -⟩ := signedInt_eq_ok hsz
    exact tpAppend_composed (by rw [mpEncodeStr_length hsmall, Int.toNat_natCast]) hc h
  | reqid id =>
    cases rs with
    | nil =>
      have hnone : s.tp.sync = none := hc.sync
      rw [TpCall.run, tpReqid]
      refine .bind (.get ?_)
      simp only [hnone]
      exact .throw
    | cons r rs => exact (tpReqid_composed hc h).mono fun _ s' h' => ⟨_, rfl, h'⟩

theorem composeCalls_cons {c : TpCall} {cs : List TpCall} {rs₁ : List TpRequest}
    (h : c.compose P rs = some rs₁) : composeCalls P (c :: cs) rs = composeCalls P cs rs₁ := by
  rw [composeCalls, List.foldlM_cons, h]
  rfl

theorem runCalls_composed {cs : List TpCall} (hsmall : ∀ c ∈ cs, c.Small) (hc : s.Composed rs)
    (h : s.tp.Healthy) : Wlp (runCalls P cs) (fun _ s' => ∃ rs', composeCalls P cs rs = some rs' ∧
      s'.Composed rs' ∧ s'.tp.Healthy) s := by
  induction cs generalizing s rs with
  | nil => exact .pure ⟨rs, rfl, hc, h⟩
  | cons c cs ih =>
    obtain ⟨hsmall, hsmalls⟩ := List.forall_mem_cons.mp hsmall
    refine .bind ((TpCall.run_composed hsmall hc h).mono ?_)
    rintro - s₁ ⟨rs₁, hcompose, hc₁, h₁⟩
    rw [composeCalls_cons hcompose]
    exact ih hsmalls hc₁ h₁

theorem runCalls_begins {c : TpCall} {cs : List TpCall} (hbegins : c.Begins) (hsmall : ∀ c' ∈ c :: cs, c'.Small)
    (hwrote : s.Wrote (requestFrames rs)) (h : s.tp.Healthy) :
    Wlp (runCalls P (c :: cs)) (fun _ s' => ∃ rs', composeCalls P (c :: cs) rs = some rs' ∧
      s'.Composed rs' ∧ s'.tp.Healthy) s := by
  obtain ⟨hsmall, hsmalls⟩ := List.forall_mem_cons.mp hsmall
  refine .bind ((hbegins.run_composed hsmall hwrote h).mono ?_)
  rintro - s₁ ⟨rs₁, hcompose, hc₁, h₁⟩
  rw [composeCalls_cons hcompose]
  exact runCalls_composed hsmalls hc₁ h₁

/-- Calls that fit the buffer return. -/
theorem runCalls_fits {cs : List TpCall} {used : Nat} (h : s.Roomy used) (hsmall : ∀ c ∈ cs, c.Small)
    (hgo : CanGoOn cs s) (hints : ∀ c ∈ cs, ∀ n, c.size = some n → (n : Int) ≤ intMax)
    (hfits : used + askedFor cs ≤ s.str.a) : ∃ s', runCalls P cs s = .ok ((), s') := by
  induction cs generalizing s used with
  | nil => exact ⟨s, rfl⟩
  | cons c cs ih =>
    obtain ⟨hc, hcs⟩ := List.forall_mem_cons.mp hsmall
    obtain ⟨hint, hints⟩ := List.forall_mem_cons.mp hints
    have hhead := hgo.head
    obtain ⟨s₁, used₁, hrun, hnext, hfits₁⟩ : ∃ s₁ used₁, c.run P s = .ok ((), s₁) ∧ s.Next used₁ s₁ ∧
        used₁ + askedFor cs ≤ s.str.a := by
      cases hsize : c.size with
      | none =>
        have hasked : askedFor (c :: cs) = askedFor cs := by simp only [askedFor, hsize]
        cases c with
        | reqid sync =>
          obtain ⟨s₁, hrun, hnext⟩ := tpReqid_fits P.ndebug sync h (hhead.resolve_left id)
          exact ⟨s₁, used, hrun, hnext, hasked ▸ hfits⟩
        | _ => cases hsize
      | some n =>
        rw [askedFor_some hsize (hint n hsize), ← Nat.add_assoc] at hfits
        obtain ⟨s₁, hrun, hnext⟩ := c.run_fits P h hc hhead hsize (hint n hsize) (by omega)
        exact ⟨s₁, used + n, hrun, hnext, hfits⟩
    obtain ⟨s', hrest⟩ := ih hnext.roomy hcs (.inl hnext.begun) hints (hnext.a.symm ▸ hfits₁)
    exact ⟨s', (run_bind hrun).trans hrest⟩

/-- Calls on a writer that has been set up on a buffer, of which the first begins a request: if they fit they
return, and when they return the buffer holds the frames of the requests that they compose. -/
theorem runCalls_composes {c : TpCall} {cs : List TpCall} (hbegins : c.Begins) (hsmall : ∀ c' ∈ c :: cs, c'.Small)
    {tp : Tp} (h : tp.Healthy) {str : SmartString} (ha : str.a < 2 ^ 64) :
    (askedFor (c :: cs) ≤ str.a → (∀ c' ∈ c :: cs, ∀ n, c'.size = some n → (n : Int) ≤ intMax) →
      ∃ s', runCalls P (c :: cs) (.updated tp str) = .ok ((), s')) ∧
    ∀ s', runCalls P (c :: cs) (.updated tp str) = .ok ((), s') →
      ∃ rs, composeCalls P (c :: cs) [] = some rs ∧ s'.str.c.take s'.tp.p = requestFrames rs := by
  refine ⟨fun hfits hints => ?_, fun s' hrun => ?_⟩
  · exact runCalls_fits (updated_roomy tp ha) hsmall (.inr ⟨c, cs, rfl, hbegins⟩) hints (Nat.zero_add _ ▸ hfits)
  · have hwrote : (TpState.updated tp str).Wrote (requestFrames []) := ⟨⟨str.c, rfl⟩, rfl⟩
    obtain ⟨rs, hcompose, hcomposed, -⟩ := runCalls_begins hbegins hsmall hwrote h _ _ hrun
    obtain ⟨more, hmore⟩ := hcomposed.memory
    refine ⟨rs, hcompose, ?_⟩
    rw [hmore, hcomposed.p, List.take_left' rfl]

end Runs

/-- The lookup of the space `users` in the buffer of a new connection. -/
theorem runCalls_composes_users : ∃ s' rs,
    runCalls (.blank true) (spaceCalls (ascii "users") 5) (.updated ⟨0, 0, none, none, fun _ => 7⟩ greetingBuffer) =
      .ok ((), s') ∧
    composeCalls (.blank true) (spaceCalls (ascii "users") 5) [] = some rs ∧
      s'.str.c.take s'.tp.p = requestFrames rs := by
  have hbegins : (TpCall.select spaceSpace indexSpaceName 0 4096).Begins := trivial
  have hsmall : ∀ c ∈ spaceCalls (ascii "users") 5, c.Small := by
    simp [spaceCalls, TpCall.Small, ascii]
  have hhealthy : Tp.Healthy ⟨0, 0, none, none, fun _ => 7⟩ := fun _ => (by decide : (7 : Nat) ≠ 2 ^ 64 - 1)
  have ha : greetingBuffer.a < 2 ^ 64 := by decide +kernel
  have hints : ∀ c ∈ spaceCalls (ascii "users") 5, ∀ n, c.size = some n → (n : Int) ≤ intMax := by
    decide +kernel
  obtain ⟨hfits, hcomposes⟩ := runCalls_composes (P := .blank true) hbegins hsmall hhealthy ha
  obtain ⟨s', hrun⟩ := hfits (by decide +kernel) hints
  obtain ⟨rs, hrs⟩ := hcomposes s' hrun
  exact ⟨s', rs, hrun, hrs⟩

/-! ## Documents -/

theorem RequestDoc.payload_eq (r : RequestDoc) : TpRequest.payload ⟨r.type, r.sync, r.body.encode⟩ = r.payload := by
  simp [TpRequest.payload, RequestDoc.payload, RequestDoc.header, requestHead, Doc.ofPairs, Doc.encode, flatten,
    encodeAll, mpEncodeMap_eq, mpEncodeUint_eq]
  rfl

theorem selectDoc_encode (space index offset limit : Nat) (key : List Doc) :
    (selectDoc space index offset limit key).encode =
      selectBody space index offset limit ++ mpEncodeArray key.length ++ encodeAll key := by
  simp [selectDoc, selectBody, Doc.ofPairs, Doc.ofList, Doc.encode, flatten, encodeAll, mpEncodeMap_eq,
    mpEncodeUint_eq, mpEncodeArray_eq]

theorem mpEncodeStr_doc {s : Bytes} (h : s.length < 2 ^ 31) :
    mpEncodeStr s (toUint32 s.length) = (Doc.ofStr s).encode := by
  rw [toUint32_eq (by omega), mpEncodeStr_eq]

/-! ## The requests of bee.c -/

section Composing

variable {P : Platform} {w : World}

/-- The state in which requests are composed. -/
def World.composing (w : World) : World := { w with obj := { w.obj with tps := beeTpUpdate w.obj.tps w.obj.value } }

/-- The buffer holds what the calls compose. -/
theorem composeTp_composed {α : Type} {body : M α} {a : α} {n : Int64} {c : TpCall} {cs : List TpCall}
    {rs : List TpRequest} (hbegins : c.Begins) (hsmall : ∀ c' ∈ c :: cs, c'.Small)
    (hcompose : composeCalls P (c :: cs) [] = some rs) (h : w.obj.tps.Healthy)
    (hbody : body w.composing = (runCalls P (c :: cs) w.composing.writer).bind fun r =>
      .ok (a, w.composing.withTp r.2 n)) :
    Wlp (composeTp body) (fun a' w' => a' = a ∧ w'.obj.value.data = requestFrames rs ∧ w'.syncCounter = n ∧
      w'.obj.tps.Healthy) w := by
  have hwrote : w.composing.writer.Wrote (requestFrames []) := ⟨⟨w.obj.value.c, rfl⟩, rfl⟩
  refine .bind (getObj_wlp (.bind (.modify (.bind fun a' w' hrun => ?_))))
  change body w.composing = .ok (a', w') at hrun
  rw [hbody] at hrun
  cases hcalls : runCalls P (c :: cs) w.composing.writer with
  | error e =>
    rw [hcalls] at hrun
    cases hrun
  | ok r =>
    rw [hcalls] at hrun
    obtain ⟨rfl, rfl⟩ := Prod.mk.inj (Except.ok.inj hrun)
    obtain ⟨rs', hcompose', hcomposed, hhealthy⟩ := runCalls_begins hbegins hsmall hwrote h _ _ hcalls
    obtain rfl := Option.some.inj (hcompose'.symm.trans hcompose)
    refine .bind (getObj_wlp (.bind (.lift fun value hvalue => ?_)))
    refine .bind (.modify (.bind (.modify (.pure ⟨rfl, ?_, rfl, hhealthy⟩))))
    obtain ⟨hc, hlen⟩ := setLen_eq hvalue
    obtain ⟨more, hmore⟩ := hcomposed.memory
    have hmore' : (w.composing.withTp r.2 n).obj.value.c = _ := hmore
    have hp : tpUsed (w.composing.withTp r.2 n).obj.tps = _ := hcomposed.p
    change value.c.take value.len = _
    rw [hc, hlen, hmore', hp, List.take_left' rfl]

theorem spaceDoc_payload {name : Bytes} (hname : name.length < 2 ^ 31) (sync : UInt32) :
    TpRequest.payload ⟨tpSelectType, sync, selectBody spaceSpace indexSpaceName 0 4096 ++ mpEncodeArray 1 ++
      mpEncodeStr name (toUint32 name.length)⟩ = (spaceDoc name sync).payload := by
  rw [← RequestDoc.payload_eq, spaceDoc, selectDoc_encode, mpEncodeStr_doc hname]
  simp [encodeAll]

theorem indexDoc_payload {name : Bytes} (hname : name.length < 2 ^ 31) (spaceNo : Nat) (sync : UInt32) :
    TpRequest.payload ⟨tpSelectType, sync, selectBody spaceIndex indexIndexName 0 4096 ++ mpEncodeArray 2 ++
      mpEncodeUint spaceNo ++ mpEncodeStr name (toUint32 name.length)⟩ = (indexDoc spaceNo name sync).payload := by
  rw [← RequestDoc.payload_eq, indexDoc, selectDoc_encode, mpEncodeStr_doc hname, mpEncodeUint_eq]
  simp [encodeAll]

/-- The request of a lookup of a space. -/
theorem spaceRequest_composed {name : Bytes} (hname : name.length < 2 ^ 31) (h : w.obj.tps.Healthy) :
    Wlp (composeTp (spaceRequest P name)) (fun _ w' =>
      w'.obj.value.data = docFrames [spaceDoc name (longToUint32 w.syncCounter)] ∧
        w'.syncCounter = w.syncCounter + 1 ∧ w'.obj.tps.Healthy) w := by
  have hsmall : ∀ c ∈ spaceCalls name (longToUint32 w.syncCounter), c.Small := by
    simpa [spaceCalls, TpCall.Small] using hname
  have hbegins : (TpCall.select spaceSpace indexSpaceName 0 4096).Begins := trivial
  refine (composeTp_composed hbegins hsmall rfl h (spaceRequest_eq name w.composing)).mono ?_
  rintro - w' ⟨-, hdata, hrest⟩
  refine ⟨?_, hrest⟩
  rw [hdata, docFrames, List.map_singleton, ← spaceDoc_payload hname]
  rfl

/-- The request of a lookup of an index. -/
theorem indexRequest_composed {name : Bytes} (hname : name.length < 2 ^ 31) (spaceNo : Int) (h : w.obj.tps.Healthy) :
    Wlp (composeTp (indexRequest P spaceNo name)) (fun _ w' =>
      w'.obj.value.data = docFrames [indexDoc (toSize spaceNo) name (longToUint32 w.syncCounter)] ∧
        w'.syncCounter = w.syncCounter + 1 ∧ w'.obj.tps.Healthy) w := by
  have hsmall : ∀ c ∈ indexCalls (toSize spaceNo) name (longToUint32 w.syncCounter), c.Small := by
    simpa [indexCalls, TpCall.Small] using hname
  have hbegins : (TpCall.select spaceIndex indexIndexName 0 4096).Begins := trivial
  refine (composeTp_composed hbegins hsmall rfl h (indexRequest_eq spaceNo name w.composing)).mono ?_
  rintro - w' ⟨-, hdata, hrest⟩
  refine ⟨?_, hrest⟩
  rw [hdata, docFrames, List.map_singleton, ← indexDoc_payload hname]
  rfl

/-- The requests of an authentication. -/
theorem authRequests_composed (hlogin : w.obj.login.length < 2 ^ 31) (h : w.obj.tps.Healthy) :
    Wlp (composeTp (authRequests P)) (fun syncs w' => syncs = .from w.syncCounter ∧ (∃ body : Doc, body.WF ∧
      AuthBody w.obj.login (w.obj.passwd.map (P.scramble w.obj.salt)) body ∧
        w'.obj.value.data = docFrames [authDoc body syncs.auth, listDoc spaceSpace syncs.space,
          listDoc spaceIndex syncs.index]) ∧
      w'.syncCounter = w.syncCounter + 1 + 1 + 1 ∧ w'.obj.tps.Healthy) w := by
  obtain ⟨body, hwf, hencode, hshape⟩ := authBody_says w.obj.passwd (P.scramble_length w.obj.salt) hlogin
  have hsmall : ∀ c ∈ w.composing.batchCalls, c.Small := by
    simpa [World.batchCalls, authCalls, TpCall.Small, World.composing] using hlogin
  have hbegins : (TpCall.auth w.obj.salt w.obj.login w.obj.passwd).Begins := trivial
  refine (composeTp_composed hbegins hsmall rfl h (authRequests_eq w.composing)).mono ?_
  rintro - w' ⟨rfl, hdata, hrest⟩
  refine ⟨rfl, ⟨body, hwf, hshape, ?_⟩, hrest⟩
  rw [hdata]
  simp only [docFrames, List.map_cons, List.map_nil, authDoc, ← RequestDoc.payload_eq, hencode]
  rfl

end Composing

end BeePhp
