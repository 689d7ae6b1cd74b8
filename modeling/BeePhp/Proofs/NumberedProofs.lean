import BeePhp.Numbered
import BeePhp.Proofs.SendProofs
import BeePhp.Proofs.TpRequestsProofs
import BeePhp.Proofs.TrafficProofs

/-!
# Proofs: the requests of a run

In every run, however reads and writes end, what is encoded are whole requests with consecutive syncs
(`requests_numbered`). So none of them is encoded twice, and none is left out.
-/

namespace BeePhp

open Codec Program

/-! ## Syncs -/

theorem RequestsFrom.append {n m k : Int64} {ps qs : List Bytes} (hp : RequestsFrom n ps m)
    (hq : RequestsFrom m qs k) : RequestsFrom n (ps ++ qs) k := by
  induction hp with
  | nil => exact hq
  | cons h _ ih => exact .cons h (ih hq)

theorem longToUint32_succ (n : Int64) : longToUint32 (n + 1) = longToUint32 n + 1 := by
  rw [longToUint32, Int64.toUInt64_add, UInt64.toUInt32_add]
  rfl

theorem RequestsFrom.sync {n n' : Int64} {ps : List Bytes} (h : RequestsFrom n ps n') {i : Nat} {p : Bytes}
    (hp : ps[i]? = some p) : IsRequest (longToUint32 n + UInt32.ofNat i) p := by
  induction h generalizing i with
  | nil => cases hp
  | cons hrequest _ ih =>
    cases i with
    | zero =>
      obtain rfl := Option.some.inj hp
      simpa using hrequest
    | succ i =>
      have hnext := ih hp
      rw [longToUint32_succ, UInt32.add_assoc, UInt32.add_comm 1] at hnext
      rwa [UInt32.ofNat_add]

theorem syncHeader_encode (type : Nat) (w : IntWidth) (sync : UInt32) : (syncHeader type w sync).encode =
    [0x82, 0x00] ++ ((IntWidth.forNat type).uintHead type ++ ([0x01] ++ w.uintHead sync.toNat)) := by
  simp [syncHeader, Doc.ofPairs, Doc.ofNat, Doc.encode, Doc.head, flatten, encodeAll, beexCode, beexSync,
    IntWidth.forNat, IntWidth.uintHead, SeqWidth.forNat, SeqWidth.mapHead]

theorem syncHeader_wf {type : Nat} {w : IntWidth} {sync : UInt32} (htype : type < 256 ^ 8)
    (hsync : sync.toNat < w.uintBound) : (syncHeader type w sync).WF := by
  refine Doc.ofPairs_wf (by simp) fun p hp => ?_
  obtain rfl | rfl : p = _ ∨ p = _ := by simpa using hp
  · exact ⟨Doc.ofNat_wf (by decide), Doc.ofNat_wf htype⟩
  · exact ⟨Doc.ofNat_wf (by decide), hsync⟩

theorem syncHeader_bounds {type : Nat} {w : IntWidth} {sync : UInt32} (h : (syncHeader type w sync).WF) :
    type < (IntWidth.forNat type).uintBound ∧ sync.toNat < w.uintBound := by
  have hitems := (allWF_iff _).mp ((Doc.wf_iff _).mp h).2
  exact ⟨hitems (.ofNat type) (by simp [syncHeader, Doc.ofPairs, Doc.items, flatten]),
    hitems (.uint w sync.toNat) (by simp [syncHeader, Doc.ofPairs, Doc.items, flatten])⟩

/-- A payload has one sync. -/
theorem IsRequest.sync_inj {sync sync' : UInt32} {payload : Bytes} (h : IsRequest sync payload)
    (h' : IsRequest sync' payload) : sync = sync' := by
  obtain ⟨type, w, body, ⟨hwf, -⟩, -, rfl⟩ := h
  obtain ⟨type', w', body', ⟨hwf', -⟩, -, heq⟩ := h'
  obtain ⟨htype, hsync⟩ := syncHeader_bounds hwf
  obtain ⟨htype', hsync'⟩ := syncHeader_bounds hwf'
  simp only [encodeAll, syncHeader_encode, List.append_assoc, List.append_cancel_left_eq] at heq
  obtain ⟨hhead, -⟩ := (mpDecodeUint_reads htype).unique (mpDecodeUint_reads htype') heq
  rw [hhead, List.append_cancel_left_eq, List.append_cancel_left_eq] at heq
  exact UInt32.toNat_inj.mp ((mpDecodeUint_reads hsync).unique (mpDecodeUint_reads hsync') heq).2

/-- Of 2^32 requests in a row no two are the same. -/
theorem RequestsFrom.distinct {n n' : Int64} {ps : List Bytes} (h : RequestsFrom n ps n') {i j : Nat} {p q : Bytes}
    (hp : ps[i]? = some p) (hq : ps[j]? = some q) (hlt : i < j) (hnear : j < i + 2 ^ 32) : p ≠ q := by
  rintro rfl
  have hsync := congrArg UInt32.toNat ((h.sync hp).sync_inj (h.sync hq))
  simp only [UInt32.toNat_add, UInt32.toNat_ofNat'] at hsync
  omega

/-! ## The requests of tp.h -/

theorem RequestDoc.isRequest {r : RequestDoc} (htype : r.type < 256 ^ 8) (hbody : r.body.WF) :
    IsRequest r.sync r.payload := by
  refine ⟨r.type, .w32, [r.body], ⟨syncHeader_wf htype r.sync.toNat_lt, hbody, trivial⟩, Nat.le_refl 1, ?_⟩
  rw [RequestDoc.payload, encodeAll, encodeAll, encodeAll, List.append_nil]
  rfl

theorem selectDoc_wf {space index : Nat} {key : List Doc} (hspace : space < 256 ^ 8) (hindex : index < 256 ^ 8)
    (hlength : key.length < 256 ^ 4) (hkey : ∀ d ∈ key, d.WF) : (selectDoc space index 0 4096 key).WF := by
  refine Doc.ofPairs_wf (by simp) fun p hp => ?_
  obtain rfl | rfl | rfl | rfl | rfl : p = _ ∨ p = _ ∨ p = _ ∨ p = _ ∨ p = _ := by simpa using hp
  · exact ⟨Doc.ofNat_wf (by decide), Doc.ofNat_wf hspace⟩
  · exact ⟨Doc.ofNat_wf (by decide), Doc.ofNat_wf hindex⟩
  · exact ⟨Doc.ofNat_wf (by decide), Doc.ofNat_wf (by decide)⟩
  · exact ⟨Doc.ofNat_wf (by decide), Doc.ofNat_wf (by decide)⟩
  · exact ⟨Doc.ofNat_wf (by decide), Doc.ofList_wf hlength hkey⟩

theorem authDoc_isRequest {body : Doc} (h : body.WF) (sync : UInt32) : IsRequest sync (authDoc body sync).payload :=
  RequestDoc.isRequest (r := authDoc body sync) (show tpAuthType < 256 ^ 8 by decide) h

theorem listDoc_isRequest {space : Nat} (hspace : space < 256 ^ 8) (sync : UInt32) :
    IsRequest sync (listDoc space sync).payload :=
  RequestDoc.isRequest (r := listDoc space sync) (show tpSelectType < 256 ^ 8 by decide)
    (selectDoc_wf hspace (by decide) (by decide) (by simp))

theorem spaceDoc_wf {name : Bytes} (hname : name.length < 2 ^ 31) (sync : UInt32) : (spaceDoc name sync).body.WF := by
  refine selectDoc_wf (by decide) (by decide) (by simp) fun d hd => ?_
  obtain rfl : d = _ := by simpa using hd
  exact Doc.ofStr_wf (by omega)

theorem toSize_lt (i : Int) : toSize i < 2 ^ 64 := by
  unfold toSize
  omega

theorem indexDoc_wf {spaceNo : Nat} {name : Bytes} (hspace : spaceNo < 2 ^ 64) (hname : name.length < 2 ^ 31)
    (sync : UInt32) : (indexDoc spaceNo name sync).body.WF := by
  refine selectDoc_wf (by decide) (by decide) (by simp) fun d hd => ?_
  obtain rfl | rfl : d = _ ∨ d = _ := by simpa using hd
  · exact Doc.ofNat_wf (by omega)
  · exact Doc.ofStr_wf (by omega)

/-! ## Data requests -/

theorem Request.isRequest {H : Heap} {r : Request} (hsmall : r.Small) (sync : UInt32) :
    IsRequest sync (r.payload H sync) := by
  have hwf : AllWF (r.docs H sync) := Request.docs_wf hsmall
  rcases r.docs_cases H sync with rfl | ⟨hdocs, -⟩
  · exact ⟨beexPing.toNat, .forNat sync.toNat, [], hwf, Nat.zero_le 1, rfl⟩
  · rw [hdocs] at hwf
    refine ⟨r.type.toNat, .forNat sync.toNat, [bodyDoc H r.fields], hwf, Nat.le_refl 1, ?_⟩
    rw [Request.payload, hdocs]
    rfl

/-! ## The invariant -/

/-- The invariant of a run whose counter began at `n` when this was recorded. -/
structure World.Numbering (before : List Sent) (n : Int64) (w : World) : Prop where
  healthy : w.obj.tps.Healthy
  login : w.obj.login.length < 2 ^ 31
  numbered : w.Numbered before n []

/-- The same when requests have been encoded and are not handed to the stream yet. -/
structure World.Encoded (before : List Sent) (n : Int64) (payloads : List Bytes) (w : World) : Prop where
  healthy : w.obj.tps.Healthy
  login : w.obj.login.length < 2 ^ 31
  own : w.own.length < 2 ^ 32 → w.own = (payloads.map frame).flatten
  numbered : w.Numbered before n payloads

/-- More requests are encoded. -/
theorem World.Numbered.more {before : List Sent} {n : Int64} {w w' : World} {payloads : List Bytes}
    (h : w.Numbered before n []) (hsent : w'.sent = w.sent)
    (hrequests : RequestsFrom w.syncCounter payloads w'.syncCounter) : w'.Numbered before n payloads := by
  obtain ⟨sent, hbefore, hnumbered⟩ := h
  refine ⟨sent, hsent.trans hbefore, fun hshort => ?_⟩
  obtain ⟨batches, hbatches, hsofar⟩ := hnumbered hshort
  rw [List.append_nil] at hsofar
  exact ⟨batches, hbatches, hsofar.append hrequests⟩

/-- They are recorded. -/
theorem World.Numbered.record {before : List Sent} {n : Int64} {w w' : World} {payloads : List Bytes} {s : Sent}
    (h : w.Numbered before n payloads) (hsent : w'.sent = w.sent ++ [s])
    (hcounter : w'.syncCounter = w.syncCounter) (hencodes : s.own.length < 2 ^ 32 → s.Encodes payloads) : w'.Numbered before n [] := by
  obtain ⟨sent, hbefore, hnumbered⟩ := h
  refine ⟨sent ++ [s], by rw [hsent, hbefore, List.append_assoc], fun hshort => ?_⟩
  obtain ⟨batches, hbatches, hrequests⟩ := hnumbered fun s hs => hshort s (List.mem_append_left _ hs)
  have hlast := hencodes (hshort s (List.mem_append_right _ List.mem_cons_self))
  refine ⟨batches ++ [payloads], List.rel_append hbatches (.cons hlast .nil), ?_⟩
  rw [hcounter, List.flatten_append, List.flatten_singleton, List.append_nil]
  exact hrequests

section Invariant

variable {before : List Sent} {n : Int64}

theorem World.Numbering.reads : IgnoresReads (World.Numbering before n) where
  value := fun _ _ h => ⟨h.healthy, h.login, h.numbered⟩
  stream := fun _ _ _ h => ⟨h.healthy, h.login, h.numbered⟩
  greeting := fun _ _ h => ⟨h.healthy, h.login, h.numbered⟩

theorem World.Numbering.ignores : Ignores (World.Numbering before n) where
  exceptions := fun _ _ h => ⟨h.healthy, h.login, h.numbered⟩
  schema := fun _ _ h => ⟨h.healthy, h.login, h.numbered⟩
  records := fun _ _ _ _ h => ⟨h.healthy, h.login, h.numbered⟩

/-- What was encoded is recorded when it is handed to the stream, whether it gets through or not. -/
theorem beeStreamSend_numbers {request : Bool} {payloads : List Bytes} {w : World} (h : w.Encoded before n payloads)
    (hone : request = true → payloads.length = 1) :
    Wlp (beeStreamSend request) (fun _ => World.Numbering before n) w := by
  have hnumbered (w' : World) (hsent : w'.sent = w.sent ++ [w.record request])
      (hcounter : w'.syncCounter = w.syncCounter) : w'.Numbered before n [] :=
    h.numbered.record hsent hcounter fun hshort => ⟨h.own hshort, hone⟩
  refine (beeStreamSend_spec request w).mono ?_
  rintro ok w' ⟨stream, -, ⟨-, -, rfl⟩ | ⟨-, k, -, rfl⟩⟩
  · exact ⟨h.healthy, h.login, hnumbered _ rfl rfl⟩
  · exact ⟨h.healthy, h.login, hnumbered _ rfl rfl⟩

/-- Requests are composed by tp.h. -/
theorem composeTp_encoded {α : Type} {body : M α} {w : World} (hquiet : IsQuiet body) (h : w.Numbering before n)
    (hcomposed : Wlp (composeTp body) (fun _ w' => ∃ docs : List RequestDoc, w'.obj.value.data = docFrames docs ∧
      RequestsFrom w.syncCounter (docs.map RequestDoc.payload) w'.syncCounter ∧ w'.obj.tps.Healthy) w) :
    Wlp (composeTp body) (fun _ w' => ∃ payloads, w'.Encoded before n payloads) w := by
  refine ((composeTp_spec hquiet w).and hcomposed).mono ?_
  rintro a w' ⟨⟨hsame, -, hown⟩, docs, hdata, hrequests, hhealthy⟩
  refine ⟨docs.map RequestDoc.payload, hhealthy, by rw [hsame.login]; exact h.login, fun _ => ?_, ?_⟩
  · rw [hown, hdata, docFrames, List.map_map]
    rfl
  · exact h.numbered.more hsame.sent hrequests

/-! ## Connecting and looking up -/

variable {P : Platform}

theorem beeAuthenticate_numbers : Keeps (World.Numbering before n) (beeAuthenticate P) := by
  have hrecord (ok : Bool) : Keeps (World.Numbering before n) (recordExchange ok) :=
    fun _ h => .modify ⟨h.healthy, h.login, h.numbered⟩
  refine .bind (fun w h => .modify (World.Numbering.ignores.schema w _ h)) fun _ w h => ?_
  refine .bind ((composeTp_encoded authRequests_quiet h ?_).mono fun syncs w₁ hencoded => ?_)
  · refine (authRequests_composed h.login h.healthy).mono ?_
    rintro _ w₁ ⟨rfl, ⟨body, hbody, -, hdata⟩, hcounter, hhealthy⟩
    refine ⟨_, hdata, ?_, hhealthy⟩
    rw [hcounter]
    exact .cons (authDoc_isRequest hbody _)
      (.cons (listDoc_isRequest (by decide) _) (.cons (listDoc_isRequest (by decide) _) .nil))
  · obtain ⟨payloads, hencoded⟩ := hencoded
    refine .bind ((beeStreamSend_numbers hencoded fun h => absurd h Bool.false_ne_true).mono fun ok w₂ h₂ => ?_)
    refine Keeps.ite (.bind ?_ fun r => .bind (hrecord _) fun _ => .pure _) ?_ w₂ h₂
    · exact authLoop_keeps World.Numbering.ignores (readPacket_keeps World.Numbering.reads)
    · exact .bind (hrecord _) fun _ => .pure _

/-- A lookup whose request says what it means. -/
theorem lookupName_numbers {find : Schema → Int} {request : M Unit}
    {add : Schema → Option Bytes → Nat → Except Fault (Schema × Bool)} {parseError missing : String}
    {name : Bytes} (hquiet : IsQuiet request) (hcomposed : ∀ w : World, w.obj.tps.Healthy → Wlp (composeTp request)
      (fun _ w' => ∃ doc : RequestDoc, doc.type = tpSelectType ∧ doc.body.WF ∧
        doc.sync = longToUint32 w.syncCounter ∧ w'.obj.value.data = docFrames [doc] ∧
        w'.syncCounter = w.syncCounter + 1 ∧ w'.obj.tps.Healthy) w) :
    Keeps (World.Numbering before n) (lookupName find request add parseError missing name) := by
  refine .bind getObj_keeps fun obj => .ite (.pure _) fun w h => ?_
  refine .bind ((composeTp_encoded hquiet h ?_).mono fun _ w₁ hencoded => ?_)
  · refine (hcomposed w h.healthy).mono ?_
    rintro - w₁ ⟨doc, htype, hbody, hsync, hdata, hcounter, hhealthy⟩
    refine ⟨[doc], hdata, ?_, hhealthy⟩
    rw [hcounter]
    exact .cons (hsync ▸ RequestDoc.isRequest (by rw [htype]; decide) hbody) .nil
  · obtain ⟨payloads, hencoded⟩ := hencoded
    refine .bind ((beeStreamSend_numbers hencoded fun h => absurd h Bool.false_ne_true).mono fun ok w₂ h₂ => ?_)
    refine Keeps.ite ?_ (.pure _) w₂ h₂
    exact lookupReceive_keeps World.Numbering.ignores (readPacket_keeps World.Numbering.reads)
      (lookupParse_keeps World.Numbering.ignores)

theorem connects_numbers : Connects P (World.Numbering before n) where
  throwExc := fun _ _ => throwExc_keeps World.Numbering.ignores.toIgnoresOutput
  renew := by
    refine fun w h => .modify ?_
    split
    · exact ⟨h.healthy, h.login, h.numbered⟩
    · exact h
  id := fun _ _ h => ⟨h.healthy, h.login, h.numbered⟩
  close := fun _ h => .modify ⟨h.healthy, h.login, h.numbered⟩
  opened := by
    intro w h
    refine (beexllStreamOpen_spec w).mono ?_
    rintro err w' ⟨opens, -, ⟨rfl, greeting, -, rfl⟩ | ⟨herr, rfl⟩⟩
    · exact readGreeting_keeps World.Numbering.reads _ ⟨h.healthy, h.login, h.numbered⟩
    · cases err with
      | none => exact absurd rfl herr
      | some text => exact ⟨h.healthy, h.login, h.numbered⟩
  found := by
    intro w h
    refine (beexllStreamFpid2_spec w).mono ?_
    rintro found w' ⟨finds, -, ⟨-, stream, -, rfl⟩ | ⟨-, rfl⟩⟩
    · exact ⟨h.healthy, h.login, h.numbered⟩
    · exact ⟨h.healthy, h.login, h.numbered⟩
  eof := phpStreamEof_keeps fun _ _ h => ⟨h.healthy, h.login, h.numbered⟩
  exchange := beeAuthenticate_numbers

/-! ## The methods -/

theorem execute_numbers (H : Heap) {r : Request} (hproper : r.Proper) (hsmall : r.Small) :
    Keeps (World.Numbering before n) (execute P H r) := by
  intro w h
  refine .bind (.bind (.get (.bind (.set (.pure (.bind (getObj_wlp (.bind (.lift ?_)))))))))
  intro value' hencode
  obtain ⟨str, hstr, hdata⟩ := r.encodes P.ndebug H w.obj.value hproper hsmall (longToUint32 w.syncCounter)
  obtain rfl : value' = (str, fun _ => 0) := Except.ok.inj (hencode.symm.trans hstr)
  generalize hpayload : r.payload H (longToUint32 w.syncCounter) = payload at hdata
  have hown : str.data.drop w.obj.value.len = 0xce :: toBE 4 (toUint32 payload.length) ++ payload := by
    rw [hdata, List.append_assoc, ← SmartString.data_length, List.drop_left' rfl]
  have hrequest : IsRequest (longToUint32 w.syncCounter) payload := hpayload ▸ Request.isRequest hsmall _
  refine .bind (.modify (.bind (.modify (.bind ?_))))
  have hencoded : World.Encoded before n [payload] { w with
      obj := { w.obj with value := str }
      start := w.obj.value.len
      own := str.data.drop w.obj.value.len
      syncCounter := w.syncCounter + 1 } := by
    refine ⟨h.healthy, h.login, fun hshort => ?_, h.numbered.more rfl (.cons hrequest .nil)⟩
    dsimp only at hshort ⊢
    rw [hown] at hshort ⊢
    simp only [List.length_append, List.length_cons, toBE_length] at hshort
    rw [toUint32_eq (by omega)]
    simp [frame]
  refine (beeStreamSend_numbers hencoded fun _ => rfl).mono fun ok w₂ h₂ => ?_
  refine Keeps.ite ?_ (.pure _) w₂ h₂
  exact receive_keeps World.Numbering.ignores (beeStepRecvWith_keeps World.Numbering.reads
    World.Numbering.ignores.toIgnoresOutput fun _ h => .modify ⟨h.healthy, h.login, h.numbered⟩)

theorem kept_numbers : Kept P (fun _ => True) (World.Numbering before n) where
  net := fun _ _ _ h => ⟨h.healthy, h.login, h.numbered⟩
  throwExc := (@connects_numbers before n P).throwExc
  onDemand := connects_numbers.links.onDemand
  connect := connects_numbers.connect
  reconnect := connects_numbers.links.reconnect
  authenticate := connects_numbers.links.authenticate fun _ login _ h =>
    ⟨h.healthy, Nat.lt_of_le_of_lt (cString_length_le _) login.small, h.numbered⟩
  flushSchema := .bind (fun w h => .modify (World.Numbering.ignores.schema w _ h)) fun _ => .pure _
  spaceno := by
    refine spaceno_keeps (@connects_numbers before n P).throwExc fun s =>
      lookupName_numbers spaceRequest_quiet fun w hw => ?_
    refine (spaceRequest_composed s.small hw).mono ?_
    rintro - w' ⟨hdata, hrest⟩
    exact ⟨_, rfl, spaceDoc_wf s.small _, rfl, hdata, hrest⟩
  indexno := by
    intro spaceNo
    refine indexno_keeps (@connects_numbers before n P).throwExc fun s =>
      lookupName_numbers indexRequest_quiet fun w hw => ?_
    refine (indexRequest_composed s.small spaceNo hw).mono ?_
    rintro - w' ⟨hdata, hrest⟩
    exact ⟨_, rfl, indexDoc_wf (toSize_lt spaceNo) s.small _, rfl, hdata, hrest⟩
  execute := fun H _ hproper hsmall => execute_numbers H hproper hsmall

end Invariant

/-! ## Runs -/

theorem init_numbering {c : Creation} (hgarbage : ∀ n, c.garbage n ≠ 2 ^ 64 - 1) {w : World}
    (h : c.init = some w) : w.Numbering [] c.syncCounter := by
  obtain ⟨host, port, login, passwd, id, isPersistent, hlogin, rfl⟩ := Creation.init_spec h
  exact ⟨hgarbage, hlogin, [], rfl, fun _ => ⟨[], .nil, .nil⟩⟩

/-- In every run, however its reads and writes end, the requests that are encoded have consecutive syncs: none is
left out, and of 2^32 in a row no two are the same. Every data request is encoded alone. The variable that
`tp_ensure` does not set is never the largest number, and what is encoded is shorter than 2^32 bytes. -/
theorem requests_numbered {P : Platform} {c : Creation} {steps : List Step} {w : World} (h : Runs P c steps w)
    (hgarbage : ∀ n, c.garbage n ≠ 2 ^ 64 - 1) (hshort : ∀ s ∈ w.sent, s.own.length < 2 ^ 32) :
    ∃ batches : List (List Bytes), List.Forall₂ Sent.Encodes w.sent batches ∧
      RequestsFrom c.syncCounter batches.flatten w.syncCounter ∧
      ∀ i j p q, batches.flatten[i]? = some p → batches.flatten[j]? = some q → i < j → j < i + 2 ^ 32 → p ≠ q := by
  obtain ⟨w₀, hinit, hrun⟩ := h
  have hnumbering := kept_numbers.runAll (fun _ _ => trivial) w₀ (init_numbering hgarbage hinit) _ _ hrun
  obtain ⟨sent, rfl, hnumbered⟩ := hnumbering.numbered
  obtain ⟨batches, hbatches, hrequests⟩ := hnumbered hshort
  rw [List.append_nil] at hrequests
  exact ⟨batches, hbatches, hrequests, fun i j p q hp hq => hrequests.distinct hp hq⟩

/-- An authentication that fails, and a ping. -/
theorem requests_numbered_user : ∃ w, Runs (.blank false) .user
    [⟨.opening, [], .ping⟩, ⟨.calm, [], .ping⟩] w ∧ (w.sent.length = 2 ∧ w.syncCounter = 4) ∧
    ∃ batches : List (List Bytes), List.Forall₂ Sent.Encodes w.sent batches ∧
      RequestsFrom Creation.user.syncCounter batches.flatten w.syncCounter ∧
      ∀ i j p q, batches.flatten[i]? = some p → batches.flatten[j]? = some q → i < j → j < i + 2 ^ 32 → p ≠ q := by
  have hruns : runsTo (.blank false) .user [⟨.opening, [], .ping⟩, ⟨.calm, [], .ping⟩]
      (fun w => (w.sent.length = 2 ∧ w.syncCounter = 4) ∧ ∀ s ∈ w.sent, s.own.length < 2 ^ 32) = true := by
    decide +kernel
  obtain ⟨w, hrun, htest⟩ := exists_of_runsTo hruns
  obtain ⟨hcounts, hshort⟩ := of_decide_eq_true htest
  exact ⟨w, hrun, hcounts, requests_numbered hrun (fun _ => by simp [Creation.user, Creation.guest]) hshort⟩

end BeePhp
