import BeePhp.Failure
import BeePhp.Proofs.ConnectProofs
import BeePhp.Proofs.SendProofs
import BeePhp.Proofs.TrafficProofs

/-!
# Proofs: failures and exceptions

Every part of a method throws no exception when it succeeds and one when it fails, but for the states that
`Op.Silent` names (`Op.run_reports`).
-/

namespace BeePhp

open Codec (Bytes)
open Program

variable {P : Platform}

/-! ## What throws nothing -/

/-- No run of the program throws an exception. -/
def Mute {α : Type} (x : M α) : Prop := ∀ w : World, Keeps (fun w' => w'.exceptions = w.exceptions) x

theorem line_mute (w : World) : IgnoresLine fun w' : World => w'.exceptions = w.exceptions :=
  ⟨⟨fun _ _ _ h => h, fun _ _ h => h, fun _ _ _ h => h⟩, fun _ _ _ h => h, fun _ _ h => h,
    fun _ _ _ h => h⟩

theorem composeTp_mute {α : Type} {body : M α} (h : Mute body) : Mute (composeTp body) :=
  fun w => composeTp_keeps (line_mute w).toIgnoresWriter (h w)

theorem authRequests_mute : Mute (composeTp (authRequests P)) :=
  composeTp_mute fun w => authRequests_keeps (line_mute w).toIgnoresWriter

theorem readPacket_mute : Mute readPacket := fun w => readPacket_keeps (line_mute w).reads

theorem readLength_mute {kind : ReadKind} : Mute (readLength kind) :=
  fun w => beeStreamRead_keeps (line_mute w).reads

theorem readBody_mute {size : Nat} : Mute (readBody size) := fun w =>
  .bind (fun _ h => .modify h) fun _ => .bind getObj_keeps fun _ => readValue_keeps (line_mute w).reads

theorem recordExchange_mute {ok : Bool} : Mute (recordExchange ok) :=
  fun w => recordExchange_keeps (line_mute w)

theorem connectLoop_mute {n : Nat} {err : Option String} : Mute (connectLoop n err) := by
  intro w
  induction n generalizing err with
  | zero => exact .pure _
  | succ n ih =>
    have hrenew : Keeps (fun w' => w'.exceptions = w.exceptions) renewPersistentId := by
      refine fun w' h => .modify ?_
      split
      · exact h
      · exact h
    have hopen : Keeps (fun w' => w'.exceptions = w.exceptions) beexllStreamOpen := by
      intro w' h err' w'' hrun
      obtain ⟨opens, -, ⟨-, greeting, -, rfl⟩ | ⟨-, rfl⟩⟩ := beexllStreamOpen_spec w' err' w'' hrun
      · exact h
      · exact h
    refine .bind hrenew fun _ => .bind hopen fun err' => ?_
    cases err' with
    | some err' => exact ih
    | none => exact .bind (readGreeting_keeps (line_mute w).reads) fun _ => .ite ih (.pure _)

theorem useResponse_mute {sync : UInt32} : Mute (useResponse sync) := fun _ _ h => .modify h

theorem beeStreamClose_mute : Mute beeStreamClose := fun _ _ h => .modify h

theorem findPersistent_mute : Mute findPersistent := by
  refine fun w => .bind (fun w' h => .modify h) fun _ w' h => (beexllStreamFpid2_spec w').mono ?_
  rintro found w'' ⟨finds, -, ⟨-, stream, -, rfl⟩ | ⟨-, rfl⟩⟩
  · exact h
  · exact h

theorem phpStreamEof_mute : Mute phpStreamEof := fun _ => phpStreamEof_keeps fun _ _ h => h

/-! ## What has been thrown -/

/-- The program fails without an exception exactly in the states `silent`, and throws none when it
succeeds. -/
def Throws {α : Type} (x : M α) (fails : α → Prop) (silent : World → Prop) : Prop :=
  ∀ w, Reports World.exceptions x fails (silent w) w

/-- Since the state `w` an exception has been thrown, or none, as there is a failure or not. -/
structure World.Told (w : World) (failed : Prop) (w' : World) : Prop where
  thrown : failed → w.exceptions.length < w'.exceptions.length
  quiet : ¬ failed → w'.exceptions = w.exceptions

theorem World.Told.reports {α : Type} {x : M α} {fails : α → Prop} {w : World}
    (h : Wlp x (fun a w' => w.Told (fails a) w') w) : Reports World.exceptions x fails False w :=
  .loud (h.mono fun _ _ h => ⟨h.thrown, h.quiet⟩)

theorem World.Told.of_eq {w w' : World} {failed : Prop} (h : w'.exceptions = w.exceptions)
    (hfailed : ¬ failed) : w.Told failed w' :=
  ⟨fun hf => absurd hf hfailed, fun _ => h⟩

theorem World.Told.congr {w w' : World} {failed failed' : Prop} (h : w.Told failed w')
    (hiff : failed' ↔ failed) : w.Told failed' w' := by
  rw [hiff]
  exact h

theorem World.Told.mute {w w₁ w' : World} {failed : Prop} (h : w.Told failed w₁)
    (heq : w'.exceptions = w₁.exceptions) : w.Told failed w' :=
  ⟨fun hf => heq ▸ h.thrown hf, fun hnot => heq.trans (h.quiet hnot)⟩

theorem World.Told.trans {w w₁ w' : World} {failed failed' : Prop} (h : w.Told failed w₁)
    (hfailed : ¬ failed) (h' : w₁.Told failed' w') : w.Told failed' w' := by
  have heq := h.quiet hfailed
  exact ⟨fun hf => heq ▸ h'.thrown hf, fun hnot => (h'.quiet hnot).trans heq⟩

/-- An exception is thrown, whether or not there was a failure before. -/
theorem throwExc_told {format : String} {args : List MsgArg} {w w₁ : World} {failed failed' : Prop}
    (h : w.Told failed w₁) (hfailed : failed') :
    Wlp (throwExc format args) (fun _ w' => w.Told failed' w') w₁ := by
  refine .modify ⟨fun _ => ?_, fun hnot => absurd hfailed hnot⟩
  by_cases hf : failed
  · have hlt := h.thrown hf
    simp only [List.length_append]
    omega
  · simp [h.quiet hf]

/-- An exception, and then a failure. -/
theorem throws_then {α : Type} {x : M α} {fails : α → Prop} {format : String} {args : List MsgArg}
    {w : World} (hx : ∀ w', Reports World.exceptions x fails True w') :
    Reports World.exceptions (throwExc format args >>= fun _ => x) fails False w := by
  refine World.Told.reports (.bind ?_)
  refine (throwExc_told (.of_eq rfl not_false) trivial).mono fun _ w₁ htold => ?_
  intro a w' hrun
  obtain ⟨a', w'', hrun', hfails, hlog⟩ := (hx w₁).silent trivial
  obtain ⟨rfl, rfl⟩ := Prod.mk.inj (Except.ok.inj (hrun'.symm.trans hrun))
  exact (htold.mute hlog).congr (iff_of_true hfails trivial)

/-! ## Sending -/

theorem beeStreamSend_throws {request : Bool} :
    Throws (beeStreamSend request) (· = false) World.WriteFails := by
  intro w
  constructor
  · exact fun ok w' hrun _ => beeStreamSend_keeps (line_mute w) w rfl ok w' hrun
  · rintro hnot ok w' hrun rfl
    obtain ⟨stream, hstream, ⟨hok, -⟩ | ⟨-, n, hhead, -⟩⟩ := beeStreamSend_spec request w _ w' hrun
    · cases hok
    · exact absurd ⟨by rw [hstream]; rfl, n, hhead⟩ hnot
  · rintro ⟨hstream, n, hhead⟩
    obtain ⟨stream, hstream⟩ := Option.isSome_iff_exists.mp hstream
    obtain ⟨w', hrun⟩ := beeStreamSend_failed request hstream hhead
    exact ⟨false, w', hrun, rfl, beeStreamSend_keeps (line_mute w) w rfl false w' hrun⟩

/-! ## Authentication -/

theorem throwIf_told {p : Prop} [Decidable p] {format : String} {args : List MsgArg} {w w₁ : World}
    {failed : Prop} (h : w.Told failed w₁) :
    Wlp (throwIf p format args) (fun _ w' => w.Told (failed ∨ p) w') w₁ :=
  .ite (fun hp => throwExc_told h (.inr hp)) fun hp => .pure (h.congr (or_iff_left hp))

theorem throwQueryError_told {resp : BeexResponse} {w w₁ : World} {failed : Prop}
    (h : w.Told failed w₁) :
    Wlp (throwQueryError resp) (fun _ w' => w.Told (failed ∨ resp.error.isSome) w') w₁ := by
  unfold throwQueryError
  cases resp.error with
  | none => exact .pure (h.congr (by simp))
  | some error => exact throwExc_told h (.inr rfl)

theorem addToSchema_told {add : Schema → Option Bytes → Nat → Except Fault (Schema × Bool)}
    {resp : BeexResponse} {text : String} {status : Bool} {w w₁ : World} (h : w.Told (status = false) w₁) :
    Wlp (addToSchema add resp text status) (fun status' w' => w.Told (status' = false) w') w₁ := by
  refine .bind (getObj_wlp (.bind (.lift fun r _ => .bind (.modify ?_))))
  let w₂ : World := { w₁ with obj := { w₁.obj with schema := r.1 } }
  have h' : w.Told (status = false) w₂ := h.mute rfl
  refine .ite (fun _ => ?_) fun _ => .pure h'
  exact .bind ((throwExc_told h' rfl).mono fun _ w' htold => .pure htold)

theorem authResponse_told {syncs : AuthSyncs} {w : World} :
    Wlp (authResponse syncs) (fun r w' => w.Told (r.1 = false) w') w := by
  refine .bind (getObj_wlp (.bind (.lift fun r _ => ?_)))
  obtain ⟨resp, cursor⟩ := r
  refine .bind ((throwIf_told (.of_eq rfl not_false)).mono fun _ w₁ h₁ => ?_)
  refine .bind ((throwQueryError_told h₁).mono fun _ w₂ h₂ => ?_)
  obtain ⟨status, hstatus⟩ : ∃ status, (cursor.isSome && resp.error.isNone) = status := ⟨_, rfl⟩
  have hiff : status = false ↔ (False ∨ cursor.isNone = true) ∨ resp.error.isSome = true := by
    rw [← hstatus]
    cases cursor <;> cases resp.error <;> simp
  have h₃ := h₂.congr hiff
  simp only [hstatus]
  have hrows {add : Schema → Option Bytes → Nat → Except Fault (Schema × Bool)} {text : String}
      {sync : UInt32} {granted : Bool} : Wlp (do
        useResponse sync
        let status ← addToSchema add resp text status
        return (status, granted)) (fun r w' => w.Told (r.1 = false) w') w₂ := by
    refine .bind ((useResponse_mute w₂ w₂ rfl).mono fun _ w₃ hmute => .bind ?_)
    exact (addToSchema_told (h₃.mute hmute)).mono fun _ w' htold => .pure htold
  refine .ite (fun _ => hrows) fun _ => .ite (fun _ => hrows) fun _ => .ite (fun _ => ?_) fun _ => .pure h₃
  refine .bind ((throwQueryError_told h₃).mono fun _ w' htold => .pure (htold.congr ?_))
  rw [hiff]
  tauto

/-- The loop goes on reading after a failure, but does not forget it. -/
theorem authLoop_told {syncs : AuthSyncs} {n : Nat} {status granted : Bool} {w w₁ : World}
    (h : w.Told (status = false) w₁) :
    Wlp (authLoop syncs n status granted) (fun r w' => w.Told (r.1 = false) w') w₁ := by
  induction n generalizing status granted w₁ with
  | zero => exact .pure h
  | succ n ih =>
    refine .bind (.modify (.bind ((readPacket_mute _ _ rfl).mono fun shortage w₂ hmute => ?_)))
    have h₂ := h.mute hmute
    refine .ite (fun _ => .bind ?_) fun _ => .ite (fun hstatus => ?_) fun hstatus => ?_
    · exact (throwExc_told h₂ rfl).mono fun _ w' htold => .pure htold
    · refine .bind (authResponse_told.mono fun r w₃ htold => ih ?_)
      exact h₂.trans (by simp [hstatus]) htold
    · exact ih (h₂.congr (by simp [hstatus]))

theorem beeAuthenticate_throws : Throws (beeAuthenticate P) (· = false) (AuthUnsent P) := by
  intro w
  refine .step rfl rfl (.after (authRequests_mute _ _ rfl) fun syncs w₁ _ => ?_)
  refine .congr (.bind_loud (beeStreamSend_throws w₁) (fun ok w₂ _ hok => ?_) fun ok w₂ hok => ?_)
    (true_and _).to_iff
  · obtain rfl := Bool.not_eq_false _ ▸ hok
    refine World.Told.reports (.bind ((authLoop_told (.of_eq rfl (by simp))).mono fun r w₃ htold => ?_))
    exact .bind ((recordExchange_mute _ _ rfl).mono fun _ w₄ hmute => .pure (htold.mute hmute))
  · subst hok
    exact .step rfl rfl (.stop rfl)

/-! ## Connecting -/

theorem connectRetry_throws : Throws (connectRetry P) (· = false) (RetryUnsent P) := by
  intro w
  refine .step rfl rfl (.after (connectLoop_mute _ _ rfl) fun r w₁ _ => ?_)
  refine .ite (fun hnone => ?_) fun hsome => .step rfl rfl (.ite (fun hpasswd => ?_) fun hpasswd => ?_)
  · exact .congr (throws_then fun _ => .stop rfl) (by simp [hnone])
  · exact (beeAuthenticate_throws w₁).congr (by simp [hsome, hpasswd])
  · exact (Reports.pure nofun).congr (by simp [hpasswd])

theorem beeConnect_throws : Throws (beeConnect P) (· = false) (ConnectUnsent P) := by
  intro w
  have hfind : Reports World.exceptions (findPersistent >>= fun found =>
      if found then return true else connectRetry P) (· = false)
      (After findPersistent (· = false) (fun _ => RetryUnsent P) w) w := by
    refine .after (findPersistent_mute _ _ rfl) fun found w₁ _ => .ite (fun hfound => ?_) fun hfound => ?_
    · exact (Reports.pure nofun).congr (by simp [hfound])
    · exact (connectRetry_throws w₁).congr (by simp [hfound])
  unfold ConnectUnsent
  refine .step rfl rfl (.ite (fun hpersistent => ?_) fun hpersistent => ?_)
  · rw [if_pos hpersistent]
    exact hfind
  · rw [if_neg hpersistent]
    exact connectRetry_throws w

theorem beeReconnect_throws : Throws (beeReconnect P) (· = false) (ReconnectUnsent P) := fun _ =>
  .after (beeStreamClose_mute _ _ rfl) fun _ w₁ _ => (beeConnect_throws w₁).congr (true_and _).to_iff

theorem connectClosed_throws : Throws (connectClosed P) (· = false)
    fun w => w.obj.stream = none ∧ ConnectUnsent P w := by
  refine fun w => .step rfl rfl (.ite (fun hnone => ?_) fun hsome => ?_)
  · exact (beeConnect_throws w).congr (and_iff_right (Option.isNone_iff_eq_none.mp hnone))
  · refine (Reports.pure nofun).congr (iff_false_intro fun h => hsome ?_)
    exact Option.isNone_iff_eq_none.mpr h.1

theorem connectOnDemand_throws : Throws (connectOnDemand P) (· = false) (OnDemandUnsent P) := by
  intro w
  refine .bind (connectClosed_throws w) (fun _ => (Bool.not_eq_false _).symm.to_iff) (fun ok w₁ _ hok => ?_) ?_
  · rw [hok]
    refine .step rfl rfl (.ite (fun hopen => ?_) fun hclosed => ?_)
    · refine .congr (.after (phpStreamEof_mute _ _ rfl) fun eof w₂ _ => ?_) (and_iff_right hopen)
      refine .ite (fun heof => ?_) fun heof => ?_
      · exact (beeReconnect_throws w₂).congr (and_iff_right heof)
      · exact (Reports.pure nofun).congr (by simp [heof])
    · exact (Reports.pure nofun).congr (by simp [hclosed])
  · rintro ok w₁ rfl
    exact .stop rfl

/-! ## Names -/

theorem lookupParse_told {find : Schema → Int}
    {add : Schema → Option Bytes → Nat → Except Fault (Schema × Bool)} {parseError missing : String}
    {name : Bytes} {w : World} :
    Wlp (lookupParse find add parseError missing name) (fun no w' => w.Told (no = -1) w') w := by
  have htold : w.Told (true = false) w := .of_eq rfl nofun
  refine .bind (getObj_wlp (.bind (.lift fun r _ => .ite (fun _ => ?_) fun _ => .ite (fun herror => ?_) ?_)))
  · exact .bind ((throwExc_told htold rfl).mono fun _ w' h => .pure h)
  · exact .bind ((throwQueryError_told htold).mono fun _ w' h => .pure (h.congr (by simp [herror])))
  · refine fun _ => .bind (.get (.bind ((useResponse_mute w w rfl).mono fun _ w₁ hmute => .bind ?_)))
    refine (addToSchema_told (htold.mute hmute)).mono fun added w₂ h₂ => .ite (fun hadded => ?_) fun hnot => ?_
    · refine .bind (getObj_wlp (.bind ((throwIf_told h₂).mono fun _ w₃ h₃ => .pure (h₃.congr ?_))))
      simp [hadded]
    · exact .pure (h₂.congr (by simp [hnot]))

theorem lookupReceive_told {find : Schema → Int}
    {add : Schema → Option Bytes → Nat → Except Fault (Schema × Bool)} {parseError missing : String}
    {name : Bytes} {w : World} : Wlp (lookupReceive (lookupParse find add parseError missing name))
      (fun no w' => w.Told (no = -1) w') w := by
  refine .bind (.bind (.modify (.modify (.bind ?_))))
  refine (readPacket_mute _ _ rfl).mono fun shortage w₁ hmute => ?_
  have htold : w.Told (true = false) w₁ := .of_eq hmute nofun
  match shortage with
  | none => exact lookupParse_told.mono fun no w' h => htold.trans nofun h
  | some .length => exact .bind ((throwExc_told htold rfl).mono fun _ w' h => .pure h)
  | some (.body _) => exact .bind ((throwExc_told htold rfl).mono fun _ w' h => .pure h)

theorem lookupName_throws (find : Schema → Int) {request : M Unit}
    {add : Schema → Option Bytes → Nat → Except Fault (Schema × Bool)} {parseError missing : String}
    {name : Bytes} (hmute : Mute request) :
    Throws (lookupName find request add parseError missing name) (· = -1) (LookupUnsent find request) := by
  refine fun w => .step rfl rfl (.ite (fun hfound => ?_) fun hmissing => ?_)
  · exact .congr (.pure hfound) (by simp [LookupUnsent, hfound])
  · refine .congr (.after (composeTp_mute hmute _ _ rfl) fun _ w₁ _ => ?_) (and_iff_right (not_not.mp hmissing))
    refine .congr (.bind_loud (beeStreamSend_throws w₁) (fun ok w₂ _ hok => ?_) ?_) (true_and _).to_iff
    · obtain rfl := Bool.not_eq_false _ ▸ hok
      exact World.Told.reports lookupReceive_told
    · rintro ok w₂ rfl
      exact .stop rfl

theorem getSpacenoByName_throws {space : Zval} :
    Throws (getSpacenoByName P space) (· = -1) (SpaceSilent P space) := by
  have hrequest {name : Bytes} : Mute (spaceRequest P name) :=
    fun w => spaceRequest_keeps (line_mute w).toIgnoresWriter
  intro w
  cases space with
  | long n => exact .value
  | str s => exact lookupName_throws (beeSchemaGetSidByString · s.val) hrequest w
  | _ => exact throws_then fun _ => .stop rfl

theorem getIndexnoByName_throws {spaceNo : Int} {index : Zval} :
    Throws (getIndexnoByName P spaceNo index) (· = -1) (IndexSilent P spaceNo index) := by
  have hrequest {name : Bytes} : Mute (indexRequest P spaceNo name) :=
    fun w => indexRequest_keeps (line_mute w).toIgnoresWriter
  intro w
  cases index with
  | null => exact .pure nofun
  | long n => exact .value
  | str s => exact lookupName_throws (beeSchemaGetIidByString · (UInt32.ofNat (toSize spaceNo)) s.val) hrequest w
  | _ => exact throws_then fun _ => .stop rfl

theorem convertIterator_throws {iterator : Option Zval} {all : Bool} :
    Throws (convertIterator iterator all) (· = -1) fun _ => IteratorSilent iterator := by
  have hall : (if all then iteratorAll else iteratorEq) ≠ -1 := by
    cases all
    · decide
    · decide
  have hids : ∀ p ∈ iteratorNames, p.2 ≠ -1 := by decide
  intro w
  match iterator with
  | none => exact .pure hall
  | some .null => exact .pure hall
  | some (.long n) => exact .value
  | some (.str i) =>
    simp only [convertIterator]
    split
    case h_1 name id hfind => exact .pure (hids _ (List.mem_of_find?_eq_some hfind))
    case h_2 hfind => exact throws_then fun _ => .stop rfl
  | some (.bool _) => exact .throw
  | some (.double _) => exact .throw
  | some (.arr _) => exact .throw
  | some .other => exact .throw

/-! ## Responses -/

theorem stepError_fails (w : World) : Reports World.exceptions stepError (· = none) True w :=
  .step (resetValue_run w) rfl (.stop rfl)

theorem stepErrorCon_fails (w : World) : Reports World.exceptions stepErrorCon (· = none) True w :=
  .step (show beeStreamClose w = .ok ((), _) from rfl) rfl (stepError_fails _)

theorem stepQueryError_throws {code body : PVal} {w : World} :
    Reports World.exceptions (stepQueryError P code body) (· = none) False w := by
  unfold stepQueryError
  split
  · split
    · exact throws_then stepError_fails
    · exact .ite (fun _ => throws_then stepError_fails) fun _ => .throw
    · exact .throw
    · exact .throw
  · exact .throw

theorem stepFinish_throws {sync : UInt64} {header : List (Key × PVal)} {next : UInt64} {body : PVal}
    {w : World} : Reports World.exceptions (stepFinish P sync header next body) (· = none) False w := by
  refine .ite (fun _ => throws_then stepErrorCon_fails) fun _ => ?_
  cases indexFind header beexCode with
  | none => exact throws_then stepErrorCon_fails
  | some code =>
    refine .ite (fun _ => .step (resetValue_run w) rfl (.pure nofun)) fun _ => stepQueryError_throws

/-- `FAILURE` of `php_mp_unpack` is silent when it has thrown no exception. -/
theorem unpackFailed_throws {h : Halt} {w : World} :
    Reports World.exceptions (unpackFailed h stepError) (· = none) (h = .failure none) w := by
  match h with
  | .fault f => exact .congr .throw (by simp)
  | .failure none => exact (stepError_fails w).congr (by simp)
  | .failure (some text) => exact .congr (throws_then stepError_fails) (by simp)

/-- The validator, and behind it a computation. -/
theorem checked_throws {bs : Bytes} {size : Nat} {fail next : M (Option (PVal × PVal))} {w : World}
    (silent : Prop) (hfail : Reports World.exceptions fail (· = none) False w)
    (hnext : Reports World.exceptions next (· = none) silent w) :
    Reports World.exceptions (StateT.lift (checkStatus bs size) >>= fun status =>
      if status ≠ 0 then fail else next) (· = none) (checkStatus bs size = .ok 0 ∧ silent) w := by
  have hlift : Reports World.exceptions (StateT.lift (checkStatus bs size) >>= fun status =>
      if status ≠ 0 then fail else next) (· = none)
      (∃ status, checkStatus bs size = .ok status ∧ (status = 0 ∧ silent)) w := by
    refine .lift fun status _ => .ite (fun hne => ?_) fun hzero => ?_
    · exact hfail.congr (by simp [hne])
    · exact hnext.congr (and_iff_right (not_not.mp hzero))
  refine hlift.congr ⟨fun ⟨hcheck, h⟩ => ⟨0, hcheck, rfl, h⟩, ?_⟩
  rintro ⟨_, hcheck, rfl, h⟩
  exact ⟨hcheck, h⟩

theorem stepDecode_throws {sync : UInt64} {size : Nat} {w : World} :
    Reports World.exceptions (stepDecode checkStatus P sync size) (· = none)
      (GivenUp P w.obj.value.c size) w := by
  refine .step (getObj_run w) rfl (checked_throws _ (throws_then stepError_fails) ?_)
  unfold UnpacksMute
  cases hheader : phpMpUnpack P.ndebug w.obj.value.c with
  | error h => exact unpackFailed_throws.congr (by simp)
  | ok r =>
    obtain ⟨header, rest⟩ := r
    match header with
    | .arr entries next =>
      refine .congr (checked_throws (UnpacksMute P rest) (throws_then stepErrorCon_fails) ?_) ?_
      · unfold UnpacksMute
        cases phpMpUnpack P.ndebug rest with
        | error h => exact unpackFailed_throws.congr (by simp)
        | ok r => exact stepFinish_throws.congr (by simp)
      · simp [UnpacksMute]
    | .null | .bool _ | .long _ | .double _ | .str _ | .bin _ => exact (stepError_fails w).congr (by simp)

theorem beeStepRecv_unreceived {sync : UInt64} {w : World}
    (hnone : ¬ ∃ payload w', Receives checkStatus w payload w') :
    Reports World.exceptions (beeStepRecv P sync) (· = none) False w := by
  refine .after_loud (readLength_mute _ _ rfl) fun r w₁ hlength => ?_
  refine .ite (fun _ => throws_then stepErrorCon_fails) fun hfive => .lift_loud fun status hcheck => ?_
  refine .ite (fun _ => throws_then stepErrorCon_fails) fun hzero => .lift_loud fun size hsize => ?_
  refine .after_loud (readBody_mute _ _ rfl) fun n w₂ hbody => ?_
  refine .ite (fun _ => throws_then stepError_fails) fun hn => ?_
  -- a complete payload would have been received
  obtain ⟨stream, hstream⟩ := readLength_stream hlength
  obtain ⟨ls, w', hdel, hread⟩ := readLength_delivers .length hstream
  obtain ⟨rfl, rfl⟩ := Prod.mk.inj (Except.ok.inj (hlength.symm.trans hread))
  obtain ⟨rest, net, -, -, rfl⟩ := hdel.after
  have hls : ls.length = 5 := not_not.mp hfive
  rw [hls] at hread hcheck hsize
  rw [not_not.mp hzero] at hcheck
  rw [not_not.mp hn] at hbody
  obtain ⟨payload, hreceives⟩ := receives_of_read hread (by simp [hls]) hcheck hsize hbody
  exact absurd ⟨payload, w₂, hreceives⟩ hnone

theorem beeStepRecv_throws {sync : UInt64} {w : World} (hlen : w.obj.value.len = 0) :
    Reports World.exceptions (beeStepRecv P sync) (· = none) (RecvSilent P w) w := by
  by_cases hpayload : ∃ payload w', Receives checkStatus w payload w'
  · obtain ⟨payload, w', h⟩ := hpayload
    obtain ⟨w'', hc, -, hexceptions, hrun⟩ := h.decodes hlen P sync
    have hdecode := @stepDecode_throws P sync payload.length w''
    rw [hc] at hdecode
    have hsilent : RecvSilent P w ↔
        GivenUp P (payload ++ w.obj.value.behind payload.length) payload.length := by
      refine ⟨fun ⟨payload', w₁, h', hgiven⟩ => ?_, fun hgiven => ⟨payload, w', h, hgiven⟩⟩
      obtain rfl := h.unique h'
      exact hgiven
    rw [hsilent]
    exact .of_run hrun hexceptions hdecode
  · refine (beeStepRecv_unreceived hpayload).congr (iff_false_intro ?_)
    rintro ⟨payload, w', h, -⟩
    exact hpayload ⟨payload, w', h⟩

theorem receive_throws {sync : Int64} {w : World} (hlen : w.obj.value.len = 0) :
    Reports World.exceptions (receive P sync) (· = none)
      (After awaitResponse (fun _ => True) (fun _ => RecvSilent P) w) w := by
  refine .after (.modify rfl) fun _ w₁ hrun => ?_
  obtain ⟨-, rfl⟩ := Prod.mk.inj (Except.ok.inj hrun)
  refine .congr (.bind_loud (beeStepRecv_throws hlen) (fun answer w₂ _ hsome => ?_) ?_) (true_and _).to_iff
  · obtain ⟨values, rfl⟩ := Option.ne_none_iff_exists'.mp hsome
    exact .step rfl rfl (.pure nofun)
  · rintro answer w₂ rfl
    exact .stop rfl

/-! ## Requests -/

section Requests

variable {H : Heap} {r : Request}

theorem prepare_mute : Mute (prepare P H r) := by
  refine fun w => .bind (fun w' h => .bind (.get (.bind (.set (.pure h))))) fun _ => ?_
  refine .bind getObj_keeps fun _ => .bind (.lift _) fun _ => ?_
  exact .bind (fun _ h => .modify h) fun _ => .bind (fun _ h => .modify h) fun _ => .pure _

theorem execute_eq : execute P H r = prepare P H r >>= fun sync => beeStreamSend true >>= fun ok =>
    if ok then receive P sync else return none := by
  simp only [execute, prepare, bind_assoc, pure_bind]

theorem execute_throws : Throws (execute P H r) (· = none) (ExecuteSilent P H r) := by
  intro w
  rw [execute_eq]
  refine .after (prepare_mute _ _ rfl) fun sync w₁ _ => .congr ?_ (true_and _).to_iff
  refine .bind (beeStreamSend_throws w₁) (fun _ => (Bool.not_eq_false _).symm.to_iff) ?_ ?_
  · rintro ok w₂ hrun rfl
    obtain ⟨stream, -, ⟨-, -, rfl⟩ | ⟨⟨⟩, -⟩⟩ := beeStreamSend_spec true w₁ _ w₂ hrun
    exact receive_throws rfl
  · rintro ok w₂ rfl
    exact .stop rfl

theorem copyCtor_eq_bool {v : PVal} {b : Bool} : v.copyCtor = .bool b ↔ v = .bool b := by
  cases v <;> simp [PVal.copyCtor]

theorem beeReturnData_throws {body : PVal} {w : World} :
    Reports World.exceptions (beeReturnData body) (· = .bool false)
      (∃ entries next, body = .arr entries next ∧ indexFind entries beexData = some (.bool false)) w := by
  unfold beeReturnData
  split
  case h_1 entries next =>
    cases hdata : indexFind entries beexData with
    | none => exact .congr (throws_then fun _ => .stop rfl) (by simp [hdata])
    | some answer => exact Reports.value.congr (by simp [hdata, copyCtor_eq_bool])
  case h_2 hnot => exact .congr .throw (by simpa using fun entries next h => absurd h (hnot entries next))

theorem request_throws : Throws (request P H r) (· = .bool false) (RequestSilent P H r) := by
  refine fun w => .bind (execute_throws w) (fun _ => Iff.rfl) (fun answer w₁ _ hsome => ?_) ?_
  · obtain ⟨⟨header, body⟩, rfl⟩ := Option.ne_none_iff_exists'.mp hsome
    refine beeReturnData_throws.congr ?_
    simp [AnswersFalse]
  · rintro answer w₁ rfl
    exact .stop rfl

end Requests

/-! ## Methods -/

section Methods

variable {body : M PVal} {silent : World → Prop}

theorem onDemand_throws (hbody : Throws body (· = .bool false) silent) :
    Throws (onDemand P body) (· = .bool false) (onDemandSilent P silent) := by
  refine fun w => .bind (connectOnDemand_throws w) (fun _ => (Bool.not_eq_false _).symm.to_iff) ?_ ?_
  · rintro ok w₁ - rfl
    exact hbody w₁
  · rintro ok w₁ rfl
    exact .stop rfl

/-- A number, or -1 for a failure, and then a body. -/
theorem number_throws {x : M Int} {body : Int → M PVal} {silent : World → Prop}
    {silent' : Int → World → Prop} (hx : Throws x (· = -1) silent)
    (hbody : ∀ no, Throws (body no) (· = .bool false) (silent' no)) :
    Throws (x >>= fun no => if no = -1 then return .bool false else body no) (· = .bool false)
      fun w => silent w ∨ After x (· ≠ -1) silent' w := by
  refine fun w => .bind (hx w) (fun _ => Iff.rfl) (fun no w₁ _ hne => ?_) fun no w₁ hno => ?_
  · rw [if_neg hne]
    exact hbody no w₁
  · rw [if_pos hno]
    exact .stop rfl

theorem withSpace_throws {space : Zval} {body : Int → M PVal} {silent : Int → World → Prop}
    (hbody : ∀ no, Throws (body no) (· = .bool false) (silent no)) :
    Throws (withSpace P space body) (· = .bool false) (withSpaceSilent P space silent) :=
  number_throws getSpacenoByName_throws hbody

theorem withIndex_throws {spaceNo : Int} {index : Option Zval} {body : Int → M PVal}
    {silent : Int → World → Prop} (hbody : ∀ no, Throws (body no) (· = .bool false) (silent no)) :
    Throws (withIndex P spaceNo index body) (· = .bool false) (withIndexSilent P spaceNo index silent) := by
  cases index with
  | none => exact hbody 0
  | some index => exact number_throws getIndexnoByName_throws hbody

theorem withArgs_throws {H : Heap} {args : Zval} {body : Heap → Zval → M PVal}
    {silent : Heap → Zval → World → Prop}
    (hbody : ∀ H args, Throws (body H args) (· = .bool false) (silent H args)) :
    Throws (withArgs H args body) (· = .bool false) (withArgsSilent H args silent) := by
  intro w
  unfold withArgs withArgsSilent
  cases beeUpdateVerifyArgs H args with
  | error e => exact throws_then fun _ => .stop rfl
  | ok r => exact hbody r.1 r.2 w

theorem withLimit_throws {zlimit : Option Zval} {body : Int64 → M PVal} {silent : Int64 → World → Prop}
    (hbody : ∀ limit, Throws (body limit) (· = .bool false) (silent limit)) :
    Throws (withLimit zlimit body) (· = .bool false) (withLimitSilent zlimit silent) := by
  intro w
  match zlimit with
  | none => exact hbody _ w
  | some .null => exact hbody _ w
  | some (.long limit) => exact hbody limit w
  | some (.bool _) | some (.double _) | some (.str _) | some (.arr _) | some .other =>
    exact throws_then fun _ => .stop rfl

/-- A key is packed, and then comes a body. -/
theorem withKey_throws {H : Heap} {key : Option Zval} {select : Bool} {body : Heap × Zval → M PVal}
    {silent : Heap → Zval → World → Prop}
    (hbody : ∀ H keyNew, Throws (body (H, keyNew)) (· = .bool false) (silent H keyNew)) :
    Throws (StateT.lift (packKey H key select) >>= body) (· = .bool false)
      (withKeySilent H key select silent) := by
  refine fun w => (Reports.lift fun r _ => hbody r.1 r.2 w).congr ⟨?_, ?_⟩
  · rintro ⟨H', keyNew, hpack, h⟩
    exact ⟨(H', keyNew), hpack, h⟩
  · rintro ⟨⟨H', keyNew⟩, hpack, h⟩
    exact ⟨H', keyNew, hpack, h⟩

/-- A method that returns whether something succeeds. -/
theorem returns_throws {x : M Bool} {silent : World → Prop} (hx : Throws x (· = false) silent) :
    Throws (x >>= fun ok => return PVal.bool ok) (· = .bool false) silent := by
  refine fun w => .bind_loud (hx w) (fun ok w₁ _ hok => ?_) ?_
  · exact .pure (by simpa using hok)
  · rintro ok w₁ rfl
    exact .stop rfl

end Methods

/-- The methods that are to throw an exception when they return FALSE. -/
theorem Op.run_throws {H : Heap} {op : Op} (hop : ∀ login passwd, op ≠ .authenticate login passwd) :
    Throws (op.run P H) (· = .bool false) (op.Silent P H) := by
  cases op with
  | connect =>
    refine fun w => .step rfl rfl (.ite (fun hopen => ?_) fun hclosed => ?_)
    · refine .congr (.pure nofun) (iff_false_intro fun h => ?_)
      rw [h.1] at hopen
      cases hopen
    · have hnone : w.obj.stream = none := Option.not_isSome_iff_eq_none.mp hclosed
      exact (returns_throws beeConnect_throws w).congr (and_iff_right hnone)
  | reconnect => exact returns_throws beeReconnect_throws
  | authenticate login passwd => exact absurd rfl (hop login passwd)
  | flushSchema => exact fun w => .step rfl rfl (.pure nofun)
  | close => exact fun w => .pure nofun
  | ping =>
    refine onDemand_throws fun w => .bind_loud (execute_throws w) (fun answer w₁ _ hsome => ?_) ?_
    · obtain ⟨values, rfl⟩ := Option.ne_none_iff_exists'.mp hsome
      exact .pure nofun
    · rintro answer w₁ rfl
      exact .stop rfl
  | select space key index zlimit offset iterator =>
    refine onDemand_throws (withLimit_throws fun limit => withSpace_throws fun no => withIndex_throws fun _ => ?_)
    refine number_throws convertIterator_throws fun id => withKey_throws fun _ _ => request_throws
  | insert space tuple => exact onDemand_throws (withSpace_throws fun no => request_throws)
  | replace space tuple => exact onDemand_throws (withSpace_throws fun no => request_throws)
  | delete space key index =>
    exact onDemand_throws (withSpace_throws fun no => withIndex_throws fun _ =>
      withKey_throws fun _ _ => request_throws)
  | call proc tuple => exact onDemand_throws (withKey_throws fun _ _ => request_throws)
  | eval proc tuple => exact onDemand_throws (withKey_throws fun _ _ => request_throws)
  | update space key args index =>
    exact onDemand_throws (withSpace_throws fun no => withIndex_throws fun _ => withArgs_throws fun _ _ =>
      withKey_throws fun _ _ => request_throws)
  | upsert space tuple args =>
    exact onDemand_throws (withSpace_throws fun no => withArgs_throws fun _ _ => request_throws)

/-- `authenticate` returns FALSE only if it has no connection. -/
theorem authenticate_reported {H : Heap} {login : ZStr} {passwd : Option ZStr} {w : World} :
    Reported P H (.authenticate login passwd) w ↔ ¬ Op.Silent P H (.authenticate login passwd) w := by
  let w₀ : World := { w with obj := { w.obj with
    login := cString login.val, passwd := passwd.map fun passwd => cString passwd.val } }
  have hrun : Bee.authenticate P login passwd w = (connectOnDemand P >>= fun ok => if ok then do
      discard (beeAuthenticate P)
      return .null
    else return .bool false : M PVal) w₀ := rfl
  have hconnect := @connectOnDemand_throws P w₀
  constructor
  · intro hreported hsilent
    obtain ⟨ok, w₁, hclosed, rfl, hlog⟩ := hconnect.silent hsilent
    have hlt := hreported w₁ (hrun.trans (run_bind hclosed))
    rw [hlog] at hlt
    exact Nat.lt_irrefl _ hlt
  · intro hnot w' hfalse
    have hwlp : Wlp (connectOnDemand P >>= fun ok => if ok then do
        discard (beeAuthenticate P)
        return .null
      else return .bool false : M PVal)
        (fun v w' => v = .bool false → w.exceptions.length < w'.exceptions.length) w₀ := by
      refine .bind ((hconnect.failure hnot).mono fun ok w₁ hlt => .ite (fun _ => ?_) fun hok => ?_)
      · exact .bind fun _ _ _ => .pure nofun
      · exact .pure fun _ => hlt (Bool.not_eq_true _ ▸ hok)
    exact hwlp _ _ (hrun.symm.trans hfalse) rfl

/-- A method that returns FALSE has thrown an exception exactly unless it is silent. -/
theorem Op.reported_iff_not_silent {H : Heap} {op : Op} {w : World} :
    Reported P H op w ↔ ¬ op.Silent P H w := by
  by_cases hop : ∃ login passwd, op = .authenticate login passwd
  · obtain ⟨login, passwd, rfl⟩ := hop
    exact authenticate_reported
  · have hthrows := @Op.run_throws P H op (fun login passwd h => hop ⟨login, passwd, h⟩) w
    rw [← hthrows.reported_iff]
    refine ⟨fun h v w' hrun hv => h w' (hv ▸ hrun), fun h w' hrun => h _ w' hrun rfl⟩

theorem not_reported {H : Heap} {op : Op} {w : World} (h : failsQuietly P H op w = true) :
    ¬ Reported P H op w := by
  intro hreported
  unfold failsQuietly at h
  split at h
  case h_1 w' hrun => exact absurd (of_decide_eq_true h) (hreported w' hrun).ne'
  case h_2 => cases h

/-- The first ping of an object, whose write fails. -/
theorem Op.reported_ping_unsent : ¬ ∀ (P : Platform) (c : Creation) (steps : List Step) (w : World)
    (s : Step), Runs P c steps w → (∀ login passwd, s.op ≠ .authenticate login passwd) →
      Reported P s.heap s.op { w with net := s.net } := by
  intro h
  obtain ⟨w, hw⟩ : ∃ w, Creation.guest.init = some w := ⟨_, rfl⟩
  have hruns : Runs (.blank false) .guest [] w := ⟨w, hw, rfl⟩
  let s : Step := ⟨{ Net.opening with writes := [.failed 0] }, [], .ping⟩
  refine not_reported ?_ (h (.blank false) .guest [] w s hruns nofun)
  obtain rfl := Option.some.inj hw
  decide +kernel

end BeePhp
