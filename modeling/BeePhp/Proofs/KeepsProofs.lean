import BeePhp.Connection
import BeePhp.Proofs.WorldProofs

/-!
# Proofs: what is kept by programs that touch little

A predicate that does not look at what a program touches is kept by it. This is stated once for the
programs that throw exceptions and fill the schema (`IgnoresOutput`, with the records of responses
`Ignores`), and once for those that compose requests
(`IgnoresWriter`).
-/

namespace BeePhp

open Codec Program

/-! ## Exceptions and the schema -/

/-- A predicate that looks neither at the exceptions nor at the schema. -/
structure IgnoresOutput (I : World → Prop) : Prop where
  exceptions : ∀ w exceptions, I w → I { w with exceptions := exceptions }
  schema : ∀ w schema, I w → I { w with obj := { w.obj with schema := schema } }

/-- Neither does it look at the records of responses. -/
structure Ignores (I : World → Prop) : Prop extends IgnoresOutput I where
  records : ∀ w ahead asked used, I w → I { w with ahead := ahead, asked := asked, used := used }

theorem getObj_keeps {I : World → Prop} : Keeps I getObj := fun _ h => getObj_wlp h

section Output

variable {I : World → Prop} (hI : IgnoresOutput I)

include hI

theorem throwExc_keeps {format : String} {args : List MsgArg} : Keeps I (throwExc format args) :=
  fun w h => .modify (hI.exceptions w _ h)

theorem throwIf_keeps {p : Prop} [Decidable p] {format : String} {args : List MsgArg} :
    Keeps I (throwIf p format args) := .ite (throwExc_keeps hI) (.pure ())

theorem addToSchema_keeps {add : Schema → Option Bytes → Nat → Except Fault (Schema × Bool)}
    {resp : BeexResponse} {text : String} {status : Bool} :
    Keeps I (addToSchema add resp text status) := by
  refine .bind getObj_keeps fun _ => .bind (.lift _) fun _ => ?_
  refine .bind (fun w h => .modify (hI.schema w _ h)) fun _ => ?_
  exact .ite (.bind (throwExc_keeps hI) fun _ => .pure _) (.pure _)

theorem throwQueryError_keeps {resp : BeexResponse} : Keeps I (throwQueryError resp) := by
  unfold throwQueryError
  cases resp.error with
  | none => exact .pure ()
  | some error => exact throwExc_keeps hI

theorem lookupAnswer_keeps {shortage : Option Shortage} {parse : M Int} (h : Keeps I parse) :
    Keeps I (lookupAnswer shortage parse) := by
  match shortage with
  | none => exact h
  | some .length => exact .bind (throwExc_keeps hI) fun _ => .pure _
  | some (.body _) => exact .bind (throwExc_keeps hI) fun _ => .pure _

end Output

section Ignoring

variable {I : World → Prop} (hI : Ignores I)

include hI

theorem awaitResponse_keeps : Keeps I awaitResponse := fun w h => .modify (hI.records w _ _ _ h)

theorem askResponse_keeps : Keeps I askResponse :=
  .bind (awaitResponse_keeps hI) fun _ w h => .modify (hI.records w _ _ _ h)

theorem useResponse_keeps {sync : UInt32} : Keeps I (useResponse sync) :=
  fun w h => .modify (hI.records w _ _ _ h)

theorem lookupParse_keeps {find : Schema → Int}
    {add : Schema → Option Bytes → Nat → Except Fault (Schema × Bool)} {parseError missing : String}
    {name : Bytes} : Keeps I (lookupParse find add parseError missing name) := by
  have hO := hI.toIgnoresOutput
  refine .bind getObj_keeps fun _ => .bind (.lift _) fun _ => ?_
  refine .ite (.bind (throwExc_keeps hO) fun _ => .pure _) ?_
  refine .ite (.bind (throwQueryError_keeps hO) fun _ => .pure _) ?_
  refine .bind .get fun _ => .bind (useResponse_keeps hI) fun _ => ?_
  refine .bind (addToSchema_keeps hO) fun _ => ?_
  exact .ite (.bind getObj_keeps fun _ => .bind (throwIf_keeps hO) fun _ => .pure _) (.pure _)

theorem lookupReceive_keeps {parse : M Int} (hread : Keeps I readPacket) (h : Keeps I parse) :
    Keeps I (lookupReceive parse) :=
  .bind (askResponse_keeps hI) fun _ => .bind hread fun _ => lookupAnswer_keeps hI.toIgnoresOutput h

theorem authResponse_keeps {syncs : AuthSyncs} : Keeps I (authResponse syncs) := by
  have hO := hI.toIgnoresOutput
  refine .bind getObj_keeps fun _ => .bind (.lift _) fun r => .bind (throwIf_keeps hO) fun _ => ?_
  refine .bind (throwQueryError_keeps hO) fun _ => ?_
  have hadd {add : Schema → Option Bytes → Nat → Except Fault (Schema × Bool)} {resp : BeexResponse}
      {text : String} {status granted : Bool} {sync : UInt32} : Keeps I (do
        useResponse sync
        let status ← addToSchema add resp text status
        return (status, granted)) :=
    .bind (useResponse_keeps hI) fun _ => .bind (addToSchema_keeps hO) fun _ => .pure _
  refine .ite hadd (.ite hadd ?_)
  exact .ite (.bind (throwQueryError_keeps hO) fun _ => .pure _) (.pure _)

/-- Receiving a response keeps what `bee_step_recv` keeps. -/
theorem receive_keeps {P : Platform} {sync : Int64} (h : Keeps I (beeStepRecv P sync.toUInt64)) :
    Keeps I (receive P sync) := by
  refine .bind (awaitResponse_keeps hI) fun _ => .bind h fun _ => ?_
  exact .ite (.bind (useResponse_keeps hI) fun _ => .pure _) (.pure _)

/-- The loop of the authentication keeps what reading a packet keeps. -/
theorem authLoop_keeps (hread : Keeps I readPacket) {syncs : AuthSyncs} {n : Nat}
    {status granted : Bool} : Keeps I (authLoop syncs n status granted) := by
  induction n generalizing status granted with
  | zero => exact .pure _
  | succ n ih =>
    refine .bind (awaitResponse_keeps hI) fun _ => .bind hread fun _ => ?_
    refine .ite (.bind (throwExc_keeps hI.toIgnoresOutput) fun _ => .pure _) ?_
    exact .ite (.bind (authResponse_keeps hI) fun _ => ih) ih

end Ignoring

/-! ## Receiving -/

section Receiving

variable {I : World → Prop} (hI : IgnoresOutput I) (hclose : Keeps I beeStreamClose)
  (hreset : Keeps I resetValue)

include hreset

theorem stepError_keeps : Keeps I stepError := .bind hreset fun _ => .pure _

include hclose

theorem stepErrorCon_keeps : Keeps I stepErrorCon := .bind hclose fun _ => stepError_keeps hreset

omit hclose

include hI

theorem stepQueryError_keeps {P : Platform} {code body : PVal} :
    Keeps I (stepQueryError P code body) := by
  cases body with
  | arr entries next =>
    simp only [stepQueryError]
    cases indexFind entries beexError with
    | none => exact .throw
    | some errstr =>
      cases errstr with
      | str s => exact .bind (throwExc_keeps hI) fun _ => stepError_keeps hreset
      | bin s => exact .ite (.bind (throwExc_keeps hI) fun _ => stepError_keeps hreset) .throw
      | _ => exact .throw
  | _ => exact .throw

include hclose

theorem stepFinish_keeps {P : Platform} {sync : UInt64} {header : List (Key × PVal)} {next : UInt64}
    {body : PVal} : Keeps I (stepFinish P sync header next body) := by
  have hfail {format : String} {args : List MsgArg} : Keeps I (do
      throwExc format args
      stepErrorCon) := .bind (throwExc_keeps hI) fun _ => stepErrorCon_keeps hclose hreset
  simp only [stepFinish]
  refine .ite hfail ?_
  cases indexFind header beexCode with
  | none => exact hfail
  | some code => exact .ite (.bind hreset fun _ => .pure _) (stepQueryError_keeps hI hreset)

omit hclose hreset

theorem unpackFailed_keeps {h : Halt} {k : M (Option (PVal × PVal))} (hk : Keeps I k) :
    Keeps I (unpackFailed h k) := by
  cases h with
  | fault f => exact .throw
  | failure thrown =>
    cases thrown with
    | none => exact hk
    | some text => exact .bind (throwExc_keeps hI) fun _ => hk

include hclose hreset

theorem stepDecode_keeps {check : Bytes → Nat → Except Fault Nat} {P : Platform} {sync : UInt64}
    {bodySize : Nat} : Keeps I (stepDecode check P sync bodySize) := by
  have herror := stepError_keeps hreset
  refine .bind getObj_keeps fun obj => .bind (.lift _) fun _ => ?_
  refine .ite (.bind (throwExc_keeps hI) fun _ => herror) ?_
  cases phpMpUnpack P.ndebug obj.value.c with
  | error e => exact unpackFailed_keeps hI herror
  | ok r =>
    obtain ⟨h, pos⟩ := r
    cases h with
    | arr header next =>
      refine .bind (.lift _) fun _ => .ite (.bind (throwExc_keeps hI) fun _ => ?_) ?_
      · exact stepErrorCon_keeps hclose hreset
      · cases phpMpUnpack P.ndebug pos with
        | error e => exact unpackFailed_keeps hI herror
        | ok r => exact stepFinish_keeps hI hclose hreset
    | _ => exact herror

end Receiving

/-! ## Composing -/

/-- The writer of the connection with its buffer. -/
def World.writer (w : World) : TpState := ⟨w.obj.tps, w.obj.value⟩

/-- A predicate that looks neither at the writer nor at the counter nor at the record. -/
structure IgnoresWriter (I : World → Prop) : Prop where
  writer : ∀ w tps value, I w → I { w with obj := { w.obj with tps := tps, value := value } }
  counter : ∀ w n, I w → I { w with syncCounter := n }
  record : ∀ w start own, I w → I { w with start := start, own := own }

theorem runTp_spec {w : World} {x : TpM Unit} {Q : TpState → Prop} (h : Wlp x (fun _ => Q) w.writer) :
    Wlp (runTp x) (fun _ w' => Q w'.writer ∧
      w' = { w with obj := { w.obj with tps := w'.obj.tps, value := w'.obj.value } }) w := by
  refine .bind (getObj_wlp (.bind (.lift fun r hr => .modify ⟨?_, rfl⟩)))
  exact h r.1 r.2 hr

section Composing

variable {P : Platform} {I : World → Prop} (hI : IgnoresWriter I)

include hI

theorem runTp_keeps {x : TpM Unit} : Keeps I (runTp x) := by
  intro w h
  refine (runTp_spec (Q := fun _ => True) fun _ _ _ => trivial).mono ?_
  rintro - w' ⟨-, hw'⟩
  rw [hw']
  exact hI.writer w _ _ h

theorem reqidNext_keeps : Keeps I (reqidNext P) := by
  refine .bind (fun w h => .bind (.get (.bind (.set (.pure (hI.counter w _ h)))))) fun _ => ?_
  exact .bind (runTp_keeps hI) fun _ => .pure _

theorem spaceRequest_keeps {name : Bytes} : Keeps I (spaceRequest P name) := by
  refine .bind (runTp_keeps hI) fun _ => .bind (runTp_keeps hI) fun _ => ?_
  exact .bind (runTp_keeps hI) fun _ => .bind (reqidNext_keeps hI) fun _ => .pure _

theorem indexRequest_keeps {spaceNo : Int} {name : Bytes} :
    Keeps I (indexRequest P spaceNo name) := by
  refine .bind (runTp_keeps hI) fun _ => .bind (runTp_keeps hI) fun _ => ?_
  refine .bind (runTp_keeps hI) fun _ => .bind (runTp_keeps hI) fun _ => ?_
  exact .bind (reqidNext_keeps hI) fun _ => .pure _

theorem authRequests_keeps : Keeps I (authRequests P) := by
  refine .bind getObj_keeps fun _ => .bind (runTp_keeps hI) fun _ => .bind (reqidNext_keeps hI) fun _ => ?_
  refine .bind (runTp_keeps hI) fun _ => .bind (runTp_keeps hI) fun _ => ?_
  refine .bind (reqidNext_keeps hI) fun _ => .bind (runTp_keeps hI) fun _ => ?_
  exact .bind (runTp_keeps hI) fun _ => .bind (reqidNext_keeps hI) fun _ => .pure _

theorem composeTp_keeps {α : Type} {body : M α} (h : Keeps I body) : Keeps I (composeTp body) := by
  refine .bind getObj_keeps fun _ => .bind (fun w hw => .modify (hI.writer w _ _ hw)) fun _ => ?_
  refine .bind h fun _ => .bind getObj_keeps fun _ => .bind (.lift _) fun _ => ?_
  refine .bind (fun w hw => .modify (hI.writer w _ _ hw)) fun _ => ?_
  exact .bind (fun w hw => .modify (hI.record w _ _ hw)) fun _ => .pure _

end Composing

end BeePhp
