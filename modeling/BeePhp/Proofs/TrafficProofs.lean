import BeePhp.Methods
import BeePhp.Proofs.KeepsProofs
import BeePhp.Proofs.RecvProofs

/-!
# Proofs: what sending and receiving keep

A predicate that looks neither at the stream nor at what goes over it (`IgnoresTraffic`) is kept by
everything that reads and writes the stream, and one that does not look at the records of responses
either (`IgnoresExchange`) by whole exchanges of a request and a response. What `bee_step_recv` keeps in
front of a frame is said in `beeStepRecvWith_frame`.
-/

namespace BeePhp

open Codec Program

/-! ## Reading and writing -/

/-- A predicate that does not look at the stream and at what goes over it. -/
structure IgnoresTraffic (I : World → Prop) : Prop extends IgnoresOutput I, IgnoresWriter I where
  stream : ∀ w stream net, I w → I { w with obj := { w.obj with stream := stream }, net := net }
  greeting : ∀ w greeting, I w → I { w with obj := { w.obj with greeting := greeting } }
  sent : ∀ w sent exchanges, I w → I { w with sent := sent, exchanges := exchanges }

/-- The same of a predicate that may look at the exceptions and the schema. -/
structure IgnoresLine (I : World → Prop) : Prop extends IgnoresWriter I where
  stream : ∀ w stream net, I w → I { w with obj := { w.obj with stream := stream }, net := net }
  greeting : ∀ w greeting, I w → I { w with obj := { w.obj with greeting := greeting } }
  sent : ∀ w sent exchanges, I w → I { w with sent := sent, exchanges := exchanges }

theorem IgnoresTraffic.line {I : World → Prop} (h : IgnoresTraffic I) : IgnoresLine I :=
  ⟨h.toIgnoresWriter, h.stream, h.greeting, h.sent⟩

/-- A predicate that looks neither at what is read nor at where it is read to. -/
structure IgnoresReads (I : World → Prop) : Prop where
  value : ∀ w value, I w → I { w with obj := { w.obj with value := value } }
  stream : ∀ w stream net, I w → I { w with obj := { w.obj with stream := stream }, net := net }
  greeting : ∀ w greeting, I w → I { w with obj := { w.obj with greeting := greeting } }

theorem IgnoresLine.reads {I : World → Prop} (h : IgnoresLine I) : IgnoresReads I :=
  ⟨fun w => h.writer w w.obj.tps, h.stream, h.greeting⟩

section Reads

variable {I : World → Prop} (hI : IgnoresReads I)

include hI

theorem phpStreamRead_keeps {kind : ReadKind} {size : Nat} : Keeps I (phpStreamRead kind size) := by
  intro w h bs w' hrun
  unfold phpStreamRead at hrun
  split at hrun
  · cases hrun
  · obtain ⟨-, rfl⟩ := Prod.mk.inj (Except.ok.inj hrun)
    exact hI.stream w _ _ h

theorem readLoop_keeps {β : Type} {kind : ReadKind} {store : Nat → Bytes → β → Except Fault β}
    {size fuel total : Nat} {buf : β} : Keeps I (readLoop kind store size fuel total buf) := by
  induction fuel generalizing total buf with
  | zero => exact .throw
  | succ fuel ih =>
    refine .ite (.bind (phpStreamRead_keeps hI) fun bs => .bind (.lift _) fun buf' => ?_) (.pure _)
    exact .ite (.pure _) ih

theorem beeStreamRead_keeps {β : Type} {kind : ReadKind} {store : Nat → Bytes → β → Except Fault β}
    {buf : β} {size : Nat} : Keeps I (beeStreamRead kind store buf size) :=
  .bind (.bind (readLoop_keeps hI) fun _ => .pure _) fun _ => .pure _

theorem readValue_keeps {kind : ReadKind} {pos size : Nat} : Keeps I (readValue kind pos size) :=
  .bind getObj_keeps fun _ => .bind (beeStreamRead_keeps hI) fun _ =>
    .bind (fun w h => .modify (hI.value w _ h)) fun _ => .pure _

theorem readPacket_keeps : Keeps I readPacket := by
  refine .bind (beeStreamRead_keeps hI) fun r => .ite (.pure _) (.bind (.lift _) fun bodySize => ?_)
  refine .bind (fun w h => .modify (hI.value w _ h)) fun _ => ?_
  exact .bind (readValue_keeps hI) fun _ => .ite (.pure _) (.pure _)

theorem readGreeting_keeps : Keeps I readGreeting := by
  refine .bind getObj_keeps fun _ => .bind (.bind (readLoop_keeps hI) fun _ => .pure _) fun r => ?_
  exact .bind (fun w h => .modify (hI.greeting w _ h)) fun _ => .pure _

theorem resetValue_keeps : Keeps I resetValue :=
  .bind getObj_keeps fun _ => .bind (.lift _) fun _ w h => .modify (hI.value w _ h)

theorem beeStepRecvWith_keeps (hO : IgnoresOutput I) (hclose : Keeps I beeStreamClose)
    {check : Bytes → Nat → Except Fault Nat} {P : Platform} {sync : UInt64} :
    Keeps I (beeStepRecvWith check P sync) := by
  have hreset := resetValue_keeps hI
  have hthrow {format : String} {args : List MsgArg} : Keeps I (throwExc format args) := throwExc_keeps hO
  have hvalue {f : Connection → SmartString} :
      Keeps I (modifyObj fun obj => { obj with value := f obj }) :=
    fun w h => .modify (hI.value w _ h)
  refine .bind (beeStreamRead_keeps hI) fun r => ?_
  refine .ite (.bind hthrow fun _ => stepErrorCon_keeps hclose hreset) (.bind (.lift _) fun _ => ?_)
  refine .ite (.bind hthrow fun _ => stepErrorCon_keeps hclose hreset) (.bind (.lift _) fun size => ?_)
  refine .bind (.bind hvalue fun _ => .bind getObj_keeps fun _ => readValue_keeps hI) fun _ => ?_
  refine .ite (.bind hthrow fun _ => stepError_keeps hreset) (.bind getObj_keeps fun _ => ?_)
  refine .bind (.lift _) fun _ => .bind hvalue fun _ => ?_
  exact stepDecode_keeps hO hclose hreset

end Reads

section Line

variable {I : World → Prop} (hI : IgnoresLine I)

include hI

theorem phpStreamWrite_keeps {bs : Bytes} : Keeps I (phpStreamWrite bs) := by
  intro w h ok w' hrun
  unfold phpStreamWrite at hrun
  split at hrun
  · cases hrun
  · obtain ⟨-, rfl⟩ := Prod.mk.inj (Except.ok.inj hrun)
    exact hI.stream w _ _ h

theorem beeStreamSend_keeps {request : Bool} : Keeps I (beeStreamSend request) := by
  refine .bind (fun w h => .modify (hI.sent w _ _ h)) fun _ => .bind getObj_keeps fun obj => ?_
  refine .bind (phpStreamWrite_keeps hI) fun ok => .ite (.bind (resetValue_keeps hI.reads) fun _ => ?_) (.pure _)
  exact .bind (fun w h => .modify (hI.record w w.start _ h)) fun _ => .pure _

theorem recordExchange_keeps {ok : Bool} : Keeps I (recordExchange ok) :=
  fun w h => .modify (hI.sent _ _ _ (hI.stream w _ w.net h))

end Line

/-! ## In front of a frame -/

section Frame

variable {I₀ I : World → Prop} (hI₀ : IgnoresOutput I₀) (hI : IgnoresOutput I)
  (hclose : ∀ w, I₀ w → Wlp beeStreamClose (fun _ => I) w) (hreset : Keeps I resetValue)

include hI₀ hclose hreset

/-- Giving up the connection. -/
theorem stepErrorCon_gives {format : String} {args : List MsgArg} {w : World} (h : I₀ w) :
    Wlp (do
      throwExc format args
      stepErrorCon) (fun _ => I) w := by
  refine .bind ((throwExc_keeps hI₀ w h).mono fun _ w₁ h₁ => ?_)
  exact .bind ((hclose w₁ h₁).mono fun _ w₂ h₂ => stepError_keeps hreset w₂ h₂)

include hI

/-- The length of a frame is read, or cut short and the stream closed; then the payload is read. -/
theorem beeStepRecvWith_frame (hweak : ∀ w, I w → I₀ w)
    (hvalue : ∀ w value, I w → I (w.withValue value))
    {check : Bytes → Nat → Except Fault Nat} {P : Platform} {sync : UInt64} {w : World}
    {stream : Stream} {payload rest : Bytes} (hpayload : payload.length < 2 ^ 31)
    (hprompt : w.net.Prompt .other)
    (hstream : w.obj.stream = some { stream with inbox := frame payload ++ rest })
    (hcut : ∀ inbox net, w.net.Later net → I₀ (w.after stream inbox net))
    (hread : ∀ net, w.net.Later net → I (w.after stream rest net)) :
    Wlp (beeStepRecvWith check P sync) (fun _ => I) w := by
  obtain ⟨ls, w₁, hdel, hlength⟩ := readLength_delivers .length hstream
  obtain ⟨rest₁, net, hsplit, hlater, rfl⟩ := hdel.after
  have hclosed {format : String} {args : List MsgArg} : Wlp (do
      throwExc format args
      stepErrorCon) (fun _ => I) (w.after stream rest₁ net) :=
    stepErrorCon_gives hI₀ hclose hreset (hcut rest₁ net hlater)
  refine .bind fun r w₁ hrun => ?_
  obtain ⟨rfl, rfl⟩ := Prod.mk.inj (Except.ok.inj (hlength.symm.trans hrun))
  refine .ite (fun _ => hclosed) fun hls => ?_
  -- the five bytes are those in front of the payload
  have hls' : ls.length = 5 := not_not.mp hls
  have hframe : (0xce :: toBE 4 payload.length) ++ (payload ++ rest) = ls ++ rest₁ := by
    rw [← hsplit]
    simp [frame]
  obtain ⟨rfl, rfl⟩ := List.append_inj hframe (by simp [hls'])
  refine .bind (.lift fun status _ => .ite (fun _ => hclosed) fun _ => .bind (.lift ?_))
  intro bodySize hsize
  have hbody : bodySize = payload.length := by
    have hpack := phpMpUnpackPackageSize_frame (show payload.length < 2 ^ 32 by omega)
    have hdrop : ([0, 0, 0, 0, 0] : Bytes).drop (0xce :: toBE 4 payload.length).length = [] := by
      rw [hls']
      rfl
    rw [hdrop, List.append_nil, hpack] at hsize
    exact (Except.ok.inj hsize).symm
  subst hbody
  have hopen : (w.after stream (payload ++ rest) net).obj.stream =
      some { stream with inbox := payload ++ rest } := rfl
  obtain ⟨bs, value, w₂, hdel', -, hread'⟩ := readBody_delivers payload.length hopen
  have hbs : bs.length = payload.length := hdel'.all (hlater.prompt hprompt) (by simp)
  obtain ⟨rest₂, net', hsplit', hlater', rfl⟩ := hdel'.after
  obtain ⟨rfl, rfl⟩ := List.append_inj hsplit' hbs.symm
  have hw₂ := hvalue _ value (hread net' (hlater.trans hlater'))
  refine .bind fun n w₂ hrun' => ?_
  obtain ⟨rfl, rfl⟩ := Prod.mk.inj (Except.ok.inj (hread'.symm.trans hrun'))
  refine .ite (fun _ => .bind ?_) fun _ => .bind (getObj_wlp (.bind (.lift fun value' _ => ?_)))
  · exact (throwExc_keeps hI _ hw₂).mono fun _ w₃ h₃ => stepError_keeps hreset w₃ h₃
  · refine .bind (.modify ?_)
    have hkeeps : Keeps I beeStreamClose := fun w hw => hclose w (hweak w hw)
    exact stepDecode_keeps hI hkeeps hreset _ (hvalue _ value' hw₂)

end Frame

/-- A prompt stream delivers the whole greeting. -/
theorem readGreeting_frame {w : World} {stream : Stream} {salt rest : Bytes}
    (hgreeting : w.obj.greeting.length = greetingSize) (hsalt : salt.length = greetingSize)
    (hprompt : w.net.Prompt .other) (hstream : w.obj.stream = some { stream with inbox := salt ++ rest }) :
    ∃ rv greeting net, readGreeting w = .ok (rv, { w with
        obj := { w.obj with stream := some { stream with inbox := rest }, greeting := greeting }
        net := net }) ∧
      greeting.length = greetingSize ∧ w.net.Later net := by
  have hroom (bs : Bytes) (hbs : 0 + bs.length ≤ greetingSize) :
      ∃ buf', writeAt w.obj.greeting 0 bs = .ok buf' := ⟨_, if_pos (by rw [hgreeting]; exact hbs)⟩
  obtain ⟨bs, buf', w', hdel, hstore, hloop⟩ :=
    @readLoop_delivers _ _ writeAt_composes .other _ greetingSize (greetingSize + 1) 0
      w.obj.greeting w (by decide) (by decide) hroom hstream
  have hbs : bs.length = greetingSize := hdel.all hprompt (by simp [hsalt])
  obtain ⟨rest', net, hinbox, hlater, rfl⟩ := hdel.after
  obtain ⟨rfl, rfl⟩ := List.append_inj hinbox (hsalt.trans hbs.symm)
  have hlen : buf'.length = greetingSize := by
    obtain ⟨hle, rfl⟩ := writeAt_eq_ok.mp hstore
    simp only [List.length_append, List.length_take, List.length_drop, hgreeting, hsalt] at hle ⊢
    omega
  refine ⟨toInt (0 + salt.length : Nat), buf', net, ?_, hlen, hlater⟩
  have hread : beexllStreamRead2 .other (fun off bs buf => writeAt buf off bs) w.obj.greeting
      greetingSize w = _ := run_bind hloop
  rw [readGreeting, run_bind (getObj_run w), run_bind hread]
  rfl

/-! ## Exchanges -/

/-- A predicate that looks neither at the stream nor at what is recorded of the responses. -/
structure IgnoresExchange (I : World → Prop) : Prop extends IgnoresTraffic I, Ignores I

section Exchange

variable {I : World → Prop} (hI : IgnoresExchange I)

include hI

theorem beeAuthenticate_keeps {P : Platform} : Keeps I (beeAuthenticate P) := by
  have hwriter := hI.toIgnoresWriter
  refine .bind (fun w h => .modify (hI.schema w _ h)) fun _ => ?_
  refine .bind (composeTp_keeps hwriter (authRequests_keeps hwriter)) fun syncs => ?_
  refine .bind (beeStreamSend_keeps hI.toIgnoresTraffic.line) fun _ => .ite (.bind ?_ fun r => ?_) ?_
  · exact authLoop_keeps hI.toIgnores (readPacket_keeps hI.toIgnoresTraffic.line.reads)
  · exact .bind (recordExchange_keeps hI.toIgnoresTraffic.line) fun _ => .pure _
  · exact .bind (recordExchange_keeps hI.toIgnoresTraffic.line) fun _ => .pure _

theorem lookupName_keeps {find : Schema → Int} {request : M Unit}
    {add : Schema → Option Bytes → Nat → Except Fault (Schema × Bool)} {parseError missing : String}
    {name : Bytes} (hrequest : Keeps I request) :
    Keeps I (lookupName find request add parseError missing name) := by
  refine .bind getObj_keeps fun obj => .ite (.pure _) ?_
  refine .bind (composeTp_keeps hI.toIgnoresWriter hrequest) fun _ => ?_
  refine .bind (beeStreamSend_keeps hI.toIgnoresTraffic.line) fun _ => .ite ?_ (.pure _)
  exact lookupReceive_keeps hI.toIgnores (readPacket_keeps hI.toIgnoresTraffic.line.reads)
    (lookupParse_keeps hI.toIgnores)

theorem execute_keeps (hclose : Keeps I beeStreamClose) {P : Platform} (H : Heap) (r : Request) :
    Keeps I (execute P H r) := by
  have hsync : Keeps I nextSync :=
    fun w h => .bind (.get (.bind (.set (.pure (hI.counter w _ h)))))
  refine .bind hsync fun sync => .bind getObj_keeps fun obj => .bind (.lift _) fun value' => ?_
  refine .bind (fun w h => .modify (hI.writer w w.obj.tps _ h)) fun _ => ?_
  refine .bind (fun w h => .modify (hI.record w _ _ h)) fun _ => ?_
  refine .bind (beeStreamSend_keeps hI.toIgnoresTraffic.line) fun _ => .ite ?_ (.pure _)
  exact receive_keeps hI.toIgnores
    (beeStepRecvWith_keeps hI.toIgnoresTraffic.line.reads hI.toIgnoresTraffic.toIgnoresOutput hclose)

end Exchange

end BeePhp
