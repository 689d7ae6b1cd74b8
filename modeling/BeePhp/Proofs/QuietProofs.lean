import BeePhp.Proofs.KeepsProofs
import BeePhp.Proofs.NetworkProofs

/-!
# Proofs: what receiving and composing leave alone

`Quiet w w'` says that between `w` and `w'` nothing was sent, no stream was opened and nobody was
authenticated. Everything but the sending, opening and authenticating itself is quiet.
-/

namespace BeePhp

open Codec Program

structure Quiet (w w' : World) : Prop where
  sent : w'.sent = w.sent
  exchanges : w'.exchanges = w.exchanges
  login : w'.obj.login = w.obj.login
  passwd : w'.obj.passwd = w.obj.passwd
  isPersistent : w'.isPersistent = w.isPersistent
  net : w.net.Later w'.net
  stream : w'.obj.stream = none ∨ ∃ s s', w.obj.stream = some s ∧ w'.obj.stream = some s' ∧
    s'.pending = s.pending ∧ s'.identity = s.identity

theorem stream_refl (w : World) : w.obj.stream = none ∨ ∃ s s', w.obj.stream = some s ∧
    w.obj.stream = some s' ∧ s'.pending = s.pending ∧ s'.identity = s.identity := by
  cases h : w.obj.stream with
  | none => exact .inl rfl
  | some s => exact .inr ⟨s, s, rfl, rfl, rfl, rfl⟩

theorem Quiet.refl (w : World) : Quiet w w :=
  ⟨rfl, rfl, rfl, rfl, rfl, Net.Later.refl _, stream_refl w⟩

theorem Quiet.trans {a b c : World} (hab : Quiet a b) (hbc : Quiet b c) : Quiet a c where
  sent := hbc.sent.trans hab.sent
  exchanges := hbc.exchanges.trans hab.exchanges
  login := hbc.login.trans hab.login
  passwd := hbc.passwd.trans hab.passwd
  isPersistent := hbc.isPersistent.trans hab.isPersistent
  net := hab.net.trans hbc.net
  stream := by
    rcases hbc.stream with hc | ⟨s₁, s₂, hb, hc, hpending, hidentity⟩
    · exact .inl hc
    · rcases hab.stream with hb' | ⟨s₀, s₁', ha, hb', hpending', hidentity'⟩
      · rw [hb] at hb'
        cases hb'
      · obtain rfl := Option.some.inj (hb.symm.trans hb')
        exact .inr ⟨s₀, s₂, ha, hc, hpending.trans hpending', hidentity.trans hidentity'⟩

theorem Quiet.credentials {w w' : World} (h : Quiet w w') :
    w'.obj.credentials = w.obj.credentials := by
  simp only [Connection.credentials, h.login, h.passwd]

/-- A program is quiet when all its runs are. -/
def IsQuiet {α : Type} (x : M α) : Prop := ∀ w, Wlp x (fun _ => Quiet w) w

section Rules

variable {α β : Type}

theorem IsQuiet.pure {a : α} : IsQuiet (Pure.pure a) := fun w => .pure (Quiet.refl w)

theorem IsQuiet.bind {x : M α} {f : α → M β} (hx : IsQuiet x) (hf : ∀ a, IsQuiet (f a)) :
    IsQuiet (x >>= f) :=
  fun w => .bind ((hx w).mono fun a w' h => (hf a w').mono fun _ _ h' => h.trans h')

theorem IsQuiet.ite {p : Prop} [Decidable p] {x y : M α} (hx : IsQuiet x) (hy : IsQuiet y) :
    IsQuiet (if p then x else y) :=
  fun w => .ite (fun _ => hx w) (fun _ => hy w)

theorem IsQuiet.throw {e : Fault} : IsQuiet (MonadExceptOf.throw e : M α) := fun _ => Wlp.throw

theorem IsQuiet.lift {x : Except Fault α} : IsQuiet (StateT.lift x : M α) :=
  fun w => Wlp.lift fun _ _ => Quiet.refl w

theorem IsQuiet.modify {f : World → World} (h : ∀ w, Quiet w (f w)) :
    IsQuiet (modifyThe World f : M PUnit) := fun w => Wlp.modify (h w)

theorem IsQuiet.getObj : IsQuiet getObj := fun w => getObj_wlp (Quiet.refl w)

theorem IsQuiet.keeps {x : M α} (h : IsQuiet x) (w : World) : Keeps (Quiet w) x :=
  fun w' hw' => (h w').mono fun _ _ h' => hw'.trans h'

theorem IsQuiet.of_keeps {x : M α} (h : ∀ w, Keeps (Quiet w) x) : IsQuiet x :=
  fun w => h w w (Quiet.refl w)

end Rules

theorem Quiet.ignores (w : World) : Ignores (Quiet w) where
  exceptions := fun w' _ h =>
    h.trans ⟨rfl, rfl, rfl, rfl, rfl, Net.Later.refl _, stream_refl w'⟩
  schema := fun w' _ h => h.trans ⟨rfl, rfl, rfl, rfl, rfl, Net.Later.refl _, stream_refl w'⟩
  records := fun w' _ _ _ h => h.trans ⟨rfl, rfl, rfl, rfl, rfl, Net.Later.refl _, stream_refl w'⟩

theorem Quiet.ignoresWriter (w : World) : IgnoresWriter (Quiet w) where
  writer := fun w' _ _ h => h.trans ⟨rfl, rfl, rfl, rfl, rfl, Net.Later.refl _, stream_refl w'⟩
  counter := fun w' _ h => h.trans ⟨rfl, rfl, rfl, rfl, rfl, Net.Later.refl _, stream_refl w'⟩
  record := fun w' _ _ h => h.trans ⟨rfl, rfl, rfl, rfl, rfl, Net.Later.refl _, stream_refl w'⟩

/-! ## Small programs -/

theorem throwExc_quiet {format : String} {args : List MsgArg} : IsQuiet (throwExc format args) :=
  .of_keeps fun w => throwExc_keeps (Quiet.ignores w).toIgnoresOutput

/-- A change to the connection that concerns neither its stream nor its credentials. -/
theorem modifyObj_quiet {f : Connection → Connection} (hlogin : ∀ obj, (f obj).login = obj.login)
    (hpasswd : ∀ obj, (f obj).passwd = obj.passwd) (hstream : ∀ obj, (f obj).stream = obj.stream) :
    IsQuiet (modifyObj f) :=
  .modify fun w => ⟨rfl, rfl, hlogin _, hpasswd _, rfl, Net.Later.refl _, by
    rw [show (f w.obj).stream = w.obj.stream from hstream _]
    exact stream_refl w⟩

theorem nextSync_quiet : IsQuiet nextSync :=
  fun w => .bind (.get (.bind (.set (.pure
    ⟨rfl, rfl, rfl, rfl, rfl, Net.Later.refl _, stream_refl w⟩))))

theorem beeStreamClose_quiet : IsQuiet beeStreamClose :=
  .modify fun _ => ⟨rfl, rfl, rfl, rfl, rfl, Net.Later.refl _, .inl rfl⟩

theorem resetValue_quiet : IsQuiet resetValue :=
  .bind .getObj fun _ => .bind .lift fun _ =>
    modifyObj_quiet (fun _ => rfl) (fun _ => rfl) fun _ => rfl

/-! ## Reading -/

theorem phpStreamRead_quiet {kind : ReadKind} {size : Nat} : IsQuiet (phpStreamRead kind size) := by
  intro w
  cases hstream : w.obj.stream with
  | none =>
    intro a w' hrun
    simp [phpStreamRead, hstream] at hrun
  | some stream =>
    intro a w' hrun
    obtain ⟨bs, w'', hread, -, -, rest, net, -, hlater, rfl⟩ := phpStreamRead_delivers kind size hstream
    obtain ⟨-, rfl⟩ := Prod.mk.inj (Except.ok.inj (hrun.symm.trans hread))
    exact ⟨rfl, rfl, rfl, rfl, rfl, hlater, .inr ⟨stream, _, hstream, rfl, rfl, rfl⟩⟩

theorem readLoop_quiet {β : Type} {kind : ReadKind} {store : Nat → Bytes → β → Except Fault β}
    {size fuel total : Nat} {buf : β} : IsQuiet (readLoop kind store size fuel total buf) := by
  induction fuel generalizing total buf with
  | zero => exact .throw
  | succ fuel ih =>
    refine .ite ?_ .pure
    refine .bind phpStreamRead_quiet fun bs => .bind .lift fun buf' => ?_
    exact .ite .pure ih

theorem beeStreamRead_quiet {β : Type} {kind : ReadKind} {store : Nat → Bytes → β → Except Fault β}
    {buf : β} {size : Nat} : IsQuiet (beeStreamRead kind store buf size) :=
  .bind (.bind readLoop_quiet fun _ => .pure) fun _ => .pure

theorem readLength_quiet {kind : ReadKind} : IsQuiet (readLength kind) := beeStreamRead_quiet

theorem readValue_quiet {kind : ReadKind} {pos size : Nat} : IsQuiet (readValue kind pos size) :=
  .bind .getObj fun _ => .bind beeStreamRead_quiet fun _ =>
    .bind (modifyObj_quiet (fun _ => rfl) (fun _ => rfl) fun _ => rfl) fun _ => .pure

theorem readPacket_quiet : IsQuiet readPacket := by
  refine .bind readLength_quiet fun n => .ite .pure (.bind .lift fun bodySize => ?_)
  refine .bind (modifyObj_quiet (fun _ => rfl) (fun _ => rfl) fun _ => rfl) fun _ => ?_
  exact .bind readValue_quiet fun _ => .ite .pure .pure

/-! ## `bee_step_recv` -/

theorem readBody_quiet {size : Nat} : IsQuiet (readBody size) :=
  .bind (modifyObj_quiet (fun _ => rfl) (fun _ => rfl) fun _ => rfl) fun _ =>
    .bind .getObj fun _ => readValue_quiet

theorem stepError_quiet : IsQuiet stepError := .bind resetValue_quiet fun _ => .pure

theorem stepErrorCon_quiet : IsQuiet stepErrorCon := .bind beeStreamClose_quiet fun _ => stepError_quiet

theorem stepDecode_quiet {check : Bytes → Nat → Except Fault Nat} {P : Platform} {sync : UInt64}
    {bodySize : Nat} : IsQuiet (stepDecode check P sync bodySize) := .of_keeps fun w =>
  stepDecode_keeps (Quiet.ignores w).toIgnoresOutput (beeStreamClose_quiet.keeps w) (resetValue_quiet.keeps w)

theorem beeStepRecvWith_quiet {check : Bytes → Nat → Except Fault Nat} {P : Platform} {sync : UInt64} :
    IsQuiet (beeStepRecvWith check P sync) := by
  refine .bind readLength_quiet fun n =>
    .ite (.bind throwExc_quiet fun _ => stepErrorCon_quiet) ?_
  refine .bind .lift fun _ => .ite (.bind throwExc_quiet fun _ => stepErrorCon_quiet) ?_
  refine .bind .lift fun bodySize => .bind readBody_quiet fun _ =>
    .ite (.bind throwExc_quiet fun _ => stepError_quiet) ?_
  refine .bind .getObj fun _ => .bind .lift fun _ => ?_
  exact .bind (modifyObj_quiet (fun _ => rfl) (fun _ => rfl) fun _ => rfl) fun _ => stepDecode_quiet

theorem receive_quiet {P : Platform} {sync : Int64} : IsQuiet (receive P sync) :=
  .of_keeps fun w => receive_keeps (Quiet.ignores w) (beeStepRecvWith_quiet.keeps w)

/-! ## Composing and awaiting -/

theorem authLoop_quiet {syncs : AuthSyncs} {n : Nat} {status granted : Bool} :
    IsQuiet (authLoop syncs n status granted) :=
  .of_keeps fun w => authLoop_keeps (Quiet.ignores w) (readPacket_quiet.keeps w)

theorem lookupParse_quiet {find : Schema → Int}
    {add : Schema → Option Bytes → Nat → Except Fault (Schema × Bool)} {parseError missing : String}
    {name : Bytes} : IsQuiet (lookupParse find add parseError missing name) :=
  .of_keeps fun w => lookupParse_keeps (Quiet.ignores w)

theorem lookupReceive_quiet {parse : M Int} (h : IsQuiet parse) : IsQuiet (lookupReceive parse) :=
  .of_keeps fun w => lookupReceive_keeps (Quiet.ignores w) (readPacket_quiet.keeps w) (h.keeps w)

/-- What is composed is the buffer afterwards, and it begins where the buffer ended before. -/
theorem composeTp_spec {α : Type} {body : M α} (hbody : IsQuiet body) (w : World) :
    Wlp (composeTp body) (fun _ w' => Quiet w w' ∧ w'.start = w.obj.value.len ∧
      w'.own = w'.obj.value.data) w := by
  refine .bind (getObj_wlp ?_)
  have hupdate : Quiet w { w with obj := { w.obj with tps := beeTpUpdate w.obj.tps w.obj.value } } :=
    ⟨rfl, rfl, rfl, rfl, rfl, Net.Later.refl _, stream_refl w⟩
  refine .bind (.modify (.bind ((hbody _).mono fun a w₁ hquiet => ?_)))
  refine .bind (getObj_wlp (.bind (.lift fun value hvalue => ?_)))
  refine .bind (.modify (.bind (.modify (.pure ⟨?_, rfl, rfl⟩))))
  exact hupdate.trans (hquiet.trans ⟨rfl, rfl, rfl, rfl, rfl, Net.Later.refl _, stream_refl w₁⟩)

theorem composeTp_quiet {α : Type} {body : M α} (hbody : IsQuiet body) : IsQuiet (composeTp body) :=
  fun w => (composeTp_spec hbody w).mono fun _ _ h => h.1

theorem spaceRequest_quiet {P : Platform} {name : Bytes} : IsQuiet (spaceRequest P name) :=
  .of_keeps fun w => spaceRequest_keeps (Quiet.ignoresWriter w)

theorem indexRequest_quiet {P : Platform} {spaceNo : Int} {name : Bytes} :
    IsQuiet (indexRequest P spaceNo name) :=
  .of_keeps fun w => indexRequest_keeps (Quiet.ignoresWriter w)

theorem authRequests_quiet {P : Platform} : IsQuiet (authRequests P) :=
  .of_keeps fun w => authRequests_keeps (Quiet.ignoresWriter w)

/-! ## Connecting -/

theorem renewPersistentId_quiet : IsQuiet renewPersistentId := by
  refine .modify fun w => ?_
  split
  · exact ⟨rfl, rfl, rfl, rfl, rfl, Net.Later.refl _, stream_refl w⟩
  · exact Quiet.refl w

theorem readGreeting_quiet : IsQuiet readGreeting :=
  .bind .getObj fun _ => .bind (.bind readLoop_quiet fun _ => .pure) fun _ =>
    .bind (modifyObj_quiet (fun _ => rfl) (fun _ => rfl) fun _ => rfl) fun _ => .pure

/-! ## The buffer stays empty -/

/-- Nothing is in the buffer. -/
def BufferEmpty (w : World) : Prop := w.obj.value.len = 0

theorem bufferEmpty_ignores : Ignores BufferEmpty :=
  ⟨⟨fun _ _ h => h, fun _ _ h => h⟩, fun _ _ _ _ h => h⟩

theorem modifyObj_empty {f : Connection → Connection}
    (h : ∀ obj, (f obj).value.len = obj.value.len) : Keeps BufferEmpty (modifyObj f) :=
  fun w hw => .modify ((h w.obj).trans hw)

theorem phpStreamRead_empty {kind : ReadKind} {size : Nat} :
    Keeps BufferEmpty (phpStreamRead kind size) := by
  intro w hw bs w' hrun
  simp only [phpStreamRead] at hrun
  split at hrun
  · cases hrun
  · obtain ⟨-, rfl⟩ := Prod.mk.inj (Except.ok.inj hrun)
    exact hw

/-- The destination keeps what every piece of a read keeps. -/
theorem readLoop_empty {β : Type} {kind : ReadKind} {store : Nat → Bytes → β → Except Fault β}
    {size : Nat} {Q : β → Prop} (hstore : ∀ off bs b b', store off bs b = .ok b' → Q b → Q b')
    {fuel total : Nat} {buf : β} (hbuf : Q buf) {w : World} (hw : BufferEmpty w) :
    Wlp (readLoop kind store size fuel total buf) (fun r w' => Q r.2 ∧ BufferEmpty w') w := by
  induction fuel generalizing total buf w with
  | zero => exact .throw
  | succ fuel ih =>
    refine .ite (fun _ => .bind ((phpStreamRead_empty w hw).mono fun bs w' hw' => ?_))
      fun _ => .pure ⟨hbuf, hw⟩
    refine .bind (.lift fun b' hb' => ?_)
    have hQ := hstore _ _ _ _ hb' hbuf
    exact .ite (fun _ => .pure ⟨hQ, hw'⟩) fun _ => ih hQ hw'

theorem beeStreamRead_empty {β : Type} {kind : ReadKind} {store : Nat → Bytes → β → Except Fault β}
    {buf : β} {size : Nat} {Q : β → Prop}
    (hstore : ∀ off bs b b', store off bs b = .ok b' → Q b → Q b') (hbuf : Q buf) {w : World}
    (hw : BufferEmpty w) :
    Wlp (beeStreamRead kind store buf size) (fun r w' => Q r.2 ∧ BufferEmpty w') w :=
  .bind (.bind ((readLoop_empty hstore hbuf hw).mono fun _ _ h => .pure (.pure h)))

theorem readArray_empty {kind : ReadKind} {buf : Bytes} {size : Nat} :
    Keeps BufferEmpty (readArray kind buf size) := fun _ hw =>
  (beeStreamRead_empty (Q := fun _ => True) (fun _ _ _ _ _ h => h) trivial hw).mono fun _ _ h => h.2

theorem readValue_empty {kind : ReadKind} {pos size : Nat} :
    Keeps BufferEmpty (readValue kind pos size) := by
  intro w hw
  refine .bind (getObj_wlp (.bind ?_))
  refine (beeStreamRead_empty (Q := fun str : SmartString => str.len = 0) ?_ hw hw).mono ?_
  · intro off bs b b' hb' hb
    exact (SmartString.write_eq_ok.mp hb').2.1.trans hb
  · rintro ⟨n, value⟩ w' ⟨hvalue, -⟩
    exact .bind (.modify (.pure hvalue))

theorem ensure_empty (n : Nat) :
    Keeps BufferEmpty (modifyObj fun obj => { obj with value := obj.value.ensure n }) :=
  modifyObj_empty fun obj => (obj.value.ensure_spec n).1

theorem readPacket_empty : Keeps BufferEmpty readPacket := by
  refine .bind readArray_empty fun r => .ite (.pure _) (.bind (.lift _) fun bodySize => ?_)
  exact .bind (ensure_empty _) fun _ => .bind readValue_empty fun _ => .ite (.pure _) (.pure _)

theorem readGreeting_empty : Keeps BufferEmpty readGreeting := by
  intro w hw
  refine .bind (getObj_wlp (.bind (.bind ?_)))
  refine (readLoop_empty (Q := fun _ => True) (fun _ _ _ _ _ h => h) trivial hw).mono ?_
  rintro r w' ⟨-, hw'⟩
  exact .pure (.bind (.modify (.pure hw')))

theorem renewPersistentId_empty : Keeps BufferEmpty renewPersistentId := by
  refine fun w hw => .modify ?_
  split
  · exact hw
  · exact hw

theorem authLoop_empty {syncs : AuthSyncs} {n : Nat} {status granted : Bool} :
    Keeps BufferEmpty (authLoop syncs n status granted) :=
  authLoop_keeps bufferEmpty_ignores readPacket_empty

/-! ## `bee_step_recv` empties the buffer -/

/-- Every run of the program leaves the buffer empty. -/
def Empties {α : Type} (x : M α) : Prop := ∀ w, Wlp x (fun _ => BufferEmpty) w

theorem Empties.bind {α β : Type} {x : M α} {f : α → M β} (h : ∀ a, Empties (f a)) :
    Empties (x >>= f) := fun _ => .bind fun a w' _ => h a w'

theorem Empties.ite {α : Type} {p : Prop} [Decidable p] {x y : M α} (hx : Empties x)
    (hy : Empties y) : Empties (if p then x else y) := fun w => .ite (fun _ => hx w) fun _ => hy w

theorem Empties.throw {α : Type} {e : Fault} : Empties (MonadExceptOf.throw e : M α) :=
  fun _ => Wlp.throw

theorem resetValue_empties {α : Type} {a : α} :
    Empties (do
      resetValue
      return a) := by
  intro w
  refine .bind fun _ w' hrun => .pure ?_
  rw [resetValue_run] at hrun
  obtain ⟨-, rfl⟩ := Prod.mk.inj (Except.ok.inj hrun)
  exact w.cleared_len

theorem stepError_empties : Empties stepError := resetValue_empties

theorem stepErrorCon_empties : Empties stepErrorCon := .bind fun _ => stepError_empties

theorem stepQueryError_empties {P : Platform} {code body : PVal} :
    Empties (stepQueryError P code body) := by
  cases body with
  | arr entries next =>
    simp only [stepQueryError]
    cases indexFind entries beexError with
    | none => exact .throw
    | some errstr =>
      cases errstr with
      | str s => exact .bind fun _ => stepError_empties
      | bin s => exact .ite (.bind fun _ => stepError_empties) .throw
      | _ => exact .throw
  | _ => exact .throw

theorem stepFinish_empties {P : Platform} {sync : UInt64} {header : List (Key × PVal)} {next : UInt64}
    {body : PVal} : Empties (stepFinish P sync header next body) := by
  simp only [stepFinish]
  refine .ite (.bind fun _ => stepErrorCon_empties) ?_
  cases indexFind header beexCode with
  | none => exact .bind fun _ => stepErrorCon_empties
  | some code => exact .ite resetValue_empties stepQueryError_empties

theorem unpackFailed_empties {h : Halt} {k : M (Option (PVal × PVal))} (hk : Empties k) :
    Empties (unpackFailed h k) := by
  cases h with
  | fault f => exact .throw
  | failure thrown =>
    cases thrown with
    | none => exact hk
    | some text => exact .bind fun _ => hk

theorem stepDecode_empties {check : Bytes → Nat → Except Fault Nat} {P : Platform} {sync : UInt64}
    {bodySize : Nat} : Empties (stepDecode check P sync bodySize) := by
  refine .bind fun obj => .bind fun _ => .ite (.bind fun _ => stepError_empties) ?_
  cases phpMpUnpack P.ndebug obj.value.c with
  | error e => exact unpackFailed_empties stepError_empties
  | ok r =>
    obtain ⟨h, pos⟩ := r
    cases h with
    | arr header next =>
      refine .bind fun _ => .ite (.bind fun _ => stepErrorCon_empties) ?_
      cases phpMpUnpack P.ndebug pos with
      | error e => exact unpackFailed_empties stepError_empties
      | ok r => exact stepFinish_empties
    | _ => exact stepError_empties

/-- However a response is received, the buffer is empty afterwards. -/
theorem beeStepRecvWith_empties {check : Bytes → Nat → Except Fault Nat} {P : Platform}
    {sync : UInt64} : Empties (beeStepRecvWith check P sync) := by
  refine .bind fun _ => .ite (.bind fun _ => stepErrorCon_empties) (.bind fun _ => ?_)
  refine .ite (.bind fun _ => stepErrorCon_empties) (.bind fun bodySize => .bind fun _ => ?_)
  refine .ite (.bind fun _ => stepError_empties) (.bind fun _ => .bind fun _ => .bind fun _ => ?_)
  exact stepDecode_empties

theorem receive_empties {P : Platform} {sync : Int64} : Empties (receive P sync) := by
  refine .bind fun _ w => .bind ((beeStepRecvWith_empties w).mono fun answer w' h => ?_)
  exact Keeps.ite (.bind (useResponse_keeps bufferEmpty_ignores) fun _ => .pure _) (.pure _) w' h

end BeePhp
