import BeePhp.Proofs.FailureProofs
import BeePhp.Proofs.FramingProofs
import BeePhp.Proofs.MethodsProofs
import BeePhp.Proofs.ResponseProofs
import BeePhp.Proofs.AuthProofs
import BeePhp.Proofs.RowsProofs
import BeePhp.Session

/-!
# Proofs: sessions

A connection that is ready is ready again when a request has been answered (`execute_answered`), so in a session
every method returns the answer to its own request (`session_returns`).
-/

namespace BeePhp

open Codec Program

/-! ## Methods that need no lookup -/

section Direct

variable {P : Platform} {w : World}

theorem knownNumber_eq_some {n no : Int} (h : knownNumber n = some no) : n = no ∧ no ≠ -1 := by
  unfold knownNumber at h
  split at h
  · cases h
  · next hne =>
    cases h
    exact ⟨rfl, hne⟩

/-- A name that the schema knows is not looked up. -/
theorem lookupName_known (find : Schema → Int) {request : M Unit}
    {add : Schema → Option Bytes → Nat → Except Fault (Schema × Bool)} {parseError missing : String} {name : Bytes}
    {no : Int} (h : find w.obj.schema = no) (hne : no ≠ -1) :
    lookupName find request add parseError missing name w = .ok (no, w) := by
  subst h
  exact (run_bind (getObj_run w)).trans (by rw [if_pos hne]; rfl)

theorem getSpacenoByName_known {space : Zval} {no : Int} (h : spaceKnown w.obj.schema space = some no) :
    getSpacenoByName P space w = .ok (no, w) ∧ no ≠ -1 := by
  cases space with
  | long n =>
    obtain ⟨rfl, hne⟩ := knownNumber_eq_some h
    exact ⟨rfl, hne⟩
  | str s =>
    obtain ⟨hno, hne⟩ := knownNumber_eq_some h
    exact ⟨lookupName_known (beeSchemaGetSidByString · s.val) hno hne, hne⟩
  | _ => cases h

theorem getIndexnoByName_known {spaceNo : Int} {index : Zval} {no : Int}
    (h : indexKnown w.obj.schema spaceNo (some index) = some no) :
    getIndexnoByName P spaceNo index w = .ok (no, w) ∧ no ≠ -1 := by
  cases index with
  | null =>
    cases h
    exact ⟨rfl, by decide⟩
  | long n =>
    obtain ⟨rfl, hne⟩ := knownNumber_eq_some h
    exact ⟨rfl, hne⟩
  | str s =>
    obtain ⟨hno, hne⟩ := knownNumber_eq_some h
    exact ⟨lookupName_known (beeSchemaGetIidByString · _ s.val) hno hne, hne⟩
  | _ => cases h

theorem withSpace_known {space : Zval} {no : Int} (h : spaceKnown w.obj.schema space = some no)
    (body : Int → M PVal) : withSpace P space body w = body no w := by
  obtain ⟨hrun, hne⟩ := @getSpacenoByName_known P w space no h
  rw [withSpace, run_bind hrun, if_neg hne]

theorem withIndex_known {spaceNo : Int} {index : Option Zval} {no : Int}
    (h : indexKnown w.obj.schema spaceNo index = some no) (body : Int → M PVal) :
    withIndex P spaceNo index body w = body no w := by
  cases index with
  | none =>
    cases h
    rfl
  | some index =>
    obtain ⟨hrun, hne⟩ := @getIndexnoByName_known P w spaceNo index no h
    simp only [withIndex]
    rw [run_bind hrun, if_neg hne]

theorem withLimit_known {zlimit : Option Zval} {limit : Int64} (h : limitKnown zlimit = some limit)
    (body : Int64 → M PVal) : withLimit zlimit body = body limit := by
  match zlimit, h with
  | none, h | some .null, h | some (.long _), h =>
    cases h
    rfl

theorem iteratorNames_ne : ∀ p ∈ iteratorNames, p.2 ≠ -1 := by
  simp [iteratorNames, iteratorEq, iteratorReq, iteratorAll, iteratorLt, iteratorLe, iteratorGe, iteratorGt,
    iteratorBitsetAllSet, iteratorBitsetAnySet, iteratorBitsetAllNotSet, iteratorOverlaps, iteratorNeighbor]

theorem convertIterator_known {iterator : Option Zval} {all : Bool} {id : Int}
    (h : iteratorKnown iterator all = some id) : convertIterator iterator all = pure id ∧ id ≠ -1 := by
  match iterator, h with
  | none, h | some .null, h =>
    cases h
    exact ⟨rfl, by cases all <;> decide⟩
  | some (.long n), h =>
    obtain ⟨rfl, hne⟩ := knownNumber_eq_some h
    exact ⟨rfl, hne⟩
  | some (.str i), h =>
    rw [iteratorKnown] at h
    obtain ⟨p, hp, rfl⟩ := Option.map_eq_some_iff.mp h
    exact ⟨by rw [convertIterator, hp], iteratorNames_ne p (List.mem_of_find?_eq_some hp)⟩

theorem packKey_run {H H' : Heap} {args : Option Zval} {select : Bool} {key : Zval}
    (h : (packKey H args select).toOption = some (H', key)) {α : Type} (body : Heap × Zval → M α) :
    (StateT.lift (packKey H args select) >>= body : M α) w = body (H', key) w :=
  run_bind (run_lift (toOption_eq_some.mp h) w)

theorem withArgs_known {H H' : Heap} {args ops : Zval}
    (h : (beeUpdateVerifyArgs H args).toOption = some (H', ops)) (body : Heap → Zval → M PVal) :
    withArgs H args body = body H' ops := by
  unfold withArgs
  rw [toOption_eq_some.mp h]

/-! ## Answers -/

theorem onDemand_connected {w₀ : World} (h : connectOnDemand P w₀ = .ok (true, w)) (body : M PVal) :
    onDemand P body w₀ = body w := by
  rw [onDemand, run_bind h, if_pos rfl]

theorem request_answered {H : Heap} {r : Request} {header body v : PVal} {w' : World}
    (hexecute : execute P H r w = .ok (some (header, body), w'))
    (hdata : body.data.map PVal.copyCtor = some v) : request P H r w = .ok (v, w') := by
  rw [request, run_bind hexecute]
  cases body with
  | arr entries next =>
    obtain ⟨answer, hfind, rfl⟩ := Option.map_eq_some_iff.mp hdata
    simp only [PVal.data] at hfind
    simp only [beeReturnData, hfind]
    rfl
  | _ => cases hdata

/-- The request of a method that needs no lookup, and what the method returns when it is answered. -/
theorem Op.direct_run {H H' : Heap} {op : Op} {r : Request} {w₀ : World}
    (h : op.direct w.obj.schema H = some (H', r)) (hconnect : connectOnDemand P w₀ = .ok (true, w)) :
    r.Proper ∧ r.Small ∧ ∀ header body v w', execute P H' r w = .ok (some (header, body), w') →
      op.answer body = some v → op.run P H w₀ = .ok (v, w') := by
  have hrequest (hasks : op.run P H w₀ = request P H' r w)
      (hanswer : ∀ body, op.answer body = body.data.map PVal.copyCtor) :
      ∀ header body v w', execute P H' r w = .ok (some (header, body), w') → op.answer body = some v →
        op.run P H w₀ = .ok (v, w') := by
    intro header body v w' hexecute hv
    rw [hanswer] at hv
    exact hasks.trans (request_answered hexecute hv)
  cases op with
  | ping =>
    cases h
    refine ⟨trivial, small_of_fields (by simp [Request.fields]), ?_⟩
    intro header body v w' hexecute hv
    cases hv
    exact (onDemand_connected hconnect _).trans ((run_bind hexecute).trans rfl)
  | select space key index zlimit offset iterator =>
    simp only [Op.direct, Option.bind_eq_bind, Option.bind_eq_some_iff, Option.pure_def, Option.some.injEq,
      Prod.mk.injEq] at h
    obtain ⟨limit, hlimit, spaceNo, hspace, indexNo, hindex, id, hiterator, ⟨H₁, key'⟩, hkey, rfl, rfl⟩ := h
    obtain ⟨hconvert, hne⟩ := convertIterator_known hiterator
    refine ⟨trivial, small_of_fields (by simp [Request.fields]), hrequest ?_ fun _ => rfl⟩
    rw [Op.run, Bee.select, onDemand_connected hconnect, withLimit_known hlimit, withSpace_known hspace,
      withIndex_known hindex, hconvert, pure_bind, if_neg hne, packKey_run hkey]
  | insert space tuple =>
    simp only [Op.direct, Option.bind_eq_bind, Option.bind_eq_some_iff, Option.pure_def, Option.some.injEq,
      Prod.mk.injEq] at h
    obtain ⟨spaceNo, hspace, rfl, rfl⟩ := h
    refine ⟨.inl rfl, small_of_fields (by simp [Request.fields]), hrequest ?_ fun _ => rfl⟩
    rw [Op.run, Bee.insert, onDemand_connected hconnect, withSpace_known hspace]
  | replace space tuple =>
    simp only [Op.direct, Option.bind_eq_bind, Option.bind_eq_some_iff, Option.pure_def, Option.some.injEq,
      Prod.mk.injEq] at h
    obtain ⟨spaceNo, hspace, rfl, rfl⟩ := h
    refine ⟨.inr rfl, small_of_fields (by simp [Request.fields]), hrequest ?_ fun _ => rfl⟩
    rw [Op.run, Bee.replace, onDemand_connected hconnect, withSpace_known hspace]
  | delete space key index =>
    simp only [Op.direct, Option.bind_eq_bind, Option.bind_eq_some_iff, Option.pure_def, Option.some.injEq,
      Prod.mk.injEq] at h
    obtain ⟨spaceNo, hspace, indexNo, hindex, ⟨H₁, key'⟩, hkey, rfl, rfl⟩ := h
    refine ⟨trivial, small_of_fields (by simp [Request.fields]), hrequest ?_ fun _ => rfl⟩
    rw [Op.run, Bee.delete, onDemand_connected hconnect, withSpace_known hspace, withIndex_known hindex,
      packKey_run hkey]
  | call proc tuple =>
    simp only [Op.direct, Option.bind_eq_bind, Option.bind_eq_some_iff, Option.pure_def, Option.some.injEq,
      Prod.mk.injEq] at h
    obtain ⟨⟨H₁, tuple'⟩, htuple, rfl, rfl⟩ := h
    refine ⟨trivial, (call_small proc tuple').1, hrequest ?_ fun _ => rfl⟩
    rw [Op.run, Bee.call, onDemand_connected hconnect, packKey_run htuple]
  | eval proc tuple =>
    simp only [Op.direct, Option.bind_eq_bind, Option.bind_eq_some_iff, Option.pure_def, Option.some.injEq,
      Prod.mk.injEq] at h
    obtain ⟨⟨H₁, tuple'⟩, htuple, rfl, rfl⟩ := h
    refine ⟨trivial, (call_small proc tuple').2, hrequest ?_ fun _ => rfl⟩
    rw [Op.run, Bee.eval, onDemand_connected hconnect, packKey_run htuple]
  | update space key args index =>
    simp only [Op.direct, Option.bind_eq_bind, Option.bind_eq_some_iff, Option.pure_def, Option.some.injEq,
      Prod.mk.injEq] at h
    obtain ⟨spaceNo, hspace, indexNo, hindex, ⟨H₁, args'⟩, hargs, ⟨H₂, key'⟩, hkey, rfl, rfl⟩ := h
    refine ⟨trivial, small_of_fields (by simp [Request.fields]), hrequest ?_ fun _ => rfl⟩
    rw [Op.run, Bee.update, onDemand_connected hconnect, withSpace_known hspace, withIndex_known hindex,
      withArgs_known hargs, packKey_run hkey]
  | upsert space tuple args =>
    simp only [Op.direct, Option.bind_eq_bind, Option.bind_eq_some_iff, Option.pure_def, Option.some.injEq,
      Prod.mk.injEq] at h
    obtain ⟨spaceNo, hspace, ⟨H₁, args'⟩, hargs, rfl, rfl⟩ := h
    refine ⟨trivial, small_of_fields (by simp [Request.fields]), hrequest ?_ fun _ => rfl⟩
    rw [Op.run, Bee.upsert, onDemand_connected hconnect, withSpace_known hspace, withArgs_known hargs]
  | _ => cases h

end Direct

/-! ## One request -/

/-- What reading an answer leaves as it is. -/
structure World.Reads (w w' : World) : Prop where
  exceptions : w'.exceptions = w.exceptions
  schema : w'.obj.schema = w.obj.schema
  syncCounter : w'.syncCounter = w.syncCounter
  sent : w'.sent = w.sent

theorem World.Reads.ignores (w : World) : IgnoresReads w.Reads where
  value := fun _ _ h => ⟨h.exceptions, h.schema, h.syncCounter, h.sent⟩
  stream := fun _ _ _ h => ⟨h.exceptions, h.schema, h.syncCounter, h.sent⟩
  greeting := fun _ _ h => ⟨h.exceptions, h.schema, h.syncCounter, h.sent⟩

section Receiving

variable {P : Platform} {I : World → Prop} (hI : IgnoresReads I)

/-- Nothing is said of a state in which an exception is thrown and no response returned. -/
theorem throwExc_then {x : M (Option (PVal × PVal))} (hx : ∀ w, Wlp x (fun r _ => r = none) w) {format : String}
    {args : List MsgArg} {Q : World → Prop} {w : World} :
    Wlp (throwExc format args >>= fun _ => x) (fun r w' => r.isSome → Q w') w := by
  refine .bind fun _ w₁ _ => (hx w₁).mono ?_
  rintro r w' rfl ⟨⟩

include hI

/-- A predicate that does not look at what is read is kept by `bee_step_recv` when it returns a response. -/
theorem beeStepRecv_answers {sync : UInt64} {w : World} (hw : I w) :
    Wlp (beeStepRecv P sync) (fun r w' => r.isSome → I w') w := by
  have hvalue {f : Connection → SmartString} : Keeps I (modifyObj fun obj => { obj with value := f obj }) :=
    fun w h => .modify (hI.value w _ h)
  refine .bind ((beeStreamRead_keeps hI w hw).mono fun r w₁ h₁ => ?_)
  refine .ite (fun _ => throwExc_then stepErrorCon_none) fun _ => .bind (.lift fun _ _ => ?_)
  refine .ite (fun _ => throwExc_then stepErrorCon_none) fun _ => .bind (.lift fun size _ => ?_)
  have hbody : Keeps I (readBody size) :=
    .bind hvalue fun _ => .bind getObj_keeps fun _ => readValue_keeps hI
  refine .bind ((hbody w₁ h₁).mono fun n w₂ h₂ => .ite (fun _ => throwExc_then stepError_none) fun _ => ?_)
  refine .bind (getObj_wlp (.bind (.lift fun value _ => .bind (.modify ?_))))
  intro r w' hrun hsome
  obtain ⟨⟨header, body⟩, rfl⟩ := Option.isSome_iff_exists.mp hsome
  have hend := stepDecode_run (stepDecode_some checkStatus P sync size _ _ w' hrun header body rfl)
  obtain ⟨-, rfl⟩ := Prod.mk.inj (Except.ok.inj (hrun.symm.trans hend))
  exact hI.value _ _ (hI.value _ _ h₂)

end Receiving

section Answering

variable {P : Platform} {w : World} {stream : Stream}

theorem longToUint32_ofNat (n : Nat) : longToUint32 (Int64.ofNat n) = UInt32.ofNat n := UInt64.toUInt32_ofNat' n

/-- A stream that is open and alive is not connected again. -/
theorem connectOnDemand_open (hstream : w.obj.stream = some stream)
    (halive : ∀ eof ∈ w.net.eofs.head?, eof = false) :
    ∃ eofs, connectOnDemand P w = .ok (true, { w with net := { w.net with eofs := eofs } }) := by
  have hclosed : connectClosed P w = .ok (true, w) :=
    (run_bind (getObj_run w)).trans (by rw [hstream]; rfl)
  have heof : ∃ eofs, phpStreamEof w = .ok (false, { w with net := { w.net with eofs := eofs } }) := by
    rw [phpStreamEof]
    split
    · next eof eofs heofs =>
      obtain rfl := halive eof (by simp [heofs])
      exact ⟨eofs, rfl⟩
    · exact ⟨w.net.eofs, rfl⟩
  obtain ⟨eofs, heof⟩ := heof
  refine ⟨eofs, ?_⟩
  rw [connectOnDemand, run_bind hclosed, if_pos rfl, run_bind (getObj_run w), hstream, Option.isSome_some,
    if_pos rfl, run_bind heof]
  rfl

/-- A send that gets through. -/
theorem beeStreamSend_through (request : Bool) (hstream : w.obj.stream = some stream)
    (hsends : ∀ n, w.net.writes.head? ≠ some (.failed n)) : beeStreamSend request w =
      .ok (true, { (w.handed request stream w.obj.value.data).cleared with own := [] }) := by
  have hwrite : phpStreamWrite w.obj.value.data { w with sent := w.sent ++ [w.record request] } =
      .ok (true, w.handed request stream w.obj.value.data) := by
    simp only [phpStreamWrite, hstream]
    split
    · next n writes heq => exact absurd (by rw [heq]; rfl) (hsends n)
    · rfl
  rw [beeStreamSend]
  refine (run_bind rfl).trans ((run_bind (getObj_run _)).trans ((run_bind hwrite).trans ?_))
  rw [if_pos rfl, run_bind (resetValue_run _)]
  rfl

theorem prepare_run {H : Heap} {r : Request} {value : SmartString} {c : Counts}
    (hencode : r.encode P.ndebug H w.obj.value (fun _ => 0) (longToUint32 w.syncCounter) = .ok (value, c)) :
    prepare P H r w = .ok (w.syncCounter, { w with
      syncCounter := w.syncCounter + 1, obj := { w.obj with value := value }, start := w.obj.value.len
      own := value.data.drop w.obj.value.len }) := by
  have hnext : nextSync w = .ok (w.syncCounter, { w with syncCounter := w.syncCounter + 1 }) := rfl
  exact (run_bind hnext).trans ((run_bind (getObj_run _)).trans (run_bind (run_lift hencode _)))

/-- One request was sent and answered. -/
structure World.Exchanged (w : World) (payload : Bytes) (w' : World) : Prop where
  ready : w'.Ready
  exceptions : w'.exceptions = w.exceptions
  schema : w'.obj.schema = w.obj.schema
  syncCounter : w'.syncCounter = w.syncCounter + 1
  sent : w'.sent.map (·.bytes) = w.sent.map (·.bytes) ++ [frame payload]

/-- The response at the front of the stream is received by the request with its sync. -/
theorem receive_answered {n : Nat} {sw : SeqWidth} {ps : List (Doc × Doc)} {d : Doc} (hok : OkResponse n sw ps d)
    {h b : PVal} (hh : docToPhp P.ndebug (.map sw (flatten ps)) = .ok h) (hb : docToPhp P.ndebug d = .ok b)
    (hstream : w.obj.stream = some { stream with
      inbox := frame ((Doc.map sw (flatten ps)).encode ++ d.encode) ++ [] })
    (hlen : w.obj.value.len = 0) (hlength : w.net.Prompt .length) (hother : w.net.Prompt .other) :
    ∃ w', receive P (Int64.ofNat n) w = .ok (some (h, b), w') ∧ w.Reads w' ∧
      w'.obj.stream = some { stream with inbox := [] } ∧ w'.obj.value.len = 0 := by
  let w₁ : World := { w with ahead := (w.obj.stream.map (·.inbox)).getD [] }
  obtain ⟨w₂, hstream₂, hlen₂, hrun, -⟩ :=
    @beeStepRecv_frame P n sw ps d hok (Int64.ofNat n).toUInt64 w₁ stream [] hstream hlen hlength hother
  have hrun := hrun h b rfl hh hb
  have hreads := beeStepRecv_answers (World.Reads.ignores w₁) ⟨rfl, rfl, rfl, rfl⟩ _ _ hrun rfl
  let used : Awaited := ⟨longToUint32 (Int64.ofNat n), w₂.ahead⟩
  refine ⟨{ w₂ with used := w₂.used ++ [used] }, ?_, ⟨hreads.exceptions, hreads.schema, hreads.syncCounter,
    hreads.sent⟩, hstream₂, hlen₂⟩
  have hawait : awaitResponse w = .ok ((), w₁) := rfl
  exact (run_bind hawait).trans ((run_bind hrun).trans rfl)

/-- On a connection that is ready a request is sent alone, and its response returned. -/
theorem execute_answered {n : Nat} (hn : w.syncCounter = Int64.ofNat n) (hlt : n < 2 ^ 32) (hready : w.Ready)
    {H : Heap} {r : Request} (hproper : r.Proper) (hsmall : r.Small) (hshort : (r.payload H (UInt32.ofNat n)).length < 2 ^ 32)
    (hsends : ∀ n, w.net.writes.head? ≠ some (.failed n)) (hlength : w.net.Prompt .length)
    (hother : w.net.Prompt .other) {body : PVal} (hanswers : Answers P w.net (UInt32.ofNat n) body) :
    ∃ header w', execute P H r w = .ok (some (header, body), w') ∧
      w.Exchanged (r.payload H (UInt32.ofNat n)) w' := by
  obtain ⟨⟨stream, hstream, hinbox, hpending⟩, hlen⟩ := hready
  obtain ⟨sw, ps, d, h, later, hok, hreplies, hh, hb⟩ := hanswers
  rw [UInt32.toNat_ofNat_of_lt' hlt] at hok
  set payload := r.payload H (UInt32.ofNat n) with hpayload
  obtain ⟨value, hencode, hdata⟩ := r.encodes P.ndebug H w.obj.value hproper hsmall (UInt32.ofNat n)
  have hempty : w.obj.value.data = [] := by rw [SmartString.data, hlen, List.take_zero]
  have hframe : value.data = frame payload := by
    rw [hdata, hempty, ← hpayload, toUint32, Nat.mod_eq_of_lt hshort]
    rfl
  rw [← longToUint32_ofNat, ← hn] at hencode
  let w₁ : World := { w with
    syncCounter := w.syncCounter + 1, obj := { w.obj with value := value }, start := w.obj.value.len
    own := value.data.drop w.obj.value.len }
  have hprepare : prepare P H r w = .ok (w.syncCounter, w₁) := prepare_run hencode
  have hsend := @beeStreamSend_through w₁ stream true hstream hsends
  rw [show w₁.obj.value.data = frame payload from hframe] at hsend
  -- the whole request gets through, so one response comes
  have hdeliver : stream.deliver w.net.replies (frame payload) =
      (⟨frame ((Doc.map sw (flatten ps)).encode ++ d.encode) ++ [], [], stream.identity⟩, later) := by
    have hone := @deliver_frames stream hpending [payload] (by simpa using hshort) w.net.replies
    simpa [hinbox, hreplies, takeReplies] using hone
  obtain ⟨w₃, hreceive, hreads, hstream₃, hlen₃⟩ := @receive_answered P
    { (w₁.handed true stream (frame payload)).cleared with own := [] } ⟨[], [], stream.identity⟩ n sw ps d hok h body
    hh hb (congrArg (fun r : Stream × List Bytes => some r.1) hdeliver) rfl hlength hother
  refine ⟨h, w₃, ?_, ⟨⟨_, hstream₃, rfl, rfl⟩, hlen₃⟩, hreads.exceptions, hreads.schema, hreads.syncCounter, ?_⟩
  · rw [execute_eq, run_bind hprepare, run_bind hsend, if_pos rfl, hn]
    exact hreceive
  · have hsent : w₃.sent = w.sent ++ [w₁.record true] := hreads.sent
    rw [hsent, List.map_append, List.map_singleton, World.record, hframe]

end Answering

/-! ## Runs -/

/-- One method of a session. -/
theorem Step.run_answered {P : Platform} {n : Nat} {w : World} (hn : w.syncCounter = Int64.ofNat n)
    (hlt : n < 2 ^ 32) (hready : w.Ready) {s : Step} {H : Heap} {r : Request}
    (hdirect : s.op.direct w.obj.schema s.heap = some (H, r))
    (hshort : (r.payload H (UInt32.ofNat n)).length < 2 ^ 32) (hobliging : s.net.Obliging) {body v : PVal}
    (hanswers : Answers P s.net (UInt32.ofNat n) body) (hv : s.op.answer body = some v) :
    ∃ w', s.run P w = .ok (v, w') ∧ w.Exchanged (r.payload H (UInt32.ofNat n)) w' := by
  obtain ⟨⟨stream, hstream, hempty⟩, hlen⟩ := hready
  let w₁ : World := { w with net := s.net }
  obtain ⟨eofs, hconnect⟩ := @connectOnDemand_open P w₁ stream hstream hobliging.alive
  let w₂ : World := { w₁ with net := { s.net with eofs := eofs } }
  obtain ⟨hproper, hsmall, hrun⟩ := @Op.direct_run P w₂ s.heap H s.op r w₁ hdirect hconnect
  obtain ⟨header, w₃, hexecute, hexchanged⟩ := @execute_answered P w₂ n hn hlt ⟨⟨stream, hstream, hempty⟩, hlen⟩
    H r hproper hsmall hshort hobliging.sends hobliging.length hobliging.other body hanswers
  have hnet : (modify fun w => { w with net := s.net } : M Unit) w = .ok ((), w₁) := rfl
  exact ⟨w₃, (run_bind hnet).trans (hrun header body v w₃ hexecute hv), ⟨hexchanged.ready, hexchanged.exceptions,
    hexchanged.schema, hexchanged.syncCounter, hexchanged.sent⟩⟩

/-- In a session on a connection that is ready exactly the requests of the methods are sent, one after the other,
every method returns the data of the response to its own request, nothing is thrown, and the connection is ready
again; as long as the counter fits into a sync. -/
theorem session_returns {P : Platform} {n : Nat} {w : World} {steps : List Step} {calls : List (Bytes × PVal)}
    (h : Session P w.obj.schema n steps calls) (hready : w.Ready) (hn : w.syncCounter = Int64.ofNat n)
    (hage : n + steps.length ≤ 2 ^ 32) :
    ∃ w', steps.mapM (Step.run P) w = .ok (calls.map Prod.snd, w') ∧ w'.Ready ∧
      w'.sent.map (·.bytes) = w.sent.map (·.bytes) ++ calls.map Prod.fst ∧ w'.exceptions = w.exceptions ∧
      w'.obj.schema = w.obj.schema ∧ w'.syncCounter = Int64.ofNat (n + steps.length) := by
  generalize hschema : w.obj.schema = schema at h
  induction h generalizing w with
  | nil => exact ⟨w, rfl, hready, (List.append_nil _).symm, rfl, hschema, hn⟩
  | @cons n s H r body v steps calls hdirect hshort hobliging hanswers hv _ ih =>
    subst hschema
    rw [List.length_cons] at hage
    have hlt : n < 2 ^ 32 := by omega
    obtain ⟨w₁, hrun, h₁⟩ := Step.run_answered hn hlt hready hdirect hshort hobliging hanswers hv
    have hn₁ : w₁.syncCounter = Int64.ofNat (n + 1) := by
      rw [h₁.syncCounter, hn, Int64.ofNat_add]
      rfl
    obtain ⟨w₂, hrest, hready₂, hsent, hexceptions, hschema, hcounter⟩ := ih h₁.ready hn₁ (by omega) h₁.schema
    refine ⟨w₂, ?_, hready₂, ?_, hexceptions.trans h₁.exceptions, hschema, ?_⟩
    · rw [List.mapM_cons, run_bind hrun, run_bind hrest]
      rfl
    · rw [hsent, h₁.sent, List.append_assoc]
      rfl
    · rw [hcounter, List.length_cons, Nat.add_assoc, Nat.add_comm 1]

/-- A ping. -/
def pinged : Step := ⟨{ Net.calm with replies := [okReply 0 [0x80]] }, [], .ping⟩

/-- A call of `f` with no arguments that returns a 5. -/
def calledF : Step where
  net := { Net.calm with replies := [okReply 1 [0x81, 0x30, 0x91, 0x05]] }
  heap := []
  op := .call ⟨ascii "f", by decide⟩ none

theorem session_returns_call : ∃ w', [pinged, calledF].mapM (Step.run (.blank false)) (.linked []) =
      .ok ([.bool true, .arr [(.idx 0, .long 5)] 1], w') ∧ w'.Ready ∧
    w'.sent.map (·.bytes) = [frame (Request.ping.payload [] 0),
      frame ((Request.call (ascii "f") (.arr 0)).payload [.ofList []] 1)] ∧
    w'.exceptions = [] ∧ w'.obj.schema = .empty ∧ w'.syncCounter = 2 := by
  have hcalm (replies : List Bytes) : Net.Obliging { Net.calm with replies := replies } :=
    ⟨nofun, nofun, nofun, nofun⟩
  have hping : Answers (.blank false) pinged.net 0 (.arr [] 0) :=
    ⟨.fix, shortHeader 0, .map .fix [], _, [], okResponse_short (by decide) (by decide)
      (by simp [Representable, PairsRepresentable]) (by decide), rfl, rfl, rfl⟩
  have hcall : Answers (.blank false) calledF.net 1 (.arr [(.idx 0x30, .arr [(.idx 0, .long 5)] 1)] 0x31) :=
    ⟨.fix, shortHeader 1, .map .fix [.uint .fix 0x30, .array .fix [.uint .fix 5]], _, [],
      okResponse_short (by decide) (by decide)
      (by simp [Representable, PairsRepresentable, AllRepresentable, isKeyDoc]) (by decide), rfl, rfl, rfl⟩
  have hsession : Session (.blank false) .empty 0 [pinged, calledF] _ :=
    .cons rfl (by decide +kernel) (hcalm _) hping rfl (.cons rfl (by decide +kernel) (hcalm _) hcall rfl .nil)
  exact session_returns (w := .linked []) hsession ⟨⟨_, rfl, rfl, rfl⟩, rfl⟩ rfl (by decide)

end BeePhp
