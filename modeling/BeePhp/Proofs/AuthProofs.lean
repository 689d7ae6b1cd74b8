import BeePhp.Authentication
import BeePhp.Proofs.ParsersProofs
import BeePhp.Proofs.SchemaProofs
import BeePhp.Proofs.SettledProofs
import Mathlib.Data.List.Permutation

/-!
# Proofs: authenticating

The loop of `__bee_authenticate` does to the cache what the part that each response answers says
(`AuthReplies.load`), and goes on with success as long as that succeeds. The order decides only through
the rows of indexes, which look for their spaces.
-/

namespace BeePhp

open Codec Program

/-! ## The batch -/

/-- The state with another writer and another counter. -/
def World.withTp (w : World) (s : TpState) (n : Int64) : World :=
  { w with obj := { w.obj with tps := s.tp, value := s.str }, syncCounter := n }

section Batch

variable {P : Platform} (w : World)

@[simp] theorem World.withTp_writer (s : TpState) (n : Int64) : (w.withTp s n).writer = s := rfl

@[simp] theorem World.withTp_syncCounter (s : TpState) (n : Int64) :
    (w.withTp s n).syncCounter = n := rfl

@[simp] theorem World.withTp_withTp (s s' : TpState) (n n' : Int64) :
    (w.withTp s n).withTp s' n' = w.withTp s' n' := rfl

theorem except_bind_assoc {ε α β γ : Type} (x : Except ε α) (f : α → Except ε β)
    (g : β → Except ε γ) : (x.bind f).bind g = x.bind fun a => (f a).bind g := by
  cases x <;> rfl

theorem runTp_bind {α : Type} (x : TpM Unit) (k : Unit → M α) :
    (runTp x >>= k) w = (x w.writer).bind fun r => k () (w.withTp r.2 w.syncCounter) := by
  have hrun : (runTp x >>= k) w = ((StateT.lift (x w.writer) >>= fun r => modifyObj fun obj =>
      { obj with tps := r.2.tp, value := r.2.str }) >>= k : M α) w := rfl
  rw [hrun]
  cases x w.writer <;> rfl

theorem reqidNext_bind {α : Type} (k : UInt32 → M α) :
    (reqidNext P >>= k) w = (tpReqid P.ndebug (longToUint32 w.syncCounter) w.writer).bind fun r =>
      k (longToUint32 w.syncCounter) (w.withTp r.2 (w.syncCounter + 1)) := by
  have hnext : (reqidNext P >>= k) w = (runTp (tpReqid P.ndebug (longToUint32 w.syncCounter)) >>=
      fun _ => k (longToUint32 w.syncCounter)) { w with syncCounter := w.syncCounter + 1 } := by
    simp only [reqidNext, bind_assoc, pure_bind]
    rfl
  rw [hnext, runTp_bind]
  rfl

theorem runCalls_cons (c : TpCall) (cs : List TpCall) (s : TpState) :
    runCalls P (c :: cs) s = (c.run P s).bind fun r => runCalls P cs r.2 := rfl

/-- The syncs of the batch. -/
def AuthSyncs.from (n : Int64) : AuthSyncs :=
  ⟨longToUint32 n, longToUint32 (n + 1), longToUint32 (n + 1 + 1)⟩

/-- The calls of tp.h that write the batch. -/
def World.batchCalls : List TpCall :=
  authCalls w.obj.salt w.obj.login w.obj.passwd (longToUint32 w.syncCounter)
    (longToUint32 (w.syncCounter + 1)) (longToUint32 (w.syncCounter + 1 + 1))

theorem authRequests_eq : authRequests P w = (runCalls P w.batchCalls w.writer).bind fun r =>
    .ok (.from w.syncCounter, w.withTp r.2 (w.syncCounter + 1 + 1 + 1)) := by
  have hobj : authRequests P w = (do
      runTp (tpAuth P.ndebug P.scramble w.obj.salt w.obj.login w.obj.passwd)
      let auth ← reqidNext P
      runTp (tpSelect P.ndebug spaceSpace 0 0 4096)
      runTp (tpKey P.ndebug 0)
      let space ← reqidNext P
      runTp (tpSelect P.ndebug spaceIndex 0 0 4096)
      runTp (tpKey P.ndebug 0)
      let index ← reqidNext P
      return ⟨auth, space, index⟩ : M AuthSyncs) w := rfl
  rw [hobj]
  simp only [runTp_bind, reqidNext_bind, World.batchCalls, authCalls, runCalls_cons, TpCall.run,
    except_bind_assoc, World.withTp_writer, World.withTp_syncCounter, World.withTp_withTp]
  rfl

theorem spaceRequest_eq (name : Bytes) (w : World) : spaceRequest P name w =
    (runCalls P (spaceCalls name (longToUint32 w.syncCounter)) w.writer).bind fun r =>
      .ok ((), w.withTp r.2 (w.syncCounter + 1)) := by
  have hrun : spaceRequest P name w = (do
      runTp (tpSelect P.ndebug spaceSpace indexSpaceName 0 4096)
      runTp (tpKey P.ndebug 1)
      runTp (tpEncodeStr P.ndebug name)
      let _ ← reqidNext P
      return () : M Unit) w := rfl
  rw [hrun]
  simp only [runTp_bind, reqidNext_bind, spaceCalls, runCalls_cons, TpCall.run, except_bind_assoc,
    World.withTp_writer, World.withTp_syncCounter, World.withTp_withTp]
  rfl

theorem indexRequest_eq (spaceNo : Int) (name : Bytes) (w : World) : indexRequest P spaceNo name w =
    (runCalls P (indexCalls (toSize spaceNo) name (longToUint32 w.syncCounter)) w.writer).bind fun r =>
      .ok ((), w.withTp r.2 (w.syncCounter + 1)) := by
  have hrun : indexRequest P spaceNo name w = (do
      runTp (tpSelect P.ndebug spaceIndex indexIndexName 0 4096)
      runTp (tpKey P.ndebug 2)
      runTp (tpEncodeUint P.ndebug (toSize spaceNo))
      runTp (tpEncodeStr P.ndebug name)
      let _ ← reqidNext P
      return () : M Unit) w := rfl
  rw [hrun]
  simp only [runTp_bind, reqidNext_bind, indexCalls, runCalls_cons, TpCall.run,
    except_bind_assoc, World.withTp_writer, World.withTp_syncCounter, World.withTp_withTp]
  rfl

theorem authRequests_syncs :
    Wlp (authRequests P) (fun syncs _ => syncs = .from w.syncCounter) w := by
  intro syncs w' hrun
  rw [authRequests_eq] at hrun
  cases hcalls : runCalls P w.batchCalls w.writer with
  | error e => simp [hcalls, Except.bind] at hrun
  | ok r =>
    rw [hcalls] at hrun
    exact (Prod.mk.inj (Except.ok.inj hrun)).1.symm

end Batch

/-- Requests are composed when they can be written and the buffer holds them. -/
theorem composeTp_run {α : Type} {body : M α} {w w' : World} {a : α} {value : SmartString}
    (hbody : body { w with obj := { w.obj with tps := beeTpUpdate w.obj.tps w.obj.value } } =
      .ok (a, w')) (hlen : w'.obj.value.setLen (tpUsed w'.obj.tps) = .ok value) :
    ∃ w'', composeTp body w = .ok (a, w'') := by
  refine ⟨{ w' with
    obj := { w'.obj with value := value, tps := beeTpFlush w'.obj.tps }
    start := w.obj.value.len, own := value.data }, ?_⟩
  rw [composeTp, run_bind (getObj_run w), run_bind (show modifyObj (fun obj =>
    { obj with tps := beeTpUpdate obj.tps obj.value }) w = .ok ((), _) from rfl), run_bind hbody,
    run_bind (getObj_run w'), run_bind (run_lift hlen w')]
  rfl

theorem composeTp_returns {α : Type} {body : M α} {w : World} {Q : α → Prop}
    (h : ∀ w₁ : World, w₁.syncCounter = w.syncCounter → Wlp body (fun a _ => Q a) w₁) :
    Wlp (composeTp body) (fun a _ => Q a) w := by
  refine .bind (getObj_wlp (.bind (.modify (.bind ?_))))
  let w₁ : World := { w with obj := { w.obj with tps := beeTpUpdate w.obj.tps w.obj.value } }
  refine (h w₁ rfl).mono fun a w' ha => ?_
  exact .bind (getObj_wlp (.bind (.lift fun _ _ => .bind (.modify (.bind (.modify (.pure ha)))))))

/-- The syncs of three requests in a row are distinct. -/
theorem AuthSyncs.from_distinct (n : Int64) : (AuthSyncs.from n).space ≠ (AuthSyncs.from n).auth ∧
    (AuthSyncs.from n).index ≠ (AuthSyncs.from n).space ∧
    (AuthSyncs.from n).index ≠ (AuthSyncs.from n).auth := by
  have hnext (n : Int64) : longToUint32 (n + 1) = longToUint32 n + 1 := by
    rw [longToUint32, Int64.toUInt64_add, UInt64.toUInt32_add]
    rfl
  simp only [AuthSyncs.from, hnext, ne_eq, ← UInt32.toNat_inj, UInt32.toNat_add, UInt32.toNat_one]
  omega

/-! ## The responses -/

theorem valueAt_eq_none {k : Nat} {fs : List Entry} (h : k ∉ fs.map Entry.key) : valueAt k fs = none := by
  cases hvalue : valueAt k fs with
  | none => rfl
  | some d =>
    obtain ⟨f, hf, hkey, -⟩ := valueAt_some hvalue
    exact absurd (hkey ▸ List.mem_map_of_mem hf) h

/-- Where the keys are distinct and have 32 bits, there is one entry for each. -/
theorem valueAt32_eq {k : Nat} {fs : List Entry} (hkeys : ∀ f ∈ fs, f.key < 2 ^ 32)
    (hdistinct : (fs.map Entry.key).Nodup) : valueAt32 k fs = valueAt k fs := by
  induction fs with
  | nil => rfl
  | cons f fs ih =>
    obtain ⟨hkey, hkeys⟩ := List.forall_mem_cons.mp hkeys
    obtain ⟨hnot, hdistinct⟩ := List.nodup_cons.mp hdistinct
    have hlow : f.key % 2 ^ 32 = f.key := Nat.mod_eq_of_lt hkey
    rw [valueAt32_cons, valueAt, hlow, ih hkeys hdistinct]
    by_cases hk : f.key = k
    · rw [valueAt_eq_none (hk ▸ hnot), if_pos hk, Option.none_or]
    · rw [if_neg hk, if_neg hk, Option.or_none]

theorem valueAt_of_mem {f : Entry} {fs : List Entry} (hdistinct : (fs.map Entry.key).Nodup)
    (hf : f ∈ fs) : valueAt f.key fs = some f.value := by
  induction fs with
  | nil => cases hf
  | cons f' fs ih =>
    obtain ⟨hnot, hdistinct⟩ := List.nodup_cons.mp hdistinct
    rw [valueAt]
    rcases List.mem_cons.mp hf with rfl | hf
    · rw [if_pos rfl]
    · have hne : f'.key ≠ f.key := fun h => hnot (h ▸ List.mem_map_of_mem hf)
      rw [if_neg hne, ih hdistinct hf]

namespace OkReply

variable (r : OkReply)

theorem body_typed : BodyTyped r.body := by
  refine ⟨fun f hf hkey => ?_, fun f hf hkey => ?_⟩
  all_goals
    have hlt := r.body_keys f hf
    rw [Nat.mod_eq_of_lt (by omega)] at hkey
  · exact absurd hkey (valueAt_none r.no_error f hf)
  · have hvalue := valueAt_of_mem r.body_distinct hf
    rw [hkey] at hvalue
    exact r.data_array _ hvalue

/-- The documents of a short response are short. -/
theorem short (h : r.payload.length < 2 ^ 31) :
    (Doc.map r.headWidth (entryDocs r.header)).encode.length < 2 ^ 31 ∧
      (Doc.map r.bodyWidth (entryDocs r.body)).encode.length < 2 ^ 31 := by
  rw [payload, List.length_append] at h
  omega

/-- The data of a short response are well-formed and short. -/
theorem data_fits (h : r.payload.length < 2 ^ 31) {d : Doc}
    (hdata : valueAt beexData.toNat r.body = some d) : d.WF ∧ Light d ∧ d.encode.length < 2 ^ 32 := by
  obtain ⟨f, hf, -, rfl⟩ := valueAt_some hdata
  have hmem : f.value ∈ entryDocs r.body := mem_flatten.mpr ⟨_, List.mem_map_of_mem hf, .inr rfl⟩
  have hle := @Doc.encode_le_of_mem (.map r.bodyWidth (entryDocs r.body)) _ hmem
  have hshort := (r.short h).2
  exact ⟨(allWF_iff _).mp r.body_wf.2 _ hmem, light_of_length (by omega), by omega⟩

/-- What `php_tp_response` fills in for an OK response. -/
structure Read (response : BeexResponse) : Prop where
  sync : response.sync = r.sync
  code : response.code = 0
  error : response.error = none
  data : ∀ d, valueAt beexData.toNat r.body = some d →
    response.dataLen = d.encode.length ∧ ∃ tail, response.data = some (d.encode ++ tail)

theorem phpTpResponse_reads (h : r.payload.length < 2 ^ 31) (more : Bytes) :
    ∃ response, phpTpResponse (r.payload ++ more) = .ok (response, some more) ∧ r.Read response := by
  obtain ⟨hheader, hbody⟩ := r.short h
  obtain ⟨r₁, r₂, hrun, htaken₁, htaken₂⟩ := phpTpResponse_taken r.header_wf r.body_wf hheader hbody
    r.numbers r.body_typed more
  have hvalue (k : Nat) : valueAt32 k r.body = valueAt k r.body :=
    valueAt32_eq (fun f hf => (r.body_keys f hf).trans (by decide)) r.body_distinct
  have hvalue' (k : Nat) : valueAt32 k r.header = valueAt k r.header :=
    valueAt32_eq (fun f hf => (r.header_keys f hf).trans (by decide)) r.header_distinct
  obtain ⟨wc, hcode⟩ := r.code_entry
  obtain ⟨ws, hsync⟩ := r.sync_entry
  refine ⟨r₂, ?_, ⟨?_, ?_, ?_, ?_⟩⟩
  · rw [payload, List.append_assoc]
    exact hrun
  · rw [htaken₂.sync, htaken₁.sync ws _ (by rw [hvalue', hsync]), UInt32.ofNat_toNat]
  · rw [htaken₂.code, hvalue, r.no_error, htaken₁.code wc 0 (by rw [hvalue', hcode])]
    rfl
  · have herror := htaken₂.error
    rw [hvalue, r.no_error, htaken₁.error] at herror
    simpa [BeexResponse.zero] using herror
  · intro d hd
    exact htaken₂.lastData d (by rw [hvalue, hd])

end OkReply

/-! ## The loop -/

/-- What a response does to the cache, and whether the loading succeeds. -/
def AuthReplies.load (r : AuthReplies) (schema : Schema) : AuthPart → Schema × Bool
  | .auth => (schema, true)
  | .space => (schema.loadSpaces r.spaces, true)
  | .index => schema.loadIndexes r.indexes

/-- These bytes are to be read, and this is the cache. -/
structure World.Stands (w : World) (schema : Schema) (inbox : Bytes) : Prop where
  prompt : w.net.Prompt .other
  stream : ∃ stream : Stream, w.obj.stream = some { stream with inbox := inbox }
  schema : w.obj.schema = schema

/-- The state with one more response used. -/
def World.withUsed (w : World) (sync : UInt32) : World :=
  { w with used := w.used ++ [⟨sync, w.ahead⟩] }

theorem useResponse_run (w : World) (sync : UInt32) :
    useResponse sync w = .ok ((), w.withUsed sync) := rfl

theorem World.Stands.used {w : World} {schema : Schema} {inbox : Bytes} (h : w.Stands schema inbox)
    (sync : UInt32) : (w.withUsed sync).Stands schema inbox := ⟨h.prompt, h.stream, h.schema⟩

/-- Rows that are loaded, or not. -/
theorem addToSchema_run {add : Schema → Option Bytes → Nat → Except Fault (Schema × Bool)}
    {resp : BeexResponse} (text : String) {w : World} {schema' : Schema} {added : Bool}
    {inbox : Bytes} (hadd : add w.obj.schema resp.data resp.dataLen = .ok (schema', added))
    (h : w.Stands w.obj.schema inbox) :
    ∃ w', addToSchema add resp text true w = .ok (added, w') ∧ w'.Stands schema' inbox := by
  have hrun : addToSchema add resp text true w = (if ¬ added ∧ true then do
      throwExc text []
      return false
    else return true : M Bool) { w with obj := { w.obj with schema := schema' } } := by
    rw [addToSchema, run_bind (show getObj w = .ok (w.obj, w) from rfl), run_bind (run_lift hadd w)]
    rfl
  rw [hrun]
  cases added with
  | false => exact ⟨_, rfl, h.prompt, h.stream, rfl⟩
  | true => exact ⟨_, rfl, h.prompt, h.stream, rfl⟩

/-- What the loop does with a response without an error. -/
theorem authResponse_run {syncs : AuthSyncs} {w : World} {response : BeexResponse} {left : Bytes}
    (hparse : phpTpResponse w.obj.value.c = .ok (response, some left)) (herror : response.error = none) :
    authResponse syncs w = (
      if response.sync = syncs.space then do
        useResponse syncs.space
        let status ← addToSchema beeSchemaAddSpaces response
          "Failed parsing schema (space) or memory issues" true
        return (status, decide (response.sync = syncs.auth ∧ response.code = 0) && true)
      else if response.sync = syncs.index then do
        useResponse syncs.index
        let status ← addToSchema beeSchemaAddIndexes response
          "Failed parsing schema (index) or memory issues" true
        return (status, decide (response.sync = syncs.auth ∧ response.code = 0) && true)
      else return (true, decide (response.sync = syncs.auth ∧ response.code = 0) && true) :
        M (Bool × Bool)) w := by
  have hquery : throwQueryError response = return () := by rw [throwQueryError, herror]
  rw [authResponse, run_bind (show getObj w = .ok (w.obj, w) from rfl), run_bind (run_lift hparse w)]
  simp only [throwIf, Option.isNone_some, Bool.false_eq_true, if_false, hquery, pure_bind, herror,
    Option.isSome_some, Option.isNone_none, Bool.and_self, ite_self]

/-- After a failure the loop does not succeed. -/
theorem authLoop_failed {syncs : AuthSyncs} {n : Nat} {granted : Bool} (w : World) :
    Wlp (authLoop syncs n false granted) (fun result _ => result.1 = false) w := by
  induction n generalizing w with
  | zero => exact .pure rfl
  | succ n ih =>
    refine .bind fun _ w₀ _ => .bind fun shortage w' _ => ?_
    refine .ite (fun _ => .bind fun _ w'' _ => .pure rfl) fun _ => ?_
    exact .ite (fun h => absurd h Bool.false_ne_true) fun _ => ih w'

/-- The cache after the responses in an order, if all can be read and loaded. -/
def AuthReplies.loads (r : AuthReplies) (schema : Schema) : List AuthPart → Option Schema
  | [] => some schema
  | part :: order =>
    if (r.reply part).payload.length < 2 ^ 31 ∧ (r.load schema part).2 = true then
      AuthReplies.loads r (r.load schema part).1 order
    else none

section Loop

variable {r : AuthReplies} {syncs : AuthSyncs} (hanswers : r.Answers syncs)
  (hdistinct : syncs.space ≠ syncs.auth ∧ syncs.index ≠ syncs.space ∧ syncs.index ≠ syncs.auth)
include hanswers hdistinct

/-- A short response does to the cache what its part says. -/
theorem authResponse_part {part : AuthPart} (hshort : (r.reply part).payload.length < 2 ^ 31) {w : World}
    {schema : Schema} {inbox left : Bytes} (h : w.Stands schema inbox)
    (hc : w.obj.value.c = (r.reply part).payload ++ left) :
    ∃ granted w', authResponse syncs w = .ok (((r.load schema part).2, granted), w') ∧
      w'.Stands (r.load schema part).1 inbox := by
  obtain ⟨response, hparse, hread⟩ := (r.reply part).phpTpResponse_reads hshort left
  rw [← hc] at hparse
  obtain rfl := h.schema
  obtain ⟨hauth, hindex, hindex'⟩ := hdistinct
  refine ⟨decide (response.sync = syncs.auth ∧ response.code = 0) && true, ?_⟩
  rw [authResponse_run hparse hread.error, hread.sync]
  cases part with
  | auth =>
    rw [AuthReplies.reply, hanswers.auth, if_neg hauth.symm, if_neg hindex'.symm]
    exact ⟨w, rfl, h⟩
  | space =>
    obtain ⟨hlen, tail, hdata⟩ := hread.data _ r.space_data
    obtain ⟨hwf, hlight, hlt⟩ := r.space.data_fits hshort r.space_data
    have hadd := beeSchemaAddSpaces_rows hwf.1 hlight hlt w.obj.schema tail
    rw [← hlen, ← hdata] at hadd
    obtain ⟨w', hrun, hstands⟩ := addToSchema_run (w := w.withUsed syncs.space) _ hadd (h.used _)
    refine ⟨w', ?_, hstands⟩
    rw [AuthReplies.reply, hanswers.space, if_pos rfl, run_bind (useResponse_run w _), run_bind hrun]
    rfl
  | index =>
    obtain ⟨hlen, tail, hdata⟩ := hread.data _ r.index_data
    obtain ⟨hwf, hlight, hlt⟩ := r.index.data_fits hshort r.index_data
    have hadd := beeSchemaAddIndexes_rows hwf.1 hlight hlt w.obj.schema tail
    rw [← hlen, ← hdata] at hadd
    obtain ⟨w', hrun, hstands⟩ := addToSchema_run (w := w.withUsed syncs.index) _ hadd (h.used _)
    refine ⟨w', ?_, hstands⟩
    rw [AuthReplies.reply, hanswers.index, if_neg hindex, if_pos rfl,
      run_bind (useResponse_run w _), run_bind hrun]
    rfl

/-- A response whose length no `int` holds ends the loop, and a short one is dealt with. -/
theorem authLoop_frame {part : AuthPart} {w : World} {schema : Schema} {rest : Bytes}
    (h : w.Stands schema (frame (r.reply part).payload ++ rest)) (n : Nat) (granted : Bool) :
    if (r.reply part).payload.length < 2 ^ 31 then
      ∃ granted' w', authLoop syncs (n + 1) true granted w =
          authLoop syncs n (r.load schema part).2 granted' w' ∧
        w'.Stands (r.load schema part).1 rest
    else Wlp (authLoop syncs (n + 1) true granted) (fun result _ => result.1 = false) w := by
  obtain ⟨stream, hstream⟩ := h.stream
  have hframed : (r.reply part).payload.length < 2 ^ 32 := (r.reply part).framed
  let w₀ : World := { w with ahead := (w.obj.stream.map (·.inbox)).getD [] }
  have hawait : awaitResponse w = .ok ((), w₀) := rfl
  obtain ⟨value, net, hread, hlater, -, left, hc⟩ :=
    @readPacket_frame w₀ stream _ rest hframed h.prompt hstream
  split
  case isTrue hshort =>
    rw [if_pos hshort] at hread
    obtain ⟨granted', w', hrun, hstands⟩ := @authResponse_part r syncs hanswers hdistinct part hshort
      { w₀ with
        obj := { w.obj with stream := some { stream with inbox := rest }, value := value }
        net := net } schema rest left ⟨hlater.prompt h.prompt, ⟨stream, rfl⟩, h.schema⟩ hc
    refine ⟨granted || granted', w', ?_, hstands⟩
    rw [authLoop, run_bind hawait, run_bind hread]
    simp only [Option.isSome_none, Bool.false_eq_true, if_false, if_true]
    rw [run_bind hrun]
  case isFalse hlong =>
    rw [if_neg hlong] at hread
    rw [authLoop, Wlp, run_bind hawait]
    refine Wlp.bind fun shortage w' hread' => ?_
    obtain ⟨rfl, -⟩ := Prod.mk.inj (Except.ok.inj (hread.symm.trans hread'))
    exact .ite (fun _ => .bind fun _ w'' _ => .pure rfl) fun h => absurd rfl h

/-- The loop takes the responses in the order in which they have arrived. -/
theorem authLoop_order {order : List AuthPart} {w : World} {schema : Schema} {rest : Bytes}
    (h : w.Stands schema (r.frames order ++ rest)) (granted : Bool) :
    (r.loads schema order).elim
      (Wlp (authLoop syncs order.length true granted) (fun result _ => result.1 = false) w)
      fun schema' => ∃ granted' w', authLoop syncs order.length true granted w =
        .ok ((true, granted'), w') ∧ w'.Stands schema' rest := by
  induction order generalizing w schema granted with
  | nil => exact ⟨granted, w, rfl, h⟩
  | cons part order ih =>
    have hframe : w.Stands schema (frame (r.reply part).payload ++ (r.frames order ++ rest)) := by
      simpa only [AuthReplies.frames, List.map_cons, List.flatten_cons, List.append_assoc] using h
    have hstep := authLoop_frame hanswers hdistinct hframe order.length granted
    rw [List.length_cons, AuthReplies.loads]
    by_cases hshort : (r.reply part).payload.length < 2 ^ 31
    · rw [if_pos hshort] at hstep
      obtain ⟨granted', w', hrun, hstands⟩ := hstep
      cases hload : (r.load schema part).2 with
      | true =>
        rw [if_pos ⟨hshort, rfl⟩, Wlp, hrun, hload]
        exact ih hstands granted'
      | false =>
        rw [if_neg (by simp), Option.elim_none, Wlp, hrun, hload]
        exact authLoop_failed _
    · rw [if_neg hshort] at hstep
      rw [if_neg (fun h => hshort h.1), Option.elim_none]
      exact hstep

end Loop

/-! ## The authentication -/

section Sent

variable {P : Platform} {w w₁ : World} {syncs : AuthSyncs}

theorem BatchSent.syncs_eq (h : BatchSent P w syncs w₁) : syncs = .from w.syncCounter := by
  obtain ⟨composed, hcompose, -⟩ := h
  refine @composeTp_returns _ _ _ (fun syncs => syncs = .from w.syncCounter) (fun w₂ hcounter => ?_)
    syncs composed hcompose
  have hsyncs := authRequests_syncs (P := P) w₂
  rwa [hcounter] at hsyncs

theorem BatchSent.schema_eq (h : BatchSent P w syncs w₁) : w₁.obj.schema = .empty := by
  obtain ⟨composed, hcompose, hsend⟩ := h
  have hkeeps : IgnoresWriter fun w => w.obj.schema = .empty :=
    ⟨fun _ _ _ h => h, fun _ _ h => h, fun _ _ _ h => h⟩
  have hcomposed := composeTp_keeps hkeeps (authRequests_keeps (P := P) hkeeps) _ rfl syncs composed
    hcompose
  obtain ⟨stream, -, ⟨-, -, rfl⟩ | ⟨hok, -⟩⟩ := beeStreamSend_spec false composed true w₁ hsend
  · exact hcomposed
  · cases hok

/-- What the authentication does once the batch is sent. -/
theorem BatchSent.run (h : BatchSent P w syncs w₁) : beeAuthenticate P w = (do
    let (status, granted) ← authLoop syncs 3 true false
    recordExchange (status && granted)
    return status : M Bool) w₁ := by
  obtain ⟨composed, hcompose, hsend⟩ := h
  rw [beeAuthenticate, run_bind (show modifyObj (fun obj =>
    { obj with schema := beeSchemaFlush obj.schema }) w = .ok ((), _) from rfl), run_bind hcompose,
    run_bind hsend]
  rfl

theorem recordExchange_run (ok : Bool) {w : World} {schema : Schema} {inbox : Bytes}
    (h : w.Stands schema inbox) :
    ∃ w', recordExchange ok w = .ok ((), w') ∧ w'.Stands schema inbox := by
  obtain ⟨stream, hstream⟩ := h.stream
  let identity : Option Identity := if ok then some ⟨w.obj.login, w.obj.passwd⟩ else none
  refine ⟨{ w with
    obj := { w.obj with stream := some { stream with inbox := inbox, identity := identity } }
    exchanges := w.exchanges ++ [ok] }, ?_, h.prompt, ⟨{ stream with identity := identity }, rfl⟩,
    h.schema⟩
  have hmap : w.obj.stream.map (fun stream => { stream with identity := identity }) =
      some { stream with inbox := inbox, identity := identity } := by rw [hstream]; rfl
  rw [← hmap]
  rfl

/-- The authentication succeeds exactly when all responses can be read and loaded in their order. -/
theorem authenticate_order {r : AuthReplies} {order : List AuthPart} {rest : Bytes}
    (hlen : order.length = 3) (hanswers : r.Answers syncs) (hsent : BatchSent P w syncs w₁)
    (harrived : w₁.Arrived (r.frames order) rest) :
    (r.loads .empty order).elim (Wlp (beeAuthenticate P) (fun ok _ => ok = false) w)
      fun schema => ∃ w', beeAuthenticate P w = .ok (true, w') ∧ w'.Stands schema rest := by
  have hdistinct := AuthSyncs.from_distinct w.syncCounter
  rw [← hsent.syncs_eq] at hdistinct
  have hloop := authLoop_order hanswers hdistinct ⟨harrived.1, harrived.2, hsent.schema_eq⟩ false
  rw [hlen] at hloop
  rw [Wlp, hsent.run]
  cases hloads : r.loads .empty order with
  | none =>
    rw [hloads] at hloop
    refine Wlp.bind (hloop.mono ?_)
    rintro ⟨status, granted⟩ w₂ rfl
    exact .bind fun _ w₃ _ => .pure rfl
  | some schema =>
    rw [hloads] at hloop
    obtain ⟨granted, w₂, hrun, hstands⟩ := hloop
    obtain ⟨w₃, hrecord, hstands'⟩ := recordExchange_run (true && granted) hstands
    exact ⟨w₃, (run_bind hrun).trans (run_bind hrecord), hstands'⟩

end Sent

/-! ## The order of the responses -/

theorem slot_isSome {h : History} {number : UInt32} {name : Bytes} (hmem : .space number name ∈ h) :
    (h.slot (numberKey number)).isSome := by
  induction h with
  | nil => cases hmem
  | cons e h ih =>
    cases e with
    | index =>
      rcases List.mem_cons.mp hmem with heq | hmem
      · cases heq
      · exact ih hmem
    | space number' name' =>
      rw [History.slot]
      split
      · rfl
      case isFalse hkey =>
        refine ih (List.mem_of_ne_of_mem ?_ hmem)
        rintro ⟨⟩
        exact hkey (.inr rfl)

/-- The spaces that have been loaded find what the catalogue says. -/
theorem lookup_loadSpaces (rows : List SpaceRow) (k : Bytes) :
    (Schema.empty.loadSpaces rows).spaceHash.lookup k = (History.addSpaces [] rows).slot k :=
  (holds_empty.loadSpaces rows).spaces k

/-- All rows of indexes are loaded exactly when each finds a space. -/
theorem loadIndexes_all (schema : Schema) (rows : List IndexRow) : (schema.loadIndexes rows).2 = true ↔
    ∀ i ∈ rows, (schema.spaceHash.lookup (numberKey i.space)).isSome := by
  induction rows generalizing schema with
  | nil => simp [Schema.loadIndexes]
  | cons i rows ih =>
    rw [Schema.loadIndexes, List.forall_mem_cons]
    cases schema.spaceHash.lookup (numberKey i.space) with
    | none => simp
    | some space =>
      rw [Option.elim_some, ih]
      simp [Schema.putIndex]

theorem loadIndexes_refers {r : AuthReplies} (h : r.Refers) :
    ((Schema.empty.loadSpaces r.spaces).loadIndexes r.indexes).2 = true := by
  rw [loadIndexes_all]
  intro i hi
  obtain ⟨s, hs, hid⟩ := h i hi
  have hnumber : i.space = s.number := by rw [IndexRow.space, SpaceRow.number, hid]
  rw [lookup_loadSpaces, hnumber]
  exact slot_isSome (List.mem_append_left _ (List.mem_reverse.mpr (List.mem_map_of_mem hs)))

theorem loadIndexes_empty (rows : List IndexRow) :
    (Schema.empty.loadIndexes rows).2 = true ↔ rows = [] := by
  cases rows with
  | nil => simp [Schema.loadIndexes]
  | cons i rows =>
    rw [loadIndexes_all]
    refine ⟨fun h => ?_, fun h => absurd h (List.cons_ne_nil i rows)⟩
    have hfirst := h i List.mem_cons_self
    cases hfirst

/-- The cache after a sequence of operations that loads what short responses say. -/
theorem AuthReplies.Short.runSchema {r : AuthReplies} (h : r.Short) : BeePhp.runSchema r.ops =
    .ok ((Schema.empty.loadSpaces r.spaces).loadIndexes r.indexes).1 := by
  obtain ⟨hwf, hlight, hlt⟩ := r.space.data_fits (h .space) r.space_data
  obtain ⟨hwf', hlight', hlt'⟩ := r.index.data_fits (h .index) r.index_data
  have hspaces := beeSchemaAddSpaces_rows hwf.1 hlight hlt .empty []
  have hindexes := beeSchemaAddIndexes_rows hwf'.1 hlight' hlt' (Schema.empty.loadSpaces r.spaces) []
  rw [List.append_nil] at hspaces hindexes
  have hrun : SchemaOp.run .empty (.addSpaces r.spaceWidth r.spaces) =
      .ok (Schema.empty.loadSpaces r.spaces) := by
    simp only [SchemaOp.run, SchemaOp.doc, hspaces]
    rfl
  have hrun' : SchemaOp.run (Schema.empty.loadSpaces r.spaces) (.addIndexes r.indexWidth r.indexes) =
      .ok ((Schema.empty.loadSpaces r.spaces).loadIndexes r.indexes).1 := by
    simp only [SchemaOp.run, SchemaOp.doc, hindexes]
    rfl
  simp only [BeePhp.runSchema, AuthReplies.ops, List.foldlM_cons, List.foldlM_nil, hrun, Bind.bind,
    Except.bind, hrun']
  rfl

theorem AuthReplies.short_iff {r : AuthReplies} : r.Short ↔ r.auth.payload.length < 2 ^ 31 ∧
    r.space.payload.length < 2 ^ 31 ∧ r.index.payload.length < 2 ^ 31 := by
  refine ⟨fun h => ⟨h .auth, h .space, h .index⟩, fun ⟨hauth, hspace, hindex⟩ part => ?_⟩
  cases part
  · exact hauth
  · exact hspace
  · exact hindex

/-- The three responses in any order. -/
theorem mem_orders {order : List AuthPart} (h : order.Perm [.auth, .space, .index]) :
    order ∈ [[.auth, .space, .index], [.space, .auth, .index], [.space, .index, .auth],
      [.auth, .index, .space], [.index, .auth, .space], [.index, .space, .auth]] :=
  List.mem_permutations'.mpr h

/-- All responses can be read and loaded when they are short and no row of indexes comes before the
spaces. -/
theorem loads_iff {r : AuthReplies} (hrefers : r.Refers) {order : List AuthPart}
    (horder : order.Perm [.auth, .space, .index]) (schema : Schema) :
    r.loads .empty order = some schema ↔ r.Short ∧
      (r.indexes = [] ∨ order.idxOf AuthPart.space < order.idxOf AuthPart.index) ∧
      ((Schema.empty.loadSpaces r.spaces).loadIndexes r.indexes).1 = schema := by
  have hall := loadIndexes_refers hrefers
  have hempty := loadIndexes_empty r.indexes
  have hswap (h : r.indexes = []) : (Schema.empty.loadIndexes r.indexes).1.loadSpaces r.spaces =
      ((Schema.empty.loadSpaces r.spaces).loadIndexes r.indexes).1 := by rw [h]; rfl
  have hmem := mem_orders horder
  simp only [List.mem_cons, List.not_mem_nil, or_false] at hmem
  rcases hmem with rfl | rfl | rfl | rfl | rfl | rfl
  all_goals simp [AuthReplies.loads, AuthReplies.load, AuthReplies.reply, hall, AuthReplies.short_iff]
  -- the spaces come first
  · tauto
  · tauto
  · tauto
  -- the indexes come first
  all_goals
    rw [hempty]
    by_cases hindexes : r.indexes = []
    · rw [hswap hindexes]
      tauto
    · tauto

theorem Schema.SameAnswers.refl (schema : Schema) : schema.SameAnswers schema :=
  ⟨fun _ => rfl, fun _ _ => rfl⟩

/-- In whichever order the three responses arrive, the authentication succeeds, reads all of them and
leaves the same answers exactly when they are short and no row of indexes comes before the spaces. -/
theorem authenticate_any_order {P : Platform} {r : AuthReplies} (hrefers : r.Refers) {w w₁ : World}
    {syncs : AuthSyncs} {order : List AuthPart} {rest : Bytes}
    (horder : order.Perm [.auth, .space, .index]) (hanswers : r.Answers syncs)
    (hsent : BatchSent P w syncs w₁) (harrived : w₁.Arrived (r.frames order) rest) :
    Authenticates P w rest r.ops ↔
      r.Short ∧ (r.indexes = [] ∨ order.idxOf AuthPart.space < order.idxOf AuthPart.index) := by
  have hrun := authenticate_order horder.length_eq hanswers hsent harrived
  constructor
  · rintro ⟨w', stream, schema, hok, -⟩
    cases hloads : r.loads .empty order with
    | none =>
      rw [hloads] at hrun
      cases hrun true w' hok
    | some schema =>
      obtain ⟨hshort, hfirst, -⟩ := (loads_iff hrefers horder schema).mp hloads
      exact ⟨hshort, hfirst⟩
  · rintro ⟨hshort, hfirst⟩
    have hloads := (loads_iff hrefers horder _).mpr ⟨hshort, hfirst, rfl⟩
    rw [hloads] at hrun
    obtain ⟨w', hok, hstands⟩ := hrun
    obtain ⟨stream, hstream⟩ := hstands.stream
    refine ⟨w', stream, _, hok, hstream, hshort.runSchema, ?_⟩
    rw [hstands.schema]
    exact .refl _

/-! ## A batch that goes out -/

/-- A new connection on a stream on which the server will answer with these bytes. -/
def World.linked (replies : List Bytes) : World :=
  let obj := Connection.new [] 3301 (ascii "user") (some (ascii "secret")) none (fun _ => 0) fun _ => 0
  { World.init { obj with stream := some ⟨[], [], none⟩ } false 0 with
    net := { Net.calm with replies := replies } }

/-- The batch is written into the buffer of a new connection. -/
theorem linked_writes : ∃ s value, runCalls (.blank true) (World.linked []).batchCalls
      (World.linked []).writer = .ok ((), s) ∧ s.str.setLen (tpUsed s.tp) = .ok value := by
  have htest : ((runCalls (.blank true) (World.linked []).batchCalls (World.linked []).writer).bind
      fun r => r.2.str.setLen (tpUsed r.2.tp)).toBool = true := by decide +kernel
  cases hcalls : runCalls (.blank true) (World.linked []).batchCalls (World.linked []).writer with
  | error e =>
    rw [hcalls] at htest
    cases htest
  | ok r =>
    obtain ⟨⟨⟩, s⟩ := r
    rw [hcalls] at htest
    cases hvalue : s.str.setLen (tpUsed s.tp) with
    | error e =>
      simp only [Except.bind, hvalue] at htest
      cases htest
    | ok value => exact ⟨s, value, rfl, hvalue⟩

/-- A batch that is sent whole. -/
theorem beeStreamSend_run {request : Bool} {w : World} {stream : Stream}
    (hstream : w.obj.stream = some stream) (hwrites : w.net.writes = []) :
    ∃ w', beeStreamSend request w = .ok (true, w') := by
  let w₁ : World := { w with sent := w.sent ++ [w.record request] }
  obtain ⟨w₂, hwrite⟩ : ∃ w₂, beexllStreamSend w.obj.value.data w₁ = .ok (true, w₂) := by
    have hstream₁ : w₁.obj.stream = some stream := hstream
    have hwrites₁ : w₁.net.writes = [] := hwrites
    simp only [beexllStreamSend, phpStreamWrite, hstream₁, hwrites₁]
    exact ⟨_, rfl⟩
  have hrecord : (modify fun w => { w with sent := w.sent ++ [w.record request] } : M Unit) w =
      .ok ((), w₁) := rfl
  refine ⟨{ w₂.cleared with own := [] }, ?_⟩
  rw [beeStreamSend, run_bind hrecord, run_bind (getObj_run w₁), run_bind hwrite]
  exact run_bind (resetValue_run w₂)

/-- Requests that a new connection has composed go out, and the server's answers to them arrive. -/
theorem composed_sent {α : Type} {body : M α} {n : Nat} {replies : List Bytes} {w composed : World} {a : α}
    (hstream : w.obj.stream = some ⟨[], [], none⟩) (hnet : w.net = { Net.calm with replies := replies })
    (hhealthy : w.obj.tps.Healthy) (hsame : Keeps w.SameLink body)
    (hbody : ∀ w₁ : World, w₁.obj.login = w.obj.login → w₁.writer.Whole 0 →
      Wlp body (fun _ w' => w'.writer.Whole n) w₁)
    (hcompose : composeTp body w = .ok (a, composed)) :
    ∃ w₁, beeStreamSend false composed = .ok (true, w₁) ∧ w₁.Arrived (takeReplies n replies) [] := by
  have hlink := composeTp_keeps (World.SameLink.ignoresWriter w) hsame w ⟨rfl, rfl, rfl, rfl⟩ _ _ hcompose
  have hstream' : composed.obj.stream = some ⟨[], [], none⟩ := hlink.stream.trans hstream
  have hnet' : composed.net = { Net.calm with replies := replies } := hlink.net.trans hnet
  obtain ⟨-, payloads, rfl, hlt, hdata⟩ := composeTp_whole hhealthy hbody _ _ hcompose
  obtain ⟨w₁, hsend⟩ := @beeStreamSend_run false composed _ hstream' (by rw [hnet']; rfl)
  refine ⟨w₁, hsend, ?_⟩
  obtain ⟨stream, hstream₁, ⟨-, -, rfl⟩ | ⟨hok, -⟩⟩ := beeStreamSend_spec false composed true w₁ hsend
  · rw [hstream'] at hstream₁
    obtain rfl := Option.some.inj hstream₁
    have hdeliver := @deliver_frames ⟨[], [], none⟩ rfl payloads hlt replies
    rw [← hdata] at hdeliver
    refine ⟨fun c hc => ?_, ⟨[], [], none⟩, ?_⟩
    · have hchunks : c ∈ composed.net.chunks := hc
      rw [hnet'] at hchunks
      cases hchunks
    · have hreplies : composed.net.replies = replies := by rw [hnet']
      simp only [World.handed, hreplies, hdeliver, World.cleared_stream, List.nil_append, List.append_nil]
  · cases hok

/-- The batch of a new connection goes out, and the server's answers to it arrive. -/
theorem linked_sent (a b c : Bytes) : ∃ w₁, BatchSent (.blank true) (World.linked [a, b, c])
    (.from 0) w₁ ∧ w₁.Arrived (a ++ (b ++ c)) [] := by
  obtain ⟨s, value, hcalls, hvalue⟩ := linked_writes
  let w : World := World.linked [a, b, c]
  have hbody : authRequests (.blank true) w = .ok (.from 0, w.withTp s 3) := by
    rw [authRequests_eq]
    exact congrArg (fun x => Except.bind x _) hcalls
  obtain ⟨composed, hcompose⟩ := @composeTp_run _ (authRequests (.blank true)) w _ _ _ hbody hvalue
  have hlogin' : (ascii "user").length < 2 ^ 31 := by decide
  obtain ⟨w₁, hsend, harrived⟩ := @composed_sent _ _ 3 [a, b, c] w _ _ rfl rfl
    (fun _ => by simp [w, World.linked, Connection.new, World.init])
    (authRequests_keeps (World.SameLink.ignoresWriter w))
    (fun w₁ hlogin hwhole => authRequests_whole (by rw [hlogin]; exact hlogin') hwhole) hcompose
  refine ⟨w₁, ⟨composed, hcompose, hsend⟩, ?_⟩
  have hreplies : takeReplies 3 [a, b, c] = a ++ (b ++ c) := by simp [takeReplies, List.range_succ]
  rwa [hreplies] at harrived

/-- The entries of the header of an OK response. -/
def okHeader (sync : UInt32) : List Entry :=
  [⟨.w32, 0, .uint .w32 0⟩, ⟨.w32, 1, .uint .w32 sync.toNat⟩]

/-- The entries of a body with a list of documents. -/
def listingBody (ds : List Doc) : List Entry := [⟨.w32, 48, .array .w32 ds⟩]

theorem okHeader_wf (sync : UInt32) : (Doc.map .fix (entryDocs (okHeader sync))).WF := by
  have hsync := sync.toNat_lt
  simp [Doc.WF, AllWF, Doc.Fits, okHeader, entryDocs, flatten, IntWidth.uintBound, SeqWidth.bound]
  omega

theorem listingBody_wf {ds : List Doc} (hwf : AllWF ds) (hlen : (encodeAll ds).length < 2 ^ 30) :
    (Doc.map .fix (entryDocs (listingBody ds))).WF := by
  have hle := length_le_encodeAll ds
  simp [Doc.WF, AllWF, Doc.Fits, listingBody, entryDocs, flatten, IntWidth.uintBound, SeqWidth.bound, hwf]
  omega

theorem listing_length (sync : UInt32) (ds : List Doc) :
    ((Doc.map .fix (entryDocs (okHeader sync))).encode ++
      (Doc.map .fix (entryDocs (listingBody ds))).encode).length = 32 + (encodeAll ds).length := by
  simp [Doc.encode, Doc.head, IntWidth.uintHead, SeqWidth.mapHead, SeqWidth.arrayHead, entryDocs, flatten,
    encodeAll, okHeader, listingBody, toBE_length]
  omega

/-- A response with a list of documents. -/
def OkReply.listing (sync : UInt32) (ds : List Doc) (hwf : AllWF ds)
    (hlen : (encodeAll ds).length < 2 ^ 30) : OkReply where
  headWidth := .fix
  header := okHeader sync
  bodyWidth := .fix
  body := listingBody ds
  sync := sync
  header_wf := okHeader_wf sync
  body_wf := listingBody_wf hwf hlen
  header_distinct := by simp [okHeader]
  body_distinct := by simp [listingBody]
  header_keys := by simp [okHeader]
  body_keys := by simp [listingBody]
  numbers := by simp [okHeader]
  code_entry := ⟨_, rfl⟩
  sync_entry := ⟨_, rfl⟩
  no_error := rfl
  data_array := fun d hd => ⟨_, _, (Option.some.inj hd).symm⟩
  framed := by
    rw [listing_length]
    omega

theorem OkReply.listing_short (sync : UInt32) (ds : List Doc) (hwf : AllWF ds)
    (hlen : (encodeAll ds).length < 2 ^ 30) :
    (OkReply.listing sync ds hwf hlen).payload.length < 2 ^ 31 := by
  rw [OkReply.payload, OkReply.listing, listing_length]
  omega

/-- The responses to the batch of a new connection. -/
def AuthReplies.listing (spaces : List SpaceRow) (indexes : List IndexRow)
    (hspaces : (encodeAll (spaces.map SpaceRow.doc)).length < 2 ^ 30)
    (hindexes : (encodeAll (indexes.map IndexRow.doc)).length < 2 ^ 30) : AuthReplies where
  auth := .listing 0 [] trivial (by decide)
  space := .listing 1 (spaces.map SpaceRow.doc) (spaceDocs_wf spaces) hspaces
  index := .listing 2 (indexes.map IndexRow.doc) (indexDocs_wf indexes) hindexes
  spaceWidth := .w32
  spaces := spaces
  indexWidth := .w32
  indexes := indexes
  space_data := rfl
  index_data := rfl

section Listing

variable {spaces : List SpaceRow} {indexes : List IndexRow}
  (hspaces : (encodeAll (spaces.map SpaceRow.doc)).length < 2 ^ 30)
  (hindexes : (encodeAll (indexes.map IndexRow.doc)).length < 2 ^ 30)

theorem replies_spaces : (AuthReplies.listing spaces indexes hspaces hindexes).spaces = spaces := rfl

theorem replies_indexes : (AuthReplies.listing spaces indexes hspaces hindexes).indexes = indexes := rfl

theorem replies_answer : (AuthReplies.listing spaces indexes hspaces hindexes).Answers (.from 0) :=
  ⟨rfl, rfl, rfl⟩

theorem replies_short : (AuthReplies.listing spaces indexes hspaces hindexes).Short :=
  AuthReplies.short_iff.mpr ⟨OkReply.listing_short 0 [] trivial (by decide),
    OkReply.listing_short 1 _ (spaceDocs_wf spaces) hspaces,
    OkReply.listing_short 2 _ (indexDocs_wf indexes) hindexes⟩

end Listing

/-- The state of a new connection to which the server will answer in this order. -/
def World.answered (r : AuthReplies) (order : List AuthPart) : World :=
  .linked (order.map fun part => frame (r.reply part).payload)

theorem answered_sent (r : AuthReplies) (a b c : AuthPart) :
    ∃ w₁, BatchSent (.blank true) (World.answered r [a, b, c]) (.from 0) w₁ ∧
      w₁.Arrived (r.frames [a, b, c]) [] := by
  obtain ⟨w₁, hsent, harrived⟩ := linked_sent (frame (r.reply a).payload) (frame (r.reply b).payload)
    (frame (r.reply c).payload)
  refine ⟨w₁, hsent, ?_⟩
  simpa only [AuthReplies.frames, List.map_cons, List.map_nil, List.flatten_cons, List.flatten_nil,
    List.append_nil] using harrived

/-- The space `users` with its primary index. -/
def usersReplies : AuthReplies :=
  .listing [usersRow] [primaryRow] (by decide) (by decide)

/-- The response to the authentication comes between the spaces and the indexes. -/
theorem authenticate_any_order_users : Authenticates (.blank true)
    (World.answered usersReplies [.space, .auth, .index]) [] usersReplies.ops := by
  obtain ⟨w₁, hsent, harrived⟩ := answered_sent usersReplies .space .auth .index
  have hrefers : usersReplies.Refers := fun i hi => by
    rw [List.mem_singleton.mp hi]
    exact ⟨_, List.mem_cons_self, rfl⟩
  exact (authenticate_any_order hrefers (by decide) (replies_answer _ _) hsent harrived).mpr
    ⟨replies_short _ _, .inr (by decide)⟩

/-- The indexes come before the spaces. -/
theorem authenticate_any_order_indexes : ¬ ∀ (P : Platform) (r : AuthReplies) (w w₁ : World)
    (syncs : AuthSyncs) (order : List AuthPart) (rest : Bytes), r.Refers →
    order.Perm [.auth, .space, .index] → r.Answers syncs → BatchSent P w syncs w₁ →
    w₁.Arrived (r.frames order) rest → Authenticates P w rest r.ops := by
  intro h
  obtain ⟨w₁, hsent, harrived⟩ := answered_sent usersReplies .auth .index .space
  have hrefers : usersReplies.Refers := fun i hi => by
    rw [List.mem_singleton.mp hi]
    exact ⟨_, List.mem_cons_self, rfl⟩
  have hanswers : usersReplies.Answers (.from 0) := replies_answer _ _
  obtain ⟨w', -, -, hok, -⟩ := h _ _ _ w₁ _ _ _ hrefers (by decide) hanswers hsent harrived
  have hloads : usersReplies.loads .empty [.auth, .index, .space] = none := by
    rw [← Option.isNone_iff_eq_none]
    decide +kernel
  have hrun := authenticate_order rfl hanswers hsent harrived
  rw [hloads] at hrun
  cases hrun true w' hok

end BeePhp
