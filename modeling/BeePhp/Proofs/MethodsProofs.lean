import BeePhp.Asked
import BeePhp.Proofs.QuietProofs
import BeePhp.Proofs.RequestProofs
import BeePhp.Runs

/-!
# Proofs: what a run of methods keeps

A method asks for the request for its arguments or for none (`Op.run_asks`). A predicate that the parts of the
methods keep (`Kept`) is kept by every method (`Op.run_keeps`) and by every run (`Kept.runAll`).
-/

namespace BeePhp

open Codec Program

/-- The parts of the methods keep `I`, and a new environment that is `Good` may take over. -/
structure Kept (P : Platform) (Good : Net → Prop) (I : World → Prop) : Prop where
  net : ∀ w net, Good net → I w → I { w with net := net }
  throwExc : ∀ format args, Keeps I (throwExc format args)
  onDemand : Keeps I (connectOnDemand P)
  connect : Keeps I (beeConnect P)
  reconnect : Keeps I (beeReconnect P)
  authenticate : ∀ login passwd, Keeps I (Bee.authenticate P login passwd)
  flushSchema : Keeps I Bee.flushSchema
  spaceno : ∀ name, Keeps I (getSpacenoByName P name)
  indexno : ∀ spaceNo name, Keeps I (getIndexnoByName P spaceNo name)
  execute : ∀ H r, r.Proper → r.Small → Keeps I (execute P H r)

/-- The parts of the methods keep `I` of the lookups so far, and a data request leads from there to `J`, which an
exception keeps. -/
structure Asking (P : Platform) (I : List Lookup → World → Prop)
    (J : List Lookup → Heap → Request → World → Prop) : Prop where
  throwExc : ∀ ls format args, Keeps (I ls) (throwExc format args)
  after : ∀ ls H r format args, Keeps (J ls H r) (BeePhp.throwExc format args)
  onDemand : Keeps (I []) (connectOnDemand P)
  spaceno : ∀ name w, I [] w → Wlp (getSpacenoByName P name) (fun _ w' =>
    ∃ ls, ls.Sublist (name.lookups .space) ∧ I ls w') w
  indexno : ∀ ls spaceNo name w, I ls w → Wlp (getIndexnoByName P spaceNo name) (fun _ w' =>
    ∃ ls', ls'.Sublist (name.lookups (.index spaceNo)) ∧ I (ls ++ ls') w') w
  execute : ∀ ls H r, r.Proper → r.Small → ∀ w, I ls w → Wlp (execute P H r) (fun _ => J ls H r) w

theorem Kept.asking {P : Platform} {Good : Net → Prop} {I : World → Prop} (h : Kept P Good I) :
    Asking P (fun _ => I) fun _ _ _ => I where
  throwExc := fun _ => h.throwExc
  after := fun _ _ _ => h.throwExc
  onDemand := h.onDemand
  spaceno := fun name w hw => (h.spaceno name w hw).mono fun _ _ hw' => ⟨[], List.nil_sublist _, hw'⟩
  indexno := fun _ spaceNo name w hw =>
    (h.indexno spaceNo name w hw).mono fun _ _ hw' => ⟨[], List.nil_sublist _, hw'⟩
  execute := fun _ => h.execute

/-- A method has returned FALSE before it asked for anything, or it has asked for one of these requests. It has
made no lookups but these. -/
def AsksFor (I : List Lookup → World → Prop) (J : List Lookup → Heap → Request → World → Prop)
    (lookups : List Lookup) (asks : Heap → Request → Prop) (v : PVal) (w : World) : Prop :=
  ∃ ls : List Lookup, ls.Sublist lookups ∧ (I ls w ∧ v = .bool false ∨ ∃ H r, asks H r ∧ J ls H r w)

section Parts

variable {P : Platform} {I : List Lookup → World → Prop} {J : List Lookup → Heap → Request → World → Prop}
  {ls lookups : List Lookup} {asks : Heap → Request → Prop} {w : World}

theorem AsksFor.stop (hls : ls.Sublist lookups) (hw : I ls w) :
    Wlp (Pure.pure (.bool false) : M PVal) (AsksFor I J lookups asks) w :=
  .pure ⟨ls, hls, .inl ⟨hw, rfl⟩⟩

/-- FALSE is returned after an exception. -/
theorem throw_asks (h : Asking P I J) {format : String} {args : List MsgArg} (hls : ls.Sublist lookups)
    (hw : I ls w) : Wlp (throwExc format args >>= fun _ => return .bool false) (AsksFor I J lookups asks) w :=
  .bind ((h.throwExc ls format args w hw).mono fun _ _ hw' => .stop hls hw')

/-- The number that a space has been given for. -/
theorem getSpacenoByName_resolves (space : Zval) (w : World) :
    Wlp (getSpacenoByName P space) (fun no _ => no = -1 ∨ space.Resolves no) w := by
  cases space with
  | long n => exact .pure (.inr rfl)
  | str s => exact fun _ _ _ => .inr trivial
  | _ => exact .bind fun _ _ _ => .pure (.inl rfl)

/-- The space comes first, and the lookups for it are among those for the arguments whatever its number is. -/
theorem withSpace_asks (h : Asking P I J) {space : Zval} {body : Int → M PVal} {lookups : Int → List Lookup}
    {asks : Int → Heap → Request → Prop} (hlookups : ∀ no, (space.lookups .space).Sublist (lookups no))
    (hbody : ∀ no ls, space.Resolves no → ls.Sublist (space.lookups .space) → ∀ w, I ls w →
      Wlp (body no) (AsksFor I J (lookups no) (asks no)) w) (hw : I [] w) :
    Wlp (withSpace P space body) (fun v w' => ∃ no, AsksFor I J (lookups no) (asks no) v w') w := by
  refine .bind (((h.spaceno space w hw).and (getSpacenoByName_resolves space w)).mono ?_)
  rintro no w' ⟨⟨ls, hls, hw'⟩, hno⟩
  refine .ite (fun _ => ?_) fun hne => ?_
  · exact (AsksFor.stop (hls.trans (hlookups no)) hw').mono fun _ _ hstop => ⟨no, hstop⟩
  · exact (hbody no ls (hno.resolve_left hne) hls w' hw').mono fun _ _ hasks => ⟨no, hasks⟩

theorem getIndexnoByName_resolves (spaceNo : Int) (index : Zval) (w : World) :
    Wlp (getIndexnoByName P spaceNo index) (fun no _ => no = -1 ∨ indexResolves (some index) no) w := by
  cases index with
  | null => exact .pure (.inr rfl)
  | long n => exact .pure (.inr rfl)
  | str s => exact fun _ _ _ => .inr trivial
  | _ => exact .bind fun _ _ _ => .pure (.inl rfl)

theorem withIndex_asks (h : Asking P I J) {spaceNo : Int} {index : Option Zval} {body : Int → M PVal}
    {before : List Lookup} (hbody : ∀ no ls, indexResolves index no →
      ls.Sublist (before ++ index.elim [] (Zval.lookups (.index spaceNo))) → ∀ w, I ls w →
      Wlp (body no) (AsksFor I J (before ++ index.elim [] (Zval.lookups (.index spaceNo))) asks) w)
    (hls : ls.Sublist before) (hw : I ls w) : Wlp (withIndex P spaceNo index body)
      (AsksFor I J (before ++ index.elim [] (Zval.lookups (.index spaceNo))) asks) w := by
  cases index with
  | none => exact hbody 0 ls rfl (hls.trans (List.sublist_append_left _ _)) w hw
  | some index =>
    refine .bind (((h.indexno ls spaceNo index w hw).and (getIndexnoByName_resolves spaceNo index w)).mono ?_)
    rintro no w' ⟨⟨ls', hls', hw'⟩, hno⟩
    have hboth := hls.append hls'
    exact .ite (fun _ => .stop hboth hw') fun hne => hbody no _ (hno.resolve_left hne) hboth w' hw'

theorem withArgs_asks (h : Asking P I J) {H : Heap} {args : Zval} {body : Heap → Zval → M PVal}
    (hbody : ∀ H' ops, beeUpdateVerifyArgs H args = .ok (H', ops) → Wlp (body H' ops) (AsksFor I J lookups asks) w)
    (hls : ls.Sublist lookups) (hw : I ls w) : Wlp (withArgs H args body) (AsksFor I J lookups asks) w := by
  unfold withArgs
  cases hverify : beeUpdateVerifyArgs H args with
  | error e => exact throw_asks h hls hw
  | ok r => exact hbody r.1 r.2 hverify

theorem convertIterator_keeps (h : Asking P I J) (iterator : Option Zval) (all : Bool) :
    Keeps (I ls) (convertIterator iterator all) := by
  unfold convertIterator
  split
  · exact .pure _
  · exact .pure _
  · exact .pure _
  · split
    · exact .pure _
    · exact .bind (h.throwExc ls _ _) fun _ => .pure _
  · exact .throw

theorem request_asks (h : Asking P I J) {H : Heap} {r : Request} (hproper : r.Proper) (hsmall : r.Small)
    (hasks : asks H r) (hls : ls.Sublist lookups) (hw : I ls w) :
    Wlp (request P H r) (AsksFor I J lookups asks) w := by
  refine .bind ((h.execute ls H r hproper hsmall w hw).mono fun answer w' hw' => ?_)
  match answer with
  | none => exact .pure ⟨ls, hls, .inr ⟨H, r, hasks, hw'⟩⟩
  | some (_, body) =>
    show Wlp (beeReturnData body) (AsksFor I J lookups asks) w'
    unfold beeReturnData
    split
    · split
      · exact .pure ⟨ls, hls, .inr ⟨H, r, hasks, hw'⟩⟩
      · refine .bind ((h.after ls H r _ _ w' hw').mono fun _ _ hw'' => ?_)
        exact .pure ⟨ls, hls, .inr ⟨H, r, hasks, hw''⟩⟩
    · exact .throw

/-- What a method does for its arguments asks for one of these requests, in the space of some number. -/
theorem onDemand_asks (h : Asking P I J) {body : M PVal} {lookups : Int → List Lookup}
    {asks : Int → Heap → Request → Prop} (hbody : ∀ w, I [] w →
      Wlp body (fun v w' => ∃ no, AsksFor I J (lookups no) (asks no) v w') w) (hw : I [] w) :
    Wlp (onDemand P body) (fun v w' => ∃ no, AsksFor I J (lookups no) (asks no) v w') w := by
  refine .bind ((h.onDemand w hw).mono fun _ w' hw' => .ite (fun _ => hbody w' hw') fun _ => ?_)
  exact (AsksFor.stop (List.nil_sublist _) hw').mono fun _ _ hstop => ⟨0, hstop⟩

theorem withLimit_asks (h : Asking P I J) {zlimit : Option Zval} {body : Int64 → M PVal}
    {lookups : Int → List Lookup} {asks : Int → Heap → Request → Prop} (hbody : ∀ limit, limitIs zlimit limit →
      Wlp (body limit) (fun v w' => ∃ no, AsksFor I J (lookups no) (asks no) v w') w) (hw : I [] w) :
    Wlp (withLimit zlimit body) (fun v w' => ∃ no, AsksFor I J (lookups no) (asks no) v w') w := by
  unfold withLimit
  split
  · exact hbody _ rfl
  · exact hbody _ rfl
  · exact hbody _ rfl
  · exact (throw_asks h (List.nil_sublist _) hw).mono fun _ _ hstop => ⟨0, hstop⟩

end Parts

/-! ## The requests of the methods -/

/-- A request without string arguments of its own. -/
theorem small_of_fields {r : Request} (h : ∀ f ∈ r.fields, ∀ c, f.2 ≠ .string c) : r.Small := by
  rintro ⟨key, arg⟩ hf
  match arg with
  | .long _ | .zval _ => exact trivial
  | .string c => exact absurd rfl (h _ hf c)

/-- The name of a procedure is a PHP string. -/
theorem call_small (proc : ZStr) (tuple : Zval) :
    (Request.call proc.val tuple).Small ∧ (Request.eval proc.val tuple).Small := by
  have hproc : Arg.Small (.string proc.val) := by
    have := proc.small
    show proc.val.length + 5 < 2 ^ 32
    omega
  constructor
  · intro f hf
    obtain rfl | rfl : f = _ ∨ f = _ := by simpa [Request.fields] using hf
    · exact hproc
    · exact trivial
  · intro f hf
    obtain rfl | rfl : f = _ ∨ f = _ := by simpa [Request.fields] using hf
    · exact hproc
    · exact trivial

/-! ## The methods -/

variable {P : Platform} {Good : Net → Prop} {I : World → Prop}

/-- A method that works on data asks for the request for its arguments, or for none. -/
theorem Op.run_asks {I : List Lookup → World → Prop} {J : List Lookup → Heap → Request → World → Prop}
    (h : Asking P I J) (H : Heap) {op : Op} (hop : op.OnData) {w : World} (hw : I [] w) :
    Wlp (op.run P H) (fun v w' => ∃ no, AsksFor I J (op.lookups no) (op.Asks H no) v w') w := by
  cases op with
  | ping =>
    refine onDemand_asks h (fun w hw => ?_) hw
    refine .bind ((h.execute [] [] .ping trivial (small_of_fields ?_) w hw).mono ?_)
    · simp [Request.fields]
    · intro answer w' hw'
      cases answer with
      | none => exact .pure ⟨0, [], List.nil_sublist _, .inr ⟨[], .ping, ⟨rfl, rfl⟩, hw'⟩⟩
      | some _ => exact .pure ⟨0, [], List.nil_sublist _, .inr ⟨[], .ping, ⟨rfl, rfl⟩, hw'⟩⟩
  | select space key index zlimit offset iterator =>
    refine onDemand_asks h (fun w hw => withLimit_asks h (fun limit hlimit => ?_) hw) hw
    refine withSpace_asks h (fun _ => List.sublist_append_left _ _) (fun no ls hno hls w hw => ?_) hw
    refine withIndex_asks h (fun indexNo ls hindex hls w hw => ?_) hls hw
    refine .bind fun id w' hconvert => ?_
    have hw' := convertIterator_keeps h iterator _ w hw _ _ hconvert
    refine .ite (fun _ => .stop hls hw') fun _ => .bind (.lift fun keyNew hkey => ?_)
    refine request_asks h trivial (small_of_fields (by simp [Request.fields])) ?_ hls hw'
    exact ⟨indexNo, limit, id, keyNew.2, hno, hindex, hlimit, ⟨w, w', hconvert⟩, hkey, rfl⟩
  | insert space tuple =>
    refine onDemand_asks h (fun w hw => withSpace_asks h (fun _ => .refl _) (fun no ls hno hls w hw => ?_) hw) hw
    exact request_asks h (.inl rfl) (small_of_fields (by simp [Request.fields])) ⟨rfl, hno, rfl⟩ hls hw
  | replace space tuple =>
    refine onDemand_asks h (fun w hw => withSpace_asks h (fun _ => .refl _) (fun no ls hno hls w hw => ?_) hw) hw
    exact request_asks h (.inr rfl) (small_of_fields (by simp [Request.fields])) ⟨rfl, hno, rfl⟩ hls hw
  | delete space key index =>
    refine onDemand_asks h (fun w hw => ?_) hw
    refine withSpace_asks h (fun _ => List.sublist_append_left _ _) (fun no ls hno hls w hw => ?_) hw
    refine withIndex_asks h (fun indexNo ls hindex hls w hw => .bind (.lift fun keyNew hkey => ?_)) hls hw
    refine request_asks h trivial (small_of_fields (by simp [Request.fields])) ?_ hls hw
    exact ⟨indexNo, keyNew.2, hno, hindex, hkey, rfl⟩
  | call proc tuple =>
    refine onDemand_asks h (fun w hw => .bind (.lift fun tupleNew htuple => ?_)) hw
    have hasks : (Op.call proc tuple).Asks H 0 tupleNew.1 (.call proc.val tupleNew.2) := ⟨tupleNew.2, htuple, rfl⟩
    have hrequest := request_asks (r := .call proc.val tupleNew.2) h trivial (call_small proc _).1 hasks
      (.refl []) hw
    exact hrequest.mono fun _ _ h => ⟨0, h⟩
  | eval proc tuple =>
    refine onDemand_asks h (fun w hw => .bind (.lift fun tupleNew htuple => ?_)) hw
    have hasks : (Op.eval proc tuple).Asks H 0 tupleNew.1 (.eval proc.val tupleNew.2) := ⟨tupleNew.2, htuple, rfl⟩
    have hrequest := request_asks (r := .eval proc.val tupleNew.2) h trivial (call_small proc _).2 hasks
      (.refl []) hw
    exact hrequest.mono fun _ _ h => ⟨0, h⟩
  | update space key args index =>
    refine onDemand_asks h (fun w hw => ?_) hw
    refine withSpace_asks h (fun _ => List.sublist_append_left _ _) (fun no ls hno hls w hw => ?_) hw
    refine withIndex_asks h (fun indexNo ls hindex hls w hw => ?_) hls hw
    refine withArgs_asks h (fun H₁ ops hops => .bind (.lift fun keyNew hkey => ?_)) hls hw
    refine request_asks h trivial (small_of_fields (by simp [Request.fields])) ?_ hls hw
    exact ⟨indexNo, H₁, ops, keyNew.2, hno, hindex, hops, hkey, rfl⟩
  | upsert space tuple args =>
    refine onDemand_asks h (fun w hw => withSpace_asks h (fun _ => .refl _) (fun no ls hno hls w hw => ?_) hw) hw
    refine withArgs_asks h (fun H₁ ops hops => ?_) hls hw
    exact request_asks h trivial (small_of_fields (by simp [Request.fields])) ⟨ops, hno, hops, rfl⟩ hls hw
  | connect | reconnect | authenticate | flushSchema | close => exact hop.elim

/-- Every method keeps what its parts keep. -/
theorem Op.run_keeps (h : Kept P Good I) (H : Heap) (op : Op) : Keeps I (op.run P H) := by
  have hdata (hop : op.OnData) : Keeps I (op.run P H) := by
    intro w hw
    refine (Op.run_asks h.asking H hop hw).mono ?_
    rintro v w' ⟨-, -, -, ⟨hw', -⟩ | ⟨_, _, -, hw'⟩⟩
    · exact hw'
    · exact hw'
  cases op with
  | connect =>
    exact .bind getObj_keeps fun _ => .ite (.pure _) (.bind h.connect fun _ => .pure _)
  | reconnect => exact .bind h.reconnect fun _ => .pure _
  | authenticate login passwd => exact h.authenticate login passwd
  | flushSchema => exact h.flushSchema
  | close => exact .pure _
  | _ => exact hdata trivial

theorem Step.run_keeps (h : Kept P Good I) {s : Step} (hgood : Good s.net) : Keeps I (s.run P) :=
  .bind (fun w hw => .modify (h.net w s.net hgood hw)) fun _ => Op.run_keeps h s.heap s.op

/-- A run keeps what the parts of the methods keep. -/
theorem Kept.runAll (h : Kept P Good I) {steps : List Step} (hgood : ∀ s ∈ steps, Good s.net) :
    Keeps I (runAll (Step.run P) steps) :=
  runAll_keeps fun s hs => Step.run_keeps h (hgood s hs)

/-! ## Creation -/

theorem cString_length_le (s : Bytes) : (cString s).length ≤ s.length :=
  (List.takeWhile_sublist _).length_le

/-- The connection of a new object. -/
theorem Creation.init_spec {c : Creation} {w : World} (h : c.init = some w) :
    ∃ host port login passwd id isPersistent, login.length < 2 ^ 31 ∧
      w = .init (.new host port login passwd id c.fresh c.garbage) isPersistent c.syncCounter := by
  obtain ⟨new, hnew, rfl⟩ := Option.map_eq_some_iff.mp h
  unfold construct at hnew
  split at hnew
  · cases hnew
  · obtain rfl := Option.some.inj hnew
    refine ⟨_, _, _, _, _, _, ?_, rfl⟩
    cases c.login with
    | none => exact (show (ascii "guest").length < 2 ^ 31 by decide)
    | some login => exact (cString_length_le login.val).trans_lt login.small

end BeePhp
