import BeePhp.Integers
import BeePhp.Msgpack.Proofs.RoundTripProofs
import BeePhp.Proofs.ResponseProofs
import BeePhp.Proofs.SendProofs

/-!
# Proofs: integer arguments

The field of a request holds the low 32 bits of the integer that was given for it (`Op.run_requests`), so
it holds the integer exactly when that has 32 bits and no sign (`Op.run_integers`).
-/

namespace BeePhp

open Codec Program

/-! ## Conversions -/

theorem toInt_toUInt64 (n : Int64) : n.toInt = (n.toUInt64.toNat : Int).bmod (2 ^ 64) :=
  BitVec.toInt_eq_toNat_bmod n.toBitVec

theorem longToUint32_eq (n : Int64) : ((longToUint32 n).toNat : Int) = n.toInt % 2 ^ 32 := by
  have hlt := n.toUInt64.toNat_lt
  rw [longToUint32, UInt64.toNat_toUInt32, toInt_toUInt64, Int.bmod_def]
  split <;> omega

/-- Going through an `int` makes no difference. -/
theorem intToUint32_toInt (n : Int64) : intToUint32 (toInt n.toInt) = longToUint32 n := by
  have hn := longToUint32_eq n
  apply UInt32.toNat_inj.mp
  rw [intToUint32, UInt32.toNat_ofNat', toSize, toInt, Int.bmod_def]
  split <;> omega

theorem longToUint32_exact {n : Int64} : ((longToUint32 n).toNat : Int) = n.toInt ↔ IsUint32 n := by
  rw [longToUint32_eq, IsUint32]
  omega

/-! ## The fields of a request -/

theorem Arg.doc_plain (H : Heap) (arg : Arg) : Plain (arg.doc H) := by
  cases arg with
  | long n => exact trivial
  | string c => exact trivial
  | zval val => exact zvalDoc_plain H val

theorem bodyDoc_plain (H : Heap) (fields : List (UInt32 × Arg)) : Plain (bodyDoc H fields) := by
  refine (pairsPlain_iff _).mpr fun p hp => ?_
  obtain ⟨f, -, rfl⟩ := List.mem_map.mp hp
  exact ⟨rfl, f.2.doc_plain H⟩

/-- A body stands for an array in which every number is under its key. -/
theorem bodyDoc_toPhp {H : Heap} {fields : List (UInt32 × Arg)} (hn : fields.length < 2 ^ 32)
    (hsmall : ∀ f ∈ fields, f.2.Small) (hdistinct : (fields.map (·.1)).Nodup) :
    ∃ t : Table PVal, docToPhp true (bodyDoc H fields) = .ok (.arr t.entries t.nNextFreeElement) ∧
      ∀ key n, (key, Arg.long n) ∈ fields →
        indexFind t.entries key = some (.long (.ofNat n.toNat)) := by
  obtain ⟨v, hv⟩ := (docToPhp_ok_iff (bodyDoc H fields) (bodyDoc_wf H hn hsmall)).mpr
    ⟨bodyDoc_plain H fields, .inl rfl⟩
  obtain ⟨t, hrun, rfl⟩ := header_toPhp hv
  refine ⟨t, hv, fun key n hf => ?_⟩
  have hint : IntegerKeys (fields.map fun f => (.ofNat f.1.toNat, f.2.doc H)) := by
    intro p hp
    obtain ⟨f, -, rfl⟩ := List.mem_map.mp hp
    have hlt := f.1.toNat_lt
    exact ⟨_, rfl, by omega, by omega⟩
  have hkeys : ((fields.map fun f => (Doc.ofNat f.1.toNat, f.2.doc H)).map
      fun p => integerOf p.1).Nodup := by
    rw [List.map_map]
    have hinj : Function.Injective fun key : UInt32 => some (key.toNat : Int) := by
      intro a b hab
      exact UInt32.toNat_inj.mp (Int.ofNat_inj.mp (Option.some.inj hab))
    have hmap := hdistinct.map hinj
    rw [List.map_map] at hmap
    exact hmap
  obtain ⟨value, hvalue, hlookup⟩ :=
    lookup_pairs_some hint hkeys (List.mem_map_of_mem hf) (h := key) rfl hrun
  obtain rfl := Except.ok.inj hvalue
  exact hlookup

theorem toInt_ofNat_uint32 (n : UInt32) : (Int64.ofNat n.toNat).toInt = n.toNat := by
  have hlt := n.toNat_lt
  exact Int64.toInt_ofNat_of_lt (by omega)

theorem Request.fields_length (r : Request) : r.fields.length < 2 ^ 32 := by
  cases r <;> exact of_decide_eq_true rfl

theorem Request.fields_distinct (r : Request) : (r.fields.map (·.1)).Nodup := by
  cases r <;> exact of_decide_eq_true rfl

/-- The numbers of a request are found in the bytes of it. -/
theorem requestField_payload {H : Heap} {r : Request} (hsmall : r.Small) {sync : UInt32}
    {head : Bytes} (hhead : head.length = 5) {key n : UInt32} (hf : (key, Arg.long n) ∈ r.fields) :
    requestField (head ++ r.payload H sync) key = some (n.toNat : Int) := by
  have hdocs : r.docs H sync = [headerDoc r.type sync, bodyDoc H r.fields] := by
    cases r with
    | ping => exact absurd hf List.not_mem_nil
    | _ => exact rfl
  obtain ⟨header, hheader, -⟩ := headerDoc_toPhp r.type sync
  obtain ⟨body, hbody, hfind⟩ := bodyDoc_toPhp (H := H) r.fields_length hsmall r.fields_distinct
  have hpayload : (head ++ r.payload H sync).drop 5 =
      (headerDoc r.type sync).encode ++ ((bodyDoc H r.fields).encode ++ []) := by
    rw [body_payload hdocs, List.drop_left' hhead, List.append_nil]
  rw [requestField, hpayload, (phpMpUnpack_doc (headerDoc_wf _ _)).mpr ⟨hheader, rfl⟩]
  simp only [(phpMpUnpack_doc (bodyDoc_wf H r.fields_length hsmall)).mpr ⟨hbody, rfl⟩, hfind key n hf,
    toInt_ofNat_uint32]

/-! ## What sends no data request -/

/-- The data requests so far are those in `d`. -/
def Asked (d : List Sent) (w : World) : Prop := w.dataRequests = d

section Silent

variable {P : Platform} {d : List Sent}

theorem asked_of_quiet {α : Type} {x : M α} (h : IsQuiet x) : Keeps (Asked d) x := by
  refine fun w hw => (h w).mono fun _ w' hquiet => ?_
  rw [Asked, World.dataRequests, hquiet.sent]
  exact hw

theorem beeStreamSend_asked {request : Bool} {w : World} (h : Asked d w) : Wlp (beeStreamSend request)
    (fun _ => Asked (d ++ [w.record request].filter (·.request))) w := by
  refine (beeStreamSend_sent request w).mono fun ok w' hsent => ?_
  rw [Asked, World.dataRequests, hsent.2.1, List.filter_append]
  exact congrArg (· ++ _) h

/-- A send of the connection itself is no data request. -/
theorem beeStreamSend_silent : Keeps (Asked d) (beeStreamSend false) := by
  refine fun w h => (beeStreamSend_asked h).mono fun ok w' hw' => ?_
  have hnone : [w.record false].filter (·.request) = [] := rfl
  rw [hnone, List.append_nil] at hw'
  exact hw'

theorem recordExchange_asked {ok : Bool} : Keeps (Asked d) (recordExchange ok) := fun _ h => .modify h

theorem beeAuthenticate_asked : Keeps (Asked d) (beeAuthenticate P) := by
  refine .bind (fun _ h => .modify h) fun _ => ?_
  refine .bind (asked_of_quiet (composeTp_quiet authRequests_quiet)) fun syncs => ?_
  refine .bind beeStreamSend_silent fun ok => .ite (.bind (asked_of_quiet authLoop_quiet) fun _ => ?_) ?_
  · exact .bind recordExchange_asked fun _ => .pure _
  · exact .bind recordExchange_asked fun _ => .pure _

theorem connects_asked : Connects P (Asked d) where
  throwExc := fun _ _ => asked_of_quiet throwExc_quiet
  renew := asked_of_quiet renewPersistentId_quiet
  id := fun _ _ h => h
  close := asked_of_quiet beeStreamClose_quiet
  opened := by
    refine fun w h => (beexllStreamOpen_spec w).mono ?_
    rintro err w' ⟨opens, -, ⟨rfl, greeting, -, rfl⟩ | ⟨herr, rfl⟩⟩
    · exact asked_of_quiet readGreeting_quiet _ h
    · obtain ⟨text, rfl⟩ := Option.ne_none_iff_exists'.mp herr
      exact h
  found := by
    refine fun w h => (beexllStreamFpid2_spec w).mono ?_
    rintro found w' ⟨finds, -, ⟨-, stream, -, rfl⟩ | ⟨-, rfl⟩⟩
    · exact h
    · exact h
  eof := phpStreamEof_keeps fun _ _ h => h
  exchange := beeAuthenticate_asked

theorem lookupName_asked {find : Schema → Int} {request : M Unit}
    {add : Schema → Option Bytes → Nat → Except Fault (Schema × Bool)} {parseError missing : String}
    {name : Bytes} (hrequest : IsQuiet request) :
    Keeps (Asked d) (lookupName find request add parseError missing name) := by
  refine .bind getObj_keeps fun obj => .ite (.pure _) ?_
  refine .bind (asked_of_quiet (composeTp_quiet hrequest)) fun _ => ?_
  refine .bind beeStreamSend_silent fun ok => .ite ?_ (.pure _)
  exact asked_of_quiet (lookupReceive_quiet lookupParse_quiet)

theorem spaceno_asked (name : Zval) : Keeps (Asked d) (getSpacenoByName P name) :=
  spaceno_keeps (fun _ _ => asked_of_quiet throwExc_quiet) (fun _ => lookupName_asked spaceRequest_quiet)
    name

theorem indexno_asked (spaceNo : Int) (name : Zval) :
    Keeps (Asked d) (getIndexnoByName P spaceNo name) :=
  indexno_keeps (fun _ _ => asked_of_quiet throwExc_quiet) (fun _ => lookupName_asked indexRequest_quiet)
    name

end Silent

/-! ## What sends one -/

/-- The method has returned `FALSE` without a data request, or it has sent one that is `Good`. -/
def Requested (d : List Sent) (Good : Request → Prop) (v : PVal) (w : World) : Prop :=
  (v = .bool false ∧ Asked d w) ∨ ∃ s, Asked (d ++ [s]) w ∧ ∃ H r sync, ∃ head : Bytes,
    head.length = 5 ∧ s.own = head ++ r.payload H sync ∧ r.Small ∧ Good r

section Asking

variable {P : Platform} {d : List Sent} {Good : Request → Prop}

/-- One data request goes out, and it is what the encoder has appended to the buffer. -/
theorem execute_asked (H : Heap) {r : Request} (hproper : r.Proper) (hsmall : r.Small) {w : World}
    (h : Asked d w) : Wlp (execute P H r) (fun _ w' => ∃ s, Asked (d ++ [s]) w' ∧ ∃ sync, ∃ head : Bytes,
      head.length = 5 ∧ s.own = head ++ r.payload H sync) w := by
  refine .bind ((asked_of_quiet nextSync_quiet w h).mono fun sync w₁ h₁ => ?_)
  refine .bind (getObj_wlp (.bind (.lift fun value hvalue => .bind (.modify (.bind (.modify ?_))))))
  obtain ⟨str', hencode, hdata⟩ := r.encodes P.ndebug H w₁.obj.value hproper hsmall (longToUint32 sync)
  obtain rfl := Except.ok.inj (hvalue.symm.trans hencode)
  let w₂ : World := { w₁ with
    obj := { w₁.obj with value := str' }
    start := w₁.obj.value.len
    own := str'.data.drop w₁.obj.value.len }
  have h₂ : Asked d w₂ := h₁
  refine .bind ((beeStreamSend_asked h₂).mono fun ok w₃ h₃ => ?_)
  have hown : (w₂.record true).own = (0xce :: toBE 4 (toUint32 (r.payload H (longToUint32 sync)).length)) ++
      r.payload H (longToUint32 sync) := by
    show str'.data.drop w₁.obj.value.len = _
    rw [hdata, List.append_assoc, List.drop_left' w₁.obj.value.data_length]
  have hsent : ∃ s, Asked (d ++ [s]) w₃ ∧ ∃ sync, ∃ head : Bytes,
      head.length = 5 ∧ s.own = head ++ r.payload H sync :=
    ⟨w₂.record true, h₃, longToUint32 sync, _, by simp, hown⟩
  obtain ⟨s, h₃, hs⟩ := hsent
  refine .ite (fun _ => ?_) fun _ => .pure ⟨s, h₃, hs⟩
  exact (asked_of_quiet receive_quiet w₃ h₃).mono fun _ w₄ h₄ => ⟨s, h₄, hs⟩

theorem beeReturnData_quiet {body : PVal} : IsQuiet (beeReturnData body) := by
  unfold beeReturnData
  split
  · split
    · exact .pure
    · exact .bind throwExc_quiet fun _ => .pure
  · exact .throw

/-- From a state with the data requests `d` the method ends as `Requested` says. -/
def Requests (d : List Sent) (Good : Request → Prop) (x : M PVal) : Prop :=
  ∀ w, Asked d w → Wlp x (Requested d Good) w

theorem Requests.false : Requests d Good (Pure.pure (.bool false)) := fun _ h => .pure (.inl ⟨rfl, h⟩)

theorem Requests.bind {α : Type} {x : M α} {f : α → M PVal} (hx : Keeps (Asked d) x)
    (hf : ∀ a, Requests d Good (f a)) : Requests d Good (x >>= f) :=
  fun w h => .bind ((hx w h).mono fun a w' h' => hf a w' h')

theorem Requests.ite {p : Prop} [Decidable p] {x y : M PVal} (hx : Requests d Good x)
    (hy : Requests d Good y) : Requests d Good (if p then x else y) :=
  fun w h => .ite (fun _ => hx w h) fun _ => hy w h

theorem request_requests (H : Heap) {r : Request} (hproper : r.Proper) (hsmall : r.Small)
    (hgood : Good r) : Requests d Good (request P H r) := by
  intro w h
  refine .bind ((execute_asked H hproper hsmall h).mono ?_)
  rintro answer w' ⟨s, hs, sync, head, hhead, hown⟩
  have hmet : ∃ H r sync, ∃ head : Bytes, head.length = 5 ∧ s.own = head ++ r.payload H sync ∧
      r.Small ∧ Good r := ⟨H, r, sync, head, hhead, hown, hsmall, hgood⟩
  match answer with
  | none => exact .pure (.inr ⟨s, hs, hmet⟩)
  | some (_, body) =>
    exact (asked_of_quiet beeReturnData_quiet w' hs).mono fun v w'' hs' => .inr ⟨s, hs', hmet⟩

theorem onDemand_requests {body : M PVal} (hbody : Requests d Good body) :
    Requests d Good (onDemand P body) :=
  .bind connects_asked.links.onDemand fun _ => .ite hbody .false

/-- The number of a space that is given as an integer is that integer as an `int`. -/
theorem withSpace_requests (space : Zval) {body : Int → M PVal}
    (hbody : ∀ no, (∀ n, space = .long n → no = toInt n.toInt) → Requests d Good (body no)) :
    Requests d Good (withSpace P space body) := by
  intro w h
  have hno : Wlp (getSpacenoByName P space) (fun no _ => ∀ n, space = .long n → no = toInt n.toInt) w := by
    cases space with
    | long n => exact .pure fun m hm => by rw [Zval.long.inj hm]
    | _ => exact fun _ _ _ n hn => nomatch hn
  refine .bind ((hno.and (spaceno_asked space w h)).mono fun no w' h' => ?_)
  exact .ite (fun _ => .pure (.inl ⟨rfl, h'.2⟩)) fun _ => hbody no h'.1 w' h'.2

theorem withIndex_requests (spaceNo : Int) (index : Option Zval) {body : Int → M PVal}
    (hbody : ∀ no, (∀ n, index = some (.long n) → no = toInt n.toInt) → Requests d Good (body no)) :
    Requests d Good (withIndex P spaceNo index body) := by
  cases index with
  | none => exact hbody 0 nofun
  | some index =>
    intro w h
    have hno : Wlp (getIndexnoByName P spaceNo index)
        (fun no _ => ∀ n, some index = some (.long n) → no = toInt n.toInt) w := by
      cases index with
      | long n => exact .pure fun m hm => by rw [Zval.long.inj (Option.some.inj hm)]
      | _ => exact fun _ _ _ n hn => nomatch hn
    refine .bind ((hno.and (indexno_asked spaceNo index w h)).mono fun no w' h' => ?_)
    exact .ite (fun _ => .pure (.inl ⟨rfl, h'.2⟩)) fun _ => hbody no h'.1 w' h'.2

theorem withLimit_requests (zlimit : Option Zval) {body : Int64 → M PVal}
    (hbody : ∀ limit, (∀ n, zlimit = some (.long n) → limit = n) → Requests d Good (body limit)) :
    Requests d Good (withLimit zlimit body) := by
  unfold withLimit
  split
  · exact hbody _ nofun
  · exact hbody _ nofun
  case h_3 limit => exact hbody limit fun n hn => Zval.long.inj (Option.some.inj hn)
  · exact .bind (asked_of_quiet throwExc_quiet) fun _ => .false

theorem withArgs_requests (H : Heap) (args : Zval) {body : Heap → Zval → M PVal}
    (hbody : ∀ H args, Requests d Good (body H args)) : Requests d Good (withArgs H args body) := by
  unfold withArgs
  cases beeUpdateVerifyArgs H args with
  | error e => exact .bind (asked_of_quiet throwExc_quiet) fun _ => .false
  | ok r => exact hbody r.1 r.2

theorem convertIterator_quiet {iterator : Option Zval} {all : Bool} :
    IsQuiet (convertIterator iterator all) := by
  unfold convertIterator
  split
  · exact .pure
  · exact .pure
  · exact .pure
  · split
    · exact .pure
    · exact .bind throwExc_quiet fun _ => .pure
  · exact .throw

theorem convertIterator_long {iterator : Option Zval} {all : Bool} {w : World} :
    Wlp (convertIterator iterator all)
      (fun id _ => ∀ n, iterator = some (.long n) → id = toInt n.toInt) w := by
  intro id w' hrun n hn
  subst hn
  exact (Prod.mk.inj (Except.ok.inj hrun)).1.symm

end Asking

/-! ## The methods -/

/-- The low 32 bits of every integer argument are in the field for it. -/
def Op.Carried (op : Op) (r : Request) : Prop :=
  ∀ p ∈ op.integers, (p.1, Arg.long (longToUint32 p.2)) ∈ r.fields

theorem mem_integerArg {p : UInt32 × Int64} {key : UInt32} {arg : Option Zval} :
    p ∈ integerArg key arg ↔ p.1 = key ∧ arg = some (.long p.2) := by
  obtain ⟨k, n⟩ := p
  unfold integerArg
  split
  · simp only [List.mem_singleton, Prod.mk.injEq, Option.some.injEq, Zval.long.injEq]
    exact and_congr_right fun _ => eq_comm
  case h_2 hnot =>
    refine iff_of_false List.not_mem_nil ?_
    rintro ⟨-, rfl⟩
    exact hnot n rfl

section Carrying

variable {P : Platform} {d : List Sent} {H : Heap}

/-- A field for a number of a space, of an index or of an iterator. -/
theorem carried_field {fields : List (UInt32 × Arg)} {key : UInt32} {arg : Option Zval} {i : Int}
    (hi : ∀ n, arg = some (.long n) → i = toInt n.toInt) (hf : (key, Arg.long (intToUint32 i)) ∈ fields) :
    ∀ p ∈ integerArg key arg, (p.1, Arg.long (longToUint32 p.2)) ∈ fields := by
  intro p hp
  obtain ⟨hkey, hn⟩ := mem_integerArg.mp hp
  rw [hkey, ← intToUint32_toInt, ← hi p.2 hn]
  exact hf

theorem select_requests (space : Zval) (key index zlimit : Option Zval) (offset : Int64)
    (iterator : Option Zval) :
    Requests d (Op.select space key index zlimit offset iterator).Carried
      (Bee.select P H space key index zlimit offset iterator) := by
  refine onDemand_requests (withLimit_requests zlimit fun limit hlimit =>
    withSpace_requests space fun spaceNo hspace => withIndex_requests spaceNo index fun indexNo hindex => ?_)
  intro w h
  refine .bind ((convertIterator_long.and ((asked_of_quiet convertIterator_quiet) w h)).mono ?_)
  rintro id w' ⟨hid, h'⟩
  refine Requests.ite .false (.bind (.lift _) fun keyNew => ?_) w' h'
  refine request_requests _ trivial ?_ ?_
  · exact small_of_fields (by simp [Request.fields])
  · intro p hp
    simp only [Op.integers, List.mem_append, List.mem_cons, or_assoc] at hp
    rcases hp with hp | hp | hp | rfl | hp
    · exact carried_field (fun n hn => hspace n (Option.some.inj hn)) (by simp [Request.fields]) p hp
    · exact carried_field hindex (by simp [Request.fields]) p hp
    · obtain ⟨hkey, hn⟩ := mem_integerArg.mp hp
      rw [hkey, ← hlimit p.2 hn]
      simp [Request.fields]
    · simp [Request.fields]
    · exact carried_field hid (by simp [Request.fields]) p hp

/-- Every method that is given an integer for a field of its request. -/
theorem Op.run_requests {op : Op} (hop : op.integers ≠ []) :
    Requests d op.Carried (op.run P H) := by
  cases op with
  | select space key index zlimit offset iterator =>
    exact select_requests space key index zlimit offset iterator
  | insert space tuple =>
    refine onDemand_requests (withSpace_requests space fun no hno =>
      request_requests _ (.inl rfl) (small_of_fields (by simp [Request.fields])) ?_)
    exact carried_field (fun n hn => hno n (Option.some.inj hn)) (by simp [Request.fields])
  | replace space tuple =>
    refine onDemand_requests (withSpace_requests space fun no hno =>
      request_requests _ (.inr rfl) (small_of_fields (by simp [Request.fields])) ?_)
    exact carried_field (fun n hn => hno n (Option.some.inj hn)) (by simp [Request.fields])
  | delete space key index =>
    refine onDemand_requests (withSpace_requests space fun no hno => withIndex_requests no index
      fun i hi => .bind (.lift _) fun keyNew =>
        request_requests _ trivial (small_of_fields (by simp [Request.fields])) ?_)
    intro p hp
    rcases List.mem_append.mp hp with hp | hp
    · exact carried_field (fun n hn => hno n (Option.some.inj hn)) (by simp [Request.fields]) p hp
    · exact carried_field hi (by simp [Request.fields]) p hp
  | update space key args index =>
    refine onDemand_requests (withSpace_requests space fun no hno => withIndex_requests no index
      fun i hi => withArgs_requests _ _ fun H args => .bind (.lift _) fun keyNew =>
        request_requests _ trivial (small_of_fields (by simp [Request.fields])) ?_)
    intro p hp
    rcases List.mem_append.mp hp with hp | hp
    · exact carried_field (fun n hn => hno n (Option.some.inj hn)) (by simp [Request.fields]) p hp
    · exact carried_field hi (by simp [Request.fields]) p hp
  | upsert space tuple args =>
    refine onDemand_requests (withSpace_requests space fun no hno => withArgs_requests _ _ fun H args =>
      request_requests _ trivial (small_of_fields (by simp [Request.fields])) ?_)
    exact carried_field (fun n hn => hno n (Option.some.inj hn)) (by simp [Request.fields])
  | _ => exact absurd rfl hop

end Carrying

/-- A method that is given integers for the fields of its request returns `FALSE` without a data request,
or it sends one. The fields of that are the integers exactly when every one of them has 32 bits and no
sign. -/
theorem Op.run_integers {P : Platform} {H : Heap} {op : Op} (hop : op.integers ≠ []) {w w' : World}
    {v : PVal} (hrun : op.run P H w = .ok (v, w')) :
    (v = .bool false ∧ w'.dataRequests = w.dataRequests) ∨
      ∃ s, w'.dataRequests = w.dataRequests ++ [s] ∧
        ((∀ p ∈ op.integers, requestField s.own p.1 = some p.2.toInt) ↔
          ∀ p ∈ op.integers, IsUint32 p.2) := by
  refine (Op.run_requests hop w rfl v w' hrun).imp_right ?_
  rintro ⟨s, hs, H', r, sync, head, hhead, hown, hsmall, hgood⟩
  refine ⟨s, hs, forall₂_congr fun p hp => ?_⟩
  rw [hown, requestField_payload hsmall hhead (hgood p hp), Option.some_inj, longToUint32_exact]

/-- The space 512 is the space of the request. -/
theorem Op.run_integers_insert : ∃ v w' s,
    (Op.insert (.long 512) 0).run (.blank false) [] (plainWorld .opening) = .ok (v, w') ∧
      w'.dataRequests = [s] ∧ requestField s.own beexSpace = some 512 := by
  have hends : endsIn ((Op.insert (.long 512) 0).run (.blank false) []) (plainWorld .opening)
      (fun w => w.dataRequests.length = 1) = true := by decide +kernel
  obtain ⟨v, w', hrun, hlength⟩ := exists_of_endsIn hends
  have hop : (Op.insert (.long 512) 0).integers ≠ [] := nofun
  rcases Op.run_integers hop hrun with ⟨-, hnone⟩ | ⟨s, hs, hiff⟩
  · rw [hnone] at hlength
    cases hlength
  · refine ⟨v, w', s, hrun, hs, hiff.mpr (fun p hp => ?_) (beexSpace, 512) List.mem_cons_self⟩
    rw [List.mem_singleton.mp hp]
    exact ⟨by decide, by decide⟩

/-- A request for the space 2^32 + 512 goes to the space 512. -/
theorem Op.run_integers_wide : ¬ ∀ (P : Platform) (H : Heap) (op : Op) (w w' : World) (v : PVal),
    op.integers ≠ [] → op.run P H w = .ok (v, w') →
      (v = .bool false ∧ w'.dataRequests = w.dataRequests) ∨
        ∃ s, w'.dataRequests = w.dataRequests ++ [s] ∧
          ∀ p ∈ op.integers, requestField s.own p.1 = some p.2.toInt := by
  intro h
  have hends : endsIn ((Op.insert (.long 4294967808) 0).run (.blank false) []) (plainWorld .opening)
      (fun w => w.dataRequests.map (fun s => requestField s.own beexSpace) = [some 512]) = true := by
    decide +kernel
  obtain ⟨v, w', hrun, hends'⟩ := exists_of_endsIn hends
  have hfields := of_decide_eq_true hends'
  have hop : (Op.insert (.long 4294967808) 0).integers ≠ [] := nofun
  rcases h _ _ _ _ _ _ hop hrun with ⟨-, hnone⟩ | ⟨s, hs, hexact⟩
  · rw [hnone] at hfields
    cases hfields
  · have hwide := hexact (beexSpace, 4294967808) List.mem_cons_self
    rw [hs] at hfields
    have hnarrow : requestField s.own beexSpace = some 512 := (List.cons.inj hfields).1
    rw [show (beexSpace, (4294967808 : Int64)).1 = beexSpace from rfl, hnarrow] at hwide
    cases hwide

end BeePhp
