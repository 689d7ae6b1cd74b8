import BeePhp.Packing
import BeePhp.Proofs.AuthRequestProofs

/-!
# Proofs: the packing routines and the buffer

Every routine is right about the number of bytes it writes (`PackCall.steps_exact`), and a step that is
right about it stays inside the buffer, whatever the allocator does beyond what is known of it
(`put_run`). So does every sequence of calls (`packCalls_safe`). Over PHP's own allocator the steps are
those of the routines (`PackCall.append_eq`).
-/

namespace BeePhp

open Codec

/-! ## Growing -/

section Growing

variable {alloc : SmartString → Nat → SmartString}

theorem smartStringEnsure_keeps (halloc : Allocates alloc) (s : SmartString) (n : Nat) :
    (smartStringEnsure alloc s n).len = s.len ∧ (smartStringEnsure alloc s n).data = s.data := by
  by_cases h : s.a > (s.len + n) % 2 ^ 64
  · rw [smartStringEnsure, if_pos h]
    exact ⟨rfl, rfl⟩
  · rw [smartStringEnsure, if_neg h]
    exact ⟨halloc.len _ _, halloc.data _ _⟩

/-- There is room after `smart_string_ensure`, also when the doubled size overflows. -/
theorem smartStringEnsure_room (halloc : Allocates alloc) {s : SmartString} {n : Nat}
    (hn : s.len + n < 2 ^ 64) : s.len + n ≤ (smartStringEnsure alloc s n).a := by
  by_cases h : s.a > (s.len + n) % 2 ^ 64
  · rw [smartStringEnsure, if_pos h]
    omega
  · rw [smartStringEnsure, if_neg h]
    have hroom := halloc.room s
    dsimp only
    split
    · have := hroom ((s.len + n) % 2 ^ 64)
      omega
    · have := hroom (s.a * 2 % 2 ^ 64)
      omega

theorem alloc4_allocates : Allocates SmartString.alloc4 where
  len s n := (s.alloc4_spec n).1
  data s n := (s.alloc4_spec n).2.1
  room s n := le_of_lt (s.alloc4_spec n).2.2

/-- Over PHP's own allocator, `smart_string_ensure` with and without a bound on the numbers. -/
theorem smartStringEnsure_alloc4 {s : SmartString} {n : Nat} (ha : s.a * 2 < 2 ^ 64)
    (hn : s.len + n < 2 ^ 64) : smartStringEnsure SmartString.alloc4 s n = s.ensure n := by
  rw [smartStringEnsure, SmartString.ensure, Nat.mod_eq_of_lt ha, Nat.mod_eq_of_lt hn]

/-! ## Steps -/

/-- A write of as many bytes as there are said to be is safe. -/
theorem put_run (halloc : Allocates alloc) {str : SmartString} {bs : Bytes}
    (hlt : str.len + bs.length < 2 ^ 64) :
    ∃ after, putAt (smartStringEnsure alloc str bs.length) bs.length bs = .ok after ∧
      Put.Safe ⟨str, smartStringEnsure alloc str bs.length, bs, after⟩ ∧
      after.data = str.data ++ bs := by
  obtain ⟨hlen, hdata⟩ := smartStringEnsure_keeps halloc str bs.length
  have hroom := smartStringEnsure_room halloc hlt
  generalize smartStringEnsure alloc str bs.length = grown at *
  have hlast : grown.len + bs.length ≤ grown.c.length - 1 := hlen ▸ hroom
  have hmem := grown.len_le
  have hwrite : grown.len + bs.length ≤ grown.c.length := by omega
  have hlength : (grown.c.take grown.len ++ bs ++ grown.c.drop (grown.len + bs.length)).length =
      grown.c.length := by
    simp only [List.length_append, List.length_take, List.length_drop]
    omega
  simp only [putAt, SmartString.write, dif_pos hwrite, bind, Except.bind, SmartString.setLen,
    hlength]
  refine ⟨_, rfl, ⟨⟨hlen, ?_⟩, hroom, ?_, ?_, ?_⟩, ?_⟩
  · simpa only [SmartString.data, hlen] using hdata
  · simp only [hlen]
  · simp only [hlen]
  · simp only [SmartString.a, hlength]
    exact hlast
  · have hkept : (grown.c.take grown.len).length = grown.len := List.length_take_of_le (by omega)
    rw [← hdata]
    simp only [SmartString.data]
    rw [List.append_assoc, List.take_append, hkept, List.take_of_length_le (by omega),
      Nat.add_sub_cancel_left, List.take_left']
    rfl

/-- What a step has to be: a write of as many bytes as there are said to be, or an end of a kind. -/
def BufferStep.Exact (ends : Fault → Prop) : BufferStep → Prop
  | .ensure _ => True
  | .put needed bs => bs.length = needed
  | .halt f => ends f

def AllExact (ends : Fault → Prop) (steps : List BufferStep) : Prop := ∀ s ∈ steps, s.Exact ends

/-- Steps that are right about their bytes write inside the buffer, and if the process does not end on
the way they append all of them. -/
theorem runSteps_safe (halloc : Allocates alloc) {ends : Fault → Prop} {steps : List BufferStep}
    (hexact : AllExact ends steps) {str : SmartString}
    (hlt : str.len + (written steps).length < 2 ^ 63) :
    (∀ p ∈ (runSteps (smartStringEnsure alloc) steps str).1, p.Safe) ∧
      ((∃ f, (runSteps (smartStringEnsure alloc) steps str).2 = .error f ∧ ends f) ∨
        ∃ str', (runSteps (smartStringEnsure alloc) steps str).2 = .ok str' ∧
          str'.data = str.data ++ written steps) := by
  induction steps generalizing str with
  | nil => exact ⟨by simp [runSteps], .inr ⟨str, rfl, by simp [written]⟩⟩
  | cons step steps ih =>
    have hrest : AllExact ends steps := fun s hs => hexact s (List.mem_cons_of_mem _ hs)
    have hstep := hexact step List.mem_cons_self
    cases step with
    | halt f => exact ⟨by simp [runSteps], .inl ⟨f, rfl, hstep⟩⟩
    | ensure len =>
      obtain ⟨hlen, hdata⟩ := smartStringEnsure_keeps halloc str len
      have hih := @ih hrest (smartStringEnsure alloc str len) (by rwa [hlen])
      rwa [hdata] at hih
    | put needed bs =>
      cases hstep
      simp only [written, List.length_append] at hlt
      obtain ⟨after, hrun, hsafe, hdata⟩ := @put_run _ halloc str bs (by omega)
      have hafter : after.len = str.len + bs.length := hsafe.len
      obtain ⟨hputs, hout⟩ := @ih hrest after (by rw [hafter]; omega)
      have hcons : runSteps (smartStringEnsure alloc) (.put bs.length bs :: steps) str =
          (⟨str, smartStringEnsure alloc str bs.length, bs, after⟩ ::
            (runSteps (smartStringEnsure alloc) steps after).1,
            (runSteps (smartStringEnsure alloc) steps after).2) := by
        simp only [runSteps, hrun]
      rw [hcons]
      refine ⟨List.forall_mem_cons.mpr ⟨hsafe, hputs⟩, ?_⟩
      rwa [hdata, List.append_assoc] at hout

end Growing

/-! ## Scalars -/

section Routines

variable {ends : Fault → Prop}

theorem AllExact.append {xs ys : List BufferStep} (hxs : AllExact ends xs) (hys : AllExact ends ys) :
    AllExact ends (xs ++ ys) := by
  intro s hs
  rcases List.mem_append.mp hs with h | h
  · exact hxs s h
  · exact hys s h

theorem AllExact.ensure {xs : List BufferStep} (hxs : AllExact ends xs) (len : Nat) :
    AllExact ends (.ensure len :: xs) :=
  List.forall_mem_cons.mpr ⟨trivial, hxs⟩

theorem allExact_put {needed : Nat} {bs : Bytes} (h : bs.length = needed) :
    AllExact ends [.put needed bs] := by
  intro s hs
  cases List.mem_singleton.mp hs
  exact h

theorem allExact_halt {f : Fault} (h : ends f) : AllExact ends [.halt f] := by
  intro s hs
  cases List.mem_singleton.mp hs
  exact h

theorem packNil_exact : AllExact ends phpMpPackNilSteps := allExact_put rfl

theorem packLong_exact (ndebug : Bool) (val : Int64) :
    AllExact ends (phpMpPackLongSteps ndebug val) := by
  by_cases h : val ≥ 0
  · rw [phpMpPackLongSteps, if_pos h]
    exact allExact_put (mpEncodeUint_length _)
  · have hneg : val.toInt < 0 := by
      rw [int64_nonneg_iff] at h
      omega
    rw [phpMpPackLongSteps, if_neg h, phpMpPackLongNegSteps, mpSizeofInt_eq ndebug hneg,
      mpEncodeInt_eq ndebug hneg]
    exact allExact_put rfl

theorem packDouble_exact (bits : UInt64) : AllExact ends (phpMpPackDoubleSteps bits) :=
  allExact_put (by simp [mpEncodeDouble, mpSizeofDouble])

theorem packBool_exact (val : Bool) : AllExact ends (phpMpPackBoolSteps val) :=
  allExact_put rfl

theorem packString_exact {c : Bytes} (h : c.length < 2 ^ 31) :
    AllExact ends (phpMpPackStringSteps (some c) c.length) :=
  allExact_put (mpEncodeStr_length h)

theorem packHash_exact (len : Nat) : AllExact ends (phpMpPackHashSteps len) :=
  allExact_put (mpEncodeMap_length _)

theorem packArray_exact (len : Nat) : AllExact ends (phpMpPackArraySteps len) :=
  allExact_put (mpEncodeArray_length _)

theorem packPackageSize_exact (val : Nat) : AllExact ends (phpMpPackPackageSizeSteps val) :=
  allExact_put (by simp)

theorem packKey_exact (ndebug : Bool) {k : Key} (h : ∀ s, k = .str s → s.length < 2 ^ 31) :
    AllExact ends (packKeySteps ndebug k) := by
  cases k with
  | idx i => exact packLong_exact ndebug i.toInt64
  | str s => exact packString_exact (h s rfl)

/-! ## Values -/

/-- What a call of `php_mp_pack` does to the buffer when it may make `fuel` calls inside each other. -/
def ExactWith (ends : Fault → Prop) (H : Heap) (fuel : Nat)
    (rec : Counts → Zval → List BufferStep × Counts) : Prop :=
  ∀ c v, Enough H fuel c v → AllExact ends (rec c v).1 ∧ (rec c v).2 = c

variable {H : Heap} {fuel : Nat} {rec : Counts → Zval → List BufferStep × Counts}

theorem packElement_exact (hrec : ExactWith ends H fuel rec) {c : Counts}
    (hfuel : H.room c + 1 ≤ fuel) (v : Option Zval) :
    AllExact ends (packElementSteps rec c v).1 ∧ (packElementSteps rec c v).2 = c := by
  match v with
  | none => exact ⟨packNil_exact, rfl⟩
  | some (.arr id) =>
    by_cases hc : c id > 1
    · rw [packElementSteps, if_pos hc]
      exact ⟨packNil_exact, rfl⟩
    · obtain ⟨hexact, hcounts⟩ := hrec (c.inc id) (.arr id) (enough_inc hfuel hc)
      rw [packElementSteps, if_neg hc]
      exact ⟨hexact, by rw [hcounts, Counts.dec_inc]⟩
  | some .null | some (.long _) | some (.double _) | some (.bool _) | some (.str _) | some .other =>
    exact hrec c _ (show 1 ≤ fuel by omega)

theorem packIndices_exact (hrec : ExactWith ends H fuel rec) {c : Counts} (ht : HashTable) {n : Nat}
    (hfuel : n ≠ 0 → H.room c + 1 ≤ fuel) (i : Nat) :
    AllExact ends (packIndicesSteps rec ht n i c).1 ∧ (packIndicesSteps rec ht n i c).2 = c := by
  induction n generalizing i with
  | zero => exact ⟨by simp [packIndicesSteps, AllExact], rfl⟩
  | succ n ih =>
    obtain ⟨hexact, hcounts⟩ :=
      packElement_exact hrec (hfuel (by simp)) (zendHashIndexFind ht (UInt64.ofNat i))
    obtain ⟨hrest, hcounts'⟩ := ih (fun _ => hfuel (by simp)) (i + 1)
    simp only [packIndicesSteps, hcounts]
    exact ⟨hexact.append hrest, hcounts'⟩

theorem packEntries_exact (ndebug : Bool) (hrec : ExactWith ends H fuel rec) {c : Counts}
    {entries : List (Key × Zval)} (hfuel : entries ≠ [] → H.room c + 1 ≤ fuel)
    (hkeys : ∀ s, Key.str s ∈ keys entries → s.length < 2 ^ 31) :
    AllExact ends (packEntriesSteps ndebug rec entries c).1 ∧
      (packEntriesSteps ndebug rec entries c).2 = c := by
  induction entries with
  | nil => exact ⟨by simp [packEntriesSteps, AllExact], rfl⟩
  | cons e entries ih =>
    obtain ⟨k, v⟩ := e
    have hkey : AllExact ends (packKeySteps ndebug k) :=
      packKey_exact ndebug fun s hs => hkeys s (hs ▸ List.mem_cons_self)
    obtain ⟨hexact, hcounts⟩ := packElement_exact hrec (hfuel (by simp)) (some v)
    obtain ⟨hrest, hcounts'⟩ := ih (fun _ => hfuel (by simp))
      fun s hs => hkeys s (List.mem_cons_of_mem _ hs)
    simp only [packEntriesSteps, hcounts]
    exact ⟨(hkey.append hexact).append hrest, hcounts'⟩

/-- `php_mp_pack` is right about every write, does not end the process, and leaves the counts as they
were. -/
theorem phpMpPackRec_exact (ends : Fault → Prop) (ndebug : Bool) (H : Heap) (fuel : Nat) :
    ExactWith ends H fuel (phpMpPackRecSteps ndebug H fuel) := by
  induction fuel with
  | zero => exact fun _ _ h => absurd (enough_pos h) (by omega)
  | succ fuel ih =>
    intro c v henough
    match v with
    | .null | .other => exact ⟨packNil_exact, rfl⟩
    | .long n => exact ⟨packLong_exact ndebug n, rfl⟩
    | .double bits => exact ⟨packDouble_exact bits, rfl⟩
    | .bool b => exact ⟨packBool_exact b, rfl⟩
    | .str s => exact ⟨packString_exact s.small, rfl⟩
    | .arr id =>
      have hfuel := enough_table henough
      simp only [phpMpPackRecSteps]
      split
      · obtain ⟨hexact, hcounts⟩ := packEntries_exact ndebug ih hfuel (H.table id).key_small
        exact ⟨(packHash_exact _).append hexact, hcounts⟩
      · have hn : zendHashNumElements (H.table id) ≠ 0 → H.room c + 1 ≤ fuel :=
          fun hne => hfuel (by simpa [zendHashNumElements] using hne)
        obtain ⟨hexact, hcounts⟩ := packIndices_exact ih (H.table id) hn 0
        exact ⟨(packArray_exact _).append hexact, hcounts⟩

theorem phpMpPack_exact (ndebug : Bool) (H : Heap) (c : Counts) (v : Zval) :
    AllExact ends (phpMpPackSteps ndebug H c v).1 ∧ (phpMpPackSteps ndebug H c v).2 = c :=
  phpMpPackRec_exact ends ndebug H H.depth c v (enough_depth H c v)

/-! ## Requests -/

theorem packHeader_exact (ndebug : Bool) (size : Nat) (request sync : UInt32) :
    AllExact ends (phpTpPackHeaderSteps ndebug size request sync) :=
  (((((packPackageSize_exact _).append (packHash_exact _)).append (packLong_exact _ _)).append
    (packLong_exact _ _)).append (packLong_exact _ _)).append (packLong_exact _ _)

theorem Arg.steps_exact (ndebug : Bool) (H : Heap) (c : Counts) {arg : Arg}
    (h : ∀ s, arg = .string s → s.length < 2 ^ 31) :
    AllExact ends (arg.steps ndebug H c).1 ∧ (arg.steps ndebug H c).2 = c := by
  cases arg with
  | long n => exact ⟨packLong_exact ndebug _, rfl⟩
  | string s => exact ⟨packString_exact (h s rfl), rfl⟩
  | zval val => exact phpMpPack_exact ndebug H c val

theorem packFields_exact (ndebug : Bool) (H : Heap) (c : Counts) {fields : List (UInt32 × Arg)}
    (h : ∀ f ∈ fields, ∀ s, f.2 = .string s → s.length < 2 ^ 31) :
    AllExact ends (packFieldsSteps ndebug H fields c) := by
  induction fields with
  | nil => simp [packFieldsSteps, AllExact]
  | cons f fields ih =>
    obtain ⟨key, arg⟩ := f
    obtain ⟨hexact, hcounts⟩ := arg.steps_exact ndebug H c (h _ List.mem_cons_self)
    simp only [packFieldsSteps, hcounts]
    exact ((packLong_exact _ _).append hexact).append (ih fun f hf => h f (List.mem_cons_of_mem _ hf))

theorem Arg.sizeof_ok (ndebug : Bool) (H : Heap) (c : Counts) (arg : Arg) :
    ∃ n, arg.sizeof ndebug H c = .ok (n, c) := by
  cases arg with
  | long n => exact ⟨_, by simp only [Arg.sizeof, sizeofUint32_eq]; rfl⟩
  | string s => exact ⟨_, rfl⟩
  | zval val => exact ⟨_, phpMpSizeofRec_eq ndebug H H.depth c val (enough_depth H c val)⟩

theorem sizeofFields_ok (ndebug : Bool) (H : Heap) (c : Counts) (fields : List (UInt32 × Arg))
    (needed : Nat) : ∃ n, sizeofFields ndebug H fields needed c = .ok (n, c) := by
  induction fields generalizing needed with
  | nil => exact ⟨needed, rfl⟩
  | cons f fields ih =>
    obtain ⟨key, arg⟩ := f
    obtain ⟨m, hm⟩ := arg.sizeof_ok ndebug H c
    simp only [sizeofFields, sizeofUint32_eq, bind, Except.bind, hm]
    exact ih _

theorem sizeofRequest_ok (ndebug : Bool) (H : Heap) (c : Counts) (request sync : UInt32) (n : Nat)
    (fields : List (UInt32 × Arg)) :
    ∃ size, sizeofRequest ndebug H c request sync n fields = .ok (size, c) := by
  simp only [sizeofRequest, phpTpSizeofHeader_eq, bind, Except.bind]
  exact sizeofFields_ok ndebug H c fields _

/-- The steps of an encoder whose size function returns. -/
theorem encodeRequest_exact (ndebug : Bool) (H : Heap) {c : Counts}
    {size : Except Fault (Nat × Counts)} (hsize : ∃ n, size = .ok (n, c)) (request sync : UInt32)
    (n : Nat) {fields : List (UInt32 × Arg)}
    (h : ∀ f ∈ fields, ∀ s, f.2 = .string s → s.length < 2 ^ 31) :
    AllExact ends (encodeRequestSteps ndebug H size request sync n fields) := by
  obtain ⟨packetSize, rfl⟩ := hsize
  exact (((packHeader_exact _ _ _ _).append (packHash_exact _)).append
    (packFields_exact ndebug H c h)).ensure _

theorem Request.steps_exact (ndebug : Bool) (H : Heap) (c : Counts) (sync : UInt32) {r : Request}
    (hsmall : ∀ f ∈ r.fields, ∀ s, f.2 = .string s → s.length < 2 ^ 31)
    (hends : ¬ (ndebug = true ∨ r.Proper) → ends .assertion) :
    AllExact ends (r.steps ndebug H c sync) := by
  cases r with
  | ping =>
    simp only [Request.steps, phpTpSizeofPing, phpTpSizeofHeader_eq]
    exact (packHeader_exact _ _ _ _).ensure _
  | insertOrReplace spaceNo tuple type =>
    by_cases hproper : ndebug = false ∧ ¬ (type = beexInsert ∨ type = beexReplace)
    · simp only [Request.steps, if_pos hproper]
      refine allExact_halt (hends ?_)
      rintro (rfl | hproper')
      · exact Bool.noConfusion hproper.1
      · exact hproper.2 hproper'
    · simp only [Request.steps, if_neg hproper]
      exact encodeRequest_exact ndebug H (sizeofRequest_ok ndebug H c _ _ _ _) _ _ _ hsmall
  | _ => exact encodeRequest_exact ndebug H (sizeofRequest_ok ndebug H c _ _ _ _) _ _ _ hsmall

theorem phpTpSizeofAuth_ok (ndebug : Bool) (sync : UInt32) (ulen : Nat) (nopass : Bool) :
    ∃ n, phpTpSizeofAuth ndebug sync ulen nopass = .ok n := by
  simp only [phpTpSizeofAuth, phpTpSizeofHeader_eq, sizeofUint32_eq, bind, Except.bind, pure,
    Except.pure]
  by_cases h : nopass = true
  · exact ⟨_, if_neg (not_not.mpr h)⟩
  · exact ⟨_, if_pos h⟩

theorem authSteps_exact (ndebug : Bool) (sync : UInt32) {username : Bytes}
    (hsmall : username.length < 2 ^ 31) {scramble : Option Bytes}
    (hends : ¬ scramble.isSome → ends .nullDeref) :
    AllExact ends (phpTpEncodeAuthSteps ndebug sync username scramble) := by
  obtain ⟨size, hsize⟩ := phpTpSizeofAuth_ok ndebug sync username.length scramble.isSome
  simp only [phpTpEncodeAuthSteps, hsize]
  refine (((((((packHeader_exact _ _ _ _).append (packHash_exact _)).append
    (packLong_exact _ _)).append (packString_exact hsmall)).append (packLong_exact _ _)).append
    (packArray_exact _)).append ?_).ensure _
  cases scramble with
  | some scramble => simp [AllExact]
  | none =>
    have hmethod : AllExact ends (phpMpPackStringSteps (some (ascii "chap-sha1")) 9) :=
      packString_exact (c := ascii "chap-sha1") (by decide)
    exact hmethod.append ((allExact_halt (hends (by simp))).ensure _)

end Routines

/-! ## Calls -/

/-- Every call is right about every write, and ends the process only as `PackCall.Returns` says. -/
theorem PackCall.steps_exact (ndebug : Bool) {call : PackCall} (hsmall : call.Small)
    {ends : Fault → Prop} (hends : ¬ call.Returns ndebug → ends .assertion ∧ ends .nullDeref) :
    AllExact ends (call.steps ndebug) := by
  cases call with
  | nil => exact packNil_exact
  | long val => exact packLong_exact ndebug val
  | double bits => exact packDouble_exact bits
  | bool val => exact packBool_exact val
  | string c => exact packString_exact hsmall
  | hash len => exact packHash_exact len
  | array len => exact packArray_exact len
  | packageSize val => exact packPackageSize_exact val
  | pack H c val => exact (phpMpPack_exact ndebug H c val).1
  | request H c sync r => exact r.steps_exact ndebug H c sync hsmall fun h => (hends h).1
  | auth sync username scramble => exact authSteps_exact ndebug sync hsmall fun h => (hends h).2

/-- Packing never overruns the buffer: in every sequence of calls each write is safe, and if no call
ends the process all the bytes are appended. -/
theorem packCalls_safe {alloc : SmartString → Nat → SmartString} (halloc : Allocates alloc)
    (ndebug : Bool) {calls : List PackCall} (hsmall : ∀ call ∈ calls, call.Small) {str : SmartString}
    (htotal : str.len + (written (callSteps ndebug calls)).length < 2 ^ 63) :
    (∀ p ∈ (runSteps (smartStringEnsure alloc) (callSteps ndebug calls) str).1, p.Safe) ∧
      (runSteps (smartStringEnsure alloc) (callSteps ndebug calls) str).2 ≠ .error .overrun ∧
      ((∀ call ∈ calls, call.Returns ndebug) →
        ∃ str', (runSteps (smartStringEnsure alloc) (callSteps ndebug calls) str).2 = .ok str' ∧
          str'.data = str.data ++ written (callSteps ndebug calls)) := by
  have hall (ends : Fault → Prop)
      (hends : ∀ call ∈ calls, ¬ call.Returns ndebug → ends .assertion ∧ ends .nullDeref) :
      AllExact ends (callSteps ndebug calls) := by
    intro s hs
    obtain ⟨call, hcall, hs⟩ := List.mem_flatMap.mp hs
    exact call.steps_exact ndebug (hsmall call hcall) (hends call hcall) s hs
  obtain ⟨hsafe, hout⟩ := runSteps_safe halloc
    (hall (· ≠ .overrun) fun _ _ _ => ⟨by decide, by decide⟩) htotal
  refine ⟨hsafe, ?_, fun hreturns => ?_⟩
  · intro hover
    rcases hout with ⟨f, hrun, hf⟩ | ⟨str', hrun, -⟩
    · exact hf (Except.error.inj (hrun.symm.trans hover))
    · simp [hover] at hrun
  · rcases (runSteps_safe halloc (hall (fun _ => False) fun call hcall hnot =>
      absurd (hreturns call hcall) hnot) htotal).2 with ⟨f, -, hf⟩ | hok
    · exact hf.elim
    · exact hok

/-- A string, a number of three bytes, the head of an array and a ping. -/
def fourCalls : List PackCall :=
  [.string (ascii "key"), .long 300, .array 2, .request [] (fun _ => 0) 1 .ping]

theorem packCalls_safe_four :
    (∀ p ∈ (runSteps (smartStringEnsure SmartString.alloc4) (callSteps true fourCalls)
      (.null fun _ => 0)).1, p.Safe) ∧
      ∃ str', (runSteps (smartStringEnsure SmartString.alloc4) (callSteps true fourCalls)
        (.null fun _ => 0)).2 = .ok str' ∧ str'.data = written (callSteps true fourCalls) := by
  have hsmall : ∀ call ∈ fourCalls, call.Small := by
    simp [fourCalls, PackCall.Small, Request.fields, ascii]
  have hreturns : ∀ call ∈ fourCalls, call.Returns true := by
    simp [fourCalls, PackCall.Returns]
  obtain ⟨hsafe, -, hok⟩ := @packCalls_safe _ alloc4_allocates true fourCalls hsmall
    (.null fun _ => 0) (by decide)
  exact ⟨hsafe, hok hreturns⟩

/-! ## The routines themselves -/

section Append

variable {ensure : SmartString → Nat → SmartString}

theorem runSteps_append (xs ys : List BufferStep) (str : SmartString) :
    (runSteps ensure (xs ++ ys) str).2 =
      (do (runSteps ensure ys (← (runSteps ensure xs str).2)).2) := by
  induction xs generalizing str with
  | nil => rfl
  | cons step xs ih =>
    cases step with
    | halt f => rfl
    | ensure len => exact ih (ensure str len)
    | put needed bs =>
      simp only [List.cons_append, runSteps]
      cases putAt (ensure str needed) needed bs with
      | error f => rfl
      | ok after => exact ih after

end Append

/-- What the steps do to the buffer over PHP's own allocator. -/
def execSteps (steps : List BufferStep) (str : SmartString) : Except Fault SmartString :=
  (runSteps SmartString.ensure steps str).2

theorem execSteps_append (xs ys : List BufferStep) (str : SmartString) :
    execSteps (xs ++ ys) str = (do execSteps ys (← execSteps xs str)) :=
  runSteps_append xs ys str

theorem execSteps_ensure (len : Nat) (steps : List BufferStep) (str : SmartString) :
    execSteps (.ensure len :: steps) str = execSteps steps (str.ensure len) := rfl

theorem execSteps_put (needed : Nat) (bs : Bytes) (str : SmartString) :
    execSteps [.put needed bs] str = str.pack needed bs := by
  have hpack : str.pack needed bs = putAt (str.ensure needed) needed bs := rfl
  rw [hpack, execSteps, runSteps]
  cases putAt (str.ensure needed) needed bs with
  | error f => rfl
  | ok after => rfl

theorem execSteps_stepsOf (x : Except Fault (List BufferStep)) (str : SmartString) :
    execSteps (stepsOf x) str = (do execSteps (← x) str) := by
  cases x with
  | error f => rfl
  | ok steps => rfl

theorem packNil_eq (str : SmartString) : phpMpPackNil str = execSteps phpMpPackNilSteps str :=
  (execSteps_put _ _ str).symm

theorem packLong_eq (ndebug : Bool) (str : SmartString) (val : Int64) :
    phpMpPackLong ndebug str val = execSteps (phpMpPackLongSteps ndebug val) str := by
  by_cases h : val ≥ 0
  · rw [phpMpPackLong, phpMpPackLongSteps, if_pos h, if_pos h]
    exact (execSteps_put _ _ str).symm
  · rw [phpMpPackLong, phpMpPackLongSteps, if_neg h, if_neg h, phpMpPackLongNeg,
      phpMpPackLongNegSteps, execSteps_stepsOf]
    simp only [bind_assoc, pure_bind, execSteps_put]

theorem packDouble_eq (str : SmartString) (bits : UInt64) :
    phpMpPackDouble str bits = execSteps (phpMpPackDoubleSteps bits) str :=
  (execSteps_put _ _ str).symm

theorem packBool_eq (str : SmartString) (val : Bool) :
    phpMpPackBool str val = execSteps (phpMpPackBoolSteps val) str :=
  (execSteps_put _ _ str).symm

theorem packString_eq (str : SmartString) (c : Bytes) :
    phpMpPackString str c = execSteps (phpMpPackStringSteps (some c) c.length) str :=
  (execSteps_put _ _ str).symm

theorem packHash_eq (str : SmartString) (len : Nat) :
    phpMpPackHash str len = execSteps (phpMpPackHashSteps len) str :=
  (execSteps_put _ _ str).symm

theorem packArray_eq (str : SmartString) (len : Nat) :
    phpMpPackArray str len = execSteps (phpMpPackArraySteps len) str :=
  (execSteps_put _ _ str).symm

theorem packPackageSize_eq (str : SmartString) (val : Nat) :
    phpMpPackPackageSize str val = execSteps (phpMpPackPackageSizeSteps val) str :=
  (execSteps_put _ _ str).symm

theorem packKey_eq (ndebug : Bool) (str : SmartString) (k : Key) :
    phpMpPackKey ndebug str k = execSteps (packKeySteps ndebug k) str := by
  cases k with
  | idx i => exact packLong_eq ndebug str i.toInt64
  | str s => exact packString_eq str s

/-- A routine does what its steps say, and leaves the counts that go with them. -/
def PacksAs (rec : SmartString → Counts → Zval → Except Fault (SmartString × Counts))
    (steps : Counts → Zval → List BufferStep × Counts) : Prop :=
  ∀ str c v, rec str c v = (do return (← execSteps (steps c v).1 str, (steps c v).2))

section Rows

variable {rec : SmartString → Counts → Zval → Except Fault (SmartString × Counts)}
  {steps : Counts → Zval → List BufferStep × Counts}

theorem packElement_eq (hrec : PacksAs rec steps) (str : SmartString) (c : Counts)
    (v : Option Zval) : phpMpPackElement rec str c v =
      (do return (← execSteps (packElementSteps steps c v).1 str, (packElementSteps steps c v).2)) := by
  match v with
  | none => simp only [phpMpPackElement, packElementSteps, packNil_eq]
  | some (.arr id) =>
    by_cases hc : c id > 1
    · simp only [phpMpPackElement, packElementSteps, if_pos hc, packNil_eq]
    · have henter := hrec str (c.inc id) (.arr id)
      simp only [phpMpPackElement, packElementSteps, if_neg hc, henter, bind_assoc, pure_bind]
  | some .null | some (.long _) | some (.double _) | some (.bool _) | some (.str _) | some .other =>
    exact hrec str c _

theorem packIndices_eq (hrec : PacksAs rec steps) (ht : HashTable) (n i : Nat) (str : SmartString)
    (c : Counts) : packIndices rec ht n i str c =
      (do return (← execSteps (packIndicesSteps steps ht n i c).1 str,
        (packIndicesSteps steps ht n i c).2)) := by
  induction n generalizing i str c with
  | zero => rfl
  | succ n ih =>
    simp only [packIndices, packElement_eq hrec, packIndicesSteps, execSteps_append, ih, bind_assoc,
      pure_bind]

theorem packEntries_eq (ndebug : Bool) (hrec : PacksAs rec steps) (entries : List (Key × Zval))
    (str : SmartString) (c : Counts) : packEntries ndebug rec entries str c =
      (do return (← execSteps (packEntriesSteps ndebug steps entries c).1 str,
        (packEntriesSteps ndebug steps entries c).2)) := by
  induction entries generalizing str c with
  | nil => rfl
  | cons e entries ih =>
    obtain ⟨k, v⟩ := e
    simp only [packEntries, packKey_eq, packElement_eq hrec, packEntriesSteps, execSteps_append, ih,
      bind_assoc, pure_bind]

end Rows

theorem phpMpPackRec_eq (ndebug : Bool) (H : Heap) (fuel : Nat) :
    PacksAs (phpMpPackRec ndebug H fuel) (phpMpPackRecSteps ndebug H fuel) := by
  induction fuel with
  | zero => exact fun _ _ _ => rfl
  | succ fuel ih =>
    intro str c v
    match v with
    | .null | .other => simp only [phpMpPackRec, phpMpPackRecSteps, packNil_eq]
    | .long n => simp only [phpMpPackRec, phpMpPackRecSteps, packLong_eq]
    | .double bits => simp only [phpMpPackRec, phpMpPackRecSteps, packDouble_eq]
    | .bool b => simp only [phpMpPackRec, phpMpPackRecSteps, packBool_eq]
    | .str s => simp only [phpMpPackRec, phpMpPackRecSteps, packString_eq]
    | .arr id =>
      simp only [phpMpPackRec, phpMpPackRecSteps]
      split
      · simp only [packHash_eq, packEntries_eq ndebug ih, execSteps_append, bind_assoc]
      · simp only [packArray_eq, packIndices_eq ih, execSteps_append, bind_assoc]

theorem phpMpPack_eq (ndebug : Bool) (H : Heap) (str : SmartString) (c : Counts) (v : Zval) :
    phpMpPack ndebug H str c v = (do return (← execSteps (phpMpPackSteps ndebug H c v).1 str,
      (phpMpPackSteps ndebug H c v).2)) :=
  phpMpPackRec_eq ndebug H H.depth str c v

/-! ## Requests over PHP's own allocator -/

theorem packHeader_eq (ndebug : Bool) (str : SmartString) (size : Nat) (request sync : UInt32) :
    phpTpPackHeader ndebug str size request sync =
      execSteps (phpTpPackHeaderSteps ndebug size request sync) str := by
  simp only [phpTpPackHeader, phpTpPackHeaderSteps, packPackageSize_eq, packHash_eq, packLong_eq,
    execSteps_append, bind_assoc]

theorem Arg.pack_eq (ndebug : Bool) (H : Heap) (str : SmartString) (c : Counts) (arg : Arg) :
    arg.pack ndebug H str c =
      (do return (← execSteps (arg.steps ndebug H c).1 str, (arg.steps ndebug H c).2)) := by
  cases arg with
  | long n => simp only [Arg.pack, Arg.steps, packLong_eq]
  | string s => simp only [Arg.pack, Arg.steps, packString_eq]
  | zval val => exact phpMpPack_eq ndebug H str c val

theorem packFields_eq (ndebug : Bool) (H : Heap) (fields : List (UInt32 × Arg)) (str : SmartString)
    (c : Counts) : (do return (← packFields ndebug H fields str c).1) =
      execSteps (packFieldsSteps ndebug H fields c) str := by
  induction fields generalizing str c with
  | nil => rfl
  | cons f fields ih =>
    obtain ⟨key, arg⟩ := f
    simp only [packFields, packLong_eq, Arg.pack_eq, packFieldsSteps, execSteps_append, ← ih,
      bind_assoc, pure_bind]

theorem encodeRequest_eq (ndebug : Bool) (H : Heap) (size : Except Fault (Nat × Counts))
    (request sync : UInt32) (n : Nat) (fields : List (UInt32 × Arg)) (str : SmartString) :
    (do
      let s ← (do
        let s ← size
        encodeRequest ndebug H str s.2 s.1 request sync n fields)
      return s.1) =
      execSteps (encodeRequestSteps ndebug H size request sync n fields) str := by
  simp only [encodeRequestSteps, execSteps_stepsOf, encodeRequest, packHeader_eq, packHash_eq,
    bind_assoc, pure_bind, execSteps_ensure, execSteps_append, packFields_eq]

theorem Request.encode_eq (ndebug : Bool) (H : Heap) (str : SmartString) (c : Counts)
    (sync : UInt32) (r : Request) : (do return (← r.encode ndebug H str c sync).1) =
      execSteps (r.steps ndebug H c sync) str := by
  cases r with
  | ping =>
    simp only [Request.encode, phpTpEncodePing, Request.steps, execSteps_stepsOf, packHeader_eq,
      bind_assoc, pure_bind, execSteps_ensure, bind_pure]
  | insertOrReplace spaceNo tuple type =>
    by_cases hproper : ndebug = false ∧ ¬ (type = beexInsert ∨ type = beexReplace)
    · simp only [Request.encode, phpTpEncodeInsertOrReplace, Request.steps, if_pos hproper]
      rfl
    · simp only [Request.encode, phpTpEncodeInsertOrReplace, Request.steps, if_neg hproper]
      rw [execSteps_stepsOf, pure_bind]
      exact encodeRequest_eq ndebug H _ type sync 2 _ str
  | _ => exact encodeRequest_eq ndebug H _ _ sync _ _ str

theorem packStringAt_eq (str : SmartString) (c : Option Bytes) (len : Nat) :
    phpMpPackStringAt str c len = execSteps (phpMpPackStringSteps c len) str := by
  cases c with
  | some c => exact (execSteps_put _ _ str).symm
  | none => rfl

theorem phpTpEncodeAuth_eq (ndebug : Bool) (str : SmartString) (sync : UInt32) (username : Bytes)
    (scramble : Option Bytes) : phpTpEncodeAuth ndebug str sync username scramble =
      execSteps (phpTpEncodeAuthSteps ndebug sync username scramble) str := by
  have hend (str : SmartString) : (if ¬ scramble.isSome = true then do
        let str ← phpMpPackStringAt str (some (ascii "chap-sha1")) 9
        phpMpPackStringAt str scramble phpScrambleSize
      else pure str) = execSteps (if ¬ scramble.isSome = true then
        phpMpPackStringSteps (some (ascii "chap-sha1")) 9 ++
          phpMpPackStringSteps scramble phpScrambleSize else []) str := by
    cases scramble with
    | some scramble => rfl
    | none =>
      simp only [packStringAt_eq]
      exact (execSteps_append _ _ str).symm
  simp only [phpTpEncodeAuth, phpTpEncodeAuthSteps, execSteps_stepsOf, bind_assoc, pure_bind,
    execSteps_ensure, execSteps_append, packHeader_eq, packHash_eq, packLong_eq, packString_eq,
    packArray_eq, hend]

/-- Over PHP's own allocator the steps of a call are those of the routine. -/
theorem PackCall.append_eq (ndebug : Bool) (str : SmartString) (call : PackCall) :
    call.append ndebug str = execSteps (call.steps ndebug) str := by
  cases call with
  | nil => exact packNil_eq str
  | long val => exact packLong_eq ndebug str val
  | double bits => exact packDouble_eq str bits
  | bool val => exact packBool_eq str val
  | string c => exact packString_eq str c
  | hash len => exact packHash_eq str len
  | array len => exact packArray_eq str len
  | packageSize val => exact packPackageSize_eq str val
  | pack H c val =>
    simp only [PackCall.append, phpMpPack_eq, bind_assoc, pure_bind, bind_pure]
    rfl
  | request H c sync r => exact r.encode_eq ndebug H str c sync
  | auth sync username scramble => exact phpTpEncodeAuth_eq ndebug str sync username scramble

end BeePhp
