import BeePhp.Msgpack.Proofs.MeaningProofs
import BeePhp.Proofs.MsgpuckProofs

/-!
# Proofs: unpacking

`php_mp_unpack` on the bytes of a well-formed document does what `docToPhp` says of the document
(`phpMpUnpack_runs`); it returns a value only on such bytes (`phpMpUnpackRec_ok`), and returns
`FAILURE` exactly on the strings that are `Refused`.
-/

namespace BeePhp

open Codec
open Codec.Reader

/-! ## Dispatch on the lead byte -/

/-- The msgpuck type of a document. -/
def docType : Doc → MpType
  | .nil => .nil
  | .unused => .ext
  | .bool _ => .bool
  | .uint .. => .uint
  | .int .. => .int
  | .float _ => .float
  | .double _ => .double
  | .str .. => .str
  | .bin .. => .bin
  | .ext .. => .ext
  | .array .. => .array
  | .map .. => .map

theorem fixUint_type : ∀ n < 128, mpTypeof (UInt8.ofNat n) = .uint := by decide

theorem fixInt_type : ∀ n : Nat, n < 32 →
    mpTypeof (UInt8.ofNat (twos 1 ((n : Int) - 32))) = .int := by decide

theorem fixStr_type : ∀ n < 32, mpTypeof (UInt8.ofNat (0xa0 + n)) = .str := by decide

theorem fixMap_type : ∀ n < 16, mpTypeof (UInt8.ofNat (0x80 + n)) = .map := by decide

/-- The lead byte of a well-formed document tells its type. -/
theorem head_type {d : Doc} (h : d.Fits) :
    ∃ c tl, d.head = c :: tl ∧ mpTypeof c = docType d := by
  cases d with
  | bool b => cases b <;> exact ⟨_, _, rfl, rfl⟩
  | uint w n =>
    cases w with
    | fix => exact ⟨_, _, rfl, fixUint_type n h⟩
    | _ => exact ⟨_, _, rfl, rfl⟩
  | int w i =>
    cases w with
    | fix =>
      simp only [Doc.Fits, IntWidth.fitsInt] at h
      have htype := fixInt_type (i + 32).toNat (by omega)
      rw [show ((i + 32).toNat : Int) - 32 = i by omega] at htype
      exact ⟨_, _, rfl, htype⟩
    | _ => exact ⟨_, _, rfl, rfl⟩
  | str w s =>
    cases w with
    | fix => exact ⟨_, _, rfl, fixStr_type _ h⟩
    | _ => exact ⟨_, _, rfl, rfl⟩
  | bin w s => cases w <;> exact ⟨_, _, rfl, rfl⟩
  | ext w t s => cases w <;> exact ⟨_, _, rfl, rfl⟩
  | array w ds =>
    cases w with
    | fix => exact ⟨_, _, rfl, (fixArray_lead _ h).1⟩
    | _ => exact ⟨_, _, rfl, rfl⟩
  | map w ds =>
    cases w with
    | fix => exact ⟨_, _, rfl, fixMap_type _ h.2⟩
    | _ => exact ⟨_, _, rfl, rfl⟩
  | _ => exact ⟨_, _, rfl, rfl⟩

/-- The routine `php_mp_unpack` calls for a type. -/
def unpackOf (ndebug : Bool) (unpack : Reader Halt PVal) : MpType → Reader Halt PVal
  | .nil => phpMpUnpackNil
  | .uint => phpMpUnpackUint
  | .int => phpMpUnpackInt ndebug
  | .str => phpMpUnpackStr
  | .bin => phpMpUnpackBin
  | .array => phpMpUnpackArray unpack
  | .map => phpMpUnpackMap unpack
  | .bool => phpMpUnpackBool
  | .float => phpMpUnpackFloat
  | .double => phpMpUnpackDouble
  | .ext => stop (.failure none)

theorem phpMpUnpackRec_cons (ndebug : Bool) (fuel : Nat) (c : UInt8) (bs : Bytes) :
    phpMpUnpackRec ndebug (fuel + 1) (c :: bs) =
      unpackOf ndebug (phpMpUnpackRec ndebug fuel) (mpTypeof c) (c :: bs) := by
  simp only [phpMpUnpackRec, bind_run, peek]
  cases mpTypeof c <;> rfl

theorem phpMpUnpackRec_nil (ndebug : Bool) (fuel : Nat) :
    phpMpUnpackRec ndebug (fuel + 1) [] = .error (.fault .oob) := rfl

theorem phpMpUnpackRec_head {ndebug : Bool} {fuel : Nat} {d : Doc} (h : d.Fits) (bs : Bytes) :
    phpMpUnpackRec ndebug (fuel + 1) (d.head ++ bs) =
      unpackOf ndebug (phpMpUnpackRec ndebug fuel) (docType d) (d.head ++ bs) := by
  obtain ⟨c, tl, hhead, htype⟩ := head_type h
  rw [hhead, List.cons_append, phpMpUnpackRec_cons, htype]

/-! ## On the bytes of a document -/

theorem decode_reads {α : Type} {r : Reader Fault α} {c : Bytes} {a : α} (h : Reads r c a) :
    Reads (decode r) c a := h.mapError Halt.fault

/-- Items in a row are unpacked one by one. -/
theorem times_unpackItem_runs {ndebug : Bool} {unpack : Reader Halt PVal} {ds : List Doc}
    (h : ∀ d ∈ ds, Runs unpack d.encode (docToPhp ndebug d)) (t : Table PVal) :
    Runs (times (unpackItem unpack) ds.length t) (encodeAll ds) (itemsToPhp ndebug ds t) := by
  induction ds generalizing t with
  | nil => exact Reads.pure t
  | cons d ds ih =>
    have hds := ih fun e he => h e (List.mem_cons_of_mem _ he)
    intro rest
    simp only [List.length_cons, times, encodeAll, itemsToPhp, unpackItem, bind_assoc, pure_bind]
    exact (h d List.mem_cons_self).bind (fun v _ => hds _) rest

theorem unpackPair_run {unpack : Reader Halt PVal} (t : Table PVal) {x y : Except Halt PVal}
    {c d : Bytes} (hk : Runs unpack c x) (hv : Runs unpack d y) :
    Runs (unpackPair unpack t) (c ++ d) (do addPair t (← x) (← y)) := by
  refine hk.bind fun key _ => ?_
  rw [← List.append_nil d]
  refine hv.bind fun value _ => ?_
  cases addPair t key value with
  | ok t' => exact Reads.pure t'
  | error e => exact Runs.stop e

/-- Pairs in a row are unpacked one by one. -/
theorem times_unpackPair_runs {ndebug : Bool} {unpack : Reader Halt PVal} (ps : List (Doc × Doc))
    (h : ∀ d ∈ flatten ps, Runs unpack d.encode (docToPhp ndebug d)) (t : Table PVal) :
    Runs (times (unpackPair unpack) ps.length t) (encodeAll (flatten ps))
      (pairsToPhp ndebug (flatten ps) t) := by
  induction ps generalizing t with
  | nil => exact Reads.pure t
  | cons p ps ih =>
    obtain ⟨k, v⟩ := p
    simp only [flatten, List.mem_cons, forall_eq_or_imp] at h
    obtain ⟨hk, hv, hps⟩ := h
    intro rest
    simp only [List.length_cons, times, flatten, encodeAll, pairsToPhp, ← List.append_assoc]
    have hpair := unpackPair_run t hk hv
    have hrun := hpair.bind fun t' _ => ih hps t'
    rw [hrun rest]
    simp only [bind_assoc]

theorem phpMpUnpackInt_runs {ndebug : Bool} {w : IntWidth} {i : Int} (h : w.fitsInt i) :
    Runs (phpMpUnpackInt ndebug) (Doc.int w i).head (docToPhp ndebug (.int w i)) := by
  rw [← List.append_nil (Doc.int w i).head]
  refine (decode_reads (mpDecodeInt_reads h)).bindRuns fun rest => ?_
  by_cases hn : ndebug = false ∧ 0 ≤ i
  · simp [mpSizeofInt, docToPhp, hn, Except.map]
  · have hn' : ¬ (ndebug = false ∧ ¬ i < 0) := fun h => hn ⟨h.1, by omega⟩
    simp only [mpSizeofInt, docToPhp, if_neg hn, if_neg hn']
    split_ifs <;> rfl

/-- The routine for a document's type, on the bytes of the document, when the routine it is given for
the items does what it should on them. -/
theorem unpackOf_runs {ndebug : Bool} {unpack : Reader Halt PVal} {d : Doc} (hfits : d.Fits)
    (h : ∀ e ∈ d.items, Runs unpack e.encode (docToPhp ndebug e)) :
    Runs (unpackOf ndebug unpack (docType d)) d.encode (docToPhp ndebug d) := by
  cases d with
  | nil => exact (decode_reads mpDecodeNil_reads).map fun _ => PVal.null
  | unused => exact fun _ => rfl
  | bool b => exact (decode_reads (mpDecodeBool_reads b)).map PVal.bool
  | uint w n => exact (decode_reads (mpDecodeUint_reads hfits)).map fun n => PVal.long (Int64.ofNat n)
  | int w i => exact phpMpUnpackInt_runs hfits
  | float bits =>
    exact (decode_reads (mpDecodeFloat_reads hfits)).map fun n => PVal.double (floatToDouble n)
  | double bits =>
    exact (decode_reads (mpDecodeDouble_reads hfits)).map fun n => PVal.double (UInt64.ofNat n)
  | str w s => exact (decode_reads (mpDecodeStr_reads hfits)).map PVal.str
  | bin w s => exact (decode_reads (mpDecodeBin_reads hfits)).map PVal.bin
  | ext w t s => exact fun _ => rfl
  | array w ds =>
    have htimes := (times_unpackItem_runs h Table.empty).map Table.toPVal
    exact (decode_reads (mpDecodeArray_reads hfits)).bindRuns htimes
  | map w ds =>
    obtain ⟨heven, hlt⟩ := hfits
    have htimes := times_unpackPair_runs (pairUp ds) (by rwa [flatten_pairUp heven]) Table.empty
    have hlen : ds.length / 2 = (pairUp ds).length := by
      have := pairUp_length heven
      omega
    rw [flatten_pairUp heven, ← hlen] at htimes
    exact (decode_reads (mpDecodeMap_reads hlt)).bindRuns (htimes.map Table.toPVal)

/-- `php_mp_unpack` on the bytes of a well-formed document. -/
theorem phpMpUnpackRec_runs {ndebug : Bool} (d : Doc) (hwf : d.WF) {fuel : Nat}
    (hfuel : d.encode.length ≤ fuel) :
    Runs (phpMpUnpackRec ndebug fuel) d.encode (docToPhp ndebug d) := by
  induction d using Doc.induct generalizing fuel with
  | node d ih =>
    obtain ⟨hfits, hitems⟩ := d.wf_iff.mp hwf
    rw [Doc.encode_eq, List.length_append] at hfuel
    have hpos := d.head_length_pos
    obtain ⟨fuel, rfl⟩ : ∃ f, fuel = f + 1 := ⟨fuel - 1, by omega⟩
    have hrun := unpackOf_runs hfits fun e he => ih e he ((allWF_iff _).mp hitems e he)
      (show e.encode.length ≤ fuel by
        have := encode_length_le he
        omega)
    intro rest
    rw [Doc.encode_eq, List.append_assoc, phpMpUnpackRec_head hfits, ← List.append_assoc,
      ← Doc.encode_eq, hrun rest]

theorem phpMpUnpack_runs {ndebug : Bool} {d : Doc} (hwf : d.WF) :
    Runs (phpMpUnpack ndebug) d.encode (docToPhp ndebug d) := by
  intro rest
  exact phpMpUnpackRec_runs d hwf (by simp; omega) rest

/-- What is unpacked at a document. -/
theorem phpMpUnpack_doc {ndebug : Bool} {d : Doc} (hwf : d.WF) {rest pos : Bytes} {v : PVal} :
    phpMpUnpack ndebug (d.encode ++ rest) = .ok (v, pos) ↔
      docToPhp ndebug d = .ok v ∧ pos = rest := by
  rw [phpMpUnpack_runs hwf rest]
  cases docToPhp ndebug d with
  | error e => simp [Except.map]
  | ok v' => simp [Except.map, eq_comm]

/-- Two documents that begin the same bytes end at the same place, if one stands for a value. -/
theorem rest_unique {ndebug : Bool} {d d' : Doc} (hwf : d.WF) (hwf' : d'.WF) {v : PVal}
    (hv : docToPhp ndebug d = .ok v) {rest rest' : Bytes}
    (h : d.encode ++ rest = d'.encode ++ rest') : rest = rest' := by
  have hrun : phpMpUnpack ndebug (d.encode ++ rest) = .ok (v, rest) :=
    (phpMpUnpack_doc hwf).mpr ⟨hv, rfl⟩
  rw [h] at hrun
  exact ((phpMpUnpack_doc hwf').mp hrun).2

/-! ## A value is only returned on the bytes of a document -/

theorem decode_bind_ok {α β : Type} {r : Reader Fault α} {f : α → Reader Halt β}
    {bs rest : Bytes} {b : β} (h : (decode r >>= f) bs = .ok (b, rest)) :
    ∃ a mid, r bs = .ok (a, mid) ∧ f a mid = .ok (b, rest) := by
  obtain ⟨a, mid, ha, hf⟩ := bind_eq_ok.mp h
  exact ⟨a, mid, mapError_eq_ok.mp ha, hf⟩

theorem decode_map_ok {α β : Type} {r : Reader Fault α} {g : α → β} {bs rest : Bytes} {b : β}
    (h : (do return g (← decode r) : Reader Halt β) bs = .ok (b, rest)) :
    ∃ a, r bs = .ok (a, rest) ∧ b = g a := by
  obtain ⟨a, mid, ha, hg⟩ := decode_bind_ok h
  simp only [pure_run, Except.ok.injEq, Prod.mk.injEq] at hg
  obtain ⟨rfl, rfl⟩ := hg
  exact ⟨a, ha, rfl⟩

theorem times_unpackItem_ok {ndebug : Bool} {unpack : Reader Halt PVal}
    (hu : ∀ {bs v rest}, unpack bs = .ok (v, rest) → Begins ndebug bs v rest) (n : Nat)
    {t t' : Table PVal} {bs rest : Bytes}
    (h : times (unpackItem unpack) n t bs = .ok (t', rest)) :
    ∃ ds : List Doc, ds.length = n ∧ AllWF ds ∧ bs = encodeAll ds ++ rest ∧
      itemsToPhp ndebug ds t = .ok t' := by
  induction n generalizing t bs with
  | zero =>
    simp only [times, pure_run, Except.ok.injEq, Prod.mk.injEq] at h
    obtain ⟨rfl, rfl⟩ := h
    exact ⟨[], rfl, trivial, rfl, rfl⟩
  | succ n ih =>
    obtain ⟨t₁, mid, hitem, hrest⟩ := bind_eq_ok.mp h
    obtain ⟨v, mid', hv, hpure⟩ := bind_eq_ok.mp hitem
    simp only [pure_run, Except.ok.injEq, Prod.mk.injEq] at hpure
    obtain ⟨rfl, rfl⟩ := hpure
    obtain ⟨d, hd, rfl, hval⟩ := hu hv
    obtain ⟨ds, rfl, hds, rfl, hphp⟩ := ih hrest
    refine ⟨d :: ds, rfl, ⟨hd, hds⟩, by simp [encodeAll], ?_⟩
    simp only [itemsToPhp, hval]
    exact hphp

theorem times_unpackPair_ok {ndebug : Bool} {unpack : Reader Halt PVal}
    (hu : ∀ {bs v rest}, unpack bs = .ok (v, rest) → Begins ndebug bs v rest) (n : Nat)
    {t t' : Table PVal} {bs rest : Bytes}
    (h : times (unpackPair unpack) n t bs = .ok (t', rest)) :
    ∃ ps : List (Doc × Doc), ps.length = n ∧ AllWF (flatten ps) ∧
      bs = encodeAll (flatten ps) ++ rest ∧ pairsToPhp ndebug (flatten ps) t = .ok t' := by
  induction n generalizing t bs with
  | zero =>
    simp only [times, pure_run, Except.ok.injEq, Prod.mk.injEq] at h
    obtain ⟨rfl, rfl⟩ := h
    exact ⟨[], rfl, trivial, rfl, rfl⟩
  | succ n ih =>
    obtain ⟨t₁, mid, hpair, hrest⟩ := bind_eq_ok.mp h
    obtain ⟨key, mid₁, hkey, hpair⟩ := bind_eq_ok.mp hpair
    obtain ⟨value, mid₂, hvalue, hadd⟩ := bind_eq_ok.mp hpair
    obtain ⟨k, hk, rfl, hkval⟩ := hu hkey
    obtain ⟨v, hv, rfl, hvval⟩ := hu hvalue
    cases hadd' : addPair t key value with
    | error e => simp [hadd'] at hadd
    | ok t₂ =>
      simp only [hadd', pure_run, Except.ok.injEq, Prod.mk.injEq] at hadd
      obtain ⟨rfl, rfl⟩ := hadd
      obtain ⟨ps, rfl, hps, rfl, hphp⟩ := ih hrest
      refine ⟨(k, v) :: ps, rfl, ⟨hk, hv, hps⟩, by simp [flatten, encodeAll], ?_⟩
      simp only [flatten, pairsToPhp, hkval, hvval]
      change (addPair t key value >>= _) = _
      rw [hadd']
      exact hphp

theorem unpackOf_ok {ndebug : Bool} {unpack : Reader Halt PVal}
    (hu : ∀ {bs v rest}, unpack bs = .ok (v, rest) → Begins ndebug bs v rest) {ty : MpType}
    {bs rest : Bytes} {v : PVal} (h : unpackOf ndebug unpack ty bs = .ok (v, rest)) :
    Begins ndebug bs v rest := by
  cases ty with
  | nil =>
    obtain ⟨u, hd, rfl⟩ := decode_map_ok (g := fun _ => PVal.null) h
    exact ⟨.nil, trivial, mpDecodeNil_ok hd, rfl⟩
  | bool =>
    obtain ⟨b, hd, rfl⟩ := decode_map_ok h
    exact ⟨.bool b, trivial, mpDecodeBool_ok hd, rfl⟩
  | uint =>
    obtain ⟨n, hd, rfl⟩ := decode_map_ok h
    obtain ⟨w, hn, rfl⟩ := mpDecodeUint_ok hd
    exact ⟨.uint w n, hn, rfl, rfl⟩
  | int =>
    obtain ⟨i, mid, hd, hsize⟩ := decode_bind_ok h
    obtain ⟨w, hi, rfl⟩ := mpDecodeInt_ok hd
    have hrun := @phpMpUnpackInt_runs ndebug w i hi mid
    rw [show w.intHead i = (Doc.int w i).head from rfl] at h ⊢
    change phpMpUnpackInt ndebug _ = _ at h
    rw [hrun] at h
    cases hval : docToPhp ndebug (.int w i) with
    | error e => simp [hval, Except.map] at h
    | ok v' =>
      simp only [hval, Except.map, Except.ok.injEq, Prod.mk.injEq] at h
      obtain ⟨rfl, rfl⟩ := h
      exact ⟨.int w i, hi, rfl, hval⟩
  | str =>
    obtain ⟨s, hd, rfl⟩ := decode_map_ok h
    obtain ⟨w, hs, rfl⟩ := mpDecodeStr_ok hd
    exact ⟨.str w s, hs, rfl, rfl⟩
  | bin =>
    obtain ⟨s, hd, rfl⟩ := decode_map_ok h
    obtain ⟨w, hs, rfl⟩ := mpDecodeBin_ok hd
    exact ⟨.bin w s, hs, rfl, rfl⟩
  | float =>
    obtain ⟨n, hd, rfl⟩ := decode_map_ok h
    obtain ⟨hn, rfl⟩ := mpDecodeFloat_ok hd
    exact ⟨.float n, hn, rfl, rfl⟩
  | double =>
    obtain ⟨n, hd, rfl⟩ := decode_map_ok h
    obtain ⟨hn, rfl⟩ := mpDecodeDouble_ok hd
    exact ⟨.double n, hn, rfl, rfl⟩
  | array =>
    obtain ⟨n, mid, hd, hloop⟩ := decode_bind_ok h
    obtain ⟨w, hn, rfl⟩ := mpDecodeArray_ok hd
    obtain ⟨t, mid', htimes, hpure⟩ := bind_eq_ok.mp hloop
    simp only [pure_run, Except.ok.injEq, Prod.mk.injEq] at hpure
    obtain ⟨rfl, rfl⟩ := hpure
    obtain ⟨ds, rfl, hds, rfl, hphp⟩ := times_unpackItem_ok hu n htimes
    refine ⟨.array w ds, ⟨hn, hds⟩, by simp [Doc.encode], ?_⟩
    simp only [docToPhp, hphp]
    rfl
  | map =>
    obtain ⟨n, mid, hd, hloop⟩ := decode_bind_ok h
    obtain ⟨w, hn, rfl⟩ := mpDecodeMap_ok hd
    obtain ⟨t, mid', htimes, hpure⟩ := bind_eq_ok.mp hloop
    simp only [pure_run, Except.ok.injEq, Prod.mk.injEq] at hpure
    obtain ⟨rfl, rfl⟩ := hpure
    obtain ⟨ps, rfl, hps, rfl, hphp⟩ := times_unpackPair_ok hu n htimes
    refine ⟨.map w (flatten ps), ⟨⟨by simp, by simpa using hn⟩, hps⟩, by simp [Doc.encode], ?_⟩
    simp only [docToPhp, hphp]
    rfl
  | ext => simp [unpackOf] at h

/-- What `php_mp_unpack` returns a value for. -/
theorem phpMpUnpackRec_ok {ndebug : Bool} (fuel : Nat) {bs rest : Bytes} {v : PVal}
    (h : phpMpUnpackRec ndebug fuel bs = .ok (v, rest)) : Begins ndebug bs v rest := by
  induction fuel generalizing bs v rest with
  | zero => simp [phpMpUnpackRec] at h
  | succ fuel ih =>
    cases bs with
    | nil => simp [phpMpUnpackRec_nil] at h
    | cons c bs =>
      rw [phpMpUnpackRec_cons] at h
      exact unpackOf_ok ih h

theorem phpMpUnpack_ok_iff {ndebug : Bool} {bs rest : Bytes} {v : PVal} :
    phpMpUnpack ndebug bs = .ok (v, rest) ↔ Begins ndebug bs v rest := by
  constructor
  · exact phpMpUnpackRec_ok _
  · rintro ⟨d, hwf, rfl, hval⟩
    rw [phpMpUnpack_runs hwf, hval]
    rfl

/-! ## `FAILURE` -/

theorem mpSizeofInt_not_failure {ndebug : Bool} {i : Int} {t : Option String} {bs : Bytes} :
    (match mpSizeofInt ndebug i with
      | .ok _ => pure (PVal.long (Int64.ofInt i))
      | .error f => stop (.fault f) : Reader Halt PVal) bs ≠ .error (.failure t) := by
  cases mpSizeofInt ndebug i <;> simp

theorem decode_bind_failure {α β : Type} {r : Reader Fault α} {f : α → Reader Halt β}
    {bs : Bytes} {t : Option String} (h : (decode r >>= f) bs = .error (.failure t)) :
    ∃ a mid, r bs = .ok (a, mid) ∧ f a mid = .error (.failure t) := by
  rcases bind_eq_error.mp h with herr | ⟨a, mid, ha, hf⟩
  · obtain ⟨e, -, he⟩ := mapError_eq_error.mp herr
    cases he
  · exact ⟨a, mid, mapError_eq_ok.mp ha, hf⟩

/-- No decoder of a scalar returns `FAILURE`. -/
theorem decode_map_not_failure {α β : Type} {r : Reader Fault α} {g : α → β} {bs : Bytes}
    {t : Option String} :
    (do return g (← decode r) : Reader Halt β) bs ≠ .error (.failure t) := by
  intro h
  obtain ⟨a, mid, -, hf⟩ := decode_bind_failure h
  simp at hf

theorem times_unpackItem_failure {ndebug : Bool} {unpack : Reader Halt PVal}
    (hok : ∀ {bs v rest}, unpack bs = .ok (v, rest) → Begins ndebug bs v rest)
    (hfail : ∀ {bs t}, unpack bs = .error (.failure t) → Refused ndebug bs) (n : Nat)
    {t : Table PVal} {bs : Bytes} {thrown : Option String}
    (h : times (unpackItem unpack) n t bs = .error (.failure thrown)) :
    ItemsRefused ndebug n bs := by
  induction n generalizing t bs with
  | zero => simp [times] at h
  | succ n ih =>
    rcases bind_eq_error.mp h with hitem | ⟨t₁, mid, hitem, hrest⟩
    · rcases bind_eq_error.mp hitem with hv | ⟨v, mid, -, hpure⟩
      · exact .here (hfail hv)
      · simp at hpure
    · obtain ⟨v, mid', hv, hpure⟩ := bind_eq_ok.mp hitem
      simp only [pure_run, Except.ok.injEq, Prod.mk.injEq] at hpure
      obtain ⟨rfl, rfl⟩ := hpure
      obtain ⟨d, hd, rfl, hval⟩ := hok hv
      exact .next (decodable_iff.mpr ⟨hd, v, hval⟩) (ih hrest)

theorem times_unpackPair_failure {ndebug : Bool} {unpack : Reader Halt PVal}
    (hok : ∀ {bs v rest}, unpack bs = .ok (v, rest) → Begins ndebug bs v rest)
    (hfail : ∀ {bs t}, unpack bs = .error (.failure t) → Refused ndebug bs) (n : Nat)
    {t : Table PVal} {bs : Bytes} {thrown : Option String}
    (h : times (unpackPair unpack) n t bs = .error (.failure thrown)) :
    PairsRefused ndebug n bs := by
  induction n generalizing t bs with
  | zero => simp [times] at h
  | succ n ih =>
    rcases bind_eq_error.mp h with hpair | ⟨t₁, mid, hpair, hrest⟩
    · rcases bind_eq_error.mp hpair with hk | ⟨key, mid, hk, hvalue⟩
      · exact .key (hfail hk)
      · obtain ⟨k, hkwf, rfl, hkval⟩ := hok hk
        have hkdec := decodable_iff.mpr ⟨hkwf, key, hkval⟩
        rcases bind_eq_error.mp hvalue with hv | ⟨value, mid', hv, hadd⟩
        · exact .value hkdec (hfail hv)
        · obtain ⟨v, hvwf, rfl, hvval⟩ := hok hv
          have hrefused : addPair t key value = .error (.failure thrown) := by
            cases hadd' : addPair t key value with
            | ok t' => simp [hadd'] at hadd
            | error e => simpa [hadd'] using hadd
          exact .pair hkdec (addPair_failure hkval hrefused) (decodable_iff.mpr ⟨hvwf, value, hvval⟩)
    · obtain ⟨key, mid₁, hkey, hvalue⟩ := bind_eq_ok.mp hpair
      obtain ⟨value, mid₂, hvalue, hadd⟩ := bind_eq_ok.mp hvalue
      obtain ⟨k, hk, rfl, hkval⟩ := hok hkey
      obtain ⟨v, hv, rfl, hvval⟩ := hok hvalue
      cases hadd' : addPair t key value with
      | error e => simp [hadd'] at hadd
      | ok t₂ =>
        simp only [hadd', pure_run, Except.ok.injEq, Prod.mk.injEq] at hadd
        obtain ⟨rfl, rfl⟩ := hadd
        have hisKey := (addPair_ok_iff hkval t value).mp ⟨_, hadd'⟩
        exact .next ⟨decodable_iff.mpr ⟨hk, key, hkval⟩, hisKey⟩
          (decodable_iff.mpr ⟨hv, value, hvval⟩) (ih hrest)

theorem unpackOf_failure {ndebug : Bool} {unpack : Reader Halt PVal}
    (hok : ∀ {bs v rest}, unpack bs = .ok (v, rest) → Begins ndebug bs v rest)
    (hfail : ∀ {bs t}, unpack bs = .error (.failure t) → Refused ndebug bs) {c : UInt8} {bs : Bytes}
    {thrown : Option String}
    (h : unpackOf ndebug unpack (mpTypeof c) (c :: bs) = .error (.failure thrown)) :
    Refused ndebug (c :: bs) := by
  cases hty : mpTypeof c <;> rw [hty] at h
  case ext => exact .ext hty
  case int =>
    obtain ⟨i, mid, -, hsize⟩ := decode_bind_failure h
    exact absurd hsize mpSizeofInt_not_failure
  case array =>
    obtain ⟨n, mid, hd, hloop⟩ := decode_bind_failure h
    obtain ⟨w, hn, heq⟩ := mpDecodeArray_ok hd
    rcases bind_eq_error.mp hloop with htimes | ⟨t, mid', -, hpure⟩
    · exact heq ▸ .array hn (times_unpackItem_failure hok hfail n htimes)
    · simp at hpure
  case map =>
    obtain ⟨n, mid, hd, hloop⟩ := decode_bind_failure h
    obtain ⟨w, hn, heq⟩ := mpDecodeMap_ok hd
    rcases bind_eq_error.mp hloop with htimes | ⟨t, mid', -, hpure⟩
    · exact heq ▸ .map hn (times_unpackPair_failure hok hfail n htimes)
    · simp at hpure
  case nil => exact absurd h decode_map_not_failure
  case uint => exact absurd h decode_map_not_failure
  case str => exact absurd h decode_map_not_failure
  case bin => exact absurd h decode_map_not_failure
  case bool => exact absurd h decode_map_not_failure
  case float => exact absurd h decode_map_not_failure
  case double => exact absurd h decode_map_not_failure

/-- What `php_mp_unpack` returns `FAILURE` for. -/
theorem phpMpUnpackRec_failure {ndebug : Bool} (fuel : Nat) {bs : Bytes} {thrown : Option String}
    (h : phpMpUnpackRec ndebug fuel bs = .error (.failure thrown)) : Refused ndebug bs := by
  induction fuel generalizing bs thrown with
  | zero => simp [phpMpUnpackRec] at h
  | succ fuel ih =>
    cases bs with
    | nil => simp [phpMpUnpackRec_nil] at h
    | cons c bs =>
      rw [phpMpUnpackRec_cons] at h
      exact unpackOf_failure (phpMpUnpackRec_ok fuel) ih h

theorem phpMpUnpackRec_arrayHead {ndebug : Bool} {fuel n : Nat} {w : SeqWidth} (hn : n < w.bound)
    (bs : Bytes) : phpMpUnpackRec ndebug (fuel + 1) (w.arrayHead n ++ bs) =
      (do return (← times (unpackItem (phpMpUnpackRec ndebug fuel)) n .empty).toPVal :
        Reader Halt PVal) bs := by
  have hhead : (Doc.array w (List.replicate n .nil)).head = w.arrayHead n := by simp [Doc.head]
  rw [← hhead, phpMpUnpackRec_head (by simpa [Doc.Fits] using hn), hhead]
  exact bind_of_ok (decode_reads (mpDecodeArray_reads hn) bs)

theorem phpMpUnpackRec_mapHead {ndebug : Bool} {fuel n : Nat} {w : SeqWidth} (hn : n < w.bound)
    (bs : Bytes) : phpMpUnpackRec ndebug (fuel + 1) (w.mapHead n ++ bs) =
      (do return (← times (unpackPair (phpMpUnpackRec ndebug fuel)) n .empty).toPVal :
        Reader Halt PVal) bs := by
  have hhead : (Doc.map w (List.replicate (2 * n) .nil)).head = w.mapHead n := by simp [Doc.head]
  rw [← hhead, phpMpUnpackRec_head (by simpa [Doc.Fits] using hn), hhead]
  exact bind_of_ok (decode_reads (mpDecodeMap_reads hn) bs)

theorem Decodable.run {ndebug : Bool} {d : Doc} (h : Decodable ndebug d) {fuel : Nat}
    (hfuel : d.encode.length ≤ fuel) :
    ∃ v, docToPhp ndebug d = .ok v ∧ Reads (phpMpUnpackRec ndebug fuel) d.encode v := by
  obtain ⟨hwf, v, hv⟩ := decodable_iff.mp h
  have hrun := @phpMpUnpackRec_runs ndebug d hwf fuel hfuel
  exact ⟨v, hv, by rwa [hv] at hrun⟩

mutual

/-- Every string that is refused makes `php_mp_unpack` return `FAILURE`. -/
theorem Refused.failure {ndebug : Bool} {bs : Bytes} (h : Refused ndebug bs) (fuel : Nat)
    (hfuel : bs.length < fuel) :
    ∃ e, phpMpUnpackRec ndebug fuel bs = .error (.failure e) := by
  obtain ⟨fuel, rfl⟩ : ∃ f, fuel = f + 1 := ⟨fuel - 1, by omega⟩
  match h with
  | .ext hext =>
    rw [phpMpUnpackRec_cons, hext]
    exact ⟨none, rfl⟩
  | @Refused.array _ w n bs hn hitems =>
    have hpos := w.arrayHead_length_pos n
    rw [List.length_append] at hfuel
    obtain ⟨e, he⟩ := hitems.failure fuel .empty (by omega)
    rw [phpMpUnpackRec_arrayHead hn]
    exact ⟨e, bind_of_error he⟩
  | @Refused.map _ w n bs hn hpairs =>
    have hpos := w.mapHead_length_pos n
    rw [List.length_append] at hfuel
    obtain ⟨e, he⟩ := hpairs.failure fuel .empty (by omega)
    rw [phpMpUnpackRec_mapHead hn]
    exact ⟨e, bind_of_error he⟩

theorem ItemsRefused.failure {ndebug : Bool} {n : Nat} {bs : Bytes} (h : ItemsRefused ndebug n bs)
    (fuel : Nat) (t : Table PVal) (hfuel : bs.length < fuel) :
    ∃ e, times (unpackItem (phpMpUnpackRec ndebug fuel)) n t bs = .error (.failure e) := by
  match h with
  | .here href =>
    obtain ⟨e, he⟩ := href.failure fuel hfuel
    exact ⟨e, bind_of_error (bind_of_error he)⟩
  | .next hd hitems =>
    rw [List.length_append] at hfuel
    obtain ⟨v, -, hv⟩ := hd.run (show _ ≤ fuel by omega)
    obtain ⟨e, he⟩ := hitems.failure fuel (addNextIndexZval t v) (by omega)
    exact ⟨e, (bind_of_ok (bind_of_ok (hv _))).trans he⟩

theorem PairsRefused.failure {ndebug : Bool} {n : Nat} {bs : Bytes} (h : PairsRefused ndebug n bs)
    (fuel : Nat) (t : Table PVal) (hfuel : bs.length < fuel) :
    ∃ e, times (unpackPair (phpMpUnpackRec ndebug fuel)) n t bs = .error (.failure e) := by
  match h with
  | .key href =>
    obtain ⟨e, he⟩ := href.failure fuel hfuel
    exact ⟨e, bind_of_error (bind_of_error he)⟩
  | .value hk href =>
    rw [List.length_append] at hfuel
    obtain ⟨key, -, hkey⟩ := hk.run (show _ ≤ fuel by omega)
    obtain ⟨e, he⟩ := href.failure fuel (by omega)
    exact ⟨e, bind_of_error ((bind_of_ok (hkey _)).trans (bind_of_error he))⟩
  | @PairsRefused.pair _ n k v bs hk hnot hv =>
    simp only [List.length_append] at hfuel
    obtain ⟨key, hkphp, hkey⟩ := hk.run (show _ ≤ fuel by omega)
    obtain ⟨value, -, hvalue⟩ := hv.run (show _ ≤ fuel by omega)
    have hpair : unpackPair (phpMpUnpackRec ndebug fuel) t (k.encode ++ (v.encode ++ bs)) =
        .error (.failure (some "Bad key type for PHP Array")) := by
      refine (bind_of_ok (hkey _)).trans ((bind_of_ok (hvalue _)).trans ?_)
      rw [addPair_refused hkphp hnot]
      rfl
    exact ⟨_, bind_of_error hpair⟩
  | @PairsRefused.next _ n k v bs hk hv hpairs =>
    simp only [List.length_append] at hfuel
    obtain ⟨key, hkphp, hkey⟩ := hk.1.run (show _ ≤ fuel by omega)
    obtain ⟨value, -, hvalue⟩ := hv.run (show _ ≤ fuel by omega)
    obtain ⟨t', ht'⟩ := (addPair_ok_iff hkphp t value).mpr hk.2
    have hpair : unpackPair (phpMpUnpackRec ndebug fuel) t (k.encode ++ (v.encode ++ bs)) =
        .ok (t', bs) := by
      refine (bind_of_ok (hkey _)).trans ((bind_of_ok (hvalue _)).trans ?_)
      rw [ht']
      rfl
    obtain ⟨e, he⟩ := hpairs.failure fuel t' (by omega)
    exact ⟨e, (bind_of_ok hpair).trans he⟩

end

/-- `php_mp_unpack` returns `FAILURE` exactly on the strings that are refused. -/
theorem phpMpUnpack_failure_iff {ndebug : Bool} {bs : Bytes} :
    (∃ e, phpMpUnpack ndebug bs = .error (.failure e)) ↔ Refused ndebug bs :=
  ⟨fun ⟨_, h⟩ => phpMpUnpackRec_failure _ h, fun h => h.failure _ (Nat.lt_succ_self _)⟩

end BeePhp
