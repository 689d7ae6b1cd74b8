import BeePhp.Msgpack.Proofs.ListProofs
import BeePhp.Proofs.RequestProofs
import BeePhp.UpdateOps

/-!
# Proofs: the grammar of update operations

`bee_update_verify_op` accepts the arrays that write down an operation (`beeUpdateVerifyOp_ok`), and what
`bee_update_verify_args` makes of a list of them is packed as the list of what the server is sent
(`zvalDoc_allocAll`).
-/

namespace BeePhp

open Codec

/-! ## Tables -/

/-- As many entries as are found under given names are these entries in some order. -/
theorem HashTable.perm_of_find {ht : HashTable} {fs : List (Key × Zval)} (hnodup : (keys fs).Nodup)
    (hfind : ∀ f ∈ fs, ht.entries.lookup f.1 = some f.2) (hlen : ht.entries.length = fs.length) :
    ht.entries.Perm fs := by
  have hsub : fs ⊆ ht.entries := fun f hf => (mem_iff_lookup ht.nodup).mpr (hfind f hf)
  have hsubperm : fs.Subperm ht.entries := hnodup.of_map.subperm hsub
  exact (hsubperm.perm_of_length_le hlen.le).symm

theorem HashTable.find_of_perm {ht : HashTable} {fs : List (Key × Zval)} (h : ht.entries.Perm fs)
    {f : Key × Zval} (hf : f ∈ fs) : ht.entries.lookup f.1 = some f.2 :=
  (mem_iff_lookup ht.nodup).mp (h.mem_iff.mpr hf)

/-- A small table with a string key is packed as a map. -/
theorem phpMpIsHash_of_str {ht : HashTable} {s : Bytes} (hs : Key.str s ∈ keys ht.entries)
    (hlen : ht.entries.length < 2 ^ 31) : phpMpIsHash ht = true := by
  obtain ⟨e, he, hkey⟩ := List.mem_map.mp hs
  have hcount : toInt (zendHashNumElements ht) = ht.entries.length := toInt_of_lt hlen
  simp only [phpMpIsHash, hcount]
  split
  · rfl
  · rw [Int.toNat_natCast, List.take_length, Bool.not_eq_true', List.all_eq_false]
    exact ⟨e, he, by simp [hkey, Key.isIdx]⟩

theorem UpdateOp.fields_length_lt (u : UpdateOp) : u.fields.length < 2 ^ 31 := by
  cases u with
  | arith | assign => exact (by decide : 3 < 2 ^ 31)
  | splice => exact (by decide : 5 < 2 ^ 31)

theorem UpdateOp.fields_nodup (u : UpdateOp) : (keys u.fields).Nodup := by
  cases u with
  | arith | assign =>
    exact (by decide :
      [Key.str (ascii "op"), .str (ascii "field"), .str (ascii "arg")].Nodup)
  | splice =>
    exact (by decide : [Key.str (ascii "op"), .str (ascii "field"), .str (ascii "offset"),
      .str (ascii "length"), .str (ascii "list")].Nodup)

/-! ## Operations -/

/-- The values that stand for an operation, in the order in which they are sent. -/
def UpdateOp.values (u : UpdateOp) : List Zval := u.fields.map Prod.snd

/-- The character of an operation. -/
def UpdateOp.op : UpdateOp → UInt8
  | .arith op _ _ => op
  | .assign op _ _ => op
  | .splice .. => 0x3a

/-- The number of the field it is for. -/
def UpdateOp.field : UpdateOp → Int64
  | .arith _ field _ => field
  | .assign _ field _ => field
  | .splice field .. => field

theorem UpdateOp.op_mem (u : UpdateOp) : (.str (ascii "op"), .str (.char u.op)) ∈ u.fields := by
  cases u <;> exact List.mem_cons_self

theorem UpdateOp.field_mem (u : UpdateOp) : (.str (ascii "field"), .long u.field) ∈ u.fields := by
  cases u <;> exact List.mem_cons_of_mem _ List.mem_cons_self

theorem ZStr.eq_char {s : ZStr} {c : UInt8} (h : s.val = [c]) : s = .char c := by
  cases s
  cases h
  rfl

theorem Zval.isLong_iff {v : Zval} : v.isLong ↔ ∃ n, v = .long n := by
  cases v <;> simp [Zval.isLong]

section Fields

variable {ht : HashTable} {position : Int} {opstr : ZStr} {field : Int64} {vs : List Zval}

theorem verifySplice_ok : verifySplice ht position opstr field = .ok vs ↔
    zendHashNumElements ht = 5 ∧ ∃ offset length list,
      zendHashFind ht (ascii "offset") = some (.long offset) ∧
      zendHashFind ht (ascii "length") = some (.long length) ∧
      zendHashFind ht (ascii "list") = some (.str list) ∧
      vs = [.str opstr, .long field, .long offset, .long length, .str list] := by
  constructor
  · intro h
    unfold verifySplice at h
    split at h
    case isTrue => cases h
    case isFalse hn =>
      split at h
      case h_2 => cases h
      case h_1 offset hoffset =>
        split at h
        case h_2 => cases h
        case h_1 length hlength =>
          split at h
          case h_2 => cases h
          case h_1 list hlist =>
            cases h
            exact ⟨not_not.mp hn, offset, length, list, hoffset, hlength, hlist, rfl⟩
  · rintro ⟨hn, offset, length, list, hoffset, hlength, hlist, rfl⟩
    simp only [verifySplice, hn, hoffset, hlength, hlist]
    rfl

theorem verifyArg_ok {ok : Zval → Bool} {wrongArg : String} :
    verifyArg ht position opstr field ok wrongArg = .ok vs ↔
      zendHashNumElements ht = 3 ∧ ∃ arg, zendHashFind ht (ascii "arg") = some arg ∧ ok arg ∧
        vs = [.str opstr, .long field, arg] := by
  constructor
  · intro h
    unfold verifyArg at h
    split at h
    case isTrue => cases h
    case isFalse hn =>
      split at h
      case h_2 => cases h
      case h_1 arg harg =>
        split at h
        case isFalse => cases h
        case isTrue hok =>
          cases h
          exact ⟨not_not.mp hn, arg, harg, hok, rfl⟩
  · rintro ⟨hn, arg, harg, hok, rfl⟩
    simp only [verifyArg, hn, harg, hok]
    rfl

end Fields

/-- What is known of an operation that is accepted: its table has the two parts that all operations have,
and those of one of the three shapes. -/
theorem beeUpdateVerifyOp_cases {H : Heap} {v : Zval} {position : Int} {vs : List Zval}
    (h : beeUpdateVerifyOp H v position = .ok vs) :
    ∃ id c field, v = .arr id ∧
      zendHashFind (H.table id) (ascii "op") = some (.str (.char c)) ∧
      zendHashFind (H.table id) (ascii "field") = some (.long field) ∧
      ((c = 0x3a ∧ verifySplice (H.table id) position (.char c) field = .ok vs) ∨
        (c ∈ ascii "+-&|^#" ∧ ∃ wrongArg,
          verifyArg (H.table id) position (.char c) field Zval.isLong wrongArg = .ok vs) ∨
        c ∈ ascii "=!" ∧ ∃ wrongArg,
          verifyArg (H.table id) position (.char c) field Zval.serializable wrongArg = .ok vs) := by
  unfold beeUpdateVerifyOp at h
  split at h
  case h_2 => cases h
  case h_1 id =>
    dsimp only at h
    split at h
    case isTrue => cases h
    case isFalse =>
      split at h
      case h_2 => cases h
      case h_1 opstr hop =>
        split at h
        case h_2 => cases h
        case h_1 c hc =>
          obtain rfl := ZStr.eq_char hc
          split at h
          case h_2 => cases h
          case h_1 field hfield =>
            refine ⟨id, c, field, rfl, hop, hfield, ?_⟩
            split at h
            case isTrue hsplice => exact .inl ⟨List.singleton_inj.mp hsplice, h⟩
            case isFalse =>
              split at h
              case isTrue harith => exact .inr (.inl ⟨harith, _, h⟩)
              case isFalse =>
                split at h
                case isTrue hassign => exact .inr (.inr ⟨hassign, _, h⟩)
                case isFalse => cases h

/-- An array that has the parts of an operation is taken apart. -/
theorem beeUpdateVerifyOp_of_named {H : Heap} {id : Nat} {position : Int} {c : UInt8} {field : Int64}
    (hhash : phpMpIsHash (H.table id) = true)
    (hop : zendHashFind (H.table id) (ascii "op") = some (.str (.char c)))
    (hfield : zendHashFind (H.table id) (ascii "field") = some (.long field)) :
    beeUpdateVerifyOp H (.arr id) position =
      if [c] = ascii ":" then verifySplice (H.table id) position (.char c) field
      else if c ∈ ascii "+-&|^#" then
        verifyArg (H.table id) position (.char c) field Zval.isLong
          "Field ARG must be provided and must be LONG for '%s' at position %d"
      else if c ∈ ascii "=!" then
        verifyArg (H.table id) position (.char c) field Zval.serializable
          "Field ARG must be provided and must be SERIALIZABLE for '%s' at position %d"
      else .error ⟨"Unknown operation '%s' at position %d", [.s (cString [c]), .d position]⟩ := by
  simp only [beeUpdateVerifyOp, hhash, hop, hfield, not_true_eq_false, if_false]
  rfl

/-- What is written down as an operation is accepted, and nothing else. -/
theorem beeUpdateVerifyOp_ok {H : Heap} {v : Zval} {position : Int} {vs : List Zval} :
    beeUpdateVerifyOp H v position = .ok vs ↔ ∃ u : UpdateOp, u.Written H v ∧ u.values = vs := by
  constructor
  · intro h
    obtain ⟨id, c, field, rfl, hop, hfield, hshape⟩ := beeUpdateVerifyOp_cases h
    rcases hshape with ⟨rfl, h⟩ | ⟨hc, wrongArg, h⟩ | ⟨hc, wrongArg, h⟩
    · obtain ⟨hn, offset, length, list, hoffset, hlength, hlist, rfl⟩ := verifySplice_ok.mp h
      refine ⟨.splice field offset length list, ⟨trivial, id, rfl, ?_⟩, rfl⟩
      refine HashTable.perm_of_find (UpdateOp.fields_nodup _) ?_ hn
      simp only [UpdateOp.fields, List.forall_mem_cons]
      exact ⟨hop, hfield, hoffset, hlength, hlist, nofun⟩
    · obtain ⟨hn, arg, harg, hlong, rfl⟩ := verifyArg_ok.mp h
      obtain ⟨n, rfl⟩ := Zval.isLong_iff.mp hlong
      refine ⟨.arith c field n, ⟨hc, id, rfl, ?_⟩, rfl⟩
      refine HashTable.perm_of_find (UpdateOp.fields_nodup _) ?_ hn
      simp only [UpdateOp.fields, List.forall_mem_cons]
      exact ⟨hop, hfield, harg, nofun⟩
    · obtain ⟨hn, arg, harg, hser, rfl⟩ := verifyArg_ok.mp h
      refine ⟨.assign c field arg, ⟨⟨hc, hser⟩, id, rfl, ?_⟩, rfl⟩
      refine HashTable.perm_of_find (UpdateOp.fields_nodup _) ?_ hn
      simp only [UpdateOp.fields, List.forall_mem_cons]
      exact ⟨hop, hfield, harg, nofun⟩
  · rintro ⟨u, ⟨hproper, id, rfl, hperm⟩, rfl⟩
    have hlen := hperm.length_eq
    have hhash : phpMpIsHash (H.table id) = true :=
      phpMpIsHash_of_str (List.mem_map_of_mem (hperm.mem_iff.mpr u.op_mem))
        (hlen ▸ u.fields_length_lt)
    have hfind (name : Bytes) (w : Zval) (hw : (Key.str name, w) ∈ u.fields) :
        zendHashFind (H.table id) name = some w := HashTable.find_of_perm hperm hw
    have hop := hfind _ _ u.op_mem
    have hfield := hfind _ _ u.field_mem
    cases u with
    | splice field offset length list =>
      rw [beeUpdateVerifyOp_of_named hhash (show _ = some (Zval.str (.char 0x3a)) from hop) hfield,
        if_pos (show [0x3a] = ascii ":" from rfl)]
      exact verifySplice_ok.mpr ⟨hlen, offset, length, list,
        hfind _ (.long offset) (by simp [UpdateOp.fields]),
        hfind _ (.long length) (by simp [UpdateOp.fields]),
        hfind _ (.str list) (by simp [UpdateOp.fields]), rfl⟩
    | arith op field arg =>
      have hmem : op ∈ ascii "+-&|^#" := hproper
      have hne : [op] ≠ ascii ":" := (by simp [ascii] : ∀ c ∈ ascii "+-&|^#", [c] ≠ ascii ":") op hmem
      rw [beeUpdateVerifyOp_of_named hhash (show _ = some (Zval.str (.char op)) from hop) hfield,
        if_neg hne, if_pos hmem]
      exact verifyArg_ok.mpr
        ⟨hlen, .long arg, hfind _ (.long arg) (by simp [UpdateOp.fields]), rfl, rfl⟩
    | assign op field arg =>
      obtain ⟨hmem, hser⟩ : op ∈ ascii "=!" ∧ arg.serializable := hproper
      have hne : [op] ≠ ascii ":" := (by simp [ascii] : ∀ c ∈ ascii "=!", [c] ≠ ascii ":") op hmem
      have hnot : op ∉ ascii "+-&|^#" :=
        (by simp [ascii] : ∀ c ∈ ascii "=!", c ∉ ascii "+-&|^#") op hmem
      rw [beeUpdateVerifyOp_of_named hhash (show _ = some (Zval.str (.char op)) from hop) hfield,
        if_neg hne, if_neg hnot, if_pos hmem]
      exact verifyArg_ok.mpr ⟨hlen, arg, hfind _ arg (by simp [UpdateOp.fields]), hser, rfl⟩

/-- A value writes down one operation at most. -/
theorem UpdateOp.Written.unique {H : Heap} {v : Zval} {u u' : UpdateOp} (h : u.Written H v)
    (h' : u'.Written H v) : u = u' := by
  have hok : beeUpdateVerifyOp H v 0 = .ok u.values := beeUpdateVerifyOp_ok.mpr ⟨u, h, rfl⟩
  have hok' : beeUpdateVerifyOp H v 0 = .ok u'.values := beeUpdateVerifyOp_ok.mpr ⟨u', h', rfl⟩
  have hvalues : u.values = u'.values := Except.ok.inj (hok.symm.trans hok')
  have hdisjoint : ∀ c ∈ ascii "+-&|^#", c ∉ ascii "=!" := by simp [ascii]
  cases u with
  | arith op field arg =>
    cases u' with
    | arith op' field' arg' =>
      cases hvalues
      rfl
    | assign op' field' arg' =>
      cases hvalues
      exact absurd h'.proper.1 (hdisjoint _ h.proper)
    | splice => cases hvalues
  | assign op field arg =>
    cases u' with
    | arith op' field' arg' =>
      cases hvalues
      exact absurd h.proper.1 (hdisjoint _ h'.proper)
    | assign op' field' arg' =>
      cases hvalues
      rfl
    | splice => cases hvalues
  | splice =>
    cases u' with
    | arith | assign => cases hvalues
    | splice =>
      cases hvalues
      rfl

theorem UpdateOp.exists_unique {H : Heap} {v : Zval} :
    (∃ u : UpdateOp, u.Written H v) ↔ ∃! u : UpdateOp, u.Written H v :=
  ⟨fun ⟨u, hu⟩ => ⟨u, hu, fun _ hu' => hu'.unique hu⟩, fun ⟨u, hu, _⟩ => ⟨u, hu⟩⟩

/-! ## Lists of operations -/

/-- The loop accepts the operations at the indices it goes over, in their order. -/
theorem verifyOps_ok {H : Heap} {ht : HashTable} (n i : Nat) {vss : List (List Zval)} :
    verifyOps H ht n i = .ok vss ↔ ∃ us : List UpdateOp,
      List.Forall₂ (fun j u => ∃ v, zendHashIndexFind ht (UInt64.ofNat j) = some v ∧ u.Written H v)
        (List.range' i n) us ∧ us.map UpdateOp.values = vss := by
  induction n generalizing i vss with
  | zero =>
    constructor
    · intro h
      cases h
      exact ⟨[], .nil, rfl⟩
    · rintro ⟨us, hus, rfl⟩
      cases hus
      rfl
  | succ n ih =>
    constructor
    · intro h
      simp only [verifyOps] at h
      split at h
      case h_1 => cases h
      case h_2 v hv =>
        obtain ⟨vs, hvs, h⟩ := except_bind_eq_ok.mp h
        obtain ⟨rest, hrest, h⟩ := except_bind_eq_ok.mp h
        cases h
        obtain ⟨u, hu, rfl⟩ := beeUpdateVerifyOp_ok.mp hvs
        obtain ⟨us, hus, rfl⟩ := (ih (i + 1)).mp hrest
        exact ⟨u :: us, .cons ⟨v, hv, hu⟩ hus, rfl⟩
    · rintro ⟨us, hus, rfl⟩
      rw [List.range'_succ] at hus
      cases hus with
      | cons hhead htail =>
        obtain ⟨v, hv, hu⟩ := hhead
        have hrest := (ih (i + 1)).mpr ⟨_, htail, rfl⟩
        simp only [verifyOps, hv, beeUpdateVerifyOp_ok.mpr ⟨_, hu, rfl⟩, hrest]
        rfl

theorem forall₂_filterMap {α β γ : Type} {f : α → Option β} {R : β → γ → Prop} {l : List α}
    (h : ∀ a ∈ l, (f a).isSome) (us : List γ) :
    List.Forall₂ (fun a u => ∃ v, f a = some v ∧ R v u) l us ↔ List.Forall₂ R (l.filterMap f) us := by
  induction l generalizing us with
  | nil => simp
  | cons a l ih =>
    obtain ⟨v, hv⟩ := Option.isSome_iff_exists.mp (h a List.mem_cons_self)
    have ih := ih fun b hb => h b (List.mem_cons_of_mem _ hb)
    rw [List.filterMap_cons_some hv]
    cases us with
    | nil => simp
    | cons u us => simp only [List.forall₂_cons, ih, hv, Option.some.injEq, exists_eq_left']

/-- Of a list, the loop accepts the elements that write down operations. -/
theorem verifyOps_elements {H : Heap} {ht : HashTable} (h : ht.IsList) {vss : List (List Zval)} :
    verifyOps H ht (zendHashNumElements ht) 0 = .ok vss ↔ ∃ us : List UpdateOp,
      List.Forall₂ (fun v u => UpdateOp.Written H v u) ht.elements us ∧
        us.map UpdateOp.values = vss := by
  have hfound : ∀ i ∈ List.range (zendHashNumElements ht),
      (zendHashIndexFind ht (UInt64.ofNat i)).isSome := fun i hi => h.2 i (List.mem_range.mp hi)
  rw [verifyOps_ok, ← List.range_eq_range']
  simp only [forall₂_filterMap hfound]
  rfl

theorem exists_forall₂ {α β : Type} {R : α → β → Prop} (l : List α) :
    (∃ us, List.Forall₂ R l us) ↔ ∀ a ∈ l, ∃ u, R a u := by
  induction l with
  | nil => simp
  | cons a l ih =>
    rw [List.forall_mem_cons, ← ih]
    constructor
    · rintro ⟨us, hus⟩
      cases hus with
      | cons ha hl => exact ⟨⟨_, ha⟩, _, hl⟩
    · rintro ⟨⟨u, hu⟩, us, hus⟩
      exact ⟨u :: us, .cons hu hus⟩

/-! ## The arrays that are made -/

theorem Heap.allocAll_eq (H : Heap) (vss : List (List Zval)) :
    H.allocAll vss =
      (H ++ vss.map .ofList, (List.range' H.length vss.length).map Zval.arr) := by
  induction vss generalizing H with
  | nil => simp [Heap.allocAll]
  | cons vs vss ih =>
    simp only [Heap.allocAll, Heap.alloc, ih, List.length_append, List.length_nil, Nat.zero_add,
      List.length_cons, List.range'_succ, List.map_cons, List.append_assoc, List.singleton_append]

theorem Heap.table_append {H T : Heap} {id : Nat} (h : id < H.length) :
    Heap.table (H ++ T) id = H.table id := by
  simp only [Heap.table, List.getD_eq_getElem?_getD, List.getElem?_append_left h]

theorem Heap.table_right {H T : Heap} {i : Nat} {t : HashTable} (h : T[i]? = some t) :
    Heap.table (H ++ T) (H.length + i) = t := by
  simp only [Heap.table, List.getD_eq_getElem?_getD, List.getElem?_append_right (Nat.le_add_right _ _),
    Nat.add_sub_cancel_left, h, Option.getD_some]

theorem HashTable.ofList_entries {vs : List Zval} (h : vs.length < 2 ^ 32) :
    (HashTable.ofList vs).entries = vs.zipIdx.map fun v => (.idx (UInt64.ofNat v.2), v.1) := by
  rw [HashTable.ofList, dif_pos h]
  rfl

theorem HashTable.ofList_find {vs : List Zval} (h : vs.length < 2 ^ 32) {i : Nat} {v : Zval}
    (hv : vs[i]? = some v) : zendHashIndexFind (.ofList vs) (UInt64.ofNat i) = some v := by
  refine (mem_iff_lookup (HashTable.ofList vs).nodup).mp ?_
  rw [HashTable.ofList_entries h]
  exact List.mem_map.mpr ⟨(v, i), List.mem_zipIdx_iff_getElem?.mpr hv, rfl⟩

/-- Lists that an `int` can count are packed as lists. -/
theorem phpMpIsHash_ofList {vs : List Zval} (h : vs.length < 2 ^ 31) :
    phpMpIsHash (.ofList vs) = false := by
  have hlt : vs.length < 2 ^ 32 := by omega
  have hnext : (HashTable.ofList vs).nNextFreeElement = UInt64.ofNat vs.length := by
    rw [HashTable.ofList, dif_pos hlt]
    rfl
  have hnat : (HashTable.ofList vs).nNextFreeElement.toNat = vs.length := by
    rw [hnext, toNat_ofNat (by omega)]
  have hlen : (HashTable.ofList vs).entries.length = vs.length := by
    rw [HashTable.ofList_entries hlt, List.length_map, List.length_zipIdx]
  refine (phpMpIsHash_eq_false ((toInt64_nonneg_iff _).mpr (by omega))).mpr
    ⟨hlen ▸ h, hnat.trans hlen.symm, fun k hk => ?_⟩
  rw [HashTable.ofList_entries hlt, keys, List.map_map] at hk
  obtain ⟨p, -, rfl⟩ := List.mem_map.mp hk
  exact ⟨_, rfl⟩

/-- The document of a new array is the list of those of its elements. -/
theorem zvalDocRec_ofList {H : Heap} {id : Nat} {vs : List Zval} (htable : H.table id = .ofList vs)
    (h : vs.length < 2 ^ 31) (f : Nat) (c : Counts) :
    zvalDocRec H (f + 1) c (.arr id) =
      .ofList (vs.map fun v => elementDoc (zvalDocRec H f) c (some v)) := by
  have hlen : zendHashNumElements (.ofList vs) = vs.length := by
    rw [zendHashNumElements, HashTable.ofList_entries (by omega), List.length_map,
      List.length_zipIdx]
  simp only [zvalDocRec, htable, phpMpIsHash_ofList h, hlen]
  refine congrArg Doc.ofList (List.ext_getElem (by simp) fun i hi hi' => ?_)
  have hi : i < vs.length := by simpa using hi
  rw [List.getElem_map, List.getElem_map, List.getElem_range,
    HashTable.ofList_find (by omega) (List.getElem?_eq_getElem hi)]

/-! ## Documents on a larger heap -/

/-- The heap `H'` has the table of `H` under a number, and what is inside the table is in `S`. -/
structure Copied (H H' : Heap) (S : Nat → Prop) (id : Nat) : Prop where
  table : H'.table id = H.table id
  inside : ∀ e ∈ (H.table id).entries, ∀ i, e.2 = .arr i → S i

section Congr

variable {H H' : Heap} {S : Nat → Prop}

/-- The documents of a value under a key, when those of the arrays in it are the same. -/
theorem elementDoc_congr {f f' : Nat} {c c' : Counts} {v : Zval} (hagree : ∀ i, S i → c i = c' i)
    (hroom : H.room c + 1 ≤ f) (hroom' : H'.room c' + 1 ≤ f') (hv : ∀ i, v = .arr i → S i)
    (hS : ∀ i, S i → Copied H H' S i)
    (ih : ∀ {f' c c' v}, (∀ i, v = .arr i → Copied H H' S i) → (∀ i, S i → c i = c' i) →
      Enough H f c v → Enough H' f' c' v → zvalDocRec H f c v = zvalDocRec H' f' c' v) :
    elementDoc (zvalDocRec H f) c (some v) = elementDoc (zvalDocRec H' f') c' (some v) := by
  have hf : 1 ≤ f := by omega
  have hf' : 1 ≤ f' := by omega
  cases v with
  | arr i =>
    have hi : S i := hv i rfl
    have hc := hagree i hi
    simp only [elementDoc, ← hc]
    split
    case isTrue => rfl
    case isFalse hle =>
      refine ih (fun j hj => ?_) (fun j hj => ?_) (enough_inc hroom hle)
        (enough_inc hroom' (hc ▸ hle))
      · cases hj
        exact hS i hi
      · simp only [Counts.inc, hagree j hj]
  | null | long | double | bool | str | other =>
    exact ih (fun i hi => by cases hi) hagree hf hf'

/-- The document of a value depends on the tables inside it only. -/
theorem zvalDocRec_congr (hS : ∀ i, S i → Copied H H' S i) (f : Nat) :
    ∀ {f' c c' v}, (∀ i, v = .arr i → Copied H H' S i) → (∀ i, S i → c i = c' i) →
      Enough H f c v → Enough H' f' c' v → zvalDocRec H f c v = zvalDocRec H' f' c' v := by
  induction f with
  | zero => exact fun _ _ h _ => absurd (enough_pos h) (by omega)
  | succ f ih =>
    intro f' c c' v hv hagree henough henough'
    obtain ⟨f', rfl⟩ : ∃ n, f' = n + 1 := ⟨f' - 1, by have := enough_pos henough'; omega⟩
    cases v with
    | null | long | double | bool | str | other => rfl
    | arr id =>
      obtain ⟨htable, hinside⟩ := hv id rfl
      have helement {v : Zval} (hne : (H.table id).entries ≠ []) (hmem : ∀ i, v = .arr i → S i) :
          elementDoc (zvalDocRec H f) c (some v) = elementDoc (zvalDocRec H' f') c' (some v) :=
        elementDoc_congr hagree (enough_table henough hne)
          (enough_table henough' (htable ▸ hne)) hmem hS ih
      simp only [zvalDocRec, htable]
      split
      · refine congrArg Doc.ofPairs (List.map_congr_left fun e he => ?_)
        exact congrArg (Prod.mk _) (helement (List.ne_nil_of_mem he) (hinside e he))
      · refine congrArg Doc.ofList (List.map_congr_left fun i _ => ?_)
        cases hfind : zendHashIndexFind (H.table id) (UInt64.ofNat i) with
        | none => rfl
        | some v =>
          have hmem : (Key.idx (UInt64.ofNat i), v) ∈ (H.table id).entries :=
            (mem_iff_lookup (H.table id).nodup).mpr hfind
          exact helement (List.ne_nil_of_mem hmem) (hinside _ hmem)

end Congr

/-- An array as an element has the document it has alone, unless it is inside itself: then one level less
of it is packed. -/
theorem innerDoc_eq {H : Heap} {S : Nat → Prop} {v : Zval} (hS : ∀ i, S i → Copied H H S i)
    (hv : ∀ i, v = .arr i → Copied H H S i ∧ ¬ S i) : UpdateOp.innerDoc H v = zvalDoc H v := by
  cases v with
  | null | long | double | bool | str | other => rfl
  | arr i =>
    obtain ⟨hcopied, hnot⟩ := hv i rfl
    have hzero : ¬ (0 : UInt8) > 1 := by decide
    simp only [UpdateOp.innerDoc, elementDoc, if_neg hzero]
    refine zvalDocRec_congr hS H.depth (fun j hj => ?_) (fun j hj => ?_) (enough_depth H _ _)
      (enough_depth H _ _)
    · cases hj
      exact hcopied
    · have hne : j ≠ i := fun h => hnot (h ▸ hj)
      simp only [Counts.inc, hne, if_false]

/-! ## What is sent -/

section Sent

variable {H : Heap}

/-- A value keeps its document when arrays are added to the heap and some of those are entered. -/
theorem elementDoc_append (hclosed : H.Closed) {v : Zval} (hv : v.On H) {T : Heap} {c : Counts}
    (hc : ∀ i < H.length, c i = 0) {f : Nat} (hf : 2 * (H ++ T).length + 1 ≤ f) :
    elementDoc (zvalDocRec (H ++ T) f) c (some v) = UpdateOp.innerDoc H v := by
  have hroom := H.room_le fun _ => 0
  have hroom' := Heap.room_le (H ++ T) c
  have hcopied : ∀ i, i < H.length → Copied H (H ++ T) (· < H.length) i := fun i hi =>
    ⟨Heap.table_append hi, hclosed i⟩
  refine (elementDoc_congr (fun i hi => (hc i hi).symm) (by unfold Heap.depth; omega) (by omega) hv
    hcopied fun hv' hagree henough henough' => ?_).symm
  exact zvalDocRec_congr hcopied H.depth hv' hagree henough henough'

/-- The argument of a written operation is on the heap. -/
theorem UpdateOp.Written.on (hclosed : H.Closed) {v : Zval} {u : UpdateOp} (h : u.Written H v) :
    ∀ w ∈ u.values, w.On H := by
  obtain ⟨-, id, rfl, hperm⟩ := h
  intro w hw
  obtain ⟨f, hf, rfl⟩ := List.mem_map.mp hw
  exact hclosed id f (hperm.mem_iff.mpr hf)

theorem UpdateOp.values_doc (u : UpdateOp) {f : Zval → Doc} (hvalues : ∀ w ∈ u.values, f w = innerDoc H w) :
    .ofList (u.values.map f) = u.doc H := by
  rw [List.map_congr_left hvalues]
  cases u <;> rfl

theorem UpdateOp.values_length_lt (u : UpdateOp) : u.values.length < 2 ^ 31 :=
  (List.length_map _).trans_lt u.fields_length_lt

/-- The list that is made of accepted operations is packed as the list of what the server is sent. -/
theorem zvalDoc_allocAll (hclosed : H.Closed) {us : List UpdateOp} (hlen : us.length < 2 ^ 31)
    (hon : ∀ u ∈ us, ∀ w ∈ u.values, w.On H) {H' : Heap} {args : Zval}
    (h : (H', args) = let (H, arrs) := H.allocAll (us.map UpdateOp.values); H.alloc arrs) :
    zvalDoc H' args = .ofList (us.map (UpdateOp.doc H)) := by
  rw [Heap.allocAll_eq] at h
  simp only [Heap.alloc, Prod.mk.injEq, List.length_append, List.length_map, List.append_assoc] at h
  obtain ⟨rfl, rfl⟩ := h
  obtain ⟨T, hT⟩ : ∃ T : Heap, (us.map UpdateOp.values).map HashTable.ofList ++
      [.ofList ((List.range' H.length us.length).map Zval.arr)] = T := ⟨_, rfl⟩
  rw [hT]
  have hlenT : T.length = us.length + 1 := by simp [← hT]
  have hlist : Heap.table (H ++ T) (H.length + us.length) =
      .ofList ((List.range' H.length us.length).map Zval.arr) := by
    refine Heap.table_right ?_
    rw [← hT, List.getElem?_append_right (by simp)]
    simp
  have hop {i : Nat} (hi : i < us.length) :
      Heap.table (H ++ T) (H.length + i) = .ofList us[i].values := by
    refine Heap.table_right ?_
    rw [← hT, List.getElem?_append_left (by simpa using hi)]
    simp [hi]
  have hdepth : Heap.depth (H ++ T) = 2 * (H ++ T).length + 1 + 1 + 1 := rfl
  rw [zvalDoc, hdepth, zvalDocRec_ofList hlist (by simpa using hlen)]
  refine congrArg Doc.ofList (List.ext_getElem (by simp) fun i hi hi' => ?_)
  have hi : i < us.length := by simpa using hi
  have hzero : ¬ (0 : UInt8) > 1 := by decide
  simp only [List.getElem_map, List.getElem_range', Nat.one_mul, elementDoc, if_neg hzero]
  rw [zvalDocRec_ofList (hop hi) us[i].values_length_lt]
  refine us[i].values_doc fun w hw => ?_
  refine elementDoc_append hclosed (hon _ (List.getElem_mem hi) w hw) (fun j hj => ?_) le_rfl
  have hne : j ≠ H.length + i := by omega
  simp only [Counts.inc, hne, if_false]

end Sent

theorem frames_update (ndebug : Bool) (H : Heap) (sync spaceNo indexNo : UInt32) (key args : Zval) :
    Frames (phpTpEncodeUpdate ndebug H · (fun _ => 0) sync spaceNo indexNo key args)
      ((Request.update spaceNo indexNo key args).docs H sync) := by
  intro str
  have hsmall : (Request.update spaceNo indexNo key args).Small := by
    simp [Request.Small, Request.fields, Arg.Small]
  exact Request.encodes ndebug H str (.update spaceNo indexNo key args) trivial hsmall sync

theorem frames_upsert (ndebug : Bool) (H : Heap) (sync spaceNo : UInt32) (tuple args : Zval) :
    Frames (phpTpEncodeUpsert ndebug H · (fun _ => 0) sync spaceNo tuple args)
      ((Request.upsert spaceNo tuple args).docs H sync) := by
  intro str
  have hsmall : (Request.upsert spaceNo tuple args).Small := by
    simp [Request.Small, Request.fields, Arg.Small]
  exact Request.encodes ndebug H str (.upsert spaceNo tuple args) trivial hsmall sync

theorem beeUpdateVerifyArgs_ok {H : Heap} {id : Nat} (hhash : phpMpIsHash (H.table id) = false)
    {r : Heap × Zval} : beeUpdateVerifyArgs H (.arr id) = .ok r ↔
      ∃ vss, verifyOps H (H.table id) (zendHashNumElements (H.table id)) 0 = .ok vss ∧
        r = let (H, arrs) := H.allocAll vss; H.alloc arrs := by
  constructor
  · intro h
    simp only [beeUpdateVerifyArgs, hhash, Bool.false_eq_true, if_false] at h
    obtain ⟨vss, hvss, h⟩ := except_bind_eq_ok.mp h
    cases h
    exact ⟨vss, hvss, rfl⟩
  · rintro ⟨vss, hvss, rfl⟩
    simp only [beeUpdateVerifyArgs, hhash, Bool.false_eq_true, if_false, hvss]
    rfl

/-- A list of operations is accepted if and only if each of its elements writes down an operation, and it
is sent, by `update` under the key of the tuple and by `upsert` under that of the operations, as the list
of these. -/
theorem beeUpdateVerifyArgs_grammar {H : Heap} (hclosed : H.Closed) {id : Nat}
    (hnext : (H.table id).nNextFreeElement.toInt64 ≥ 0) (hlist : (H.table id).IsList)
    (hhash : phpMpIsHash (H.table id) = false) :
    ((∃ r, beeUpdateVerifyArgs H (.arr id) = .ok r) ↔
      ∀ v ∈ (H.table id).elements, ∃! u : UpdateOp, u.Written H v) ∧
    ∀ H' args, beeUpdateVerifyArgs H (.arr id) = .ok (H', args) →
      ∃ us : List UpdateOp,
        List.Forall₂ (fun v u => UpdateOp.Written H v u) (H.table id).elements us ∧
        zvalDoc H' args = .ofList (us.map (UpdateOp.doc H)) ∧
        ∀ ndebug sync spaceNo indexNo key tuple,
          Frames (phpTpEncodeUpdate ndebug H' · (fun _ => 0) sync spaceNo indexNo key args)
            [headerDoc beexUpdate sync, .ofPairs
              [(.ofNat beexSpace.toNat, .ofNat spaceNo.toNat),
                (.ofNat beexIndex.toNat, .ofNat indexNo.toNat), (.ofNat beexKey.toNat, zvalDoc H' key),
                (.ofNat beexTuple.toNat, .ofList (us.map (UpdateOp.doc H)))]] ∧
          Frames (phpTpEncodeUpsert ndebug H' · (fun _ => 0) sync spaceNo tuple args)
            [headerDoc beexUpsert sync, .ofPairs
              [(.ofNat beexSpace.toNat, .ofNat spaceNo.toNat),
                (.ofNat beexTuple.toNat, zvalDoc H' tuple),
                (.ofNat beexOps.toNat, .ofList (us.map (UpdateOp.doc H)))]] := by
  refine ⟨?_, fun H' args h => ?_⟩
  · simp only [← UpdateOp.exists_unique]
    rw [← exists_forall₂]
    simp only [beeUpdateVerifyArgs_ok hhash, verifyOps_elements hlist]
    exact ⟨fun ⟨_, _, ⟨us, hus, _⟩, _⟩ => ⟨us, hus⟩, fun ⟨us, hus⟩ => ⟨_, _, ⟨us, hus, rfl⟩, rfl⟩⟩
  · obtain ⟨vss, hvss, hargs⟩ := (beeUpdateVerifyArgs_ok hhash).mp h
    obtain ⟨us, hus, rfl⟩ := (verifyOps_elements hlist).mp hvss
    have hcount : us.length < 2 ^ 31 := by
      have hlen := ((phpMpIsHash_eq_false hnext).mp hhash).1
      have hle : (H.table id).elements.length ≤ (List.range (zendHashNumElements (H.table id))).length :=
        List.length_filterMap_le _ _
      rw [List.length_range, zendHashNumElements] at hle
      have := hus.length_eq
      omega
    have hon : ∀ u ∈ us, ∀ w ∈ u.values, w.On H := by
      intro u hu
      obtain ⟨i, hi, rfl⟩ := List.getElem_of_mem hu
      exact (hus.get (hus.length_eq ▸ hi) hi).on hclosed
    have hdoc := zvalDoc_allocAll hclosed hcount hon hargs
    refine ⟨us, hus, hdoc, fun ndebug sync spaceNo indexNo key tuple => ⟨?_, ?_⟩⟩
    · have := frames_update ndebug H' sync spaceNo indexNo key args
      simpa only [Request.docs, Request.type, bodyDoc, Request.fields, List.map_cons, List.map_nil,
        Arg.doc, hdoc] using this
    · have := frames_upsert ndebug H' sync spaceNo tuple args
      simpa only [Request.docs, Request.type, bodyDoc, Request.fields, List.map_cons, List.map_nil,
        Arg.doc, hdoc] using this

/-- `array(array("field" => 2, "op" => "+", "arg" => 1))` -/
def plusHeap : Heap :=
  [.list [.arr 1] (by decide),
    ⟨[(.str (ascii "field"), .long 2), (.str (ascii "op"), .str (.char 0x2b)),
        (.str (ascii "arg"), .long 1)], 0, by decide, by decide, by
      intro s hs
      simp only [keys, List.map_cons, List.map_nil, List.mem_cons, Key.str.injEq,
        List.not_mem_nil, or_false] at hs
      rcases hs with rfl | rfl | rfl <;> decide⟩]

theorem plusHeap_closed : plusHeap.Closed := by
  intro id e he i hi
  match id with
  | 0 =>
    obtain rfl : e = (.idx 0, .arr 1) := List.mem_singleton.mp he
    cases hi
    decide
  | 1 =>
    simp only [plusHeap, Heap.table, List.getD_cons_succ, List.getD_cons_zero, List.mem_cons,
      List.not_mem_nil, or_false] at he
    rcases he with rfl | rfl | rfl <;> cases hi
  | id + 2 => cases he

/-- The theorem at that array. -/
theorem beeUpdateVerifyArgs_grammar_plus : ∃ r, beeUpdateVerifyArgs plusHeap (.arr 0) = .ok r := by
  have hlist : (plusHeap.table 0).IsList := by
    refine ⟨fun k => ?_, by decide⟩
    show k ∈ [Key.idx 0] ↔ _
    simp [zendHashNumElements, plusHeap, Heap.table, HashTable.list]
  refine (beeUpdateVerifyArgs_grammar plusHeap_closed (by decide) hlist (by decide)).1.mpr ?_
  intro v hv
  obtain rfl : v = .arr 1 := List.mem_singleton.mp hv
  have hplus : 0x2b ∈ ascii "+-&|^#" := by decide
  exact UpdateOp.exists_unique.mp ⟨.arith 0x2b 2 1, hplus, 1, rfl, .swap _ _ _⟩

end BeePhp
