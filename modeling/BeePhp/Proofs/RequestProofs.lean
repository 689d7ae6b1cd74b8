import BeePhp.Msgpack.Proofs.PackProofs
import BeePhp.Request

/-!
# Proofs: requests

Every size function gives the length of what its encoder packs, so the length written before a payload
is right and the frame comes out as `frame` says (`Request.encode_frame`).
-/

namespace BeePhp

open Codec

/-! ## Arguments -/

theorem longOfUint32_toInt (n : UInt32) : (longOfUint32 n).toInt = n.toNat := by
  have := n.toNat_lt
  rw [longOfUint32, Int64.toInt_ofNat_of_lt (by omega)]

theorem ofInt_longOfUint32 (n : UInt32) : Doc.ofInt (longOfUint32 n).toInt = .ofNat n.toNat := by
  rw [longOfUint32_toInt, Doc.ofInt, if_pos (by omega), Int.toNat_natCast]

/-- A string argument leaves room for its length below 2^32. -/
def Arg.Small : Arg → Prop
  | .string c => c.length + 5 < 2 ^ 32
  | _ => True

theorem packUint32_appends (ndebug : Bool) (n : UInt32) :
    Appends (phpMpPackLong ndebug · (longOfUint32 n)) (.ofNat n.toNat) :=
  ofInt_longOfUint32 n ▸ phpMpPackLong_appends ndebug (longOfUint32 n)

theorem sizeofUint32_eq (ndebug : Bool) (n : UInt32) :
    phpMpSizeofLong ndebug (longOfUint32 n) = .ok (Doc.ofNat n.toNat).encode.length := by
  rw [phpMpSizeofLong_eq, ofInt_longOfUint32]

theorem Arg.pack_spec (ndebug : Bool) (H : Heap) (str : SmartString) {arg : Arg} (h : arg.Small) :
    ∃ str', arg.pack ndebug H str (fun _ => 0) = .ok (str', fun _ => 0) ∧
      str'.data = str.data ++ (arg.doc H).encode := by
  cases arg with
  | long n =>
    obtain ⟨str', hpack, hdata⟩ := packUint32_appends ndebug n str
    exact ⟨str', by simp only [Arg.pack, hpack]; rfl, hdata⟩
  | string c =>
    obtain ⟨str', hpack, hdata⟩ := phpMpPackString_appends h str
    exact ⟨str', by simp only [Arg.pack, hpack]; rfl, hdata⟩
  | zval val => exact phpMpPack_spec ndebug H str val

theorem Arg.sizeof_eq (ndebug : Bool) (H : Heap) {arg : Arg} (h : arg.Small) :
    arg.sizeof ndebug H (fun _ => 0) = .ok ((arg.doc H).encode.length, fun _ => 0) := by
  cases arg with
  | long n =>
    simp only [Arg.sizeof, sizeofUint32_eq]
    rfl
  | string c => simp only [Arg.sizeof, phpMpSizeofString_eq h, Arg.doc]
  | zval val => exact phpMpSizeof_eq ndebug H val

/-! ## Bodies -/

/-- The keys and values of a body in turn. -/
def fieldDocs (H : Heap) (fields : List (UInt32 × Arg)) : List (Doc × Doc) :=
  fields.map fun f => (.ofNat f.1.toNat, f.2.doc H)

theorem packFields_spec (ndebug : Bool) (H : Heap) {fields : List (UInt32 × Arg)}
    (hsmall : ∀ f ∈ fields, f.2.Small) (str : SmartString) :
    ∃ str', packFields ndebug H fields str (fun _ => 0) = .ok (str', fun _ => 0) ∧
      str'.data = str.data ++ encodeAll (flatten (fieldDocs H fields)) := by
  induction fields generalizing str with
  | nil => exact ⟨str, rfl, by simp [fieldDocs, flatten, encodeAll]⟩
  | cons f fields ih =>
    obtain ⟨key, arg⟩ := f
    obtain ⟨str₁, hkey, hdata₁⟩ := packUint32_appends ndebug key str
    obtain ⟨str₂, harg, hdata₂⟩ := arg.pack_spec ndebug H str₁ (hsmall _ List.mem_cons_self)
    obtain ⟨str₃, hrest, hdata₃⟩ := ih (fun f hf => hsmall f (List.mem_cons_of_mem _ hf)) str₂
    refine ⟨str₃, ?_, ?_⟩
    · simp only [packFields, hkey, harg, bind, Except.bind]
      exact hrest
    · rw [hdata₃, hdata₂, hdata₁]
      simp only [fieldDocs, List.map_cons, flatten, encodeAll, List.append_assoc]

theorem sizeofFields_eq (ndebug : Bool) (H : Heap) {fields : List (UInt32 × Arg)}
    (hsmall : ∀ f ∈ fields, f.2.Small) (needed : Nat) :
    sizeofFields ndebug H fields needed (fun _ => 0) =
      .ok (needed + (encodeAll (flatten (fieldDocs H fields))).length, fun _ => 0) := by
  induction fields generalizing needed with
  | nil => rfl
  | cons f fields ih =>
    obtain ⟨key, arg⟩ := f
    have harg := arg.sizeof_eq ndebug H (hsmall _ List.mem_cons_self)
    simp only [sizeofFields, sizeofUint32_eq, harg, bind, Except.bind]
    rw [ih fun f hf => hsmall f (List.mem_cons_of_mem _ hf)]
    simp only [fieldDocs, List.map_cons, flatten, encodeAll, List.length_append, Nat.add_assoc]

theorem bodyDoc_encode (H : Heap) (fields : List (UInt32 × Arg)) : (bodyDoc H fields).encode =
    (SeqWidth.forNat fields.length).mapHead fields.length ++
      encodeAll (flatten (fieldDocs H fields)) := by
  simp [bodyDoc, fieldDocs, Doc.ofPairs, Doc.encode]

/-! ## Headers -/

theorem headerDoc_encode (type sync : UInt32) : (headerDoc type sync).encode =
    (SeqWidth.forNat 2).mapHead 2 ++ ((Doc.ofNat beexCode.toNat).encode ++
      ((Doc.ofNat type.toNat).encode ++ ((Doc.ofNat beexSync.toNat).encode ++
        (Doc.ofNat sync.toNat).encode))) := by
  simp [headerDoc, Doc.ofPairs, Doc.encode, flatten, encodeAll]

theorem phpMpSizeofHash_eq {n : Nat} (h : n < 2 ^ 32) :
    phpMpSizeofHash n = ((SeqWidth.forNat n).mapHead n).length := by
  rw [phpMpSizeofHash, toUint32_eq h, mpSizeofMap_eq]

theorem phpTpSizeofHeader_eq (ndebug : Bool) (type sync : UInt32) :
    phpTpSizeofHeader ndebug type sync = .ok (headerDoc type sync).encode.length := by
  simp only [phpTpSizeofHeader, sizeofUint32_eq, phpMpSizeofHash_eq (show 2 < 2 ^ 32 by decide),
    bind, Except.bind, pure, Except.pure, headerDoc_encode, List.length_append, Nat.add_assoc]

theorem phpMpPackPackageSize_spec (str : SmartString) (size : Nat) :
    ∃ str', phpMpPackPackageSize str size = .ok str' ∧
      str'.data = str.data ++ 0xce :: toBE 4 (toUint32 size) :=
  str.pack_spec (by simp)

theorem phpTpPackHeader_spec (ndebug : Bool) (str : SmartString) (size : Nat) (type sync : UInt32) :
    ∃ str', phpTpPackHeader ndebug str size type sync = .ok str' ∧
      str'.data = str.data ++ 0xce :: toBE 4 (toUint32 size) ++ (headerDoc type sync).encode := by
  obtain ⟨str₁, h₁, hdata₁⟩ := phpMpPackPackageSize_spec str size
  obtain ⟨str₂, h₂, hdata₂⟩ := phpMpPackHash_spec str₁ (show 2 < 2 ^ 32 by decide)
  obtain ⟨str₃, h₃, hdata₃⟩ := packUint32_appends ndebug beexCode str₂
  obtain ⟨str₄, h₄, hdata₄⟩ := packUint32_appends ndebug type str₃
  obtain ⟨str₅, h₅, hdata₅⟩ := packUint32_appends ndebug beexSync str₄
  obtain ⟨str₆, h₆, hdata₆⟩ := packUint32_appends ndebug sync str₅
  refine ⟨str₆, ?_, ?_⟩
  · simp only [phpTpPackHeader, h₁, h₂, h₃, h₄, h₅, bind, Except.bind]
    exact h₆
  · rw [hdata₆, hdata₅, hdata₄, hdata₃, hdata₂, hdata₁, headerDoc_encode]
    simp only [List.append_assoc]

/-- A header has five bytes at least. -/
theorem five_le_headerDoc (type sync : UInt32) : 5 ≤ (headerDoc type sync).encode.length := by
  have hhead := (headerDoc type sync).head_length_pos
  have hitems := length_le_encodeAll (headerDoc type sync).items
  rw [Doc.encode_eq, List.length_append]
  have hfour : (headerDoc type sync).items.length = 4 := rfl
  omega

/-! ## Frames -/

/-- Arguments of a payload that is shorter than 2^32 bytes leave room for their lengths. -/
theorem small_of_payload {H : Heap} {type sync : UInt32} {fields : List (UInt32 × Arg)}
    (h : ((headerDoc type sync).encode ++ (bodyDoc H fields).encode).length < 2 ^ 32) :
    ∀ f ∈ fields, f.2.Small := by
  rintro ⟨key, arg⟩ hf
  match arg with
  | .long _ | .zval _ => exact trivial
  | .string c =>
    have hheader := five_le_headerDoc type sync
    have hmem : Doc.ofStr c ∈ flatten (fieldDocs H fields) :=
      mem_flatten.mpr ⟨_, List.mem_map_of_mem hf, .inr rfl⟩
    have hle := encode_length_le hmem
    have hstr : c.length ≤ (Doc.ofStr c).encode.length := by
      simp [Doc.ofStr, Doc.encode, Doc.head]
    rw [bodyDoc_encode] at h
    simp only [List.length_append] at h
    show c.length + 5 < 2 ^ 32
    omega

theorem sizeofRequest_eq (ndebug : Bool) (H : Heap) (type sync : UInt32)
    {fields : List (UInt32 × Arg)} (hn : fields.length < 2 ^ 32)
    (hsmall : ∀ f ∈ fields, f.2.Small) :
    sizeofRequest ndebug H (fun _ => 0) type sync fields.length fields =
      .ok (((headerDoc type sync).encode ++ (bodyDoc H fields).encode).length, fun _ => 0) := by
  simp only [sizeofRequest, phpTpSizeofHeader_eq, bind, Except.bind, sizeofFields_eq ndebug H hsmall,
    phpMpSizeofHash_eq hn, bodyDoc_encode, List.length_append, Nat.add_assoc]

theorem encodeRequest_spec (ndebug : Bool) (H : Heap) (str : SmartString) (type sync : UInt32)
    {fields : List (UInt32 × Arg)} (hn : fields.length < 2 ^ 32)
    (hsmall : ∀ f ∈ fields, f.2.Small) (size : Nat) :
    ∃ str', encodeRequest ndebug H str (fun _ => 0) size type sync fields.length fields =
        .ok (str', fun _ => 0) ∧
      str'.data = str.data ++ 0xce :: toBE 4 (toUint32 size) ++
        ((headerDoc type sync).encode ++ (bodyDoc H fields).encode) := by
  obtain ⟨str₁, h₁, hdata₁⟩ := phpTpPackHeader_spec ndebug (str.ensure (size + 5)) size type sync
  obtain ⟨str₂, h₂, hdata₂⟩ := phpMpPackHash_spec str₁ hn
  obtain ⟨str₃, h₃, hdata₃⟩ := packFields_spec ndebug H hsmall str₂
  refine ⟨str₃, ?_, ?_⟩
  · simp only [encodeRequest, h₁, h₂, bind, Except.bind]
    exact h₃
  · rw [hdata₃, hdata₂, hdata₁, (str.ensure_spec (size + 5)).2.1, bodyDoc_encode]
    simp only [List.append_assoc]

/-- The size function and the encoder of a request one after the other. -/
theorem sizeThenEncode_spec (ndebug : Bool) (H : Heap) (str : SmartString) (type sync : UInt32)
    {fields : List (UInt32 × Arg)} (hn : fields.length < 2 ^ 32)
    (hsmall : ∀ f ∈ fields, f.2.Small) :
    ∃ str', (do
        let (size, c) ← sizeofRequest ndebug H (fun _ => 0) type sync fields.length fields
        encodeRequest ndebug H str c size type sync fields.length fields) =
        .ok (str', fun _ => 0) ∧
      str'.data = str.data ++
        0xce :: toBE 4 (toUint32 ((headerDoc type sync).encode ++ (bodyDoc H fields).encode).length) ++
        ((headerDoc type sync).encode ++ (bodyDoc H fields).encode) := by
  obtain ⟨str', hencode, hdata⟩ := encodeRequest_spec ndebug H str type sync hn hsmall _
  refine ⟨str', ?_, hdata⟩
  simp only [sizeofRequest_eq ndebug H type sync hn hsmall, bind, Except.bind]
  exact hencode

theorem Arg.doc_wf (H : Heap) {arg : Arg} (h : arg.Small) : (arg.doc H).WF := by
  cases arg with
  | long n => exact Doc.ofNat_wf (lt_trans n.toNat_lt (by decide))
  | string c =>
    have hlen : c.length + 5 < 2 ^ 32 := h
    exact Doc.ofStr_wf (by omega)
  | zval val => exact zvalDoc_wf H val

theorem uint32_doc_wf (n : UInt32) : (Doc.ofNat n.toNat).WF :=
  Doc.ofNat_wf (lt_trans n.toNat_lt (by decide))

theorem headerDoc_wf (type sync : UInt32) : (headerDoc type sync).WF := by
  refine Doc.ofPairs_wf (by simp) fun p hp => ?_
  obtain rfl | rfl : p = _ ∨ p = _ := by simpa using hp
  · exact ⟨uint32_doc_wf _, uint32_doc_wf _⟩
  · exact ⟨uint32_doc_wf _, uint32_doc_wf _⟩

theorem bodyDoc_wf (H : Heap) {fields : List (UInt32 × Arg)} (hn : fields.length < 2 ^ 32)
    (hsmall : ∀ f ∈ fields, f.2.Small) : (bodyDoc H fields).WF := by
  refine Doc.ofPairs_wf (by simpa using hn) fun p hp => ?_
  obtain ⟨f, hf, rfl⟩ := List.mem_map.mp hp
  exact ⟨uint32_doc_wf _, f.2.doc_wf H (hsmall f hf)⟩

/-- The string arguments leave room for their lengths. -/
def Request.Small (r : Request) : Prop := ∀ f ∈ r.fields, f.2.Small

/-- What an encoder appends: the low 32 bits of the length of the payload, and the payload. -/
def Request.Encodes (ndebug : Bool) (H : Heap) (str : SmartString) (sync : UInt32) (r : Request) :
    Prop :=
  ∃ str', r.encode ndebug H str (fun _ => 0) sync = .ok (str', fun _ => 0) ∧
    str'.data = str.data ++ 0xce :: toBE 4 (toUint32 (r.payload H sync).length) ++ r.payload H sync

/-- What an encoder has to do for its request: it appends the frame, and the payload consists of well
formed documents. -/
def Request.Exact (ndebug : Bool) (H : Heap) (str : SmartString) (sync : UInt32) (r : Request) :
    Prop :=
  ∃ str', r.encode ndebug H str (fun _ => 0) sync = .ok (str', fun _ => 0) ∧
    str'.data = str.data ++ frame (r.payload H sync) ∧ AllWF (r.docs H sync)

theorem ping_encodes (ndebug : Bool) (H : Heap) (str : SmartString) (sync : UInt32) :
    Request.Encodes ndebug H str sync .ping := by
  have hpayload : Request.payload H .ping sync = (headerDoc beexPing sync).encode := by
    simp [Request.payload, Request.docs, encodeAll]
  obtain ⟨str', hpack, hdata⟩ :=
    phpTpPackHeader_spec ndebug (str.ensure ((headerDoc beexPing sync).encode.length + 5))
      (headerDoc beexPing sync).encode.length beexPing sync
  refine ⟨str', ?_, ?_⟩
  · simp only [Request.encode, phpTpEncodePing, phpTpSizeofPing, phpTpSizeofHeader_eq, hpack, bind,
      Except.bind, pure, Except.pure]
  · rw [hdata, (str.ensure_spec _).2.1, hpayload]

/-- The payload of a request with a body. -/
theorem body_payload {H : Heap} {sync : UInt32} {r : Request}
    (hdocs : r.docs H sync = [headerDoc r.type sync, bodyDoc H r.fields]) :
    r.payload H sync = (headerDoc r.type sync).encode ++ (bodyDoc H r.fields).encode := by
  rw [Request.payload, hdocs]
  simp [encodeAll]

/-- A request whose encoder is one call of the size function and one of the common encoder. -/
theorem body_encodes (ndebug : Bool) (H : Heap) (str : SmartString) (sync : UInt32) {r : Request}
    (hdocs : r.docs H sync = [headerDoc r.type sync, bodyDoc H r.fields])
    (hn : r.fields.length < 2 ^ 32)
    (hencode : r.encode ndebug H str (fun _ => 0) sync = (do
      let (size, c) ← sizeofRequest ndebug H (fun _ => 0) r.type sync r.fields.length r.fields
      encodeRequest ndebug H str c size r.type sync r.fields.length r.fields))
    (hsmall : r.Small) : r.Encodes ndebug H str sync := by
  obtain ⟨str', hpack, hdata⟩ := sizeThenEncode_spec ndebug H str r.type sync hn hsmall
  refine ⟨str', hencode.trans hpack, ?_⟩
  rw [hdata, body_payload hdocs]

theorem select_small (spaceNo indexNo limit offset iterator : UInt32) (key : Zval) :
    ∀ f ∈ (Request.select spaceNo indexNo limit offset iterator key).fields, f.2.Small := by
  simp [Request.fields, Arg.Small]

/-- The keys of the offset and of the limit are as long as each other. -/
theorem select_length_comm (H : Heap) (spaceNo indexNo limit offset iterator : UInt32)
    (key : Zval) :
    (bodyDoc H (Request.select spaceNo indexNo limit offset iterator key).fields).encode.length =
      (bodyDoc H (Request.select spaceNo indexNo offset limit iterator key).fields).encode.length := by
  have hkeys : (Doc.ofNat beexOffset.toNat).encode.length =
      (Doc.ofNat beexLimit.toNat).encode.length := rfl
  simp only [Request.fields, bodyDoc_encode, fieldDocs, List.map_cons, flatten, encodeAll,
    List.length_append, List.length_cons, Arg.doc, hkeys]
  omega

/-- `php_tp_encode_select` asks for the size of the request with its offset and limit exchanged, which
is the same number. -/
theorem phpTpSizeofSelect_comm (ndebug : Bool) (H : Heap)
    (sync spaceNo indexNo limit offset iterator : UInt32) (key : Zval) :
    phpTpSizeofSelect ndebug H (fun _ => 0) sync spaceNo indexNo limit offset iterator key =
      phpTpSizeofSelect ndebug H (fun _ => 0) sync spaceNo indexNo offset limit iterator key := by
  have hsize (a b : UInt32) :
      phpTpSizeofSelect ndebug H (fun _ => 0) sync spaceNo indexNo a b iterator key =
        .ok (((headerDoc beexSelect sync).encode ++ (bodyDoc H
          (Request.select spaceNo indexNo a b iterator key).fields).encode).length, fun _ => 0) :=
    sizeofRequest_eq ndebug H beexSelect sync (show 6 < 2 ^ 32 by decide)
      (select_small spaceNo indexNo a b iterator key)
  rw [hsize, hsize, List.length_append, List.length_append, select_length_comm]

/-- Every request encoder appends the length and the payload of its request. -/
theorem Request.encodes (ndebug : Bool) (H : Heap) (str : SmartString) (r : Request)
    (hproper : r.Proper) (hsmall : r.Small) (sync : UInt32) : r.Encodes ndebug H str sync := by
  cases r with
  | ping => exact ping_encodes ndebug H str sync
  | select spaceNo indexNo limit offset iterator key =>
    refine body_encodes ndebug H str sync rfl (show 6 < 2 ^ 32 by decide) ?_ hsmall
    simp only [Request.encode, phpTpEncodeSelect]
    rw [phpTpSizeofSelect_comm]
    rfl
  | insertOrReplace spaceNo tuple type =>
    refine body_encodes ndebug H str sync rfl (show 2 < 2 ^ 32 by decide) ?_ hsmall
    have hassert : ¬ (ndebug = false ∧ ¬ (type = beexInsert ∨ type = beexReplace)) :=
      fun h => h.2 hproper
    simp only [Request.encode, phpTpEncodeInsertOrReplace, if_neg hassert]
    rfl
  | delete spaceNo indexNo key =>
    exact body_encodes ndebug H str sync rfl (show 3 < 2 ^ 32 by decide) rfl hsmall
  | call proc tuple =>
    exact body_encodes ndebug H str sync rfl (show 2 < 2 ^ 32 by decide) rfl hsmall
  | eval proc tuple =>
    exact body_encodes ndebug H str sync rfl (show 2 < 2 ^ 32 by decide) rfl hsmall
  | update spaceNo indexNo key args =>
    exact body_encodes ndebug H str sync rfl (show 4 < 2 ^ 32 by decide) rfl hsmall
  | upsert spaceNo tuple args =>
    exact body_encodes ndebug H str sync rfl (show 3 < 2 ^ 32 by decide) rfl hsmall

/-- A request is the ping or has a body with less than 2^32 fields. -/
theorem Request.docs_cases (H : Heap) (sync : UInt32) (r : Request) :
    r = .ping ∨ (r.docs H sync = [headerDoc r.type sync, bodyDoc H r.fields] ∧
      r.fields.length < 2 ^ 32) := by
  cases r with
  | ping => exact .inl rfl
  | _ => exact .inr ⟨rfl, by simp [Request.fields]⟩

theorem Request.small_of_payload {H : Heap} {sync : UInt32} {r : Request}
    (h : (r.payload H sync).length < 2 ^ 32) : r.Small := by
  rcases r.docs_cases H sync with rfl | ⟨hdocs, -⟩
  · simp [Request.Small, Request.fields]
  · rw [body_payload hdocs] at h
    exact BeePhp.small_of_payload h

theorem Request.docs_wf {H : Heap} {sync : UInt32} {r : Request} (h : r.Small) :
    AllWF (r.docs H sync) := by
  rcases r.docs_cases H sync with rfl | ⟨hdocs, hn⟩
  · exact ⟨headerDoc_wf _ _, trivial⟩
  · rw [hdocs]
    exact ⟨headerDoc_wf _ _, bodyDoc_wf H hn h, trivial⟩

/-- A request whose payload is shorter than 2^32 bytes is appended as a frame. -/
theorem Request.exact (ndebug : Bool) (H : Heap) (str : SmartString) (r : Request)
    (hproper : r.Proper) (sync : UInt32) (hsize : (r.payload H sync).length < 2 ^ 32) :
    r.Exact ndebug H str sync := by
  have hsmall := Request.small_of_payload hsize
  obtain ⟨str', hencode, hdata⟩ := r.encodes ndebug H str hproper hsmall sync
  refine ⟨str', hencode, ?_, Request.docs_wf hsmall⟩
  rw [hdata, toUint32_eq hsize, frame]
  simp only [List.append_assoc, List.cons_append]

/-- The frame that a request encoder appends is the length of the payload, a header map with the code and
the sync, and, but for `ping`, a body map with the arguments under their keys; a PHP value stands there
as `php_mp_pack` packs it. -/
theorem phpTpEncode_frame (ndebug : Bool) (H : Heap) (str : SmartString) (r : Request)
    (hproper : r.Proper) (sync : UInt32) (hsize : (r.payload H sync).length < 2 ^ 32) :
    r.Exact ndebug H str sync ∧ ∀ key val, (key, Arg.zval val) ∈ r.fields → ∀ s, ∃ s',
      phpMpPack ndebug H s (fun _ => 0) val = .ok (s', fun _ => 0) ∧
        s'.data = s.data ++ (zvalDoc H val).encode :=
  ⟨r.exact ndebug H str hproper sync hsize, fun _ val _ s => phpMpPack_spec ndebug H s val⟩

/-- `replace` of the tuple `array(5)` in the space 512. -/
theorem phpTpEncode_frame_replace :
    let H : Heap := [⟨[(.idx 0, .long 5)], 1, by decide, by decide, by simp [keys]⟩]
    let r : Request := .insertOrReplace 512 (.arr 0) beexReplace
    r.Exact false H (.null fun _ => 0) 7 ∧ ∀ key val, (key, Arg.zval val) ∈ r.fields → ∀ s, ∃ s',
      phpMpPack false H s (fun _ => 0) val = .ok (s', fun _ => 0) ∧
        s'.data = s.data ++ (zvalDoc H val).encode :=
  phpTpEncode_frame false _ _ (.insertOrReplace 512 (.arr 0) beexReplace) (.inr rfl) 7 (by decide)

end BeePhp
