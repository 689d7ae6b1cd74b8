import BeePhp.Msgpuck
import BeePhp.Codec.Doc
import BeePhp.Codec.Proofs.DocProofs
import BeePhp.Codec.Proofs.ReaderProofs
import Mathlib.Tactic.SplitIfs

/-!
# Proofs: third_party/msgpuck.h

Each decoder reads exactly the heads of the documents of its type, and each encoder writes one of
them, in as many bytes as the size function says.
-/

namespace BeePhp

open Codec (Bytes Doc Reader toBE ofBE twos signed IntWidth StrWidth BinWidth SeqWidth ExtWidth)
open Codec.Reader

/-! ## Lead bytes -/

/-- What holds of the bytes with two given halves holds of every byte. -/
theorem forall_byte {P : UInt8 → Prop} (h : ∀ m < 16, ∀ n < 16, P (UInt8.ofNat (16 * m + n)))
    (c : UInt8) : P c := by
  have hlt := c.toNat_lt
  have hc := h (c.toNat / 16) (by omega) (c.toNat % 16) (by omega)
  rwa [show 16 * (c.toNat / 16) + c.toNat % 16 = c.toNat by omega, UInt8.ofNat_toNat] at hc

theorem fixUint_lead : ∀ n < 128, UInt8.ofNat n ≤ 0x7f ∧ (UInt8.ofNat n).toNat = n := by
  decide

theorem fixStr_lead : ∀ n < 32, (UInt8.ofNat (0xa0 + n) ≥ 0xa0 ∧ UInt8.ofNat (0xa0 + n) ≤ 0xbf) ∧
    (UInt8.ofNat (0xa0 + n) &&& 0x1f).toNat = n := by
  decide

theorem fixArray_lead : ∀ n < 16, mpTypeof (UInt8.ofNat (0x90 + n)) = .array ∧
    UInt8.ofNat (0x90 + n) &&& 0x40 = 0 ∧ (UInt8.ofNat (0x90 + n) &&& 0xf).toNat = n := by
  decide

theorem fixMap_lead : ∀ n < 16, (UInt8.ofNat (0x80 + n) ≥ 0x80 ∧ UInt8.ofNat (0x80 + n) ≤ 0x8f) ∧
    (UInt8.ofNat (0x80 + n) &&& 0xf).toNat = n := by
  decide

theorem fixInt_lead : ∀ n : Nat, n < 32 → UInt8.ofNat (twos 1 ((n : Int) - 32)) ≥ 0xe0 ∧
    signed 1 (UInt8.ofNat (twos 1 ((n : Int) - 32))).toNat = (n : Int) - 32 := by
  decide

theorem fixInt_lead_iff : ∀ c : UInt8, c ≥ 0xe0 → IntWidth.fix.fitsInt (signed 1 c.toNat) ∧
    UInt8.ofNat (twos 1 (signed 1 c.toNat)) = c :=
  forall_byte (by decide)

theorem fixStr_lead_iff : ∀ c : UInt8, c ≥ 0xa0 ∧ c ≤ 0xbf →
    (c &&& 0x1f).toNat < 32 ∧ UInt8.ofNat (0xa0 + (c &&& 0x1f).toNat) = c :=
  forall_byte (by decide)

theorem fixMap_lead_iff : ∀ c : UInt8, c ≥ 0x80 ∧ c ≤ 0x8f →
    (c &&& 0xf).toNat < 16 ∧ UInt8.ofNat (0x80 + (c &&& 0xf).toNat) = c :=
  forall_byte (by decide)

theorem fixArray_lead_iff : ∀ c : UInt8, mpTypeof c = .array → c &&& 0x40 = 0 →
    (c &&& 0xf).toNat < 16 ∧ UInt8.ofNat (0x90 + (c &&& 0xf).toNat) = c :=
  forall_byte (by decide)

theorem array16_lead_iff : ∀ c : UInt8, mpTypeof c = .array → c &&& 0x40 ≠ 0 →
    c &&& 0x1 = 0xdc &&& 0x1 → c = 0xdc :=
  forall_byte (by decide)

theorem array32_lead_iff : ∀ c : UInt8, mpTypeof c = .array → c &&& 0x40 ≠ 0 →
    c &&& 0x1 ≠ 0xdc &&& 0x1 → c = 0xdd :=
  forall_byte (by decide)

theorem fixInt_lead_or : ∀ n : Nat, n < 32 →
    0xe0 ||| UInt8.ofNat (twos 1 ((n : Int) - 32)) = UInt8.ofNat (twos 1 ((n : Int) - 32)) := by
  decide

theorem fixStr_lead_or : ∀ n < 32, 0xa0 ||| UInt8.ofNat n = UInt8.ofNat (0xa0 + n) := by
  decide

theorem fixArray_lead_or : ∀ n < 16, 0x90 ||| UInt8.ofNat n = UInt8.ofNat (0x90 + n) := by
  decide

theorem fixMap_lead_or : ∀ n < 16, 0x80 ||| UInt8.ofNat n = UInt8.ofNat (0x80 + n) := by
  decide

/-! ## Decoders read heads -/

theorem mpDecodeNil_reads : Reads mpDecodeNil Doc.nil.head () := fun _ => rfl

theorem mpDecodeBool_reads (b : Bool) : Reads mpDecodeBool (Doc.bool b).head b := by
  cases b <;> exact fun _ => rfl

theorem mpDecodeUint_reads {w : IntWidth} {n : Nat} (h : n < w.uintBound) :
    Reads mpDecodeUint (w.uintHead n) n := by
  intro rest
  cases w with
  | fix =>
    obtain ⟨hle, heq⟩ := fixUint_lead n h
    simp only [mpDecodeUint, IntWidth.uintHead, List.singleton_append, byte_bind, if_pos hle, heq,
      pure_run, Except.map]
  | _ => exact Reads.number Fault.oob h rest

/-- A number of `k` bytes read as a signed one. -/
theorem number_signed_reads (k : Nat) {i : Int} (hlo : -((256 ^ k : Nat) : Int) ≤ 2 * i)
    (hhi : 2 * i < (256 ^ k : Nat)) :
    Reads (do return signed k (← number Fault.oob k)) (toBE k (twos k i)) i := by
  refine (Reads.number Fault.oob (Codec.twos_lt k i)).bind' (d := []) ?_ (by simp)
  rw [Codec.signed_twos hlo hhi]
  exact Reads.pure i

theorem mpDecodeInt_reads {w : IntWidth} {i : Int} (h : w.fitsInt i) :
    Reads mpDecodeInt (w.intHead i) i := by
  intro rest
  cases w with
  | fix =>
    simp only [IntWidth.fitsInt] at h
    obtain ⟨hle, heq⟩ := fixInt_lead (i + 32).toNat (by omega)
    rw [show ((i + 32).toNat : Int) - 32 = i by omega] at hle heq
    simp only [mpDecodeInt, IntWidth.intHead, List.singleton_append, byte_bind, if_pos hle, heq,
      pure_run, Except.map]
  | w8 =>
    simp only [IntWidth.fitsInt] at h
    exact number_signed_reads 1 (by omega) (by omega) rest
  | w16 =>
    simp only [IntWidth.fitsInt] at h
    exact number_signed_reads 2 (by omega) (by omega) rest
  | w32 =>
    simp only [IntWidth.fitsInt] at h
    exact number_signed_reads 4 (by omega) (by omega) rest
  | w64 =>
    simp only [IntWidth.fitsInt] at h
    exact number_signed_reads 8 (by omega) (by omega) rest

theorem mpDecodeFloat_reads {bits : Nat} (h : bits < 256 ^ 4) :
    Reads mpDecodeFloat (Doc.float bits).head bits :=
  fun rest => Reads.number Fault.oob h rest

theorem mpDecodeDouble_reads {bits : Nat} (h : bits < 256 ^ 8) :
    Reads mpDecodeDouble (Doc.double bits).head bits :=
  fun rest => Reads.number Fault.oob h rest

theorem mpDecodeStrl_reads {w : StrWidth} {n : Nat} (h : n < w.bound) :
    Reads mpDecodeStrl (w.head n) n := by
  intro rest
  cases w with
  | fix =>
    obtain ⟨hle, heq⟩ := fixStr_lead n h
    simp only [mpDecodeStrl, StrWidth.head, List.singleton_append, byte_bind, if_pos hle, heq,
      pure_run, Except.map]
  | _ => exact Reads.number Fault.oob h rest

theorem mpDecodeStr_reads {w : StrWidth} {s : Bytes} (h : s.length < w.bound) :
    Reads mpDecodeStr (Doc.str w s).head s :=
  (mpDecodeStrl_reads h).bind (Reads.take Fault.oob s)

theorem mpDecodeBinl_reads {w : BinWidth} {n : Nat} (h : n < w.bound) :
    Reads mpDecodeBinl (w.head n) n := by
  intro rest
  cases w <;> exact Reads.number Fault.oob h rest

theorem mpDecodeBin_reads {w : BinWidth} {s : Bytes} (h : s.length < w.bound) :
    Reads mpDecodeBin (Doc.bin w s).head s :=
  (mpDecodeBinl_reads h).bind (Reads.take Fault.oob s)

theorem mpDecodeArray_reads {w : SeqWidth} {n : Nat} (h : n < w.bound) :
    Reads mpDecodeArray (w.arrayHead n) n := by
  intro rest
  cases w with
  | fix =>
    obtain ⟨htype, hfix, heq⟩ := fixArray_lead n h
    simp only [mpDecodeArray, SeqWidth.arrayHead, List.singleton_append, byte_bind, htype, ne_eq,
      not_true_eq_false, if_false, if_pos hfix, heq, pure_run, Except.map]
  | _ => exact Reads.number Fault.oob h rest

theorem mpDecodeMap_reads {w : SeqWidth} {n : Nat} (h : n < w.bound) :
    Reads mpDecodeMap (w.mapHead n) n := by
  intro rest
  cases w with
  | fix =>
    obtain ⟨hle, heq⟩ := fixMap_lead n h
    simp only [mpDecodeMap, SeqWidth.mapHead, List.singleton_append, byte_bind, if_pos hle, heq,
      pure_run, Except.map]
  | _ => exact Reads.number Fault.oob h rest

/-! ## Decoders read nothing else -/

theorem mpDecodeNil_ok {bs rest : Bytes} {u : Unit} (hrun : mpDecodeNil bs = .ok (u, rest)) :
    bs = Doc.nil.head ++ rest := by
  obtain ⟨c, mid, hc, h⟩ := bind_eq_ok.mp hrun
  obtain rfl := byte_eq_ok.mp hc
  split_ifs at h with hnil
  · obtain rfl := hnil
    obtain ⟨rfl, rfl⟩ := by simpa using h
    rfl
  · simp at h

theorem mpDecodeBool_ok {bs rest : Bytes} {b : Bool} (hrun : mpDecodeBool bs = .ok (b, rest)) :
    bs = (Doc.bool b).head ++ rest := by
  obtain ⟨c, mid, hc, h⟩ := bind_eq_ok.mp hrun
  obtain rfl := byte_eq_ok.mp hc
  split_ifs at h with htrue hfalse
  · obtain rfl := htrue
    obtain ⟨rfl, rfl⟩ := by simpa using h
    rfl
  · obtain rfl := hfalse
    obtain ⟨rfl, rfl⟩ := by simpa using h
    rfl
  · simp at h

theorem mpDecodeUint_ok {bs rest : Bytes} {n : Nat} (hrun : mpDecodeUint bs = .ok (n, rest)) :
    ∃ w : IntWidth, n < w.uintBound ∧ bs = w.uintHead n ++ rest := by
  obtain ⟨c, mid, hc, h⟩ := bind_eq_ok.mp hrun
  obtain rfl := byte_eq_ok.mp hc
  split_ifs at h with hfix h8 h16 h32 h64
  · obtain ⟨rfl, rfl⟩ := by simpa using h
    refine ⟨.fix, ?_, by simp [IntWidth.uintHead]⟩
    rw [UInt8.le_iff_toNat_le] at hfix
    exact Nat.lt_succ_of_le hfix
  · obtain ⟨hn, rfl⟩ := number_eq_ok.mp h
    exact ⟨.w8, hn, by rw [h8]; rfl⟩
  · obtain ⟨hn, rfl⟩ := number_eq_ok.mp h
    exact ⟨.w16, hn, by rw [h16]; rfl⟩
  · obtain ⟨hn, rfl⟩ := number_eq_ok.mp h
    exact ⟨.w32, hn, by rw [h32]; rfl⟩
  · obtain ⟨hn, rfl⟩ := number_eq_ok.mp h
    exact ⟨.w64, hn, by rw [h64]; rfl⟩
  · simp at h

/-- What a signed number of `k` bytes has been read from. -/
theorem number_signed_ok {k : Nat} {bs rest : Bytes} {i : Int}
    (hrun : (do return signed k (← number Fault.oob k) : Reader Fault Int) bs = .ok (i, rest)) :
    -((256 ^ k : Nat) : Int) ≤ 2 * i ∧ 2 * i < (256 ^ k : Nat) ∧
      bs = toBE k (twos k i) ++ rest := by
  obtain ⟨n, mid, hn, h⟩ := bind_eq_ok.mp hrun
  obtain ⟨hlt, rfl⟩ := number_eq_ok.mp hn
  obtain ⟨rfl, rfl⟩ := by simpa using h
  obtain ⟨hlo, hhi⟩ := Codec.signed_bounds k n
  exact ⟨hlo, hhi, by rw [Codec.twos_signed hlt]⟩

theorem mpDecodeInt_ok {bs rest : Bytes} {i : Int} (hrun : mpDecodeInt bs = .ok (i, rest)) :
    ∃ w : IntWidth, w.fitsInt i ∧ bs = w.intHead i ++ rest := by
  obtain ⟨c, mid, hc, h⟩ := bind_eq_ok.mp hrun
  obtain rfl := byte_eq_ok.mp hc
  split_ifs at h with hfix h8 h16 h32 h64
  · obtain ⟨rfl, rfl⟩ := by simpa using h
    obtain ⟨hfits, heq⟩ := fixInt_lead_iff c hfix
    exact ⟨.fix, hfits, by simp only [IntWidth.intHead, heq, List.singleton_append]⟩
  · obtain ⟨hlo, hhi, rfl⟩ := number_signed_ok h
    exact ⟨.w8, by simp only [IntWidth.fitsInt]; omega, by rw [h8]; rfl⟩
  · obtain ⟨hlo, hhi, rfl⟩ := number_signed_ok h
    exact ⟨.w16, by simp only [IntWidth.fitsInt]; omega, by rw [h16]; rfl⟩
  · obtain ⟨hlo, hhi, rfl⟩ := number_signed_ok h
    exact ⟨.w32, by simp only [IntWidth.fitsInt]; omega, by rw [h32]; rfl⟩
  · obtain ⟨hlo, hhi, rfl⟩ := number_signed_ok h
    exact ⟨.w64, by simp only [IntWidth.fitsInt]; omega, by rw [h64]; rfl⟩
  · simp at h

theorem mpDecodeFloat_ok {bs rest : Bytes} {n : Nat} (hrun : mpDecodeFloat bs = .ok (n, rest)) :
    n < 256 ^ 4 ∧ bs = (Doc.float n).head ++ rest := by
  obtain ⟨c, mid, hc, h⟩ := bind_eq_ok.mp hrun
  obtain rfl := byte_eq_ok.mp hc
  split_ifs at h with hlead
  · obtain ⟨hn, rfl⟩ := number_eq_ok.mp h
    exact ⟨hn, by rw [hlead]; rfl⟩
  · simp at h

theorem mpDecodeDouble_ok {bs rest : Bytes} {n : Nat} (hrun : mpDecodeDouble bs = .ok (n, rest)) :
    n < 256 ^ 8 ∧ bs = (Doc.double n).head ++ rest := by
  obtain ⟨c, mid, hc, h⟩ := bind_eq_ok.mp hrun
  obtain rfl := byte_eq_ok.mp hc
  split_ifs at h with hlead
  · obtain ⟨hn, rfl⟩ := number_eq_ok.mp h
    exact ⟨hn, by rw [hlead]; rfl⟩
  · simp at h

theorem mpDecodeStrl_ok {bs rest : Bytes} {n : Nat} (hrun : mpDecodeStrl bs = .ok (n, rest)) :
    ∃ w : StrWidth, n < w.bound ∧ bs = w.head n ++ rest := by
  obtain ⟨c, mid, hc, h⟩ := bind_eq_ok.mp hrun
  obtain rfl := byte_eq_ok.mp hc
  split_ifs at h with hfix h8 h16 h32
  · obtain ⟨rfl, rfl⟩ := by simpa only [pure_run, Except.ok.injEq, Prod.mk.injEq] using h
    obtain ⟨hlt, heq⟩ := fixStr_lead_iff c hfix
    exact ⟨.fix, hlt, by simp only [StrWidth.head, heq, List.singleton_append]⟩
  · obtain ⟨hn, rfl⟩ := number_eq_ok.mp h
    exact ⟨.w8, hn, by rw [h8]; rfl⟩
  · obtain ⟨hn, rfl⟩ := number_eq_ok.mp h
    exact ⟨.w16, hn, by rw [h16]; rfl⟩
  · obtain ⟨hn, rfl⟩ := number_eq_ok.mp h
    exact ⟨.w32, hn, by rw [h32]; rfl⟩
  · simp at h

theorem mpDecodeStr_ok {bs rest s : Bytes} (hrun : mpDecodeStr bs = .ok (s, rest)) :
    ∃ w : StrWidth, s.length < w.bound ∧ bs = (Doc.str w s).head ++ rest := by
  obtain ⟨n, mid, hn, h⟩ := bind_eq_ok.mp hrun
  obtain ⟨w, hlt, rfl⟩ := mpDecodeStrl_ok hn
  obtain ⟨rfl, rfl⟩ := take_eq_ok.mp h
  exact ⟨w, hlt, by simp [Doc.head]⟩

theorem mpDecodeBinl_ok {bs rest : Bytes} {n : Nat} (hrun : mpDecodeBinl bs = .ok (n, rest)) :
    ∃ w : BinWidth, n < w.bound ∧ bs = w.head n ++ rest := by
  obtain ⟨c, mid, hc, h⟩ := bind_eq_ok.mp hrun
  obtain rfl := byte_eq_ok.mp hc
  split_ifs at h with h8 h16 h32
  · obtain ⟨hn, rfl⟩ := number_eq_ok.mp h
    exact ⟨.w8, hn, by rw [h8]; rfl⟩
  · obtain ⟨hn, rfl⟩ := number_eq_ok.mp h
    exact ⟨.w16, hn, by rw [h16]; rfl⟩
  · obtain ⟨hn, rfl⟩ := number_eq_ok.mp h
    exact ⟨.w32, hn, by rw [h32]; rfl⟩
  · simp at h

theorem mpDecodeBin_ok {bs rest s : Bytes} (hrun : mpDecodeBin bs = .ok (s, rest)) :
    ∃ w : BinWidth, s.length < w.bound ∧ bs = (Doc.bin w s).head ++ rest := by
  obtain ⟨n, mid, hn, h⟩ := bind_eq_ok.mp hrun
  obtain ⟨w, hlt, rfl⟩ := mpDecodeBinl_ok hn
  obtain ⟨rfl, rfl⟩ := take_eq_ok.mp h
  exact ⟨w, hlt, by simp [Doc.head]⟩

theorem mpDecodeArray_ok {bs rest : Bytes} {n : Nat} (hrun : mpDecodeArray bs = .ok (n, rest)) :
    ∃ w : SeqWidth, n < w.bound ∧ bs = w.arrayHead n ++ rest := by
  obtain ⟨c, mid, hc, h⟩ := bind_eq_ok.mp hrun
  obtain rfl := byte_eq_ok.mp hc
  split_ifs at h with htype hfix h16
  · simp at h
  · obtain ⟨rfl, rfl⟩ := by simpa only [pure_run, Except.ok.injEq, Prod.mk.injEq] using h
    obtain ⟨hlt, heq⟩ := fixArray_lead_iff c (not_not.mp htype) hfix
    exact ⟨.fix, hlt, by simp only [SeqWidth.arrayHead, heq, List.singleton_append]⟩
  · obtain ⟨hn, rfl⟩ := number_eq_ok.mp h
    exact ⟨.w16, hn, by rw [array16_lead_iff c (not_not.mp htype) hfix h16]; rfl⟩
  · obtain ⟨hn, rfl⟩ := number_eq_ok.mp h
    exact ⟨.w32, hn, by rw [array32_lead_iff c (not_not.mp htype) hfix h16]; rfl⟩

theorem mpDecodeMap_ok {bs rest : Bytes} {n : Nat} (hrun : mpDecodeMap bs = .ok (n, rest)) :
    ∃ w : SeqWidth, n < w.bound ∧ bs = w.mapHead n ++ rest := by
  obtain ⟨c, mid, hc, h⟩ := bind_eq_ok.mp hrun
  obtain rfl := byte_eq_ok.mp hc
  split_ifs at h with hfix h16 h32
  · obtain ⟨rfl, rfl⟩ := by simpa only [pure_run, Except.ok.injEq, Prod.mk.injEq] using h
    obtain ⟨hlt, heq⟩ := fixMap_lead_iff c hfix
    exact ⟨.fix, hlt, by simp only [SeqWidth.mapHead, heq, List.singleton_append]⟩
  · obtain ⟨hn, rfl⟩ := number_eq_ok.mp h
    exact ⟨.w16, hn, by rw [h16]; rfl⟩
  · obtain ⟨hn, rfl⟩ := number_eq_ok.mp h
    exact ⟨.w32, hn, by rw [h32]; rfl⟩
  · simp at h

/-! ## Encoders write heads, in the size announced for them -/

theorem mpEncodeBool_eq (val : Bool) : mpEncodeBool val = (Doc.bool val).encode := by
  cases val <;> rfl

theorem mpEncodeUint_eq (num : Nat) : mpEncodeUint num = (Doc.ofNat num).encode := by
  unfold mpEncodeUint Doc.ofNat IntWidth.forNat
  split_ifs <;> rfl

theorem mpSizeofUint_eq (num : Nat) : mpSizeofUint num = (Doc.ofNat num).encode.length := by
  rw [← mpEncodeUint_eq]
  unfold mpEncodeUint mpSizeofUint
  split_ifs <;> simp

theorem ofInt_neg {num : Int} (hneg : num < 0) : Doc.ofInt num = .int (.forInt num) num := by
  rw [Doc.ofInt, if_neg (by omega)]

theorem mpEncodeInt_eq (ndebug : Bool) {num : Int} (hneg : num < 0) :
    mpEncodeInt ndebug num = .ok (Doc.ofInt num).encode := by
  rw [ofInt_neg hneg]
  unfold mpEncodeInt IntWidth.forInt
  rw [if_neg (fun h => h.2 hneg)]
  split_ifs with h5
  · have hlead := fixInt_lead_or (num + 32).toNat (by omega)
    rw [show ((num + 32).toNat : Int) - 32 = num by omega] at hlead
    rw [hlead]
    rfl
  all_goals rfl

theorem mpSizeofInt_eq (ndebug : Bool) {num : Int} (hneg : num < 0) :
    mpSizeofInt ndebug num = .ok (Doc.ofInt num).encode.length := by
  rw [ofInt_neg hneg]
  unfold mpSizeofInt IntWidth.forInt
  rw [if_neg (fun h => h.2 hneg)]
  split_ifs <;> first | omega | simp [Doc.encode, Doc.head, IntWidth.intHead]

theorem mpEncodeStrl_eq {len : Nat} : mpEncodeStrl len = (StrWidth.forNat len).head len := by
  unfold mpEncodeStrl StrWidth.forNat
  split_ifs with h5
  · rw [fixStr_lead_or len (by omega), StrWidth.head]
  all_goals rfl

theorem mpEncodeStr_eq (s : Bytes) : mpEncodeStr s s.length = (Doc.ofStr s).encode := by
  rw [mpEncodeStr, mpEncodeStrl_eq, List.take_length]
  rfl

theorem mpSizeofStrl_eq (len : Nat) : mpSizeofStrl len = ((StrWidth.forNat len).head len).length := by
  unfold mpSizeofStrl StrWidth.forNat
  split_ifs <;> simp [StrWidth.head]

/-- The size of a string that leaves room for its length does not overflow. -/
theorem mpSizeofStr_eq {s : Bytes} (h : s.length + 5 < 2 ^ 32) :
    mpSizeofStr s.length = (Doc.ofStr s).encode.length := by
  have hl : mpSizeofStrl s.length ≤ 5 := by
    unfold mpSizeofStrl
    split_ifs <;> omega
  rw [mpSizeofStr, toUint32, Nat.mod_eq_of_lt (by omega), mpSizeofStrl_eq]
  simp [Doc.ofStr, Doc.encode, Doc.head]

theorem mpEncodeArray_eq (size : Nat) :
    mpEncodeArray size = (SeqWidth.forNat size).arrayHead size := by
  unfold mpEncodeArray SeqWidth.forNat
  split_ifs with h4
  · rw [fixArray_lead_or size (by omega), SeqWidth.arrayHead]
  all_goals rfl

theorem mpSizeofArray_eq (size : Nat) :
    mpSizeofArray size = ((SeqWidth.forNat size).arrayHead size).length := by
  unfold mpSizeofArray SeqWidth.forNat
  split_ifs <;> simp [SeqWidth.arrayHead]

theorem mpEncodeMap_eq (size : Nat) : mpEncodeMap size = (SeqWidth.forNat size).mapHead size := by
  unfold mpEncodeMap SeqWidth.forNat
  split_ifs with h4
  · rw [fixMap_lead_or size (by omega), SeqWidth.mapHead]
  all_goals rfl

theorem mpSizeofMap_eq (size : Nat) :
    mpSizeofMap size = ((SeqWidth.forNat size).mapHead size).length := by
  unfold mpSizeofMap SeqWidth.forNat
  split_ifs <;> simp [SeqWidth.mapHead]

end BeePhp
