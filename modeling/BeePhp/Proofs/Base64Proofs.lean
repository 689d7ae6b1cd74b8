import BeePhp.Base64
import BeePhp.Codec.Proofs.Base64Proofs
import BeePhp.Proofs.CheckProofs

/-!
# Proofs: base64_tp.c

With room for it the encoder writes the text of what it is given, and the decoder the bytes for which the
characters of a text stand. The decoder stays inside its memory if and only if no character is the one behind
the last of its table.
-/

namespace BeePhp

open Codec (Bytes)
open Codec.Base64

/-! ## Characters -/

theorem base64TpEncodeValue_eq {v : UInt8} (h : v.toNat < 64) : base64TpEncodeValue v = char v.toNat := by
  have hall : ∀ n < 64, base64TpEncodeValue (UInt8.ofNat n) = char n := by decide +kernel
  have hv := hall v.toNat h
  rwa [UInt8.ofNat_toNat] at hv

/-- Characters outside the alphabet have negative values. The character 123 is one position too far. -/
theorem base64TpDecodeValue_eq {c : UInt8} (h : c ≠ 123) : ∃ v, base64TpDecodeValue c = .ok v ∧
    ((v < 0 ∧ value c = none) ∨ ∃ n : Nat, n < 64 ∧ v = n ∧ value c = some n) := by
  have hall : ∀ n < 256, n ≠ 123 → (base64TpDecodeValue (UInt8.ofNat n)).toOption.map
      (fun v => if v < 0 then none else some v.toNat) = some (value (UInt8.ofNat n)) ∧
        ∀ m ∈ value (UInt8.ofNat n), m < 64 := by decide +kernel
  have hne : c.toNat ≠ 123 := fun heq => h (UInt8.toNat_inj.mp heq)
  obtain ⟨hvalue, hlt⟩ := hall c.toNat c.toNat_lt hne
  rw [UInt8.ofNat_toNat] at hvalue hlt
  cases hrun : base64TpDecodeValue c with
  | error e =>
    rw [hrun] at hvalue
    cases hvalue
  | ok v =>
    rw [hrun] at hvalue
    have hvalue : (if v < 0 then none else some v.toNat) = value c := Option.some.inj hvalue
    refine ⟨v, rfl, ?_⟩
    by_cases hneg : v < 0
    · rw [if_pos hneg] at hvalue
      exact .inl ⟨hneg, hvalue.symm⟩
    · rw [if_neg hneg] at hvalue
      exact .inr ⟨v.toNat, hlt _ hvalue.symm, (Int.toNat_of_nonneg (not_lt.mp hneg)).symm, hvalue.symm⟩

/-- Bits in different places are added. -/
theorem or_toNat {x y : UInt8} {k m : Nat} (hx : x.toNat = 2 ^ k * m) (hy : y.toNat < 2 ^ k) :
    (x ||| y).toNat = x.toNat + y.toNat := by
  rw [UInt8.toNat_or, hx, Nat.two_pow_add_eq_or_of_lt hy]

/-- The parts of a byte that is encoded. -/
theorem byte_parts (x : UInt8) : ((x &&& 0xfc) >>> 2).toNat = x.toNat / 4 ∧
    ((x &&& 0x03) <<< 4).toNat = 16 * (x.toNat % 4) ∧ ((x &&& 0xf0) >>> 4).toNat = x.toNat / 16 ∧
    ((x &&& 0x0f) <<< 2).toNat = 4 * (x.toNat % 16) ∧ ((x &&& 0xc0) >>> 6).toNat = x.toNat / 64 ∧
    (x &&& 0x3f).toNat = x.toNat % 64 := by
  have hall : ∀ n < 256, ((UInt8.ofNat n &&& 0xfc) >>> 2).toNat = n / 4 ∧
      ((UInt8.ofNat n &&& 0x03) <<< 4).toNat = 16 * (n % 4) ∧ ((UInt8.ofNat n &&& 0xf0) >>> 4).toNat = n / 16 ∧
      ((UInt8.ofNat n &&& 0x0f) <<< 2).toNat = 4 * (n % 16) ∧ ((UInt8.ofNat n &&& 0xc0) >>> 6).toNat = n / 64 ∧
      (UInt8.ofNat n &&& 0x3f).toNat = n % 64 := by decide +kernel
  have hx := hall x.toNat x.toNat_lt
  rwa [UInt8.ofNat_toNat] at hx

/-- The parts of a number that is decoded. -/
theorem fragment_parts {n : Nat} (h : n < 64) : ((UInt8.ofNat n &&& 0x3f) <<< 2).toNat = 4 * n ∧
    ((UInt8.ofNat n &&& 0x30) >>> 4).toNat = n / 16 ∧ ((UInt8.ofNat n &&& 0x0f) <<< 4).toNat = 16 * (n % 16) ∧
    ((UInt8.ofNat n &&& 0x3c) >>> 2).toNat = n / 4 ∧ ((UInt8.ofNat n &&& 0x03) <<< 6).toNat = 64 * (n % 4) ∧
    (UInt8.ofNat n &&& 0x3f).toNat = n := by
  revert n
  decide +kernel

theorem base64TpDecodeValue_oob : base64TpDecodeValue 123 = .error .oob := rfl

/-! ## Encoding -/

section Encoding

variable {outLen : Nat} {entry : EncodeState} {out : Bytes}

/-- The characters of a number that is put together from two bytes. -/
theorem char_or {x y : UInt8} {k m : Nat} (hx : x.toNat = 2 ^ k * m) (hy : y.toNat < 2 ^ k)
    (hlt : x.toNat + y.toNat < 64) : base64TpEncodeValue (x ||| y) = char (x.toNat + y.toNat) := by
  have hor := or_toNat hx hy
  rw [base64TpEncodeValue_eq (by omega), hor]

theorem encodeBlock_first (x : UInt8) (input : Bytes) (r : UInt8) (n : Nat) (hroom : out.length < outLen) :
    base64TpEncodeBlock outLen entry out ⟨.a, r, n⟩ (x :: input) =
      base64TpEncodeBlock outLen entry (out ++ [char (x.toNat / 4)]) ⟨.b, (x &&& 0x03) <<< 4, n⟩ input := by
  obtain ⟨hx, -⟩ := byte_parts x
  have hlt := x.toNat_lt
  rw [base64TpEncodeBlock]
  simp only [if_neg (not_le.mpr hroom)]
  rw [base64TpEncodeValue_eq (by omega), hx]

theorem encodeBlock_second (x y : UInt8) (input : Bytes) (n : Nat) (hroom : out.length < outLen) :
    base64TpEncodeBlock outLen entry out ⟨.b, (x &&& 0x03) <<< 4, n⟩ (y :: input) =
      base64TpEncodeBlock outLen entry (out ++ [char (x.toNat % 4 * 16 + y.toNat / 16)])
        ⟨.c, (y &&& 0x0f) <<< 2, n⟩ input := by
  obtain ⟨-, hx, -⟩ := byte_parts x
  obtain ⟨-, -, hy, -⟩ := byte_parts y
  have hlt := y.toNat_lt
  rw [base64TpEncodeBlock]
  simp only [if_neg (not_le.mpr hroom)]
  rw [char_or (k := 4) hx (by omega) (by omega), hx, hy, Nat.mul_comm 16]

theorem encodeBlock_third (y z : UInt8) (input : Bytes) (n : Nat) (hroom : out.length + 2 < outLen) :
    base64TpEncodeBlock outLen entry out ⟨.c, (y &&& 0x0f) <<< 2, n⟩ (z :: input) =
      if n + 1 = 18 then
        base64TpEncodeBlock outLen entry (out ++ [char (y.toNat % 16 * 4 + z.toNat / 64), char (z.toNat % 64), 10])
          ⟨.a, z &&& 0x3f, 0⟩ input
      else
        base64TpEncodeBlock outLen entry (out ++ [char (y.toNat % 16 * 4 + z.toNat / 64), char (z.toNat % 64)])
          ⟨.a, z &&& 0x3f, n + 1⟩ input := by
  obtain ⟨-, -, -, hy, -⟩ := byte_parts y
  obtain ⟨-, -, -, -, hz, hz'⟩ := byte_parts z
  have hlt := z.toNat_lt
  have hline : (n + 1) * 4 = 72 ↔ n + 1 = 18 := by omega
  rw [base64TpEncodeBlock]
  simp only [if_neg (not_le.mpr hroom), hline]
  rw [char_or (k := 2) hy (by omega) (by omega), base64TpEncodeValue_eq (by omega), hy, hz, hz', Nat.mul_comm 4]
  by_cases hfull : n + 1 = 18
  · rw [if_pos hfull, if_pos hfull, if_neg]
    · simp only [List.append_assoc, List.cons_append, List.nil_append]
    · simp only [List.length_append, List.length_cons, List.length_nil]
      omega
  · rw [if_neg hfull, if_neg hfull]
    simp only [List.append_assoc, List.cons_append, List.nil_append]

/-- Three bytes. -/
theorem encodeBlock_three (x y z : UInt8) (input : Bytes) (r : UInt8) (n : Nat) (hroom : out.length + 4 < outLen) :
    base64TpEncodeBlock outLen entry out ⟨.a, r, n⟩ (x :: y :: z :: input) =
      if n + 1 = 18 then
        base64TpEncodeBlock outLen entry (out ++ ((sextets [x, y, z]).map char ++ [10])) ⟨.a, z &&& 0x3f, 0⟩ input
      else base64TpEncodeBlock outLen entry (out ++ (sextets [x, y, z]).map char) ⟨.a, z &&& 0x3f, n + 1⟩ input := by
  rw [encodeBlock_first _ _ _ _ (by omega),
    encodeBlock_second _ _ _ _ (by simp only [List.length_append, List.length_singleton]; omega),
    encodeBlock_third _ _ _ _ (by simp only [List.length_append, List.length_singleton]; omega)]
  simp [sextets]

/-- The block and its end are the text. -/
theorem encodeBlock_text {n : Nat} (bs : Bytes) (r : UInt8) (hroom : out.length + (text n bs).length < outLen) :
    ∃ res state rest, base64TpEncodeBlock outLen entry out ⟨.a, r, n⟩ bs = (out ++ res, state) ∧
      base64TpEncodeBlockend (outLen - (out ++ res).length) state = (rest, true) ∧ res ++ rest = text n bs := by
  fun_induction text n bs generalizing out r with
  | case1 n x y z bs ihline ih =>
    simp only [List.length_append, List.length_map, sextets, List.length_cons, List.length_nil] at hroom
    rw [encodeBlock_three _ _ _ _ _ _ (by omega)]
    by_cases hfull : n + 1 = 18
    · rw [if_pos hfull] at hroom ⊢
      obtain ⟨res, state, rest, hrun, hend, htext⟩ := @ihline (out ++ ((sextets [x, y, z]).map char ++ [10]))
        (z &&& 0x3f) (by simp only [List.length_append, List.length_map, sextets, List.length_cons,
          List.length_nil] at hroom ⊢; omega)
      refine ⟨(sextets [x, y, z]).map char ++ 10 :: res, state, rest, ?_, ?_, ?_⟩
      · rw [hrun]
        simp
      · rw [← hend]
        simp
      · rw [if_pos hfull, ← htext]
        simp
    · rw [if_neg hfull] at hroom ⊢
      obtain ⟨res, state, rest, hrun, hend, htext⟩ := @ih (out ++ (sextets [x, y, z]).map char)
        (z &&& 0x3f) (by simp only [List.length_append, List.length_map, sextets, List.length_cons,
          List.length_nil] at hroom ⊢; omega)
      refine ⟨(sextets [x, y, z]).map char ++ res, state, rest, ?_, ?_, ?_⟩
      · rw [hrun]
        simp
      · rw [← hend]
        simp
      · rw [if_neg hfull, ← htext]
        simp
  | case2 n x y =>
    obtain ⟨-, -, -, hy, -⟩ := byte_parts y
    simp only [List.length_append, List.length_map, sextets, List.length_cons, List.length_nil] at hroom
    refine ⟨[char (x.toNat / 4), char (x.toNat % 4 * 16 + y.toNat / 16)], ⟨.c, (y &&& 0x0f) <<< 2, n⟩,
      [char (y.toNat % 16 * 4), 61], ?_, ?_, rfl⟩
    · rw [encodeBlock_first _ _ _ _ (by omega),
        encodeBlock_second _ _ _ _ (by simp only [List.length_append, List.length_singleton]; omega)]
      simp [base64TpEncodeBlock]
    · simp only [base64TpEncodeBlockend, List.length_append, List.length_cons, List.length_nil]
      rw [if_neg (by omega), base64TpEncodeValue_eq (by omega), hy, Nat.mul_comm 4, decide_eq_true (by omega)]
  | case3 n x =>
    obtain ⟨-, hx, -⟩ := byte_parts x
    simp only [List.length_append, List.length_map, sextets, List.length_cons, List.length_nil] at hroom
    refine ⟨[char (x.toNat / 4)], ⟨.b, (x &&& 0x03) <<< 4, n⟩, [char (x.toNat % 4 * 16), 61, 61], ?_, ?_, rfl⟩
    · rw [encodeBlock_first _ _ _ _ (by omega)]
      simp [base64TpEncodeBlock]
    · simp only [base64TpEncodeBlockend, List.length_append, List.length_cons, List.length_nil]
      rw [if_neg (by omega), base64TpEncodeValue_eq (by omega), hx, Nat.mul_comm 16, decide_eq_true (by omega)]
  | case4 n =>
    refine ⟨[], ⟨.a, r, n⟩, [], by simp [base64TpEncodeBlock], ?_, rfl⟩
    rw [base64TpEncodeBlockend, List.append_nil, decide_eq_true]
    simp only [List.length_nil] at hroom
    omega

/-- Whatever the room is, the encoder stays inside it. -/
theorem encodeBlock_length (input : Bytes) {state : EncodeState} (hout : out.length ≤ outLen) :
    (base64TpEncodeBlock outLen entry out state input).1.length ≤ outLen := by
  induction input generalizing out state with
  | nil => exact hout
  | cons fragment input ih =>
    obtain ⟨step, result, stepcount⟩ := state
    cases step with
    | a =>
      rw [base64TpEncodeBlock]
      dsimp only
      split_ifs with hfull
      · exact hout
      · exact ih (by simp only [List.length_append, List.length_singleton]; omega)
    | b =>
      rw [base64TpEncodeBlock]
      dsimp only
      split_ifs with hfull
      · exact hout
      · exact ih (by simp only [List.length_append, List.length_singleton]; omega)
    | c =>
      rw [base64TpEncodeBlock]
      dsimp only
      split_ifs with hfull hline hend
      · exact hout
      · simp only [List.length_append, List.length_singleton]
        omega
      · exact ih (by simp only [List.length_append, List.length_singleton]; omega)
      · exact ih (by simp only [List.length_append, List.length_singleton]; omega)

theorem encodeBlockend_length (room : Nat) (state : EncodeState) :
    (base64TpEncodeBlockend room state).1.length + (base64TpEncodeBlockend room state).2.toNat ≤ room := by
  obtain ⟨step, result, stepcount⟩ := state
  cases step with
  | a =>
    simp only [base64TpEncodeBlockend, List.length_nil]
    by_cases h : 0 < room
    · simp [h]
      omega
    · simp [h]
  | b =>
    simp only [base64TpEncodeBlockend]
    split_ifs with hfull
    · exact Nat.zero_le room
    · by_cases h : 3 < room <;> simp [h] <;> omega
  | c =>
    simp only [base64TpEncodeBlockend]
    split_ifs with hfull
    · exact Nat.zero_le room
    · by_cases h : 2 < room <;> simp [h] <;> omega

theorem base64TpEncode_length (input : Bytes) (outLen : Nat) :
    (base64TpEncode input outLen).1.length + (base64TpEncode input outLen).2.toNat ≤ outLen := by
  have hblock := @encodeBlock_length outLen base64TpEncodestateInit [] input base64TpEncodestateInit (Nat.zero_le _)
  have hend := encodeBlockend_length
    (outLen - (base64TpEncodeBlock outLen base64TpEncodestateInit [] base64TpEncodestateInit input).1.length)
    (base64TpEncodeBlock outLen base64TpEncodestateInit [] base64TpEncodestateInit input).2
  simp only [base64TpEncode, List.length_append]
  omega

theorem base64TpEncode_of_lt {input : Bytes} {outLen : Nat} (hroom : (text 0 input).length < outLen) :
    base64TpEncode input outLen = (text 0 input, true) := by
  obtain ⟨res, state, rest, hrun, hend, htext⟩ :=
    @encodeBlock_text outLen base64TpEncodestateInit [] 0 input 0 (by simpa using hroom)
  rw [List.nil_append] at hrun hend
  rw [base64TpEncode, base64TpEncodestateInit] at *
  rw [hrun]
  simp only [hend, htext]

/-- `base64_tp_bufsize` is enough. -/
theorem text_lt_bufsize {input : Bytes} {size : Nat} (h : base64TpBufsize input.length = .ok size) :
    (text 0 input).length < size := by
  obtain ⟨fourfold, hfourfold, hsize⟩ := Codec.except_bind_eq_ok.mp h
  obtain ⟨rfl, -⟩ := signedInt_ok hfourfold
  cases hsize
  rw [text_length (by omega)]
  omega

end Encoding

/-! ## Decoding -/

/-- The bytes that the decoder puts together from the step and the byte at which it is. -/
def decodeFrom : DecodeStep → Nat → List Nat → List Nat
  | _, _, [] => []
  | .a, _, n :: ns => decodeFrom .b (n * 4) ns
  | .b, u, n :: ns => (u + n / 16) :: decodeFrom .c (n % 16 * 16) ns
  | .c, u, n :: ns => (u + n / 4) :: decodeFrom .d (n % 4 * 64) ns
  | .d, u, n :: ns => (u + n) :: decodeFrom .a 0 ns

theorem decodeFrom_bytes (ns : List Nat) : (decodeFrom .a 0 ns).map UInt8.ofNat = bytes ns := by
  fun_induction bytes ns with
  | case1 p q r s ns ih => simp [decodeFrom, ih]
  | case2 p q r => simp [decodeFrom]
  | case3 p q => simp [decodeFrom]
  | case4 ns hfour hthree htwo =>
    rcases ns with _ | ⟨p, _ | ⟨q, _ | ⟨r, _ | ⟨s, ns⟩⟩⟩⟩
    · rfl
    · rfl
    · exact absurd rfl (htwo p q)
    · exact absurd rfl (hthree p q r)
    · exact absurd rfl (hfour p q r s ns)

/-- The characters that stand for three bytes and those that a step is away from the first one. -/
def DecodeStep.spare : DecodeStep → Nat
  | .a => 0
  | .b => 3
  | .c => 2
  | .d => 1

/-- Four characters stand for three bytes. -/
theorem decodeFrom_length (step : DecodeStep) (u : Nat) (ns : List Nat) :
    4 * (decodeFrom step u ns).length ≤ 3 * ns.length + step.spare := by
  induction ns generalizing step u with
  | nil => cases step <;> simp [decodeFrom]
  | cons n ns ih =>
    cases step with
    | a =>
      have := ih .b (n * 4)
      simp only [decodeFrom, DecodeStep.spare, List.length_cons] at this ⊢
      omega
    | b =>
      have := ih .c (n % 16 * 16)
      simp only [decodeFrom, DecodeStep.spare, List.length_cons] at this ⊢
      omega
    | c =>
      have := ih .d (n % 4 * 64)
      simp only [decodeFrom, DecodeStep.spare, List.length_cons] at this ⊢
      omega
    | d =>
      have := ih .a 0
      simp only [decodeFrom, DecodeStep.spare, List.length_cons] at this ⊢
      omega

theorem ofNat_or {u k m : Nat} {bits : UInt8} (hu : u = 2 ^ k * m) (hlt : u < 256) (hbits : bits.toNat < 2 ^ k) :
    UInt8.ofNat u ||| bits = UInt8.ofNat (u + bits.toNat) := by
  have hu' : (UInt8.ofNat u).toNat = u := UInt8.toNat_ofNat_of_lt' hlt
  have hor := or_toNat (hu'.trans hu) hbits
  rw [hu'] at hor
  have hsize := (UInt8.ofNat u ||| bits).toNat_lt_size
  rw [hor] at hsize
  apply UInt8.toNat_inj.mp
  rw [hor, UInt8.toNat_ofNat_of_lt' hsize]

theorem ofNat_eq {x : UInt8} {n : Nat} (h : x.toNat = n) : UInt8.ofNat n = x := by rw [← h, UInt8.ofNat_toNat]

section Decoding

variable {out : Bytes} {pos u : Nat} {step : DecodeStep}

/-- The byte at which the decoder is. -/
def PendingByte (step : DecodeStep) (out : Bytes) (pos u : Nat) : Prop :=
  match step with
  | .a => True
  | .b => ∃ n < 64, u = 2 ^ 2 * n ∧ out[pos]? = some (UInt8.ofNat u)
  | .c => ∃ n < 16, u = 2 ^ 4 * n ∧ out[pos]? = some (UInt8.ofNat u)
  | .d => ∃ n < 4, u = 2 ^ 6 * n ∧ out[pos]? = some (UInt8.ofNat u)

theorem take_set_self (x : UInt8) (hpos : pos < out.length) : (out.set pos x).take (pos + 1) = out.take pos ++ [x] := by
  rw [List.take_succ_eq_append_getElem (by simpa using hpos), List.getElem_set_self, List.take_set_of_le (Nat.le_refl pos)]

/-- The byte is finished, and the next one begun. -/
theorem decodePut_spec {byte bits next : UInt8} (hbyte : out[pos]? = some byte) (hroom : pos + 1 < out.length) :
    (decodePut out pos bits next).length = out.length ∧
      (decodePut out pos bits next).take (pos + 1) = out.take pos ++ [byte ||| bits] ∧
      (decodePut out pos bits next)[pos + 1]? = some next := by
  have hget : out.getD pos 0 = byte := by rw [List.getD_eq_getElem?_getD, hbyte, Option.getD_some]
  rw [decodePut, hget]
  simp only [List.length_set, if_pos hroom]
  refine ⟨trivial, ?_, ?_⟩
  · rw [List.take_set_of_le (Nat.le_refl (pos + 1)), take_set_self _ (by omega)]
  · rw [List.getElem?_set_self (by simpa using hroom)]

/-- A run of the decoder writes `bytes` from `pos` on, and goes on with `rest`. -/
def DecodesBytes (out : Bytes) (pos : Nat) (bytes : List Nat) (rest : Bytes) (run : Except Fault Decoded) : Prop :=
  ∃ out' step', run = base64TpDecodeLoop out' (pos + bytes.length) step' rest ∧ out'.length = out.length ∧
    out'.take (pos + bytes.length) = out.take pos ++ bytes.map UInt8.ofNat

theorem DecodesBytes.of_set {byte : UInt8} {bytes : List Nat} {rest : Bytes} {run : Except Fault Decoded}
    (h : DecodesBytes (out.set pos byte) pos bytes rest run) : DecodesBytes out pos bytes rest run := by
  obtain ⟨out', step', hrun, hlength, htake⟩ := h
  refine ⟨out', step', hrun, by rw [hlength, List.length_set], ?_⟩
  rw [htake, List.take_set_of_le (Nat.le_refl pos)]

/-- One byte more. -/
theorem DecodesBytes.cons {out₁ : Bytes} {byte : Nat} {bytes : List Nat} {rest : Bytes} {run : Except Fault Decoded}
    (hlength : out₁.length = out.length) (htake : out₁.take (pos + 1) = out.take pos ++ [UInt8.ofNat byte])
    (h : DecodesBytes out₁ (pos + 1) bytes rest run) : DecodesBytes out pos (byte :: bytes) rest run := by
  obtain ⟨out', step', hrun, hlength', htake'⟩ := h
  have hpos : pos + 1 + bytes.length = pos + (bytes.length + 1) := by omega
  rw [hpos] at hrun htake'
  refine ⟨out', step', hrun, hlength'.trans hlength, ?_⟩
  rw [List.length_cons, htake', htake, List.map_cons, List.append_assoc, List.singleton_append]

/-- What the decoder does with characters when it has room. -/
theorem decodeLoop_append {chars : Bytes} (rest : Bytes) (hchars : 123 ∉ chars) (hbyte : PendingByte step out pos u)
    (hroom : pos + (decodeFrom step u (chars.filterMap value)).length < out.length) :
    DecodesBytes out pos (decodeFrom step u (chars.filterMap value)) rest
      (base64TpDecodeLoop out pos step (chars ++ rest)) := by
  induction chars generalizing out pos step u with
  | nil => exact ⟨out, step, by simp [decodeFrom], rfl, by simp [decodeFrom]⟩
  | cons c chars ih =>
    obtain ⟨hne, hchars⟩ := not_or.mp (fun h => hchars (List.mem_cons.mpr h))
    obtain ⟨v, hv, hvalue⟩ := base64TpDecodeValue_eq (Ne.symm hne)
    have hlt : pos < out.length := by omega
    simp only [List.cons_append, base64TpDecodeLoop, if_neg (not_le.mpr hlt), hv, bind, Except.bind]
    rcases hvalue with ⟨hneg, hnone⟩ | ⟨n, hn, rfl, hsome⟩
    · simp only [List.filterMap_cons, hnone] at hroom ⊢
      rw [if_pos hneg]
      exact ih hchars hbyte hroom
    · simp only [List.filterMap_cons, hsome] at hroom ⊢
      rw [if_neg (by omega), Int.toNat_natCast]
      obtain ⟨hfirst, hhigh, hlow, hhigh', hlow', hlast⟩ := fragment_parts hn
      cases step with
      | a =>
        apply DecodesBytes.of_set
        refine ih hchars ⟨n, hn, Nat.mul_comm n 4, ?_⟩ (by rwa [List.length_set])
        rw [List.getElem?_set_self hlt, ← ofNat_eq hfirst, Nat.mul_comm]
      | b =>
        obtain ⟨m, hm, hu, hget⟩ := hbyte
        rw [decodeFrom, List.length_cons] at hroom
        obtain ⟨hput, hdone, hnext⟩ := @decodePut_spec out pos _ ((UInt8.ofNat n &&& 0x30) >>> 4)
          ((UInt8.ofNat n &&& 0x0f) <<< 4) hget (by omega)
        rw [ofNat_or hu (by omega) (by omega), hhigh] at hdone
        refine DecodesBytes.cons hput hdone (ih hchars ⟨n % 16, by omega, by omega, ?_⟩ (by omega))
        rw [hnext, ← ofNat_eq hlow, Nat.mul_comm]
      | c =>
        obtain ⟨m, hm, hu, hget⟩ := hbyte
        rw [decodeFrom, List.length_cons] at hroom
        obtain ⟨hput, hdone, hnext⟩ := @decodePut_spec out pos _ ((UInt8.ofNat n &&& 0x3c) >>> 2)
          ((UInt8.ofNat n &&& 0x03) <<< 6) hget (by omega)
        rw [ofNat_or hu (by omega) (by omega), hhigh'] at hdone
        refine DecodesBytes.cons hput hdone (ih hchars ⟨n % 4, by omega, by omega, ?_⟩ (by omega))
        rw [hnext, ← ofNat_eq hlow', Nat.mul_comm]
      | d =>
        obtain ⟨m, hm, hu, hget⟩ := hbyte
        rw [decodeFrom, List.length_cons] at hroom
        have hbyte : out.getD pos 0 = UInt8.ofNat u := by rw [List.getD_eq_getElem?_getD, hget, Option.getD_some]
        have hdone : (out.set pos (out.getD pos 0 ||| (UInt8.ofNat n &&& 0x3f))).take (pos + 1) =
            out.take pos ++ [UInt8.ofNat (u + n)] := by
          rw [take_set_self _ hlt, hbyte, ofNat_or hu (by omega) (by omega), hlast]
        exact DecodesBytes.cons List.length_set hdone (ih hchars trivial (by rw [List.length_set]; omega))

end Decoding

/-! ## Decoding a text -/

/-- With the room that the header asks for there is a byte for the position that the decoder reads at the end. -/
theorem decodeFrom_room {chars input out : Bytes} (hchars : chars.length ≤ input.length)
    (hroom : 3 * input.length / 4 + 1 ≤ out.length) :
    0 + (decodeFrom .a 0 (chars.filterMap value)).length < out.length := by
  have hlength := decodeFrom_length .a 0 (chars.filterMap value)
  have hfilter := List.length_filterMap_le value chars
  rw [DecodeStep.spare] at hlength
  omega

theorem base64TpDecode_loop {input out : Bytes} (hroom : 3 * input.length / 4 + 1 ≤ out.length) :
    ∃ out₁ : Bytes, out₁.length = out.length ∧ base64TpDecode input out = base64TpDecodeLoop out₁ 0 .a input := by
  cases out with
  | nil => simp at hroom
  | cons x out => exact ⟨0 :: out, rfl, rfl⟩

theorem base64TpDecode_ok {input out : Bytes} (hchars : 123 ∉ input) (hroom : 3 * input.length / 4 + 1 ≤ out.length) :
    ∃ decoded, base64TpDecode input out = .ok decoded ∧ decoded.count = (bytes (input.filterMap value)).length ∧
      decoded.out.length = out.length ∧ decoded.out.take decoded.count = bytes (input.filterMap value) := by
  obtain ⟨out₁, hlength₁, hrun₁⟩ := base64TpDecode_loop hroom
  have hspace := decodeFrom_room (Nat.le_refl input.length) (hlength₁ ▸ hroom)
  obtain ⟨out', step', hrun, hlength, htake⟩ := @decodeLoop_append out₁ 0 0 .a _ [] hchars trivial hspace
  rw [List.append_nil] at hrun
  rw [Nat.zero_add] at hrun htake
  rw [decodeFrom_bytes] at htake
  rw [← List.length_map, decodeFrom_bytes] at hspace hrun htake
  have hget : (bytes (input.filterMap value)).length < out'.length := by omega
  refine ⟨⟨(bytes (input.filterMap value)).length, out', ⟨step', out'[(bytes (input.filterMap value)).length]⟩⟩,
    hrun₁.trans (hrun.trans ?_), rfl, hlength.trans hlength₁, ?_⟩
  · simp [base64TpDecodeLoop, base64TpDecodeEnd, hget]
  · rw [htake, List.take_zero, List.nil_append]

/-- The character behind the table is looked up where there is nothing. -/
theorem base64TpDecode_oob {input out : Bytes} (hchar : 123 ∈ input) (hroom : 3 * input.length / 4 + 1 ≤ out.length) :
    base64TpDecode input out = .error .oob := by
  obtain ⟨out₁, hlength₁, hrun₁⟩ := base64TpDecode_loop hroom
  obtain ⟨chars, rest, rfl, hchars⟩ := List.eq_append_cons_of_mem hchar
  have hspace := @decodeFrom_room chars _ out₁ (by simp) (hlength₁ ▸ hroom)
  obtain ⟨out', step', hrun, hlength, -⟩ := @decodeLoop_append out₁ 0 0 .a _ (123 :: rest) hchars trivial hspace
  rw [hrun₁, hrun, base64TpDecodeLoop, if_neg (by omega), base64TpDecodeValue_oob]
  rfl

theorem text_chars (n : Nat) (bs : Bytes) : 123 ∉ text n bs := by
  have hchar (ns : List Nat) (hns : ∀ n ∈ ns, n < 64) : 123 ∉ ns.map char := by
    intro hmem
    obtain ⟨n, hn, heq⟩ := List.mem_map.mp hmem
    have hvalue := value_char (hns n hn)
    rw [heq] at hvalue
    cases hvalue
  fun_induction text n bs with
  | case1 n x y z bs ihline ih =>
    rw [List.mem_append, not_or]
    refine ⟨hchar _ (sextets_lt _), ?_⟩
    by_cases hfull : n + 1 = 18
    · rw [if_pos hfull, List.mem_cons, not_or]
      exact ⟨by decide, ihline⟩
    · rwa [if_neg hfull]
  | case2 n x y => exact fun h => (List.mem_append.mp h).elim (hchar _ (sextets_lt _)) (by decide)
  | case3 n x => exact fun h => (List.mem_append.mp h).elim (hchar _ (sextets_lt _)) (by decide)
  | case4 => exact List.not_mem_nil

/-! ## Main results -/

/-- The encoder stays inside any output. In one of `base64_tp_bufsize` it writes the text and a NUL. -/
theorem base64_encode (input : Bytes) (outLen : Nat) :
    (base64TpEncode input outLen).1.length + (base64TpEncode input outLen).2.toNat ≤ outLen ∧
      ∀ size, base64TpBufsize input.length = .ok size → size ≤ outLen →
        base64TpEncode input outLen = (text 0 input, true) :=
  ⟨base64TpEncode_length input outLen,
    fun _ hsize h => base64TpEncode_of_lt (Nat.lt_of_lt_of_le (text_lt_bufsize hsize) h)⟩

/-- In an output of the size that the header asks for, the decoder stays inside its memory if and only if the
input is without `{`. It then writes the bytes for which the characters of the alphabet stand. -/
theorem base64_decode (input out : Bytes) (hroom : 3 * input.length / 4 + 1 ≤ out.length) :
    (123 ∉ input ↔ ∃ decoded, base64TpDecode input out = .ok decoded) ∧
      ∀ decoded, base64TpDecode input out = .ok decoded →
        decoded.count = (bytes (input.filterMap value)).length ∧ decoded.out.length = out.length ∧
          decoded.out.take decoded.count = bytes (input.filterMap value) := by
  by_cases hchar : 123 ∈ input
  · have hrun := base64TpDecode_oob hchar hroom
    refine ⟨⟨fun h => absurd hchar h, fun ⟨decoded, hok⟩ => ?_⟩, fun decoded hok => ?_⟩
    · rw [hrun] at hok
      cases hok
    · rw [hrun] at hok
      cases hok
  · obtain ⟨decoded, hrun, hdecoded⟩ := base64TpDecode_ok hchar hroom
    refine ⟨⟨fun _ => ⟨decoded, hrun⟩, fun _ => hchar⟩, fun decoded' hok => ?_⟩
    rw [hrun] at hok
    cases hok
    exact hdecoded

theorem base64_decode_word : (123 ∉ ascii "cGFz" ↔ ∃ decoded, base64TpDecode (ascii "cGFz") (List.replicate 4 0) =
    .ok decoded) ∧ ∀ decoded, base64TpDecode (ascii "cGFz") (List.replicate 4 0) = .ok decoded →
      decoded.count = (bytes ((ascii "cGFz").filterMap value)).length ∧
        decoded.out.length = (List.replicate 4 (0 : UInt8)).length ∧
        decoded.out.take decoded.count = bytes ((ascii "cGFz").filterMap value) :=
  base64_decode (ascii "cGFz") (List.replicate 4 0) (by decide +kernel)

/-- What is encoded is decoded again. -/
theorem base64_round_trip (input out : Bytes) {size outLen : Nat}
    (hsize : base64TpBufsize input.length = .ok size) (hout : size ≤ outLen)
    (hroom : 3 * (base64TpEncode input outLen).1.length / 4 + 1 ≤ out.length) :
    ∃ decoded, base64TpDecode (base64TpEncode input outLen).1 out = .ok decoded ∧
      decoded.out.take decoded.count = input := by
  have hencode := base64TpEncode_of_lt (Nat.lt_of_lt_of_le (text_lt_bufsize hsize) hout)
  rw [hencode] at hroom ⊢
  obtain ⟨decoded, hrun, -, -, htake⟩ := base64TpDecode_ok (text_chars 0 input) hroom
  refine ⟨decoded, hrun, ?_⟩
  rw [htake, filterMap_text, bytes_sextets]

theorem base64_round_trip_word : ∃ decoded,
    base64TpDecode (base64TpEncode (ascii "salt") 32).1 (List.replicate 16 0) = .ok decoded ∧
      decoded.out.take decoded.count = ascii "salt" :=
  base64_round_trip (ascii "salt") (List.replicate 16 0) (show base64TpBufsize _ = .ok 10 by decide +kernel)
    (by decide) (by decide +kernel)

end BeePhp
