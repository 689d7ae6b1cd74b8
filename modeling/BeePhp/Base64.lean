import BeePhp.Codec.Base64
import BeePhp.Machine

/-!
# third_party/base64_tp.c

Base64 as state machines that can stop after every character. A `char` is signed.
-/

namespace BeePhp

open Codec (Bytes)

/-! ## Encoding -/

/-- `base64_tp_encodestep`. -/
inductive EncodeStep where
  | a | b | c
  deriving DecidableEq, Repr

/-- `base64_tp_encodestate`. -/
structure EncodeState where
  step : EncodeStep
  result : UInt8
  stepcount : Nat
  deriving DecidableEq, Repr

/-- `base64_tp_encodestate_init`. -/
def base64TpEncodestateInit : EncodeState := ⟨.a, 0, 0⟩

/-- The table of `base64_tp_encode_value`, with the NUL at its end. -/
def encoding : Bytes := ascii "ABCDEFGHIJKLMNOPQRSTUVWXYZabcdefghijklmnopqrstuvwxyz0123456789+/" ++ [0]

/-- `base64_tp_encode_value`. -/
def base64TpEncodeValue (value : UInt8) : UInt8 := if value.toNat > 64 then 61 else encoding.getD value.toNat 0

/-- `base64_tp_encode_block` of the input to an output of `outLen` bytes, of which `out` are written. `entry` is
the state at the call. -/
def base64TpEncodeBlock (outLen : Nat) (entry : EncodeState) (out : Bytes) (state : EncodeState) :
    Bytes → Bytes × EncodeState
  | [] => (out, state)
  | fragment :: input =>
    match state.step with
    | .a =>
      if out.length ≥ outLen then (out, state)
      else
        let result := (fragment &&& 0xfc) >>> 2
        base64TpEncodeBlock outLen entry (out ++ [base64TpEncodeValue result])
          ⟨.b, (fragment &&& 0x03) <<< 4, state.stepcount⟩ input
    | .b =>
      if out.length ≥ outLen then (out, state)
      else
        let result := state.result ||| ((fragment &&& 0xf0) >>> 4)
        base64TpEncodeBlock outLen entry (out ++ [base64TpEncodeValue result])
          ⟨.c, (fragment &&& 0x0f) <<< 2, state.stepcount⟩ input
    | .c =>
      if out.length + 2 ≥ outLen then (out, state)
      else
        let result := state.result ||| ((fragment &&& 0xc0) >>> 6)
        let out := out ++ [base64TpEncodeValue result]
        let result := fragment &&& 0x3f
        let out := out ++ [base64TpEncodeValue result]
        let stepcount := state.stepcount + 1
        if stepcount * 4 = 72 then
          -- the step and the result are not stored here
          if out.length ≥ outLen then (out, { entry with stepcount := stepcount })
          else base64TpEncodeBlock outLen entry (out ++ [10]) ⟨.a, result, 0⟩ input
        else base64TpEncodeBlock outLen entry out ⟨.a, result, stepcount⟩ input

/-- `base64_tp_encode_blockend`: what it writes, and whether a NUL follows. -/
def base64TpEncodeBlockend (outLen : Nat) (state : EncodeState) : Bytes × Bool :=
  match state.step with
  | .b =>
    if 2 ≥ outLen then ([], false)
    else
      let out := [base64TpEncodeValue state.result, 61, 61]
      (out, decide (out.length < outLen))
  | .c =>
    if 1 ≥ outLen then ([], false)
    else
      let out := [base64TpEncodeValue state.result, 61]
      (out, decide (out.length < outLen))
  | .a => ([], decide (0 < outLen))

/-- `base64_tp_encode`: the text that it writes, and whether a NUL follows. -/
def base64TpEncode (input : Bytes) (outLen : Nat) : Bytes × Bool :=
  let (res, state) := base64TpEncodeBlock outLen base64TpEncodestateInit [] base64TpEncodestateInit input
  let (rest, ended) := base64TpEncodeBlockend (outLen - res.length) state
  (res ++ rest, ended)

/-- `base64_tp_bufsize`. Four times the size must be an `int`. -/
def base64TpBufsize (binsize : Nat) : Except Fault Nat := do
  let datasize := (← signedInt (binsize * 4)) / 3 + 4
  let newlines := (datasize + 72 - 1) / 72
  return (datasize + newlines).toNat

/-! ## Decoding -/

/-- `base64_tp_decodestep`. -/
inductive DecodeStep where
  | a | b | c | d
  deriving DecidableEq, Repr

/-- `base64_tp_decodestate`. -/
structure DecodeState where
  step : DecodeStep
  result : UInt8
  deriving DecidableEq, Repr

/-- The table of `base64_tp_decode_value`. -/
def decoding : List Int :=
  [62, -1, -1, -1, 63, 52, 53, 54, 55, 56, 57, 58,
    59, 60, 61, -1, -1, -1, -2, -1, -1, -1, 0, 1,
    2, 3, 4, 5, 6, 7, 8, 9, 10, 11, 12, 13,
    14, 15, 16, 17, 18, 19, 20, 21, 22, 23, 24, 25,
    -1, -1, -1, -1, -1, -1, 26, 27, 28, 29, 30, 31,
    32, 33, 34, 35, 36, 37, 38, 39, 40, 41, 42, 43,
    44, 45, 46, 47, 48, 49, 50, 51]

/-- `base64_tp_decode_value`. The position after the last one in the table passes for one in it. -/
def base64TpDecodeValue (value : UInt8) : Except Fault Int :=
  let codepos := value.toInt8.toInt - 43
  if codepos < 0 ∨ codepos > decoding.length then .ok (-1)
  else match decoding[codepos.toNat]? with
    | some v => .ok v
    | none => .error .oob

/-- What `base64_tp_decode_block` returns: how many bytes it has decoded, the output, and the state. -/
structure Decoded where
  count : Nat
  out : Bytes
  state : DecodeState
  deriving DecidableEq, Repr

/-- The end of `base64_tp_decode_block`, which reads the next byte of the output. -/
def base64TpDecodeEnd (out : Bytes) (pos : Nat) (step : DecodeStep) : Except Fault Decoded :=
  match out[pos]? with
  | some result => .ok ⟨pos, out, ⟨step, result⟩⟩
  | none => .error .oob

/-- `*out_pos++ |= bits`, and `*out_pos = next` if there is room. -/
def decodePut (out : Bytes) (pos : Nat) (bits next : UInt8) : Bytes :=
  let out := out.set pos (out.getD pos 0 ||| bits)
  if pos + 1 < out.length then out.set (pos + 1) next else out

/-- The loop of `base64_tp_decode_block`, at the position `pos` of the output. -/
def base64TpDecodeLoop (out : Bytes) (pos : Nat) (step : DecodeStep) : Bytes → Except Fault Decoded
  | [] => base64TpDecodeEnd out pos step
  | c :: input =>
    if pos ≥ out.length then base64TpDecodeEnd out pos step
    else do
      let v ← base64TpDecodeValue c
      if v < 0 then base64TpDecodeLoop out pos step input
      else
        let fragment := UInt8.ofNat v.toNat
        match step with
        | .a => base64TpDecodeLoop (out.set pos ((fragment &&& 0x3f) <<< 2)) pos .b input
        | .b =>
          base64TpDecodeLoop (decodePut out pos ((fragment &&& 0x30) >>> 4) ((fragment &&& 0x0f) <<< 4)) (pos + 1)
            .c input
        | .c =>
          base64TpDecodeLoop (decodePut out pos ((fragment &&& 0x3c) >>> 2) ((fragment &&& 0x03) <<< 6)) (pos + 1)
            .d input
        | .d => base64TpDecodeLoop (out.set pos (out.getD pos 0 ||| (fragment &&& 0x3f))) (pos + 1) .a input

/-- `base64_tp_decode_block`. It writes a byte of the output whether or not there is one. -/
def base64TpDecodeBlock (input out : Bytes) (state : DecodeState) : Except Fault Decoded := do
  let out ← writeAt out 0 [state.result]
  base64TpDecodeLoop out 0 state.step input

/-- `base64_tp_decode` to an output that holds `out`. -/
def base64TpDecode (input out : Bytes) : Except Fault Decoded := base64TpDecodeBlock input out ⟨.a, 0⟩

end BeePhp
