import BeePhp.Codec.Proofs.BytesProofs
import BeePhp.Sha1
import Mathlib.Tactic.IntervalCases

/-!
# Proofs: SHA-1

After `i` rounds the working words are those of the algorithm in other roles, and the block holds the last 16
words of its schedule (`Rolled`). A context holds the digest of what has been hashed and the bytes that wait
for their block (`Sha1Ctx.Holds`).
-/

namespace BeePhp

open Codec (Bytes ofBE toBE toBE_mod toBE_append)
open Codec.Blocks
open Codec.Sha

/-! ## The functions of the rounds -/

theorem rol_eq (x n : UInt32) : rol x n = rotl x n := rfl

/-- `R0` and `R1` choose as the algorithm does. -/
theorem choose_eq (w x y : UInt32) : (w &&& (x ^^^ y)) ^^^ y = ch w x y := by
  apply UInt32.eq_of_toBitVec_eq
  simp only [ch, UInt32.toBitVec_xor, UInt32.toBitVec_and, UInt32.toBitVec_not]
  ext i hi
  simp only [BitVec.getElem_xor, BitVec.getElem_and, BitVec.getElem_not]
  cases w.toBitVec[i] <;> cases x.toBitVec[i] <;> cases y.toBitVec[i] <;> rfl

/-- `R3` takes the majority. -/
theorem majority_eq (w x y : UInt32) : ((w ||| x) &&& y) ||| (w &&& x) = maj w x y := by
  apply UInt32.eq_of_toBitVec_eq
  simp only [maj, UInt32.toBitVec_xor, UInt32.toBitVec_and, UInt32.toBitVec_or]
  ext i hi
  simp only [BitVec.getElem_xor, BitVec.getElem_and, BitVec.getElem_or]
  cases w.toBitVec[i] <;> cases x.toBitVec[i] <;> cases y.toBitVec[i] <;> rfl

/-- Four bytes, most significant first. -/
theorem ofNat_ofBE_four (p q r s : UInt8) : UInt32.ofNat (ofBE [p, q, r, s]) =
    p.toUInt32 <<< 24 ||| q.toUInt32 <<< 16 ||| r.toUInt32 <<< 8 ||| s.toUInt32 := by
  have hp := p.toNat_lt
  have hq := q.toNat_lt
  have hr := r.toNat_lt
  have hs := s.toNat_lt
  have h8 : 2 ^ 8 * r.toNat + s.toNat = 2 ^ 8 * r.toNat ||| s.toNat := Nat.two_pow_add_eq_or_of_lt (by omega) _
  have h16 : 2 ^ 16 * q.toNat + (2 ^ 8 * r.toNat + s.toNat) = 2 ^ 16 * q.toNat ||| (2 ^ 8 * r.toNat + s.toNat) :=
    Nat.two_pow_add_eq_or_of_lt (by omega) _
  have h24 : 2 ^ 24 * p.toNat + (2 ^ 16 * q.toNat + (2 ^ 8 * r.toNat + s.toNat)) =
      2 ^ 24 * p.toNat ||| (2 ^ 16 * q.toNat + (2 ^ 8 * r.toNat + s.toNat)) :=
    Nat.two_pow_add_eq_or_of_lt (by omega) _
  apply UInt32.toNat_inj.mp
  simp only [UInt32.toNat_or, UInt32.toNat_shiftLeft, UInt8.toNat_toUInt32, UInt32.toNat_ofNat', ofBE,
    Nat.shiftLeft_eq]
  simp only [List.length_cons, List.length_nil, UInt32.toNat_ofNat, Nat.reduceAdd, Nat.reduceMod, Nat.reducePow,
    Nat.pow_zero, Nat.pow_one, Nat.mul_one, Nat.add_zero] at h8 h16 h24 ⊢
  rw [Nat.mod_eq_of_lt (show p.toNat * 16777216 < 4294967296 by omega),
    Nat.mod_eq_of_lt (show q.toNat * 65536 < 4294967296 by omega),
    Nat.mod_eq_of_lt (show r.toNat * 256 < 4294967296 by omega),
    Nat.mul_comm p.toNat, Nat.mul_comm q.toNat, Nat.mul_comm r.toNat, Nat.mod_eq_of_lt (by omega),
    Nat.or_assoc, Nat.or_assoc, ← h8, ← h16, ← h24]

/-- `blk0` brings the bytes of a word into the order of the message. -/
theorem swap_memoryWord (p q r s : UInt8) :
    (rol (memoryWord [p, q, r, s]) 24 &&& (0xFF00FF00 : UInt32)) |||
      (rol (memoryWord [p, q, r, s]) 8 &&& (0x00FF00FF : UInt32)) = UInt32.ofNat (ofBE [p, q, r, s]) := by
  rw [ofNat_ofBE_four]
  apply UInt32.eq_of_toBitVec_eq
  simp only [rol, memoryWord, List.foldr]
  ext i hi
  simp
  interval_cases i <;> simp

/-! ## The rounds -/

/-- The role that the working words take in turn. -/
def role (n : Nat) : Reg :=
  match n % 5 with
  | 0 => .a
  | 1 => .b
  | 2 => .c
  | 3 => .d
  | _ => .e

theorem role_inj {m n : Nat} : role m = role n ↔ m % 5 = n % 5 := by
  have hm := Nat.mod_lt m (show 0 < 5 by omega)
  have hn := Nat.mod_lt n (show 0 < 5 by omega)
  unfold role
  generalize m % 5 = m at hm
  generalize n % 5 = n at hn
  interval_cases m <;> interval_cases n <;> simp

@[simp] theorem Reg.get_set_self (s : Words) (x : UInt32) (r : Reg) : r.get (r.set s x) = x := by
  cases r <;> rfl

theorem Reg.get_set_ne (s : Words) (x : UInt32) {r r' : Reg} (h : r ≠ r') : r.get (r'.set s x) = r.get s := by
  cases r <;> cases r' <;> first | rfl | exact absurd rfl h

/-- The macro of the round `i`. -/
def roundMacro (i : Nat) : Reg → Reg → Reg → Reg → Reg → Nat → Sha1Work → Sha1Work :=
  if i < 16 then r0 else if i < 20 then r1 else if i < 40 then r2 else if i < 60 then r3 else r4

def roundAt (i : Nat) : Sha1Work → Sha1Work :=
  roundMacro i (role (80 - i)) (role (81 - i)) (role (82 - i)) (role (83 - i)) (role (84 - i)) i

/-- The loop is unrolled as it should be. -/
theorem sha1Rounds_eq : sha1Rounds = (List.range 80).map roundAt := rfl

/-- How the round `i` sets a word of the block. -/
def expandAt (i : Nat) : List UInt32 → Nat → List UInt32 := if i < 16 then blk0 else blk

theorem roundMacro_eq (i : Nat) : roundMacro i = sha1Round (logical i) (constant i) (expandAt i) := by
  have hch : (fun w x y : UInt32 => (w &&& (x ^^^ y)) ^^^ y) = ch :=
    funext fun w => funext fun x => funext fun y => choose_eq w x y
  have hmaj : (fun w x y : UInt32 => ((w ||| x) &&& y) ||| (w &&& x)) = maj :=
    funext fun w => funext fun x => funext fun y => majority_eq w x y
  unfold roundMacro logical constant expandAt
  by_cases h16 : i < 16
  · rw [if_pos h16, if_pos (by omega), if_pos (by omega), if_pos h16, r0, hch]
  rw [if_neg h16, if_neg h16]
  by_cases h20 : i < 20
  · rw [if_pos h20, if_pos h20, if_pos h20, r1, hch]
  rw [if_neg h20, if_neg h20, if_neg h20]
  by_cases h40 : i < 40
  · rw [if_pos h40, if_pos h40, if_pos h40]
    rfl
  rw [if_neg h40, if_neg h40, if_neg h40]
  by_cases h60 : i < 60
  · rw [if_pos h60, if_pos h60, if_pos h60, r3, hmaj]
  · rw [if_neg h60, if_neg h60, if_neg h60]
    rfl

theorem schedule_ge {m : Nat → UInt32} {t : Nat} (h : ¬t < 16) : schedule m t =
    rotl (schedule m (t - 3) ^^^ schedule m (t - 8) ^^^ schedule m (t - 14) ^^^ schedule m (t - 16)) 1 := by
  rw [schedule, if_neg h]

/-! ## What holds between two rounds -/

/-- After `i` rounds over a block with the words `m`, which stood in memory as `raw`. -/
structure Rolled (m raw : Nat → UInt32) (i : Nat) (s : Sha1Work) (t : Words) : Prop where
  a : (role (80 - i)).get s.regs = t.a
  b : (role (81 - i)).get s.regs = t.b
  c : (role (82 - i)).get s.regs = t.c
  d : (role (83 - i)).get s.regs = t.d
  e : (role (84 - i)).get s.regs = t.e
  length : s.block.length = 16
  done : ∀ j < i, i ≤ j + 16 → blockWord s.block j = schedule m j
  todo : ∀ j < 16, i ≤ j → blockWord s.block j = raw j

theorem blockWord_set {block : List UInt32} (hlen : block.length = 16) (i j : Nat) (x : UInt32) :
    blockWord (block.set (i % 16) x) j = if i % 16 = j % 16 then x else blockWord block j := by
  have hi : i % 16 < block.length := by
    rw [hlen]
    exact Nat.mod_lt _ (by omega)
  rw [blockWord, List.getD_eq_getElem?_getD, List.getElem?_set]
  by_cases h : i % 16 = j % 16
  · rw [if_pos h, if_pos h, if_pos hi]
    rfl
  · rw [if_neg h, if_neg h, blockWord, List.getD_eq_getElem?_getD]

section Rounds

variable {m raw : Nat → UInt32} {i : Nat} {s : Sha1Work} {t : Words}

/-- The word that is set is the next one of the schedule. -/
theorem Rolled.expand (h : Rolled m raw i s t)
    (hraw : ∀ j < 16, (rol (raw j) 24 &&& (0xFF00FF00 : UInt32)) ||| (rol (raw j) 8 &&& (0x00FF00FF : UInt32)) = m j) :
    ∃ x, expandAt i s.block i = s.block.set (i % 16) x ∧ x = schedule m i := by
  unfold expandAt
  by_cases h16 : i < 16
  · rw [if_pos h16]
    refine ⟨_, rfl, ?_⟩
    rw [h.todo i h16 (Nat.le_refl i), hraw i h16, schedule, if_pos h16]
  · rw [if_neg h16]
    refine ⟨_, rfl, ?_⟩
    have hword (j k : Nat) (hj : j < i) (hle : i ≤ j + 16) (hk : k % 16 = j % 16) :
        blockWord s.block k = schedule m j := by
      rw [← h.done j hj hle, blockWord, blockWord, hk]
    rw [hword (i - 3) (i + 13) (by omega) (by omega) (by omega),
      hword (i - 8) (i + 8) (by omega) (by omega) (by omega),
      hword (i - 14) (i + 2) (by omega) (by omega) (by omega),
      hword (i - 16) i (by omega) (by omega) (by omega), schedule_ge h16, rol_eq]

/-- One round. -/
theorem Rolled.step (h : Rolled m raw i s t) (hi : i < 80)
    (hraw : ∀ j < 16, (rol (raw j) 24 &&& (0xFF00FF00 : UInt32)) ||| (rol (raw j) 8 &&& (0x00FF00FF : UInt32)) = m j) :
    Rolled m raw (i + 1) (roundAt i s) (Codec.Sha.round (schedule m) t i) := by
  obtain ⟨x, hblock, hx⟩ := h.expand hraw
  have hset := @blockWord_set s.block h.length i
  have hself : blockWord (expandAt i s.block i) i = schedule m i := by
    rw [hblock, hset, if_pos rfl, hx]
  have hne {j k : Nat} (hjk : j % 5 ≠ k % 5) : role j ≠ role k := fun heq => hjk (role_inj.mp heq)
  have hrole {j k : Nat} (hjk : j % 5 = k % 5) : role j = role k := role_inj.mpr hjk
  rw [roundAt, roundMacro_eq]
  refine ⟨?_, ?_, ?_, ?_, ?_, ?_, fun j hj hle => ?_, fun j hj hle => ?_⟩
  · -- the word that was the last is the first one now
    rw [hrole (show (80 - (i + 1)) % 5 = (84 - i) % 5 by omega)]
    simp only [sha1Round]
    rw [Reg.get_set_ne _ _ (hne (by omega)), Reg.get_set_self, hself, h.a, h.b, h.c, h.d, h.e, rol_eq]
    simp only [Codec.Sha.round]
    ac_rfl
  · rw [hrole (show (81 - (i + 1)) % 5 = (80 - i) % 5 by omega)]
    simp only [sha1Round]
    rw [Reg.get_set_ne _ _ (hne (by omega)), Reg.get_set_ne _ _ (hne (by omega)), h.a]
    rfl
  · rw [hrole (show (82 - (i + 1)) % 5 = (81 - i) % 5 by omega)]
    simp only [sha1Round]
    rw [Reg.get_set_self, Reg.get_set_ne _ _ (hne (by omega)), h.b, rol_eq]
    rfl
  · rw [hrole (show (83 - (i + 1)) % 5 = (82 - i) % 5 by omega)]
    simp only [sha1Round]
    rw [Reg.get_set_ne _ _ (hne (by omega)), Reg.get_set_ne _ _ (hne (by omega)), h.c]
    rfl
  · rw [hrole (show (84 - (i + 1)) % 5 = (83 - i) % 5 by omega)]
    simp only [sha1Round]
    rw [Reg.get_set_ne _ _ (hne (by omega)), Reg.get_set_ne _ _ (hne (by omega)), h.d]
    rfl
  · simp only [sha1Round]
    rw [hblock, List.length_set, h.length]
  · simp only [sha1Round]
    rcases Nat.lt_succ_iff_lt_or_eq.mp hj with hlt | rfl
    · rw [hblock, hset, if_neg (by omega), h.done j hlt (by omega)]
    · exact hself
  · simp only [sha1Round]
    rw [hblock, hset, if_neg (by omega), h.todo j hj (by omega)]

theorem Rolled.rounds (h : Rolled m raw 0 s t)
    (hraw : ∀ j < 16, (rol (raw j) 24 &&& (0xFF00FF00 : UInt32)) ||| (rol (raw j) 8 &&& (0x00FF00FF : UInt32)) = m j)
    {n : Nat} (hn : n ≤ 80) : Rolled m raw n (((List.range n).map roundAt).foldl (fun s r => r s) s)
      ((List.range n).foldl (Codec.Sha.round (schedule m)) t) := by
  induction n with
  | zero => exact h
  | succ n ih =>
    rw [List.range_succ, List.map_append, List.foldl_append, List.foldl_append]
    exact (ih (by omega)).step (by omega) hraw

end Rounds

/-- The words of a block in memory. -/
def rawWord (buffer : Bytes) (i : Nat) : UInt32 := memoryWord ((buffer.drop (4 * i)).take 4)

theorem swap_rawWord {buffer : Bytes} (hlen : buffer.length = 64) {i : Nat} (hi : i < 16) :
    (rol (rawWord buffer i) 24 &&& (0xFF00FF00 : UInt32)) ||| (rol (rawWord buffer i) 8 &&& (0x00FF00FF : UInt32)) =
      word buffer i := by
  have hfour : ((buffer.drop (4 * i)).take 4).length = 4 := by
    rw [List.length_take, List.length_drop]
    omega
  rw [rawWord, word]
  obtain ⟨p, q, r, s, heq⟩ : ∃ p q r s, (buffer.drop (4 * i)).take 4 = [p, q, r, s] := by
    generalize (buffer.drop (4 * i)).take 4 = bs at hfour
    match bs, hfour with
    | [p, q, r, s], _ => exact ⟨p, q, r, s, rfl⟩
  rw [heq]
  exact swap_memoryWord p q r s

/-- `SHA1Transform` is the compression of the algorithm. -/
theorem sha1Transform_eq {buffer : Bytes} (hlen : buffer.length = 64) (state : Words) :
    sha1Transform state buffer = compress state buffer := by
  let s : Sha1Work := ⟨state, (List.range 16).map (rawWord buffer)⟩
  have hstart : Rolled (word buffer) (rawWord buffer) 0 s state := by
    refine ⟨rfl, rfl, rfl, rfl, rfl, by simp [s], fun j hj => absurd hj (Nat.not_lt_zero j), fun j hj _ => ?_⟩
    rw [blockWord, Nat.mod_eq_of_lt hj, List.getD_eq_getElem?_getD, List.getElem?_map, List.getElem?_range hj]
    rfl
  have hend := hstart.rounds (fun j hj => swap_rawWord hlen hj) (Nat.le_refl 80)
  rw [← sha1Rounds_eq] at hend
  have hregs : (sha1Rounds.foldl (fun (s : Sha1Work) r => r s) s).regs =
      (List.range 80).foldl (Codec.Sha.round (schedule (word buffer))) state :=
    Words.ext hend.a hend.b hend.c hend.d hend.e
  rw [sha1Transform, compress]
  exact congrArg state.add hregs

/-! ## The context -/

/-- The bytes of `message` have been hashed: their blocks are in the state, and the others are at the beginning
of the buffer. -/
structure Sha1Ctx.Holds (context : Sha1Ctx) (message : Bytes) : Prop where
  state : context.state = (absorb 64 compress (initial, []) message).1
  buffer : context.buffer.take (message.length % 64) = (absorb 64 compress (initial, []) message).2
  length : context.buffer.length = 64
  count0 : context.count0.toNat = 8 * message.length % 2 ^ 32
  count1 : context.count1.toNat = 8 * message.length / 2 ^ 32 % 2 ^ 32

theorem sha1Init_holds {context : Sha1Ctx} (h : context.buffer.length = 64) : (sha1Init context).Holds [] :=
  ⟨rfl, rfl, h, rfl, rfl⟩

theorem memcpyAt_ok {c src : Bytes} {pos n : Nat} (hsrc : n ≤ src.length) (hc : pos + n ≤ c.length) :
    memcpyAt c pos src n = .ok (c.take pos ++ src.take n ++ c.drop (pos + n)) := by
  have htake : (src.take n).length = n := List.length_take_of_le hsrc
  rw [memcpyAt, if_pos hsrc, writeAt, htake, if_pos hc]

/-- The loop takes whole blocks. -/
theorem sha1UpdateLoop_spec {data : Bytes} {len : UInt32} (hdata : len.toNat ≤ data.length)
    (hlen : len.toNat + 63 < 2 ^ 32) {fuel : Nat} {i : UInt32} (hi : i.toNat ≤ len.toNat)
    (hfuel : len.toNat - i.toNat < 64 * fuel) (state : Words) :
    ∃ state' i', sha1UpdateLoop data len fuel state i = .ok (state', i') ∧ i'.toNat ≤ len.toNat ∧
      len.toNat - i'.toNat < 64 ∧
      absorb 64 compress (state, []) ((data.take len.toNat).drop i.toNat) =
        (state', (data.take len.toNat).drop i'.toNat) := by
  induction fuel generalizing i state with
  | zero => omega
  | succ fuel ih =>
    have h63 : (i + 63).toNat = i.toNat + 63 := by
      rw [UInt32.toNat_add]
      exact Nat.mod_eq_of_lt (show i.toNat + 63 < 2 ^ 32 by omega)
    have hrest : ((data.take len.toNat).drop i.toNat).length = len.toNat - i.toNat := by
      rw [List.length_drop, List.length_take_of_le hdata]
    rw [sha1UpdateLoop]
    by_cases hlt : i + 63 < len
    · have hlt' : i.toNat + 63 < len.toNat := by rwa [UInt32.lt_iff_toNat_lt, h63] at hlt
      have h64 : (i + 64).toNat = i.toNat + 64 := by
        rw [UInt32.toNat_add]
        exact Nat.mod_eq_of_lt (show i.toNat + 64 < 2 ^ 32 by omega)
      have hblock : ((data.drop i.toNat).take 64).length = 64 := by
        rw [List.length_take, List.length_drop]
        omega
      obtain ⟨state', i', hrun, hle, hshort, habsorb⟩ :=
        @ih (i + 64) (by omega) (by omega) (sha1Transform state ((data.drop i.toNat).take 64))
      refine ⟨state', i', ?_, hle, hshort, ?_⟩
      · rw [if_pos hlt, ← hrun]
        exact if_neg (by omega)
      · rw [← habsorb, sha1Transform_eq hblock, h64]
        have hsplit : (data.take len.toNat).drop i.toNat =
            (data.drop i.toNat).take 64 ++ (data.take len.toNat).drop (i.toNat + 64) := by
          rw [← List.take_append_drop 64 ((data.take len.toNat).drop i.toNat), List.drop_drop, List.drop_take,
            List.take_take, Nat.min_eq_left (by omega)]
        rw [hsplit, absorb_fill_append (by simp) (by simpa using hblock)]
        rfl
    · have hge : len.toNat ≤ i.toNat + 63 := by
        rw [UInt32.lt_iff_toNat_lt, h63] at hlt
        omega
      refine ⟨state, i, if_neg hlt, hi, by omega, ?_⟩
      rw [absorb_short (by rw [hrest]; simp only [List.length_nil]; omega)]
      rfl

section Update

variable {context : Sha1Ctx} {message : Bytes}

/-- The bytes that wait are at the beginning of the buffer. -/
theorem Sha1Ctx.Holds.intro {rest : Bytes}
    (hmessage : absorb 64 compress (initial, []) message = (context.state, rest))
    (hbuffer : rest <+: context.buffer) (hlength : context.buffer.length = 64)
    (hcount0 : context.count0.toNat = 8 * message.length % 2 ^ 32)
    (hcount1 : context.count1.toNat = 8 * message.length / 2 ^ 32 % 2 ^ 32) : context.Holds message := by
  have hrest : rest.length = message.length % 64 := by
    have hcount := @absorb_length _ _ 64 compress (initial, []) message (by simp)
    rw [hmessage] at hcount
    simpa using hcount
  refine ⟨by rw [hmessage], ?_, hlength, hcount0, hcount1⟩
  rw [hmessage, ← hrest]
  exact (List.prefix_iff_eq_take.mp hbuffer).symm

/-- Where the next byte goes. -/
theorem Sha1Ctx.Holds.position (h : context.Holds message) :
    ((context.count0 >>> 3) &&& 63).toNat = message.length % 64 := by
  have hand := Nat.and_two_pow_sub_one_eq_mod (8 * message.length % 2 ^ 32 / 8) 6
  simp only [UInt32.toNat_and, UInt32.toNat_shiftRight, h.count0, UInt32.toNat_ofNat,
    Nat.shiftRight_eq_div_pow]
  simp only [Nat.reducePow, Nat.reduceSub] at hand ⊢
  rw [hand]
  omega

/-- The bits of the message, counted in two words. -/
theorem Sha1Ctx.Holds.counts (h : context.Holds message) (len : UInt32) :
    (context.count0 + (len <<< 3)).toNat = 8 * (message.length + len.toNat) % 2 ^ 32 ∧
      ((if context.count0 + (len <<< 3) < context.count0 then context.count1 + 1 else context.count1) +
        (len >>> 29)).toNat = 8 * (message.length + len.toNat) / 2 ^ 32 % 2 ^ 32 := by
  have hlen := len.toNat_lt
  have hshift : (len <<< 3).toNat = 8 * len.toNat % 2 ^ 32 := by
    simp only [UInt32.toNat_shiftLeft, UInt32.toNat_ofNat, Nat.shiftLeft_eq, Nat.reducePow, Nat.reduceMod]
    omega
  have hhigh : (len >>> 29).toNat = 8 * len.toNat / 2 ^ 32 := by
    simp only [UInt32.toNat_shiftRight, UInt32.toNat_ofNat, Nat.shiftRight_eq_div_pow, Nat.reducePow, Nat.reduceMod]
    omega
  have hsum : (context.count0 + (len <<< 3)).toNat = 8 * (message.length + len.toNat) % 2 ^ 32 := by
    rw [UInt32.toNat_add, hshift, h.count0]
    omega
  refine ⟨hsum, ?_⟩
  -- the low word has overflown if it is less than before
  have hcarry : context.count0 + (len <<< 3) < context.count0 ↔
      2 ^ 32 ≤ 8 * message.length % 2 ^ 32 + 8 * len.toNat % 2 ^ 32 := by
    rw [UInt32.lt_iff_toNat_lt, hsum, h.count0]
    omega
  have hhalves := h.count1
  by_cases hover : context.count0 + (len <<< 3) < context.count0
  · have hge := hcarry.mp hover
    rw [if_pos hover, UInt32.toNat_add, UInt32.toNat_add, hhigh, hhalves]
    simp only [UInt32.toNat_one]
    omega
  · have hlt := not_le.mp fun hge => hover (hcarry.mpr hge)
    rw [if_neg hover, UInt32.toNat_add, hhigh, hhalves]
    omega

/-- `SHA1Update` hashes what it is given. -/
theorem Sha1Ctx.Holds.update (h : context.Holds message) {data : Bytes} {len : UInt32}
    (hdata : len.toNat ≤ data.length) (hlen : len.toNat + 63 < 2 ^ 32) :
    ∃ context', sha1Update context data len = .ok context' ∧ context'.Holds (message ++ data.take len.toNat) := by
  have hposition := h.position
  obtain ⟨hcount0, hcount1⟩ := h.counts len
  have hlength : (message ++ data.take len.toNat).length = message.length + len.toNat := by
    rw [List.length_append, List.length_take_of_le hdata]
  have hmod := Nat.mod_lt message.length (show 0 < 64 by omega)
  have hold : (absorb 64 compress (initial, []) message).2.length = message.length % 64 := by
    rw [absorb_length (by simp)]
    simp
  have hstart : absorb 64 compress (initial, []) message =
      (context.state, context.buffer.take (message.length % 64)) := Prod.ext h.state.symm h.buffer.symm
  unfold sha1Update
  dsimp only
  generalize (context.count0 >>> 3) &&& 63 = j at hposition
  rw [← hlength] at hcount0 hcount1
  rw [← hposition] at hstart hmod hold
  have hadd : (j + len).toNat = j.toNat + len.toNat := by
    rw [UInt32.toNat_add]
    exact Nat.mod_eq_of_lt (by omega)
  by_cases hfull : j + len > 63
  · have hfull' : 63 < j.toNat + len.toNat := by
      rwa [gt_iff_lt, UInt32.lt_iff_toNat_lt, hadd] at hfull
    have hsub : (64 - j).toNat = 64 - j.toNat := UInt32.toNat_sub_of_le _ _ (UInt32.le_iff_toNat_le.mpr (by
      show j.toNat ≤ 64
      omega))
    have hpart : (data.take (64 - j.toNat)).length = 64 - j.toNat := List.length_take_of_le (by omega)
    have hhead : (context.buffer.take j.toNat).length = j.toNat := List.length_take_of_le (by rw [h.length]; omega)
    have htail : context.buffer.drop (j.toNat + (64 - j.toNat)) = [] :=
      List.drop_eq_nil_of_le (by rw [h.length]; omega)
    rw [if_pos hfull, hsub, memcpyAt_ok (by omega) (by rw [h.length]; omega), htail, List.append_nil]
    have hblock : (context.buffer.take j.toNat ++ data.take (64 - j.toNat)).length = 64 := by
      rw [List.length_append, hpart, hhead]
      omega
    have hi : (64 - j).toNat ≤ len.toNat := by omega
    obtain ⟨state', i, hrun, hle, hrest, habsorb⟩ := sha1UpdateLoop_spec hdata hlen hi
      (show len.toNat - (64 - j).toNat < 64 * (len.toNat / 64 + 1) by omega)
      (sha1Transform context.state (context.buffer.take j.toNat ++ data.take (64 - j.toNat)))
    have hsub' : (len - i).toNat = len.toNat - i.toNat :=
      UInt32.toNat_sub_of_le _ _ (UInt32.le_iff_toNat_le.mpr hle)
    simp only [bind, Except.bind, hrun, hsub']
    rw [memcpyAt_ok (by rw [List.length_drop]; omega) (by rw [hblock]; omega)]
    have hwaits : (data.drop i.toNat).take (len.toNat - i.toNat) = (data.take len.toNat).drop i.toNat := by
      rw [List.drop_take]
    have hsplit : data.take (64 - j.toNat) ++ (data.take len.toNat).drop (64 - j.toNat) = data.take len.toNat := by
      have htake : (data.take len.toNat).take (64 - j.toNat) = data.take (64 - j.toNat) := by
        rw [List.take_take, Nat.min_eq_left (by omega)]
      rw [← htake, List.take_append_drop]
    have hmessage : absorb 64 compress (initial, []) (message ++ data.take len.toNat) =
        (state', (data.take len.toNat).drop i.toNat) := by
      rw [sha1Transform_eq hblock, hsub] at habsorb
      rw [absorb_append, hstart, ← hsplit, absorb_fill_append (by rw [hhead]; omega) (by rw [hhead, hpart]; omega),
        habsorb, hsplit]
    refine ⟨_, rfl, .intro hmessage ⟨_, by rw [← hwaits]; rfl⟩ ?_ hcount0 hcount1⟩
    simp only [List.length_append, List.length_take, List.length_drop, hhead, hpart]
    omega
  · have hshort : j.toNat + len.toNat ≤ 63 := by
      rw [gt_iff_lt, UInt32.lt_iff_toNat_lt, hadd] at hfull
      exact not_lt.mp hfull
    rw [if_neg hfull, memcpyAt_ok hdata (by rw [h.length]; omega)]
    have hmessage : absorb 64 compress (initial, []) (message ++ data.take len.toNat) =
        (context.state, context.buffer.take j.toNat ++ data.take len.toNat) := by
      rw [absorb_append, hstart, absorb_short]
      simp only [List.length_take, h.length]
      omega
    refine ⟨_, rfl, .intro hmessage ⟨_, rfl⟩ ?_ hcount0 hcount1⟩
    simp only [List.length_append, List.length_take, List.length_drop, h.length]
    omega

/-! ## SHA1Final -/

theorem and_255_toUInt8 (x : UInt32) : (x &&& 255).toUInt8 = UInt8.ofNat x.toNat := by
  apply UInt8.toNat_inj.mp
  have hand := Nat.and_two_pow_sub_one_eq_mod x.toNat 8
  simp only [UInt32.toNat_toUInt8, UInt32.toNat_and, UInt32.toNat_ofNat, UInt8.toNat_ofNat', Nat.reducePow,
    Nat.reduceSub, Nat.reduceMod] at hand ⊢
  rw [hand]
  omega

/-- The bytes of a word. -/
theorem toBE_word (x : UInt32) : toBE 4 x.toNat = [((x >>> 24) &&& 255).toUInt8, ((x >>> 16) &&& 255).toUInt8,
    ((x >>> 8) &&& 255).toUInt8, ((x >>> 0) &&& 255).toUInt8] := by
  simp only [and_255_toUInt8, toBE, UInt32.toNat_shiftRight, UInt32.toNat_ofNat, Nat.shiftRight_eq_div_pow,
    Nat.reducePow, Nat.reduceMod]

theorem wordBytes_two (x y : UInt32) : (List.range 8).map (wordByte [x, y]) = toBE 4 x.toNat ++ toBE 4 y.toNat := by
  rw [toBE_word, toBE_word]
  rfl

theorem wordBytes_five (s : Words) : (List.range 20).map (wordByte [s.a, s.b, s.c, s.d, s.e]) = s.bytes := by
  simp only [Words.bytes, List.flatMap_cons, List.flatMap_nil, toBE_word]
  rfl

/-- `finalcount` is the number of bits. -/
theorem Sha1Ctx.Holds.finalcount (h : context.Holds message) :
    (List.range 8).map (wordByte [context.count1, context.count0]) = toBE 8 (8 * message.length) := by
  have hword : (2 : Nat) ^ 32 = 256 ^ 4 := by norm_num
  rw [wordBytes_two, h.count0, h.count1, hword, toBE_mod, toBE_mod]
  exact (toBE_append 4 4 _).symm

/-- The loop goes on until eight bytes are missing. -/
theorem Sha1Ctx.Holds.full_iff (h : context.Holds message) :
    context.count0 &&& 504 ≠ 448 ↔ message.length % 64 ≠ 56 := by
  have hshift : context.count0 &&& (504 : UInt32) = ((context.count0 >>> 3) &&& 63) <<< 3 := by
    apply UInt32.eq_of_toBitVec_eq
    ext i hi
    simp
    interval_cases i <;> simp
  have hnat : (context.count0 &&& 504).toNat = 8 * (message.length % 64) := by
    rw [hshift, UInt32.toNat_shiftLeft, h.position]
    simp only [UInt32.toNat_ofNat, Nat.shiftLeft_eq, Nat.reducePow, Nat.reduceMod]
    omega
  rw [ne_eq, ← UInt32.toNat_inj, hnat]
  simp only [UInt32.toNat_ofNat, Nat.reducePow, Nat.reduceMod]
  omega

/-- A `SHA1Update` of a few bytes. -/
theorem Sha1Ctx.Holds.append (h : context.Holds message) (data : Bytes) (hlen : data.length + 63 < 2 ^ 32) :
    ∃ context', sha1Update context data (UInt32.ofNat data.length) = .ok context' ∧
      context'.Holds (message ++ data) := by
  have hlength : (UInt32.ofNat data.length).toNat = data.length := UInt32.toNat_ofNat_of_lt' (by
    show data.length < 2 ^ 32
    omega)
  obtain ⟨context', hrun, hholds⟩ := h.update (Nat.le_of_eq hlength) (by omega)
  rw [hlength, List.take_length] at hholds
  exact ⟨context', hrun, hholds⟩

theorem sha1FinalLoop_spec (fuel z : Nat) (h : context.Holds message) (hz : (message.length + z) % 64 = 56)
    (hlt : z < 64) (hfuel : z < fuel) :
    ∃ context', sha1FinalLoop fuel context = .ok context' ∧ context'.Holds (message ++ List.replicate z 0) := by
  induction z generalizing context message fuel with
  | zero =>
    obtain ⟨fuel, rfl⟩ := Nat.exists_eq_succ_of_ne_zero (Nat.ne_of_gt hfuel)
    refine ⟨context, ?_, by simpa using h⟩
    rw [sha1FinalLoop, if_neg]
    exact fun hfull => h.full_iff.mp hfull hz
  | succ z ih =>
    obtain ⟨fuel, rfl⟩ := Nat.exists_eq_succ_of_ne_zero (Nat.ne_of_gt (Nat.zero_lt_of_lt hfuel))
    obtain ⟨context₁, hrun, hholds⟩ := h.append [0] (by decide)
    have hlength : (message ++ [0]).length = message.length + 1 := by simp
    obtain ⟨context₂, hrun₂, hholds₂⟩ := ih fuel hholds (by omega) (by omega) (by omega)
    refine ⟨context₂, ?_, by simpa [List.replicate_succ] using hholds₂⟩
    have hfull : context.count0 &&& 504 ≠ 448 := h.full_iff.mpr (by omega)
    rw [sha1FinalLoop, if_pos hfull]
    exact (congrArg (· >>= sha1FinalLoop fuel) hrun).trans hrun₂

/-- `SHA1Final` returns the digest of what has been hashed. -/
theorem Sha1Ctx.Holds.final (h : context.Holds message) : sha1Final context = .ok (digest message, .wiped) := by
  obtain ⟨context₁, hrun₁, h₁⟩ := h.append [0x80] (by decide)
  have hlength₁ : (message ++ [0x80]).length = message.length + 1 := by simp
  obtain ⟨context₂, hrun₂, h₂⟩ := sha1FinalLoop_spec 64 ((119 - message.length % 64) % 64) h₁ (by omega)
    (by omega) (by omega)
  obtain ⟨context₃, hrun₃, h₃⟩ := h₂.append (toBE 8 (8 * message.length)) (by simp)
  have hmessage : message ++ [0x80] ++ List.replicate ((119 - message.length % 64) % 64) 0 ++
      toBE 8 (8 * message.length) = message ++ padding message.length := by
    simp [padding]
  rw [hmessage] at h₃
  have hrun₁ : sha1Update context [0x80] 1 = .ok context₁ := hrun₁
  have hrun₃ : sha1Update context₂ (toBE 8 (8 * message.length)) 8 = .ok context₃ := by
    rw [Codec.toBE_length] at hrun₃
    exact hrun₃
  unfold sha1Final
  simp only [h.finalcount, hrun₁, hrun₂, hrun₃, bind, Except.bind, wordBytes_five, h₃.state]
  rfl

/-- Pieces are hashed as one message. -/
theorem Sha1Ctx.Holds.updates (h : context.Holds message) {pieces : List Bytes}
    (hpieces : ∀ piece ∈ pieces, piece.length + 63 < 2 ^ 32) :
    ∃ context', sha1Updates context pieces = .ok context' ∧ context'.Holds (message ++ pieces.flatten) := by
  induction pieces generalizing context message with
  | nil => exact ⟨context, rfl, by simpa using h⟩
  | cons piece pieces ih =>
    obtain ⟨hpiece, hpieces⟩ := List.forall_mem_cons.mp hpieces
    obtain ⟨context₁, hrun₁, h₁⟩ := h.append piece hpiece
    obtain ⟨context₂, hrun₂, h₂⟩ := ih h₁ hpieces
    refine ⟨context₂, ?_, by simpa using h₂⟩
    rw [sha1Updates, List.foldlM_cons, hrun₁]
    exact hrun₂

end Update

/-- The digest of a message depends neither on its pieces nor on what was in the context before. -/
theorem sha1_digest {context : Sha1Ctx} (hbuffer : context.buffer.length = 64) {pieces : List Bytes}
    (hpieces : ∀ piece ∈ pieces, piece.length + 63 < 2 ^ 32) :
    (sha1Updates (sha1Init context) pieces >>= sha1Final) = .ok (digest pieces.flatten, .wiped) := by
  obtain ⟨context', hrun, hholds⟩ := (sha1Init_holds hbuffer).updates hpieces
  rw [hrun]
  exact hholds.final

theorem sha1_digest_abc :
    (sha1Updates (sha1Init .wiped) [ascii "ab", ascii "c"] >>= sha1Final) = .ok (digest (ascii "abc"), .wiped) :=
  sha1_digest List.length_replicate (by decide)

-- the digest of `abc`
example : ((sha1Updates (sha1Init .wiped) [ascii "ab", ascii "c"] >>= sha1Final).map Prod.fst) =
    .ok [0xA9, 0x99, 0x3E, 0x36, 0x47, 0x06, 0x81, 0x6A, 0xBA, 0x3E, 0x25, 0x71, 0x78, 0x50, 0xC2, 0x6C, 0x9C, 0xD0,
      0xD8, 0x9D] := by
  decide +kernel

end BeePhp
