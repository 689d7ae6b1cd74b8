import BeePhp.Codec.Blocks
import BeePhp.Progressive
import Mathlib.Tactic.IntervalCases
import Mathlib.Tactic.NormNum

/-!
# Proofs: the hash of a key that comes in pieces

The variables of `PMurHash32_Process` hold a running hash and the bytes that wait for their block (`Work.Holds`);
every loop keeps that. So it makes no difference in which pieces a key comes, or where in memory they are.
-/

namespace BeePhp

open Codec (Bytes)
open Codec.Blocks

/-! ## Words -/

/-- A word below the bits of another. -/
theorem or_shiftLeft_toNat {x y k : UInt32} (hk : k.toNat < 32) (hx : x.toNat < 2 ^ k.toNat) :
    (x ||| y <<< k).toNat = x.toNat + y.toNat * 2 ^ k.toNat % 2 ^ 32 := by
  have hpow : (2 : Nat) ^ 32 = 2 ^ k.toNat * 2 ^ (32 - k.toNat) := by
    rw [← Nat.pow_add]
    congr 1
    omega
  have hshift : (y <<< k).toNat = 2 ^ k.toNat * (y.toNat % 2 ^ (32 - k.toNat)) := by
    rw [UInt32.toNat_shiftLeft, Nat.mod_eq_of_lt hk, Nat.shiftLeft_eq, hpow, Nat.mul_comm, Nat.mul_mod_mul_left]
  have hmul : y.toNat * 2 ^ k.toNat % 2 ^ 32 = 2 ^ k.toNat * (y.toNat % 2 ^ (32 - k.toNat)) := by
    rw [hpow, Nat.mul_comm, Nat.mul_mod_mul_left]
  rw [UInt32.toNat_or, hshift, hmul, Nat.or_comm, ← Nat.two_pow_add_eq_or_of_lt hx, Nat.add_comm]

/-- The first byte of a block is its least significant one. -/
theorem blockOf_cons {b : UInt8} {bs : Bytes} (h : bs.length < 4) :
    (blockOf (b :: bs)).toNat = b.toNat + 256 * (blockOf bs).toNat ∧
      (blockOf (b :: bs)).toNat < 256 ^ (bs.length + 1) := by
  have hb := b.toNat_lt
  have hbs : (blockOf bs).toNat < 256 ^ bs.length := by
    cases bs with
    | nil => decide
    | cons c bs =>
      rw [List.length_cons] at h
      exact (@blockOf_cons c bs (by omega)).2
  have hpow : 256 ^ bs.length ≤ 256 ^ 3 := Nat.pow_le_pow_right (by decide) (by omega)
  have hcons : blockOf (b :: bs) = b.toUInt32 ||| blockOf bs <<< 8 := by
    rw [blockOf, List.foldr_cons, UInt32.or_comm]
    rfl
  have hvalue : (blockOf (b :: bs)).toNat = b.toNat + 256 * (blockOf bs).toNat := by
    rw [hcons, or_shiftLeft_toNat (by decide) (by simpa using hb)]
    simp only [UInt8.toNat_toUInt32, UInt32.toNat_ofNat, Nat.reduceMod, Nat.reducePow] at hpow ⊢
    omega
  refine ⟨hvalue, ?_⟩
  rw [hvalue, Nat.pow_succ]
  omega
  termination_by bs.length

theorem blockOf_concat {bs : Bytes} {b : UInt8} (h : bs.length < 4) :
    (blockOf (bs ++ [b])).toNat = (blockOf bs).toNat + 256 ^ bs.length * b.toNat := by
  induction bs with
  | nil =>
    have hb := b.toNat_lt
    rw [List.nil_append, (blockOf_cons (by decide)).1]
    simp [blockOf]
  | cons c bs ih =>
    rw [List.length_cons] at h
    rw [List.cons_append, (blockOf_cons (by simp only [List.length_append, List.length_singleton]; omega)).1,
      ih (by omega), (blockOf_cons (by omega)).1, List.length_cons, Nat.pow_succ]
    ring

/-- A word below the last bytes of another. -/
theorem splice_toNat (c word : UInt32) {j k : UInt32} (hj : j.toNat < 32) (hk : k.toNat < 32)
    (hsum : j.toNat + k.toNat = 32) :
    (c >>> j ||| word <<< k).toNat = c.toNat / 2 ^ j.toNat + word.toNat * 2 ^ k.toNat % 2 ^ 32 := by
  have hhigh : (c >>> j).toNat = c.toNat / 2 ^ j.toNat := by
    rw [UInt32.toNat_shiftRight, Nat.mod_eq_of_lt hj, Nat.shiftRight_eq_div_pow]
  have hlt : (c >>> j).toNat < 2 ^ k.toNat := by
    rw [hhigh, Nat.div_lt_iff_lt_mul (Nat.two_pow_pos _), ← Nat.pow_add, Nat.add_comm, hsum]
    exact c.toNat_lt
  rw [or_shiftLeft_toNat hk hlt, hhigh]

/-- The numbers of short blocks. -/
theorem blockOf_toNat (p q r s : UInt8) : (blockOf [p]).toNat = p.toNat ∧
    (blockOf [p, q]).toNat = p.toNat + 256 * q.toNat ∧
      (blockOf [p, q, r]).toNat = p.toNat + 256 * (q.toNat + 256 * r.toNat) ∧
        (blockOf [p, q, r, s]).toNat = p.toNat + 256 * (q.toNat + 256 * (r.toNat + 256 * s.toNat)) := by
  have hone (b : UInt8) : (blockOf [b]).toNat = b.toNat := by
    rw [(blockOf_cons (Nat.lt_of_sub_eq_succ rfl)).1]
    rfl
  have htwo (b c : UInt8) : (blockOf [b, c]).toNat = b.toNat + 256 * c.toNat := by
    rw [(blockOf_cons (Nat.lt_of_sub_eq_succ rfl)).1, hone]
  have hthree (b c d : UInt8) : (blockOf [b, c, d]).toNat = b.toNat + 256 * (c.toNat + 256 * d.toNat) := by
    rw [(blockOf_cons (Nat.lt_of_sub_eq_succ rfl)).1, htwo]
  refine ⟨hone p, htwo p q, hthree p q r, ?_⟩
  rw [(blockOf_cons (Nat.lt_of_sub_eq_succ rfl)).1, hthree]

/-! ## Blocks -/

-- a block is never mixed here
attribute [local irreducible] doBlock

/-- One block more. -/
def murmurStep (h : UInt32) (block : Bytes) : UInt32 := doBlock h (blockOf block)

theorem length_lt_of_not_four {α : Type} {xs : List α} (h : ∀ p q r s ys, xs = p :: q :: r :: s :: ys → False) :
    xs.length < 4 := by
  rcases xs with _ | ⟨p, _ | ⟨q, _ | ⟨r, _ | ⟨s, ys⟩⟩⟩⟩
  · simp
  · simp
  · simp
  · simp
  · exact (h p q r s ys rfl).elim

/-- The first of whole blocks. -/
theorem four_bytes {bs : Bytes} {n : Nat} (h : bs.length = 4 * (n + 1)) :
    ∃ p q r s rest, bs = p :: q :: r :: s :: rest ∧ rest.length = 4 * n := by
  rcases bs with _ | ⟨p, _ | ⟨q, _ | ⟨r, _ | ⟨s, rest⟩⟩⟩⟩
  · simp at h
  · simp only [List.length_cons, List.length_nil] at h
    omega
  · simp only [List.length_cons, List.length_nil] at h
    omega
  · simp only [List.length_cons, List.length_nil] at h
    omega
  · simp only [List.length_cons] at h
    exact ⟨p, q, r, s, rest, rfl, by omega⟩

theorem absorb_block (h1 : UInt32) (p q r s : UInt8) (bs : Bytes) :
    absorb 4 murmurStep (h1, []) (p :: q :: r :: s :: bs) =
      absorb 4 murmurStep (doBlock h1 (blockOf [p, q, r, s]), []) bs :=
  @absorb_fill_append _ _ 4 murmurStep (h1, []) [p, q, r, s] bs (Nat.zero_lt_succ 3) rfl

theorem absorb_rest {h1 : UInt32} {bs : Bytes} (h : bs.length < 4) :
    absorb 4 murmurStep (h1, []) bs = (h1, bs) :=
  absorb_short (by simpa using h)

theorem pMurHash32Process_short {h1 : UInt32} {bs : Bytes} (h : bs.length < 4) :
    pMurHash32Process h1 bs = (h1, bs) := by
  rcases bs with _ | ⟨p, _ | ⟨q, _ | ⟨r, _ | ⟨s, bs⟩⟩⟩⟩
  · rfl
  · rfl
  · rfl
  · rfl
  · simp only [List.length_cons] at h
    omega

/-- The hash of whole blocks is that of their stream. -/
theorem pMurHash32Process_eq (seed : UInt32) (key : Bytes) :
    pMurHash32Process seed key = absorb 4 murmurStep (seed, []) key := by
  induction seed, key using pMurHash32Process.induct with
  | case1 h1 p q r s bs ih => exact ih.trans (absorb_block h1 p q r s bs).symm
  | case2 h1 bs hshort =>
    have hlt := length_lt_of_not_four hshort
    rw [pMurHash32Process_short hlt, absorb_rest hlt]

namespace PMurHash32

/-- The variables hold the hash of the blocks, and the bytes that wait for the next one. -/
structure Work.Holds (w : Work) (a : UInt32 × Bytes) : Prop where
  h1 : w.h1 = a.1
  n : w.n = a.2.length
  lt : a.2.length < 4
  c : w.c.toNat / 256 ^ (4 - a.2.length) = (blockOf a.2).toNat

section Loops

variable {w : Work} {a : UInt32 × Bytes}

theorem Work.Holds.byte (h : w.Holds a) (b : UInt8) : (doByte w b).Holds (take 4 murmurStep a b) := by
  obtain ⟨h1, waiting⟩ := a
  obtain ⟨rfl, hn, hlt, hc⟩ := h
  dsimp only at hn hlt hc
  have hb := b.toNat_lt
  have hcword := w.c.toNat_lt
  have hnext : (w.c >>> 8 ||| b.toUInt32 <<< 24).toNat = w.c.toNat / 256 + b.toNat * 2 ^ 24 := by
    have hhigh : (w.c >>> 8).toNat = w.c.toNat / 256 := by
      simp [UInt32.toNat_shiftRight, Nat.shiftRight_eq_div_pow]
    have hlt24 : (w.c >>> 8).toNat < 2 ^ (24 : UInt32).toNat := by
      rw [hhigh]
      simp only [UInt32.toNat_ofNat, Nat.reduceMod, Nat.reducePow]
      omega
    rw [or_shiftLeft_toNat (by decide) hlt24, hhigh]
    simp only [UInt8.toNat_toUInt32, UInt32.toNat_ofNat, Nat.reduceMod, Nat.reducePow]
    omega
  -- the byte goes on top of those that wait
  have hconcat : (w.c >>> 8 ||| b.toUInt32 <<< 24).toNat / 256 ^ (3 - waiting.length) =
      (blockOf (waiting ++ [b])).toNat := by
    rw [hnext, blockOf_concat hlt, ← hc]
    interval_cases waiting.length <;> norm_num <;> omega
  by_cases hfull : waiting.length + 1 < 4
  · have hne : w.n + 1 ≠ 4 := by omega
    rw [doByte, take, if_neg hne, if_pos hfull]
    refine ⟨rfl, ?_, ?_, ?_⟩
    · simp [hn]
    · simpa using hfull
    · rw [← hconcat]
      simp only [List.length_append, List.length_singleton]
      congr 2
      omega
  · have heq : waiting.length = 3 := by omega
    rw [heq, Nat.sub_self, Nat.pow_zero, Nat.div_one] at hconcat
    have hblock := UInt32.toNat_inj.mp hconcat
    have hfour : w.n + 1 = 4 := by omega
    rw [doByte, take, if_pos hfour, if_neg hfull, hblock]
    refine ⟨rfl, rfl, Nat.zero_lt_succ 3, ?_⟩
    exact Nat.div_eq_of_lt (UInt32.toNat_lt _)

theorem Work.Holds.bytes (h : w.Holds a) (bs : Bytes) : (doBytes w bs).Holds (absorb 4 murmurStep a bs) := by
  induction bs generalizing w a with
  | nil => exact h
  | cons b bs ih => exact ih (h.byte b)

/-- Whole blocks when no byte waits. -/
theorem Work.Holds.words (h : w.Holds a) (hnone : a.2 = []) {bs : Bytes} (hbs : 4 ∣ bs.length) :
    (doWords w bs).Holds (absorb 4 murmurStep a bs) := by
  obtain ⟨h1, waiting⟩ := a
  dsimp only at hnone
  subst hnone
  obtain ⟨rfl, hn, hlt, hc⟩ := h
  obtain ⟨n, hbs⟩ := hbs
  induction n generalizing w bs with
  | zero =>
    obtain rfl : bs = [] := List.length_eq_zero_iff.mp hbs
    exact ⟨rfl, hn, hlt, hc⟩
  | succ n ih =>
    obtain ⟨p, q, r, s, rest, rfl, hrest⟩ := four_bytes hbs
    rw [absorb_block]
    exact @ih { w with h1 := doBlock w.h1 (blockOf [p, q, r, s]) } rest hn hlt hc hrest

/-- A word that completes a block, and begins the next. -/
theorem Work.Holds.aligned (h : w.Holds a) (p q r s : UInt8) :
    (doAligned w (blockOf [p, q, r, s])).Holds (absorb 4 murmurStep a [p, q, r, s]) := by
  obtain ⟨x1, waiting⟩ := a
  obtain ⟨_, c, n⟩ := w
  obtain ⟨hx1, hn, hlt, hc⟩ := h
  dsimp only at hx1 hn hlt hc
  subst hx1 hn
  have hp := p.toNat_lt
  have hq := q.toNat_lt
  have hr := r.toNat_lt
  have hs := s.toNat_lt
  obtain ⟨-, -, -, hword⟩ := blockOf_toNat p q r s
  rcases waiting with _ | ⟨x, _ | ⟨y, _ | ⟨z, _ | ⟨t, waiting⟩⟩⟩⟩
  · exact ⟨rfl, rfl, Nat.zero_lt_succ 3, hc⟩
  · obtain ⟨hx, -, -, hblock⟩ := blockOf_toNat x p q r
    obtain ⟨hrest, -⟩ := blockOf_toNat s s s s
    have hc : c.toNat / 2 ^ 24 = (blockOf [x]).toNat := hc
    have hsplice : (c >>> 24 ||| blockOf [p, q, r, s] <<< 8).toNat =
        c.toNat / 2 ^ 24 + (blockOf [p, q, r, s]).toNat * 2 ^ 8 % 2 ^ 32 :=
      splice_toNat c _ (by decide) (by decide) rfl
    have hnext : c >>> 24 ||| blockOf [p, q, r, s] <<< 8 = blockOf [x, p, q, r] := by
      apply UInt32.toNat_inj.mp
      omega
    have hwaits : (blockOf [p, q, r, s]).toNat / 2 ^ 24 = (blockOf [s]).toNat := by omega
    exact ⟨congrArg (doBlock _) hnext, rfl, hlt, hwaits⟩
  · obtain ⟨-, hxy, -, hblock⟩ := blockOf_toNat x y p q
    obtain ⟨-, hrest, -⟩ := blockOf_toNat r s s s
    have hc : c.toNat / 2 ^ 16 = (blockOf [x, y]).toNat := hc
    have hsplice : (c >>> 16 ||| blockOf [p, q, r, s] <<< 16).toNat =
        c.toNat / 2 ^ 16 + (blockOf [p, q, r, s]).toNat * 2 ^ 16 % 2 ^ 32 :=
      splice_toNat c _ (by decide) (by decide) rfl
    have hnext : c >>> 16 ||| blockOf [p, q, r, s] <<< 16 = blockOf [x, y, p, q] := by
      apply UInt32.toNat_inj.mp
      omega
    have hwaits : (blockOf [p, q, r, s]).toNat / 2 ^ 16 = (blockOf [r, s]).toNat := by omega
    exact ⟨congrArg (doBlock _) hnext, rfl, hlt, hwaits⟩
  · obtain ⟨-, -, hxyz, hblock⟩ := blockOf_toNat x y z p
    obtain ⟨-, -, hrest, -⟩ := blockOf_toNat q r s s
    have hc : c.toNat / 2 ^ 8 = (blockOf [x, y, z]).toNat := hc
    have hsplice : (c >>> 8 ||| blockOf [p, q, r, s] <<< 24).toNat =
        c.toNat / 2 ^ 8 + (blockOf [p, q, r, s]).toNat * 2 ^ 24 % 2 ^ 32 :=
      splice_toNat c _ (by decide) (by decide) rfl
    have hnext : c >>> 8 ||| blockOf [p, q, r, s] <<< 24 = blockOf [x, y, z, p] := by
      apply UInt32.toNat_inj.mp
      omega
    have hwaits : (blockOf [p, q, r, s]).toNat / 2 ^ 8 = (blockOf [q, r, s]).toNat := by omega
    exact ⟨congrArg (doBlock _) hnext, rfl, hlt, hwaits⟩
  · simp only [List.length_cons] at hlt
    omega

theorem Work.Holds.alignedWords (h : w.Holds a) {bs : Bytes} (hbs : 4 ∣ bs.length) :
    (doAlignedWords w bs).Holds (absorb 4 murmurStep a bs) := by
  obtain ⟨n, hbs⟩ := hbs
  induction n generalizing w a bs with
  | zero =>
    obtain rfl : bs = [] := List.length_eq_zero_iff.mp hbs
    exact h
  | succ n ih =>
    obtain ⟨p, q, r, s, rest, rfl, hrest⟩ := four_bytes hbs
    have hsplit := @absorb_append _ _ 4 murmurStep a [p, q, r, s] rest
    rw [List.cons_append, List.cons_append, List.cons_append, List.cons_append, List.nil_append] at hsplit
    rw [hsplit]
    exact ih (h.aligned p q r s) hrest

/-- The words are read when no byte waits, or at multiples of four. -/
theorem Work.Holds.access (h : w.Holds a) (access : Access) {bs : Bytes} (hbs : 4 ∣ bs.length)
    (hhead : access = .unalignedSafe → a.2 = [] ∨ bs = []) :
    (access.words w bs).Holds (absorb 4 murmurStep a bs) := by
  cases access with
  | aligned address => exact h.alignedWords hbs
  | unalignedSafe =>
    rcases hhead rfl with hnone | rfl
    · exact h.words hnone hbs
    · exact h

end Loops

/-! ## Pieces -/

/-- What `PMurHash32_Process` begins with. -/
def work (h : PMurHash32) : Work := ⟨h.h1, h.carry, (h.carry &&& 3).toNat⟩

/-- The key has been hashed. -/
def Holds (h : PMurHash32) (seed : UInt32) (key : Bytes) : Prop :=
  h.work.Holds (absorb 4 murmurStep (seed, []) key)

theorem holds_init (seed : UInt32) : (⟨seed, 0⟩ : PMurHash32).Holds seed [] where
  h1 := rfl
  n := show ((0 : UInt32) &&& 3).toNat = 0 from rfl
  lt := Nat.zero_lt_succ 3
  c := Nat.zero_div _

/-- The variables are kept in two words. -/
theorem Work.Holds.pack {w : Work} {a : UInt32 × Bytes} (h : w.Holds a) :
    (work ⟨w.h1, (w.c &&& ~~~0xff) ||| UInt32.ofNat w.n⟩).Holds a := by
  obtain ⟨hh1, hn, hlt, hc⟩ := h
  have hclear : w.c &&& ~~~(0xff : UInt32) = (w.c >>> 8) <<< 8 := by
    apply UInt32.eq_of_toBitVec_eq
    ext i hi
    simp
    interval_cases i <;> simp
  have hsmall : (UInt32.ofNat w.n).toNat = w.n := UInt32.toNat_ofNat_of_lt' (by
    show w.n < 2 ^ 32
    omega)
  have hcarry : ((w.c &&& ~~~0xff) ||| UInt32.ofNat w.n).toNat = w.n + w.c.toNat / 2 ^ 8 * 2 ^ 8 := by
    have hshift : (w.c >>> 8).toNat = w.c.toNat / 2 ^ 8 := by
      simp [UInt32.toNat_shiftRight, Nat.shiftRight_eq_div_pow]
    have hor := @or_shiftLeft_toNat (UInt32.ofNat w.n) (w.c >>> 8) 8 (by decide) (by
      rw [hsmall]
      exact (show w.n < 2 ^ 8 by omega))
    have hlt := w.c.toNat_lt
    rw [hclear, UInt32.or_comm, hor, hsmall, hshift]
    exact congrArg (w.n + ·) (Nat.mod_eq_of_lt (show w.c.toNat / 2 ^ 8 * 2 ^ 8 < 2 ^ 32 by omega))
  have hlow : (((w.c &&& ~~~0xff) ||| UInt32.ofNat w.n) &&& 3).toNat = w.n := by
    rw [UInt32.toNat_and, hcarry]
    have hmod := Nat.and_two_pow_sub_one_eq_mod (w.n + w.c.toNat / 2 ^ 8 * 2 ^ 8) 2
    have hthree : (3 : UInt32).toNat = 2 ^ 2 - 1 := rfl
    rw [hthree, hmod]
    omega
  refine ⟨hh1, hlow.trans hn, hlt, ?_⟩
  rw [← hc]
  show ((w.c &&& ~~~0xff) ||| UInt32.ofNat w.n).toNat / _ = _
  rw [hcarry]
  generalize a.2.length = k at hn hlt
  interval_cases k <;> norm_num <;> omega

theorem Holds.process {h : PMurHash32} {seed : UInt32} {key : Bytes} (hh : h.Holds seed key) (access : Access)
    (piece : Bytes) : (h.process access piece).Holds seed (key ++ piece) := by
  let n := (h.carry &&& 3).toNat
  let i := access.head n
  let head := if i ≠ 0 ∧ i ≤ piece.length then i else 0
  let whole := (piece.drop head).length / 4 * 4
  have hn : n < 4 := hh.n.trans_lt hh.lt
  have hwhole : ((piece.drop head).take whole).length = whole :=
    List.length_take_of_le (Nat.div_mul_le_self _ 4)
  have hsplit : absorb 4 murmurStep (seed, []) (key ++ piece) = absorb 4 murmurStep (absorb 4 murmurStep
      (absorb 4 murmurStep (absorb 4 murmurStep (seed, []) key) (piece.take head)) ((piece.drop head).take whole))
      ((piece.drop head).drop whole) := by
    rw [← absorb_append, ← absorb_append, ← absorb_append, List.take_append_drop, List.take_append_drop]
  rw [Holds, hsplit]
  refine (((hh.bytes (piece.take head)).access access ?_ ?_).bytes _).pack
  · rw [hwhole]
    exact Nat.dvd_mul_left 4 _
  · rintro rfl
    have hi : i = (4 - n) % 4 := rfl
    have hwaits := @absorb_length _ _ 4 murmurStep (absorb 4 murmurStep (seed, []) key) (piece.take head) hh.lt
    rw [← show n = _ from hh.n] at hwaits
    by_cases hhead : i ≠ 0 ∧ i ≤ piece.length
    · have heq : head = i := if_pos hhead
      rw [heq, List.length_take_of_le hhead.2] at hwaits
      exact .inl (List.length_eq_zero_iff.mp (by rw [heq]; omega))
    · have heq : head = 0 := if_neg hhead
      rcases Nat.eq_zero_or_pos i with hzero | hpos
      · rw [heq, List.take_zero, List.length_nil] at hwaits
        exact .inl (List.length_eq_zero_iff.mp (by rw [heq, List.take_zero]; omega))
      · refine .inr (List.length_eq_zero_iff.mp ?_)
        have hlen : (piece.drop head).length = piece.length := by rw [heq, List.drop_zero]
        rw [hwhole]
        omega

/-- The result is that of the whole key. -/
theorem Holds.result {h : PMurHash32} {seed : UInt32} {key : Bytes} (hh : h.Holds seed key)
    (hlen : key.length < 2 ^ 31) : h.result (UInt32.ofNat key.length) = pMurHash32 seed key := by
  obtain ⟨hh1, hn, hlt, hc⟩ := hh
  rw [← pMurHash32Process_eq] at hh1 hn hlt hc
  rw [pMurHash32, if_pos hlen]
  generalize pMurHash32Process seed key = a at hh1 hn hlt hc
  obtain ⟨h1, waiting⟩ := a
  have hh1 : h.h1 = h1 := hh1
  have hn : (h.carry &&& 3).toNat = waiting.length := hn
  have hc : h.carry.toNat / 256 ^ (4 - waiting.length) = (blockOf waiting).toNat := hc
  dsimp only at hlt ⊢
  rw [PMurHash32.result, pMurHash32Result, hh1, hn]
  by_cases hnone : waiting.length = 0
  · simp only [hnone, ne_eq, not_true_eq_false, if_true, if_false]
  · have hblock : h.carry >>> UInt32.ofNat ((4 - waiting.length) * 8) = blockOf waiting := by
      apply UInt32.toNat_inj.mp
      rw [← hc, UInt32.toNat_shiftRight, Nat.shiftRight_eq_div_pow]
      generalize waiting.length = k at hlt hnone
      interval_cases k <;> simp at hnone ⊢
    rw [if_pos hnone, if_neg hnone, hblock]

theorem processAll_holds (seed : UInt32) (pieces : List (Access × Bytes)) :
    (processAll seed pieces).Holds seed (pieces.flatMap Prod.snd) := by
  have hall : ∀ (h : PMurHash32) (key : Bytes), h.Holds seed key →
      (pieces.foldl (fun h piece => h.process piece.1 piece.2) h).Holds seed
        (key ++ pieces.flatMap Prod.snd) := by
    induction pieces with
    | nil =>
      intro h key hh
      rwa [List.flatMap_nil, List.append_nil]
    | cons piece pieces ih =>
      intro h key hh
      rw [List.foldl_cons, List.flatMap_cons, ← List.append_assoc]
      exact ih _ _ (hh.process piece.1 piece.2)
  exact hall _ [] (holds_init seed)

end PMurHash32

/-- The hash of a key depends neither on the pieces in which it comes nor on the addresses of these. -/
theorem progressive_hash (seed : UInt32) {pieces : List (PMurHash32.Access × Bytes)} {key : Bytes}
    (hkey : pieces.flatMap Prod.snd = key) (hlen : key.length < 2 ^ 31) :
    (PMurHash32.processAll seed pieces).result (UInt32.ofNat key.length) = pMurHash32 seed key := by
  subst hkey
  exact (PMurHash32.processAll_holds seed pieces).result hlen

theorem progressive_hash_space :
    (PMurHash32.processAll 13 [(.aligned 3, ascii "spac"), (.unalignedSafe, ascii "e_index")]).result
      (UInt32.ofNat (ascii "space_index").length) = pMurHash32 13 (ascii "space_index") :=
  progressive_hash 13 (by simp [ascii]) (by simp [ascii])

end BeePhp
