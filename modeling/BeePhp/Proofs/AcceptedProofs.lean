import BeePhp.Codec.Proofs.HeadsProofs
import BeePhp.Msgpack.Proofs.CheckedProofs

/-!
# Proofs: what php_mp_check accepts

A round of `mp_check` is at a head, or it is `Short`: at a head that is cut off. So the validator accepts the
documents, and with them a map 16 head that is cut off behind its lead byte, where it returns `false` instead of
1 (`phpMpCheck_accepts`). `mp_next` goes over the documents, and has nothing that stops it at their end
(`mpNext_skips`).
-/

namespace BeePhp

open Codec Codec.Reader

/-! ## Heads -/

section Lead

variable {c : UInt8}

theorem uint_head {w : IntWidth} {n : Nat} (hbound : w.uintBound = 256 ^ n)
    (hhead : ∀ m, w.uintHead m = c :: toBE n m) (s : Bytes) (hs : s.length = n) :
    ∃ d : Doc, d.Fits ∧ d.head = c :: s := by
  refine ⟨.uint w (ofBE s), ?_, ?_⟩
  · show ofBE s < w.uintBound
    rw [hbound]
    exact ofBE_lt_of_length hs
  · rw [Doc.head, hhead, ← eq_toBE hs]

theorem int_head {w : IntWidth} {n : Nat}
    (hfits : ∀ i : Int, -((256 ^ n : Nat) : Int) ≤ 2 * i ∧ 2 * i < (256 ^ n : Nat) → w.fitsInt i)
    (hhead : ∀ i, w.intHead i = c :: toBE n (twos n i)) (s : Bytes) (hs : s.length = n) :
    ∃ d : Doc, d.Fits ∧ d.head = c :: s := by
  refine ⟨.int w (signed n (ofBE s)), hfits _ (signed_bounds n _), ?_⟩
  rw [Doc.head, hhead, twos_signed (ofBE_lt_of_length hs), ← eq_toBE hs]

theorem fitsInt_w8 {i : Int} (h : -((256 ^ 1 : Nat) : Int) ≤ 2 * i ∧ 2 * i < (256 ^ 1 : Nat)) :
    IntWidth.w8.fitsInt i := by
  simp only [IntWidth.fitsInt]
  omega

theorem fitsInt_w16 {i : Int} (h : -((256 ^ 2 : Nat) : Int) ≤ 2 * i ∧ 2 * i < (256 ^ 2 : Nat)) :
    IntWidth.w16.fitsInt i := by
  simp only [IntWidth.fitsInt]
  omega

theorem fitsInt_w32 {i : Int} (h : -((256 ^ 4 : Nat) : Int) ≤ 2 * i ∧ 2 * i < (256 ^ 4 : Nat)) :
    IntWidth.w32.fitsInt i := by
  simp only [IntWidth.fitsInt]
  omega

theorem fitsInt_w64 {i : Int} (h : -((256 ^ 8 : Nat) : Int) ≤ 2 * i ∧ 2 * i < (256 ^ 8 : Nat)) :
    IntWidth.w64.fitsInt i := by
  simp only [IntWidth.fitsInt]
  omega

theorem ext_head {w : ExtWidth} {n : Nat} (hfits : ∀ m, m = n → w.fits m) (hhead : ∀ m, w.head m = [c])
    (s : Bytes) (hs : s.length = n + 1) : ∃ d : Doc, d.Fits ∧ d.head = c :: s := by
  cases s with
  | nil => cases hs
  | cons type s =>
    refine ⟨.ext w type s, hfits _ (Nat.succ.inj hs), ?_⟩
    rw [Doc.head, hhead, List.singleton_append]

theorem str_head {w : StrWidth} {n : Nat} (hbound : w.bound = 256 ^ n) (hhead : ∀ m, w.head m = c :: toBE n m)
    (len : Nat) (s : Bytes) (hlen : len < 256 ^ n) (hs : s.length = len + 0) :
    ∃ d : Doc, d.Fits ∧ d.head = c :: (toBE n len ++ s) := by
  refine ⟨.str w s, ?_, ?_⟩
  · show s.length < w.bound
    rwa [hs, hbound]
  · rw [Doc.head, hhead, hs, List.cons_append]
    rfl

theorem bin_head {w : BinWidth} {n : Nat} (hbound : w.bound = 256 ^ n) (hhead : ∀ m, w.head m = c :: toBE n m)
    (len : Nat) (s : Bytes) (hlen : len < 256 ^ n) (hs : s.length = len + 0) :
    ∃ d : Doc, d.Fits ∧ d.head = c :: (toBE n len ++ s) := by
  refine ⟨.bin w s, ?_, ?_⟩
  · show s.length < w.bound
    rwa [hs, hbound]
  · rw [Doc.head, hhead, hs, List.cons_append]
    rfl

theorem sized_ext_head {w : ExtWidth} {n : Nat} (hfits : ∀ m, m < 256 ^ n → w.fits m)
    (hhead : ∀ m, w.head m = c :: toBE n m) (len : Nat) (s : Bytes) (hlen : len < 256 ^ n)
    (hs : s.length = len + 1) : ∃ d : Doc, d.Fits ∧ d.head = c :: (toBE n len ++ s) := by
  cases s with
  | nil => cases hs
  | cons type s =>
    obtain rfl : s.length = len := Nat.succ.inj hs
    exact ⟨.ext w type s, hfits _ hlen, by rw [Doc.head, hhead, List.cons_append]⟩

theorem array_head {w : SeqWidth} {len : Nat} (hlen : len < w.bound) :
    ∃ d : Doc, d.Fits ∧ d.head = w.arrayHead len := by
  refine ⟨.array w (List.replicate len .nil), ?_, ?_⟩
  · rwa [Doc.Fits, List.length_replicate]
  · rw [Doc.head, List.length_replicate]

theorem map_head {w : SeqWidth} {len : Nat} (hlen : len < w.bound) :
    ∃ d : Doc, d.Fits ∧ d.head = w.mapHead len := by
  refine ⟨.map w (List.replicate (2 * len) .nil), ?_, ?_⟩
  · rw [Doc.Fits, List.length_replicate]
    omega
  · rw [Doc.head, List.length_replicate, Nat.mul_div_cancel_left len (by decide)]

end Lead

/-! ## Rounds -/

/-- The lead byte begins a head that is whole. -/
def AtHead (c : UInt8) (bs : Bytes) : Prop := ∃ (d : Doc) (rest : Bytes), d.Fits ∧ c :: bs = d.head ++ rest

/-- What a round does behind a lead byte when the head is cut off: it returns 1, or it moves the cursor past the
end. Behind the lead byte of a map 16 it returns 0. -/
def Short (c : UInt8) (k : Int) (bs more : Bytes) (x : Except Fault CheckRound) : Prop :=
  (∃ data, x = .ok (.ret 1 data)) ∨ (∃ data room, x = .ok (.next k data room) ∧ room < 0) ∨
    c = 0xde ∧ bs.length < 2 ∧ x = .ok (.ret 0 (bs ++ more))

section Rounds

variable {c : UInt8} {k : Int} {bs more : Bytes}

/-- A lead byte that says how many bytes are behind it. -/
theorem plain_round {n : Nat} (hhint : mpParserHint c = n)
    (hdoc : ∀ s : Bytes, s.length = n → ∃ d : Doc, d.Fits ∧ d.head = c :: s) :
    AtHead c bs ∨ Short c k bs more (mpCheckHint (mpParserHint c) k (bs ++ more) bs.length) := by
  by_cases hn : n ≤ bs.length
  · obtain ⟨d, hfits, hhead⟩ := hdoc (bs.take n) (List.length_take_of_le hn)
    exact .inl ⟨d, bs.drop n, hfits, by rw [hhead, List.cons_append, List.take_append_drop]⟩
  · refine .inr (.inr (.inl ⟨(bs ++ more).drop n, (bs.length : Int) - n, ?_, by omega⟩))
    rw [hhint, mpCheckHint, if_pos (Int.natCast_nonneg n), Int.toNat_natCast]
    rfl

/-- The length behind a lead byte, if it is whole. -/
theorem mpCheckLength_whole {n x short : Nat} (h : n + x ≤ bs.length) {go : Nat → Except Fault CheckRound} :
    mpCheckLength n x short (bs ++ more) bs.length go = go (ofBE (bs.take n)) := by
  have hlen : (bs.take n).length = n := List.length_take_of_le (by omega)
  have hnumber : number Fault.oob n (bs ++ more) = .ok (ofBE (bs.take n), bs.drop n ++ more) := by
    refine number_eq_ok.mpr ⟨ofBE_lt_of_length hlen, ?_⟩
    rw [← eq_toBE hlen, ← List.append_assoc, List.take_append_drop]
  unfold mpCheckLength
  rw [if_neg (by omega), hnumber]

theorem mpCheckLength_short {n x short : Nat} (h : bs.length < n + x) {go : Nat → Except Fault CheckRound} :
    mpCheckLength n x short (bs ++ more) bs.length go = .ok (.ret short (bs ++ more)) := by
  unfold mpCheckLength
  rw [if_pos (by omega)]

/-- A lead byte with a length of `n` bytes behind it. -/
theorem sized_round {n x : Nat} (hhint : ∀ data room, mpCheckHint (mpParserHint c) k data room =
      mpCheckLength n x 1 data room fun len => mpCheckSkip k data room (len + n + x))
    (hdoc : ∀ (len : Nat) (s : Bytes), len < 256 ^ n → s.length = len + x →
      ∃ d : Doc, d.Fits ∧ d.head = c :: (toBE n len ++ s)) :
    AtHead c bs ∨ Short c k bs more (mpCheckHint (mpParserHint c) k (bs ++ more) bs.length) := by
  rw [hhint]
  by_cases hshort : bs.length < n + x
  · exact .inr (.inl ⟨_, mpCheckLength_short hshort⟩)
  have hlen : (bs.take n).length = n := List.length_take_of_le (by omega)
  rw [mpCheckLength_whole (by omega)]
  generalize hsize : ofBE (bs.take n) = size
  by_cases hfull : size + n + x ≤ bs.length
  · obtain ⟨d, hfits, hhead⟩ := hdoc size ((bs.drop n).take (size + x)) (hsize ▸ ofBE_lt_of_length hlen)
      (List.length_take_of_le (by rw [List.length_drop]; omega))
    refine .inl ⟨d, (bs.drop n).drop (size + x), hfits, ?_⟩
    rw [hhead, ← hsize, ← eq_toBE hlen, List.cons_append, List.append_assoc, List.take_append_drop,
      List.take_append_drop]
  · exact .inr (.inr (.inl ⟨_, _, rfl, by omega⟩))

/-- A lead byte with a count of `n` bytes behind it. -/
theorem counted_round {n short : Nat} {go : Nat → Bytes → Int → Except Fault CheckRound}
    (hhint : ∀ data room, mpCheckHint (mpParserHint c) k data room =
      mpCheckLength n 0 short data room fun len => go len data room)
    (hdoc : ∀ len < 256 ^ n, ∃ d : Doc, d.Fits ∧ d.head = c :: toBE n len)
    (hshort : short = 1 ∨ c = 0xde ∧ n = 2 ∧ short = 0) :
    AtHead c bs ∨ Short c k bs more (mpCheckHint (mpParserHint c) k (bs ++ more) bs.length) := by
  by_cases hn : n ≤ bs.length
  · have hlen : (bs.take n).length = n := List.length_take_of_le hn
    obtain ⟨d, hfits, hhead⟩ := hdoc _ (ofBE_lt_of_length hlen)
    exact .inl ⟨d, bs.drop n, hfits, by rw [hhead, ← eq_toBE hlen, List.cons_append, List.take_append_drop]⟩
  · have hround := (hhint (bs ++ more) bs.length).trans (mpCheckLength_short (x := 0) (by omega))
    rcases hshort with rfl | ⟨hc, rfl, rfl⟩
    · exact .inr (.inl ⟨_, hround⟩)
    · exact .inr (.inr (.inr ⟨hc, by omega, hround⟩))

theorem AtHead.of_single {d : Doc} (hfits : d.Fits) (hhead : d.head = [c]) : AtHead c bs :=
  ⟨d, bs, hfits, by rw [hhead, List.singleton_append]⟩

/-- The lead bytes that are not in a range of their own. -/
theorem lead_round : ∀ n < 32, AtHead (UInt8.ofNat (0xc0 + n)) bs ∨ Short (UInt8.ofNat (0xc0 + n)) k bs more
    (mpCheckHint (mpParserHint (UInt8.ofNat (0xc0 + n))) k (bs ++ more) bs.length)
  | 0, _ => .inl (.of_single (d := .nil) trivial rfl)
  | 1, _ => .inl (.of_single (d := .unused) trivial rfl)
  | 2, _ => .inl (.of_single (d := .bool false) trivial rfl)
  | 3, _ => .inl (.of_single (d := .bool true) trivial rfl)
  | 4, _ => sized_round (fun _ _ => rfl) (bin_head (w := .w8) rfl fun _ => rfl)
  | 5, _ => sized_round (fun _ _ => rfl) (bin_head (w := .w16) rfl fun _ => rfl)
  | 6, _ => sized_round (fun _ _ => rfl) (bin_head (w := .w32) rfl fun _ => rfl)
  | 7, _ => sized_round (fun _ _ => rfl) (sized_ext_head (w := .w8) (fun _ h => h) fun _ => rfl)
  | 8, _ => sized_round (fun _ _ => rfl) (sized_ext_head (w := .w16) (fun _ h => h) fun _ => rfl)
  | 9, _ => sized_round (fun _ _ => rfl) (sized_ext_head (w := .w32) (fun _ h => h) fun _ => rfl)
  | 10, _ => plain_round (n := 4) rfl fun s hs =>
    ⟨.float (ofBE s), ofBE_lt_of_length hs, congrArg _ (eq_toBE hs).symm⟩
  | 11, _ => plain_round (n := 8) rfl fun s hs =>
    ⟨.double (ofBE s), ofBE_lt_of_length hs, congrArg _ (eq_toBE hs).symm⟩
  | 12, _ => plain_round rfl (uint_head (w := .w8) (n := 1) rfl fun _ => rfl)
  | 13, _ => plain_round rfl (uint_head (w := .w16) (n := 2) rfl fun _ => rfl)
  | 14, _ => plain_round rfl (uint_head (w := .w32) (n := 4) rfl fun _ => rfl)
  | 15, _ => plain_round rfl (uint_head (w := .w64) (n := 8) rfl fun _ => rfl)
  | 16, _ => plain_round rfl (int_head (w := .w8) (n := 1) (fun _ h => fitsInt_w8 h) fun _ => rfl)
  | 17, _ => plain_round rfl (int_head (w := .w16) (n := 2) (fun _ h => fitsInt_w16 h) fun _ => rfl)
  | 18, _ => plain_round rfl (int_head (w := .w32) (n := 4) (fun _ h => fitsInt_w32 h) fun _ => rfl)
  | 19, _ => plain_round rfl (int_head (w := .w64) (n := 8) (fun _ h => fitsInt_w64 h) fun _ => rfl)
  | 20, _ => plain_round rfl (ext_head (w := .fix1) (fun _ h => h) fun _ => rfl)
  | 21, _ => plain_round rfl (ext_head (w := .fix2) (fun _ h => h) fun _ => rfl)
  | 22, _ => plain_round rfl (ext_head (w := .fix4) (fun _ h => h) fun _ => rfl)
  | 23, _ => plain_round rfl (ext_head (w := .fix8) (fun _ h => h) fun _ => rfl)
  | 24, _ => plain_round rfl (ext_head (w := .fix16) (fun _ h => h) fun _ => rfl)
  | 25, _ => sized_round (fun _ _ => rfl) (str_head (w := .w8) rfl fun _ => rfl)
  | 26, _ => sized_round (fun _ _ => rfl) (str_head (w := .w16) rfl fun _ => rfl)
  | 27, _ => sized_round (fun _ _ => rfl) (str_head (w := .w32) rfl fun _ => rfl)
  | 28, _ => counted_round (n := 2) (fun _ _ => rfl) (fun _ h => array_head (w := .w16) h) (.inl rfl)
  | 29, _ => counted_round (n := 4) (fun _ _ => rfl) (fun _ h => array_head (w := .w32) h) (.inl rfl)
  | 30, _ => counted_round (n := 2) (fun _ _ => rfl) (fun _ h => map_head (w := .w16) h) (.inr ⟨rfl, rfl, rfl⟩)
  | 31, _ => counted_round (n := 4) (fun _ _ => rfl) (fun _ h => map_head (w := .w32) h) (.inl rfl)
  | n + 32, h => absurd h (by omega)

/-- There is a head behind every lead byte, or the round is short. -/
theorem round_cases (c : UInt8) (k : Int) (bs more : Bytes) :
    AtHead c bs ∨ Short c k bs more (mpCheckHint (mpParserHint c) k (bs ++ more) bs.length) := by
  obtain ⟨n, hn, rfl⟩ : ∃ n < 256, c = UInt8.ofNat n := ⟨c.toNat, c.toNat_lt, UInt8.ofNat_toNat.symm⟩
  rcases Nat.lt_or_ge n 0x80 with h | h
  · exact .inl (.of_single (d := .uint .fix n) h rfl)
  rcases Nat.lt_or_ge n 0x90 with h' | h'
  · obtain ⟨m, rfl⟩ := Nat.exists_eq_add_of_le h
    obtain ⟨d, hfits, hhead⟩ := @map_head .fix m (show m < 16 by omega)
    exact .inl (.of_single hfits hhead)
  rcases Nat.lt_or_ge n 0xa0 with h | h
  · obtain ⟨m, rfl⟩ := Nat.exists_eq_add_of_le h'
    obtain ⟨d, hfits, hhead⟩ := @array_head .fix m (show m < 16 by omega)
    exact .inl (.of_single hfits hhead)
  rcases Nat.lt_or_ge n 0xc0 with h' | h'
  · obtain ⟨m, rfl⟩ := Nat.exists_eq_add_of_le h
    have hm : m < 32 := by omega
    refine plain_round (fixStr_hint m hm) fun s hs => ⟨.str .fix s, ?_, by rw [← hs]; rfl⟩
    show s.length < 32
    rwa [hs]
  rcases Nat.lt_or_ge n 0xe0 with h | h
  · obtain ⟨m, rfl⟩ := Nat.exists_eq_add_of_le h'
    exact lead_round m (by omega)
  · obtain ⟨m, rfl⟩ := Nat.exists_eq_add_of_le h
    have hm : m < 32 := by omega
    refine .inl (.of_single (d := .int .fix ((m : Int) - 32)) (show -32 ≤ _ ∧ _ < 0 by omega) ?_)
    exact congrArg (fun i => [UInt8.ofNat i]) (show (((m : Int) - 32) % (256 ^ 1 : Nat)).toNat = 0xe0 + m by omega)

end Rounds

/-! ## The loop -/

/-- Behind a head its items are to come instead of it. -/
theorem countHead_pends {d : Doc} {k : Nat} (hk : k + d.items.length < 2 ^ 31 - 1) :
    countHead d (k + 1 : Nat) = .ok ((k + d.items.length : Nat) + 1) := by
  rw [countHead_eq (by omega) (by simp only [intMax]; omega)]
  exact congrArg Except.ok (by omega)

/-- The round at a head that is whole, while an `int` counts the documents to come. -/
theorem mpCheckLoop_head {d : Doc} (hfits : d.Fits) {fuel k : Nat} (hk : k + d.items.length < 2 ^ 31 - 1)
    (rest more : Bytes) :
    mpCheckLoop (fuel + 1) (k + 1 : Nat) (d.head ++ rest ++ more) (d.head ++ rest).length =
      mpCheckLoop fuel (k + d.items.length : Nat) (rest ++ more) rest.length := by
  have hroom : (d.head.length : Int) ≤ (d.head ++ rest).length := by simp
  have hleft : ((d.head ++ rest).length : Int) - d.head.length = rest.length := by
    rw [List.length_append]
    omega
  rw [List.append_assoc, mpCheckLoop, if_pos (by omega),
    mpCheckBody_head hfits (by simp only [intMax]; omega) (by simp only [intMin]; omega) hroom,
    countHead_pends hk, hleft]
  simp only [Except.map, bind, Except.bind, Int.add_sub_cancel]
  rw [signedInt_eq (by simp only [intMin]; omega) (by simp only [intMax]; omega)]

/-- The rounds at a head that is cut off. -/
theorem mpCheckLoop_short {c : UInt8} {bs more : Bytes} {fuel k : Nat} (hk : k < 2 ^ 31 - 1)
    (h : Short c (k + 1 : Nat) bs more (mpCheckHint (mpParserHint c) (k + 1 : Nat) (bs ++ more) bs.length)) :
    (∃ t, mpCheckLoop (fuel + 2) (k + 1 : Nat) (c :: bs ++ more) (c :: bs).length = .ok (1, t)) ∨
      c = 0xde ∧ bs.length < 2 ∧
        mpCheckLoop (fuel + 2) (k + 1 : Nat) (c :: bs ++ more) (c :: bs).length = .ok (0, bs ++ more) := by
  have hbody : mpCheckBody (k + 1 : Nat) (c :: bs ++ more) (c :: bs).length =
      mpCheckHint (mpParserHint c) (k + 1 : Nat) (bs ++ more) bs.length := by
    have hleft : ((c :: bs).length : Int) - 1 = bs.length := by simp
    rw [List.cons_append, mpCheckBody_cons (by simp), hleft]
  rw [mpCheckLoop, if_pos (by omega), hbody]
  rcases h with ⟨data, h⟩ | ⟨data, room, h, hroom⟩ | ⟨hc, hbs, h⟩
  · rw [h]
    exact .inl ⟨data, rfl⟩
  · -- the cursor is past the end, which the next round sees, or the test after the loop
    rw [h]
    have hnext : ((k + 1 : Nat) : Int) - 1 = k := by omega
    simp only [bind, Except.bind, hnext]
    rw [signedInt_eq (by simp only [intMin]; omega) (by simp only [intMax]; omega)]
    refine .inl ⟨data, ?_⟩
    show mpCheckLoop (fuel + 1) k data room = _
    by_cases hpos : (k : Int) > 0
    · rw [mpCheckLoop, if_pos hpos]
      unfold mpCheckBody
      rw [if_pos (by omega)]
      rfl
    · rw [mpCheckLoop, if_neg hpos, if_pos hroom]
      rfl
  · rw [h]
    exact .inr ⟨hc, hbs, rfl⟩

/-- A map 16 head that is cut off behind its lead byte, where documents are to come. -/
def CutMap (k : Nat) (b t : Bytes) : Prop := ∃ k', Pends k b (k' + 1) (0xde :: t) ∧ t.length < 2

/-- The loop reads the heads that can be read. -/
theorem mpCheckLoop_pends {k k' : Nat} {b b' : Bytes} (h : Pends k b k' b')
    (hfew : ∀ j rest, Pends k b j rest → j < 2 ^ 31 - 1) (more : Bytes) {fuel : Nat} (hfuel : b.length + 2 ≤ fuel) :
    ∃ fuel', b'.length + 2 ≤ fuel' ∧
      mpCheckLoop fuel k (b ++ more) b.length = mpCheckLoop fuel' k' (b' ++ more) b'.length := by
  induction h generalizing fuel with
  | refl => exact ⟨fuel, hfuel, rfl⟩
  | @head k _ d rest _ hfits _ ih =>
    have hpos := d.head_length_pos
    rw [List.length_append] at hfuel
    obtain ⟨fuel, rfl⟩ : ∃ n, fuel = n + 1 := ⟨fuel - 1, by omega⟩
    obtain ⟨fuel', hfuel', hloop⟩ := @ih (fun j rest' hrest => hfew j rest' (.head hfits hrest)) fuel (by omega)
    refine ⟨fuel', hfuel', ?_⟩
    rw [mpCheckLoop_head hfits (hfew _ _ (.head hfits .refl)), hloop]

/-- Where no documents are to come the loop ends. -/
theorem mpCheckLoop_done {b more : Bytes} {fuel : Nat} (hfuel : b.length + 2 ≤ fuel) :
    mpCheckLoop fuel (0 : Nat) (b ++ more) b.length = .ok (0, b ++ more) := by
  obtain ⟨fuel, rfl⟩ : ∃ n, fuel = n + 1 := ⟨fuel - 1, by omega⟩
  rw [mpCheckLoop, if_neg (by simp), if_neg (by omega)]
  rfl

/-- At a map 16 head that is cut off the loop ends as if there were no documents to come. -/
theorem mpCheckLoop_cut {k : Nat} {t more : Bytes} (ht : t.length < 2) {fuel : Nat} (hfuel : 2 ≤ fuel) :
    mpCheckLoop fuel (k + 1 : Nat) (0xde :: t ++ more) (0xde :: t).length = .ok (0, t ++ more) := by
  obtain ⟨fuel, rfl⟩ : ∃ n, fuel = n + 1 := ⟨fuel - 1, by omega⟩
  have hleft : ((0xde :: t).length : Int) - 1 = t.length := by simp
  have hround : mpCheckBody (k + 1 : Nat) (0xde :: t ++ more) (0xde :: t).length = .ok (.ret 0 (t ++ more)) := by
    rw [List.cons_append, mpCheckBody_cons (by simp), hleft]
    exact mpCheckLength_short (x := 0) (by omega)
  rw [mpCheckLoop, if_pos (by omega), hround]
  rfl

/-- Heads can be read until no documents are to come, or nothing is ahead, or a head is cut off. -/
theorem pends_progress (k : Nat) (b more : Bytes) : ∃ k' b', Pends k b k' b' ∧ (k' = 0 ∨ b' = [] ∨
    ∃ j c bs, k' = j + 1 ∧ b' = c :: bs ∧
      Short c (j + 1 : Nat) bs more (mpCheckHint (mpParserHint c) (j + 1 : Nat) (bs ++ more) bs.length)) := by
  induction hn : b.length using Nat.strong_induction_on generalizing k b with
  | _ n ih =>
    rcases k with _ | j
    · exact ⟨0, b, .refl, .inl rfl⟩
    rcases b with _ | ⟨c, bs⟩
    · exact ⟨j + 1, [], .refl, .inr (.inl rfl)⟩
    rcases round_cases c (j + 1 : Nat) bs more with ⟨d, rest, hfits, heq⟩ | hshort
    · have hpos := d.head_length_pos
      rw [heq, List.length_append] at hn
      obtain ⟨k', b', hpends, hstop⟩ := ih rest.length (by omega) (j + d.items.length) rest rfl
      exact ⟨k', b', heq ▸ .head hfits hpends, hstop⟩
    · exact ⟨j + 1, c :: bs, .refl, .inr (.inr ⟨j, c, bs, rfl, rfl, hshort⟩)⟩

/-- The loop ends, with 0 only where the documents end or a map 16 head is cut off. -/
theorem mpCheckLoop_ends {k : Nat} {b : Bytes} (hfew : ∀ j rest, Pends k b j rest → j < 2 ^ 31 - 1)
    (more : Bytes) {fuel : Nat} (hfuel : b.length + 2 ≤ fuel) :
    (∃ t, (Pends k b 0 t ∨ CutMap k b t) ∧ mpCheckLoop fuel k (b ++ more) b.length = .ok (0, t ++ more)) ∨
      ∃ t, mpCheckLoop fuel k (b ++ more) b.length = .ok (1, t) := by
  obtain ⟨k', b', hpends, hstop⟩ := pends_progress k b more
  obtain ⟨fuel', hfuel', hloop⟩ := mpCheckLoop_pends hpends hfew more hfuel
  rw [hloop]
  rcases Nat.eq_zero_or_pos k' with rfl | hpos
  · exact .inl ⟨b', .inl hpends, mpCheckLoop_done hfuel'⟩
  obtain ⟨fuel', rfl⟩ : ∃ n, fuel' = n + 2 := ⟨fuel' - 2, by omega⟩
  rcases hstop with rfl | rfl | ⟨j, c, bs, rfl, rfl, hshort⟩
  · cases hpos
  · refine .inr ⟨[] ++ more, ?_⟩
    rw [mpCheckLoop, if_pos (by omega)]
    unfold mpCheckBody
    rw [if_pos (by simp)]
    rfl
  · rcases mpCheckLoop_short (Nat.lt_of_succ_lt (hfew _ _ hpends)) hshort with h | ⟨rfl, hbs, h⟩
    · exact .inr h
    · exact .inl ⟨bs, .inr ⟨j, hpends, hbs⟩, h⟩

/-- While an `int` counts the documents to come, `php_mp_check` ends, reads nothing behind the bytes it is for,
and accepts them exactly when they begin with a document, with its cursor at the end of that; or when they end
behind the lead byte of a map 16 that is to come. -/
theorem phpMpCheck_accepts {b : Bytes} (hfew : ∀ j rest, Pends 1 b j rest → j < 2 ^ 31 - 1) (more : Bytes) :
    (∃ status t, phpMpCheck (b ++ more) b.length = .ok (status, t)) ∧
    ∀ t, phpMpCheck (b ++ more) b.length = .ok (0, t) ↔
      ∃ rest, t = rest ++ more ∧ ((∃ d : Doc, d.WF ∧ b = d.encode ++ rest) ∨ CutMap 1 b rest) := by
  have hends := mpCheckLoop_ends hfew more (Nat.le_refl (b.length + 2))
  refine ⟨?_, fun t => ⟨fun h => ?_, ?_⟩⟩
  · rcases hends with ⟨t, -, h⟩ | ⟨t, h⟩
    · exact ⟨0, t ++ more, h⟩
    · exact ⟨1, t, h⟩
  · rcases hends with ⟨rest, hrest, h'⟩ | ⟨t', h'⟩
    · have heq := (Prod.mk.inj (Except.ok.inj (h.symm.trans h'))).2
      exact ⟨rest, heq, hrest.imp_left pends_one_iff.mp⟩
    · cases h.symm.trans h'
  · rintro ⟨rest, rfl, hdoc | ⟨k', hpends, hrest⟩⟩
    · obtain ⟨fuel, hfuel, hloop⟩ := mpCheckLoop_pends (pends_one_iff.mpr hdoc) hfew more (Nat.le_refl _)
      exact hloop.trans (mpCheckLoop_done hfuel)
    · obtain ⟨fuel, hfuel, hloop⟩ := mpCheckLoop_pends hpends hfew more (Nat.le_refl _)
      exact hloop.trans (mpCheckLoop_cut hrest (by omega))

theorem phpMpCheck_accepts_pair :
    (∃ status t, phpMpCheck ([0x92, 0xc0, 0x05] ++ [0xc1]) 3 = .ok (status, t)) ∧
    ∀ t, phpMpCheck ([0x92, 0xc0, 0x05] ++ [0xc1]) 3 = .ok (0, t) ↔ ∃ rest, t = rest ++ [0xc1] ∧
      ((∃ d : Doc, d.WF ∧ [0x92, 0xc0, 0x05] = d.encode ++ rest) ∨ CutMap 1 [0x92, 0xc0, 0x05] rest) := by
  refine phpMpCheck_accepts (b := [0x92, 0xc0, 0x05]) (fun j rest h => ?_) [0xc1]
  have hle := pends_le h (by decide) (by decide)
  simp only [List.length_cons, List.length_nil] at hle
  omega

/-! ## Skipping -/

/-- The loop of `mp_next` goes over the heads that can be read. -/
theorem mpNextLoop_pends {k k' : Nat} {b b' : Bytes} (h : Pends k b k' b')
    (hfew : ∀ j rest, Pends k b j rest → j < 2 ^ 31 - 1) {fuel : Nat} (hfuel : b.length + 2 ≤ fuel) :
    ∃ fuel', b'.length + 2 ≤ fuel' ∧ mpNextLoop fuel k b = mpNextLoop fuel' k' b' := by
  induction h generalizing fuel with
  | refl => exact ⟨fuel, hfuel, rfl⟩
  | @head k _ d rest _ hfits _ ih =>
    have hpos := d.head_length_pos
    have hk := hfew _ _ (.head hfits .refl)
    rw [List.length_append] at hfuel
    obtain ⟨fuel, rfl⟩ : ∃ n, fuel = n + 1 := ⟨fuel - 1, by omega⟩
    obtain ⟨fuel', hfuel', hloop⟩ := @ih (fun j rest' hrest => hfew j rest' (.head hfits hrest)) fuel (by omega)
    refine ⟨fuel', hfuel', ?_⟩
    rw [mpNextLoop, if_pos (by omega),
      mpNextBody_head hfits (by simp only [intMax]; omega) (by simp only [intMin]; omega),
      countHead_pends hk]
    simp only [Except.map, bind, Except.bind, Int.add_sub_cancel]
    rw [signedInt_eq (by simp only [intMin]; omega) (by simp only [intMax]; omega)]
    exact hloop

/-- At a head that is cut off `mp_next` leaves the memory. -/
theorem mpNextLoop_short {c : UInt8} {bs : Bytes} {fuel k : Nat}
    (h : Short c (k + 1 : Nat) bs [] (mpCheckHint (mpParserHint c) (k + 1 : Nat) (bs ++ []) bs.length)) :
    mpNextLoop (fuel + 1) (k + 1 : Nat) (c :: bs) = .error .oob := by
  have hbody : mpNextBody (k + 1 : Nat) (c :: bs) = .error .oob := by
    rw [List.append_nil] at h
    rcases h with ⟨data, h⟩ | ⟨data, room, h, hroom⟩ | ⟨-, -, h⟩
    · simp only [mpNextBody, h]
    · simp only [mpNextBody, h, if_pos hroom]
    · simp only [mpNextBody, h]
  rw [mpNextLoop, if_pos (by omega), hbody]
  rfl

/-- The loop of `mp_next` ends behind the documents, or it leaves the memory. -/
theorem mpNextLoop_ends {k : Nat} {b : Bytes} (hfew : ∀ j rest, Pends k b j rest → j < 2 ^ 31 - 1) {fuel : Nat}
    (hfuel : b.length + 2 ≤ fuel) :
    (∃ t, Pends k b 0 t ∧ mpNextLoop fuel k b = .ok t) ∨ mpNextLoop fuel k b = .error .oob := by
  obtain ⟨k', b', hpends, hstop⟩ := pends_progress k b []
  obtain ⟨fuel', hfuel', hloop⟩ := mpNextLoop_pends hpends hfew hfuel
  obtain ⟨fuel', rfl⟩ : ∃ n, fuel' = n + 1 := ⟨fuel' - 1, by omega⟩
  rw [hloop]
  rcases Nat.eq_zero_or_pos k' with rfl | hpos
  · exact .inl ⟨b', hpends, rfl⟩
  rcases hstop with rfl | rfl | ⟨j, c, bs, rfl, rfl, hshort⟩
  · cases hpos
  · refine .inr ?_
    rw [mpNextLoop, if_pos (by omega)]
    rfl
  · exact .inr (mpNextLoop_short hshort)

/-- While an `int` counts the documents to come, `mp_next` goes over one document exactly, and leaves the memory
when there is none in front. -/
theorem mpNext_skips {b : Bytes} (hfew : ∀ j rest, Pends 1 b j rest → j < 2 ^ 31 - 1) :
    (∀ t, mpNext b = .ok t ↔ ∃ d : Doc, d.WF ∧ b = d.encode ++ t) ∧
      (mpNext b = .error .oob ↔ ¬ ∃ (d : Doc) (t : Bytes), d.WF ∧ b = d.encode ++ t) := by
  have hends := mpNextLoop_ends hfew (Nat.le_refl (b.length + 2))
  have hskips (t : Bytes) : mpNext b = .ok t ↔ ∃ d : Doc, d.WF ∧ b = d.encode ++ t := by
    rw [← pends_one_iff]
    refine ⟨fun h => ?_, fun h => ?_⟩
    · rcases hends with ⟨t', hpends, h'⟩ | h'
      · cases h.symm.trans h'
        exact hpends
      · cases h.symm.trans h'
    · obtain ⟨fuel, hfuel, hloop⟩ := mpNextLoop_pends h hfew (Nat.le_refl (b.length + 2))
      obtain ⟨fuel, rfl⟩ : ∃ n, fuel = n + 1 := ⟨fuel - 1, by omega⟩
      exact hloop
  refine ⟨hskips, fun h ⟨d, t, hdoc⟩ => ?_, fun hnone => ?_⟩
  · cases h.symm.trans ((hskips t).mpr ⟨d, hdoc⟩)
  · rcases hends with ⟨t, -, h⟩ | h
    · obtain ⟨d, hdoc⟩ := (hskips t).mp h
      exact absurd ⟨d, t, hdoc⟩ hnone
    · exact h

theorem mpNext_skips_pair :
    (∀ t, mpNext [0x92, 0xc0, 0x05, 0xc1] = .ok t ↔ ∃ d : Doc, d.WF ∧ [0x92, 0xc0, 0x05, 0xc1] = d.encode ++ t) ∧
      (mpNext [0x92, 0xc0, 0x05, 0xc1] = .error .oob ↔
        ¬ ∃ (d : Doc) (t : Bytes), d.WF ∧ [0x92, 0xc0, 0x05, 0xc1] = d.encode ++ t) := by
  refine mpNext_skips (b := [0x92, 0xc0, 0x05, 0xc1]) fun j rest h => ?_
  have hle := pends_le h (by decide) (by decide)
  simp only [List.length_cons, List.length_nil] at hle
  omega

end BeePhp
