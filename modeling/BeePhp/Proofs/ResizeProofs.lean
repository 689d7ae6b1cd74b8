import BeePhp.Proofs.MhashProofs

/-!
# Proofs: resizing

The list of primes, and what `mh_put`, `mh_del` and the resize they go on with do to a table.
-/

namespace BeePhp

open Probing

/-! ## The list of primes -/

/-- None of `m` odd numbers from 3 on divides `p`. -/
def noDivisor (p : Nat) : Nat → Bool
  | 0 => true
  | m + 1 => bif Nat.beq (p % (2 * m + 3)) 0 then false else noDivisor p m

theorem noDivisor_iff (p m : Nat) : noDivisor p m = true ↔ ∀ k < m, ¬2 * k + 3 ∣ p := by
  induction m with
  | zero => simp [noDivisor]
  | succ m ih =>
    rw [noDivisor, Bool.cond_eq_ite]
    constructor
    · intro h
      split at h
      · cases h
      case isFalse hm =>
        intro k hk hdvd
        rcases Nat.lt_succ_iff_lt_or_eq.mp hk with hk | rfl
        · exact ih.mp h k hk hdvd
        · exact hm (Nat.beq_eq ▸ Nat.mod_eq_zero_of_dvd hdvd)
    · intro h
      rw [if_neg fun hm => h m (Nat.lt_succ_self m) (Nat.dvd_of_mod_eq_zero (Nat.eq_of_beq_eq_true hm))]
      exact ih.mpr fun k hk => h k (Nat.lt_succ_of_lt hk)

/-- An odd number that no odd number up to its root divides. -/
theorem prime_of_noDivisor {p m : Nat} (hp : 2 ≤ p) (hodd : p % 2 = 1) (hm : p < (2 * m + 3) ^ 2)
    (h : noDivisor p m = true) : p.Prime := by
  rw [Nat.prime_def_le_sqrt]
  refine ⟨hp, fun k hk hsqrt hdvd => ?_⟩
  have hkp : k * k ≤ p := Nat.le_sqrt.mp hsqrt
  have hkodd : k % 2 = 1 := by
    by_contra heven
    have : 2 ∣ p := (Nat.dvd_of_mod_eq_zero (by omega)).trans hdvd
    omega
  have hlt : k < 2 * m + 3 := by
    by_contra hge
    have := Nat.mul_le_mul (Nat.not_lt.mp hge) (Nat.not_lt.mp hge)
    rw [pow_two] at hm
    omega
  refine (noDivisor_iff p m).mp h ((k - 3) / 2) (by omega) ?_
  rw [show 2 * ((k - 3) / 2) + 3 = k by omega]
  exact hdvd

/-- For each prime, how many odd numbers have to be tried. -/
def primeTrials : List Nat :=
  [0, 1, 1, 3, 4, 6, 9, 13, 19, 27, 38, 54, 77, 110, 156, 221, 313, 442, 626, 886, 1253, 1773, 2507, 3546, 5016,
    7093, 10032, 14188, 20065]

set_option maxRecDepth 25000 in
theorem primeList_tried : ((primeList.take 29).zip primeTrials).all (fun t => decide (3 ≤ t.1) &&
    decide (t.1 ≤ 2 ^ 31) && decide (t.1 % 2 = 1) && decide (t.1 < (2 * t.2 + 3) ^ 2) &&
    noDivisor t.1 t.2) = true := by
  decide +kernel

/-- The numbers of buckets for which the sum of two slots fits in `uint32_t` are primes. -/
theorem primeList_prime {i n : Nat} (hi : i ≤ 28) (h : primeList[i]? = some n) :
    n.Prime ∧ 3 ≤ n ∧ n ≤ 2 ^ 31 := by
  have hlt : i < primeTrials.length := Nat.lt_succ_of_le hi
  have hmem : (n, primeTrials[i]) ∈ (primeList.take 29).zip primeTrials := by
    refine List.mem_of_getElem? (i := i) ?_
    rw [List.getElem?_zip_eq_some]
    exact ⟨by rw [List.getElem?_take_of_lt (by omega), h], List.getElem?_eq_getElem hlt⟩
  have hall := List.all_eq_true.mp primeList_tried _ hmem
  simp only [Bool.and_eq_true, decide_eq_true_iff] at hall
  obtain ⟨⟨⟨⟨hthree, hsmall⟩, hodd⟩, htrials⟩, hdiv⟩ := hall
  exact ⟨prime_of_noDivisor (by omega) hodd htrials hdiv, hthree, hsmall⟩

/-- The next prime leaves room for what is put into a table while it is resized. -/
theorem primeList_wide : ∀ i < 28, density (primeList.getD i 0) + 2 * (primeList.getD i 0 / 256) + 2 <
    density (primeList.getD (i + 1) 0) := by
  decide

theorem nextPrime_primeList : ∀ i < 30, nextPrime (primeList.getD i 0 + 1) i = i + 1 := by
  decide

variable {κ ν : Type} [DecidableEq κ] {d : Hashed κ ν}

/-! ## Moving nodes to the shadow -/

namespace Buckets

variable {h s : Buckets ν} {i c : Nat}

omit [DecidableEq κ] in
theorem Moves.room (hm : h.Moves d s i c) (hc : 256 * c ≤ h.nBuckets) :
    s.nDirty + h.slots.held i h.nBuckets + 2 < s.upperBound ∧ s.upperBound < s.nBuckets := by
  have hd := hm.nDirty
  have hw := hm.wide
  have hthree := hm.ok.three_le
  rw [hm.upperBound]
  refine ⟨by omega, ?_⟩
  unfold density
  omega

omit [DecidableEq κ] in
/-- A slot without a node. -/
theorem Moves.skip (hm : h.Moves d s i c) (hi : i < h.nBuckets) (hnode : h.node i = none) :
    h.Moves d s (i + 1) c :=
  { hm with
    le := hi
    moved := by
      intro j hj v hv
      rcases Nat.lt_succ_iff_lt_or_eq.mp hj with hj | rfl
      · exact hm.moved j hj v hv
      · rw [hnode] at hv
        cases hv
    nDirty := by
      have hheld := Slots.held_succ (s := h.slots) hi
      have hd := hm.nDirty
      omega }

omit [DecidableEq κ] in
/-- A slot with a node, which is stored in the shadow. -/
theorem Moves.move (hh : h.Ok d) (hm : h.Moves d s i c) (hi : i < h.nBuckets) {v : ν}
    (hnode : h.node i = some v) {s' : Buckets ν} {x : Nat} (hs : s.Stores d s' v x) (hok : s'.Ok d)
    (hdirty : s'.nDirty ≤ s.nDirty + 1) : h.Moves d s' (i + 1) c where
  le := hi
  ok := hok
  sub w hw := by
    rcases (hs.holds w).mp hw with rfl | ⟨hw, -⟩
    · exact ⟨i, hnode⟩
    · exact hm.sub w hw
  moved j hj w hw := by
    rcases Nat.lt_succ_iff_lt_or_eq.mp hj with hj | rfl
    · refine (hs.holds w).mpr (.inr ⟨hm.moved j hj w hw, fun hkey => ?_⟩)
      exact Nat.ne_of_lt hj (hh.sound.unique hw hnode hkey)
    · exact (hs.holds w).mpr (.inl (Option.some.inj (hw.symm.trans hnode)))
  nDirty := by
    have hheld := Slots.held_succ (s := h.slots) hi
    have hsome : (h.slots.node i).isSome = true := Option.isSome_iff_exists.mpr ⟨v, hnode⟩
    rw [if_pos hsome] at hheld
    have hd := hm.nDirty
    omega
  upperBound := by rw [hs.upperBound, hs.nBuckets, hm.upperBound]
  wide := by rw [hs.nBuckets]; exact hm.wide

/-- The loop of `mh_resize` moves a batch of slots, or all that are left. -/
theorem resizeLoop_moves (hh : h.Ok d) (hc : 256 * c ≤ h.nBuckets) (batch : Nat) (hm : h.Moves d s i c) :
    ∃ s', resizeLoop d h batch i s = .ok (s', min (i + batch) h.nBuckets) ∧
      h.Moves d s' (min (i + batch) h.nBuckets) c ∧ s'.nBuckets = s.nBuckets ∧ s'.prime = s.prime ∧
      s'.size = s.size := by
  induction batch generalizing s i with
  | zero =>
    have hmin : min (i + 0) h.nBuckets = i := Nat.min_eq_left hm.le
    rw [hmin]
    exact ⟨s, rfl, hm, rfl, rfl, rfl⟩
  | succ batch ih =>
    unfold resizeLoop
    by_cases hi : i < h.nBuckets
    · have hmin : min (i + (batch + 1)) h.nBuckets = min (i + 1 + batch) h.nBuckets := by
        rw [Nat.add_assoc, Nat.add_comm 1 batch]
      rw [if_pos hi, hmin]
      cases hnode : h.node i with
      | none => exact ih (hm.skip hi hnode)
      | some v =>
        obtain ⟨s₁, x, hslot, hf⟩ := mhPutSlot_finds hm.ok v
        have hroom := hm.room hc
        have hcount : s₁.nDirty = s.nDirty := by rw [hf.marks.eq]
        have hm' := hm.move hh hi hnode (hf.stores hm.ok s₁.size (s₁.nDirty + 1))
          (hf.ok hm.ok (by split <;> omega) (by omega)) (by rw [← hcount])
        obtain ⟨s', hloop, hmoves, hn, hp, hsize⟩ := ih hm'
        simp only [hslot, bind, Except.bind]
        refine ⟨s', hloop, hmoves, ?_, ?_, ?_⟩
        · exact hn.trans hf.marks.nBuckets
        · rw [hp, hf.marks.eq]
          rfl
        · rw [hsize, hf.marks.eq]
    · have hmin : min (i + (batch + 1)) h.nBuckets = i := by
        have := hm.le
        omega
      rw [if_neg hi, hmin]
      exact ⟨s, rfl, hm, rfl, rfl, rfl⟩

omit [DecidableEq κ] in
theorem Ok.setSize (hh : h.Ok d) (size : Nat) : ({ h with size := size } : Buckets ν).Ok d :=
  ⟨hh.has, hh.lt, hh.prime, hh.three_le, hh.small, hh.sound, hh.used, hh.room⟩

omit [DecidableEq κ] in
theorem Ok.setPrime (hh : h.Ok d) (prime : Nat) : ({ h with prime := prime } : Buckets ν).Ok d :=
  ⟨hh.has, hh.lt, hh.prime, hh.three_le, hh.small, hh.sound, hh.used, hh.room⟩

omit [DecidableEq κ] in
/-- Once all slots have been moved the shadow holds what the table holds. -/
theorem Moves.holds (hh : h.Ok d) (hm : h.Moves d s h.nBuckets c) (v : ν) :
    s.slots.Holds v ↔ h.slots.Holds v := by
  refine ⟨hm.sub v, fun hv => ?_⟩
  obtain ⟨j, hj⟩ := hv
  exact hm.moved j (hh.lt _ _ hj) v hj

end Buckets

namespace Mhash

variable {h h' : Mhash ν} {c : Nat}

/-- The nodes are the same, and counted. -/
structure Same (d : Hashed κ ν) (h h' : Mhash ν) : Prop where
  buckets : h'.toBuckets.Ok d
  size : h'.size = h'.slots.held 0 h'.nBuckets
  holds : ∀ v, h'.Holds v ↔ h.Holds v

/-- What `mh_resize` does: it goes on with the next batch, or the shadow takes over. -/
theorem mhResize_cases (hb : h.toBuckets.Ok d) (hsize : h.size = h.slots.held 0 h.nBuckets)
    (hr : h.Resizing d c) :
    (h.resizePosition + h.batch < h.nBuckets ∧ ∃ s,
      mhResize d h = .ok { h with resizePosition := h.resizePosition + h.batch, shadow := s } ∧
      Resizing d { h with resizePosition := h.resizePosition + h.batch, shadow := s } c ∧
      s.nBuckets = h.shadow.nBuckets) ∨
    (h.nBuckets ≤ h.resizePosition + h.batch ∧ ∃ h', mhResize d h = .ok h' ∧ h.Same d h' ∧ h'.Idle ∧
      h'.nDirty < h'.upperBound ∧ h'.nBuckets = h.shadow.nBuckets ∧ h'.prime = h.prime) := by
  have hc : 256 * c ≤ h.nBuckets := hr.calls.trans hr.moves.le
  obtain ⟨s, hloop, hm, hn, hp, hs⟩ := Buckets.resizeLoop_moves hb hc h.batch hr.moves
  unfold mhResize
  rw [hloop]
  simp only [bind, Except.bind]
  by_cases hlt : h.resizePosition + h.batch < h.nBuckets
  · have hmin : min (h.resizePosition + h.batch) h.nBuckets = h.resizePosition + h.batch :=
      Nat.min_eq_left (Nat.le_of_lt hlt)
    rw [hmin] at hm ⊢
    rw [if_pos hlt]
    refine .inl ⟨hlt, s, rfl, ⟨hm, ?_, hr.batch, hr.nDirty, ?_, ?_, ?_⟩, hn⟩
    · exact hr.calls.trans (Nat.le_add_right _ _)
    · exact hs.symm ▸ hr.size
    · exact hn.symm ▸ hr.ranked
    · exact hp.trans hr.prime
  · have hge : h.nBuckets ≤ h.resizePosition + h.batch := Nat.not_lt.mp hlt
    rw [Nat.min_eq_right hge] at hm ⊢
    rw [if_neg (Nat.lt_irrefl _)]
    have hroom := hm.room hc
    have hdirty : s.nDirty < s.upperBound := by omega
    have hholds := hm.holds hb
    have hheld : h.slots.held 0 h.nBuckets = s.slots.held 0 s.nBuckets :=
      Slots.held_eq_of_holds hb.sound hm.ok.sound hb.lt hm.ok.lt
        fun v => (hholds v).symm
    refine .inr ⟨hge, _, rfl, ⟨hm.ok.setSize h.size, hsize.trans hheld, hholds⟩,
      ⟨rfl, ?_, hm.upperBound, Nat.le_of_lt hdirty⟩, hdirty, hn, hp.trans hr.prime⟩
    show primeList[s.prime]? = some s.nBuckets
    rw [hp, hn, hr.prime]
    exact hr.ranked

/-! ## Starting a resize -/

omit [DecidableEq κ] in
theorem blank_node (n size prime i : Nat) : (Buckets.blank n size prime : Buckets ν).node i = none := by
  simp [Buckets.node, Buckets.exist, Buckets.blank]

omit [DecidableEq κ] in
theorem blank_ok {n : Nat} (hprime : n.Prime) (hthree : 3 ≤ n) (hsmall : n ≤ 2 ^ 31) (size prime : Nat) :
    (Buckets.blank n size prime : Buckets ν).Ok d where
  has i hi := Codec.Pages.has_blank none hi
  lt i v hv := absurd ((blank_node n size prime i).symm.trans hv) (Option.some_ne_none v).symm
  prime := hprime
  three_le := hthree
  small := hsmall
  sound := by
    constructor
    · intro i v hv
      exact absurd ((blank_node n size prime i).symm.trans hv) (Option.some_ne_none v).symm
    · intro i _ v _ hv
      exact absurd ((blank_node n size prime i).symm.trans hv) (Option.some_ne_none v).symm
  used := by
    refine Nat.le_of_eq (Finset.card_eq_zero.mpr (Finset.filter_eq_empty_iff.mpr fun i _ hu => ?_))
    rcases hu with hu | hu
    · rw [Buckets.slots_node, blank_node] at hu
      cases hu
    · simp [Buckets.dirty, Buckets.blank] at hu
  room := by
    show 0 < n
    omega

/-- A resize is only started from a table for which there is a larger prime below 2^31. -/
def CanGrow (h : Mhash ν) : Prop := h.resizePosition = 0 → h.upperBound ≤ h.nDirty → h.prime < 28

/-- A table into which one more node may be put. -/
inductive Ready (d : Hashed κ ν) (h : Mhash ν) : Prop where
  | idle (hi : h.Idle) (hlt : h.nDirty < h.upperBound)
  | resizing (c : Nat) (hr : h.Resizing d c) (hcalls : 256 * (c + 1) ≤ h.resizePosition)
      (hlt : h.resizePosition < h.nBuckets)

omit [DecidableEq κ] in
theorem Ok.same (hh : h.Ok d) : h.Same d h := ⟨hh.buckets, hh.size, fun _ => Iff.rfl⟩

/-- After a resize has gone on a node may be put. -/
theorem mhResize_ready (hb : h.toBuckets.Ok d) (hsize : h.size = h.slots.held 0 h.nBuckets)
    (hr : h.Resizing d c) : ∃ h', mhResize d h = .ok h' ∧ h.Same d h' ∧ h'.Ready d := by
  rcases mhResize_cases hb hsize hr with ⟨hlt, s, hrun, hr', -⟩ | ⟨-, h', hrun, hsame, hidle, hlt, -⟩
  · have hcalls := hr.calls
    have hbatch := hr.batch
    refine ⟨_, hrun, ⟨hb, hsize, fun _ => Iff.rfl⟩, .resizing c hr' ?_ hlt⟩
    show 256 * (c + 1) ≤ h.resizePosition + h.batch
    omega
  · exact ⟨h', hrun, hsame, .idle hidle hlt⟩

omit [DecidableEq κ] in
/-- The table with which a resize begins. -/
theorem start_resizing (hb : h.toBuckets.Ok d) (hsize : h.size = h.slots.held 0 h.nBuckets) (hi : h.Idle)
    (hfull : h.upperBound ≤ h.nDirty) (hroom : h.prime < 28) {n : Nat} (hn : primeList[h.prime + 1]? = some n)
    {batch : Nat} (hbatch : 256 ≤ batch) :
    Resizing d { h with
      prime := h.prime + 1, batch := batch, shadow := .blank n h.size (h.prime + 1) } 0 := by
  obtain ⟨hprime, hthree, hsmall⟩ := primeList_prime (by omega) hn
  have hupper := hi.upperBound
  have hdirty := hi.nDirty
  have hheld := Slots.held_le_used h.slots h.nBuckets
  have hused := hb.used
  have hwide := primeList_wide h.prime hroom
  rw [List.getD_eq_getElem?_getD, List.getD_eq_getElem?_getD, hi.ranked, hn] at hwide
  refine ⟨⟨?_, blank_ok hprime hthree hsmall _ _, ?_, ?_, ?_, rfl, hwide⟩, Nat.zero_le _, hbatch, ?_, ?_, hn, rfl⟩
  · show h.resizePosition ≤ h.nBuckets
    rw [hi.position]
    exact Nat.zero_le _
  · rintro v ⟨i, hv⟩
    exact absurd ((blank_node n h.size _ i).symm.trans hv) (Option.some_ne_none v).symm
  · intro j hj
    have hj : j < h.resizePosition := hj
    rw [hi.position] at hj
    exact absurd hj (Nat.not_lt_zero j)
  · show 0 + h.slots.held h.resizePosition h.nBuckets ≤ density h.nBuckets + 2 * 0
    rw [hi.position]
    omega
  · show h.nDirty ≤ density h.nBuckets + 0
    omega
  · show h.size ≤ density h.nBuckets + 0
    omega

/-- Before a node is put the table grows if it has to. -/
theorem mhGrow_ready (hh : h.Ok d) (hroom : h.CanGrow) :
    ∃ h', mhGrow d h = .ok h' ∧ h.Same d h' ∧ h'.Ready d := by
  unfold mhGrow
  rcases hh.state with hi | ⟨c, hr, hpos, -⟩
  · rw [if_neg (by rw [hi.position]; exact Nat.lt_irrefl 0)]
    by_cases hfull : h.nDirty ≥ h.upperBound
    · have hprime : h.prime < 28 := hroom hi.position hfull
      have hnext := nextPrime_primeList h.prime (by omega)
      rw [List.getD_eq_getElem?_getD, hi.ranked, Option.getD_some] at hnext
      obtain ⟨n, hn⟩ : ∃ n, primeList[h.prime + 1]? = some n :=
        ⟨_, List.getElem?_eq_getElem (show h.prime + 1 < 31 by omega)⟩
      have hr := start_resizing hh.buckets hh.size hi hfull hprime hn
        (Nat.le_max_left 256 (h.nBuckets / (256 * 1024)))
      rw [if_pos hfull]
      unfold mhStartResize
      simp only [hnext, hn]
      obtain ⟨h', hrun, hsame, hready⟩ := mhResize_ready (h := { h with
        prime := h.prime + 1, batch := _, shadow := _ }) (hh.buckets.setPrime _) hh.size hr
      exact ⟨h', hrun, ⟨hsame.buckets, hsame.size, hsame.holds⟩, hready⟩
    · rw [if_neg hfull]
      exact ⟨h, rfl, hh.same, .idle hi (Nat.lt_of_not_le hfull)⟩
  · rw [if_pos hpos]
    exact mhResize_ready hh.buckets hh.size hr

/-! ## mh_put -/

omit [DecidableEq κ] in
/-- There is a free element in the table. -/
theorem Ok.size_ne (hh : h.Ok d) : h.size ≠ h.nBuckets := by
  have hheld := Slots.held_le_used h.slots h.nBuckets
  have hused := hh.buckets.used
  have hlt := hh.buckets.room
  have hsize := hh.size
  omega

omit [DecidableEq κ] in
theorem Ready.room (hb : h.toBuckets.Ok d) (hr : h.Ready d) : h.nDirty + 1 < h.nBuckets := by
  have hthree := hb.three_le
  cases hr with
  | idle hi hlt =>
    rw [hi.upperBound] at hlt
    unfold density at hlt
    omega
  | resizing c hr hcalls hlt =>
    have hdirty := hr.nDirty
    unfold density at hdirty
    omega

omit [DecidableEq κ] in
/-- The count of a table into which a node has been stored. -/
theorem stores_size {h h' : Buckets ν} {v : ν} {x : Nat} (hs : h.Stores d h' v x)
    (hsize : h.size = h.slots.held 0 h.nBuckets)
    (hsize' : h'.size = if (h.node x).isSome then h.size else h.size + 1) :
    h'.size = h'.slots.held 0 h'.nBuckets := by
  have hheld : h'.slots.held 0 h'.nBuckets = (h.slots.put x v).held 0 h.nBuckets := by
    rw [hs.nBuckets]
    exact Slots.held_congr (s := h.slots.put x v) (t := h'.slots) hs.node 0 h.nBuckets
  rw [hheld, hsize', hsize]
  by_cases hx : (h.node x).isSome = true
  · rw [if_pos hx, Slots.held_put hx]
  · rw [if_neg hx, Slots.held_put_succ (Nat.zero_le x) hs.lt (Option.not_isSome_iff_eq_none.mp hx)]

/-- The shadow takes a node. -/
theorem putShadow_stores (hr : h.Resizing d c) (v : ν) : ∃ s x, putShadow d h.shadow v = .ok s ∧
    h.shadow.Stores d s v x ∧ s.Ok d ∧ s.nDirty ≤ h.shadow.nDirty + 1 ∧ s.size ≤ h.shadow.size + 1 := by
  have hroom := hr.moves.room (hr.calls.trans hr.moves.le)
  have hupper := hr.moves.upperBound
  have hwide := hr.moves.wide
  have hsize := hr.size
  have hcalls := hr.calls
  have hle := hr.moves.le
  have hne : h.shadow.size ≠ h.shadow.nBuckets := by omega
  have hnot : ¬h.shadow.nDirty ≥ h.shadow.upperBound := by omega
  obtain ⟨s, x, hput, hs, hok, hdirty, hcount⟩ := Buckets.putNode_stores hr.moves.ok (by omega) v
  unfold putShadow
  rw [if_neg hne, if_neg hnot]
  refine ⟨s, x, hput, hs, hok, hdirty, ?_⟩
  rw [hcount]
  split <;> omega

omit [DecidableEq κ] in
/-- Both tables have taken a node. -/
theorem Resizing.stores (hr : h.Resizing d c) (hcalls : 256 * (c + 1) ≤ h.resizePosition) {v : ν}
    {b s : Buckets ν} {x y : Nat} (hb : h.toBuckets.Stores d b v x) (hdirty : b.nDirty ≤ h.nDirty + 1)
    (hs : h.shadow.Stores d s v y) (hok : s.Ok d) (hdirty' : s.nDirty ≤ h.shadow.nDirty + 1)
    (hsize : s.size ≤ h.shadow.size + 1) :
    Resizing d { h with toBuckets := b, shadow := s } (c + 1) := by
  have hheld : b.slots.held h.resizePosition h.nBuckets ≤ h.slots.held h.resizePosition h.nBuckets + 1 := by
    rw [Slots.held_congr (s := h.slots.put x v) (t := b.slots) hb.node]
    exact Slots.held_put_le
  have hold := hr.moves
  refine ⟨⟨?_, hok, fun w hw => ?_, fun j hj w hw => ?_, ?_, ?_, ?_⟩, hcalls, hr.batch, ?_, ?_, ?_, ?_⟩
  · exact hb.nBuckets.symm ▸ hold.le
  · refine (hb.holds w).mpr ?_
    rcases (hs.holds w).mp hw with rfl | ⟨hw, hkey⟩
    · exact .inl rfl
    · exact .inr ⟨hold.sub w hw, hkey⟩
  · have hw : b.node j = some w := hw
    rw [hb.node] at hw
    refine (hs.holds w).mpr ?_
    rcases Slots.node_put hw with ⟨-, rfl⟩ | ⟨hne, hw⟩
    · exact .inl rfl
    · exact .inr ⟨hold.moved j hj w hw, fun hkey => hne (hb.alone j w hw hkey)⟩
  · show s.nDirty + b.slots.held h.resizePosition b.nBuckets ≤ density b.nBuckets + 2 * (c + 1)
    have := hold.nDirty
    rw [hb.nBuckets]
    omega
  · rw [hs.upperBound, hs.nBuckets, hold.upperBound]
  · show density b.nBuckets + 2 * (b.nBuckets / 256) + 2 < density s.nBuckets
    rw [hb.nBuckets, hs.nBuckets]
    exact hold.wide
  · show b.nDirty ≤ density b.nBuckets + (c + 1)
    have := hr.nDirty
    rw [hb.nBuckets]
    omega
  · show s.size ≤ density b.nBuckets + (c + 1)
    have := hr.size
    rw [hb.nBuckets]
    omega
  · show primeList[b.prime]? = some s.nBuckets
    rw [hb.prime, hs.nBuckets]
    exact hr.ranked
  · exact hs.prime.trans (hr.prime.trans hb.prime.symm)

/-- `mh_put` replaces the node with the same key or adds one. -/
theorem mhPut_spec (hh : h.Ok d) (hroom : h.CanGrow) (v : ν) : ∃ h', mhPut d h v = .ok h' ∧ h'.Ok d ∧
    ∀ w, h'.Holds w ↔ w = v ∨ h.Holds w ∧ d.key w ≠ d.key v := by
  have hne := hh.size_ne
  obtain ⟨g, hgrow, hsame, hready⟩ := mhGrow_ready hh hroom
  have hroom' := hready.room hsame.buckets
  obtain ⟨b, x, hput, hb, hok, hdirty, hsize⟩ := Buckets.putNode_stores hsame.buckets hroom' v
  have hcount := stores_size hb hsame.size hsize
  have hholds : ∀ w, b.slots.Holds w ↔ w = v ∨ h.Holds w ∧ d.key w ≠ d.key v := by
    intro w
    rw [hb.holds w]
    exact or_congr_right (and_congr_left' (hsame.holds w))
  unfold mhPut
  rw [if_neg hne, hgrow]
  simp only [bind, Except.bind]
  unfold mhPutShadow
  cases hready with
  | idle hi hlt =>
    rw [if_neg (by rw [hi.position]; exact Nat.lt_irrefl 0)]
    simp only [hput]
    refine ⟨_, rfl, ⟨hok, hcount, .inl ⟨hi.position, ?_, ?_, ?_⟩⟩, hholds⟩
    · show primeList[b.prime]? = some b.nBuckets
      rw [hb.prime, hb.nBuckets]
      exact hi.ranked
    · show b.upperBound = density b.nBuckets
      rw [hb.upperBound, hb.nBuckets, hi.upperBound]
    · show b.nDirty ≤ b.upperBound
      rw [hb.upperBound]
      omega
  | resizing c hr hcalls hlt =>
    have hpos : g.resizePosition > 0 := by omega
    obtain ⟨s, y, hputs, hs, hoks, hdirtys, hsizes⟩ := putShadow_stores hr v
    rw [if_pos hpos]
    simp only [bind, Except.bind, hputs, pure, Except.pure, hput]
    refine ⟨_, rfl, ⟨hok, hcount, .inr ⟨c + 1, hr.stores hcalls hb hdirty hs hoks hdirtys hsizes, hpos, ?_⟩⟩, hholds⟩
    exact hb.nBuckets.symm ▸ hlt

/-! ## mh_del -/

/-- What `mh_del_resize` deletes from the shadow. -/
theorem delShadow_spec {s : Buckets ν} (hs : s.Ok d) (k : κ) : ∃ y, mhFind d s k = .ok y ∧
    let s' := if (s.node y).isSome then delNode s y else s
    s'.Ok d ∧ s'.nDirty ≤ s.nDirty ∧ s'.size ≤ s.size ∧ s'.nBuckets = s.nBuckets ∧
      s'.upperBound = s.upperBound ∧ s'.prime = s.prime ∧
      ∀ w, s'.slots.Holds w ↔ s.slots.Holds w ∧ d.key w ≠ k := by
  obtain ⟨y, hfind, hfound⟩ := Buckets.mhFind_found hs k
  refine ⟨y, hfind, ?_⟩
  rcases hfound with ⟨v, hv, rfl⟩ | ⟨rfl, habsent⟩
  · have hsome : (s.node y).isSome = true := Option.isSome_iff_exists.mpr ⟨v, hv⟩
    obtain ⟨hok, hdirty⟩ := Buckets.delNode_ok hs hv
    simp only [hsome, if_true]
    exact ⟨hok, hdirty, Nat.sub_le _ 1, rfl, rfl, rfl, Buckets.delNode_holds hs hv⟩
  · have hnone : ¬(s.node s.nBuckets).isSome = true := by
      intro hsome
      obtain ⟨v, hv⟩ := Option.isSome_iff_exists.mp hsome
      exact Nat.lt_irrefl _ (hs.lt _ _ hv)
    simp only [hnone]
    exact ⟨hs, Nat.le_refl _, Nat.le_refl _, rfl, rfl, rfl, fun w => ⟨fun hw => ⟨hw, habsent w hw⟩, And.left⟩⟩

omit [DecidableEq κ] in
/-- A node has been deleted from both tables. -/
theorem Resizing.deletes (hb : h.toBuckets.Ok d) (hr : h.Resizing d c) {x : Nat} {v : ν}
    (hv : h.node x = some v) {s : Buckets ν} (hok : s.Ok d) (hdirty : s.nDirty ≤ h.shadow.nDirty)
    (hsize : s.size ≤ h.shadow.size) (hn : s.nBuckets = h.shadow.nBuckets)
    (hupper : s.upperBound = h.shadow.upperBound) (hprime : s.prime = h.shadow.prime)
    (hs : ∀ w, s.slots.Holds w ↔ h.shadow.slots.Holds w ∧ d.key w ≠ d.key v) :
    Resizing d { h with toBuckets := delNode h.toBuckets x, shadow := s } c := by
  have hold := hr.moves
  have hdel := Buckets.delNode_holds hb hv
  have hheld : (delNode h.toBuckets x).slots.held h.resizePosition h.nBuckets ≤
      h.slots.held h.resizePosition h.nBuckets := by
    rw [Slots.held_congr (s := h.slots.free x) (t := (delNode h.toBuckets x).slots)
      (Buckets.delNode_node h.toBuckets x)]
    exact Slots.held_free_le
  have hle := (Buckets.delNode_ok hb hv).2
  refine ⟨⟨hold.le, hok, fun w hw => ?_, fun j hj w hw => ?_, ?_, ?_, ?_⟩, hr.calls, hr.batch, ?_, ?_, ?_, ?_⟩
  · obtain ⟨hw, hkey⟩ := (hs w).mp hw
    exact (hdel w).mpr ⟨hold.sub w hw, hkey⟩
  · have hw : (delNode h.toBuckets x).node j = some w := hw
    have hkey := ((hdel w).mp ⟨j, hw⟩).2
    rw [Buckets.delNode_node] at hw
    exact (hs w).mpr ⟨hold.moved j hj w (Slots.node_free hw), hkey⟩
  · have := hold.nDirty
    show s.nDirty + (delNode h.toBuckets x).slots.held h.resizePosition h.nBuckets ≤ density h.nBuckets + 2 * c
    omega
  · rw [hupper, hn, hold.upperBound]
  · show density h.nBuckets + 2 * (h.nBuckets / 256) + 2 < density s.nBuckets
    rw [hn]
    exact hold.wide
  · exact hle.trans hr.nDirty
  · exact hsize.trans hr.size
  · show primeList[h.prime]? = some s.nBuckets
    rw [hn]
    exact hr.ranked
  · exact hprime.trans hr.prime

/-- `mh_del` deletes the node in a slot, and nodes only move if a resize comes to its end. -/
theorem mhDel_spec (hh : h.Ok d) {x : Nat} {v : ν} (hv : h.node x = some v) : ∃ h', mhDel d h x = .ok h' ∧
    h'.Ok d ∧ (∀ w, h'.Holds w ↔ h.Holds w ∧ d.key w ≠ d.key v) ∧ h'.extent ≤ h.extent ∧
    (h.Steady → h'.Steady ∧ ∀ i w, h'.node i = some w → h.node i = some w) := by
  obtain ⟨hok, hdirty⟩ := Buckets.delNode_ok hh.buckets hv
  have hholds := Buckets.delNode_holds hh.buckets hv
  have hnode := Buckets.delNode_node h.toBuckets x
  have hheld : h.slots.held 0 h.nBuckets = (h.slots.free x).held 0 h.nBuckets + 1 :=
    Slots.held_free_succ (Nat.zero_le x) (hh.buckets.lt _ _ hv) (Option.isSome_iff_exists.mpr ⟨v, hv⟩)
  have hsize : (delNode h.toBuckets x).size = (delNode h.toBuckets x).slots.held 0 h.nBuckets := by
    rw [Slots.held_congr (s := h.slots.free x) (t := (delNode h.toBuckets x).slots) hnode]
    have := hh.size
    show h.size - 1 = _
    omega
  have hpos : h.size = (delNode h.toBuckets x).size + 1 := by
    have := hh.size
    show h.size = h.size - 1 + 1
    omega
  have hstay : ∀ i w, (delNode h.toBuckets x).node i = some w → h.node i = some w := by
    intro i w hw
    rw [hnode] at hw
    exact Slots.node_free hw
  unfold mhDel
  rw [hv]
  rcases hh.state with hi | ⟨c, hr, hbusy, hlt⟩
  · have hp := hi.position
    simp only [if_neg (show ¬h.resizePosition > 0 by rw [hp]; exact Nat.lt_irrefl 0)]
    refine ⟨_, rfl, ⟨hok, hsize, .inl ⟨hp, hi.ranked, hi.upperBound, hdirty.trans hi.nDirty⟩⟩, hholds,
      Nat.le_refl _, fun _ => ⟨.inl hp, hstay⟩⟩
  · obtain ⟨y, hfind, hoks, hdirtys, hsizes, hns, huppers, hprimes, hs⟩ := delShadow_spec hr.moves.ok (d.key v)
    have hr' := hr.deletes hh.buckets hv hoks hdirtys hsizes hns huppers hprimes hs
    simp only [if_pos hbusy]
    unfold mhDelResize
    simp only [hfind, bind, Except.bind]
    have hleft : h.Steady → h.resizePosition + (delNode h.toBuckets x).size * h.batch < h.nBuckets := by
      rintro (hzero | hlt)
      · omega
      · rwa [hpos, Nat.add_sub_cancel] at hlt
    have hextent : h.extent = h.nBuckets + h.shadow.nBuckets := by rw [extent, if_pos hbusy]
    rcases mhResize_cases hok hsize hr' with ⟨hgoes, s, hrun, hr'', hn⟩ | ⟨hends, h', hrun, hsame, hi, -, hn, -⟩
    · have hbusy' : h.resizePosition + h.batch > 0 := Nat.add_pos_left hbusy _
      refine ⟨_, hrun, ⟨hok, hsize, .inr ⟨c, hr'', hbusy', hgoes⟩⟩, hholds, ?_, fun hsteady => ?_⟩
      · rw [hextent, extent, if_pos hbusy']
        exact Nat.add_le_add_left (Nat.le_of_eq (hn.trans hns)) _
      · refine ⟨.inr ?_, hstay⟩
        have hlast := hleft hsteady
        show h.resizePosition + h.batch + ((delNode h.toBuckets x).size - 1) * h.batch < h.nBuckets
        cases hcount : (delNode h.toBuckets x).size with
        | zero =>
          rw [Nat.zero_sub, Nat.zero_mul]
          exact hgoes
        | succ m =>
          rw [hcount, Nat.succ_mul] at hlast
          rw [Nat.add_sub_cancel]
          omega
    · refine ⟨h', hrun, ⟨hsame.buckets, hsame.size, .inl hi⟩, fun w => (hsame.holds w).trans (hholds w), ?_,
        fun hsteady => ?_⟩
      · rw [hextent, extent, if_neg (by rw [hi.position]; exact Nat.lt_irrefl 0)]
        exact (Nat.le_of_eq (hn.trans hns)).trans (Nat.le_add_left _ _)
      · -- the resize has ended with the last node
        refine ⟨.inl hi.position, fun i w hw => ?_⟩
        have hends : h.nBuckets ≤ h.resizePosition + h.batch := hends
        have hlast := hleft hsteady
        have hzero : (delNode h.toBuckets x).size = 0 := by
          by_contra hsome
          obtain ⟨m, hm⟩ := Nat.exists_eq_succ_of_ne_zero hsome
          rw [hm, Nat.succ_mul] at hlast
          omega
        obtain ⟨j, hj⟩ := (hsame.holds w).mp ⟨i, hw⟩
        have hone := Slots.held_free_succ (Nat.zero_le j) (hok.lt _ _ hj) (Option.isSome_iff_exists.mpr ⟨w, hj⟩)
        have hcount : (delNode h.toBuckets x).slots.held 0 h.nBuckets = _ := hone
        omega

end Mhash

end BeePhp
