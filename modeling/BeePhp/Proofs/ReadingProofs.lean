import BeePhp.Proofs.RecvProofs
import BeePhp.Reading

/-!
# Proofs: exact reads

The loop stores what the chunks deliver (`readLoop_gathered`). Its count goes through an `int`, which
returns it as long as it is below 2^31.
-/

namespace BeePhp

open Codec (Bytes)
open Program

theorem Net.nextChunk_eq (net : Net) (size : Nat) (kind : ReadKind) :
    (net.nextChunk size kind).1 = (net.chunksOf kind).head?.getD size ∧
      (net.nextChunk size kind).2.chunksOf kind = (net.chunksOf kind).tail := by
  cases kind with
  | length => cases h : net.lengthChunks <;> simp [nextChunk, chunksOf, h]
  | other => cases h : net.chunks <;> simp [nextChunk, chunksOf, h]

theorem gathered_nil (size arrived : Nat) : gathered [] size arrived = (min size arrived, []) := rfl

theorem gathered_zero (chunks : List Nat) (arrived : Nat) : gathered chunks 0 arrived = (0, chunks) := by
  cases chunks with
  | nil => rw [gathered_nil, Nat.zero_min]
  | cons c cs => rw [gathered, if_pos rfl]

/-- One read: `n` bytes of the first chunk, or of all that is asked for when there are no chunks. -/
theorem gathered_step {chunks : List Nat} {size arrived n : Nat} (hsize : 0 < size)
    (hn : n = min (min (chunks.head?.getD size) size) arrived) :
    gathered chunks size arrived =
      if n = 0 then (0, chunks.tail)
      else (n + (gathered chunks.tail (size - n) (arrived - n)).1,
        (gathered chunks.tail (size - n) (arrived - n)).2) := by
  cases chunks with
  | nil =>
    rw [List.head?_nil, Option.getD_none, Nat.min_self] at hn
    rw [List.tail_nil, gathered_nil, gathered_nil]
    split
    · refine Prod.ext ?_ rfl
      show min size arrived = 0
      omega
    · refine Prod.ext ?_ rfl
      show min size arrived = n + min (size - n) (arrived - n)
      omega
  | cons c cs =>
    rw [List.head?_cons, Option.getD_some] at hn
    rw [gathered, if_neg (by omega), List.tail_cons, ← hn]

theorem gathered_le (chunks : List Nat) (size arrived : Nat) :
    (gathered chunks size arrived).1 ≤ min size arrived := by
  induction chunks generalizing size arrived with
  | nil => exact Nat.le_refl _
  | cons c cs ih =>
    unfold gathered
    split
    · exact Nat.zero_le _
    · dsimp only
      split
      · exact Nat.zero_le _
      · have := ih (size - min (min c size) arrived) (arrived - min (min c size) arrived)
        dsimp only
        omega

/-- The loop reads what the chunks deliver and no more. -/
theorem readLoop_gathered {β : Type} {store : Nat → Bytes → β → Except Fault β} {kind : ReadKind}
    {size fuel total n : Nat} {buf buf' : β} {stream : Stream} {w w' : World} (hle : total ≤ size)
    (hstream : w.obj.stream = some stream)
    (h : readLoop kind store size fuel total buf w = .ok ((n, buf'), w')) :
    n = total + (gathered (w.net.chunksOf kind) (size - total) stream.inbox.length).1 ∧
      w'.net.chunksOf kind =
        (gathered (w.net.chunksOf kind) (size - total) stream.inbox.length).2 := by
  induction fuel generalizing total buf w stream with
  | zero => cases h
  | succ fuel ih =>
    by_cases hlt : total < size
    · rw [readLoop, if_pos hlt] at h
      obtain ⟨hchunk, htail⟩ := w.net.nextChunk_eq (size - total) kind
      set c := min (w.net.nextChunk (size - total) kind).1 (size - total) with hc
      have hread : phpStreamRead kind (size - total) w = .ok (stream.inbox.take c,
          w.after stream (stream.inbox.drop c) (w.net.nextChunk (size - total) kind).2) := by
        simp only [phpStreamRead, hstream, ← hc, World.after]
      have hstep := gathered_step (show 0 < size - total by omega)
        (show min c stream.inbox.length = min (min ((w.net.chunksOf kind).head?.getD (size - total))
          (size - total)) stream.inbox.length by rw [hc, hchunk])
      rw [run_bind hread] at h
      cases hstore : store total (stream.inbox.take c) buf with
      | error f => simp [hstore, StateT.lift, bind, StateT.bind, Except.bind] at h
      | ok mid =>
        rw [run_bind (run_lift hstore _), List.length_take] at h
        by_cases hnil : min c stream.inbox.length = 0
        · rw [if_pos hnil] at h
          rw [if_pos hnil] at hstep
          obtain ⟨heq, rfl⟩ := Prod.mk.inj (Except.ok.inj h)
          obtain ⟨rfl, -⟩ := Prod.mk.inj heq
          rw [hstep]
          exact ⟨rfl, htail⟩
        · rw [if_neg hnil] at h
          rw [if_neg hnil] at hstep
          have hopen : (w.after stream (stream.inbox.drop c)
              (w.net.nextChunk (size - total) kind).2).obj.stream =
              some { stream with inbox := stream.inbox.drop c } := rfl
          obtain ⟨hn, hleft⟩ := ih (by omega) hopen h
          have hnet : (w.after stream (stream.inbox.drop c)
              (w.net.nextChunk (size - total) kind).2).net.chunksOf kind =
              (w.net.chunksOf kind).tail := htail
          have hsub : size - (total + min c stream.inbox.length) =
              size - total - min c stream.inbox.length := by omega
          have hdrop : stream.inbox.length - c = stream.inbox.length - min c stream.inbox.length := by
            omega
          rw [hnet, List.length_drop, hsub, hdrop] at hn hleft
          rw [hstep]
          exact ⟨by rw [hn, Nat.add_assoc], hleft⟩
    · rw [readLoop, if_neg hlt] at h
      obtain ⟨heq, rfl⟩ := Prod.mk.inj (Except.ok.inj h)
      obtain ⟨rfl, -⟩ := Prod.mk.inj heq
      have hzero : size - total = 0 := by omega
      rw [hzero, gathered_zero]
      exact ⟨rfl, rfl⟩

/-! ## Reads into an array -/

/-- A read stores what is delivered, and returns the count of it converted to an `int` and back. -/
theorem readArray_run (kind : ReadKind) {stream : Stream} {buf : Bytes} {size n : Nat} {w : World}
    {left : List Nat} (hstream : w.obj.stream = some stream) (hsize : size ≤ buf.length)
    (hn : gathered (w.net.chunksOf kind) size stream.inbox.length = (n, left)) :
    ∃ w', readArray kind buf size w =
        .ok ((toSize (toInt n), stream.inbox.take n ++ buf.drop n), w') ∧
      w'.obj.stream = some { stream with inbox := stream.inbox.drop n } ∧
      w'.net.chunksOf kind = left := by
  have hroom (bs : Bytes) (hbs : 0 + bs.length ≤ size) : ∃ buf', writeAt buf 0 bs = .ok buf' :=
    ⟨_, if_pos (by omega)⟩
  obtain ⟨bs, buf', w', hdel, hstore, hloop⟩ :=
    @readLoop_delivers _ _ writeAt_composes kind stream size (size + 1) 0 buf w (by omega) (by omega)
      hroom hstream
  obtain ⟨hcount, hleft⟩ := readLoop_gathered (Nat.zero_le _) hstream hloop
  rw [Nat.sub_zero, hn] at hcount hleft
  have hlen : bs.length = n := by omega
  obtain ⟨rest, hinbox, hstream'⟩ := hdel.stream
  have hbs : stream.inbox.take n = bs := by rw [hinbox, ← hlen, List.take_left']; rfl
  have hrest : stream.inbox.drop n = rest := by rw [hinbox, ← hlen, List.drop_left']; rfl
  have hbuf : buf' = bs ++ buf.drop n := by
    simpa [hlen] using (writeAt_eq_ok.mp hstore).2
  rw [Nat.zero_add, hlen] at hloop
  refine ⟨w', ?_, by rw [hstream', hrest], hleft⟩
  rw [readArray, beeStreamRead_run hloop, hbuf, hbs]

section Exact

variable {kind : ReadKind} {stream : Stream} {buf : Bytes} {size n : Nat} {w : World} {left : List Nat}

theorem readsExactly_of_lt (hstream : w.obj.stream = some stream) (hsize : size ≤ buf.length)
    (hn : gathered (w.net.chunksOf kind) size stream.inbox.length = (n, left)) (hlt : n < 2 ^ 31) :
    ReadsExactly kind buf size w stream := by
  obtain ⟨w', hrun, hstream', hleft⟩ := readArray_run kind hstream hsize hn
  rw [toSize_toInt hlt] at hrun
  simp only [ReadsExactly, hn]
  exact ⟨n, w', hrun, hstream', hleft, rfl, Iff.rfl⟩

/-- A count from 2^31 on comes back as another number. -/
theorem not_readsExactly (hstream : w.obj.stream = some stream) (hsize : size ≤ buf.length)
    (hn : gathered (w.net.chunksOf kind) size stream.inbox.length = (n, left)) (hge : 2 ^ 31 ≤ n)
    (hlt : n < 2 ^ 32) : ¬ ReadsExactly kind buf size w stream := by
  obtain ⟨w', hrun, -, -⟩ := readArray_run kind hstream hsize hn
  simp only [ReadsExactly, hn]
  rintro ⟨rv, w'', hrun', -, -, hrv, -⟩
  obtain ⟨heq, -⟩ := Prod.mk.inj (Except.ok.inj (hrun.symm.trans hrun'))
  obtain ⟨hcount, -⟩ := Prod.mk.inj heq
  exact toSize_toInt_ne hge hlt (hcount.trans hrv)

/-- A read reports what it has stored exactly if it has stored less than 2^31 bytes. -/
theorem readArray_exact (hstream : w.obj.stream = some stream) (hsize : size < 2 ^ 32)
    (hbuf : size ≤ buf.length) : ReadsExactly kind buf size w stream ↔
      (gathered (w.net.chunksOf kind) size stream.inbox.length).1 < 2 ^ 31 := by
  have hle := gathered_le (w.net.chunksOf kind) size stream.inbox.length
  constructor
  · intro h
    by_contra hge
    exact not_readsExactly hstream hbuf rfl (not_lt.mp hge) (by omega) h
  · exact readsExactly_of_lt hstream hbuf rfl

end Exact

/-- Two of three bytes, in chunks of one. -/
theorem readArray_exact_two :
    ReadsExactly .other [0, 0] 2 (.receiving [7, 8, 9] [1, 1]) ⟨[7, 8, 9], [], none⟩ :=
  (readArray_exact rfl (by decide) (by decide)).mpr (by decide)

/-- 2^31 bytes that arrive in one chunk are stored, and -2^31 is returned as a `size_t`. -/
theorem readArray_negative : ¬ ∀ (kind : ReadKind) (buf : Bytes) (size : Nat) (w : World)
    (stream : Stream), w.obj.stream = some stream → size < 2 ^ 32 → size ≤ buf.length →
      ReadsExactly kind buf size w stream := by
  intro h
  have hlen : (List.replicate (2 ^ 31) (0 : UInt8)).length = 2 ^ 31 := List.length_replicate
  have hn : gathered [] (2 ^ 31) (List.replicate (2 ^ 31) (0 : UInt8)).length = (2 ^ 31, []) := by
    rw [hlen]
    exact gathered_nil _ _
  generalize List.replicate (2 ^ 31) (0 : UInt8) = bs at hlen hn
  exact @not_readsExactly .other ⟨bs, [], none⟩ bs (2 ^ 31) (2 ^ 31) (.receiving bs []) [] rfl hlen.ge hn
    (le_refl _) (by decide) (h _ _ _ _ _ rfl (by decide) hlen.ge)

end BeePhp
