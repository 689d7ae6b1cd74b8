import BeePhp.Network
import BeePhp.Proofs.MachineProofs
import BeePhp.Proofs.SmartStringProofs
import BeePhp.Proofs.WorldProofs

/-!
# Proofs: reading from the stream

A read delivers a piece of the input, in order and from the destination on; when no chunk is empty and
enough has arrived it delivers all it is asked for (`readLoop_delivers`).
-/

namespace BeePhp

open Codec (Bytes)
open Program

/-! ## Destinations -/

/-- Storing two pieces one behind the other is storing them together. -/
structure Composes {β : Type} (store : Nat → Bytes → β → Except Fault β) : Prop where
  nil : ∀ off buf buf', store off [] buf = .ok buf' → buf' = buf
  append : ∀ off as bs buf buf', store off (as ++ bs) buf = .ok buf' ↔
    ∃ mid, store off as buf = .ok mid ∧ store (off + as.length) bs mid = .ok buf'

/-- A list with a piece overwritten, and then the piece behind it. -/
theorem overwrite_append (c as bs : Bytes) (pos : Nat)
    (h : pos + (as ++ bs).length ≤ c.length) :
    (c.take pos ++ as ++ c.drop (pos + as.length)).take (pos + as.length) ++ bs ++
      (c.take pos ++ as ++ c.drop (pos + as.length)).drop (pos + as.length + bs.length) =
    c.take pos ++ (as ++ bs) ++ c.drop (pos + (as ++ bs).length) := by
  rw [List.length_append] at h
  have hlen : (c.take pos ++ as).length = pos + as.length := by
    rw [List.length_append, List.length_take]
    omega
  rw [List.take_left' hlen, List.drop_append, List.drop_eq_nil_of_le (by omega), List.nil_append,
    hlen, List.drop_drop, List.length_append]
  simp only [List.append_assoc]
  congr 4
  omega

theorem writeAt_eq_ok {buf buf' : Bytes} {pos : Nat} {bs : Bytes} :
    writeAt buf pos bs = .ok buf' ↔ pos + bs.length ≤ buf.length ∧
      buf' = buf.take pos ++ bs ++ buf.drop (pos + bs.length) := by
  unfold writeAt
  constructor
  · intro h
    split at h
    case isTrue hroom => exact ⟨hroom, (Except.ok.inj h).symm⟩
    case isFalse => cases h
  · rintro ⟨hroom, rfl⟩
    rw [if_pos hroom]

theorem writeAt_composes : Composes fun off bs buf => writeAt buf off bs where
  nil := by
    intro off buf buf' h
    simpa using (writeAt_eq_ok.mp h).2
  append := by
    intro off as bs buf buf'
    simp only [writeAt_eq_ok]
    constructor
    · rintro ⟨hroom, rfl⟩
      have hroom' := hroom
      rw [List.length_append] at hroom'
      refine ⟨_, ⟨by omega, rfl⟩, ?_, (overwrite_append buf as bs off hroom).symm⟩
      simp only [List.length_append, List.length_take, List.length_drop]
      omega
    · rintro ⟨_, ⟨has, rfl⟩, hbs, rfl⟩
      simp only [List.length_append, List.length_take, List.length_drop] at hbs
      have hroom : off + (as ++ bs).length ≤ buf.length := by
        rw [List.length_append]
        omega
      exact ⟨hroom, overwrite_append buf as bs off hroom⟩

namespace SmartString

theorem ext' {s t : SmartString} (hc : s.c = t.c) (hlen : s.len = t.len)
    (hfresh : s.fresh = t.fresh) : s = t := by
  obtain ⟨c, len, fresh, h⟩ := s
  obtain ⟨c', len', fresh', h'⟩ := t
  obtain rfl : c = c' := hc
  obtain rfl : len = len' := hlen
  obtain rfl : fresh = fresh' := hfresh
  rfl

/-- Writing leaves the length and replaces the bytes. -/
theorem write_eq_ok {s s' : SmartString} {pos : Nat} {bs : Bytes} :
    s.write pos bs = .ok s' ↔ pos + bs.length ≤ s.c.length ∧ s'.len = s.len ∧
      s'.fresh = s.fresh ∧ s'.c = s.c.take pos ++ bs ++ s.c.drop (pos + bs.length) := by
  unfold write
  constructor
  · intro h
    split at h
    case isTrue hroom =>
      obtain rfl := Except.ok.inj h
      exact ⟨hroom, rfl, rfl, rfl⟩
    case isFalse => cases h
  · rintro ⟨hroom, hlen, hfresh, hc⟩
    rw [dif_pos hroom]
    exact congrArg Except.ok (ext' hc.symm hlen.symm hfresh.symm)

theorem write_composes (pos : Nat) : Composes fun off bs str => write str (pos + off) bs where
  nil := by
    intro off buf buf' h
    obtain ⟨-, hlen, hfresh, hc⟩ := write_eq_ok.mp h
    refine ext' ?_ hlen hfresh
    simpa using hc
  append := by
    intro off as bs buf buf'
    constructor
    · intro h
      obtain ⟨hroom, hlen, hfresh, hc⟩ := write_eq_ok.mp h
      have hroom' := hroom
      rw [List.length_append] at hroom'
      have hfit : pos + off + as.length ≤ buf.c.length := by omega
      obtain ⟨mid, hmid⟩ : ∃ mid, buf.write (pos + off) as = .ok mid := ⟨_, dif_pos hfit⟩
      obtain ⟨-, hlen₁, hfresh₁, hc₁⟩ := write_eq_ok.mp hmid
      refine ⟨mid, hmid, write_eq_ok.mpr ⟨?_, ?_, ?_, ?_⟩⟩
      · rw [hc₁]
        simp only [List.length_append, List.length_take, List.length_drop]
        omega
      · rw [hlen, hlen₁]
      · rw [hfresh, hfresh₁]
      · rw [hc, hc₁, ← Nat.add_assoc, overwrite_append buf.c as bs (pos + off) hroom]
    · rintro ⟨mid, hmid, hbuf'⟩
      obtain ⟨has, hlen₁, hfresh₁, hc₁⟩ := write_eq_ok.mp hmid
      obtain ⟨hbs, hlen, hfresh, hc⟩ := write_eq_ok.mp hbuf'
      have hroom : pos + off + (as ++ bs).length ≤ buf.c.length := by
        rw [hc₁] at hbs
        simp only [List.length_append, List.length_take, List.length_drop] at hbs ⊢
        omega
      refine write_eq_ok.mpr ⟨hroom, hlen.trans hlen₁, hfresh.trans hfresh₁, ?_⟩
      rw [hc, hc₁, ← Nat.add_assoc, overwrite_append buf.c as bs (pos + off) hroom]

end SmartString

/-! ## Chunks -/

theorem Net.nextChunk_pos {net : Net} {kind : ReadKind} (h : net.Prompt kind) {size : Nat}
    (hsize : 0 < size) : 0 < (net.nextChunk size kind).1 := by
  cases kind with
  | length =>
    cases hc : net.lengthChunks with
    | nil => simpa [nextChunk, hc] using hsize
    | cons c cs => simpa [nextChunk, hc] using h c (by rw [hc]; exact List.mem_cons_self)
  | other =>
    cases hc : net.chunks with
    | nil => simpa [nextChunk, hc] using hsize
    | cons c cs => simpa [nextChunk, hc] using h c (by rw [hc]; exact List.mem_cons_self)

/-- What a read leaves of the environment: shorter lists of chunks. -/
structure Net.Later (net net' : Net) : Prop where
  lengthChunks : net'.lengthChunks ⊆ net.lengthChunks
  chunks : net'.chunks ⊆ net.chunks
  rest : net' = { net with lengthChunks := net'.lengthChunks, chunks := net'.chunks }

theorem Net.Later.refl (net : Net) : net.Later net :=
  ⟨List.Subset.refl _, List.Subset.refl _, rfl⟩

theorem Net.Later.trans {a b c : Net} (hab : a.Later b) (hbc : b.Later c) : a.Later c := by
  refine ⟨List.Subset.trans hbc.lengthChunks hab.lengthChunks,
    List.Subset.trans hbc.chunks hab.chunks, ?_⟩
  rw [hbc.rest, hab.rest]

theorem Net.Later.prompt {net net' : Net} (h : net.Later net') {kind : ReadKind}
    (hprompt : net.Prompt kind) : net'.Prompt kind := by
  cases kind with
  | length => exact fun c hc => hprompt c (h.lengthChunks hc)
  | other => exact fun c hc => hprompt c (h.chunks hc)

theorem Net.nextChunk_later (net : Net) (size : Nat) (kind : ReadKind) :
    net.Later (net.nextChunk size kind).2 := by
  cases kind with
  | length =>
    cases hc : net.lengthChunks with
    | nil => simpa [nextChunk, hc] using Later.refl net
    | cons c cs =>
      simp only [nextChunk, hc]
      exact ⟨by rw [hc]; exact List.subset_cons_self c cs, List.Subset.refl _, rfl⟩
  | other =>
    cases hc : net.chunks with
    | nil => simpa [nextChunk, hc] using Later.refl net
    | cons c cs =>
      simp only [nextChunk, hc]
      exact ⟨List.Subset.refl _, by rw [hc]; exact List.subset_cons_self c cs, rfl⟩

/-! ## The loop -/

/-- The state after the stream has been read up to `inbox`. -/
def World.after (w : World) (stream : Stream) (inbox : Bytes) (net : Net) : World :=
  { w with obj := { w.obj with stream := some { stream with inbox := inbox } }, net := net }

@[simp] theorem World.after_value (w : World) (stream : Stream) (inbox : Bytes) (net : Net) :
    (w.after stream inbox net).obj.value = w.obj.value := rfl

/-- What a read of `size` bytes delivers: a piece `bs` of the input, no longer than asked for. It is all
that was asked for when no chunk is empty and that much has arrived. -/
structure Delivers (kind : ReadKind) (w : World) (stream : Stream) (size : Nat) (bs : Bytes)
    (w' : World) : Prop where
  le : bs.length ≤ size
  all : w.net.Prompt kind → size ≤ stream.inbox.length → bs.length = size
  after : ∃ rest net, stream.inbox = bs ++ rest ∧ w.net.Later net ∧ w' = w.after stream rest net

theorem World.after_self {w : World} {stream : Stream} (h : w.obj.stream = some stream) :
    w.after stream stream.inbox w.net = w := by
  obtain ⟨obj, _⟩ := w
  obtain ⟨host, port, login, passwd, s, _⟩ := obj
  obtain rfl : s = some stream := h
  rfl

theorem Delivers.stream {kind : ReadKind} {w w' : World} {stream : Stream} {size : Nat} {bs : Bytes}
    (h : Delivers kind w stream size bs w') :
    ∃ rest, stream.inbox = bs ++ rest ∧ w'.obj.stream = some { stream with inbox := rest } := by
  obtain ⟨rest, net, hinbox, -, rfl⟩ := h.after
  exact ⟨rest, hinbox, rfl⟩

/-- One read. -/
theorem phpStreamRead_delivers {w : World} (kind : ReadKind) (size : Nat) {stream : Stream}
    (hstream : w.obj.stream = some stream) :
    ∃ bs w', phpStreamRead kind size w = .ok (bs, w') ∧ bs.length ≤ size ∧
      (w.net.Prompt kind → 0 < size → stream.inbox ≠ [] → bs ≠ []) ∧
      ∃ rest net, stream.inbox = bs ++ rest ∧ w.net.Later net ∧ w' = w.after stream rest net := by
  set n := min (w.net.nextChunk size kind).1 size with hn
  refine ⟨stream.inbox.take n, w.after stream (stream.inbox.drop n) (w.net.nextChunk size kind).2,
    ?_, ?_, ?_, _, _, (List.take_append_drop n stream.inbox).symm, w.net.nextChunk_later size kind, rfl⟩
  · simp only [phpStreamRead, hstream, ← hn, World.after]
  · rw [List.length_take]
    omega
  · intro hprompt hsize hinbox
    have hchunk := w.net.nextChunk_pos hprompt hsize
    have hlen := List.length_pos_of_ne_nil hinbox
    rw [← List.length_pos_iff, List.length_take]
    omega

/-- The loop delivers what the stream has, until a read comes back empty. -/
theorem readLoop_delivers {β : Type} {store : Nat → Bytes → β → Except Fault β}
    (hstore : Composes store) {kind : ReadKind} {stream : Stream} {size fuel total : Nat} {buf : β}
    {w : World} (hfuel : size - total < fuel) (hle : total ≤ size)
    (hroom : ∀ bs, total + bs.length ≤ size → ∃ buf', store total bs buf = .ok buf')
    (hstream : w.obj.stream = some stream) :
    ∃ bs buf' w', Delivers kind w stream (size - total) bs w' ∧ store total bs buf = .ok buf' ∧
      readLoop kind store size fuel total buf w = .ok ((total + bs.length, buf'), w') := by
  induction fuel generalizing total buf w stream with
  | zero => omega
  | succ fuel ih =>
    by_cases hlt : total < size
    · obtain ⟨as, w₁, hread, has, hsome, rest, net, hinbox, hlater, rfl⟩ :=
        phpStreamRead_delivers kind (size - total) hstream
      obtain ⟨mid, hmid⟩ := hroom as (by omega)
      rw [readLoop, if_pos hlt]
      simp only [Bind.bind, StateT.bind, Except.bind, hread, StateT.lift, hmid, Pure.pure,
        Except.pure]
      by_cases hnil : as.length = 0
      · rw [if_pos hnil]
        obtain rfl := List.eq_nil_of_length_eq_zero hnil
        refine ⟨[], mid, _, ⟨by simp, fun hprompt hroom => ?_, rest, net, hinbox, hlater, rfl⟩, hmid,
          rfl⟩
        -- a prompt read is empty only if nothing has arrived
        have hempty : stream.inbox = [] := by
          by_contra hne
          exact hsome hprompt (by omega) hne rfl
        rw [hempty] at hroom
        simp only [List.length_nil] at hroom ⊢
        omega
      · rw [if_neg hnil]
        have hroom' (bs : Bytes) (hbs : total + as.length + bs.length ≤ size) :
            ∃ buf', store (total + as.length) bs mid = .ok buf' := by
          obtain ⟨buf', hbuf'⟩ := hroom (as ++ bs) (by rw [List.length_append]; omega)
          obtain ⟨mid', hmid', hrest⟩ := (hstore.append ..).mp hbuf'
          obtain rfl := Except.ok.inj (hmid.symm.trans hmid')
          exact ⟨buf', hrest⟩
        have hstream' : (w.after stream rest net).obj.stream = some { stream with inbox := rest } :=
          rfl
        obtain ⟨bs, buf', w', hdel, hbs, hloop⟩ := ih (by omega) (by omega) hroom' hstream'
        have hdelle := hdel.le
        obtain ⟨rest', net', hrest, hlater', rfl⟩ := hdel.after
        refine ⟨as ++ bs, buf', _, ⟨?_, fun hprompt hlen => ?_, rest', net', ?_,
          hlater.trans hlater', rfl⟩, (hstore.append ..).mpr ⟨mid, hmid, hbs⟩, ?_⟩
        · rw [List.length_append]
          omega
        · have := hdel.all (hlater.prompt hprompt) (by
            simp only [hinbox, List.length_append] at hlen ⊢
            omega)
          rw [List.length_append]
          omega
        · rw [hinbox, List.append_assoc, ← hrest]
        · rw [hloop, List.length_append, Nat.add_assoc]
          rfl
    · obtain rfl : total = size := by omega
      obtain ⟨buf', hbuf'⟩ := hroom [] (by simp)
      obtain rfl := hstore.nil _ _ _ hbuf'
      refine ⟨[], buf', w, ⟨by simp, fun _ _ => by simp, _, _, rfl, Net.Later.refl _,
        (World.after_self hstream).symm⟩, hbuf', ?_⟩
      rw [readLoop, if_neg hlt]
      rfl

theorem phpStreamRead_le (kind : ReadKind) (size : Nat) (w : World) :
    Wlp (phpStreamRead kind size) (fun bs _ => bs.length ≤ size) w := by
  intro bs w' hrun
  simp only [phpStreamRead] at hrun
  split at hrun
  · cases hrun
  · obtain ⟨rfl, -⟩ := Prod.mk.inj (Except.ok.inj hrun)
    rw [List.length_take]
    omega

/-- The loop never counts more than it was asked for. -/
theorem readLoop_le {β : Type} {kind : ReadKind} {store : Nat → Bytes → β → Except Fault β}
    {size fuel total : Nat} {buf : β} (hle : total ≤ size) {w : World} :
    Wlp (readLoop kind store size fuel total buf) (fun r _ => r.1 ≤ size) w := by
  induction fuel generalizing total buf w with
  | zero => exact .throw
  | succ fuel ih =>
    refine .ite (fun _ => .bind ((phpStreamRead_le kind _ w).mono fun bs w' hbs => ?_)) fun _ => .pure hle
    exact .bind (.lift fun _ _ => .ite (fun _ => .pure hle) fun _ => ih (by omega))

/-! ## The destinations of the connection -/

/-- What `bee_stream_read` returns of what the loop has read. -/
theorem beeStreamRead_run {β : Type} {kind : ReadKind} {store : Nat → Bytes → β → Except Fault β}
    {buf buf' : β} {size n : Nat} {w w' : World}
    (h : readLoop kind store size (size + 1) 0 buf w = .ok ((n, buf'), w')) :
    beeStreamRead kind store buf size w = .ok ((toSize (toInt n), buf'), w') := by
  have hread : beexllStreamRead2 kind store buf size w = .ok ((toInt n, buf'), w') := by
    rw [beexllStreamRead2, run_bind h]
    rfl
  rw [beeStreamRead, run_bind hread]
  rfl

/-- A read into an array delivers its bytes to the front of it. -/
theorem readArray_delivers (kind : ReadKind) {stream : Stream} {buf : Bytes} {size : Nat} {w : World}
    (hsize : size ≤ buf.length) (hint : size < 2 ^ 31) (hstream : w.obj.stream = some stream) :
    ∃ bs w', Delivers kind w stream size bs w' ∧
      readArray kind buf size w = .ok ((bs.length, bs ++ buf.drop bs.length), w') := by
  have hroom (bs : Bytes) (hbs : 0 + bs.length ≤ size) : ∃ buf', writeAt buf 0 bs = .ok buf' :=
    ⟨_, if_pos (by omega)⟩
  obtain ⟨bs, buf', w', hdel, hstore, hloop⟩ :=
    @readLoop_delivers _ _ writeAt_composes kind stream size (size + 1) 0 buf w (by omega) (by omega)
      hroom hstream
  have hle := hdel.le
  have hbuf : buf' = bs ++ buf.drop bs.length := by
    simp only [writeAt] at hstore
    rw [if_pos (by omega)] at hstore
    simpa using (Except.ok.inj hstore).symm
  refine ⟨bs, w', hdel, ?_⟩
  rw [Nat.zero_add] at hloop
  rw [readArray, beeStreamRead_run hloop, toSize_toInt (by omega), hbuf]

/-- A length is read over five zero bytes. -/
theorem readLength_delivers (kind : ReadKind) {stream : Stream} {w : World}
    (hstream : w.obj.stream = some stream) :
    ∃ bs w', Delivers kind w stream 5 bs w' ∧
      readLength kind w = .ok ((bs.length, bs ++ [0, 0, 0, 0, 0].drop bs.length), w') :=
  readArray_delivers kind (le_refl 5) (by omega) hstream

/-- A read into the buffer puts its bytes at `pos`. -/
theorem readValue_delivers (kind : ReadKind) {stream : Stream} {pos size : Nat} {w : World}
    (hroom : pos + size ≤ w.obj.value.c.length) (hstream : w.obj.stream = some stream) :
    ∃ bs value w', Delivers kind w stream size bs w' ∧ w.obj.value.write pos bs = .ok value ∧
      readValue kind pos size w = .ok (toSize (toInt bs.length), w'.withValue value) := by
  have hfit (bs : Bytes) (hbs : 0 + bs.length ≤ size) :
      ∃ value, w.obj.value.write (pos + 0) bs = .ok value := ⟨_, dif_pos (by omega)⟩
  obtain ⟨bs, value, w', hdel, hstore, hloop⟩ :=
    @readLoop_delivers _ _ (SmartString.write_composes pos) kind stream size (size + 1) 0 w.obj.value w
      (by omega) (by omega) hfit hstream
  refine ⟨bs, value, w', hdel, by simpa using hstore, ?_⟩
  rw [Nat.zero_add] at hloop
  rw [readValue, run_bind (getObj_run w), run_bind (beeStreamRead_run hloop)]
  rfl

/-- A length is read from an open stream. -/
theorem readLength_stream {kind : ReadKind} {w : World} {r : (Nat × Bytes) × World}
    (h : readLength kind w = .ok r) : ∃ stream, w.obj.stream = some stream := by
  cases hstream : w.obj.stream with
  | some stream => exact ⟨stream, rfl⟩
  | none =>
    have hread : phpStreamRead kind 5 w = .error .nullDeref := by
      simp only [phpStreamRead, hstream]
    simp [readLength, readArray, beeStreamRead, beexllStreamRead2, readLoop, bind, StateT.bind,
      Except.bind, hread] at h

end BeePhp
