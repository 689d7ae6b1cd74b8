import BeePhp.Proofs.KeepsProofs
import BeePhp.Proofs.RecvProofs
import BeePhp.Proofs.TpProofs
import BeePhp.Request

/-!
# Proofs: whole requests

What tp.h writes are frames: each is begun by `tp_select` or `tp_auth`, lengthened by the calls that add
a value, and complete after every call (`TpState.Writing`), if `tp_ensure` never fails. So the server
finds as many requests in the bytes as were begun (`splitRequests_frames`).
-/

namespace BeePhp

open Codec Program

/-! ## Splitting a row of frames -/

theorem frame_length (payload : Bytes) : (frame payload).length = 5 + payload.length := by
  simp only [frame, List.length_append, List.length_cons, toBE_length]

/-- The payload of the first frame of a row of bytes that is one frame. -/
theorem frame_append_inj {p q rest : Bytes} (h : frame p = frame q ++ rest) (hp : p.length < 2 ^ 32) :
    q = p := by
  have hlen := congrArg List.length h
  rw [List.length_append, frame_length, frame_length] at hlen
  rw [frame, frame, List.append_assoc] at h
  obtain ⟨hhead, hpayload⟩ := List.append_inj h (by simp)
  have hlens : p.length = q.length := by
    have hof := congrArg ofBE (List.cons.inj hhead).2
    rwa [ofBE_toBE_of_lt (by omega), ofBE_toBE_of_lt (by omega)] at hof
  have hrest : rest = [] := List.length_eq_zero_iff.mp (by omega)
  rw [hpayload, hrest, List.append_nil]

theorem splitRequests_frame (fuel : Nat) {payload : Bytes} (h : payload.length < 2 ^ 32)
    (rest : Bytes) : splitRequests (fuel + 1) (frame payload ++ rest) =
      ((splitRequests fuel rest).1 + 1, (splitRequests fuel rest).2) := by
  have hlen : ofBE ((frame payload ++ rest).tail.take 4) = payload.length := by
    rw [frame, List.cons_append, List.cons_append, List.tail_cons, List.append_assoc,
      List.take_left' (toBE_length 4 _), ofBE_toBE_of_lt (by omega)]
  have hdrop : (frame payload ++ rest).drop (5 + payload.length) = rest :=
    List.drop_left' (frame_length payload)
  have hle : 5 + payload.length ≤ (frame payload ++ rest).length := by
    rw [List.length_append, frame_length]
    omega
  simp only [splitRequests, hlen, hdrop, if_pos hle]

/-- The server finds every frame of a row, and nothing is left. -/
theorem splitRequests_frames {payloads : List Bytes} (h : ∀ p ∈ payloads, p.length < 2 ^ 32)
    {fuel : Nat} (hfuel : (payloads.map frame).flatten.length ≤ fuel) :
    splitRequests fuel (payloads.map frame).flatten = (payloads.length, []) := by
  induction payloads generalizing fuel with
  | nil => cases fuel <;> rfl
  | cons payload payloads ih =>
    obtain ⟨hpayload, hpayloads⟩ := List.forall_mem_cons.mp h
    simp only [List.map_cons, List.flatten_cons, List.length_append, frame_length] at hfuel ⊢
    cases fuel with
    | zero => omega
    | succ fuel => rw [splitRequests_frame fuel hpayload, ih hpayloads (by omega), List.length_cons]

/-- The server answers every request of a row. -/
theorem deliver_frames {stream : Stream} (hpending : stream.pending = []) {payloads : List Bytes}
    (hlt : ∀ p ∈ payloads, p.length < 2 ^ 32) (replies : List Bytes) :
    stream.deliver replies (payloads.map frame).flatten =
      (⟨stream.inbox ++ takeReplies payloads.length replies, [], stream.identity⟩,
        replies.drop payloads.length) := by
  simp only [Stream.deliver, hpending, List.nil_append, splitRequests_frames hlt (le_refl _)]

/-! ## The writer -/

/-- `tp_ensure` does not find the largest number in the variable that nobody has set. -/
def Tp.Healthy (tp : Tp) : Prop := ∀ n, tp.garbage n ≠ 2 ^ 64 - 1

/-- The memory begins with these bytes, and the cursor is behind them. -/
structure TpState.Wrote (s : TpState) (bytes : Bytes) : Prop where
  memory : ∃ more, s.str.c = bytes ++ more
  p : s.tp.p = bytes.length

/-- Behind the bytes `done` stands the frame of a request with this payload, which can be lengthened, and
in which a sync can be written. -/
structure TpState.Writing (s : TpState) (done payload : Bytes) : Prop where
  wrote : s.Wrote (done ++ frame payload)
  size : s.tp.size = some done.length
  sync : ∃ pos, s.tp.sync = some pos ∧ done.length + 5 ≤ pos ∧ pos + 5 ≤ s.tp.p
  healthy : s.tp.Healthy

theorem alloc4_prefix (s : SmartString) (n : Nat) : ∃ more, (s.alloc4 n).c = s.c ++ more := by
  unfold SmartString.alloc4
  split_ifs with hnull hsmall hfull
  · rw [hnull]
    exact ⟨_, rfl⟩
  · rw [hnull]
    exact ⟨_, rfl⟩
  · simp only [SmartString.realloc]
    simp only [SmartString.a] at hfull
    rw [List.take_of_length_le (by omega)]
    exact ⟨_, rfl⟩
  · exact ⟨[], (List.append_nil _).symm⟩

theorem ensure_prefix (s : SmartString) (n : Nat) : ∃ more, (s.ensure n).c = s.c ++ more := by
  unfold SmartString.ensure
  by_cases h : s.a > s.len + n
  · rw [if_pos h]
    exact ⟨[], (List.append_nil _).symm⟩
  · rw [if_neg h]
    exact alloc4_prefix s _

/-- Bytes overwritten by as many others. -/
theorem write_over {s s' : SmartString} {before old new behind : Bytes}
    (hc : s.c = before ++ (old ++ behind)) (hlen : new.length = old.length)
    (h : s.write before.length new = .ok s') : s'.c = before ++ (new ++ behind) := by
  obtain ⟨-, -, -, hc'⟩ := SmartString.write_eq_ok.mp h
  rw [hc', hc, List.take_left' rfl, hlen, ← List.append_assoc before old behind,
    List.drop_left' (by simp), List.append_assoc]

/-- Bytes written a little behind others. -/
theorem write_behind {s s' : SmartString} {before bs more : Bytes} {gap : Nat}
    (hc : s.c = before ++ more) (h : s.write (before.length + gap) bs = .ok s') :
    ∃ skipped more', skipped.length = gap ∧ s'.c = before ++ (skipped ++ (bs ++ more')) := by
  obtain ⟨hroom, -, -, -⟩ := SmartString.write_eq_ok.mp h
  rw [hc, List.length_append] at hroom
  have hgap : (more.take gap).length = gap := by
    rw [List.length_take]
    omega
  have hsplit : s.c = (before ++ more.take gap) ++
      ((more.drop gap).take bs.length ++ (more.drop gap).drop bs.length) := by
    rw [List.take_append_drop, List.append_assoc, List.take_append_drop, hc]
  have hold : bs.length = ((more.drop gap).take bs.length).length := by
    rw [List.length_take, List.length_drop]
    omega
  refine ⟨more.take gap, (more.drop gap).drop bs.length, hgap, ?_⟩
  rw [write_over hsplit hold (by rwa [List.length_append, hgap]), List.append_assoc]

theorem tpEnsure_spec {size : Nat} {s : TpState} (h : s.tp.Healthy) :
    Wlp (tpEnsure size) (fun ok s' => ok = true ∧ s'.tp.Healthy ∧ s'.tp.size = s.tp.size ∧
      s'.tp.sync = s.tp.sync ∧ ∀ bytes, s.Wrote bytes → s'.Wrote bytes) s := by
  refine .bind (.get ?_)
  refine .ite (fun _ => .pure ⟨rfl, h, rfl, rfl, fun _ h => h⟩) fun _ => ?_
  refine .bind (.set (.pure ⟨decide_eq_true (h 0), fun n => h (n + 1), rfl, rfl, fun bytes hw => ?_⟩))
  obtain ⟨more, hmore⟩ := hw.memory
  obtain ⟨fresh, hfresh⟩ := ensure_prefix s.str size
  exact ⟨⟨more ++ fresh, by simp only [beeTpReserve, hfresh, hmore, List.append_assoc]⟩, hw.p⟩

theorem tpWrite_spec {pos : Nat} {bs : Bytes} {s : TpState} :
    Wlp (tpWrite pos bs) (fun _ s' => s'.tp = s.tp ∧ s.str.write pos bs = .ok s'.str) s := by
  refine .bind (.get (.bind (.lift fun str hstr => .set ?_)))
  exact ⟨rfl, hstr⟩

theorem tpAdd_spec {ndebug : Bool} {size start : Nat} {s : TpState} (h : s.tp.size = some start) :
    Wlp (tpAdd ndebug size) (fun _ s' => s'.tp = { s.tp with p := s.tp.p + size } ∧
      s.str.write start (0xce :: toBE 4 (toUint32 (toSize ((s.tp.p + size : Nat) - start - 5)))) =
        .ok s'.str) s := by
  refine .bind (.get ?_)
  simp only [h]
  refine .bind (.lift fun str hstr => .set ?_)
  exact ⟨rfl, hstr⟩

/-- The length of a frame, of which only the low 32 bits are written. -/
theorem frameLength {start n : Nat} :
    toBE 4 (toUint32 (toSize ((start + (5 + n) : Nat) - start - 5))) = toBE 4 n := by
  have hsize : toSize ((start + (5 + n) : Nat) - start - 5) = n % 2 ^ 64 := by
    unfold toSize
    omega
  rw [hsize, toUint32]
  have hmod : n % 2 ^ 64 % 2 ^ 32 = n % 256 ^ 4 := by omega
  rw [hmod]
  have hadd := toBE_add_mul 4 (n / 256 ^ 4) (n % 256 ^ 4)
  rw [Nat.div_add_mod' n (256 ^ 4)] at hadd
  exact hadd.symm

/-- A new request. -/
theorem tpRequest_spec {ndebug : Bool} {type sz : Nat} {body done : Bytes} {s : TpState}
    (hsize : 5 + (mpSizeofMap 2 + mpSizeofUint tpCode + mpSizeofUint type + mpSizeofUint tpSync) + 5 +
      body.length = sz) (hwrote : s.Wrote done) (h : s.tp.Healthy) :
    Wlp (tpRequest ndebug type sz body) (fun _ s' => ∃ payload, payload.length + 5 = sz ∧
      s'.Writing done payload) s := by
  refine .bind ((tpEnsure_spec h).mono ?_)
  rintro ok s₁ ⟨rfl, hhealthy, -, -, hkeeps⟩
  have hwrote₁ := hkeeps done hwrote
  obtain ⟨more, hmore⟩ := hwrote₁.memory
  have hp := hwrote₁.p
  refine .ite (fun _ => .bind (.get (.bind (.set (.bind (tpWrite_spec.mono ?_))))))
    fun hno => absurd rfl hno
  rintro - ⟨tp, str⟩ ⟨rfl, hwrite⟩
  refine (@tpAdd_spec _ _ done.length _ (by rw [← hp])).mono ?_
  rintro - ⟨tp, str'⟩ ⟨rfl, hadd⟩
  simp only [hp] at hwrite hadd
  obtain ⟨skipped, more', hskipped, hc⟩ := write_behind hmore hwrite
  have hheader : (mpEncodeMap 2 ++ mpEncodeUint tpCode ++ mpEncodeUint type ++
      mpEncodeUint tpSync).length =
        mpSizeofMap 2 + mpSizeofUint tpCode + mpSizeofUint type + mpSizeofUint tpSync := by
    simp only [List.length_append, mpEncodeMap_length, mpEncodeUint_length]
  generalize mpEncodeMap 2 ++ mpEncodeUint tpCode ++ mpEncodeUint type ++ mpEncodeUint tpSync =
    header at hc hheader hwrite
  let payload := header ++ 0xce :: toBE 4 0 ++ body
  have hpayload : 5 + payload.length = sz := by
    simp only [payload, List.length_append, List.length_cons, toBE_length]
    omega
  rw [← hpayload, frameLength] at hadd
  have hover := write_over hc (by rw [hskipped, List.length_cons, toBE_length]) hadd
  refine ⟨payload, by omega, ⟨⟨more', ?_⟩, ?_⟩, by rw [hp], ?_, hhealthy⟩
  · simp only [frame, List.append_assoc]
    exact hover
  · simp only [hp, List.length_append, frame_length]
    omega
  · refine ⟨done.length + 5 + header.length, ?_, by omega, ?_⟩
    · simp only [hp]
    · simp only [hp]
      omega

/-- A value added to a request. -/
theorem tpAppend_spec {ndebug : Bool} {sz : Nat} {bs done payload : Bytes} {s : TpState}
    (hsize : bs.length = sz) (h : s.Writing done payload) :
    Wlp (tpAppend ndebug sz bs) (fun _ s' => s'.Writing done (payload ++ bs)) s := by
  refine .bind ((tpEnsure_spec h.healthy).mono ?_)
  rintro ok s₁ ⟨rfl, hhealthy, hstart, hsync, hkeeps⟩
  have hwrote := hkeeps _ h.wrote
  obtain ⟨more, hmore⟩ := hwrote.memory
  have hp := hwrote.p
  refine .ite (fun _ => .bind (.get (.bind (tpWrite_spec.mono ?_)))) fun hno => absurd rfl hno
  rintro - ⟨tp, str⟩ ⟨rfl, hwrite⟩
  have hsize₁ : s₁.tp.size = some done.length := hstart.trans h.size
  refine (@tpAdd_spec _ _ done.length ⟨s₁.tp, str⟩ hsize₁).mono ?_
  rintro - ⟨tp, str'⟩ ⟨rfl, hadd⟩
  simp only [hp] at hwrite hadd
  obtain ⟨skipped, more', hskipped, hc⟩ := @write_behind _ _ _ _ _ 0 hmore hwrite
  obtain rfl := List.length_eq_zero_iff.mp hskipped
  have hlen : (done ++ frame payload).length + sz = done.length + (5 + (payload ++ bs).length) := by
    simp only [List.length_append, frame_length]
    omega
  rw [hlen, frameLength] at hadd
  have hc' : str.c = done ++ ((0xce :: toBE 4 payload.length) ++ (payload ++ bs ++ more')) := by
    simpa only [frame, List.append_assoc, List.nil_append] using hc
  have hover := write_over hc' (by simp only [List.length_cons, toBE_length]) hadd
  refine ⟨⟨⟨more', ?_⟩, ?_⟩, hstart.trans h.size, ?_, hhealthy⟩
  · simp only [frame, List.append_assoc] at hover ⊢
    exact hover
  · simp only [hp, hlen]
    simp only [List.length_append, frame_length]
  · obtain ⟨pos, hpos, hlo, hhi⟩ := h.sync
    have hp' := h.wrote.p
    refine ⟨pos, hsync.trans hpos, hlo, ?_⟩
    simp only [hp]
    omega

/-- A sync written into a request. -/
theorem tpReqid_spec {ndebug : Bool} {id : UInt32} {done payload : Bytes} {s : TpState}
    (h : s.Writing done payload) : Wlp (tpReqid ndebug id) (fun _ s' => ∃ payload',
      payload'.length = payload.length ∧ s'.Writing done payload') s := by
  obtain ⟨pos, hpos, hlo, hhi⟩ := h.sync
  refine .bind (.get ?_)
  simp only [hpos]
  refine tpWrite_spec.mono ?_
  rintro - ⟨tp, str⟩ ⟨rfl, hwrite⟩
  obtain ⟨more, hmore⟩ := h.wrote.memory
  have hp := h.wrote.p
  simp only [List.length_append, frame_length] at hp
  -- the sync stands inside the payload
  obtain ⟨before, old, behind, hsplit, hbefore, hold⟩ : ∃ before old behind : Bytes,
      payload = before ++ (old ++ behind) ∧ done.length + 5 + before.length = pos ∧ old.length = 5 := by
    refine ⟨payload.take (pos - done.length - 5), (payload.drop (pos - done.length - 5)).take 5,
      (payload.drop (pos - done.length - 5)).drop 5, ?_, ?_, ?_⟩
    · rw [List.take_append_drop, List.take_append_drop]
    · rw [List.length_take]
      omega
    · rw [List.length_take, List.length_drop]
      omega
  have hc : s.str.c = (done ++ (0xce :: toBE 4 payload.length) ++ before) ++
      (old ++ (behind ++ more)) := by
    rw [hmore, frame, hsplit]
    simp only [List.append_assoc]
  have hlen : (done ++ (0xce :: toBE 4 payload.length) ++ before).length = pos := by
    simp only [List.length_append, List.length_cons, toBE_length]
    omega
  let sync := 0xce :: toBE 4 id.toNat
  have hsync : sync.length = old.length := by simp only [sync, List.length_cons, toBE_length, hold]
  have hover : str.c = _ := write_over hc hsync (by rw [hlen]; exact hwrite)
  have hpayload : (before ++ (sync ++ behind)).length = payload.length := by
    rw [hsplit]
    simp only [List.length_append, hsync]
  refine ⟨before ++ (sync ++ behind), hpayload, ⟨⟨more, ?_⟩, ?_⟩, h.size, h.sync, h.healthy⟩
  · rw [hover, frame, hpayload]
    simp only [List.append_assoc]
  · simp only [hp, List.length_append, frame_length] at hpayload ⊢
    omega

/-! ## Requests in a row -/

/-- So many whole requests have been written. -/
def TpState.Whole (s : TpState) (n : Nat) : Prop :=
  ∃ payloads : List Bytes, payloads.length = n ∧ (∀ p ∈ payloads, p.length < 2 ^ 32) ∧
    s.Wrote (payloads.map frame).flatten ∧ s.tp.Healthy

/-- Behind so many whole requests stands one whose payload has at most `size` bytes. -/
def TpState.Open (s : TpState) (n size : Nat) : Prop :=
  ∃ (payloads : List Bytes) (payload : Bytes), payloads.length = n ∧
    (∀ p ∈ payloads, p.length < 2 ^ 32) ∧ payload.length ≤ size ∧
    s.Writing (payloads.map frame).flatten payload

theorem TpState.Open.whole {s : TpState} {n size : Nat} (h : s.Open n size) (hsize : size < 2 ^ 32) :
    s.Whole (n + 1) := by
  obtain ⟨payloads, payload, rfl, hlt, hle, hwriting⟩ := h
  refine ⟨payloads ++ [payload], by simp, ?_, ?_, hwriting.healthy⟩
  · intro p hp
    rcases List.mem_append.mp hp with hp | hp
    · exact hlt p hp
    · rw [List.mem_singleton.mp hp]
      omega
  · simpa using hwriting.wrote

section Calls

variable {ndebug : Bool} {s : TpState} {n size : Nat}

theorem tpRequest_open {type sz : Nat} {body : Bytes}
    (hsize : 5 + (mpSizeofMap 2 + mpSizeofUint tpCode + mpSizeofUint type + mpSizeofUint tpSync) + 5 +
      body.length = sz) (h : s.Whole n) :
    Wlp (tpRequest ndebug type sz body) (fun _ s' => s'.Open n sz) s := by
  obtain ⟨payloads, hlen, hlt, hwrote, hhealthy⟩ := h
  refine (tpRequest_spec hsize hwrote hhealthy).mono ?_
  rintro - s' ⟨payload, hpayload, hwriting⟩
  exact ⟨payloads, payload, hlen, hlt, by omega, hwriting⟩

theorem tpAppend_open {sz : Nat} {bs : Bytes} (hsize : bs.length = sz) (h : s.Open n size) :
    Wlp (tpAppend ndebug sz bs) (fun _ s' => s'.Open n (size + sz)) s := by
  obtain ⟨payloads, payload, hlen, hlt, hle, hwriting⟩ := h
  refine (tpAppend_spec hsize hwriting).mono fun _ s' hwriting' => ?_
  refine ⟨payloads, payload ++ bs, hlen, hlt, ?_, hwriting'⟩
  rw [List.length_append]
  omega

theorem TpState.Open.mono {size' : Nat} (h : s.Open n size) (hle : size ≤ size') : s.Open n size' := by
  obtain ⟨payloads, payload, hlen, hlt, hsize, hwriting⟩ := h
  exact ⟨payloads, payload, hlen, hlt, by omega, hwriting⟩

theorem mpSizeofMap_le (n : Nat) : mpSizeofMap n ≤ 5 := by
  unfold mpSizeofMap
  split_ifs <;> omega

theorem tpSelect_open {space index offset limit : Nat} (h : s.Whole n) :
    Wlp (tpSelect ndebug space index offset limit) (fun _ s' => s'.Open n 200) s := by
  refine (tpRequest_open ?_ h).mono fun _ s' hopen => hopen.mono ?_
  · simp only [List.length_append, mpEncodeMap_length, mpEncodeUint_length]
    omega
  · have hmap := mpSizeofMap_le 2
    have hmap' := mpSizeofMap_le 5
    have hcode := mpSizeofUint_le tpCode
    have htype := mpSizeofUint_le tpSelectType
    have hsync := mpSizeofUint_le tpSync
    have hspace := mpSizeofUint_le tpSpace
    have hspace' := mpSizeofUint_le space
    have hindex := mpSizeofUint_le tpIndex
    have hindex' := mpSizeofUint_le index
    have hoffset := mpSizeofUint_le tpOffset
    have hoffset' := mpSizeofUint_le offset
    have hlimit := mpSizeofUint_le tpLimit
    have hlimit' := mpSizeofUint_le limit
    have hkey := mpSizeofUint_le tpKeyField
    omega

theorem signedInt_eq_ok {i j : Int} (h : signedInt i = .ok j) : j = i ∧ i ≤ intMax := by
  unfold signedInt at h
  split_ifs at h with hint
  exact ⟨(Except.ok.inj h).symm, hint.2⟩

theorem tpAuth_open {scramble : Bytes → Bytes → Bytes} {salt user : Bytes} {pass : Option Bytes}
    (hscramble : ∀ pass, (scramble salt pass).length = scrambleSize) (huser : user.length < 2 ^ 31)
    (h : s.Whole n) :
    Wlp (tpAuth ndebug scramble salt user pass) (fun _ s' => s'.Open n (2 ^ 31)) s := by
  refine .bind (.lift fun sz hsz => ?_)
  obtain ⟨rfl, hint⟩ := signedInt_eq_ok hsz
  have hlength := @authBody_length _ _ _ pass hscramble huser
  refine (@tpRequest_open _ _ _ _ _ (authBody scramble salt user pass) ?_ h).mono
    fun _ s' hopen => hopen.mono ?_
  · rw [hlength]
    omega
  · unfold intMax at hint
    omega

theorem tpKey_open {parts : Nat} (h : s.Open n size) :
    Wlp (tpKey ndebug parts) (fun _ s' => s'.Open n (size + 5)) s :=
  (tpAppend_open (mpEncodeArray_length parts) h).mono fun _ _ hopen =>
    hopen.mono (Nat.add_le_add_left (mpSizeofArray_le parts) size)

theorem tpEncodeUint_open {num : Nat} (h : s.Open n size) :
    Wlp (tpEncodeUint ndebug num) (fun _ s' => s'.Open n (size + 9)) s :=
  (tpAppend_open (mpEncodeUint_length num) h).mono fun _ _ hopen =>
    hopen.mono (Nat.add_le_add_left (mpSizeofUint_le num) size)

theorem tpEncodeStr_open {str : Bytes} (hstr : str.length < 2 ^ 31) (h : s.Open n size) :
    Wlp (tpEncodeStr ndebug str) (fun _ s' => s'.Open n (size + 2 ^ 31)) s := by
  refine .bind (.lift fun sz hsz => ?_)
  obtain ⟨rfl, hint⟩ := signedInt_eq_ok hsz
  refine (tpAppend_open ?_ h).mono fun _ _ hopen => hopen.mono ?_
  · rw [mpEncodeStr_length hstr, Int.toNat_natCast]
  · unfold intMax at hint
    omega

theorem tpReqid_open {id : UInt32} (h : s.Open n size) :
    Wlp (tpReqid ndebug id) (fun _ s' => s'.Open n size) s := by
  obtain ⟨payloads, payload, hlen, hlt, hle, hwriting⟩ := h
  refine (tpReqid_spec hwriting).mono ?_
  rintro - s' ⟨payload', hpayload', hwriting'⟩
  exact ⟨payloads, payload', hlen, hlt, by omega, hwriting'⟩

end Calls

/-! ## Requests of the connection -/

section Requests

variable {P : Platform} {w : World}

theorem runTp_writer {x : TpM Unit} {Q : TpState → Prop} (h : Wlp x (fun _ => Q) w.writer) :
    Wlp (runTp x) (fun _ w' => Q w'.writer) w := (runTp_spec h).mono fun _ _ h => h.1

theorem reqidNext_open {n size : Nat} (h : w.writer.Open n size) :
    Wlp (reqidNext P) (fun _ w' => w'.writer.Open n size) w := by
  refine .bind (.bind (.get (.bind (.set (.pure ?_)))))
  let w₁ : World := { w with syncCounter := w.syncCounter + 1 }
  have h₁ : w₁.writer.Open n size := h
  exact .bind ((runTp_writer (tpReqid_open h₁)).mono fun _ w' h' => .pure h')

/-- The request of a lookup of a space is one frame. -/
theorem spaceRequest_whole {name : Bytes} (hname : name.length < 2 ^ 31) {n : Nat}
    (h : w.writer.Whole n) :
    Wlp (spaceRequest P name) (fun _ w' => w'.writer.Whole (n + 1)) w := by
  refine .bind ((runTp_writer (tpSelect_open h)).mono fun _ w₁ h₁ => ?_)
  refine .bind ((runTp_writer (tpKey_open h₁)).mono fun _ w₂ h₂ => ?_)
  refine .bind ((runTp_writer (tpEncodeStr_open hname h₂)).mono fun _ w₃ h₃ => ?_)
  exact .bind ((reqidNext_open h₃).mono fun _ w₄ h₄ => .pure (h₄.whole (by decide)))

theorem indexRequest_whole {spaceNo : Int} {name : Bytes} (hname : name.length < 2 ^ 31) {n : Nat}
    (h : w.writer.Whole n) :
    Wlp (indexRequest P spaceNo name) (fun _ w' => w'.writer.Whole (n + 1)) w := by
  refine .bind ((runTp_writer (tpSelect_open h)).mono fun _ w₁ h₁ => ?_)
  refine .bind ((runTp_writer (tpKey_open h₁)).mono fun _ w₂ h₂ => ?_)
  refine .bind ((runTp_writer (tpEncodeUint_open h₂)).mono fun _ w₃ h₃ => ?_)
  refine .bind ((runTp_writer (tpEncodeStr_open hname h₃)).mono fun _ w₄ h₄ => ?_)
  exact .bind ((reqidNext_open h₄).mono fun _ w₅ h₅ => .pure (h₅.whole (by decide)))

/-- A request for all rows of a space. -/
theorem listRequest_whole {space : Nat} {n : Nat} (h : w.writer.Whole n) {α : Type} {k : UInt32 → M α}
    {Q : α → World → Prop} (hk : ∀ sync w', w'.writer.Whole (n + 1) → Wlp (k sync) Q w') :
    Wlp (do
      runTp (tpSelect P.ndebug space 0 0 4096)
      runTp (tpKey P.ndebug 0)
      let sync ← reqidNext P
      k sync) Q w := by
  refine .bind ((runTp_writer (tpSelect_open h)).mono fun _ w₁ h₁ => ?_)
  refine .bind ((runTp_writer (tpKey_open h₁)).mono fun _ w₂ h₂ => ?_)
  exact .bind ((reqidNext_open h₂).mono fun sync w₃ h₃ => hk sync w₃ (h₃.whole (by decide)))

/-- The requests of an authentication are three frames. -/
theorem authRequests_whole (hlogin : w.obj.login.length < 2 ^ 31) {n : Nat} (h : w.writer.Whole n) :
    Wlp (authRequests P) (fun _ w' => w'.writer.Whole (n + 3)) w := by
  refine .bind (getObj_wlp (.bind ?_))
  refine (runTp_writer (tpAuth_open (P.scramble_length _) hlogin h)).mono fun _ w₁ h₁ => ?_
  refine .bind ((reqidNext_open h₁).mono fun auth w₂ h₂ => ?_)
  refine listRequest_whole (h₂.whole (by decide)) fun space w₃ h₃ => ?_
  exact listRequest_whole h₃ fun index w₄ h₄ => .pure h₄

theorem setLen_eq {s s' : SmartString} {n : Nat} (h : s.setLen n = .ok s') :
    s'.c = s.c ∧ s'.len = n := by
  unfold SmartString.setLen at h
  split_ifs at h with hn
  cases h
  exact ⟨rfl, rfl⟩

/-- The buffer holds the requests that were composed. -/
theorem composeTp_whole {α : Type} {body : M α} {n : Nat} (hhealthy : w.obj.tps.Healthy)
    (hbody : ∀ w₁ : World, w₁.obj.login = w.obj.login → w₁.writer.Whole 0 →
      Wlp body (fun _ w' => w'.writer.Whole n) w₁) :
    Wlp (composeTp body) (fun _ w' => w'.obj.tps.Healthy ∧ ∃ payloads : List Bytes,
      payloads.length = n ∧ (∀ p ∈ payloads, p.length < 2 ^ 32) ∧
        w'.obj.value.data = (payloads.map frame).flatten) w := by
  refine .bind (getObj_wlp (.bind (.modify (.bind ?_))))
  let w₁ : World := { w with obj := { w.obj with tps := beeTpUpdate w.obj.tps w.obj.value } }
  have hwhole : w₁.writer.Whole 0 := ⟨[], rfl, by simp, ⟨⟨w.obj.value.c, rfl⟩, rfl⟩, hhealthy⟩
  refine (hbody w₁ rfl hwhole).mono ?_
  rintro a w' ⟨payloads, hlen, hlt, ⟨⟨more, hmore⟩, hp⟩, hhealthy'⟩
  refine .bind (getObj_wlp (.bind (.lift fun value hvalue => ?_)))
  refine .bind (.modify (.bind (.modify (.pure ⟨hhealthy', payloads, hlen, hlt, ?_⟩))))
  obtain ⟨hc, hlen'⟩ := setLen_eq hvalue
  change value.c.take value.len = _
  have hmore' : w'.obj.value.c = _ := hmore
  have hp' : w'.obj.tps.p = _ := hp
  rw [hc, hlen', hmore', tpUsed, hp', List.take_left' rfl]

end Requests

/-! ## Reading a frame -/

/-- The receive loops of the lookups and of the authentication take a frame off the stream, and give it
up if no `int` holds its length. -/
theorem readPacket_frame {w : World} {stream : Stream} {payload rest : Bytes}
    (hsize : payload.length < 2 ^ 32) (hprompt : w.net.Prompt .other)
    (hstream : w.obj.stream = some { stream with inbox := frame payload ++ rest }) :
    ∃ value net, readPacket w = .ok
        (if payload.length < 2 ^ 31 then none else some (.body payload.length),
          { w with
            obj := { w.obj with stream := some { stream with inbox := rest }, value := value }
            net := net }) ∧
      w.net.Later net ∧ value.len = w.obj.value.len ∧ ∃ left, value.c = payload ++ left := by
  have hpack := phpMpUnpackPackageSize_frame hsize
  obtain ⟨ls, w₁, hdel, hread⟩ := readLength_delivers .other hstream
  have hls : ls.length = 5 := hdel.all hprompt (by simp [frame])
  obtain ⟨rest₁, net, hinbox, hlater, rfl⟩ := hdel.after
  have hinbox' : (0xce :: toBE 4 payload.length) ++ (payload ++ rest) = ls ++ rest₁ := by
    rw [← hinbox]
    simp [frame]
  obtain ⟨rfl, rfl⟩ := List.append_inj hinbox' (by simp [hls])
  obtain ⟨hlen, -, hroom⟩ := w.obj.value.ensure_spec payload.length
  simp only [SmartString.a] at hroom
  let w₂ := (w.after { stream with inbox := frame payload ++ rest } (payload ++ rest) net).withValue
    (w.obj.value.ensure payload.length)
  have hfit : 0 + payload.length ≤ w₂.obj.value.c.length := by
    show 0 + _ ≤ (w.obj.value.ensure payload.length).c.length
    omega
  obtain ⟨bs, value, w₃, hdel', hwrite, hvalue⟩ := readValue_delivers .other hfit
    (show w₂.obj.stream = some { stream with inbox := payload ++ rest } from rfl)
  have hbs : bs.length = payload.length := hdel'.all (hlater.prompt hprompt) (by simp)
  obtain ⟨rest₂, net', hinbox, hlater', rfl⟩ := hdel'.after
  obtain ⟨rfl, rfl⟩ := List.append_inj hinbox hbs.symm
  obtain ⟨-, hlen', -, hc⟩ := SmartString.write_eq_ok.mp hwrite
  refine ⟨value, net', ?_, hlater.trans hlater', hlen'.trans hlen, _, by simpa using hc⟩
  have hmodify : modifyObj (fun obj => { obj with value := obj.value.ensure payload.length })
      (w.after { stream with inbox := frame payload ++ rest } (payload ++ rest) net) = .ok ((), w₂) := rfl
  have hnone : ([0, 0, 0, 0, 0] : Bytes).drop 5 = [] := rfl
  rw [readPacket, run_bind hread]
  simp only [hls, hnone, List.append_nil, ne_eq, not_true_eq_false, if_false]
  rw [run_bind (run_lift hpack _), run_bind hmodify, run_bind hvalue]
  by_cases hint : payload.length < 2 ^ 31
  · rw [hbs, toSize_toInt hint, if_pos hint]
    simp only [not_true_eq_false, if_false]
    rfl
  · rw [if_neg hint, hbs, if_pos (toSize_toInt_ne (by omega) hsize)]
    rfl

end BeePhp
