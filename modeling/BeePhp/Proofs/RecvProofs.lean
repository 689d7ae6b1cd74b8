import BeePhp.Received
import BeePhp.Proofs.HeaderProofs
import BeePhp.Proofs.NetworkProofs
import BeePhp.Proofs.WorldProofs
import BeePhp.Msgpack.Proofs.CheckedProofs

/-!
# Proofs: receiving a response

`stepDecode_run` and `stepDecode_some` say when a payload in the buffer is decoded with success,
`Receives.decodes` that `bee_step_recv` does so with the payload it has read, and `receives_frame` that it
reads a frame however it is cut into chunks.
-/

namespace BeePhp

open Codec Program

/-! ## The branches that fail -/

theorem stepError_none (w : World) : Wlp stepError (fun r _ => r = none) w :=
  .bind fun _ _ _ => .pure rfl

theorem stepErrorCon_none (w : World) : Wlp stepErrorCon (fun r _ => r = none) w :=
  .bind fun _ _ _ => stepError_none _

theorem stepQueryError_none (P : Platform) (code body : PVal) (w : World) :
    Wlp (stepQueryError P code body) (fun r _ => r = none) w := by
  cases body with
  | arr entries next =>
    simp only [stepQueryError]
    cases indexFind entries beexError with
    | none => exact .throw
    | some errstr =>
      cases errstr with
      | str s => exact .bind fun _ _ _ => stepError_none _
      | bin s => exact .ite (fun _ => .bind fun _ _ _ => stepError_none _) fun _ => .throw
      | _ => exact .throw
  | _ => exact .throw

theorem unpackFailed_none {h : Halt} {k : M (Option (PVal × PVal))} {w : World}
    (hk : ∀ w, Wlp k (fun r _ => r = none) w) : Wlp (unpackFailed h k) (fun r _ => r = none) w := by
  cases h with
  | fault f => exact .throw
  | failure thrown =>
    cases thrown with
    | none => exact hk w
    | some text => exact .bind fun _ _ _ => hk _

/-! ## A payload in the buffer -/

/-- The buffer begins with a header and a body that `stepDecode` returns. -/
structure Decodes (check : Bytes → Nat → Except Fault Nat) (P : Platform) (sync : UInt64)
    (bodySize : Nat) (c : Bytes) (h b : PVal) : Prop where
  header : check c bodySize = .ok 0
  decoded : ∃ entries next pos rest, phpMpUnpack P.ndebug c = .ok (.arr entries next, pos) ∧
    h = .arr entries next ∧ Accepts P sync entries ∧ check pos bodySize = .ok 0 ∧
    phpMpUnpack P.ndebug pos = .ok (b, rest)

theorem stepFinish_run {P : Platform} {sync : UInt64} {entries : List (Key × PVal)}
    (h : Accepts P sync entries) (next : UInt64) (body : PVal) (w : World) :
    stepFinish P sync entries next body w = .ok (some (.arr entries next, body), w.cleared) := by
  have hsync : ((indexFind entries beexSync).any fun val => (zLval P val).toUInt64 != sync) =
      false := by
    cases hval : indexFind entries beexSync with
    | none => rfl
    | some val => simp [h.sync val hval]
  obtain ⟨code, hcode, hzero⟩ := h.code
  simp only [stepFinish, hsync, Bool.false_eq_true, if_false, hcode, if_pos hzero]
  exact run_bind (resetValue_run w)

theorem stepFinish_some (P : Platform) (sync : UInt64) (entries : List (Key × PVal)) (next : UInt64)
    (body : PVal) (w : World) : Wlp (stepFinish P sync entries next body)
      (fun r _ => ∀ v, r = some v → v = (.arr entries next, body) ∧ Accepts P sync entries) w := by
  have hnone {x : M (Option (PVal × PVal))} {w : World} (h : Wlp x (fun r _ => r = none) w) :
      Wlp x (fun r _ => ∀ v, r = some v →
        v = (.arr entries next, body) ∧ Accepts P sync entries) w :=
    h.mono fun r _ hr v hv => by simp [hr] at hv
  simp only [stepFinish]
  refine .ite (fun _ => .bind fun _ _ _ => hnone (stepErrorCon_none _)) fun hsync => ?_
  cases hcode : indexFind entries beexCode with
  | none => exact .bind fun _ _ _ => hnone (stepErrorCon_none _)
  | some code =>
    refine .ite (fun hzero => .bind fun _ _ _ => .pure ?_) fun _ => hnone (stepQueryError_none P code body _)
    intro v hv
    refine ⟨(Option.some.inj hv).symm, ⟨fun val hval => ?_, code, hcode, hzero⟩⟩
    simpa [hval] using hsync

/-- A payload is decoded with success from a buffer that decodes. -/
theorem stepDecode_run {check : Bytes → Nat → Except Fault Nat} {P : Platform} {sync : UInt64}
    {bodySize : Nat} {w : World} {h b : PVal}
    (hdec : Decodes check P sync bodySize w.obj.value.c h b) :
    stepDecode check P sync bodySize w = .ok (some (h, b), w.cleared) := by
  obtain ⟨hcheck, entries, next, pos, rest, hheader, rfl, hacc, hcheck', hbody⟩ := hdec
  rw [stepDecode, run_bind (getObj_run w), run_bind (run_lift hcheck w), if_neg (by simp)]
  simp only [hheader]
  rw [run_bind (run_lift hcheck' w), if_neg (by simp)]
  simp only [hbody]
  exact stepFinish_run hacc next b w

/-- Only from such a buffer. -/
theorem stepDecode_some (check : Bytes → Nat → Except Fault Nat) (P : Platform) (sync : UInt64)
    (bodySize : Nat) (w : World) : Wlp (stepDecode check P sync bodySize) (fun r _ => ∀ h b,
      r = some (h, b) → Decodes check P sync bodySize w.obj.value.c h b) w := by
  have hnone {x : M (Option (PVal × PVal))} {w' : World} (h : Wlp x (fun r _ => r = none) w') :
      Wlp x (fun r _ => ∀ h b, r = some (h, b) →
        Decodes check P sync bodySize w.obj.value.c h b) w' :=
    h.mono fun r _ hr h b hv => by simp [hr] at hv
  refine .bind (getObj_wlp ?_)
  refine .bind (.lift fun status hcheck => .ite (fun _ => .bind fun _ _ _ => hnone (stepError_none _))
    fun hstatus => ?_)
  obtain rfl : status = 0 := by simpa using hstatus
  cases hheader : phpMpUnpack P.ndebug w.obj.value.c with
  | error e => exact hnone (unpackFailed_none stepError_none)
  | ok r =>
    obtain ⟨h, pos⟩ := r
    cases h with
    | arr entries next =>
      refine .bind (.lift fun status hcheck' => .ite
        (fun _ => .bind fun _ _ _ => hnone (stepErrorCon_none _)) fun hstatus' => ?_)
      obtain rfl : status = 0 := by simpa using hstatus'
      cases hbody : phpMpUnpack P.ndebug pos with
      | error e => exact hnone (unpackFailed_none stepError_none)
      | ok r =>
        obtain ⟨body, rest⟩ := r
        refine (stepFinish_some P sync entries next body w).mono fun r _ hr h b hv => ?_
        obtain ⟨hpair, hacc⟩ := hr _ hv
        obtain ⟨rfl, rfl⟩ := Prod.mk.inj hpair
        exact ⟨hcheck, entries, next, pos, rest, hheader, rfl, hacc, hcheck', hbody⟩
    | _ => exact hnone (stepError_none _)

/-! ## The payload comes into the buffer -/

/-- A payload is read to the end of the buffer. -/
theorem readBody_delivers (size : Nat) {w : World} {stream : Stream}
    (hstream : w.obj.stream = some stream) :
    ∃ bs value w', Delivers .other w stream size bs w' ∧
      (w.obj.value.ensure size).write w.obj.value.len bs = .ok value ∧
      readBody size w = .ok (toSize (toInt bs.length), w'.withValue value) := by
  obtain ⟨hlen, -, hroom⟩ := w.obj.value.ensure_spec size
  simp only [SmartString.a] at hroom
  have hfit : w.obj.value.len + size ≤
      (w.withValue (w.obj.value.ensure size)).obj.value.c.length := by
    show _ ≤ (w.obj.value.ensure size).c.length
    omega
  obtain ⟨bs, value, w', hdel, hwrite, hread⟩ := readValue_delivers .other hfit hstream
  obtain ⟨rest, net, hinbox, hlater, rfl⟩ := hdel.after
  refine ⟨bs, value, w.after stream rest net, ⟨hdel.le, hdel.all, rest, net, hinbox, hlater, rfl⟩,
    hwrite, ?_⟩
  have hmodify : modifyObj (fun obj => { obj with value := obj.value.ensure size }) w =
      .ok ((), w.withValue (w.obj.value.ensure size)) := rfl
  rw [readBody, run_bind hmodify, run_bind (getObj_run _)]
  simp only [World.withValue, hlen]
  exact hread

/-- A length of five bytes is less than 2^32. -/
theorem phpMpUnpackPackageSize_lt {packLen : Bytes} {n : Nat} (hlen : packLen.length = 5)
    (h : phpMpUnpackPackageSize packLen = .ok n) : n < 2 ^ 32 := by
  unfold phpMpUnpackPackageSize at h
  split at h
  case h_1 m rest hdecode =>
    obtain rfl := Except.ok.inj h
    obtain ⟨w, hbound, rfl⟩ := mpDecodeUint_ok hdecode
    cases w <;> simp [IntWidth.uintBound, IntWidth.uintHead] at hbound hlen <;> omega
  case h_2 => cases h

theorem readBody_returns (size : Nat) {w : World} {stream : Stream}
    (hstream : w.obj.stream = some stream) : ∃ n w', readBody size w = .ok (n, w') := by
  obtain ⟨bs, value, w', -, -, hbody⟩ := readBody_delivers size hstream
  exact ⟨_, _, hbody⟩

/-- A length and a body of that size are a payload. -/
theorem receives_of_read {check : Bytes → Nat → Except Fault Nat} {w w₂ : World} {stream : Stream}
    {inbox : Bytes} {net : Net} {packLen : Bytes} {size : Nat}
    (hlength : readLength .length w = .ok ((5, packLen), w.after stream inbox net))
    (hfive : packLen.length = 5) (hcheck : check packLen 5 = .ok 0)
    (hsize : phpMpUnpackPackageSize packLen = .ok size)
    (hbody : readBody size (w.after stream inbox net) = .ok (size, w₂)) :
    ∃ payload, Receives check w payload w₂ := by
  have hopen : (w.after stream inbox net).obj.stream = some { stream with inbox := inbox } := rfl
  obtain ⟨bs, value, w', hdel, -, hbody'⟩ := readBody_delivers size hopen
  obtain ⟨heq, -⟩ := Prod.mk.inj (Except.ok.inj (hbody'.symm.trans hbody))
  have hbs := eq_of_toSize_toInt hdel.le (phpMpUnpackPackageSize_lt hfive hsize) heq
  obtain ⟨rest, net', hsplit, -, -⟩ := hdel.after
  have hopen' : (w.after stream inbox net).obj.stream = some { stream with inbox := bs ++ rest } := by
    rw [← hsplit]
    rfl
  rw [← hbs] at hsize hbody
  exact ⟨bs, packLen, _, rest, stream, hlength, hcheck, hsize, hopen', hbody⟩

/-- A state has one payload. -/
theorem Receives.unique {check : Bytes → Nat → Except Fault Nat} {w w₁ w₂ : World}
    {payload₁ payload₂ : Bytes} (h₁ : Receives check w payload₁ w₁)
    (h₂ : Receives check w payload₂ w₂) : payload₁ = payload₂ := by
  obtain ⟨packLen, w', rest, stream, hlength, -, hsize, hstream, -⟩ := h₁
  obtain ⟨packLen', w'', rest', stream', hlength', -, hsize', hstream', -⟩ := h₂
  obtain ⟨heq, rfl⟩ := Prod.mk.inj (Except.ok.inj (hlength.symm.trans hlength'))
  obtain ⟨-, rfl⟩ := Prod.mk.inj heq
  have hlen := Except.ok.inj (hsize.symm.trans hsize')
  have hinbox := congrArg Stream.inbox (Option.some.inj (hstream.symm.trans hstream'))
  exact (List.append_inj hinbox hlen).1

/-- Once the payload is in the buffer, it is decoded there. -/
theorem Receives.decodes {check : Bytes → Nat → Except Fault Nat} {w w' : World} {payload : Bytes}
    (h : Receives check w payload w') (hlen : w.obj.value.len = 0) (P : Platform) (sync : UInt64) :
    ∃ w'', w''.obj.value.c = payload ++ w.obj.value.behind payload.length ∧
      w''.obj.stream = w'.obj.stream ∧ w''.exceptions = w.exceptions ∧
      beeStepRecvWith check P sync w = stepDecode check P sync payload.length w'' := by
  obtain ⟨packLen, w₁, rest, stream, hlength, hcheck, hsize, hstream, hbody⟩ := h
  obtain ⟨stream₀, hstream₀⟩ := readLength_stream hlength
  obtain ⟨ls, w₂, hdel, hread⟩ := readLength_delivers .length hstream₀
  obtain ⟨heq, rfl⟩ := Prod.mk.inj (Except.ok.inj (hlength.symm.trans hread))
  obtain ⟨hls, rfl⟩ := Prod.mk.inj heq
  obtain ⟨rest₀, net, -, -, rfl⟩ := hdel.after
  have hpack := phpMpUnpackPackageSize_lt (by simp; omega) hsize
  obtain ⟨bs, value, w₂, hdel', hwrite, hread'⟩ := readBody_delivers payload.length hstream
  obtain ⟨heq, rfl⟩ := Prod.mk.inj (Except.ok.inj (hbody.symm.trans hread'))
  have hbs := eq_of_toSize_toInt hdel'.le hpack heq.symm
  obtain ⟨rest', net', hinbox, -, rfl⟩ := hdel'.after
  obtain ⟨rfl, -⟩ := List.append_inj hinbox hbs.symm
  rw [World.after_value, hlen] at hwrite
  obtain ⟨hfit, hvlen, -, hc⟩ := SmartString.write_eq_ok.mp hwrite
  obtain ⟨hensure, -, hroom⟩ := w.obj.value.ensure_spec payload.length
  have hclen : value.c.length = (w.obj.value.ensure payload.length).c.length := by
    rw [hc]
    simp only [List.length_append, List.length_take, List.length_drop]
    omega
  rw [hlen] at hensure
  have hset : value.len + payload.length ≤ value.c.length := by
    simp only [SmartString.a] at hroom
    omega
  have hc' : value.c = payload ++ w.obj.value.behind payload.length := by
    rw [hc]
    simp [SmartString.behind]
  refine ⟨((w.after stream₀ rest₀ net).after _ rest' net').withValue
    { value with len := value.len + payload.length, len_le := hset }, hc', rfl, rfl, ?_⟩
  rw [beeStepRecvWith, run_bind hlength]
  dsimp only
  rw [if_neg (by simp), run_bind (run_lift hcheck _), if_neg (by simp), run_bind (run_lift hsize _),
    run_bind hbody, if_neg (by simp), run_bind (getObj_run _), run_bind (run_lift (dif_pos hset) _)]
  rfl

/-! ## Frames -/

/-- The validator accepts every document that ends before the bound. -/
def Accepting (check : Bytes → Nat → Except Fault Nat) : Prop :=
  ∀ (d : Doc) (rest : Bytes) (n : Nat), d.WF → d.encode.length ≤ n → n < 2 ^ 31 →
    check (d.encode ++ rest) n = .ok 0

theorem checkStatus_accepting : Accepting checkStatus := by
  intro d rest n hwf hsize hint
  simp only [checkStatus, phpMpCheck_doc hwf (light_of_length (by omega)) hsize rest]
  rfl

theorem ExactValidator.accepting {check : Bytes → Nat → Except Fault Nat} (h : ExactValidator check) :
    Accepting check := by
  intro d rest n hwf hsize _
  refine (h _ _).mpr ⟨d, rest.take (n - d.encode.length), hwf, ?_⟩
  rw [List.take_append, List.take_of_length_le hsize]

theorem exists_exactValidator : ∃ check, ExactValidator check := by
  classical
  refine ⟨fun b n => .ok (if ∃ (d : Doc) (rest : Bytes), d.WF ∧ b.take n = d.encode ++ rest
    then 0 else 1), fun b n => ?_⟩
  dsimp only
  by_cases h : ∃ (d : Doc) (rest : Bytes), d.WF ∧ b.take n = d.encode ++ rest
  · exact iff_of_true (by rw [if_pos h]) h
  · exact iff_of_false (by rw [if_neg h]; simp) h

/-- The length before a payload. -/
theorem phpMpUnpackPackageSize_frame {n : Nat} (h : n < 2 ^ 32) :
    phpMpUnpackPackageSize (0xce :: toBE 4 n) = .ok n := by
  have hread := mpDecodeUint_reads (w := .w32) (n := n) h []
  rw [List.append_nil] at hread
  simp only [phpMpUnpackPackageSize]
  rw [show (0xce :: toBE 4 n : Bytes) = IntWidth.w32.uintHead n from rfl, hread]
  rfl

theorem Accepting.packLen {check : Bytes → Nat → Except Fault Nat} (h : Accepting check) {n : Nat}
    (hn : n < 2 ^ 32) : check (0xce :: toBE 4 n) 5 = .ok 0 := by
  have hencode : (Doc.uint .w32 n).encode = 0xce :: toBE 4 n := rfl
  have hcheck := h (.uint .w32 n) [] 5 hn (by simp [hencode]) (by omega)
  rwa [List.append_nil, hencode] at hcheck

/-- A frame that has arrived is read by a prompt stream. -/
theorem receives_frame {check : Bytes → Nat → Except Fault Nat} (haccepting : Accepting check)
    {w : World} {stream : Stream} {payload rest : Bytes} (hpayload : payload.length < 2 ^ 31)
    (hlength : w.net.Prompt .length) (hother : w.net.Prompt .other)
    (hstream : w.obj.stream = some { stream with inbox := frame payload ++ rest }) :
    ∃ w', Receives check w payload w' ∧ w'.obj.stream = some { stream with inbox := rest } := by
  have hsize := phpMpUnpackPackageSize_frame (n := payload.length) (by omega)
  have hcheck := haccepting.packLen (n := payload.length) (by omega)
  obtain ⟨ls, w₁, hdel, hread⟩ := readLength_delivers .length hstream
  have hls : ls.length = 5 := hdel.all hlength (by simp [frame])
  obtain ⟨rest₁, net, hinbox, hlater, rfl⟩ := hdel.after
  have hinbox' : (0xce :: toBE 4 payload.length) ++ (payload ++ rest) = ls ++ rest₁ := by
    rw [← hinbox]
    simp [frame]
  obtain ⟨rfl, rfl⟩ := List.append_inj hinbox' (by simp [hls])
  obtain ⟨bs, value, w₂, hdel', -, hbody⟩ := readBody_delivers payload.length
    (w := w.after { stream with inbox := frame payload ++ rest } (payload ++ rest) net) rfl
  have hbs : bs.length = payload.length := hdel'.all (hlater.prompt hother) (by simp)
  obtain ⟨rest₂, net', hinbox, -, rfl⟩ := hdel'.after
  obtain ⟨rfl, rfl⟩ := List.append_inj hinbox hbs.symm
  rw [toSize_toInt hpayload] at hbody
  refine ⟨_, ⟨_, _, rest, stream, ?_, hcheck, hsize, rfl, hbody⟩, rfl⟩
  rw [hread, hls]
  simp

/-! ## An input -/

/-- A new connection whose stream delivers `inbox` in the given chunks. -/
def World.receiving (inbox : Bytes) (chunks : List Nat) : World :=
  let w := World.init (.new [] 3301 [] none none (fun _ => 0) fun _ => 0) false 0
  { w with obj := { w.obj with stream := some ⟨inbox, [], none⟩ }, net := { w.net with chunks } }

theorem receiving_prompt {inbox : Bytes} {chunks : List Nat} (h : ∀ c ∈ chunks, 0 < c)
    (kind : ReadKind) : (World.receiving inbox chunks).net.Prompt kind := by
  cases kind with
  | length => simp [Net.Prompt, World.receiving, World.init, Net.calm]
  | other => exact h

theorem receiving_stream (inbox : Bytes) (chunks : List Nat) :
    (World.receiving inbox chunks).obj.stream =
      some { (⟨[], [], none⟩ : Stream) with inbox := inbox ++ [] } := by
  rw [List.append_nil]
  rfl

/-- A frame in the stream of a new connection is received. -/
theorem receives_receiving {check : Bytes → Nat → Except Fault Nat} (haccepting : Accepting check)
    {payload : Bytes} (hpayload : payload.length < 2 ^ 31) :
    ∃ w', Receives check (.receiving (frame payload) []) payload w' := by
  have hprompt (kind : ReadKind) : (World.receiving (frame payload) []).net.Prompt kind :=
    receiving_prompt (List.forall_mem_nil _) kind
  obtain ⟨w', hreceives, -⟩ := @receives_frame check haccepting (.receiving (frame payload) [])
    ⟨[], [], none⟩ payload [] hpayload (hprompt .length) (hprompt .other) (receiving_stream _ _)
  exact ⟨w', hreceives⟩

/-- The buffer of a new connection is blank behind a payload. -/
theorem receiving_behind (inbox : Bytes) (chunks : List Nat) {n : Nat} (hn : n < 256) :
    (World.receiving inbox chunks).obj.value.behind n = List.replicate (257 - n) 0 := by
  have hc : (World.receiving inbox chunks).obj.value.c = List.replicate 257 0 := by
    simp [-List.reduceReplicate, World.receiving, World.init, Connection.new, SmartString.null,
      SmartString.ensure, SmartString.alloc4, SmartString.realloc, SmartString.a, greetingSize,
      SmartString.startSize, SmartString.prealloc]
  have hensure : (World.receiving inbox chunks).obj.value.ensure n =
      (World.receiving inbox chunks).obj.value :=
    if_pos (by
      simp only [SmartString.a, hc, List.length_replicate]
      exact (Nat.zero_add n).trans_lt hn)
  rw [SmartString.behind, hensure, hc, List.drop_replicate]

end BeePhp
