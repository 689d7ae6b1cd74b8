import BeePhp.Answered
import BeePhp.Proofs.AuthProofs
import BeePhp.Proofs.TrafficProofs

/-!
# Proofs: which response answers which request

While the server sends whole responses the stream is always in front of one (`World.Aligned`). So what
is read is the next response, and both parsers find its sync (`phpTpResponse_sync`,
`beeStepRecv_sync`). Used responses answer their requests, those of the lookups if they found their own
(`World.Paired`).
-/

namespace BeePhp

open Codec Program

/-! ## The two parsers -/

/-- The loop over the body does not touch the sync. -/
theorem responseBody_sync {n : Nat} {r : BeexResponse} {p : Bytes}
    {result : BeexResponse × Option Bytes} (h : responseBody n r p = .ok result) :
    result.1.sync = r.sync := by
  induction n generalizing r p with
  | zero =>
    obtain rfl := Except.ok.inj h
    rfl
  | succ n ih =>
    obtain ⟨⟨key, p₁⟩, -, h⟩ := except_bind_eq_ok.mp h
    dsimp only at h
    split_ifs at h
    · obtain ⟨t, -, h⟩ := except_bind_eq_ok.mp h
      split_ifs at h
      · obtain rfl := Except.ok.inj h
        rfl
      · obtain ⟨⟨error, p₂⟩, -, h⟩ := except_bind_eq_ok.mp h
        rw [ih h, mark_sync]
    · obtain ⟨t, -, h⟩ := except_bind_eq_ok.mp h
      split_ifs at h
      · obtain rfl := Except.ok.inj h
        rfl
      · obtain ⟨end', -, h⟩ := except_bind_eq_ok.mp h
        rw [ih h, mark_sync]
    · obtain ⟨p₂, -, h⟩ := except_bind_eq_ok.mp h
      rw [ih h, mark_sync]

/-- `php_tp_response` takes the sync from the header, whatever stands behind it. -/
theorem phpTpResponse_sync {payload : Bytes} {sync : UInt32} (hcarries : Carries payload sync)
    (hsize : payload.length < 2 ^ 31) {left : Bytes} {result : BeexResponse × Option Bytes}
    (h : phpTpResponse (payload ++ left) = .ok result) : result.1.sync = sync := by
  obtain ⟨header, hheaded, w, n, hvalue, hn⟩ := hcarries
  obtain ⟨sw, more, hwf, rfl⟩ := hheaded.bytes
  rw [List.length_append] at hsize
  obtain ⟨r₁, hrun, htaken⟩ := responseHeader_numbers (walkable hwf (by omega)) hheaded.numbers .zero
    (more ++ left)
  have hsync : r₁.sync = sync := by
    rw [htaken.sync w n (by rw [valueAt32_eq hheaded.keys hheaded.distinct, hvalue]),
      ← UInt32.toNat_inj, UInt32.toNat_ofNat', hn]
  have htype : typeAt ((Doc.map sw (entryDocs header)).encode ++ (more ++ left)) = .ok .map :=
    typeAt_doc ((Doc.wf_iff _).mp hwf).1 _
  rw [List.append_assoc, phpTpResponse] at h
  simp only [htype, decodeMap_entries hwf, hrun, bind, Except.bind, ne_eq, not_true_eq_false,
    if_false] at h
  -- the header is read, and what follows leaves the sync as it is
  cases hnext : typeAt (more ++ left) with
  | error f => simp [hnext] at h
  | ok t =>
    simp only [hnext] at h
    split_ifs at h
    · cases hmap : mpDecodeMap (more ++ left) with
      | error f => simp [hmap] at h
      | ok r =>
        simp only [hmap] at h
        rw [responseBody_sync h, hsync]
    · obtain rfl := Except.ok.inj h
      exact hsync

/-- `bee_step_recv` returns a response only to the request with its sync. -/
theorem Decodes.sync {P : Platform} {check : Bytes → Nat → Except Fault Nat} {sync : Int64}
    {size : Nat} {payload left : Bytes} {v b : PVal} {sync' : UInt32}
    (h : Decodes check P sync.toUInt64 size (payload ++ left) v b) (hcarries : Carries payload sync') :
    sync' = longToUint32 sync := by
  obtain ⟨entries, next, pos, rest, hheader, -, hacc, -, -⟩ := h.decoded
  obtain ⟨header, hheaded, w, n, hvalue, hn⟩ := hcarries
  obtain ⟨sw, more, hwf, rfl⟩ := hheaded.bytes
  rw [List.append_assoc] at hheader
  obtain ⟨hval, -⟩ := (phpMpUnpack_doc hwf).mp hheader
  obtain ⟨t, hrun, ht⟩ := header_toPhp hval
  obtain ⟨rfl, rfl⟩ := PVal.arr.inj ht
  have hfind := indexFind_entries hwf hheaded.distinct hrun beexSync
  rw [hvalue] at hfind
  have hsync : UInt64.ofNat n = sync.toUInt64 := hacc.sync _ hfind
  rw [longToUint32, ← hsync, ← UInt32.toNat_inj, ← hn]
  simp

/-! ## Whole responses -/

section Responses

variable {good : Bytes → Prop}

theorem responses_nil : Responses good [] := ⟨[], rfl, List.forall_mem_nil _⟩

theorem responses_frame {payload : Bytes} (hsize : payload.length < 2 ^ 31) (hgood : good payload) :
    Responses good (frame payload) :=
  ⟨[payload], by simp, List.forall_mem_singleton.mpr ⟨hsize, hgood⟩⟩

theorem Responses.append {bs bs' : Bytes} (h : Responses good bs) (h' : Responses good bs') :
    Responses good (bs ++ bs') := by
  obtain ⟨payloads, rfl, hall⟩ := h
  obtain ⟨payloads', rfl, hall'⟩ := h'
  refine ⟨payloads ++ payloads', by simp, fun payload hp => ?_⟩
  rcases List.mem_append.mp hp with hp | hp
  · exact hall payload hp
  · exact hall' payload hp

/-- There is none, or one and then others. -/
theorem Responses.cases {bs : Bytes} (h : Responses good bs) : bs = [] ∨ ∃ payload rest,
    bs = frame payload ++ rest ∧ payload.length < 2 ^ 31 ∧ good payload ∧ Responses good rest := by
  obtain ⟨payloads, rfl, hall⟩ := h
  cases payloads with
  | nil => exact .inl rfl
  | cons payload payloads =>
    obtain ⟨⟨hsize, hgood⟩, hall⟩ := List.forall_mem_cons.mp hall
    exact .inr ⟨payload, _, by simp, hsize, hgood, payloads, rfl, hall⟩

theorem Net.Delivers.of_subset {net net' : Net} (h : net.Delivers good)
    (hopens : net'.opens ⊆ net.opens) (hfinds : net'.finds ⊆ net.finds)
    (hchunks : net'.chunks ⊆ net.chunks) (hreplies : net'.replies ⊆ net.replies) :
    net'.Delivers good where
  greeting := fun g hg => h.greeting g (hopens hg)
  reply := fun r hr => h.reply r (hreplies hr)
  found := fun stream hstream => h.found stream (hfinds hstream)
  prompt := fun c hc => h.prompt c (hchunks hc)

theorem Net.Later.delivers {net net' : Net} (h : net.Later net') (hnet : net.Delivers good) :
    net'.Delivers good := by
  refine hnet.of_subset ?_ ?_ h.chunks ?_
  all_goals
    rw [h.rest]
    exact List.Subset.refl _

/-- When the list of the replies is over the server sends empty payloads. -/
theorem Net.Delivers.takeReplies {net : Net} (h : net.Delivers good) (hempty : good []) (n : Nat) :
    Responses good (BeePhp.takeReplies n net.replies) := by
  have hreply (i : Nat) : Responses good (net.replies.getD i emptyReply) := by
    rw [List.getD_eq_getElem?_getD]
    cases hi : net.replies[i]? with
    | none => exact responses_frame (by decide) hempty
    | some r => exact h.reply r (List.mem_of_getElem? hi)
  unfold BeePhp.takeReplies
  induction List.range n with
  | nil => exact responses_nil
  | cons i is ih =>
    rw [List.map_cons, List.flatten_cons]
    exact (hreply i).append ih

end Responses

/-! ## The invariants -/

/-- The stream stands in front of a response, or nothing has arrived. -/
structure World.Aligned (w : World) : Prop where
  greeting : w.obj.greeting.length = greetingSize
  net : w.net.Delivers Tagged
  stream : ∀ stream, w.obj.stream = some stream → Responses Tagged stream.inbox

/-- Moreover every response that was used answers its request, or is one that a lookup has awaited. -/
structure World.Paired (w : World) : Prop extends World.Aligned w where
  used : ∀ u ∈ w.used, u.Answered ∨ (u ∈ w.asked ∧ u.ahead ≠ [])

theorem World.Aligned.ignoresOutput : IgnoresOutput World.Aligned where
  exceptions := fun _ _ h => ⟨h.greeting, h.net, h.stream⟩
  schema := fun _ _ h => ⟨h.greeting, h.net, h.stream⟩

theorem World.Paired.ignoresOutput : IgnoresOutput World.Paired where
  exceptions := fun _ _ h => ⟨⟨h.greeting, h.net, h.stream⟩, h.used⟩
  schema := fun _ _ h => ⟨⟨h.greeting, h.net, h.stream⟩, h.used⟩

theorem World.Paired.ignoresWriter : IgnoresWriter World.Paired where
  writer := fun _ _ _ h => ⟨⟨h.greeting, h.net, h.stream⟩, h.used⟩
  counter := fun _ _ h => ⟨⟨h.greeting, h.net, h.stream⟩, h.used⟩
  record := fun _ _ _ h => ⟨⟨h.greeting, h.net, h.stream⟩, h.used⟩

/-! ## Sending and reading -/

/-- Whatever reaches the server, it sends whole responses. -/
theorem World.Aligned.handed {w : World} (h : w.Aligned) (request : Bool) {stream : Stream}
    (hstream : w.obj.stream = some stream) (reached : Bytes) :
    (w.handed request stream reached).Aligned := by
  refine ⟨h.greeting, ?_, fun stream' heq => ?_⟩
  · exact h.net.of_subset (List.Subset.refl _) (List.Subset.refl _) (List.Subset.refl _)
      (List.drop_subset _ _)
  · obtain rfl := Option.some.inj heq
    exact (h.stream stream hstream).append (h.net.takeReplies (.inl rfl) _)

theorem beeStreamSend_paired {request : Bool} : Keeps World.Paired (beeStreamSend request) := by
  intro w h
  refine (beeStreamSend_spec request w).mono ?_
  rintro ok w' ⟨stream, hstream, ⟨-, -, rfl⟩ | ⟨-, n, -, rfl⟩⟩
  · have hhanded := h.toAligned.handed request hstream w.obj.value.data
    exact ⟨⟨hhanded.greeting, hhanded.net, hhanded.stream⟩, h.used⟩
  · exact ⟨h.toAligned.handed request hstream _, h.used⟩

/-- A packet is the next response, and nothing else changes. -/
theorem readPacket_aligned {w : World} (h : w.Aligned) : Wlp readPacket (fun shortage w' =>
    w'.Aligned ∧ (∃ stream value net, w' = { w with
      obj := { w.obj with stream := stream, value := value }, net := net }) ∧
    (shortage = none → ∃ stream payload rest left, w.obj.stream = some stream ∧
      stream.inbox = frame payload ++ rest ∧ payload.length < 2 ^ 31 ∧ Tagged payload ∧
      w'.obj.value.c = payload ++ left)) w := by
  intro shortage w' hrun
  obtain ⟨stream, hstream⟩ : ∃ stream, w.obj.stream = some stream := by
    cases hstream : w.obj.stream with
    | some stream => exact ⟨stream, rfl⟩
    | none =>
      have hread : Wlp readPacket (fun _ _ => False) w := .bind fun r w₁ hlength => by
        obtain ⟨stream, heq⟩ := readLength_stream hlength
        rw [hstream] at heq
        cases heq
      exact (hread shortage w' hrun).elim
  rcases (h.stream stream hstream).cases with hnil | ⟨payload, rest, hinbox, hsize, htagged, hrest⟩
  · obtain ⟨ls, w₁, hdel, hlength⟩ := readLength_delivers .other hstream
    obtain ⟨rest, net, hsplit, hlater, rfl⟩ := hdel.after
    obtain ⟨rfl, rfl⟩ := List.append_eq_nil_iff.mp (hsplit.symm.trans hnil)
    have hshort : readPacket w = .ok (some .length, w.after stream [] net) := by
      rw [readPacket, run_bind hlength]
      rfl
    obtain ⟨rfl, rfl⟩ := Prod.mk.inj (Except.ok.inj (hshort.symm.trans hrun))
    refine ⟨⟨h.greeting, hlater.delivers h.net, fun stream' heq => ?_⟩, ⟨_, _, net, rfl⟩, fun h => absurd h (Option.some_ne_none _)⟩
    obtain rfl := Option.some.inj heq
    exact responses_nil
  · have hstream' : w.obj.stream = some { stream with inbox := frame payload ++ rest } := by
      rw [hstream, ← hinbox]
    obtain ⟨value, net, hframe, hlater, -, left, hc⟩ :=
      readPacket_frame (by omega) h.net.prompt hstream'
    obtain ⟨-, rfl⟩ := Prod.mk.inj (Except.ok.inj (hframe.symm.trans hrun))
    refine ⟨⟨h.greeting, hlater.delivers h.net, fun stream' heq => ?_⟩, ⟨_, value, net, rfl⟩, fun _ =>
      ⟨stream, payload, rest, left, hstream, hinbox, hsize, htagged, hc⟩⟩
    obtain rfl := Option.some.inj heq
    exact hrest

/-- The use of a response that answers its request, or that a lookup has awaited. -/
theorem World.Paired.use {w : World} (h : w.Paired) {sync : UInt32}
    (ha : Awaited.Answered ⟨sync, w.ahead⟩ ∨ (⟨sync, w.ahead⟩ ∈ w.asked ∧ w.ahead ≠ [])) :
    Wlp (useResponse sync) (fun _ => World.Paired) w := by
  refine .modify ⟨⟨h.greeting, h.net, h.stream⟩, fun u hu => ?_⟩
  rcases List.mem_append.mp hu with hu | hu
  · exact h.used u hu
  · rw [List.mem_singleton.mp hu]
    exact ha

/-! ## Authentication -/

/-- A response whose sync is that of a request of the authentication answers it. -/
theorem authResponse_paired {syncs : AuthSyncs} {w : World} (h : w.Paired) {payload rest left : Bytes}
    (hahead : w.ahead = frame payload ++ rest) (hsize : payload.length < 2 ^ 31)
    (htagged : Tagged payload) (hc : w.obj.value.c = payload ++ left) :
    Wlp (authResponse syncs) (fun _ => World.Paired) w := by
  have hI : IgnoresOutput fun w' => w'.Paired ∧ w'.ahead = w.ahead :=
    ⟨fun w' _ h' => ⟨World.Paired.ignoresOutput.exceptions w' _ h'.1, h'.2⟩,
      fun w' _ h' => ⟨World.Paired.ignoresOutput.schema w' _ h'.1, h'.2⟩⟩
  refine .bind (getObj_wlp (.bind (.lift fun r hresponse => ?_)))
  rw [hc] at hresponse
  refine .bind ((throwIf_keeps hI w ⟨h, rfl⟩).mono fun _ w₁ h₁ => ?_)
  refine .bind ((throwQueryError_keeps hI w₁ h₁).mono ?_)
  rintro - w₂ ⟨h₂, hahead₂⟩
  have huse {sync : UInt32} (hsync : r.1.sync = sync)
      {add : Schema → Option Bytes → Nat → Except Fault (Schema × Bool)} {text : String}
      {status granted : Bool} : Wlp (do
        useResponse sync
        let status ← addToSchema add r.1 text status
        return (status, granted)) (fun _ => World.Paired) w₂ := by
    have hanswered : Awaited.Answered ⟨sync, w₂.ahead⟩ := by
      refine ⟨payload, rest, by rw [hahead₂, hahead], htagged.imp_right ?_⟩
      rintro ⟨sync', hcarries⟩
      rw [phpTpResponse_sync hcarries hsize hresponse] at hsync
      rw [← hsync]
      exact hcarries
    refine .bind ((h₂.use (.inl hanswered)).mono fun _ w₃ h₃ => ?_)
    exact .bind ((addToSchema_keeps World.Paired.ignoresOutput w₃ h₃).mono fun _ _ h₄ => .pure h₄)
  refine .ite (fun hspace => huse hspace) fun _ => .ite (fun hindex => huse hindex) fun _ => ?_
  refine .ite (fun _ => ?_) fun _ => .pure h₂
  exact .bind ((throwQueryError_keeps World.Paired.ignoresOutput w₂ h₂).mono fun _ _ h₃ => .pure h₃)

/-- Whatever responses the authentication finds, in whatever order. -/
theorem authLoop_paired {syncs : AuthSyncs} {n : Nat} {status granted : Bool} :
    Keeps World.Paired (authLoop syncs n status granted) := by
  induction n generalizing status granted with
  | zero => exact .pure _
  | succ n ih =>
    intro w h
    refine .bind (.modify (.bind ((readPacket_aligned ?_).mono ?_)))
    · exact ⟨h.greeting, h.net, h.stream⟩
    rintro shortage w₁ ⟨haligned, ⟨stream, value, net, rfl⟩, hread⟩
    refine .ite (fun _ => ?_) fun hnone => .ite (fun _ => .bind ?_) fun _ => ih _ ⟨haligned, h.used⟩
    · refine .bind ((throwExc_keeps World.Paired.ignoresOutput _ ⟨haligned, h.used⟩).mono ?_)
      exact fun _ _ h₂ => .pure h₂
    · obtain ⟨stream', payload, rest, left, hstream, hinbox, hsize, htagged, hc⟩ :=
        hread (by simpa using hnone)
      have hstream : w.obj.stream = some stream' := hstream
      have hahead : (w.obj.stream.map (·.inbox)).getD [] = frame payload ++ rest := by
        rw [hstream, ← hinbox]
        rfl
      have hpaired := World.Paired.mk haligned h.used
      exact (authResponse_paired hpaired hahead hsize htagged hc).mono fun r w₂ h₂ => ih w₂ h₂

section Methods

variable {P : Platform}

theorem recordExchange_paired {ok : Bool} : Keeps World.Paired (recordExchange ok) := by
  refine fun w h => .modify ⟨⟨h.greeting, h.net, fun stream heq => ?_⟩, h.used⟩
  obtain ⟨before, hbefore, rfl⟩ := Option.map_eq_some_iff.mp heq
  exact h.stream before hbefore

theorem beeAuthenticate_paired : Keeps World.Paired (beeAuthenticate P) := by
  have hwriter := World.Paired.ignoresWriter
  refine .bind (fun w h => .modify (World.Paired.ignoresOutput.schema w _ h)) fun _ => ?_
  refine .bind (composeTp_keeps hwriter (authRequests_keeps hwriter)) fun syncs => ?_
  refine .bind beeStreamSend_paired fun _ => .ite (.bind authLoop_paired fun r => ?_) ?_
  · exact .bind recordExchange_paired fun _ => .pure _
  · exact .bind recordExchange_paired fun _ => .pure _

/-! ## Lookups -/

/-- A lookup uses the response that it has awaited. -/
theorem lookupParse_paired {find : Schema → Int}
    {add : Schema → Option Bytes → Nat → Except Fault (Schema × Bool)} {parseError missing : String}
    {name : Bytes} {w : World} (h : w.Paired) (hasked : ⟨w.lastSync, w.ahead⟩ ∈ w.asked)
    (hahead : w.ahead ≠ []) :
    Wlp (lookupParse find add parseError missing name) (fun _ => World.Paired) w := by
  have hP := World.Paired.ignoresOutput
  refine .bind (getObj_wlp (.bind (.lift fun r _ => ?_)))
  refine .ite (fun _ => .bind ?_) fun _ => .ite (fun _ => .bind ?_) fun _ => .bind (.get (.bind ?_))
  · exact (throwExc_keeps hP w h).mono fun _ _ h₁ => .pure h₁
  · exact (throwQueryError_keeps hP w h).mono fun _ _ h₁ => .pure h₁
  · refine (h.use (.inr ⟨hasked, hahead⟩)).mono fun _ w₁ h₁ => ?_
    refine .bind ((addToSchema_keeps hP w₁ h₁).mono fun _ w₂ h₂ => ?_)
    refine Keeps.ite ?_ (.pure _) w₂ h₂
    exact .bind getObj_keeps fun _ => .bind (throwIf_keeps hP) fun _ => .pure _

theorem lookupReceive_paired {find : Schema → Int}
    {add : Schema → Option Bytes → Nat → Except Fault (Schema × Bool)} {parseError missing : String}
    {name : Bytes} :
    Keeps World.Paired (lookupReceive (lookupParse find add parseError missing name)) := by
  have hP := World.Paired.ignoresOutput
  intro w h
  refine .bind (.bind (.modify (.modify (.bind ((readPacket_aligned ?_).mono ?_)))))
  · exact ⟨h.greeting, h.net, h.stream⟩
  rintro shortage w₁ ⟨haligned, ⟨stream, value, net, rfl⟩, hread⟩
  have hused : ∀ u ∈ w.used, u.Answered ∨ (u ∈ w.asked ++ [⟨w.lastSync,
      (w.obj.stream.map (·.inbox)).getD []⟩] ∧ u.ahead ≠ []) := by
    intro u hu
    exact (h.used u hu).imp_right fun hu => ⟨List.mem_append_left _ hu.1, hu.2⟩
  match shortage with
  | some .length =>
    refine .bind ((throwExc_keeps hP _ ⟨haligned, hused⟩).mono fun _ _ h₂ => .pure h₂)
  | some (.body _) =>
    refine .bind ((throwExc_keeps hP _ ⟨haligned, hused⟩).mono fun _ _ h₂ => .pure h₂)
  | none =>
    obtain ⟨stream', payload, rest, left, hstream, hinbox, -⟩ := hread rfl
    have hstream : w.obj.stream = some stream' := hstream
    have hahead : (w.obj.stream.map (·.inbox)).getD [] ≠ [] := by
      rw [hstream]
      show stream'.inbox ≠ []
      simp [hinbox, frame]
    exact lookupParse_paired ⟨haligned, hused⟩
      (List.mem_append_right _ (List.mem_singleton_self _)) hahead

/-! ## `bee_step_recv` -/

/-- The records of responses are those of `w`. -/
structure World.SameRecords (w w' : World) : Prop where
  ahead : w'.ahead = w.ahead
  asked : w'.asked = w.asked
  used : w'.used = w.used

theorem World.SameRecords.ignoresTraffic (w : World) : IgnoresTraffic w.SameRecords where
  exceptions := fun _ _ h => ⟨h.ahead, h.asked, h.used⟩
  schema := fun _ _ h => ⟨h.ahead, h.asked, h.used⟩
  writer := fun _ _ _ h => ⟨h.ahead, h.asked, h.used⟩
  counter := fun _ _ h => ⟨h.ahead, h.asked, h.used⟩
  record := fun _ _ _ h => ⟨h.ahead, h.asked, h.used⟩
  stream := fun _ _ _ h => ⟨h.ahead, h.asked, h.used⟩
  greeting := fun _ _ h => ⟨h.ahead, h.asked, h.used⟩
  sent := fun _ _ _ h => ⟨h.ahead, h.asked, h.used⟩

/-- The invariant apart from the stream. -/
structure World.Served (w : World) : Prop where
  greeting : w.obj.greeting.length = greetingSize
  net : w.net.Delivers Tagged

theorem World.Served.ignoresOutput : IgnoresOutput World.Served where
  exceptions := fun _ _ h => ⟨h.greeting, h.net⟩
  schema := fun _ _ h => ⟨h.greeting, h.net⟩

theorem resetValue_aligned : Keeps World.Aligned resetValue := by
  intro w h _ w' hrun
  obtain ⟨-, rfl⟩ := Prod.mk.inj (Except.ok.inj ((resetValue_run w).symm.trans hrun))
  exact ⟨h.greeting, h.net, h.stream⟩

/-- The next response is read to its end, or the stream is closed. -/
theorem beeStepRecvWith_aligned {check : Bytes → Nat → Except Fault Nat} {sync : UInt64} :
    Keeps World.Aligned (beeStepRecvWith check P sync) := by
  intro w h
  have hclose : ∀ w : World, w.Served → Wlp beeStreamClose (fun _ => World.Aligned) w :=
    fun w hw => .modify ⟨hw.greeting, hw.net, nofun⟩
  have hserved {stream : Stream} (inbox : Bytes) (net : Net) (hlater : w.net.Later net) :
      World.Served (w.after stream inbox net) := ⟨h.greeting, hlater.delivers h.net⟩
  cases hstream : w.obj.stream with
  | none =>
    refine .bind fun r w₁ hlength => ?_
    obtain ⟨stream, heq⟩ := readLength_stream hlength
    cases hstream.symm.trans heq
  | some stream =>
    rcases (h.stream stream hstream).cases with hnil | ⟨payload, rest, hinbox, hsize, -, hrest⟩
    · obtain ⟨ls, w₁, hdel, hlength⟩ := readLength_delivers .length hstream
      obtain ⟨rest, net, hsplit, hlater, rfl⟩ := hdel.after
      obtain ⟨rfl, rfl⟩ := List.append_eq_nil_iff.mp (hsplit.symm.trans hnil)
      refine .bind fun r w₁ hrun => ?_
      obtain ⟨rfl, rfl⟩ := Prod.mk.inj (Except.ok.inj (hlength.symm.trans hrun))
      refine .ite (fun _ => ?_) fun hfive => absurd (by simp) hfive
      exact stepErrorCon_gives World.Served.ignoresOutput hclose resetValue_aligned
        (hserved [] net hlater)
    · have hstream' : w.obj.stream = some { stream with inbox := frame payload ++ rest } := by
        rw [hstream, ← hinbox]
      refine beeStepRecvWith_frame World.Served.ignoresOutput World.Aligned.ignoresOutput hclose
        resetValue_aligned (fun w hw => ⟨hw.greeting, hw.net⟩)
        (fun w value hw => ⟨hw.greeting, hw.net, hw.stream⟩) hsize h.net.prompt hstream' hserved ?_
      intro net hlater
      refine ⟨h.greeting, hlater.delivers h.net, fun stream' heq => ?_⟩
      obtain rfl := Option.some.inj heq
      exact hrest

/-- What is received from a stream in front of a frame is its payload. -/
theorem Receives.frame_eq {check : Bytes → Nat → Except Fault Nat} {w w' : World} {stream : Stream}
    {payload payload' rest : Bytes} (h : Receives check w payload' w') (hsize : payload.length < 2 ^ 31)
    (hstream : w.obj.stream = some { stream with inbox := frame payload ++ rest }) :
    payload' = payload := by
  obtain ⟨packLen, w₁, rest', stream', hlength, -, hbody, hstream', -⟩ := h
  obtain ⟨ls, w₂, hdel, hread⟩ := readLength_delivers .length hstream
  obtain ⟨heq, rfl⟩ := Prod.mk.inj (Except.ok.inj (hlength.symm.trans hread))
  obtain ⟨hls, rfl⟩ := Prod.mk.inj heq
  obtain ⟨rest₁, net, hsplit, -, rfl⟩ := hdel.after
  have hframe : (0xce :: toBE 4 payload.length) ++ (payload ++ rest) = ls ++ rest₁ := by
    rw [← hsplit]
    simp [frame]
  obtain ⟨rfl, rfl⟩ := List.append_inj hframe (by simp [← hls])
  rw [← hls] at hbody
  have hpack := phpMpUnpackPackageSize_frame (show payload.length < 2 ^ 32 by omega)
  have hnone : ([0, 0, 0, 0, 0] : Bytes).drop 5 = [] := rfl
  rw [hnone, List.append_nil, hpack] at hbody
  have hinbox := congrArg Stream.inbox (Option.some.inj hstream')
  exact (List.append_inj hinbox (Except.ok.inj hbody)).1.symm

/-- Only a payload that has been read is returned. -/
theorem beeStepRecvWith_receives {check : Bytes → Nat → Except Fault Nat} {sync : UInt64} {w : World}
    {stream : Stream} (hstream : w.obj.stream = some stream) :
    Wlp (beeStepRecvWith check P sync) (fun answer _ => answer ≠ none →
      ∃ payload w', Receives check w payload w') w := by
  have hnone {x : M (Option (PVal × PVal))} {w' : World} (h : Wlp x (fun r _ => r = none) w') :
      Wlp x (fun answer _ => answer ≠ none → ∃ payload w', Receives check w payload w') w' :=
    h.mono fun r _ hr hne => absurd hr hne
  obtain ⟨ls, w₁, hdel, hlength⟩ := readLength_delivers .length hstream
  obtain ⟨rest, net, -, -, rfl⟩ := hdel.after
  refine .bind fun r w₁ hrun => ?_
  obtain ⟨rfl, rfl⟩ := Prod.mk.inj (Except.ok.inj (hlength.symm.trans hrun))
  refine .ite (fun _ => hnone (.bind fun _ _ _ => stepErrorCon_none _)) fun hfive => ?_
  have hls : ls.length = 5 := not_not.mp hfive
  rw [hls] at hlength
  refine .bind (.lift fun status hcheck => .ite
    (fun _ => hnone (.bind fun _ _ _ => stepErrorCon_none _)) fun hstatus => ?_)
  obtain rfl : status = 0 := by simpa using hstatus
  refine .bind (.lift fun size hsize => .bind fun n w₂ hbody => .ite
    (fun _ => hnone (.bind fun _ _ _ => stepError_none _)) fun hn => ?_)
  obtain rfl : n = size := by simpa using hn
  rw [hls] at hcheck hsize
  obtain ⟨payload, hreceives⟩ :=
    receives_of_read hlength (by simp [hls]) hcheck hsize hbody
  exact fun _ _ _ _ => ⟨payload, w₂, hreceives⟩

/-- A response is returned to the request with its sync. -/
theorem beeStepRecv_sync {sync : Int64} {w : World} (h : w.Aligned) (hlen : w.obj.value.len = 0) :
    Wlp (beeStepRecv P sync.toUInt64) (fun answer _ => answer ≠ none →
      ∃ stream payload rest, w.obj.stream = some stream ∧ stream.inbox = frame payload ++ rest ∧
        (payload = [] ∨ Carries payload (longToUint32 sync))) w := by
  intro answer w' hrun hsome
  cases hstream : w.obj.stream with
  | none =>
    have hclosed : Wlp (beeStepRecv P sync.toUInt64) (fun _ _ => False) w := .bind fun r w₁ hlength => by
      obtain ⟨stream, heq⟩ := readLength_stream hlength
      cases hstream.symm.trans heq
    exact (hclosed answer w' hrun).elim
  | some stream =>
    obtain ⟨payload, w₁, hreceives⟩ := beeStepRecvWith_receives hstream answer w' hrun hsome
    rcases (h.stream stream hstream).cases with hnil | ⟨payload', rest, hinbox, hsize, htagged, -⟩
    · obtain ⟨packLen, w₂, rest, stream', hlength, -, -, -, -⟩ := hreceives
      obtain ⟨ls, w₃, hdel, hread⟩ := readLength_delivers .length hstream
      obtain ⟨rest', net, hsplit, -, -⟩ := hdel.after
      obtain ⟨rfl, -⟩ := List.append_eq_nil_iff.mp (hsplit.symm.trans hnil)
      cases (Prod.mk.inj (Prod.mk.inj (Except.ok.inj (hlength.symm.trans hread))).1).1
    · have hstream' : w.obj.stream = some { stream with inbox := frame payload' ++ rest } := by
        rw [hstream, ← hinbox]
      obtain rfl := hreceives.frame_eq hsize hstream'
      refine ⟨stream, payload, rest, rfl, hinbox, htagged.imp_right ?_⟩
      rintro ⟨sync', hcarries⟩
      obtain ⟨w₂, hc, -, -, hdecode⟩ := hreceives.decodes hlen P sync.toUInt64
      rw [beeStepRecv, hdecode] at hrun
      obtain ⟨⟨v, b⟩, rfl⟩ := Option.ne_none_iff_exists'.mp hsome
      have hdecodes := stepDecode_some checkStatus P sync.toUInt64 _ w₂ _ _ hrun v b rfl
      rw [hc] at hdecodes
      rw [← hdecodes.sync hcarries]
      exact hcarries

/-- The response to a data request is used for it. -/
theorem receive_paired {sync : Int64} {w : World} (h : w.Paired) (hlen : w.obj.value.len = 0) :
    Wlp (receive P sync) (fun _ => World.Paired) w := by
  let w₁ : World := { w with ahead := (w.obj.stream.map (·.inbox)).getD [] }
  have haligned : w₁.Aligned := ⟨h.greeting, h.net, h.stream⟩
  have hclose : Keeps w₁.SameRecords beeStreamClose := fun _ hw => .modify ⟨hw.ahead, hw.asked, hw.used⟩
  have hsame : Wlp (beeStepRecv P sync.toUInt64) (fun _ => w₁.SameRecords) w₁ :=
    beeStepRecvWith_keeps (World.SameRecords.ignoresTraffic w₁).line.reads
      (World.SameRecords.ignoresTraffic w₁).toIgnoresOutput hclose w₁ ⟨rfl, rfl, rfl⟩
  refine .bind (.modify (.bind ?_))
  refine (((beeStepRecvWith_aligned w₁ haligned).and hsame).and (beeStepRecv_sync haligned hlen)).mono ?_
  rintro answer w₂ ⟨⟨haligned₂, hsame⟩, hsync⟩
  have hpaired : w₂.Paired := by
    refine ⟨haligned₂, fun u hu => ?_⟩
    rw [hsame.used] at hu
    rw [hsame.asked]
    exact h.used u hu
  refine .ite (fun hsome => .bind ((hpaired.use (.inl ?_)).mono fun _ _ h₃ => .pure h₃)) fun _ =>
    .pure hpaired
  obtain ⟨stream, payload, rest, hstream, hinbox, hcarries⟩ := hsync (by
    rintro rfl
    cases hsome)
  refine ⟨payload, rest, ?_, hcarries⟩
  have hstream : w.obj.stream = some stream := hstream
  show w₂.ahead = _
  rw [hsame.ahead, ← hinbox]
  show (w.obj.stream.map (·.inbox)).getD [] = _
  rw [hstream]
  rfl

/-! ## The methods -/

theorem lookupName_paired {find : Schema → Int} {request : M Unit}
    {add : Schema → Option Bytes → Nat → Except Fault (Schema × Bool)} {parseError missing : String}
    {name : Bytes} (hrequest : Keeps World.Paired request) :
    Keeps World.Paired (lookupName find request add parseError missing name) := by
  refine .bind getObj_keeps fun obj => .ite (.pure _) ?_
  refine .bind (composeTp_keeps World.Paired.ignoresWriter hrequest) fun _ => ?_
  exact .bind beeStreamSend_paired fun _ => .ite lookupReceive_paired (.pure _)

/-- The response to a data request is awaited with an empty buffer. -/
theorem execute_paired (H : Heap) (r : Request) : Keeps World.Paired (execute P H r) := by
  have hI := World.Paired.ignoresWriter
  have hsync : Keeps World.Paired nextSync :=
    fun w h => .bind (.get (.bind (.set (.pure (hI.counter w _ h)))))
  refine .bind hsync fun sync => .bind getObj_keeps fun obj => .bind (.lift _) fun value' => ?_
  refine .bind (fun w h => .modify (hI.writer w w.obj.tps _ h)) fun _ => ?_
  refine .bind (fun w h => .modify (hI.record w _ _ h)) fun _ w h => ?_
  have hempty : Wlp (beeStreamSend true) (fun ok w' => ok = true → w'.obj.value.len = 0) w := by
    refine (beeStreamSend_spec true w).mono ?_
    rintro ok w' ⟨stream, -, ⟨-, -, rfl⟩ | ⟨rfl, -, -, -⟩⟩
    · exact fun _ => rfl
    · intro hok
      cases hok
  refine .bind (((beeStreamSend_paired w h).and hempty).mono ?_)
  rintro ok w₁ ⟨h₁, hlen⟩
  exact .ite (fun hok => receive_paired h₁ (hlen hok)) fun _ => .pure h₁

theorem connects_paired : Connects P World.Paired where
  throwExc := fun _ _ => throwExc_keeps World.Paired.ignoresOutput
  renew := by
    refine fun w h => .modify ?_
    split
    · exact ⟨⟨h.greeting, h.net, h.stream⟩, h.used⟩
    · exact h
  id := fun _ _ h => ⟨⟨h.greeting, h.net, h.stream⟩, h.used⟩
  close := fun w h => .modify ⟨⟨h.greeting, h.net, nofun⟩, h.used⟩
  opened := by
    intro w h
    refine (beexllStreamOpen_spec w).mono ?_
    rintro err w' ⟨opens, hopens, hcases⟩
    have hnet : Net.Delivers Tagged { w.net with opens := opens } := h.net.of_subset hopens
      (List.Subset.refl _) (List.Subset.refl _) (List.Subset.refl _)
    rcases hcases with ⟨rfl, greeting, hgreeting, rfl⟩ | ⟨herr, rfl⟩
    · -- what the server has sent behind the greeting stays
      obtain ⟨salt, responses, rfl, hsalt, hresponses⟩ := h.net.greeting greeting hgreeting
      intro rv w' hrun
      obtain ⟨rv', greeting', net', hread, hlen, hlater⟩ := @readGreeting_frame
        { w with
          obj := { w.obj with stream := some ⟨salt ++ responses, [], none⟩ }
          net := { w.net with opens := opens }
          ids := w.ids ++ [w.obj.persistentId] }
        ⟨[], [], none⟩ salt responses h.greeting hsalt hnet.prompt rfl
      obtain ⟨-, rfl⟩ := Prod.mk.inj (Except.ok.inj (hread.symm.trans hrun))
      refine ⟨⟨hlen, hlater.delivers hnet, fun stream heq => ?_⟩, h.used⟩
      obtain rfl := Option.some.inj heq
      exact hresponses
    · cases err with
      | none => exact absurd rfl herr
      | some text => exact ⟨⟨h.greeting, hnet, h.stream⟩, h.used⟩
  found := by
    intro w h
    refine (beexllStreamFpid2_spec w).mono ?_
    rintro found w' ⟨finds, hfinds, hcases⟩
    have hnet : Net.Delivers Tagged { w.net with finds := finds } := h.net.of_subset
      (List.Subset.refl _) hfinds (List.Subset.refl _) (List.Subset.refl _)
    rcases hcases with ⟨-, stream, hstream, rfl⟩ | ⟨-, rfl⟩
    · refine ⟨⟨h.greeting, hnet, fun stream' heq => ?_⟩, h.used⟩
      obtain rfl := Option.some.inj heq
      exact h.net.found stream hstream
    · exact ⟨⟨h.greeting, hnet, h.stream⟩, h.used⟩
  eof := by
    refine phpStreamEof_keeps fun w eofs h => ⟨⟨h.greeting, ?_, h.stream⟩, h.used⟩
    exact h.net.of_subset (List.Subset.refl _) (List.Subset.refl _) (List.Subset.refl _)
      (List.Subset.refl _)
  exchange := beeAuthenticate_paired

theorem kept_paired : Kept P (Net.Delivers Tagged) World.Paired where
  net := fun _ _ hnet h => ⟨⟨h.greeting, hnet, h.stream⟩, h.used⟩
  throwExc := fun _ _ => throwExc_keeps World.Paired.ignoresOutput
  onDemand := connects_paired.links.onDemand
  connect := connects_paired.connect
  reconnect := connects_paired.links.reconnect
  authenticate := connects_paired.links.authenticate fun _ _ _ h => ⟨⟨h.greeting, h.net, h.stream⟩, h.used⟩
  flushSchema :=
    .bind (fun w h => .modify (World.Paired.ignoresOutput.schema w _ h)) fun _ => .pure _
  spaceno := by
    refine spaceno_keeps (fun _ _ => throwExc_keeps World.Paired.ignoresOutput) fun s => ?_
    exact lookupName_paired (spaceRequest_keeps World.Paired.ignoresWriter)
  indexno := by
    refine fun _ => indexno_keeps (fun _ _ => throwExc_keeps World.Paired.ignoresOutput) fun s => ?_
    exact lookupName_paired (indexRequest_keeps World.Paired.ignoresWriter)
  execute := fun H r _ _ => execute_paired H r

end Methods

/-! ## Runs -/

theorem init_paired {c : Creation} {w : World} (h : c.init = some w) : w.Paired := by
  obtain ⟨host, port, login, passwd, id, isPersistent, -, rfl⟩ := Creation.init_spec h
  refine ⟨⟨List.length_replicate, ⟨nofun, nofun, nofun, nofun⟩, nofun⟩, nofun⟩

/-- Every response that was used answers its request, when the server sends whole responses that all
have a sync, and every lookup of a name finds its own response first or none. -/
theorem responses_answer {P : Platform} {c : Creation} {steps : List Step} {w : World}
    (h : Runs P c steps w) (hnet : ∀ s ∈ steps, s.net.Delivers Tagged)
    (hown : ∀ a ∈ w.asked, a.Own) : ∀ u ∈ w.used, u.Answered := by
  obtain ⟨w₀, hinit, hrun⟩ := h
  have hpaired := kept_paired.runAll hnet w₀ (init_paired hinit) _ _ hrun
  intro u hu
  rcases hpaired.used u hu with hanswered | ⟨hasked, hahead⟩
  · exact hanswered
  · exact (hown u hasked).resolve_left hahead

theorem Responses.single {good : Bytes → Prop} {payload : Bytes} (h : payload.length < 2 ^ 31)
    (hgood : good payload) : Responses good (frame payload) := by
  refine ⟨[payload], by simp, fun p hp => ?_⟩
  obtain rfl := List.mem_singleton.mp hp
  exact ⟨h, hgood⟩

theorem Responses.nil {good : Bytes → Prop} : Responses good [] := ⟨[], rfl, nofun⟩

/-- A server that greets with zeros and has one response. -/
theorem opening_delivers {good : Bytes → Prop} {payload : Bytes} (h : payload.length < 2 ^ 31)
    (hgood : good payload) : Net.Delivers good { Net.opening with replies := [frame payload] } where
  greeting := by
    intro g hg
    obtain rfl := Attempt.opened.inj (List.mem_singleton.mp hg)
    exact ⟨_, [], (List.append_nil _).symm, List.length_replicate, .nil⟩
  reply := by
    intro r hr
    obtain rfl := List.mem_singleton.mp hr
    exact .single h hgood
  found := nofun
  prompt := nofun

theorem calm_delivers {good : Bytes → Prop} {payload : Bytes} (h : payload.length < 2 ^ 31)
    (hgood : good payload) : Net.Delivers good { Net.calm with replies := [frame payload] } where
  greeting := nofun
  reply := (opening_delivers h hgood).reply
  found := nofun
  prompt := nofun

/-- The header of an OK response with a sync, as the server writes it. -/
def taggedHeader (sync : Nat) : List Entry :=
  [⟨.fix, beexCode.toNat, .uint .fix 0⟩, ⟨.fix, beexSync.toNat, .uint .fix sync⟩]

theorem taggedHeader_tagged {sync : Nat} {payload body : Bytes}
    (hwf : (Doc.map .fix (entryDocs (taggedHeader sync))).WF)
    (hpayload : payload = (Doc.map .fix (entryDocs (taggedHeader sync))).encode ++ body) :
    Tagged payload := by
  have hheaded : Headed payload (taggedHeader sync) :=
    ⟨⟨.fix, body, hwf, hpayload⟩, by simp [taggedHeader, beexCode, beexSync],
      by simp [taggedHeader, beexCode, beexSync], by simp [taggedHeader]⟩
  exact .inr ⟨UInt32.ofNat sync, _, hheaded, .fix, sync, rfl, UInt32.toNat_ofNat'.symm⟩

/-- Two pings, answered in turn. -/
theorem responses_answer_pings : ∃ w, Runs (.blank false) .guest
    [⟨{ Net.opening with replies := [okReply 0 [0x80]] }, [], .ping⟩,
      ⟨{ Net.calm with replies := [okReply 1 [0x80]] }, [], .ping⟩] w ∧ w.used.length = 2 ∧
      ∀ u ∈ w.used, u.Answered := by
  have hruns : runsTo (.blank false) .guest
      [⟨{ Net.opening with replies := [okReply 0 [0x80]] }, [], .ping⟩,
        ⟨{ Net.calm with replies := [okReply 1 [0x80]] }, [], .ping⟩]
      (fun w => w.used.length = 2 ∧ w.asked = []) = true := by decide +kernel
  obtain ⟨w, hrun, htest⟩ := exists_of_runsTo hruns
  obtain ⟨hused, hasked⟩ := of_decide_eq_true htest
  refine ⟨w, hrun, hused, responses_answer hrun ?_ ?_⟩
  · refine List.forall_mem_cons.mpr ⟨opening_delivers (by decide) ?_, ?_⟩
    · exact @taggedHeader_tagged 0 _ [0x80] (by decide) rfl
    · refine List.forall_mem_cons.mpr ⟨calm_delivers (by decide) ?_, List.forall_mem_nil _⟩
      exact @taggedHeader_tagged 1 _ [0x80] (by decide) rfl
  · rw [hasked]
    exact List.forall_mem_nil _

/-- A response without a sync is taken for that of any ping. -/
theorem responses_answer_untagged : ¬ ∀ (P : Platform) (c : Creation) (steps : List Step) (w : World),
    Runs P c steps w → (∀ s ∈ steps, s.net.Delivers WellFormed) → ∀ u ∈ w.used, u.Answered := by
  intro h
  let untagged : Bytes := [0x81, 0x00, 0x00, 0x80]
  have hruns : runsTo (.blank false) { Creation.guest with syncCounter := 5 }
      [⟨{ Net.opening with replies := [frame untagged] }, [], .ping⟩]
      (fun w => w.used = [⟨5, frame untagged⟩]) = true := by decide +kernel
  obtain ⟨w, hrun, htest⟩ := exists_of_runsTo hruns
  have hused := of_decide_eq_true htest
  have hwf : WellFormed untagged := by
    refine .inr ⟨[⟨.fix, 0, .uint .fix 0⟩], ⟨.fix, [0x80], by decide, rfl⟩, ?_, ?_, ?_⟩ <;> simp
  have hlen : untagged.length < 2 ^ 31 := by decide
  obtain ⟨payload, rest, hahead, hcarries⟩ := h _ _ _ w hrun
    (List.forall_mem_cons.mpr ⟨opening_delivers hlen hwf, List.forall_mem_nil _⟩) ⟨5, frame untagged⟩
    (by simp [hused])
  obtain rfl := frame_append_inj hahead (show untagged.length < 2 ^ 32 by decide)
  -- the other parser reads a missing sync as 0
  have hresponse : ∃ r, phpTpResponse (untagged ++ []) = .ok r ∧ r.1.sync = 0 := ⟨_, rfl, rfl⟩
  obtain ⟨r, hr, hzero⟩ := hresponse
  have hsync := phpTpResponse_sync (hcarries.resolve_left (by simp [untagged])) hlen hr
  rw [hzero] at hsync
  exact absurd hsync (by decide)

end BeePhp
