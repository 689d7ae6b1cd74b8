import BeePhp.Proofs.ConnectProofs
import BeePhp.Proofs.MethodsProofs

/-!
# Proofs: what is sent

`beeStreamSend_spec` says all that sending can do. When no send fails, the buffer is empty whenever an
operation begins (`Fresh`), so that it sends what it has encoded and nothing else (`sent_fresh`).
-/

namespace BeePhp

open Codec Program

/-! ## Sending -/

/-- The state after the bytes `reached` of what is handed to the stream have come through. -/
def World.handed (w : World) (request : Bool) (stream : Stream) (reached : Bytes) : World :=
  { w with
    obj := { w.obj with stream := some (stream.deliver w.net.replies reached).1 }
    net := { w.net with
      writes := w.net.writes.tail, replies := (stream.deliver w.net.replies reached).2 }
    sent := w.sent ++ [w.record request] }

/-- All bytes come through and the buffer is emptied, or some come through and the buffer is left. -/
theorem beeStreamSend_spec (request : Bool) (w : World) :
    Wlp (beeStreamSend request) (fun ok w' => ∃ stream, w.obj.stream = some stream ∧
      ((ok = true ∧ (∀ n, w.net.writes.head? ≠ some (.failed n)) ∧
          w' = { (w.handed request stream w.obj.value.data).cleared with own := [] }) ∨
        (ok = false ∧ ∃ n, w.net.writes.head? = some (.failed n) ∧
          w' = w.handed request stream (w.obj.value.data.take n)))) w := by
  refine .bind (.modify (.bind (getObj_wlp (.bind ?_))))
  intro ok w' hrun
  cases hstream : w.obj.stream with
  | none => simp [beexllStreamSend, phpStreamWrite, hstream] at hrun
  | some stream =>
    simp only [beexllStreamSend, phpStreamWrite, hstream] at hrun
    split at hrun
    case h_1 n writes hwrites =>
      obtain ⟨rfl, rfl⟩ := Prod.mk.inj (Except.ok.inj hrun)
      exact .pure ⟨stream, rfl, .inr ⟨rfl, n, by simp [hwrites], rfl⟩⟩
    case h_2 hwrites =>
      obtain ⟨rfl, rfl⟩ := Prod.mk.inj (Except.ok.inj hrun)
      have hhead (n : Nat) : w.net.writes.head? ≠ some (.failed n) := by
        intro hhead
        obtain ⟨writes, heq⟩ := List.head?_eq_some_iff.mp hhead
        exact hwrites n writes heq
      refine .bind fun _ w'' hreset => ?_
      rw [resetValue_run] at hreset
      obtain ⟨-, rfl⟩ := Prod.mk.inj (Except.ok.inj hreset)
      exact .bind (.modify (.pure ⟨stream, rfl, .inl ⟨rfl, hhead, rfl⟩⟩))

/-- A send whose write fails. -/
theorem beeStreamSend_failed (request : Bool) {w : World} {stream : Stream}
    (hstream : w.obj.stream = some stream) {n : Nat} (hhead : w.net.writes.head? = some (.failed n)) :
    ∃ w', beeStreamSend request w = .ok (false, w') := by
  obtain ⟨writes, hwrites⟩ := List.head?_eq_some_iff.mp hhead
  let w₁ : World := { w with sent := w.sent ++ [w.record request] }
  obtain ⟨w₂, hwrite⟩ : ∃ w₂, beexllStreamSend w.obj.value.data w₁ = .ok (false, w₂) := by
    have hstream₁ : w₁.obj.stream = some stream := hstream
    have hwrites₁ : w₁.net.writes = .failed n :: writes := hwrites
    simp only [beexllStreamSend, phpStreamWrite, hstream₁, hwrites₁]
    exact ⟨_, rfl⟩
  have hrecord : (modify fun w => { w with sent := w.sent ++ [w.record request] } : M Unit) w =
      .ok ((), w₁) := rfl
  refine ⟨w₂, ?_⟩
  rw [beeStreamSend, run_bind hrecord, run_bind (getObj_run w₁), run_bind hwrite]
  rfl

/-- What sending does to the stream and the record, whether it succeeds or not. -/
theorem beeStreamSend_sent (request : Bool) (w : World) :
    Wlp (beeStreamSend request) (fun _ w' => w'.exchanges = w.exchanges ∧
      w'.sent = w.sent ++ [w.record request] ∧ w'.obj.credentials = w.obj.credentials ∧
      ∃ stream stream', w.obj.stream = some stream ∧ w'.obj.stream = some stream' ∧
        stream'.identity = stream.identity) w := by
  refine (beeStreamSend_spec request w).mono ?_
  rintro ok w' ⟨stream, hstream, ⟨-, -, rfl⟩ | ⟨-, n, -, rfl⟩⟩
  · exact ⟨rfl, rfl, rfl, stream, _, hstream, rfl, rfl⟩
  · exact ⟨rfl, rfl, rfl, stream, _, hstream, rfl, rfl⟩

/-! ## Only what an operation has encoded -/

/-- The buffer is empty between two encodings. -/
structure World.Fresh (w : World) : Prop where
  empty : BufferEmpty w
  sends : w.net.Sends
  sent : ∀ s ∈ w.sent, s.Fresh

/-- The buffer holds what has been encoded since it was empty. -/
structure World.Composed (w : World) : Prop where
  start : w.start = 0
  own : w.own = w.obj.value.data
  sends : w.net.Sends
  sent : ∀ s ∈ w.sent, s.Fresh

theorem Net.Later.sends {net net' : Net} (h : net.Later net') (hsends : net.Sends) : net'.Sends := by
  rw [h.rest]
  exact hsends

theorem World.Fresh.quiet {w w' : World} (h : w.Fresh) (hquiet : Quiet w w')
    (hempty : BufferEmpty w') : w'.Fresh :=
  ⟨hempty, hquiet.net.sends h.sends, by rw [hquiet.sent]; exact h.sent⟩

theorem fresh_of_quiet {α : Type} {x : M α} (hquiet : IsQuiet x) (hempty : Keeps BufferEmpty x) :
    Keeps World.Fresh x :=
  fun w h => ((hquiet w).and (hempty w h.empty)).mono fun _ _ hw' => h.quiet hw'.1 hw'.2

theorem throwExc_fresh {format : String} {args : List MsgArg} :
    Keeps World.Fresh (throwExc format args) :=
  fresh_of_quiet throwExc_quiet (throwExc_keeps bufferEmpty_ignores.toIgnoresOutput)

theorem composeTp_fresh {α : Type} {body : M α} (hbody : IsQuiet body) {w : World} (h : w.Fresh) :
    Wlp (composeTp body) (fun _ => World.Composed) w := by
  refine (composeTp_spec hbody w).mono ?_
  rintro _ w' ⟨hquiet, hstart, hown⟩
  refine ⟨hstart.trans h.empty, hown, hquiet.net.sends h.sends, ?_⟩
  rw [hquiet.sent]
  exact h.sent

/-- A send empties the buffer, and what it sends is what was encoded. -/
theorem beeStreamSend_fresh {request : Bool} {w : World} (h : w.Composed) :
    Wlp (beeStreamSend request) (fun _ => World.Fresh) w := by
  refine (beeStreamSend_spec request w).mono ?_
  rintro ok w' ⟨stream, -, ⟨-, -, rfl⟩ | ⟨-, n, hhead, -⟩⟩
  · refine ⟨rfl, fun o ho => h.sends o (List.mem_of_mem_tail ho), ?_⟩
    intro s hs
    rcases List.mem_append.mp hs with hs | hs
    · exact h.sent s hs
    · rw [List.mem_singleton.mp hs]
      exact ⟨h.start, h.own.symm⟩
  · cases h.sends _ (List.mem_of_mem_head? hhead)

/-! ## Connecting -/

section Connecting

variable {P : Platform}

theorem recordExchange_fresh {ok : Bool} : Keeps World.Fresh (recordExchange ok) :=
  fun _ h => .modify ⟨h.empty, h.sends, h.sent⟩

theorem beeAuthenticate_fresh : Keeps World.Fresh (beeAuthenticate P) := by
  refine .bind (fresh_of_quiet (modifyObj_quiet (fun _ => rfl) (fun _ => rfl) fun _ => rfl)
    (modifyObj_empty fun _ => rfl)) fun _ => ?_
  intro w h
  refine .bind ((composeTp_fresh authRequests_quiet h).mono fun syncs w₁ hcomposed => ?_)
  refine .bind ((beeStreamSend_fresh hcomposed).mono fun ok w₂ hfresh => ?_)
  refine Keeps.ite ?_ ?_ w₂ hfresh
  · refine .bind (fresh_of_quiet authLoop_quiet authLoop_empty) fun _ => ?_
    exact .bind recordExchange_fresh fun _ => .pure _
  · exact .bind recordExchange_fresh fun _ => .pure _

theorem beexllStreamOpen_fresh : Keeps World.Fresh beexllStreamOpen := by
  intro w h
  refine (beexllStreamOpen_spec w).mono ?_
  rintro err w' ⟨opens, -, ⟨-, greeting, -, rfl⟩ | ⟨-, rfl⟩⟩
  · exact ⟨h.empty, h.sends, h.sent⟩
  · exact ⟨h.empty, h.sends, h.sent⟩

theorem beexllStreamFpid2_fresh : Keeps World.Fresh beexllStreamFpid2 := by
  intro w h
  refine (beexllStreamFpid2_spec w).mono ?_
  rintro found w' ⟨finds, -, ⟨-, stream, -, rfl⟩ | ⟨-, rfl⟩⟩
  · exact ⟨h.empty, h.sends, h.sent⟩
  · exact ⟨h.empty, h.sends, h.sent⟩

theorem connects_fresh : Connects P World.Fresh where
  throwExc := fun _ _ => throwExc_fresh
  renew := fresh_of_quiet renewPersistentId_quiet renewPersistentId_empty
  id := fun _ _ h => ⟨h.empty, h.sends, h.sent⟩
  close := fresh_of_quiet beeStreamClose_quiet (modifyObj_empty fun _ => rfl)
  opened := by
    refine fun w h => (beexllStreamOpen_fresh w h).mono fun err w' h' => ?_
    cases err with
    | some text => exact h'
    | none => exact fresh_of_quiet readGreeting_quiet readGreeting_empty w' h'
  found := beexllStreamFpid2_fresh
  eof := phpStreamEof_keeps fun _ _ h => ⟨h.empty, h.sends, h.sent⟩
  exchange := beeAuthenticate_fresh

end Connecting

/-! ## The methods -/

section Methods

variable {P : Platform}

theorem lookupName_fresh {find : Schema → Int} {request : M Unit}
    {add : Schema → Option Bytes → Nat → Except Fault (Schema × Bool)} {parseError missing : String}
    {name : Bytes} (hrequest : IsQuiet request) :
    Keeps World.Fresh (lookupName find request add parseError missing name) := by
  refine .bind getObj_keeps fun obj => .ite (.pure _) fun w h => ?_
  refine .bind ((composeTp_fresh hrequest h).mono fun _ w₁ hcomposed => ?_)
  refine .bind ((beeStreamSend_fresh hcomposed).mono fun ok w₂ hfresh => ?_)
  refine Keeps.ite (fresh_of_quiet (lookupReceive_quiet lookupParse_quiet) ?_) (.pure _) w₂ hfresh
  exact lookupReceive_keeps bufferEmpty_ignores readPacket_empty (lookupParse_keeps bufferEmpty_ignores)

theorem execute_fresh (H : Heap) (r : Request) : Keeps World.Fresh (execute P H r) := by
  refine .bind (fresh_of_quiet nextSync_quiet ?_) fun sync w h => ?_
  · exact fun w h => .bind (.get (.bind (.set (.pure h))))
  refine .bind (getObj_wlp (.bind (.lift fun value' _ => .bind (.modify (.bind (.modify (.bind ?_)))))))
  have hempty : w.obj.value.len = 0 := h.empty
  have hcomposed : World.Composed { w with
      obj := { w.obj with value := value'.1 }
      start := w.obj.value.len
      own := value'.1.data.drop w.obj.value.len } :=
    ⟨hempty, by rw [hempty]; rfl, h.sends, h.sent⟩
  refine (beeStreamSend_fresh hcomposed).mono fun ok w₂ hfresh => ?_
  exact Keeps.ite (fresh_of_quiet receive_quiet fun w _ => receive_empties w) (.pure _) w₂ hfresh

theorem kept_fresh : Kept P Net.Sends World.Fresh where
  net := fun _ _ hsends h => ⟨h.empty, hsends, h.sent⟩
  throwExc := fun _ _ => throwExc_fresh
  onDemand := connects_fresh.links.onDemand
  connect := connects_fresh.connect
  reconnect := connects_fresh.links.reconnect
  authenticate := connects_fresh.links.authenticate fun _ _ _ h => ⟨h.empty, h.sends, h.sent⟩
  flushSchema := .bind (fun _ h => .modify ⟨h.empty, h.sends, h.sent⟩) fun _ => .pure _
  spaceno := spaceno_keeps (fun _ _ => throwExc_fresh) fun _ => lookupName_fresh spaceRequest_quiet
  indexno := fun _ =>
    indexno_keeps (fun _ _ => throwExc_fresh) fun _ => lookupName_fresh indexRequest_quiet
  execute := fun H r _ _ => execute_fresh H r

end Methods

/-! ## Runs -/

theorem init_fresh {c : Creation} {w : World} (h : c.init = some w) : w.Fresh := by
  obtain ⟨host, port, login, passwd, id, isPersistent, -, rfl⟩ := Creation.init_spec h
  refine ⟨((SmartString.null c.fresh).ensure_spec greetingSize).1, ?_, ?_⟩
  · simp [Net.Sends, World.init, Net.calm]
  · simp [World.init]

/-- What an operation sends is what it has encoded, into an empty buffer, if no send fails. -/
theorem sent_fresh {P : Platform} {c : Creation} {steps : List Step} {w : World}
    (h : Runs P c steps w) (hsends : ∀ s ∈ steps, s.net.Sends) : ∀ s ∈ w.sent, s.Fresh := by
  obtain ⟨w₀, hinit, hrun⟩ := h
  exact (kept_fresh.runAll hsends w₀ (init_fresh hinit) _ _ hrun).sent

/-- Two pings. -/
theorem sent_fresh_pings : ∃ w, Runs (.blank false) .guest
    [⟨.opening, [], .ping⟩, ⟨.calm, [], .ping⟩] w ∧ w.sent.length = 2 ∧ ∀ s ∈ w.sent, s.Fresh := by
  have hruns : runsTo (.blank false) .guest [⟨.opening, [], .ping⟩, ⟨.calm, [], .ping⟩]
      (fun w => w.sent.length = 2) = true := by decide +kernel
  obtain ⟨w, hrun, hlength⟩ := exists_of_runsTo hruns
  refine ⟨w, hrun, of_decide_eq_true hlength, sent_fresh hrun ?_⟩
  simp [Net.Sends, Net.opening, Net.calm]

/-- A ping that could not be sent goes out with the next one. -/
theorem sent_fresh_failed : ¬ ∀ (P : Platform) (c : Creation) (steps : List Step) (w : World),
    Runs P c steps w → ∀ s ∈ w.sent, s.Fresh := by
  intro h
  have hruns : runsTo (.blank false) .guest
      [⟨{ Net.opening with writes := [.failed 0] }, [], .ping⟩, ⟨.calm, [], .ping⟩]
      (fun w => ¬ ∀ s ∈ w.sent, s.Fresh) = true := by decide +kernel
  obtain ⟨w, hrun, hstale⟩ := exists_of_runsTo hruns
  exact of_decide_eq_true hstale (h _ _ _ _ hrun)

end BeePhp
