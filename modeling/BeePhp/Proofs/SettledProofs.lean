import BeePhp.Proofs.FramingProofs
import BeePhp.Proofs.SendProofs
import BeePhp.Proofs.TrafficProofs

/-!
# Proofs: every response is consumed

Requests are whole frames, so the server owes as many responses as were composed (`Awaiting`); every
receive loop takes off those that are owed, or closes the stream. Between the methods nothing is owed
(`Idle`).
-/

namespace BeePhp

open Codec Program

/-- What no method changes while the environment is as `Answers` says. -/
structure World.Steady (w : World) : Prop where
  healthy : w.obj.tps.Healthy
  login : w.obj.login.length < 2 ^ 31
  greeting : w.obj.greeting.length = greetingSize
  net : w.net.Answers

/-- The invariant between the methods. -/
structure World.Idle (w : World) : Prop where
  steady : w.Steady
  empty : BufferEmpty w
  settled : w.Settled

/-- So many responses, and nothing else, stand in the stream. -/
structure World.Awaiting (w : World) (n : Nat) : Prop where
  steady : w.Steady
  empty : BufferEmpty w
  frames : ∃ (payloads : List Bytes) (stream : Stream), payloads.length = n ∧
    (∀ p ∈ payloads, p.length < 2 ^ 31) ∧ w.obj.stream = some stream ∧ stream.pending = [] ∧
    stream.inbox = (payloads.map frame).flatten

theorem World.Steady.ignores : Ignores World.Steady where
  exceptions := fun _ _ h => ⟨h.healthy, h.login, h.greeting, h.net⟩
  schema := fun _ _ h => ⟨h.healthy, h.login, h.greeting, h.net⟩
  records := fun _ _ _ _ h => ⟨h.healthy, h.login, h.greeting, h.net⟩

theorem World.Idle.ignores : Ignores World.Idle where
  exceptions := fun w _ h => ⟨Steady.ignores.exceptions w _ h.steady, h.empty, h.settled⟩
  schema := fun w _ h => ⟨Steady.ignores.schema w _ h.steady, h.empty, h.settled⟩
  records := fun w _ _ _ h => ⟨Steady.ignores.records w _ _ _ h.steady, h.empty, h.settled⟩

theorem World.Awaiting.ignores (n : Nat) : Ignores (World.Awaiting · n) where
  exceptions := fun w _ h => ⟨Steady.ignores.exceptions w _ h.steady, h.empty, h.frames⟩
  schema := fun w _ h => ⟨Steady.ignores.schema w _ h.steady, h.empty, h.frames⟩
  records := fun w _ _ _ h => ⟨Steady.ignores.records w _ _ _ h.steady, h.empty, h.frames⟩

/-- Nothing is owed. -/
theorem World.Awaiting.idle {w : World} (h : w.Awaiting 0) : w.Idle := by
  refine ⟨h.steady, h.empty, fun stream hstream => ?_⟩
  obtain ⟨payloads, stream', hlen, -, hstream', hpending, hinbox⟩ := h.frames
  obtain rfl := Option.some.inj (hstream'.symm.trans hstream)
  obtain rfl := List.length_eq_zero_iff.mp hlen
  exact ⟨hinbox, hpending⟩

/-- The invariant does not depend on the rest of the environment. -/
theorem World.Idle.withNet {w : World} {net : Net} {ids : List (Option Bytes)} (h : w.Idle)
    (hnet : net.Answers) : World.Idle { w with net := net, ids := ids } :=
  ⟨⟨h.steady.healthy, h.steady.login, h.steady.greeting, hnet⟩, h.empty, h.settled⟩

/-- A closed stream owes nothing. -/
theorem World.Settled.of_closed {w : World} (h : w.obj.stream = none) : w.Settled := by
  intro stream hstream
  rw [h] at hstream
  cases hstream

/-! ## The environment -/

theorem Net.Answers.of_subset {net net' : Net} (h : net.Answers) (hopens : net'.opens ⊆ net.opens)
    (hfinds : net'.finds ⊆ net.finds) (hwrites : net'.writes ⊆ net.writes)
    (hchunks : net'.chunks ⊆ net.chunks) (hreplies : net'.replies ⊆ net.replies) : net'.Answers where
  greeting := fun g hg => h.greeting g (hopens hg)
  reply := fun r hr => h.reply r (hreplies hr)
  found := fun stream hstream => h.found stream (hfinds hstream)
  sends := fun o ho => h.sends o (hwrites ho)
  prompt := fun c hc => h.prompt c (hchunks hc)
  short := fun payload hp => h.short payload (hreplies hp)

theorem Net.Later.answers {net net' : Net} (h : net.Later net') (hanswers : net.Answers) :
    net'.Answers := by
  refine hanswers.of_subset ?_ ?_ ?_ h.chunks ?_
  all_goals
    rw [h.rest]
    exact List.Subset.refl _

/-- The responses to so many requests are frames. -/
theorem takeReplies_frames {net : Net} (h : net.Answers) (n : Nat) :
    ∃ payloads : List Bytes, payloads.length = n ∧ (∀ p ∈ payloads, p.length < 2 ^ 31) ∧
      takeReplies n net.replies = (payloads.map frame).flatten := by
  have hreply (i : Nat) : ∃ payload : Bytes, payload.length < 2 ^ 31 ∧
      net.replies.getD i emptyReply = frame payload := by
    rw [List.getD_eq_getElem?_getD]
    cases hi : net.replies[i]? with
    | none => exact ⟨[], by decide, rfl⟩
    | some r =>
      obtain ⟨payload, rfl, -⟩ := h.reply r (List.mem_of_getElem? hi)
      exact ⟨payload, h.short payload (List.mem_of_getElem? hi), rfl⟩
  choose payload hshort hframe using hreply
  refine ⟨(List.range n).map payload, by simp, ?_, ?_⟩
  · intro p hp
    obtain ⟨i, -, rfl⟩ := List.mem_map.mp hp
    exact hshort i
  · rw [takeReplies, List.map_map]
    simp only [hframe]
    rfl

/-! ## Sending and receiving -/

/-- Whole requests are sent, and their responses arrive. -/
theorem beeStreamSend_awaits {request : Bool} {w : World} (hsteady : w.Steady) (hsettled : w.Settled)
    {payloads : List Bytes} (hlt : ∀ p ∈ payloads, p.length < 2 ^ 32)
    (hdata : w.obj.value.data = (payloads.map frame).flatten) :
    Wlp (beeStreamSend request) (fun ok w' => ok = true ∧ w'.Awaiting payloads.length) w := by
  refine (beeStreamSend_spec request w).mono ?_
  rintro ok w' ⟨stream, hstream, ⟨rfl, -, rfl⟩ | ⟨-, n, hhead, -⟩⟩
  · obtain ⟨hinbox, hpending⟩ := hsettled stream hstream
    obtain ⟨replies, hlen, hshort, hreplies⟩ := takeReplies_frames hsteady.net payloads.length
    have hdeliver : stream.deliver w.net.replies w.obj.value.data =
        (⟨takeReplies payloads.length w.net.replies, [], stream.identity⟩,
          w.net.replies.drop payloads.length) := by
      rw [hdata, deliver_frames hpending hlt, hinbox, List.nil_append]
    refine ⟨rfl, ⟨hsteady.healthy, hsteady.login, hsteady.greeting, ?_⟩, rfl, replies, _, hlen, hshort,
      rfl, ?_, ?_⟩
    · simp only [World.handed, hdeliver]
      exact hsteady.net.of_subset (List.Subset.refl _) (List.Subset.refl _) (List.tail_subset _)
        (List.Subset.refl _) (List.drop_subset _ _)
    · rw [hdeliver]
    · rw [hdeliver, ← hreplies]
  · cases hsteady.net.sends _ (List.mem_of_mem_head? hhead)

/-- A packet that is owed is read. -/
theorem readPacket_awaits {n : Nat} {w : World} (h : w.Awaiting (n + 1)) :
    Wlp readPacket (fun shortage w' => shortage = none ∧ w'.Awaiting n) w := by
  obtain ⟨payloads, stream, hlen, hshort, hstream, hpending, hinbox⟩ := h.frames
  cases payloads with
  | nil => cases hlen
  | cons payload payloads =>
    obtain ⟨hpayload, hpayloads⟩ := List.forall_mem_cons.mp hshort
    have hstream' : w.obj.stream =
        some { stream with inbox := frame payload ++ (payloads.map frame).flatten } := by
      rw [hstream]
      simp only [List.map_cons, List.flatten_cons] at hinbox
      rw [← hinbox]
    obtain ⟨value, net, hrun, hlater, hvalue, -⟩ :=
      readPacket_frame (by omega) h.steady.net.prompt hstream'
    intro shortage w' hrun'
    obtain ⟨rfl, rfl⟩ := Prod.mk.inj (Except.ok.inj (hrun.symm.trans hrun'))
    refine ⟨if_pos hpayload, ?_, hvalue.trans h.empty, payloads, _, by simpa using hlen, hpayloads, rfl,
      hpending, rfl⟩
    exact ⟨h.steady.healthy, h.steady.login, h.steady.greeting, hlater.answers h.steady.net⟩

/-- The loop of the authentication reads all the packets it awaits. -/
theorem authLoop_awaits {syncs : AuthSyncs} {n : Nat} {status granted : Bool} {w : World}
    (h : w.Awaiting n) : Wlp (authLoop syncs n status granted) (fun _ w' => w'.Awaiting 0) w := by
  induction n generalizing status granted w with
  | zero => exact .pure h
  | succ n ih =>
    refine .bind ((awaitResponse_keeps (World.Awaiting.ignores (n + 1)) w h).mono fun _ w₀ h₀ => ?_)
    refine .bind ((readPacket_awaits h₀).mono ?_)
    rintro shortage w₁ ⟨rfl, h₁⟩
    refine .ite (fun hsome => absurd hsome (by simp)) fun _ => .ite (fun _ => ?_) fun _ => ih h₁
    exact .bind ((authResponse_keeps (World.Awaiting.ignores n) w₁ h₁).mono fun r w₂ h₂ => ih h₂)

/-! ## Composing -/

/-- The stream, the environment and the login are those of `w`. -/
structure World.SameLink (w w' : World) : Prop where
  stream : w'.obj.stream = w.obj.stream
  net : w'.net = w.net
  login : w'.obj.login = w.obj.login
  greeting : w'.obj.greeting = w.obj.greeting

theorem World.SameLink.ignoresWriter (w : World) : IgnoresWriter w.SameLink where
  writer := fun _ _ _ h => ⟨h.stream, h.net, h.login, h.greeting⟩
  counter := fun _ _ h => ⟨h.stream, h.net, h.login, h.greeting⟩
  record := fun _ _ _ h => ⟨h.stream, h.net, h.login, h.greeting⟩

/-- Requests are composed and sent. -/
theorem compose_awaits {α β : Type} {body : M α} {n : Nat} {w : World} (h : w.Idle)
    (hkeeps : Keeps w.SameLink body)
    (hbody : ∀ w₁ : World, w₁.obj.login = w.obj.login → w₁.writer.Whole 0 →
      Wlp body (fun _ w' => w'.writer.Whole n) w₁)
    {k : α → Bool → M β} {Q : β → World → Prop}
    (hk : ∀ a w', w'.Awaiting n → Wlp (k a true) Q w') :
    Wlp (do
      let a ← composeTp body
      let ok ← beeStreamSend false
      k a ok) Q w := by
  have hsame := composeTp_keeps (World.SameLink.ignoresWriter w) hkeeps w ⟨rfl, rfl, rfl, rfl⟩
  refine .bind (((composeTp_whole h.steady.healthy hbody).and hsame).mono ?_)
  rintro a w₁ ⟨⟨hhealthy, payloads, rfl, hlt, hdata⟩, hsame⟩
  have hsteady : w₁.Steady := ⟨hhealthy, by rw [hsame.login]; exact h.steady.login,
    by rw [hsame.greeting]; exact h.steady.greeting, by rw [hsame.net]; exact h.steady.net⟩
  have hsettled : w₁.Settled := by
    intro stream hstream
    rw [hsame.stream] at hstream
    exact h.settled stream hstream
  refine .bind ((beeStreamSend_awaits hsteady hsettled hlt hdata).mono ?_)
  rintro ok w₂ ⟨rfl, h₂⟩
  exact hk a w₂ h₂

section Idle

variable {P : Platform}

theorem recordExchange_idle {ok : Bool} : Keeps World.Idle (recordExchange ok) := by
  refine fun w h => .modify ⟨⟨h.steady.healthy, h.steady.login, h.steady.greeting, h.steady.net⟩,
    h.empty, ?_⟩
  intro stream hstream
  obtain ⟨before, hbefore, rfl⟩ := Option.map_eq_some_iff.mp hstream
  exact h.settled before hbefore

theorem beeAuthenticate_idle : Keeps World.Idle (beeAuthenticate P) := by
  refine .bind (fun w h => .modify (World.Idle.ignores.schema w _ h)) fun _ w h => ?_
  refine compose_awaits h (authRequests_keeps (World.SameLink.ignoresWriter w))
    (n := 3) ?_ fun syncs w₂ h₂ => ?_
  · intro w₁ hlogin hwhole
    have hlt := h.steady.login
    rw [← hlogin] at hlt
    exact authRequests_whole hlt hwhole
  · refine .ite (fun _ => .bind ((authLoop_awaits h₂).mono fun r w₃ h₃ => ?_)) fun hok => absurd rfl hok
    exact .bind ((recordExchange_idle w₃ h₃.idle).mono fun _ _ h₄ => .pure h₄)

/-- Whatever a lookup of a name that is not known makes of the response, it reads it. -/
theorem lookupName_idle {find : Schema → Int} {request : M Unit}
    {add : Schema → Option Bytes → Nat → Except Fault (Schema × Bool)} {parseError missing : String}
    {name : Bytes} (hkeeps : ∀ w, Keeps (World.SameLink w) request)
    (hrequest : ∀ w₁ : World, w₁.writer.Whole 0 → Wlp request (fun _ w' => w'.writer.Whole 1) w₁) :
    Keeps World.Idle (lookupName find request add parseError missing name) := by
  refine .bind getObj_keeps fun obj => .ite (.pure _) fun w h => ?_
  refine compose_awaits h (hkeeps w) (fun w₁ _ => hrequest w₁) fun _ w₂ h₂ => ?_
  refine .ite (fun _ => ?_) fun hok => absurd rfl hok
  refine .bind ((askResponse_keeps (World.Awaiting.ignores 1) w₂ h₂).mono fun _ w₃ h₃ => ?_)
  refine .bind ((readPacket_awaits h₃).mono ?_)
  rintro shortage w₄ ⟨rfl, h₄⟩
  exact lookupParse_keeps World.Idle.ignores w₄ h₄.idle

/-- The greeting is read to its end. -/
theorem readGreeting_idle {w : World} {stream : Stream} (h : w.Steady) (hempty : BufferEmpty w)
    (hstream : w.obj.stream = some stream) (hlen : stream.inbox.length = greetingSize)
    (hpending : stream.pending = []) : Wlp readGreeting (fun _ => World.Idle) w := by
  have hstream' : w.obj.stream = some { stream with inbox := stream.inbox ++ [] } := by
    rw [List.append_nil]
    exact hstream
  obtain ⟨rv, greeting, net, hrun, hgreeting, hlater⟩ :=
    readGreeting_frame h.greeting hlen h.net.prompt hstream'
  intro r w' hrun'
  obtain ⟨rfl, rfl⟩ := Prod.mk.inj (Except.ok.inj (hrun.symm.trans hrun'))
  refine ⟨⟨h.healthy, h.login, hgreeting, hlater.answers h.net⟩, hempty, fun stream' heq => ?_⟩
  obtain rfl := Option.some.inj heq
  exact ⟨rfl, hpending⟩

theorem connects_idle : Connects P World.Idle where
  throwExc := fun _ _ => throwExc_keeps World.Idle.ignores.toIgnoresOutput
  renew := by
    refine fun w h => .modify ?_
    split
    · exact ⟨⟨h.steady.healthy, h.steady.login, h.steady.greeting, h.steady.net⟩, h.empty, h.settled⟩
    · exact h
  id := fun _ _ h =>
    ⟨⟨h.steady.healthy, h.steady.login, h.steady.greeting, h.steady.net⟩, h.empty, h.settled⟩
  close := fun w h => .modify
    ⟨⟨h.steady.healthy, h.steady.login, h.steady.greeting, h.steady.net⟩, h.empty, .of_closed rfl⟩
  opened := by
    intro w h
    refine (beexllStreamOpen_spec w).mono ?_
    rintro err w' ⟨opens, hopens, hcases⟩
    have hnet : Net.Answers { w.net with opens := opens } := h.steady.net.of_subset hopens
      (List.Subset.refl _) (List.Subset.refl _) (List.Subset.refl _) (List.Subset.refl _)
    rcases hcases with ⟨rfl, greeting, hgreeting, rfl⟩ | ⟨herr, rfl⟩
    · exact readGreeting_idle ⟨h.steady.healthy, h.steady.login, h.steady.greeting, hnet⟩ h.empty rfl
        (h.steady.net.greeting greeting hgreeting) rfl
    · cases err with
      | none => exact absurd rfl herr
      | some text => exact h.withNet hnet
  found := by
    intro w h
    refine (beexllStreamFpid2_spec w).mono ?_
    rintro found w' ⟨finds, hfinds, hcases⟩
    have hnet : Net.Answers { w.net with finds := finds } := h.steady.net.of_subset
      (List.Subset.refl _) hfinds (List.Subset.refl _) (List.Subset.refl _) (List.Subset.refl _)
    rcases hcases with ⟨-, stream, hstream, rfl⟩ | ⟨-, rfl⟩
    · refine ⟨⟨h.steady.healthy, h.steady.login, h.steady.greeting, hnet⟩, h.empty, ?_⟩
      intro stream' hstream'
      obtain rfl := Option.some.inj hstream'
      exact h.steady.net.found stream hstream
    · exact h.withNet hnet
  eof := phpStreamEof_keeps fun w eofs h => h.withNet <| h.steady.net.of_subset (List.Subset.refl _)
    (List.Subset.refl _) (List.Subset.refl _) (List.Subset.refl _) (List.Subset.refl _)
  exchange := beeAuthenticate_idle

/-! ## `bee_step_recv` -/

/-- The invariant apart from the buffer. -/
structure World.Calm (w : World) : Prop where
  steady : w.Steady
  settled : w.Settled

theorem World.Calm.ignores : Ignores World.Calm where
  exceptions := fun w _ h => ⟨Steady.ignores.exceptions w _ h.steady, h.settled⟩
  schema := fun w _ h => ⟨Steady.ignores.schema w _ h.steady, h.settled⟩
  records := fun w _ _ _ h => ⟨Steady.ignores.records w _ _ _ h.steady, h.settled⟩

/-- Closing the stream settles everything. -/
theorem beeStreamClose_calm {w : World} (h : w.Steady) :
    Wlp beeStreamClose (fun _ => World.Calm) w :=
  .modify ⟨⟨h.healthy, h.login, h.greeting, h.net⟩, .of_closed rfl⟩

theorem resetValue_calm : Keeps World.Calm resetValue := by
  intro w h _ w' hrun
  obtain ⟨-, rfl⟩ := Prod.mk.inj (Except.ok.inj ((resetValue_run w).symm.trans hrun))
  exact ⟨⟨h.steady.healthy, h.steady.login, h.steady.greeting, h.steady.net⟩, h.settled⟩

/-- The response is read to its end, or the stream is closed. -/
theorem beeStepRecvWith_calm {check : Bytes → Nat → Except Fault Nat} {sync : UInt64} {w : World}
    (h : w.Awaiting 1) : Wlp (beeStepRecvWith check P sync) (fun _ => World.Calm) w := by
  obtain ⟨payloads, stream, hlen, hshort, hstream, hpending, hinbox⟩ := h.frames
  obtain ⟨payload, rfl⟩ := List.length_eq_one_iff.mp hlen
  have hstream' : w.obj.stream = some { stream with inbox := frame payload ++ [] } := by
    rw [hstream]
    simp only [List.map_cons, List.map_nil, List.flatten_cons, List.flatten_nil] at hinbox
    rw [← hinbox]
  have hsteady (inbox : Bytes) (net : Net) (hlater : w.net.Later net) :
      World.Steady (w.after stream inbox net) :=
    ⟨h.steady.healthy, h.steady.login, h.steady.greeting, hlater.answers h.steady.net⟩
  refine beeStepRecvWith_frame World.Steady.ignores.toIgnoresOutput World.Calm.ignores.toIgnoresOutput
    (fun _ => beeStreamClose_calm) resetValue_calm (fun _ hw => hw.steady) ?_
    (hshort payload List.mem_cons_self) h.steady.net.prompt hstream' hsteady ?_
  · intro w value hw
    exact ⟨⟨hw.steady.healthy, hw.steady.login, hw.steady.greeting, hw.steady.net⟩, hw.settled⟩
  · intro net hlater
    refine ⟨hsteady [] net hlater, fun stream' heq => ?_⟩
    obtain rfl := Option.some.inj heq
    exact ⟨rfl, hpending⟩

theorem receive_calm {sync : Int64} {w : World} (h : w.Awaiting 1) :
    Wlp (receive P sync) (fun _ => World.Calm) w := by
  refine .bind ((awaitResponse_keeps (World.Awaiting.ignores 1) w h).mono fun _ w₁ h₁ => ?_)
  refine .bind ((beeStepRecvWith_calm h₁).mono fun answer w₂ h₂ => ?_)
  exact Keeps.ite (.bind (useResponse_keeps World.Calm.ignores) fun _ => .pure _) (.pure _) w₂ h₂

/-! ## Long requests

A request of 2^32 bytes or more is no frame. Once one has been sent nothing is claimed. -/

def World.Long (w : World) : Prop := ∃ s ∈ w.sent, 2 ^ 32 ≤ s.bytes.length

theorem not_short_iff (w : World) : ¬ w.Short ↔ w.Long := by
  simp only [World.Short, World.Long, not_forall, exists_prop, not_lt]

theorem long_of_quiet {α : Type} {x : M α} (h : IsQuiet x) : Keeps World.Long x := by
  refine fun w hw => (h w).mono fun _ w' hquiet => ?_
  rw [World.Long, hquiet.sent]
  exact hw

theorem beeStreamSend_long {request : Bool} : Keeps World.Long (beeStreamSend request) := by
  rintro w ⟨s, hs, hlen⟩
  refine (beeStreamSend_sent request w).mono ?_
  rintro ok w' ⟨-, hsent, -⟩
  exact ⟨s, by rw [hsent]; exact List.mem_append_left _ hs, hlen⟩

theorem beeAuthenticate_long : Keeps World.Long (beeAuthenticate P) := by
  refine .bind (fun _ h => .modify h) fun _ => ?_
  refine .bind (long_of_quiet (composeTp_quiet authRequests_quiet)) fun _ => ?_
  refine .bind beeStreamSend_long fun _ => .ite (.bind (long_of_quiet authLoop_quiet) fun _ => ?_) ?_
  · exact .bind (fun _ h => .modify h) fun _ => .pure _
  · exact .bind (fun _ h => .modify h) fun _ => .pure _

theorem connects_long : Connects P World.Long where
  throwExc := fun _ _ => long_of_quiet throwExc_quiet
  renew := long_of_quiet renewPersistentId_quiet
  id := fun _ _ h => h
  close := long_of_quiet beeStreamClose_quiet
  opened := by
    intro w h
    refine (beexllStreamOpen_spec w).mono ?_
    rintro err w' ⟨opens, -, ⟨rfl, greeting, -, rfl⟩ | ⟨herr, rfl⟩⟩
    · exact long_of_quiet readGreeting_quiet _ h
    · cases err with
      | none => exact absurd rfl herr
      | some text => exact h
  found := by
    intro w h
    refine (beexllStreamFpid2_spec w).mono ?_
    rintro found w' ⟨finds, -, ⟨-, stream, -, rfl⟩ | ⟨-, rfl⟩⟩
    · exact h
    · exact h
  eof := phpStreamEof_keeps fun _ _ h => h
  exchange := beeAuthenticate_long

theorem lookupName_long {find : Schema → Int} {request : M Unit}
    {add : Schema → Option Bytes → Nat → Except Fault (Schema × Bool)} {parseError missing : String}
    {name : Bytes} (hrequest : IsQuiet request) :
    Keeps World.Long (lookupName find request add parseError missing name) := by
  refine .bind getObj_keeps fun obj => .ite (.pure _) ?_
  refine .bind (long_of_quiet (composeTp_quiet hrequest)) fun _ => ?_
  refine .bind beeStreamSend_long fun _ => 
    .ite (long_of_quiet (lookupReceive_quiet lookupParse_quiet)) (.pure _)

theorem execute_long (H : Heap) (r : Request) : Keeps World.Long (execute P H r) := by
  refine .bind (long_of_quiet nextSync_quiet) fun sync => .bind getObj_keeps fun obj => ?_
  refine .bind (.lift _) fun value' => .bind (fun _ h => .modify h) fun _ => ?_
  refine .bind (fun _ h => .modify h) fun _ => .bind beeStreamSend_long fun _ => ?_
  exact .ite (long_of_quiet receive_quiet) (.pure _)

/-! ## The methods -/

/-- The invariant between the methods, as long as every request is a frame. -/
def World.Framed (w : World) : Prop := w.Short → w.Idle

theorem framed_of_idle {α : Type} {x : M α} (hidle : Keeps World.Idle x) (hlong : Keeps World.Long x) :
    Keeps World.Framed x := by
  intro w h
  by_cases hshort : w.Short
  · exact (hidle w (h hshort)).mono fun _ _ h' _ => h'
  · refine (hlong w ((not_short_iff w).mp hshort)).mono fun _ w' h' hshort' => ?_
    exact absurd hshort' ((not_short_iff w').mpr h')

/-- A data request is sent as a frame and its response read, or it is too long to be one. -/
theorem execute_framed (H : Heap) {r : Request} (hproper : r.Proper) (hsmall : r.Small) :
    Keeps World.Framed (execute P H r) := by
  intro w h
  by_cases hshort : w.Short
  case neg =>
    refine (execute_long H r w ((not_short_iff w).mp hshort)).mono fun _ w' h' hshort' => ?_
    exact absurd hshort' ((not_short_iff w').mpr h')
  case pos =>
    have hidle := h hshort
    refine .bind (.bind (.get (.bind (.set (.pure (.bind (getObj_wlp (.bind (.lift ?_)))))))))
    intro value' hencode
    obtain ⟨str, hstr, hdata⟩ :=
      r.encodes P.ndebug H w.obj.value hproper hsmall (longToUint32 w.syncCounter)
    obtain rfl : value' = (str, fun _ => 0) := Except.ok.inj (hencode.symm.trans hstr)
    have hempty : w.obj.value.data = [] :=
      List.length_eq_zero_iff.mp ((SmartString.data_length _).trans hidle.empty)
    generalize hpayload : r.payload H (longToUint32 w.syncCounter) = payload at hdata
    rw [hempty, List.nil_append] at hdata
    refine .bind (.modify (.bind (.modify (.bind ?_))))
    by_cases hlt : payload.length + 5 < 2 ^ 32
    · have hframe : str.data = (([payload] : List Bytes).map frame).flatten := by
        rw [hdata, toUint32_eq (by omega)]
        simp [frame]
      refine (@beeStreamSend_awaits true _ ?_ ?_ [payload] ?_ hframe).mono ?_
      · exact ⟨hidle.steady.healthy, hidle.steady.login, hidle.steady.greeting, hidle.steady.net⟩
      · exact hidle.settled
      · intro p hp
        rw [List.mem_singleton.mp hp]
        omega
      · rintro ok w₂ ⟨rfl, h₂⟩
        refine .ite (fun _ => ?_) fun hok => absurd rfl hok
        refine ((receive_calm h₂).and (receive_empties w₂)).mono ?_
        exact fun _ w₃ h₃ _ => ⟨h₃.1.steady, h₃.2, h₃.1.settled⟩
    · refine (beeStreamSend_sent true _).mono ?_
      rintro ok w₂ ⟨-, hsent, -⟩
      have hlong : w₂.Long := by
        refine ⟨_, by rw [hsent]; exact List.mem_append_right _ List.mem_cons_self, ?_⟩
        show _ ≤ str.data.length
        rw [hdata]
        simp only [List.length_append, List.length_cons, toBE_length]
        omega
      refine (Keeps.ite (long_of_quiet receive_quiet) (.pure _) w₂ hlong).mono ?_
      exact fun _ w₃ h₃ hshort₃ => absurd hshort₃ ((not_short_iff w₃).mpr h₃)

theorem kept_framed : Kept P Net.Answers World.Framed where
  net := fun _ _ hnet h hshort => (h hshort).withNet hnet
  throwExc := fun _ _ => framed_of_idle (@connects_idle P |>.throwExc _ _)
    (@connects_long P |>.throwExc _ _)
  onDemand := framed_of_idle connects_idle.links.onDemand connects_long.links.onDemand
  connect := framed_of_idle connects_idle.connect connects_long.connect
  reconnect := framed_of_idle connects_idle.links.reconnect connects_long.links.reconnect
  authenticate := fun login passwd => framed_of_idle
    (connects_idle.links.authenticate (fun _ login _ h => ⟨⟨h.steady.healthy,
      Nat.lt_of_le_of_lt (cString_length_le _) login.small, h.steady.greeting, h.steady.net⟩, h.empty,
      h.settled⟩) login passwd)
    (connects_long.links.authenticate (fun _ _ _ h => h) login passwd)
  flushSchema := by
    refine .bind (fun w h => .modify fun hshort => ?_) fun _ => .pure _
    exact World.Idle.ignores.schema w _ (h hshort)
  spaceno := by
    refine fun name => framed_of_idle ?_ ?_
    · refine spaceno_keeps (@connects_idle P).throwExc (fun s => lookupName_idle ?_ ?_) name
      · exact fun w => spaceRequest_keeps (World.SameLink.ignoresWriter w)
      · exact fun w₁ h₁ => spaceRequest_whole s.small h₁
    · exact spaceno_keeps (@connects_long P).throwExc (fun _ => lookupName_long spaceRequest_quiet) name
  indexno := by
    refine fun spaceNo name => framed_of_idle ?_ ?_
    · refine indexno_keeps (@connects_idle P).throwExc (fun s => lookupName_idle ?_ ?_) name
      · exact fun w => indexRequest_keeps (World.SameLink.ignoresWriter w)
      · exact fun w₁ h₁ => indexRequest_whole s.small h₁
    · exact indexno_keeps (@connects_long P).throwExc (fun _ => lookupName_long indexRequest_quiet) name
  execute := fun H _ hproper hsmall => execute_framed H hproper hsmall

end Idle

/-! ## Runs -/

theorem calm_answers : Net.calm.Answers where
  greeting := by simp [Net.calm]
  reply := by simp [Net.calm]
  found := by simp [Net.calm]
  sends := by simp [Net.Sends, Net.calm]
  prompt := by simp [Net.calm]
  short := by simp [Net.calm]

theorem init_idle {c : Creation} (hgarbage : ∀ n, c.garbage n ≠ 2 ^ 64 - 1) {w : World}
    (h : c.init = some w) : w.Idle := by
  obtain ⟨host, port, login, passwd, id, isPersistent, hlogin, rfl⟩ := Creation.init_spec h
  exact ⟨⟨hgarbage, hlogin, List.length_replicate, calm_answers⟩,
    ((SmartString.null c.fresh).ensure_spec greetingSize).1, .of_closed rfl⟩

/-- Between the methods the stream is closed, or every byte of every response has been consumed: the next
bytes are those of the next response. It is so while no read stops short but that of a length in
`bee_step_recv`, an `int` holds the length of every response, the variable that `tp_ensure` does not set
is never the largest number, and the requests are shorter than 2^32 bytes. -/
theorem responses_consumed {P : Platform} {c : Creation} {steps : List Step} {w : World}
    (h : Runs P c steps w) (hgarbage : ∀ n, c.garbage n ≠ 2 ^ 64 - 1)
    (hnet : ∀ s ∈ steps, s.net.Answers) (hshort : w.Short) : w.Settled := by
  obtain ⟨w₀, hinit, hrun⟩ := h
  have hidle := init_idle hgarbage hinit
  exact (kept_framed.runAll hnet w₀ (fun _ => hidle) _ _ hrun hshort).settled

/-- A server that greets with zeros and has one answer. -/
theorem opening_answers {payload : Bytes} (h : payload.length < 2 ^ 31) {chunks : List Nat}
    (hchunks : ∀ c ∈ chunks, 0 < c) :
    Net.Answers { Net.opening with replies := [frame payload], chunks := chunks } where
  greeting := by
    intro g hg
    obtain rfl := Attempt.opened.inj (List.mem_singleton.mp hg)
    exact List.length_replicate
  reply := by
    intro r hr
    exact ⟨payload, List.mem_singleton.mp hr, by omega⟩
  found := by simp [Net.opening, Net.calm]
  sends := by simp [Net.Sends, Net.opening, Net.calm]
  prompt := hchunks
  short := by
    intro p hp
    have hlen := congrArg List.length (List.mem_singleton.mp hp)
    rw [frame_length, frame_length] at hlen
    omega

/-- A ping whose response comes in pieces, and one whose response does not come in time. -/
theorem responses_consumed_pings : ∃ w, Runs (.blank false) .guest
    [⟨{ Net.opening with replies := [okReply 0 [0x80]], chunks := [100, 28, 2] }, [], .ping⟩,
      ⟨{ Net.calm with lengthChunks := [0] }, [], .ping⟩] w ∧ w.sent.length = 2 ∧ w.Settled := by
  have hruns : runsTo (.blank false) .guest
      [⟨{ Net.opening with replies := [okReply 0 [0x80]], chunks := [100, 28, 2] }, [], .ping⟩,
        ⟨{ Net.calm with lengthChunks := [0] }, [], .ping⟩]
      (fun w => w.sent.length = 2 ∧ ∀ s ∈ w.sent, s.bytes.length < 2 ^ 32) = true := by decide +kernel
  obtain ⟨w, hrun, htest⟩ := exists_of_runsTo hruns
  obtain ⟨hsent, hshort⟩ := of_decide_eq_true htest
  have hgarbage (n : Nat) : Creation.guest.garbage n ≠ 2 ^ 64 - 1 := show 0 ≠ 2 ^ 64 - 1 by decide
  refine ⟨w, hrun, hsent, responses_consumed hrun hgarbage ?_ hshort⟩
  refine List.forall_mem_cons.mpr ⟨opening_answers (by decide) (by decide), ?_⟩
  refine List.forall_mem_cons.mpr ⟨?_, List.forall_mem_nil _⟩
  exact { calm_answers with prompt := calm_answers.prompt }

/-- After a ping whose response stops short behind its length, the rest of it is still to come. -/
theorem responses_consumed_timeout : ¬ ∀ (P : Platform) (c : Creation) (steps : List Step) (w : World),
    Runs P c steps w → (∀ s ∈ steps, s.net.Serves ∧ s.net.Sends) → w.Settled := by
  intro h
  have hruns : runsTo (.blank false) .guest
      [⟨{ Net.opening with replies := [okReply 0 [0x80]], chunks := [128, 0] }, [], .ping⟩]
      (fun w => ∃ stream ∈ w.obj.stream, stream.inbox ≠ []) = true := by decide +kernel
  obtain ⟨w, hrun, htest⟩ := exists_of_runsTo hruns
  obtain ⟨stream, hstream, hinbox⟩ := of_decide_eq_true htest
  refine hinbox (h _ _ _ w hrun ?_ stream hstream).1
  have hanswers : Net.Answers { Net.opening with replies := [okReply 0 [0x80]] } :=
    opening_answers (by decide) (List.forall_mem_nil _)
  refine List.forall_mem_cons.mpr ⟨⟨?_, hanswers.sends⟩, List.forall_mem_nil _⟩
  exact { hanswers.toServes with reply := hanswers.reply }

end BeePhp
