import BeePhp.Proofs.SendProofs

/-!
# Proofs: as whom the requests are sent

While every authentication succeeds, an open stream is always authenticated with the credentials of the
object (`Trusted`), except between a call of `authenticate` and the exchange it makes (`Honest`).
-/

namespace BeePhp

open Codec Program

/-- The data requests so far went out under the credentials of the object. -/
def World.Honest (w : World) : Prop := w.Granted → ∀ s ∈ w.sent, s.Authentic

/-- The stream, if there is one, is authenticated with the credentials of the object. -/
def World.Authenticated (w : World) : Prop :=
  ∀ stream, w.obj.stream = some stream → ∀ c, w.obj.credentials = some c → stream.identity = some c

/-- The invariant between the methods. -/
def World.Trusted (w : World) : Prop :=
  w.Granted → (∀ s ∈ w.sent, s.Authentic) ∧ w.Authenticated

theorem World.Trusted.honest {w : World} (h : w.Trusted) : w.Honest := fun hgranted => (h hgranted).1

theorem World.Honest.trusted {w : World} (h : w.Honest) (hauth : w.Granted → w.Authenticated) :
    w.Trusted := fun hgranted => ⟨h hgranted, hauth hgranted⟩

/-- Without a stream nothing has to be authenticated. -/
theorem World.Honest.closed {w : World} (h : w.Honest) (hstream : w.obj.stream = none) :
    w.Trusted := by
  refine h.trusted fun _ stream hsome => ?_
  rw [hstream] at hsome
  cases hsome

/-- Without credentials nothing has to be authenticated. -/
theorem World.Honest.anonymous {w : World} (h : w.Honest) (hpasswd : w.obj.passwd = none) :
    w.Trusted := by
  refine h.trusted fun _ stream _ c hc => ?_
  simp [Connection.credentials, hpasswd] at hc

/-! ## What is quiet -/

theorem World.Honest.quiet {w w' : World} (h : w.Honest) (hquiet : Quiet w w') : w'.Honest := by
  intro hgranted
  rw [World.Granted, hquiet.exchanges] at hgranted
  rw [hquiet.sent]
  exact h hgranted

theorem World.Authenticated.quiet {w w' : World} (h : w.Authenticated) (hquiet : Quiet w w') :
    w'.Authenticated := by
  intro stream' hstream' c hc
  rw [hquiet.credentials] at hc
  rcases hquiet.stream with hnone | ⟨s, s', hs, hs', -, hidentity⟩
  · rw [hnone] at hstream'
    cases hstream'
  · obtain rfl := Option.some.inj (hs'.symm.trans hstream')
    rw [hidentity]
    exact h s hs c hc

theorem World.Trusted.quiet {w w' : World} (h : w.Trusted) (hquiet : Quiet w w') : w'.Trusted := by
  refine (h.honest.quiet hquiet).trusted fun hgranted => ?_
  rw [World.Granted, hquiet.exchanges] at hgranted
  exact (h hgranted).2.quiet hquiet

theorem trusted_of_quiet {α : Type} {x : M α} (hquiet : IsQuiet x) : Keeps World.Trusted x :=
  fun w h => (hquiet w).mono fun _ _ hw' => h.quiet hw'

/-! ## Sending -/

/-- A request that is no data request may be sent as anybody. -/
theorem beeStreamSend_honest : Keeps World.Honest (beeStreamSend false) := by
  intro w h
  refine (beeStreamSend_sent false w).mono ?_
  rintro ok w' ⟨hexchanges, hsent, -, -⟩ hgranted s hs
  rw [World.Granted, hexchanges] at hgranted
  rw [hsent] at hs
  rcases List.mem_append.mp hs with hs | hs
  · exact h hgranted s hs
  · rw [List.mem_singleton.mp hs]
    intro hrequest
    cases hrequest

/-- On an authenticated stream everything may be sent. -/
theorem beeStreamSend_trusted {request : Bool} : Keeps World.Trusted (beeStreamSend request) := by
  intro w h
  refine (beeStreamSend_sent request w).mono ?_
  rintro ok w' ⟨hexchanges, hsent, hcredentials, stream, stream', hstream, hstream', hidentity⟩ hgranted
  rw [World.Granted, hexchanges] at hgranted
  obtain ⟨hpast, hauth⟩ := h hgranted
  constructor
  · intro s hs
    rw [hsent] at hs
    rcases List.mem_append.mp hs with hs | hs
    · exact hpast s hs
    · rw [List.mem_singleton.mp hs]
      intro _ c hc
      have hrecord : (w.record request).identity = stream.identity := by
        simp [World.record, hstream]
      rw [hrecord]
      exact hauth stream hstream c hc
  · intro st hst c hc
    obtain rfl := Option.some.inj (hstream'.symm.trans hst)
    rw [hcredentials] at hc
    rw [hidentity]
    exact hauth stream hstream c hc

/-! ## Authenticating -/

section Connecting

variable {P : Platform}

/-- After an exchange the stream is authenticated, or the exchange has failed. -/
theorem recordExchange_trusted {ok : Bool} {w : World} (h : w.Honest) :
    Wlp (recordExchange ok) (fun _ => World.Trusted) w := by
  refine .modify fun hgranted => ?_
  have hok : ok = true := hgranted ok (List.mem_append_right _ List.mem_cons_self)
  refine ⟨h fun b hb => hgranted b (List.mem_append_left _ hb), ?_⟩
  rintro stream hstream c hc
  obtain ⟨before, -, rfl⟩ := Option.map_eq_some_iff.mp hstream
  obtain ⟨passwd, hpasswd, rfl⟩ := Option.map_eq_some_iff.mp hc
  have hpasswd' : w.obj.passwd = some passwd := hpasswd
  simp [hok, hpasswd']

/-- An authentication may begin on any stream. -/
theorem beeAuthenticate_trusted {w : World} (h : w.Honest) :
    Wlp (beeAuthenticate P) (fun _ => World.Trusted) w := by
  have hflushed : World.Honest
      { w with obj := { w.obj with schema := beeSchemaFlush w.obj.schema } } := h
  refine .bind (.modify (.bind ((composeTp_quiet authRequests_quiet _).mono fun syncs w₂ h₂ => ?_)))
  have hhonest : w₂.Honest := hflushed.quiet h₂
  refine .bind ((beeStreamSend_honest w₂ hhonest).mono fun ok w₃ h₃ => ?_)
  refine .ite (fun _ => ?_) fun _ => ?_
  · refine .bind ((authLoop_quiet w₃).mono fun r w₄ h₄ => ?_)
    exact .bind ((recordExchange_trusted (h₃.quiet h₄)).mono fun _ _ htrusted => .pure htrusted)
  · exact .bind ((recordExchange_trusted h₃).mono fun _ _ htrusted => .pure htrusted)

/-! ## Connecting -/

theorem beexllStreamOpen_honest {w : World} (h : w.Trusted) :
    Wlp beexllStreamOpen (fun err w' => w'.Honest ∧ (err ≠ none → w'.Trusted)) w := by
  refine (beexllStreamOpen_spec w).mono ?_
  rintro err w' ⟨opens, -, ⟨rfl, greeting, -, rfl⟩ | ⟨-, rfl⟩⟩
  · exact ⟨h.honest, fun herr => absurd rfl herr⟩
  · exact ⟨h.honest, fun _ => h⟩

/-- The greeting is read to the end or the reading stops short, but it does not fail. -/
theorem readGreeting_ne (w : World) : Wlp readGreeting (fun rv _ => rv ≠ -1) w := by
  refine .bind (getObj_wlp (.bind (.bind ((readLoop_le (Nat.zero_le _)).mono ?_))))
  rintro ⟨total, greeting⟩ w' hle
  refine .pure (.bind (.modify (.pure ?_)))
  have htotal : total ≤ 128 := hle
  show toInt total ≠ -1
  rw [toInt, Int.bmod_def]
  omega

/-- The loop that opens a stream leaves the one there was when it gives up. -/
theorem connectLoop_honest {n : Nat} {err : Option String} {w : World} (h : w.Trusted) :
    Wlp (connectLoop n err) (fun r w' => w'.Honest ∧ (r.1 = 0 → w'.Trusted)) w := by
  induction n generalizing err w with
  | zero => exact .pure ⟨h.honest, fun _ => h⟩
  | succ n ih =>
    refine .bind ((trusted_of_quiet renewPersistentId_quiet w h).mono fun _ w₁ h₁ => ?_)
    refine .bind ((beexllStreamOpen_honest h₁).mono fun attempt w₂ h₂ => ?_)
    cases attempt with
    | some text => exact ih (h₂.2 (by simp))
    | none =>
      refine .bind (((readGreeting_quiet w₂).and (readGreeting_ne w₂)).mono fun rv w₃ h₃ => ?_)
      refine .ite (fun hfailed => absurd hfailed h₃.2) fun _ => .pure ⟨h₂.1.quiet h₃.1, ?_⟩
      intro hzero
      cases hzero

theorem connectRetry_trusted : Keeps World.Trusted (connectRetry P) := by
  intro w h
  refine .bind (.get (.bind ((connectLoop_honest h).mono fun r w₁ h₁ => ?_)))
  refine .ite (fun hzero => ?_) fun _ => .bind (getObj_wlp (.ite (fun _ => ?_) fun hpasswd => ?_))
  · refine .bind ((trusted_of_quiet throwExc_quiet w₁ (h₁.2 hzero.2)).mono fun _ _ h₂ => .pure h₂)
  · exact beeAuthenticate_trusted h₁.1
  · exact .pure (h₁.1.anonymous (by simpa using hpasswd))

theorem beexllStreamFpid2_trusted : Keeps World.Trusted beexllStreamFpid2 := by
  intro w h
  refine (beexllStreamFpid2_spec w).mono ?_
  rintro found w' ⟨finds, -, ⟨-, stream, -, rfl⟩ | ⟨-, rfl⟩⟩
  · intro hgranted
    obtain ⟨hpast, -⟩ := h fun ok hok => hgranted ok (List.mem_append_left _ hok)
    have hfound := hgranted _ (List.mem_append_right _ List.mem_cons_self)
    refine ⟨hpast, fun st hst c hc => ?_⟩
    obtain rfl := Option.some.inj hst
    have hc' : w.obj.credentials = some c := hc
    simpa [hc'] using hfound
  · exact h

theorem beeConnect_trusted : Keeps World.Trusted (beeConnect P) := by
  refine .bind .get fun w => .ite (.bind (trusted_of_quiet ?_) fun _ => ?_) connectRetry_trusted
  · exact modifyObj_quiet (fun _ => rfl) (fun _ => rfl) fun _ => rfl
  · exact .bind beexllStreamFpid2_trusted fun _ => .ite (.pure _) connectRetry_trusted

/-- Reconnecting begins by closing the stream, whosever it was. -/
theorem beeReconnect_trusted {w : World} (h : w.Honest) :
    Wlp (beeReconnect P) (fun _ => World.Trusted) w := by
  refine .bind (.modify ?_)
  have hclosed : World.Honest { w with obj := { w.obj with stream := none, persistentId := none } } := h
  exact beeConnect_trusted _ (hclosed.closed rfl)

theorem connectClosed_trusted : Keeps World.Trusted (connectClosed P) :=
  .bind getObj_keeps fun _ => .ite beeConnect_trusted (.pure _)

theorem connectOnDemand_trusted : Keeps World.Trusted (connectOnDemand P) := by
  refine .bind connectClosed_trusted fun _ => .ite (.bind getObj_keeps fun _ => .ite ?_ (.pure _)) (.pure _)
  refine .bind (phpStreamEof_keeps fun _ _ h => h) fun _ => .ite ?_ (.pure _)
  exact fun w h => beeReconnect_trusted h.honest

/-- When the credentials are new, the stream is still somebody else's where the method goes on. -/
theorem connectOnDemand_honest {w : World} (h : w.Honest) :
    Wlp (connectOnDemand P) (fun ok w' => w'.Honest ∧ (ok = false → w'.Trusted)) w := by
  have hclosed : Wlp (connectClosed P) (fun ok w' => w'.Honest ∧ (ok = false → w'.Trusted)) w := by
    refine .bind (getObj_wlp (.ite (fun hnone => ?_) fun _ => .pure ⟨h, fun hok => ?_⟩))
    · refine (beeConnect_trusted w (h.closed (by simpa using hnone))).mono ?_
      exact fun _ _ h₁ => ⟨h₁.honest, fun _ => h₁⟩
    · cases hok
  refine .bind (hclosed.mono fun ok w₁ h₁ => .ite (fun _ => .bind (getObj_wlp ?_)) fun hok => ?_)
  · have hgoes : Wlp (pure true : M Bool) (fun ok w' => w'.Honest ∧ (ok = false → w'.Trusted)) w₁ :=
      .pure ⟨h₁.1, fun hok => by cases hok⟩
    refine .ite (fun _ => .bind ?_) fun _ => hgoes
    refine (phpStreamEof_keeps (fun _ _ hw => hw) w₁ h₁.1).mono fun eof w₂ h₂ => ?_
    refine .ite (fun _ => (beeReconnect_trusted h₂).mono ?_) fun _ => .pure ⟨h₂, fun hok => by cases hok⟩
    exact fun _ _ h₃ => ⟨h₃.honest, fun _ => h₃⟩
  · exact .pure ⟨h₁.1, fun _ => h₁.2 (by simpa using hok)⟩

end Connecting

/-! ## The methods -/

section Methods

variable {P : Platform}

theorem authenticate_trusted (login : ZStr) (passwd : Option ZStr) :
    Keeps World.Trusted (Bee.authenticate P login passwd) := by
  intro w h
  refine .bind (.modify (.bind ((connectOnDemand_honest ?_).mono fun ok w₁ h₁ => ?_)))
  · exact h.honest
  · refine .ite (fun _ => ?_) fun hok => .pure (h₁.2 (by simpa using hok))
    exact .bind (.bind ((beeAuthenticate_trusted h₁.1).mono fun _ _ h₂ => .pure (.pure h₂)))

theorem lookupName_trusted {find : Schema → Int} {request : M Unit}
    {add : Schema → Option Bytes → Nat → Except Fault (Schema × Bool)} {parseError missing : String}
    {name : Bytes} (hrequest : IsQuiet request) :
    Keeps World.Trusted (lookupName find request add parseError missing name) := by
  refine .bind getObj_keeps fun obj => .ite (.pure _) ?_
  refine .bind (trusted_of_quiet (composeTp_quiet hrequest)) fun _ => ?_
  refine .bind beeStreamSend_trusted fun _ => 
    .ite (trusted_of_quiet (lookupReceive_quiet lookupParse_quiet)) (.pure _)

theorem execute_trusted (H : Heap) (r : Request) : Keeps World.Trusted (execute P H r) := by
  refine .bind (trusted_of_quiet nextSync_quiet) fun sync => .bind getObj_keeps fun obj => ?_
  refine .bind (.lift _) fun value' => .bind (fun _ h => .modify h) fun _ => ?_
  refine .bind (fun _ h => .modify h) fun _ => .bind beeStreamSend_trusted fun _ => ?_
  exact .ite (trusted_of_quiet receive_quiet) (.pure _)

theorem kept_trusted : Kept P (fun _ => True) World.Trusted where
  net := fun _ _ _ h => h
  throwExc := fun _ _ => trusted_of_quiet throwExc_quiet
  onDemand := connectOnDemand_trusted
  connect := beeConnect_trusted
  reconnect := fun _ h => beeReconnect_trusted h.honest
  authenticate := authenticate_trusted
  flushSchema := .bind (fun _ h => .modify h) fun _ => .pure _
  spaceno := spaceno_keeps (fun _ _ => trusted_of_quiet throwExc_quiet) fun _ =>
    lookupName_trusted spaceRequest_quiet
  indexno := fun _ => indexno_keeps (fun _ _ => trusted_of_quiet throwExc_quiet) fun _ =>
    lookupName_trusted indexRequest_quiet
  execute := fun H r _ _ => execute_trusted H r

end Methods

/-! ## Runs -/

theorem init_trusted {c : Creation} {w : World} (h : c.init = some w) : w.Trusted := by
  obtain ⟨host, port, login, passwd, id, isPersistent, -, rfl⟩ := Creation.init_spec h
  have hhonest : World.Honest (.init (.new host port login passwd id c.fresh c.garbage) isPersistent
      c.syncCounter) := fun _ s hs => by simp [World.init] at hs
  exact hhonest.closed rfl

/-- Data requests go out as the user of the object, if every authentication succeeds and every
persistent stream found is authenticated as that user. -/
theorem sent_authentic {P : Platform} {c : Creation} {steps : List Step} {w : World}
    (h : Runs P c steps w) (hgranted : w.Granted) : ∀ s ∈ w.sent, s.Authentic := by
  obtain ⟨w₀, hinit, hrun⟩ := h
  exact (kept_trusted.runAll (fun _ _ => trivial) w₀ (init_trusted hinit) _ _ hrun hgranted).1

/-- The theorem at a granted authentication and a ping. -/
theorem sent_authentic_ping :
    ∃ w, Runs (.blank false) .user [⟨{ Net.opening with
        replies := [okReply 0 [0x80], okReply 1 [0x81, 0x30, 0x90], okReply 2 [0x81, 0x30, 0x90]] },
        [], .ping⟩] w ∧
      (∃ s ∈ w.sent, s.request = true) ∧ w.Granted ∧ ∀ s ∈ w.sent, s.Authentic := by
  have hruns : runsTo (.blank false) .user [⟨{ Net.opening with
      replies := [okReply 0 [0x80], okReply 1 [0x81, 0x30, 0x90], okReply 2 [0x81, 0x30, 0x90]] },
      [], .ping⟩] (fun w => (∃ s ∈ w.sent, s.request = true) ∧ ∀ ok ∈ w.exchanges, ok = true) =
      true := by decide +kernel
  obtain ⟨w, hrun, htest⟩ := exists_of_runsTo hruns
  obtain ⟨hrequest, hgranted⟩ := of_decide_eq_true htest
  exact ⟨w, hrun, hrequest, hgranted, sent_authentic hrun hgranted⟩

/-- After a refused authentication a ping goes out on the stream. -/
theorem sent_authentic_refused : ¬ ∀ (P : Platform) (c : Creation) (steps : List Step) (w : World),
    Runs P c steps w → ∀ s ∈ w.sent, s.Authentic := by
  intro h
  have hruns : runsTo (.blank false) .user
      [⟨{ Net.opening with replies := [refusal 0, refusal 1, refusal 2] }, [], .connect⟩,
        ⟨.calm, [], .ping⟩]
      (fun w => ∃ s ∈ w.sent, s.request = true ∧ s.credentials.isSome ∧ s.identity = none) = true := by
    decide +kernel
  obtain ⟨w, hrun, htest⟩ := exists_of_runsTo hruns
  obtain ⟨s, hs, hrequest, hsome, hidentity⟩ := of_decide_eq_true htest
  obtain ⟨c, hc⟩ := Option.isSome_iff_exists.mp hsome
  have hauthentic := h _ _ _ _ hrun s hs hrequest c hc
  rw [hidentity] at hauthentic
  cases hauthentic

end BeePhp
