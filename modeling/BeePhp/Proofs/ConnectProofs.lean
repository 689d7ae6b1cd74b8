import BeePhp.Methods
import BeePhp.Proofs.QuietProofs

/-!
# Proofs: connecting

What opening a stream, finding one and asking for its end do, and what connecting keeps: a predicate that
its parts keep (`Connects`).
-/

namespace BeePhp

open Codec Program

/-! ## Streams -/

/-- A stream is opened with the greeting of the server, or there is none. -/
theorem beexllStreamOpen_spec (w : World) :
    Wlp beexllStreamOpen (fun err w' => ∃ opens, opens ⊆ w.net.opens ∧
      ((err = none ∧ ∃ greeting, .opened greeting ∈ w.net.opens ∧
          w' = { w with
            obj := { w.obj with stream := some ⟨greeting, [], none⟩ }
            net := { w.net with opens := opens }
            ids := w.ids ++ [w.obj.persistentId] }) ∨
        (err ≠ none ∧ w' = { w with
          net := { w.net with opens := opens }
          ids := w.ids ++ [w.obj.persistentId] }))) w := by
  intro err w' hrun
  simp only [beexllStreamOpen] at hrun
  split at hrun
  case h_1 greeting opens hopens =>
    obtain ⟨rfl, rfl⟩ := Prod.mk.inj (Except.ok.inj hrun)
    exact ⟨opens, by simp [hopens], .inl ⟨rfl, greeting, by simp [hopens], rfl⟩⟩
  case h_2 text opens hopens =>
    obtain ⟨rfl, rfl⟩ := Prod.mk.inj (Except.ok.inj hrun)
    exact ⟨opens, by simp [hopens], .inr ⟨by simp, rfl⟩⟩
  case h_3 hopens =>
    obtain ⟨rfl, rfl⟩ := Prod.mk.inj (Except.ok.inj hrun)
    exact ⟨w.net.opens, List.Subset.refl _, .inr ⟨by simp, rfl⟩⟩

/-- A persistent stream is found, or there is none. -/
theorem beexllStreamFpid2_spec (w : World) :
    Wlp beexllStreamFpid2 (fun found w' => ∃ finds, finds ⊆ w.net.finds ∧
      ((found = true ∧ ∃ stream, some stream ∈ w.net.finds ∧
          w' = { w with
            obj := { w.obj with stream := some stream }
            net := { w.net with finds := finds }
            exchanges := w.exchanges ++
              [decide (w.obj.credentials = none ∨ stream.identity = w.obj.credentials)]
            ids := w.ids ++ [w.obj.persistentId] }) ∨
        (found = false ∧ w' = { w with
          net := { w.net with finds := finds }
          ids := w.ids ++ [w.obj.persistentId] }))) w := by
  intro found w' hrun
  simp only [beexllStreamFpid2] at hrun
  split at hrun
  case h_1 stream finds hfinds =>
    obtain ⟨rfl, rfl⟩ := Prod.mk.inj (Except.ok.inj hrun)
    exact ⟨finds, by simp [hfinds], .inl ⟨rfl, stream, by simp [hfinds], rfl⟩⟩
  case h_2 finds hfinds =>
    obtain ⟨rfl, rfl⟩ := Prod.mk.inj (Except.ok.inj hrun)
    exact ⟨finds, by simp [hfinds], .inr ⟨rfl, rfl⟩⟩
  case h_3 hfinds =>
    obtain ⟨rfl, rfl⟩ := Prod.mk.inj (Except.ok.inj hrun)
    exact ⟨w.net.finds, List.Subset.refl _, .inr ⟨rfl, rfl⟩⟩

theorem phpStreamEof_spec (w : World) :
    Wlp phpStreamEof (fun _ w' => ∃ eofs, w' = { w with net := { w.net with eofs := eofs } }) w := by
  intro eof w' hrun
  simp only [phpStreamEof] at hrun
  split at hrun
  case h_1 eof' eofs heofs =>
    obtain ⟨-, rfl⟩ := Prod.mk.inj (Except.ok.inj hrun)
    exact ⟨eofs, rfl⟩
  case h_2 heofs =>
    obtain ⟨-, rfl⟩ := Prod.mk.inj (Except.ok.inj hrun)
    exact ⟨w.net.eofs, rfl⟩

/-! ## What connecting keeps -/

theorem phpStreamEof_keeps {I : World → Prop}
    (h : ∀ w eofs, I w → I { w with net := { w.net with eofs := eofs } }) : Keeps I phpStreamEof := by
  intro w hw
  refine (phpStreamEof_spec w).mono ?_
  rintro eof w' ⟨eofs, rfl⟩
  exact h w eofs hw

/-- The parts of connecting keep `I`; a stream that has been opened needs to keep it only once the
greeting is read. -/
structure Connects (P : Platform) (I : World → Prop) : Prop where
  throwExc : ∀ format args, Keeps I (throwExc format args)
  renew : Keeps I renewPersistentId
  id : ∀ w id, I w → I { w with obj := { w.obj with persistentId := id } }
  close : Keeps I beeStreamClose
  opened : ∀ w, I w → Wlp beexllStreamOpen (fun err w' =>
    err.elim (Wlp readGreeting (fun _ => I) w') fun _ => I w') w
  found : Keeps I beexllStreamFpid2
  eof : Keeps I phpStreamEof
  exchange : Keeps I (beeAuthenticate P)

section Connecting

variable {P : Platform} {I : World → Prop}

theorem connectLoop_keeps (h : Connects P I) {n : Nat} {err : Option String} :
    Keeps I (connectLoop n err) := by
  induction n generalizing err with
  | zero => exact .pure _
  | succ n ih =>
    refine .bind h.renew fun _ w hw => ?_
    refine .bind ((h.opened w hw).mono fun attempt w₁ h₁ => ?_)
    cases attempt with
    | some text => exact ih w₁ h₁
    | none => exact .bind (Wlp.mono h₁ fun rv w₂ h₂ => Keeps.ite ih (.pure _) w₂ h₂)

theorem connectRetry_keeps (h : Connects P I) : Keeps I (connectRetry P) := by
  refine .bind .get fun w => .bind (connectLoop_keeps h) fun r => ?_
  refine .ite (.bind (h.throwExc _ _) fun _ => .pure _) ?_
  exact .bind getObj_keeps fun _ => .ite h.exchange (.pure _)

theorem Connects.connect (h : Connects P I) : Keeps I (beeConnect P) := by
  refine .bind .get fun w => .ite (.bind (fun w hw => .modify ?_) fun _ => ?_) (connectRetry_keeps h)
  · exact h.id w _ hw
  · exact .bind h.found fun _ => .ite (.pure _) (connectRetry_keeps h)

/-- Connecting as a whole keeps `I`, and so do the other parts of the methods that manage the stream. -/
structure Links (P : Platform) (I : World → Prop) : Prop where
  connect : Keeps I (beeConnect P)
  close : Keeps I beeStreamClose
  eof : Keeps I phpStreamEof
  exchange : Keeps I (beeAuthenticate P)

theorem Connects.links (h : Connects P I) : Links P I := ⟨h.connect, h.close, h.eof, h.exchange⟩

theorem Links.reconnect (h : Links P I) : Keeps I (beeReconnect P) := .bind h.close fun _ => h.connect

theorem connectClosed_keeps (h : Links P I) : Keeps I (connectClosed P) :=
  .bind getObj_keeps fun _ => .ite h.connect (.pure _)

theorem Links.onDemand (h : Links P I) : Keeps I (connectOnDemand P) := by
  refine .bind (connectClosed_keeps h) fun _ => .ite (.bind getObj_keeps fun _ => ?_) (.pure _)
  exact .ite (.bind h.eof fun _ => .ite h.reconnect (.pure _)) (.pure _)

/-- Authenticating, once the object has the login and the password. -/
theorem Links.authenticated (h : Links P I) : Keeps I (BeePhp.onDemand P do
    discard (beeAuthenticate P)
    return .null) := by
  refine .bind h.onDemand fun _ => .ite ?_ (.pure _)
  exact .bind (.bind h.exchange fun _ => .pure _) fun _ => .pure _

theorem Links.authenticate (h : Links P I) (huser : ∀ w (login : ZStr) passwd, I w →
    I { w with obj := { w.obj with login := cString login.val, passwd := passwd } }) (login : ZStr)
    (passwd : Option ZStr) : Keeps I (Bee.authenticate P login passwd) :=
  .bind (fun w hw => .modify (huser w login _ hw)) fun _ => h.authenticated

end Connecting

/-! ## Lookups -/

section Lookups

variable {P : Platform} {I : World → Prop}

/-- A lookup of a space keeps what asking for a name keeps. -/
theorem spaceno_keeps (hthrow : ∀ format args, Keeps I (throwExc format args))
    (h : ∀ (s : ZStr) {find : Schema → Int}
      {add : Schema → Option Bytes → Nat → Except Fault (Schema × Bool)} {parseError missing : String},
      Keeps I (lookupName find (spaceRequest P s.val) add parseError missing s.val)) (name : Zval) :
    Keeps I (getSpacenoByName P name) := by
  unfold getSpacenoByName
  cases name with
  | long n => exact .pure _
  | str s => exact h s
  | _ => exact .bind (hthrow _ _) fun _ => .pure _

/-- A lookup of an index. -/
theorem indexno_keeps {spaceNo : Int} (hthrow : ∀ format args, Keeps I (throwExc format args))
    (h : ∀ (s : ZStr) {find : Schema → Int}
      {add : Schema → Option Bytes → Nat → Except Fault (Schema × Bool)} {parseError missing : String},
      Keeps I (lookupName find (indexRequest P spaceNo s.val) add parseError missing s.val))
    (name : Zval) : Keeps I (getIndexnoByName P spaceNo name) := by
  unfold getIndexnoByName
  cases name with
  | null => exact .pure _
  | long n => exact .pure _
  | str s => exact h s
  | _ => exact .bind (hthrow _ _) fun _ => .pure _

end Lookups

end BeePhp
