import BeePhp.Program.Wlp

/-!
# Failures that are reported

A program fails with some of its values, and is to report this by adding to a log. `Reports log x fails
silent s` says of the state `s` that a success of `x` adds nothing there, and that a failure adds something
unless `silent` holds, in which case `x` does fail and adds nothing. The rules compute the condition
`silent` of a program from those of its parts.
-/

namespace BeePhp.Program

variable {ε σ α β μ : Type} {log : σ → List μ}

/-- `x` started in `s` returns a value that satisfies `ok`, and what it leaves satisfies `Q`. -/
def After (x : StateT σ (Except ε) α) (ok : α → Prop) (Q : α → σ → Prop) (s : σ) : Prop :=
  ∃ a t, x s = .ok (a, t) ∧ ok a ∧ Q a t

structure Reports (log : σ → List μ) (x : StateT σ (Except ε) α) (fails : α → Prop) (silent : Prop)
    (s : σ) : Prop where
  success : Wlp x (fun a t => ¬ fails a → log t = log s) s
  failure : ¬ silent → Wlp x (fun a t => fails a → (log s).length < (log t).length) s
  silent : silent → ∃ a t, x s = .ok (a, t) ∧ fails a ∧ log t = log s

variable {x : StateT σ (Except ε) α} {f : α → StateT σ (Except ε) β} {fails : α → Prop}
  {fails' : β → Prop} {silent : Prop} {silent' : α → σ → Prop} {s : σ}

/-- A failure is reported if and only if it is not silent. -/
theorem Reports.reported_iff (h : Reports log x fails silent s) :
    Wlp x (fun a t => fails a → (log s).length < (log t).length) s ↔ ¬ silent := by
  refine ⟨fun hreported hsilent => ?_, h.failure⟩
  obtain ⟨a, t, hrun, hfails, hlog⟩ := h.silent hsilent
  have hlt := hreported a t hrun hfails
  rw [hlog] at hlt
  exact Nat.lt_irrefl _ hlt

theorem Reports.congr {silent₁ : Prop} (h : Reports log x fails silent s) (hiff : silent₁ ↔ silent) :
    Reports log x fails silent₁ s := by
  rw [hiff]
  exact h

@[simp] theorem not_after_false {ok : α → Prop} : ¬ After x ok (fun _ _ => False) s := by
  rintro ⟨-, -, -, -, ⟨⟩⟩

/-! ## Programs that are never silent -/

/-- A program that reports every failure. -/
theorem Reports.loud (h : Wlp x (fun a t => (fails a → (log s).length < (log t).length) ∧
    (¬ fails a → log t = log s)) s) : Reports log x fails False s where
  success := h.mono fun _ _ h => h.2
  failure := fun _ => h.mono fun _ _ h => h.1
  silent := nofun

theorem Reports.throw {e : ε} :
    Reports log (MonadExceptOf.throw e : StateT σ (Except ε) α) fails False s :=
  .loud .throw

/-- A value that is a failure or none. -/
theorem Reports.value {a : α} :
    Reports log (Pure.pure a : StateT σ (Except ε) α) fails (fails a) s where
  success := .pure fun _ => rfl
  failure := fun hnot => .pure fun h => absurd h hnot
  silent := fun h => ⟨a, s, rfl, h, rfl⟩

theorem Reports.pure {a : α} (h : ¬ fails a) :
    Reports log (Pure.pure a : StateT σ (Except ε) α) fails False s :=
  Reports.value.congr (iff_of_false not_false h)

/-- A failure that is not reported at all. -/
theorem Reports.stop {a : α} (h : fails a) :
    Reports log (Pure.pure a : StateT σ (Except ε) α) fails True s :=
  Reports.value.congr (iff_of_true trivial h)

/-! ## The rules -/

/-- A program that runs as another does from a state with the same log. -/
theorem Reports.of_run {y : StateT σ (Except ε) α} {t : σ} (h : x s = y t) (hlog : log t = log s)
    (hy : Reports log y fails silent t) : Reports log x fails silent s := by
  constructor
  · intro a u hrun hnot
    exact (hy.success a u (h ▸ hrun) hnot).trans hlog
  · intro hnot a u hrun hfails
    rw [← hlog]
    exact hy.failure hnot a u (h ▸ hrun) hfails
  · intro hsilent
    obtain ⟨a, u, hrun, hfails, heq⟩ := hy.silent hsilent
    exact ⟨a, u, h.trans hrun, hfails, heq.trans hlog⟩

/-- A step whose outcome is known, and that leaves the log alone. -/
theorem Reports.step {a : α} {t : σ} (hx : x s = .ok (a, t)) (hlog : log t = log s)
    (hf : Reports log (f a) fails' silent t) : Reports log (x >>= f) fails' silent s :=
  .of_run (run_bind hx) hlog hf

/-- A program that leaves the log alone, and what follows it. -/
theorem Reports.after {ok : α → Prop} (hx : Wlp x (fun _ t => log t = log s) s)
    (hf : ∀ a t, x s = .ok (a, t) → Reports log (f a) fails' (ok a ∧ silent' a t) t) :
    Reports log (x >>= f) fails' (After x ok silent' s) s := by
  cases hrun : x s with
  | error e =>
    have hbind : (x >>= f) s = .error e := by simp only [Bind.bind, StateT.bind, Except.bind, hrun]
    refine ⟨fun b t h => ?_, fun _ b t h => ?_, ?_⟩
    · cases hbind.symm.trans h
    · cases hbind.symm.trans h
    · rintro ⟨a, t, hrun', -⟩
      cases hrun.symm.trans hrun'
  | ok r =>
    obtain ⟨a, t⟩ := r
    refine .congr (.step hrun (hx a t hrun) (hf a t hrun)) ⟨?_, fun h => ⟨a, t, hrun, h⟩⟩
    rintro ⟨a', t', hrun', h⟩
    obtain ⟨rfl, rfl⟩ := Prod.mk.inj (Except.ok.inj (hrun.symm.trans hrun'))
    exact h

theorem Reports.after_loud (hx : Wlp x (fun _ t => log t = log s) s)
    (hf : ∀ a t, x s = .ok (a, t) → Reports log (f a) fails' False t) :
    Reports log (x >>= f) fails' False s := by
  have hafter : Reports log (x >>= f) fails' (After x (fun _ => True) (fun _ _ => False) s) s :=
    .after hx fun a t hrun => (hf a t hrun).congr (and_false _).to_iff
  exact hafter.congr (by simp)

/-- A program that may fail, and what follows its success; what follows its failure fails without adding
to the log. -/
theorem Reports.bind {ok : α → Prop} (hx : Reports log x fails silent s) (hok : ∀ a, ok a ↔ ¬ fails a)
    (hf : ∀ a t, x s = .ok (a, t) → ok a → Reports log (f a) fails' (silent' a t) t)
    (hstop : ∀ a t, fails a → Reports log (f a) fails' True t) :
    Reports log (x >>= f) fails' (silent ∨ After x ok silent' s) s := by
  constructor
  · refine .bind fun a t hrun => ?_
    by_cases hfails : fails a
    · intro b u hrun' hnot
      obtain ⟨b', u', hrun₁, hfails', -⟩ := (hstop a t hfails).silent trivial
      obtain ⟨rfl, -⟩ := Prod.mk.inj (Except.ok.inj (hrun₁.symm.trans hrun'))
      exact absurd hfails' hnot
    · exact (hf a t hrun ((hok a).mpr hfails)).success.mono fun b u h hnot =>
        (h hnot).trans (hx.success a t hrun hfails)
  · intro hnot
    obtain ⟨hnot, hafter⟩ := not_or.mp hnot
    refine .bind fun a t hrun => ?_
    by_cases hfails : fails a
    · intro b u hrun' _
      obtain ⟨b', u', hrun₁, -, hlog⟩ := (hstop a t hfails).silent trivial
      obtain ⟨-, rfl⟩ := Prod.mk.inj (Except.ok.inj (hrun₁.symm.trans hrun'))
      rw [hlog]
      exact hx.failure hnot a t hrun hfails
    · rw [← hx.success a t hrun hfails]
      have hsucceeds := (hok a).mpr hfails
      exact (hf a t hrun hsucceeds).failure fun h => hafter ⟨a, t, hrun, hsucceeds, h⟩
  · rintro (hsilent | ⟨a, t, hrun, hsucceeds, hsilent⟩)
    · obtain ⟨a, t, hrun, hfails, hlog⟩ := hx.silent hsilent
      obtain ⟨b, u, hrun', hb, hlog'⟩ := (hstop a t hfails).silent trivial
      exact ⟨b, u, (run_bind hrun).trans hrun', hb, hlog'.trans hlog⟩
    · obtain ⟨b, u, hrun', hb, hlog⟩ := (hf a t hrun hsucceeds).silent hsilent
      have hlog' := hx.success a t hrun ((hok a).mp hsucceeds)
      exact ⟨b, u, (run_bind hrun).trans hrun', hb, hlog.trans hlog'⟩

/-- The same where what follows is never silent. -/
theorem Reports.bind_loud (hx : Reports log x fails silent s)
    (hf : ∀ a t, x s = .ok (a, t) → ¬ fails a → Reports log (f a) fails' False t)
    (hstop : ∀ a t, fails a → Reports log (f a) fails' True t) :
    Reports log (x >>= f) fails' silent s :=
  (hx.bind (fun _ => Iff.rfl) hf hstop).congr (by simp)

/-- A computation without the state, and what follows it. -/
theorem Reports.lift {y : Except ε α} {p : α → Prop}
    (hf : ∀ a, y = .ok a → Reports log (f a) fails' (p a) s) :
    Reports log (StateT.lift y >>= f) fails' (∃ a, y = .ok a ∧ p a) s := by
  have hlift {a : α} {t : σ} (hrun : (StateT.lift y : StateT σ (Except ε) α) s = .ok (a, t)) :
      y = .ok a ∧ t = s := by
    cases hy : y with
    | error e => simp [StateT.lift, hy, Bind.bind, Except.bind] at hrun
    | ok b =>
      rw [run_lift hy] at hrun
      obtain ⟨rfl, rfl⟩ := Prod.mk.inj (Except.ok.inj hrun)
      exact ⟨rfl, rfl⟩
  have hafter : Reports log (StateT.lift y >>= f) fails'
      (After (StateT.lift y) (fun _ => True) (fun a _ => p a) s) s := by
    refine .after (fun a t hrun => ?_) fun a t hrun => ?_
    · obtain ⟨-, rfl⟩ := hlift hrun
      rfl
    · obtain ⟨hy, rfl⟩ := hlift hrun
      exact (hf a hy).congr (true_and _).to_iff
  refine hafter.congr ⟨?_, ?_⟩
  · rintro ⟨a, hy, hp⟩
    exact ⟨a, s, run_lift hy s, trivial, hp⟩
  · rintro ⟨a, t, hrun, -, hp⟩
    exact ⟨a, (hlift hrun).1, hp⟩

theorem Reports.lift_loud {y : Except ε α} (hf : ∀ a, y = .ok a → Reports log (f a) fails' False s) :
    Reports log (StateT.lift y >>= f) fails' False s :=
  (Reports.lift hf).congr (by simp)

theorem Reports.ite {p : Prop} [Decidable p] {y : StateT σ (Except ε) α}
    (hx : p → Reports log x fails silent s) (hy : ¬ p → Reports log y fails silent s) :
    Reports log (if p then x else y) fails silent s := by
  by_cases hp : p
  · rw [if_pos hp]
    exact hx hp
  · rw [if_neg hp]
    exact hy hp

end BeePhp.Program
