import Mathlib.Tactic.Common

/-!
# Programs with a state that may fault

A program is a computation with a state and a fault. `Wlp x Q` holds of the states from which every run
of `x` that returns satisfies `Q`, `Returns x` of those from which it does return, `Keeps I x` says
that `x` preserves the predicate `I`, and `runAll_keeps` lifts what one step preserves to a whole run.
-/

namespace BeePhp.Program

variable {ε σ α β ι : Type}

/-- Whenever `x` started in `s` returns, its value and the state it leaves satisfy `Q`. -/
def Wlp (x : StateT σ (Except ε) α) (Q : α → σ → Prop) (s : σ) : Prop :=
  ∀ a s', x s = .ok (a, s') → Q a s'

theorem Wlp.mono {x : StateT σ (Except ε) α} {P Q : α → σ → Prop} {s : σ} (h : Wlp x P s)
    (hPQ : ∀ a s', P a s' → Q a s') : Wlp x Q s := fun a s' hrun => hPQ a s' (h a s' hrun)

theorem Wlp.and {x : StateT σ (Except ε) α} {P Q : α → σ → Prop} {s : σ} (hP : Wlp x P s)
    (hQ : Wlp x Q s) : Wlp x (fun a s' => P a s' ∧ Q a s') s :=
  fun a s' hrun => ⟨hP a s' hrun, hQ a s' hrun⟩

/-! ## The rules -/

theorem Wlp.pure {Q : α → σ → Prop} {a : α} {s : σ} (h : Q a s) :
    Wlp (Pure.pure a : StateT σ (Except ε) α) Q s := by
  rintro b s' ⟨⟩
  exact h

theorem Wlp.bind {x : StateT σ (Except ε) α} {f : α → StateT σ (Except ε) β} {Q : β → σ → Prop}
    {s : σ} (h : Wlp x (fun a => Wlp (f a) Q) s) : Wlp (x >>= f) Q s := by
  intro b s'' hrun
  simp only [Bind.bind, StateT.bind, Except.bind] at hrun
  cases hx : x s with
  | error e => simp [hx] at hrun
  | ok r =>
    obtain ⟨a, s'⟩ := r
    rw [hx] at hrun
    exact h a s' hx b s'' hrun

theorem Wlp.get {Q : σ → σ → Prop} {s : σ} (h : Q s s) :
    Wlp (MonadState.get : StateT σ (Except ε) σ) Q s := by
  rintro a s' ⟨⟩
  exact h

theorem Wlp.set {Q : PUnit → σ → Prop} {s t : σ} (h : Q ⟨⟩ t) :
    Wlp (MonadStateOf.set t : StateT σ (Except ε) PUnit) Q s := by
  rintro a s' ⟨⟩
  exact h

theorem Wlp.modify {Q : PUnit → σ → Prop} {f : σ → σ} {s : σ} (h : Q ⟨⟩ (f s)) :
    Wlp (modifyThe σ f : StateT σ (Except ε) PUnit) Q s := by
  rintro a s' ⟨⟩
  exact h

theorem Wlp.throw {Q : α → σ → Prop} {e : ε} {s : σ} :
    Wlp (MonadExceptOf.throw e : StateT σ (Except ε) α) Q s := by
  rintro a s' ⟨⟩

/-- A computation without the state. -/
theorem Wlp.lift {x : Except ε α} {Q : α → σ → Prop} {s : σ} (h : ∀ a, x = .ok a → Q a s) :
    Wlp (StateT.lift x : StateT σ (Except ε) α) Q s := by
  intro a s' hrun
  cases hx : x with
  | error e => simp [StateT.lift, hx, Bind.bind, Except.bind] at hrun
  | ok b =>
    rw [hx] at hrun
    obtain ⟨rfl, rfl⟩ := Prod.mk.inj (Except.ok.inj hrun)
    exact h b hx

theorem Wlp.ite {p : Prop} [Decidable p] {x y : StateT σ (Except ε) α} {Q : α → σ → Prop} {s : σ}
    (hx : p → Wlp x Q s) (hy : ¬ p → Wlp y Q s) : Wlp (if p then x else y) Q s := by
  by_cases h : p
  · rw [if_pos h]
    exact hx h
  · rw [if_neg h]
    exact hy h

/-! ## Running forwards -/

theorem run_bind {x : StateT σ (Except ε) α} {f : α → StateT σ (Except ε) β} {s s' : σ} {a : α}
    (h : x s = .ok (a, s')) : (x >>= f) s = f a s' := by
  simp only [Bind.bind, StateT.bind, Except.bind, h]

theorem run_lift {x : Except ε α} {a : α} (h : x = .ok a) (s : σ) :
    (StateT.lift x : StateT σ (Except ε) α) s = .ok (a, s) := by
  rw [h]
  rfl

/-! ## Returning -/

/-- The program started in `s` ends without a fault. -/
def Returns (x : StateT σ (Except ε) α) (s : σ) : Prop := ∃ a s', x s = .ok (a, s')

theorem Returns.pure {a : α} {s : σ} : Returns (Pure.pure a : StateT σ (Except ε) α) s :=
  ⟨a, s, rfl⟩

theorem Returns.bind {x : StateT σ (Except ε) α} {f : α → StateT σ (Except ε) β} {s : σ}
    (hx : Returns x s) (hf : ∀ a s', Returns (f a) s') : Returns (x >>= f) s := by
  obtain ⟨a, s', h⟩ := hx
  obtain ⟨b, s'', h'⟩ := hf a s'
  exact ⟨b, s'', (run_bind h).trans h'⟩

theorem not_returns_throw {e : ε} {s : σ} :
    ¬ Returns (MonadExceptOf.throw e : StateT σ (Except ε) α) s := by
  rintro ⟨a, s', ⟨⟩⟩

theorem returns_bind {x : StateT σ (Except ε) α} {f : α → StateT σ (Except ε) β} {s s' : σ} {a : α}
    (h : x s = .ok (a, s')) : Returns (x >>= f) s ↔ Returns (f a) s' := by
  simp only [Returns, run_bind h]

/-- A computation without the state and what follows it. -/
theorem returns_lift {x : Except ε α} {f : α → StateT σ (Except ε) β} {s : σ} :
    Returns (StateT.lift x >>= f) s ↔ ∃ a, x = .ok a ∧ Returns (f a) s := by
  cases hx : x with
  | error e =>
    refine iff_of_false ?_ (by simp)
    rintro ⟨a, s', hrun⟩
    simp [StateT.lift, Bind.bind, StateT.bind, Except.bind] at hrun
  | ok a =>
    rw [returns_bind (run_lift rfl s)]
    simp

theorem returns_ite {p : Prop} [Decidable p] {x y : StateT σ (Except ε) α} {s : σ} :
    Returns (if p then x else y) s ↔ if p then Returns x s else Returns y s := by
  split <;> rfl

/-! ## What is kept -/

/-- The program keeps the predicate `I`. -/
def Keeps (I : σ → Prop) (x : StateT σ (Except ε) α) : Prop := ∀ s, I s → Wlp x (fun _ => I) s

variable {I : σ → Prop}

theorem Keeps.pure (a : α) : Keeps I (Pure.pure a : StateT σ (Except ε) α) := fun _ h => .pure h

theorem Keeps.bind {x : StateT σ (Except ε) α} {f : α → StateT σ (Except ε) β} (hx : Keeps I x)
    (hf : ∀ a, Keeps I (f a)) : Keeps I (x >>= f) :=
  fun s h => .bind ((hx s h).mono fun a s' h' => hf a s' h')

theorem Keeps.get : Keeps I (MonadState.get : StateT σ (Except ε) σ) := fun _ h => .get h

theorem Keeps.throw {e : ε} : Keeps I (MonadExceptOf.throw e : StateT σ (Except ε) α) :=
  fun _ _ => .throw

theorem Keeps.lift (x : Except ε α) : Keeps I (StateT.lift x : StateT σ (Except ε) α) :=
  fun _ h => .lift fun _ _ => h

theorem Keeps.ite {p : Prop} [Decidable p] {x y : StateT σ (Except ε) α} (hx : Keeps I x)
    (hy : Keeps I y) : Keeps I (if p then x else y) :=
  fun s h => .ite (fun _ => hx s h) (fun _ => hy s h)

/-! ## Runs -/

/-- The steps of a run one after the other. -/
def runAll (step : ι → StateT σ (Except ε) α) : List ι → StateT σ (Except ε) Unit
  | [] => Pure.pure ()
  | i :: is => step i >>= fun _ => runAll step is

theorem runAll_append {step : ι → StateT σ (Except ε) α} {is js : List ι} {s s' : σ} {u : Unit}
    (h : runAll step is s = .ok (u, s')) : runAll step (is ++ js) s = runAll step js s' := by
  induction is generalizing s with
  | nil =>
    obtain ⟨-, rfl⟩ := Prod.mk.inj (Except.ok.inj h)
    rfl
  | cons i is ih =>
    simp only [List.cons_append, runAll, Bind.bind, StateT.bind, Except.bind] at h ⊢
    cases hi : step i s with
    | error e =>
      rw [hi] at h
      cases h
    | ok r =>
      rw [hi] at h
      exact ih h

/-- What holds at first and is kept by every step of a run holds at its end. -/
theorem runAll_keeps {step : ι → StateT σ (Except ε) α} {is : List ι}
    (h : ∀ i ∈ is, Keeps I (step i)) : Keeps I (runAll step is) := by
  induction is with
  | nil => exact .pure ()
  | cons i is ih =>
    refine .bind (h i List.mem_cons_self) fun _ => ?_
    exact ih fun j hj => h j (List.mem_cons_of_mem i hj)

end BeePhp.Program
