import Mathlib

/-!
# Runs of a deterministic step function

* `run step s as` — the state after the operations `as`, from `s`.
* `Throughout step P s as` — `P` holds of `s` and of every state reached on the way.
* `Guarded step Ok s as` — every operation is taken in a state where `Ok` allows it.
* `run_related`, `Guarded.of_related` — the simulation rules: what one step of two machines keeps
  related, a run does.
* `Guarded.stutter` — the simulation rule for a machine that takes up to `b` steps more for each
  step of the other one.
* `Guarded.throughout` packages the induction "holds initially, preserved by every allowed step";
  `throughout_iff_guarded` is its exact form: where a step from a good state keeps the property
  *iff* the guard allows it, a run keeps the property throughout iff all its steps are allowed.
-/

namespace Hbootdbg.Lib.Run

variable {σ α : Type*} (step : σ → α → σ)

/-- The state after a list of operations. -/
def run (s : σ) (as : List α) : σ := as.foldl step s

/-- `P` holds of the first state and of every later one. -/
def Throughout (P : σ → Prop) : σ → List α → Prop
  | s, [] => P s
  | s, a :: as => P s ∧ Throughout P (step s a) as

/-- Every operation is allowed in the state in which it is taken. -/
def Guarded (Ok : σ → α → Prop) : σ → List α → Prop
  | _, [] => True
  | s, a :: as => Ok s a ∧ Guarded Ok (step s a) as

section decidable

variable {P : σ → Prop} {Ok : σ → α → Prop}

instance decidableThroughout [DecidablePred P] :
    ∀ s as, Decidable (Throughout step P s as)
  | s, [] => inferInstanceAs (Decidable (P s))
  | s, a :: as =>
      have := decidableThroughout (step s a) as
      inferInstanceAs (Decidable (P s ∧ Throughout step P (step s a) as))

instance decidableGuarded [∀ s, DecidablePred (Ok s)] :
    ∀ s as, Decidable (Guarded step Ok s as)
  | _, [] => inferInstanceAs (Decidable True)
  | s, a :: as =>
      have := decidableGuarded (step s a) as
      inferInstanceAs (Decidable (Ok s a ∧ Guarded step Ok (step s a) as))

end decidable

@[simp] theorem run_nil (s : σ) : run step s [] = s := rfl

@[simp] theorem run_cons (s : σ) (a : α) (as : List α) :
    run step s (a :: as) = run step (step s a) as := rfl

theorem run_append (s : σ) (as bs : List α) :
    run step s (as ++ bs) = run step (run step s as) bs := List.foldl_append

variable {step} {P Q : σ → Prop} {Ok : σ → α → Prop} {s : σ} {as : List α}

/-- What holds throughout holds of the first state. -/
theorem Throughout.head (h : Throughout step P s as) : P s := by
  cases as with
  | nil => exact h
  | cons a as => exact h.1

/-- What holds throughout holds of the last state. -/
theorem Throughout.last (h : Throughout step P s as) : P (run step s as) := by
  induction as generalizing s with
  | nil => exact h
  | cons a as ih => exact ih h.2

theorem Throughout.mono (hPQ : ∀ s, P s → Q s) (h : Throughout step P s as) :
    Throughout step Q s as := by
  induction as generalizing s with
  | nil => exact hPQ s h
  | cons a as ih => exact ⟨hPQ s h.1, ih h.2⟩

/-- A guard that always allows is no guard. -/
theorem guarded_of_forall (h : ∀ a ∈ as, ∀ s, Ok s a) : Guarded step Ok s as := by
  induction as generalizing s with
  | nil => trivial
  | cons a as ih => exact ⟨h a (by simp) s, ih fun b hb => h b (by simp [hb])⟩

/-- A weaker guard. -/
theorem Guarded.mono {Ok' : σ → α → Prop} (himp : ∀ s a, Ok s a → Ok' s a)
    (h : Guarded step Ok s as) : Guarded step Ok' s as := by
  induction as generalizing s with
  | nil => trivial
  | cons a as ih => exact ⟨himp _ _ h.1, ih h.2⟩

/-- Two guards at once. -/
theorem Guarded.and {D : σ → α → Prop} (hD : Guarded step D s as) (h : Guarded step Ok s as) :
    Guarded step (fun s a => D s a ∧ Ok s a) s as := by
  induction as generalizing s with
  | nil => trivial
  | cons a as ih => exact ⟨⟨hD.1, h.1⟩, ih hD.2 h.2⟩

/-- **Invariant rule**: what allowed steps preserve holds throughout a guarded run. -/
theorem Guarded.throughout (hstep : ∀ s a, P s → Ok s a → P (step s a)) (h0 : P s)
    (h : Guarded step Ok s as) : Throughout step P s as := by
  induction as generalizing s with
  | nil => exact h0
  | cons a as ih => exact ⟨h0, ih (hstep s a h0 h.1) h.2⟩

/-- The invariant rule for the last state alone. -/
theorem Guarded.run_invariant (hstep : ∀ s a, P s → Ok s a → P (step s a)) (h0 : P s)
    (h : Guarded step Ok s as) : P (run step s as) := (h.throughout hstep h0).last

/-- **Simulation rule**: two machines that stay related step by step stay related in runs. -/
theorem run_related {τ : Type*} {step' : τ → α → τ} {R : σ → τ → Prop} {D : α → Prop} {t : τ}
    (hstep : ∀ s t a, R s t → D a → R (step s a) (step' t a)) (hR : R s t)
    (hD : ∀ a ∈ as, D a) : R (run step s as) (run step' t as) := by
  induction as generalizing s t with
  | nil => exact hR
  | cons a as ih =>
      exact ih (hstep s t a hR (hD a (by simp))) fun b hb => hD b (by simp [hb])

/-- The simulation rule for guarded runs of the first machine. -/
theorem Guarded.run_related {τ : Type*} {step' : τ → α → τ} {R : σ → τ → Prop} {t : τ}
    (hstep : ∀ s t a, R s t → Ok s a → R (step s a) (step' t a)) (hR : R s t)
    (h : Guarded step Ok s as) : R (run step s as) (run step' t as) := by
  induction as generalizing s t with
  | nil => exact hR
  | cons a as ih => exact ih (hstep s t a hR h.1) h.2

/-- **Simulation rule for guards**: where related machines step together and the guard of one
implies that of the other, a guarded run of the one is a guarded run of the other. -/
theorem Guarded.of_related {τ : Type*} {step' : τ → α → τ} {Ok' : τ → α → Prop}
    {R : σ → τ → Prop} {t : τ}
    (hstep : ∀ s t a, R s t → R (step s a) (step' t a))
    (hok : ∀ s t a, R s t → Ok s a → Ok' t a) (hR : R s t) (h : Guarded step Ok s as) :
    Guarded step' Ok' t as := by
  induction as generalizing s t with
  | nil => trivial
  | cons a as ih => exact ⟨hok s t a hR h.1, ih (hstep s t a hR) h.2⟩

/-- **Exact invariant rule**: with a background invariant `I` and operations taken where `D` admits
them, a property that a step keeps iff the guard allows the step holds throughout a run iff the run
is guarded. -/
theorem throughout_iff_guarded {I : σ → Prop} {D : σ → α → Prop}
    (hI : ∀ s a, I s → P s → D s a → Ok s a → I (step s a))
    (hP : ∀ s a, I s → P s → D s a → (P (step s a) ↔ Ok s a))
    (hI0 : I s) (hP0 : P s) (hD : Guarded step D s as) :
    Throughout step P s as ↔ Guarded step Ok s as := by
  induction as generalizing s with
  | nil => exact ⟨fun _ => trivial, fun _ => hP0⟩
  | cons a as ih =>
      constructor
      · rintro ⟨-, h⟩
        have hok : Ok s a := (hP s a hI0 hP0 hD.1).mp h.head
        exact ⟨hok, (ih (hI s a hI0 hP0 hD.1 hok) h.head hD.2).mp h⟩
      · rintro ⟨hok, h⟩
        have hP1 : P (step s a) := (hP s a hI0 hP0 hD.1).mpr hok
        exact ⟨hP0, (ih (hI s a hI0 hP0 hD.1 hok) hP1 hD.2).mpr h⟩

/-! ## Stuttering simulation -/

/-- **Stuttering simulation rule.** In `R n s t`, the first machine has at most `n` steps to take
before the second one takes its next. Where every allowed step is a step of the second machine, or
lowers `n`, a run of the first is a run of the second with at most `b` more steps for each of its
own. -/
theorem Guarded.stutter {τ : Type*} {n : ℕ} {t : τ} (next : τ → τ) (R : ℕ → σ → τ → Prop)
    (Fine : τ → Prop) (b : ℕ)
    (hstep : ∀ n s t a, R n s t → Fine t → Ok s a →
      (∃ k ≤ b, R k (step s a) (next t)) ∨ ∃ k < n, R k (step s a) t)
    (hR : R n s t) (hfine : ∀ j < as.length, Fine (next^[j] t)) (h : Guarded step Ok s as) :
    ∃ k j, R k (run step s as) (next^[j] t) ∧ j ≤ as.length ∧
      as.length + k ≤ n + (b + 1) * j := by
  induction as generalizing s t n with
  | nil => exact ⟨n, 0, hR, le_rfl, by simp⟩
  | cons a as ih =>
      rcases hstep n s t a hR (hfine 0 (Nat.zero_lt_succ _)) h.1 with ⟨k, hk, hR'⟩ | ⟨k, hk, hR'⟩
      · obtain ⟨k', j, hrun, hj, hle⟩ :=
          ih hR' (fun j hj => hfine (j + 1) (Nat.succ_lt_succ hj)) h.2
        refine ⟨k', j + 1, hrun, Nat.succ_le_succ hj, ?_⟩
        rw [List.length_cons, Nat.mul_succ]
        omega
      · obtain ⟨k', j, hrun, hj, hle⟩ :=
          ih hR' (fun j hj => hfine j (hj.trans (Nat.lt_succ_self _))) h.2
        refine ⟨k', j, hrun, hj.trans (Nat.le_succ _), ?_⟩
        rw [List.length_cons]
        omega

end Hbootdbg.Lib.Run
