import Mathlib.Logic.Function.Iterate

/-!
# Deterministic machines

* `Ends step F s` — the machine gets from `s` to a state in `F`.
* `ends_step_iff` — where `F` is final, a step changes nothing about it; `Ends.of_mem` and
  `not_ends_of_invariant` decide the two outcomes.
* `Settles step obs s v` — from some step on, `obs` of the machine is `v`; `settles_step_iff` and
  `settles_of_fixed` decide it, and `Settles.unique` says that there is one such value at most.
* `Next step F s t` — `t` is the first state in `F` after `s`: a round of a loop whose head is `F`.
* `next_iff_of_mem`, `next_iff_of_not_mem` — a round, step by step; `not_next_of_invariant` is for
  a round that never ends.
-/

namespace Hbootdbg.Lib.Machine

variable {σ : Type*}

/-- The machine reaches a state in `F`. -/
def Ends (step : σ → σ) (F : σ → Prop) (s : σ) : Prop := ∃ n, F (step^[n] s)

/-- From some step on, the machine is observed as `v`. -/
def Settles {β : Type*} (step : σ → σ) (obs : σ → Option β) (s : σ) (v : β) : Prop :=
  ∃ N, ∀ n ≥ N, obs (step^[n] s) = some v

/-- The first state in `F` after `s`. -/
inductive Next (step : σ → σ) (F : σ → Prop) : σ → σ → Prop
  | now {s : σ} : F (step s) → Next step F s (step s)
  | later {s t : σ} : ¬ F (step s) → Next step F (step s) t → Next step F s t

variable {step : σ → σ} {F I : σ → Prop} {s t : σ}

/-! ## Reaching a final state -/

theorem Ends.of_mem (h : F s) : Ends step F s := ⟨0, h⟩

/-- **One step more or less**, where `F` is final. -/
theorem ends_step_iff (hF : ∀ s, F s → F (step s)) : Ends step F (step s) ↔ Ends step F s := by
  constructor
  · rintro ⟨n, hn⟩
    exact ⟨n + 1, by rwa [Function.iterate_succ_apply]⟩
  · rintro ⟨n, hn⟩
    refine ⟨n, ?_⟩
    rw [← Function.iterate_succ_apply, Function.iterate_succ_apply']
    exact hF _ hn

/-- An invariant that excludes `F` keeps the machine out of it. -/
theorem not_ends_of_invariant (hI : ∀ s, I s → I (step s)) (hIF : ∀ s, I s → ¬ F s) (h : I s) :
    ¬ Ends step F s := by
  rintro ⟨n, hn⟩
  have hmem : I (step^[n] s) := by
    clear hn
    induction n generalizing s with
    | zero => exact h
    | succ n ih => exact ih (hI s h)
  exact hIF _ hmem hn

/-! ## Settling -/

section settles

variable {β : Type*} {obs : σ → Option β} {v w : β}

/-- One step more or less. -/
theorem settles_step_iff : Settles step obs (step s) v ↔ Settles step obs s v := by
  constructor
  · rintro ⟨N, h⟩
    refine ⟨N + 1, fun n hn => ?_⟩
    obtain ⟨n, rfl⟩ : ∃ k, n = k + 1 := ⟨n - 1, by omega⟩
    rw [Function.iterate_succ_apply]
    exact h n (Nat.le_of_succ_le_succ hn)
  · rintro ⟨N, h⟩
    refine ⟨N, fun n hn => ?_⟩
    rw [← Function.iterate_succ_apply]
    exact h (n + 1) (Nat.le_succ_of_le hn)

/-- A state that the machine does not leave settles. -/
theorem settles_of_fixed (hstep : step s = s) (hobs : obs s = some v) : Settles step obs s v := by
  refine ⟨0, fun n _ => ?_⟩
  rw [Function.iterate_fixed hstep]
  exact hobs

/-- A machine settles once. -/
theorem Settles.unique (h : Settles step obs s v) (h' : Settles step obs s w) : v = w := by
  obtain ⟨N, hN⟩ := h
  obtain ⟨N', hN'⟩ := h'
  have hv := hN (max N N') (Nat.le_max_left N N')
  rw [hN' (max N N') (Nat.le_max_right N N')] at hv
  exact (Option.some.inj hv).symm

end settles

/-! ## The rounds of a loop -/

/-- The next step ends the round. -/
theorem next_iff_of_mem {u : σ} (hstep : step s = u) (h : F u) : Next step F s t ↔ t = u := by
  subst hstep
  constructor
  · rintro (- | ⟨hnot, -⟩)
    · rfl
    · exact absurd h hnot
  · rintro rfl
    exact .now h

/-- The next step is within the round. -/
theorem next_iff_of_not_mem {u : σ} (hstep : step s = u) (h : ¬ F u) :
    Next step F s t ↔ Next step F u t := by
  subst hstep
  constructor
  · rintro (hmem | ⟨-, hnext⟩)
    · exact absurd hmem h
    · exact hnext
  · exact .later h

/-- An invariant that excludes `F` keeps the round from ending. -/
theorem not_next_of_invariant (hI : ∀ s, I s → I (step s)) (hIF : ∀ s, I s → ¬ F s) (h : I s) :
    ¬ Next step F s t := by
  intro hnext
  induction hnext with
  | @now s hmem => exact hIF _ (hI s h) hmem
  | @later s _ _ _ ih => exact ih (hI s h)

end Hbootdbg.Lib.Machine
