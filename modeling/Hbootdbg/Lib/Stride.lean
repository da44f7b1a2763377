import Mathlib

/-!
# Loops with a stride over a wrapping address space

`for (x = start; x < stop; x += step)` on `w`-bit addresses, where the stride divides the size of
the address space and the cursor starts at a multiple of it. The cursor goes round the address space
through every multiple of the stride, so the loop ends iff one of these is not below the stop.

* `strideFrom` — the addresses that the loop visits, within a number of rounds.
* `strideFrom_eq_none` — a stop above the last multiple is never reached.
* `strideFrom_spec` — otherwise the loop visits the multiples between the two ends, in order.
* `ends_iff` — so the loop ends iff the stop is not above the last multiple.
* `toNat_alignDown` — the mask that rounds the first address down.
-/

namespace Hbootdbg.Lib.Stride

variable {w : ℕ}

/-- The addresses that the loop visits from `x` on, `none` where `fuel` runs out. -/
def strideFrom (step stop : BitVec w) : ℕ → BitVec w → Option (List (BitVec w))
  | 0, _ => none
  | fuel + 1, x =>
      if x < stop then (strideFrom step stop fuel (x + step)).map (x :: ·) else some []

/-- The loop ends, and visits no address twice. -/
def Ends (step stop x : BitVec w) : Prop :=
  ∃ fuel xs, strideFrom step stop fuel x = some xs ∧ xs.Nodup

/-- The address rounded down to a multiple of `2 ^ k`. -/
def alignDown (size x : BitVec w) : BitVec w := x &&& ~~~(size - 1#w)

variable {step stop x : BitVec w} {fuel : ℕ} {xs : List (BitVec w)}

/-! ## Multiples -/

/-- The next multiple, or the first one behind the last. -/
theorem dvd_add_step (hstep : step.toNat ∣ 2 ^ w) (hx : step.toNat ∣ x.toNat) :
    step.toNat ∣ (x + step).toNat := by
  rw [BitVec.toNat_add]
  exact (Nat.dvd_mod_iff hstep).mpr (Nat.dvd_add hx dvd_rfl)

/-- No multiple is above the last one. -/
theorem le_last (hstep : step.toNat ∣ 2 ^ w) (hx : step.toNat ∣ x.toNat) :
    x.toNat ≤ 2 ^ w - step.toNat := by
  obtain ⟨n, hn⟩ := hstep
  obtain ⟨i, hi⟩ := hx
  have hlt := x.isLt
  rw [hn, hi] at hlt
  have hin : i < n := Nat.lt_of_mul_lt_mul_left hlt
  rw [hn, hi, ← Nat.mul_sub_one]
  exact Nat.mul_le_mul_left _ (by omega)

theorem step_pos (hstep : step.toNat ∣ 2 ^ w) : 0 < step.toNat :=
  Nat.pos_of_dvd_of_pos hstep (Nat.two_pow_pos w)

/-! ## The two outcomes -/

/-- **A stop above the last multiple is never reached.** -/
theorem strideFrom_eq_none (hstep : step.toNat ∣ 2 ^ w) (hx : step.toNat ∣ x.toNat)
    (hstop : 2 ^ w - step.toNat < stop.toNat) : strideFrom step stop fuel x = none := by
  induction fuel generalizing x with
  | zero => rfl
  | succ fuel ih =>
      have hlt : x < stop := BitVec.lt_def.mpr ((le_last hstep hx).trans_lt hstop)
      rw [strideFrom, if_pos hlt, ih (dvd_add_step hstep hx), Option.map_none]

/-- **The loop visits the multiples between the two ends**, in increasing order. -/
theorem strideFrom_spec (stop : BitVec w) (hstep : step.toNat ∣ 2 ^ w) (hx : step.toNat ∣ x.toNat)
    (hstop : stop.toNat ≤ 2 ^ w - step.toNat) (hfuel : stop.toNat - x.toNat < fuel) :
    ∃ xs, strideFrom step stop fuel x = some xs ∧ xs.Pairwise (· < ·) ∧
      ∀ y, y ∈ xs ↔ step.toNat ∣ y.toNat ∧ x ≤ y ∧ y < stop := by
  have hpos := step_pos hstep
  induction fuel generalizing x with
  | zero => omega
  | succ fuel ih =>
      unfold strideFrom
      by_cases hlt : x < stop
      · rw [BitVec.lt_def] at hlt
        have hnext : (x + step).toNat = x.toNat + step.toNat := by
          rw [BitVec.toNat_add, Nat.mod_eq_of_lt (by omega)]
        obtain ⟨xs, hxs, hsorted, hmem⟩ := ih (dvd_add_step hstep hx) (by omega)
        refine ⟨x :: xs, ?_, ?_, fun y => ?_⟩
        · rw [if_pos (BitVec.lt_def.mpr hlt), hxs, Option.map_some]
        · refine List.pairwise_cons.mpr ⟨fun y hy => ?_, hsorted⟩
          have hle := BitVec.le_def.mp ((hmem y).mp hy).2.1
          exact BitVec.lt_def.mpr (by omega)
        · rw [List.mem_cons, hmem, BitVec.le_def, BitVec.le_def, BitVec.lt_def, hnext]
          constructor
          · rintro (rfl | ⟨hy, hle, hstop⟩)
            · exact ⟨hx, le_rfl, hlt⟩
            · exact ⟨hy, by omega, hstop⟩
          · rintro ⟨hy, hle, hstop⟩
            rcases hle.eq_or_lt with heq | hgt
            · exact Or.inl (BitVec.eq_of_toNat_eq heq).symm
            -- there is no multiple strictly between two neighbours
            · refine Or.inr ⟨hy, ?_, hstop⟩
              have hdiff := Nat.le_of_dvd (by omega) (Nat.dvd_sub hy hx)
              omega
      · rw [if_neg hlt]
        refine ⟨[], rfl, List.Pairwise.nil, fun y => ?_⟩
        rw [BitVec.lt_def] at hlt
        constructor
        · intro hy
          cases hy
        · rintro ⟨-, hle, hstop⟩
          rw [BitVec.le_def] at hle
          rw [BitVec.lt_def] at hstop
          omega

/-- **The loop ends iff the stop is not above the last multiple of the stride.** -/
theorem ends_iff (stop : BitVec w) (hstep : step.toNat ∣ 2 ^ w) (hx : step.toNat ∣ x.toNat) :
    Ends step stop x ↔ stop.toNat ≤ 2 ^ w - step.toNat := by
  constructor
  · rintro ⟨fuel, xs, hxs, -⟩
    by_contra hstop
    rw [strideFrom_eq_none hstep hx (by omega)] at hxs
    cases hxs
  · intro hstop
    obtain ⟨xs, hxs, hsorted, -⟩ :=
      strideFrom_spec stop hstep hx hstop (Nat.lt_succ_self (stop.toNat - x.toNat))
    exact ⟨_, xs, hxs, hsorted.imp fun hlt => BitVec.ne_of_lt hlt⟩

/-! ## Alignment -/

/-- The low bits that the mask keeps. -/
theorem toNat_and_pred {k : ℕ} (hk : k < w) :
    (x &&& (BitVec.twoPow w k - 1#w)).toNat = x.toNat % 2 ^ k := by
  have hlt : 2 ^ k < 2 ^ w := Nat.pow_lt_pow_right (by decide) hk
  have hone : (1#w).toNat = 1 := by
    rw [BitVec.toNat_ofNat, Nat.mod_eq_of_lt (Nat.one_lt_two_pow (by omega))]
  have hpred : (BitVec.twoPow w k - 1#w).toNat = 2 ^ k - 1 := by
    have hpos := Nat.two_pow_pos k
    rw [BitVec.toNat_sub, BitVec.toNat_twoPow_of_lt hk, hone]
    rw [show 2 ^ w - 1 + 2 ^ k = 2 ^ k - 1 + 2 ^ w by omega, Nat.add_mod_right,
      Nat.mod_eq_of_lt (by omega)]
  rw [BitVec.toNat_and, hpred, Nat.and_two_pow_sub_one_eq_mod]

/-- **The mask rounds down.** -/
theorem toNat_alignDown {k : ℕ} (hk : k < w) :
    (alignDown (BitVec.twoPow w k) x).toNat = x.toNat / 2 ^ k * 2 ^ k := by
  have hsplit : alignDown (BitVec.twoPow w k) x + (x &&& (BitVec.twoPow w k - 1#w)) = x := by
    rw [alignDown, BitVec.add_eq_or_of_and_eq_zero]
    · ext i hi
      simp
      grind
    · ext i hi
      simp
      grind
  have hlow := toNat_and_pred (x := x) hk
  have hmod := Nat.mod_lt x.toNat (Nat.two_pow_pos k)
  have hdiv := Nat.div_add_mod x.toNat (2 ^ k)
  have hlt := x.isLt
  rw [Nat.mul_comm] at hdiv
  rw [eq_sub_of_add_eq hsplit, BitVec.toNat_sub, hlow]
  rw [show 2 ^ w - x.toNat % 2 ^ k + x.toNat = x.toNat / 2 ^ k * 2 ^ k + 2 ^ w by omega,
    Nat.add_mod_right, Nat.mod_eq_of_lt (by omega)]

theorem dvd_alignDown {k : ℕ} (hk : k < w) :
    (BitVec.twoPow w k).toNat ∣ (alignDown (BitVec.twoPow w k) x).toNat := by
  rw [toNat_alignDown hk, BitVec.toNat_twoPow_of_lt hk]
  exact Nat.dvd_mul_left _ _

end Hbootdbg.Lib.Stride
