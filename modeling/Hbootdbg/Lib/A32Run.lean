import Hbootdbg.Lib.ByteMem
import Hbootdbg.Lib.A32Branch

/-!
# Running A32 code up to a breakpoint

A processor that fetches words from a byte memory and knows two instructions by itself: the
breakpoint `BKPT`, at which it stops, and the branch `B`. What every other word does is a parameter.

* `Processor` — the registers, with their program counter, and the effect of a word.
* `runToBkpt` — the run to the next breakpoint: the registers, the memory, and the addresses of
  the instructions executed on the way.
* `Plain` — a word that neither reads nor writes the program counter.
* `Executes` — a finite piece of a run, with its rules `Executes.trans`, `Executes.branch` and
  `Executes.plain`.
* `Executes.run`, `Executes.of_run` — a run begins with the pieces it executes, and with no others.
* `runToBkpt_cases` — the first step of a run that ends.
* `runToBkpt_invariant` — what every word keeps of memory, a run keeps.
-/

namespace Hbootdbg.Lib.A32Run

open Hbootdbg.Lib.ByteMem Hbootdbg.Lib.A32Branch

/-- The word is an always-executed `BKPT`. -/
def isBkpt (w : BitVec 32) : Bool := w &&& 0xfff000f0#32 == 0xe1200070#32

/-- The parts of a processor that a run depends on. -/
structure Processor (ρ : Type*) where
  /-- The program counter. -/
  pc : ρ → BitVec 32
  /-- The registers with another program counter. -/
  setPc : ρ → BitVec 32 → ρ
  /-- The effect of a word that is neither `BKPT` nor `B`. -/
  exec : BitVec 32 → ρ → Mem 32 → ρ × Mem 32
  /-- The program counter is a register. -/
  pc_setPc : ∀ r p, pc (setPc r p) = p
  /-- It is set to the last value. -/
  setPc_setPc : ∀ r p q, setPc (setPc r p) q = setPc r q

variable {ρ : Type*} (P : Processor ρ)

/-- The effect of the word at the program counter, when it is not a breakpoint. -/
def next (r : ρ) (m : Mem 32) : ρ × Mem 32 :=
  match branchTarget (P.pc r) (load32 m (P.pc r)) with
  | some t => (P.setPc r t, m)
  | none => P.exec (load32 m (P.pc r)) r m

/-- Run to the next breakpoint, within `fuel` instructions. -/
def runToBkpt : ℕ → ρ → Mem 32 → Option (ρ × Mem 32 × List (BitVec 32))
  | 0, _, _ => none
  | fuel + 1, r, m =>
      if isBkpt (load32 m (P.pc r)) then some (r, m, [])
      else (runToBkpt fuel (next P r m).1 (next P r m).2).map fun e => (e.1, e.2.1, P.pc r :: e.2.2)

/-- The processor executes the words at the given addresses, none of them a breakpoint. -/
inductive Executes : ρ → Mem 32 → List (BitVec 32) → ρ → Mem 32 → Prop
  /-- Nothing is executed. -/
  | refl (r : ρ) (m : Mem 32) : Executes r m [] r m
  /-- The word at the program counter is executed first. -/
  | step {r r' : ρ} {m m' : Mem 32} {pcs : List (BitVec 32)}
      (hb : isBkpt (load32 m (P.pc r)) = false)
      (h : Executes (next P r m).1 (next P r m).2 pcs r' m') : Executes r m (P.pc r :: pcs) r' m'

/-- The word neither reads nor writes the program counter: executed anywhere, it does the same and
goes on at the next word. -/
structure Plain (w : BitVec 32) : Prop where
  not_bkpt : isBkpt w = false
  not_branch : w >>> 24 ≠ 0xEA#32
  exec : ∀ r p m, P.exec w (P.setPc r p) m = (P.setPc (P.exec w r m).1 (p + 4#32), (P.exec w r m).2)

variable {P} {fuel : ℕ} {r r' : ρ} {m m' : Mem 32} {p w : BitVec 32} {pcs : List (BitVec 32)}

/-- A breakpoint is not a branch. -/
theorem shiftRight_of_isBkpt (h : isBkpt w = true) : w >>> 24 = 0xe1#32 := by
  have hw : w &&& 0xfff000f0#32 = 0xe1200070#32 := by simpa [isBkpt] using h
  have hmask : w >>> 24 = (w &&& 0xfff000f0#32) >>> 24 := by
    rw [BitVec.ushiftRight_and_distrib]
    ext i hi
    simp only [BitVec.getElem_and, BitVec.getElem_ushiftRight]
    by_cases h8 : i < 8
    · interval_cases i <;> simp
    · rw [BitVec.getLsbD_of_ge w (24 + i) (by omega), Bool.false_and]
  rw [hmask, hw]
  decide

/-- A branch is not a breakpoint. -/
theorem not_isBkpt_of_branch {t : BitVec 32} (h : branchTarget p w = some t) :
    isBkpt w = false := by
  by_contra hb
  have h1 := shiftRight_of_isBkpt (by simpa using hb)
  unfold branchTarget at h
  rw [h1, if_neg (by decide)] at h
  cases h

/-- A run at a breakpoint ends there. -/
theorem runToBkpt_bkpt (h : isBkpt (load32 m (P.pc r)) = true) :
    runToBkpt P (fuel + 1) r m = some (r, m, []) := by
  rw [runToBkpt, if_pos h]

/-- **A run that ends** is at a breakpoint, or executes the instruction it is at. -/
theorem runToBkpt_cases (h : runToBkpt P fuel r m = some (r', m', pcs)) :
    (isBkpt (load32 m (P.pc r)) = true ∧ r' = r ∧ m' = m ∧ pcs = []) ∨
      (isBkpt (load32 m (P.pc r)) = false ∧ ∃ n rest, pcs = P.pc r :: rest ∧
        runToBkpt P n (next P r m).1 (next P r m).2 = some (r', m', rest)) := by
  cases fuel with
  | zero => cases h
  | succ fuel =>
      unfold runToBkpt at h
      split_ifs at h with hb
      · cases h
        exact Or.inl ⟨hb, rfl, rfl, rfl⟩
      · obtain ⟨⟨r₁, m₁, rest⟩, hrun, he⟩ := Option.map_eq_some_iff.mp h
        cases he
        exact Or.inr ⟨by simpa using hb, fuel, rest, rfl, hrun⟩

/-- **The invariant rule**: what every word keeps of memory, a run keeps. -/
theorem runToBkpt_invariant {I : Mem 32 → Prop} (hexec : ∀ w r m, I m → I (P.exec w r m).2)
    (hm : I m) (h : runToBkpt P fuel r m = some (r', m', pcs)) : I m' := by
  induction fuel generalizing r m pcs with
  | zero => cases h
  | succ fuel ih =>
      unfold runToBkpt at h
      split_ifs at h
      · cases h
        exact hm
      · obtain ⟨⟨r₁, m₁, rest⟩, hrun, he⟩ := Option.map_eq_some_iff.mp h
        cases he
        refine ih ?_ hrun
        unfold next
        cases branchTarget (P.pc r) (load32 m (P.pc r)) with
        | none => exact hexec _ _ _ hm
        | some t => exact hm

/-! ## Pieces of a run -/

/-- Pieces of a run compose. -/
theorem Executes.trans {r₁ : ρ} {m₁ : Mem 32} {qs : List (BitVec 32)}
    (h : Executes P r m pcs r₁ m₁) (h' : Executes P r₁ m₁ qs r' m') :
    Executes P r m (pcs ++ qs) r' m' := by
  induction h with
  | refl r m => exact h'
  | step hb _ ih => exact .step hb (ih h')

/-- A branch is executed by going to its target. -/
theorem Executes.branch {t : BitVec 32} (ht : branchTarget p (load32 m p) = some t)
    (h : Executes P (P.setPc r t) m pcs r' m') : Executes P (P.setPc r p) m (p :: pcs) r' m' := by
  have hs : Executes P (P.setPc r p) m (P.pc (P.setPc r p) :: pcs) r' m' := by
    refine .step ?_ ?_
    · rw [P.pc_setPc]
      exact not_isBkpt_of_branch ht
    · unfold next
      rw [P.pc_setPc, ht]
      simp only [P.setPc_setPc]
      exact h
  rwa [P.pc_setPc] at hs

/-- A plain word is executed by doing what it does and going on at the next word. -/
theorem Executes.plain (hw : load32 m p = w) (hp : Plain P w)
    (h : Executes P (P.setPc (P.exec w r m).1 (p + 4#32)) (P.exec w r m).2 pcs r' m') :
    Executes P (P.setPc r p) m (p :: pcs) r' m' := by
  have hb : branchTarget p w = none := if_neg hp.not_branch
  have hs : Executes P (P.setPc r p) m (P.pc (P.setPc r p) :: pcs) r' m' := by
    refine .step ?_ ?_
    · rw [P.pc_setPc, hw]
      exact hp.not_bkpt
    · unfold next
      rw [P.pc_setPc, hw, hb, hp.exec]
      exact h
  rwa [P.pc_setPc] at hs

/-- **A run goes through what is executed.** -/
theorem Executes.run (h : Executes P r m pcs r' m') (n : ℕ) :
    runToBkpt P (n + pcs.length) r m =
      (runToBkpt P n r' m').map fun e => (e.1, e.2.1, pcs ++ e.2.2) := by
  induction h with
  | refl r m => simp
  | step hb _ ih =>
      rw [List.length_cons, ← Nat.add_assoc, runToBkpt, if_neg (by simp [hb]), ih, Option.map_map]
      rfl

/-- **A run that ends went through what is executed.** -/
theorem Executes.of_run (h : Executes P r m pcs r' m') {r₁ : ρ} {m₁ : Mem 32}
    {qs : List (BitVec 32)} (hrun : runToBkpt P fuel r m = some (r₁, m₁, qs)) :
    ∃ n rest, qs = pcs ++ rest ∧ runToBkpt P n r' m' = some (r₁, m₁, rest) := by
  induction h generalizing fuel qs with
  | refl r m => exact ⟨fuel, qs, rfl, hrun⟩
  | step hb _ ih =>
      rcases runToBkpt_cases hrun with ⟨hb', -⟩ | ⟨-, n, rest, rfl, hrest⟩
      · rw [hb] at hb'
        cases hb'
      · obtain ⟨n', rest', rfl, hrun'⟩ := ih hrest
        exact ⟨n', rest', rfl, hrun'⟩

end Hbootdbg.Lib.A32Run
