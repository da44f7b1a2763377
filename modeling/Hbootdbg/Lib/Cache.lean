import Mathlib

/-!
# Separate instruction and data caches over one memory

A store goes to a write-back data cache; an instruction is fetched from an instruction cache that is
filled from main memory, at moments the program does not choose. Code that was stored is fetched
only after two maintenance operations on its line: the data line is written to memory, the
instruction line is dropped.

* `Caches` — main memory and the two caches; `data` and `fetch` are what a load and an instruction
  fetch return.
* `Op`, `Caches.apply` — the operations of a program; `Caches.fill` — an instruction line is filled.
* `exec` — a program, with the lines that are filled before each of its operations.
* `Coherent s x` — main memory, and the instruction cache where it has it, agree with the data at
  `x`. `Coherent.exec` is the frame rule: only a store that changes `x` breaks it.
* `SafeFills`, `coherent_of_maintained` — the maintenance in the order *drop, then clean* makes a
  word coherent when no fill between the two takes a stale copy of it.
-/

namespace Hbootdbg.Lib.Cache

variable {A V L : Type*}

/-- Main memory, and two caches over it. -/
structure Caches (A V : Type*) where
  /-- Main memory. -/
  mem : A → V
  /-- What the data cache holds. -/
  dcache : A → Option V
  /-- What the instruction cache holds. -/
  icache : A → Option V

/-- An operation of a program. -/
inductive Op (A V : Type*)
  /-- The values that are given are stored. -/
  | store (f : A → Option V)
  /-- The instruction line of `a` is dropped. -/
  | dropLine (a : A)
  /-- The data line of `a` is written to memory. -/
  | cleanLine (a : A)

/-- The operation stores to `x`. -/
def Op.Stores (x : A) : Op A V → Prop
  | .store f => f x ≠ none
  | _ => False

/-- What an operation does to the data. -/
def Op.effect (m : A → V) : Op A V → A → V
  | .store f => fun x => (f x).getD (m x)
  | _ => m

/-- No operation of the program changes the value at `x`. -/
def KeepsAt (x : A) : (A → V) → List (Op A V) → Prop
  | _, [] => True
  | m, o :: os => o.effect m x = m x ∧ KeepsAt x (o.effect m) os

@[simp] theorem Op.effect_dropLine (m : A → V) (a : A) : (Op.dropLine a).effect m = m := rfl

@[simp] theorem Op.effect_cleanLine (m : A → V) (a : A) : (Op.cleanLine a).effect m = m := rfl

theorem Op.effect_of_not_stores {o : Op A V} {x : A} (h : ¬ o.Stores x) (m : A → V) :
    o.effect m x = m x := by
  cases o with
  | store f =>
      have hf : f x = none := not_not.mp h
      change (f x).getD (m x) = m x
      rw [hf, Option.getD_none]
  | dropLine a => rfl
  | cleanLine a => rfl

/-- Operations that do not store to an address keep it. -/
theorem keepsAt_of_forall {os : List (Op A V)} {x : A} (h : ∀ o ∈ os, ¬ o.Stores x) (m : A → V) :
    KeepsAt x m os := by
  induction os generalizing m with
  | nil => trivial
  | cons o os ih =>
      obtain ⟨ho, hos⟩ := List.forall_mem_cons.mp h
      exact ⟨Op.effect_of_not_stores ho m, ih hos _⟩

theorem foldl_effect_of_forall {os : List (Op A V)} {x : A} (h : ∀ o ∈ os, ¬ o.Stores x)
    (m : A → V) : os.foldl Op.effect m x = m x := by
  induction os generalizing m with
  | nil => rfl
  | cons o os ih =>
      obtain ⟨ho, hos⟩ := List.forall_mem_cons.mp h
      rw [List.foldl_cons, ih hos, Op.effect_of_not_stores ho]

/-- A program with one store to `x`, after which the value is what it was. -/
theorem keepsAt_of_foldl_eq {pre post : List (Op A V)} {o : Op A V} {x : A} {m : A → V}
    (hpre : ∀ o ∈ pre, ¬ o.Stores x) (hpost : ∀ o ∈ post, ¬ o.Stores x)
    (h : (pre ++ o :: post).foldl Op.effect m x = m x) : KeepsAt x m (pre ++ o :: post) := by
  induction pre generalizing m with
  | nil =>
      rw [List.nil_append, List.foldl_cons, foldl_effect_of_forall hpost] at h
      exact ⟨h, keepsAt_of_forall hpost _⟩
  | cons p pre ih =>
      obtain ⟨hp, hpre⟩ := List.forall_mem_cons.mp hpre
      have hsame := Op.effect_of_not_stores hp m
      rw [List.cons_append, List.foldl_cons] at h
      exact ⟨hsame, ih hpre (h.trans hsame.symm)⟩

namespace Caches

/-- What a load returns. -/
def data (s : Caches A V) (x : A) : V := (s.dcache x).getD (s.mem x)

/-- What an instruction fetch returns. -/
def fetch (s : Caches A V) (x : A) : V := (s.icache x).getD (s.mem x)

variable [DecidableEq L] (iline dline : A → L)

/-- An instruction line is filled from main memory. -/
def fill (s : Caches A V) (l : L) : Caches A V :=
  { s with icache := fun x => if iline x = l then some (s.mem x) else s.icache x }

/-- An operation of the program. -/
def apply (s : Caches A V) : Op A V → Caches A V
  | .store f => { s with dcache := fun x => (f x).orElse fun _ => s.dcache x }
  | .dropLine a =>
      { s with icache := fun x => if iline x = iline a then none else s.icache x }
  | .cleanLine a => { s with mem := fun x => if dline x = dline a then s.data x else s.mem x }

/-- A program, with the lines that are filled before its operation `i`, and after the last one. -/
def exec : Caches A V → List (Op A V) → (ℕ → List L) → Caches A V
  | s, [], fills => (fills 0).foldl (fill iline) s
  | s, o :: os, fills =>
      exec (((fills 0).foldl (fill iline) s).apply iline dline o) os fun i => fills (i + 1)

/-- `x` is the same in main memory, in the instruction cache where it is there, and to a load. -/
def Coherent (s : Caches A V) (x : A) : Prop :=
  s.mem x = s.data x ∧ ∀ v, s.icache x = some v → v = s.data x

variable {iline dline} {s : Caches A V} {x a : A} {o : Op A V}

/-- What is coherent is fetched as it was stored. -/
theorem Coherent.fetch_eq (h : s.Coherent x) : s.fetch x = s.data x := by
  unfold fetch
  cases hi : s.icache x with
  | none => exact h.1
  | some v => exact h.2 v hi

/-! ## The data -/

@[simp] theorem data_fill (l : L) : (s.fill iline l).data = s.data := rfl

/-- Fills leave the data alone. -/
@[simp] theorem data_fills (ls : List L) : (ls.foldl (fill iline) s).data = s.data := by
  induction ls generalizing s with
  | nil => rfl
  | cons l ls ih => rw [List.foldl_cons, ih, data_fill]

/-- An operation does to the data what it does to a memory without caches. -/
theorem data_apply (o : Op A V) : (s.apply iline dline o).data = o.effect s.data := by
  funext x
  cases o with
  | store f =>
      change ((f x).orElse fun _ => s.dcache x).getD (s.mem x) = (f x).getD (s.data x)
      cases f x with
      | none => rfl
      | some v => rfl
  | dropLine a => rfl
  | cleanLine a =>
      unfold apply Op.effect data
      simp only
      split_ifs
      · cases s.dcache x <;> rfl
      · rfl

/-- **Fills do not change the data**: a program has the effect of its stores. -/
theorem data_exec (os : List (Op A V)) (fills : ℕ → List L) :
    (s.exec iline dline os fills).data = os.foldl Op.effect s.data := by
  induction os generalizing s fills with
  | nil => exact data_fills _
  | cons o os ih => rw [exec, ih, data_apply, data_fills, List.foldl_cons]

/-! ## Coherence -/

/-- A fill keeps coherence: it takes what is there. -/
theorem Coherent.fill (h : s.Coherent x) (l : L) : (s.fill iline l).Coherent x := by
  refine ⟨h.1, fun v hv => ?_⟩
  unfold Caches.fill at hv
  simp only at hv
  split_ifs at hv
  · exact (Option.some.inj hv).symm.trans h.1
  · exact h.2 v hv

/-- Any number of fills keeps coherence. -/
theorem Coherent.fills (h : s.Coherent x) (ls : List L) :
    (ls.foldl (Caches.fill iline) s).Coherent x := by
  induction ls generalizing s with
  | nil => exact h
  | cons l ls ih => exact ih (h.fill l)

/-- An operation that leaves a byte as it is keeps its coherence. -/
theorem Coherent.apply (h : s.Coherent x) (ho : o.effect s.data x = s.data x) :
    (s.apply iline dline o).Coherent x := by
  unfold Coherent
  rw [data_apply, ho]
  cases o with
  | store f => exact h
  | dropLine a =>
      refine ⟨h.1, fun v hv => ?_⟩
      unfold Caches.apply at hv
      simp only at hv
      split_ifs at hv
      exact h.2 v hv
  | cleanLine a =>
      refine ⟨?_, h.2⟩
      unfold Caches.apply
      simp only
      split_ifs
      · rfl
      · exact h.1

/-- **A program that does not change the value at `x` keeps it coherent**, whatever is filled. -/
theorem Coherent.exec {os : List (Op A V)} (h : s.Coherent x) (hos : KeepsAt x s.data os)
    (fills : ℕ → List L) : (s.exec iline dline os fills).Coherent x := by
  induction os generalizing s fills with
  | nil => exact h.fills _
  | cons o os ih =>
      obtain ⟨ho, hos⟩ := hos
      refine ih ((h.fills _).apply ?_) ?_ _
      · rwa [data_fills]
      · rwa [data_apply, data_fills]

/-! ## Maintenance -/

variable (iline dline) (word : A → A → Prop)

/-- The address whose instruction line was dropped and whose data line was not yet cleaned. -/
def pending (w : Option A) : Op A V → Option A
  | .store _ => w
  | .dropLine a => some a
  | .cleanLine _ => none

/-- Between the drop of an instruction line and the clean of its data line, no fill of the line
takes a stale copy of the word that is maintained. -/
def SafeFills : Caches A V → Option A → List (Op A V) → (ℕ → List L) → Prop
  | _, _, [], _ => True
  | s, w, o :: os, fills =>
      (∀ a, w = some a → iline a ∈ fills 0 → ∀ x, word a x → s.mem x = s.data x) ∧
        SafeFills (((fills 0).foldl (fill iline) s).apply iline dline o) (pending w o) os
          fun i => fills (i + 1)

variable {iline dline word}

/-- A program during which nothing is filled. -/
theorem safeFills_of_nil {w : Option A} {os : List (Op A V)} {fills : ℕ → List L}
    (h : ∀ i, fills i = []) : SafeFills iline dline word s w os fills := by
  induction os generalizing s w fills with
  | nil => trivial
  | cons o os ih =>
      refine ⟨fun a _ hl => ?_, ih fun i => h (i + 1)⟩
      rw [h 0] at hl
      exact absurd hl List.not_mem_nil

/-- A program before which lines are filled, and none during it. -/
theorem safeFills_of_first {os : List (Op A V)} {fills : ℕ → List L}
    (h : ∀ i, fills (i + 1) = []) : SafeFills iline dline word s none os fills := by
  cases os with
  | nil => trivial
  | cons o os =>
      refine ⟨fun a ha => ?_, safeFills_of_nil h⟩
      cases ha

/-- Fills of other lines leave a dropped line dropped; a fill that is not stale does no harm. -/
theorem icache_fills {ls : List L} (hno : ∀ v, s.icache x = some v → v = s.data x)
    (h : iline x ∈ ls → s.mem x = s.data x) :
    ∀ v, (ls.foldl (fill iline) s).icache x = some v → v = s.data x := by
  induction ls generalizing s with
  | nil => exact hno
  | cons l ls ih =>
      rw [List.foldl_cons]
      refine ih (s := s.fill iline l) (fun v hv => ?_) fun hl => h (List.mem_cons_of_mem _ hl)
      unfold fill at hv
      simp only at hv
      split_ifs at hv with hl
      · rw [← Option.some.inj hv]
        exact h (hl ▸ List.mem_cons_self)
      · exact hno v hv

/-- **A maintained word is coherent**, when no fill in between took a stale copy of it and it is
not stored to afterwards. -/
theorem coherent_of_maintained (hi : ∀ a x, word a x → iline x = iline a)
    (hd : ∀ a x, word a x → dline x = dline a) {pre post : List (Op A V)} {w : Option A}
    {fills : ℕ → List L}
    (hsafe : SafeFills iline dline word s w (pre ++ .dropLine a :: .cleanLine a :: post) fills)
    (hpost : ∀ o ∈ post, ¬ o.Stores x) (hx : word a x) :
    (s.exec iline dline (pre ++ .dropLine a :: .cleanLine a :: post) fills).Coherent x := by
  induction pre generalizing s w fills with
  | nil =>
      obtain ⟨-, hwin, -⟩ := hsafe
      rw [List.nil_append, exec, exec]
      generalize (fills 0).foldl (fill iline) s = s₀ at hwin ⊢
      refine Coherent.exec ?_ (keepsAt_of_forall hpost _) _
      have hwin' := hwin a rfl
      generalize hs : s₀.apply iline dline (.dropLine a) = s₁ at hwin' ⊢
      have hnone : s₁.icache x = none := by
        rw [← hs]
        exact if_pos (hi a x hx)
      have hicache : ∀ v, ((fills 1).foldl (fill iline) s₁).icache x = some v → v = s₁.data x := by
        refine icache_fills (fun v hv => ?_) fun hl => hwin' ?_ x hx
        · rw [hnone] at hv
          cases hv
        · rwa [hi a x hx] at hl
      refine ⟨?_, fun v hv => ?_⟩
      · rw [data_apply]
        exact if_pos (hd a x hx)
      · rw [data_apply]
        change v = ((fills 1).foldl (fill iline) s₁).data x
        rw [data_fills]
        exact hicache v hv
  | cons o pre ih =>
      obtain ⟨-, hrest⟩ := hsafe
      exact ih hrest

end Caches

end Hbootdbg.Lib.Cache
