import Mathlib

/-!
# Splitting a list at a separator of two elements

The separator is `a`, `b` with `a ≠ b`, as in texts with lines that end in carriage return and line
feed. Two occurrences of it never overlap.

* `splitPair a b xs` — the parts between the separators, of which there is one at least.
* `intercalate_splitPair` — joining the parts gives the list back.
* `splitPair_append` — a separator splits a list whatever stands on its two sides.
* `Unbroken` — a list without the separator is its only part: `splitPair_of_unbroken`.
* `head_splitPair_start`, `suffix_last_iff` — the two ends of a list are those of its first and last
  part.
-/

namespace Hbootdbg.Lib.SplitPair

variable {α : Type*} [DecidableEq α] {a b : α} {xs ys : List α}

/-- The parts of a list between its separators `a`, `b`. -/
def splitPair (a b : α) : List α → List (List α)
  | [] => [[]]
  | [x] => [[x]]
  | x :: y :: rest =>
      if x = a ∧ y = b then [] :: splitPair a b rest
      else (splitPair a b (y :: rest)).modifyHead (x :: ·)

/-- The separator does not occur in the list. -/
def Unbroken (a b : α) (xs : List α) : Prop := ¬ [a, b] <:+: xs

/-! ## The equations of `splitPair` -/

@[simp] theorem splitPair_nil : splitPair a b [] = [[]] := rfl

@[simp] theorem splitPair_sep (xs : List α) : splitPair a b (a :: b :: xs) = [] :: splitPair a b xs :=
  if_pos ⟨rfl, rfl⟩

/-- An element that starts no separator belongs to the first part. -/
theorem splitPair_cons {x : α} (h : ∀ rest, x :: xs ≠ a :: b :: rest) :
    splitPair a b (x :: xs) = (splitPair a b xs).modifyHead (x :: ·) := by
  cases xs with
  | nil => rfl
  | cons y rest =>
      rw [splitPair, if_neg]
      rintro ⟨rfl, rfl⟩
      exact h rest rfl

omit [DecidableEq α] in
/-- The cases of a list for `splitPair`: empty, at a separator, or before another element. -/
theorem split_induction {motive : List α → Prop} (nil : motive [])
    (sep : ∀ xs, motive xs → motive (a :: b :: xs))
    (cons : ∀ x xs, (∀ rest, x :: xs ≠ a :: b :: rest) → motive xs → motive (x :: xs))
    (xs : List α) : motive xs := by
  induction hn : xs.length using Nat.strong_induction_on generalizing xs with
  | _ n ih =>
      cases xs with
      | nil => exact nil
      | cons x xs =>
          by_cases h : ∃ rest, x :: xs = a :: b :: rest
          · obtain ⟨rest, hrest⟩ := h
            rw [hrest] at hn ⊢
            exact sep rest (ih rest.length (by simp [← hn]) rest rfl)
          · push Not at h
            exact cons x xs h (ih xs.length (by simp [← hn]) xs rfl)

theorem splitPair_ne_nil (xs : List α) : splitPair a b xs ≠ [] := by
  induction xs using split_induction (a := a) (b := b) with
  | nil => exact List.cons_ne_nil _ _
  | sep xs _ =>
      rw [splitPair_sep]
      exact List.cons_ne_nil _ _
  | cons x xs h ih =>
      rw [splitPair_cons h]
      exact fun hnil => ih (List.modifyHead_eq_nil_iff.mp hnil)

/-! ## Joining and splitting -/

omit [DecidableEq α] in
/-- A last part goes behind one more separator. -/
theorem intercalate_concat {sep last : List α} {init : List (List α)} (h : init ≠ []) :
    sep.intercalate (init ++ [last]) = sep.intercalate init ++ (sep ++ last) := by
  induction init with
  | nil => exact absurd rfl h
  | cons p init ih =>
      cases init with
      | nil => simp [List.intercalate_cons_cons, List.intercalate_singleton]
      | cons q init =>
          have hne : q :: init ≠ [] := List.cons_ne_nil q init
          have hconcat : q :: init ++ [last] ≠ [] := List.append_ne_nil_of_left_ne_nil hne _
          rw [List.cons_append, List.intercalate_cons_of_ne_nil hconcat, ih hne,
            List.intercalate_cons_of_ne_nil hne]
          simp only [List.append_assoc]

/-- **Joining the parts gives the list back.** -/
theorem intercalate_splitPair (xs : List α) : [a, b].intercalate (splitPair a b xs) = xs := by
  induction xs using split_induction (a := a) (b := b) with
  | nil => rfl
  | sep xs ih =>
      rw [splitPair_sep, List.intercalate_cons_of_ne_nil (splitPair_ne_nil xs), ih]
      rfl
  | cons x xs h ih =>
      rw [splitPair_cons h]
      obtain ⟨p, ps, hps⟩ := List.exists_cons_of_ne_nil (splitPair_ne_nil (a := a) (b := b) xs)
      rw [hps] at ih ⊢
      rw [List.modifyHead_cons]
      cases ps with
      | nil =>
          rw [List.intercalate_singleton] at ih ⊢
          rw [ih]
      | cons q ps =>
          rw [List.intercalate_cons_cons] at ih ⊢
          rw [← ih]
          rfl

/-- **A separator splits a list**, whatever stands on its two sides. -/
theorem splitPair_append (hab : a ≠ b) (xs ys : List α) :
    splitPair a b (xs ++ a :: b :: ys) = splitPair a b xs ++ splitPair a b ys := by
  induction xs using split_induction (a := a) (b := b) with
  | nil => rw [List.nil_append, splitPair_sep, splitPair_nil, List.singleton_append]
  | sep xs ih => rw [List.cons_append, List.cons_append, splitPair_sep, splitPair_sep, ih,
      List.cons_append]
  | cons x xs h ih =>
      have hnot : ∀ rest, x :: (xs ++ a :: b :: ys) ≠ a :: b :: rest := by
        intro rest heq
        cases xs with
        | nil =>
            -- the separator would start at `x` and end at its own `a`
            rw [List.nil_append, List.cons.injEq, List.cons.injEq] at heq
            exact hab heq.2.1
        | cons y xs =>
            rw [List.cons_append, List.cons.injEq, List.cons.injEq] at heq
            exact h xs (by rw [heq.1, heq.2.1])
      rw [List.cons_append, splitPair_cons hnot, splitPair_cons h, ih]
      obtain ⟨p, ps, hps⟩ := List.exists_cons_of_ne_nil (splitPair_ne_nil (a := a) (b := b) xs)
      rw [hps]
      rfl

theorem splitPair_of_unbroken (h : Unbroken a b xs) : splitPair a b xs = [xs] := by
  induction xs with
  | nil => rfl
  | cons x xs ih =>
      have hnot : ∀ rest, x :: xs ≠ a :: b :: rest := by
        rintro rest heq
        exact h (heq ▸ ⟨[], rest, rfl⟩)
      have hxs : Unbroken a b xs := fun hin => h (hin.trans (List.suffix_cons x xs).isInfix)
      rw [splitPair_cons hnot, ih hxs, List.modifyHead_cons]

/-! ## The two ends -/

/-- The first part is the start of the list. -/
theorem head_splitPair_start (xs : List α) :
    (splitPair a b xs).head (splitPair_ne_nil xs) <+: xs := by
  obtain ⟨p, ps, hps⟩ := List.exists_cons_of_ne_nil (splitPair_ne_nil (a := a) (b := b) xs)
  have hjoin := intercalate_splitPair (a := a) (b := b) xs
  simp only [hps, List.head_cons]
  rw [hps] at hjoin
  cases ps with
  | nil =>
      rw [List.intercalate_singleton] at hjoin
      rw [hjoin]
  | cons q ps =>
      rw [List.intercalate_cons_cons, List.append_assoc] at hjoin
      exact ⟨_, hjoin⟩

/-- The last part is the end of the list. -/
theorem last_splitPair_end (xs : List α) :
    (splitPair a b xs).getLast (splitPair_ne_nil xs) <:+ xs := by
  induction xs using split_induction (a := a) (b := b) with
  | nil => exact List.suffix_rfl
  | sep xs ih =>
      simp only [splitPair_sep, List.getLast_cons (splitPair_ne_nil xs)]
      exact ih.trans ((List.suffix_cons b xs).trans (List.suffix_cons a _))
  | cons x xs h ih =>
      obtain ⟨p, ps, hps⟩ := List.exists_cons_of_ne_nil (splitPair_ne_nil (a := a) (b := b) xs)
      simp only [splitPair_cons h, hps, List.modifyHead_cons] at ih ⊢
      cases ps with
      | nil =>
          have hjoin := intercalate_splitPair (a := a) (b := b) xs
          rw [hps, List.intercalate_singleton] at hjoin
          rw [List.getLast_singleton, hjoin]
      | cons q ps =>
          rw [List.getLast_cons (List.cons_ne_nil q ps)] at ih ⊢
          exact ih.trans (List.suffix_cons x xs)

/-- **An end without `b` is an end of the list iff it is one of its last part.** -/
theorem suffix_last_iff (hb : b ∉ ys) (xs : List α) :
    ys <:+ (splitPair a b xs).getLast (splitPair_ne_nil xs) ↔ ys <:+ xs := by
  refine ⟨fun h => h.trans (last_splitPair_end xs), ?_⟩
  induction xs using split_induction (a := a) (b := b) with
  | nil => exact id
  | sep xs ih =>
      intro h
      simp only [splitPair_sep, List.getLast_cons (splitPair_ne_nil xs)]
      rcases List.suffix_cons_iff.mp h with rfl | h
      · exact absurd (by simp) hb
      · rcases List.suffix_cons_iff.mp h with rfl | h
        · exact absurd (by simp) hb
        · exact ih h
  | cons x xs hx ih =>
      intro h
      obtain ⟨p, ps, hps⟩ := List.exists_cons_of_ne_nil (splitPair_ne_nil (a := a) (b := b) xs)
      have hjoin := intercalate_splitPair (a := a) (b := b) xs
      simp only [splitPair_cons hx, hps, List.modifyHead_cons] at ih ⊢
      rw [hps] at hjoin
      cases ps with
      | nil =>
          rw [List.intercalate_singleton] at hjoin
          rwa [List.getLast_singleton, hjoin]
      | cons q ps =>
          rw [List.getLast_cons (List.cons_ne_nil q ps)] at ih ⊢
          rcases List.suffix_cons_iff.mp h with rfl | h
          -- there is a separator in `xs`
          · rw [List.intercalate_cons_cons] at hjoin
            exact absurd (List.mem_cons_of_mem x (by simp [← hjoin])) hb
          · exact ih h

end Hbootdbg.Lib.SplitPair
