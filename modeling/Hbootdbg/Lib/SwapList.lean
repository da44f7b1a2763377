import Mathlib

/-!
# Unordered tables with swap-with-last deletion

A table kept as a list, in which a new entry goes to the end and deleting the entry at `i` moves
the last entry into the hole. The order of such a table means nothing; what it represents is the
set of its entries.

* `swapRemove l i` — the deletion; `swapRemove_perm` says that it is, up to order, the deletion of
  position `i`.
* `getElem_swapRemove` — where each surviving entry ends up.
* `mem_swapRemove` — which entries survive, for a table with distinct keys.
-/

namespace Hbootdbg.Lib.SwapList

variable {α κ : Type*}

/-- Move the last entry into position `i` and shrink the table by one. -/
def swapRemove (l : List α) (i : ℕ) : List α :=
  match l.getLast? with
  | none => []
  | some x => (l.set i x).dropLast

@[simp] theorem length_swapRemove (l : List α) (i : ℕ) :
    (swapRemove l i).length = l.length - 1 := by
  unfold swapRemove
  cases h : l.getLast? with
  | none => simp [List.getLast?_eq_none_iff.mp h]
  | some x => simp

theorem swapRemove_eq {l : List α} (hne : l ≠ []) (i : ℕ) :
    swapRemove l i = (l.set i (l.getLast hne)).dropLast := by
  unfold swapRemove
  rw [List.getLast?_eq_some_getLast hne]

/-- Position `i` holds the former last entry; the other positions keep theirs. -/
theorem getElem_swapRemove (l : List α) (i j : ℕ) (hj : j < (swapRemove l i).length)
    (hl : j < l.length) :
    (swapRemove l i)[j] = if j = i then l[l.length - 1] else l[j] := by
  have hne : l ≠ [] := List.ne_nil_of_length_pos (by omega)
  simp only [swapRemove_eq hne, List.getElem_dropLast, List.getElem_set,
    List.getLast_eq_getElem, eq_comm]

/-- **Swap-with-last deletion is deletion**, up to the order of the entries. -/
theorem swapRemove_perm (l : List α) {i : ℕ} (hi : i < l.length) :
    (swapRemove l i).Perm (l.eraseIdx i) := by
  obtain ⟨l', x, rfl⟩ := List.eq_nil_or_concat l |>.resolve_left (by rintro rfl; simp at hi)
  rw [List.concat_eq_append] at hi ⊢
  unfold swapRemove
  simp only [List.getLast?_append, List.getLast?_singleton, Option.some_or]
  by_cases h : i < l'.length
  · rw [List.set_append_left _ _ h, List.dropLast_concat, List.eraseIdx_append_of_lt_length h]
    refine (List.set_perm_cons_eraseIdx h x).trans ?_
    simpa using (List.perm_append_singleton x (l'.eraseIdx i)).symm
  · have hi' : i = l'.length := by
      simp only [List.length_append, List.length_cons, List.length_nil] at hi
      omega
    subst hi'
    rw [List.set_append_right _ _ (le_refl _), List.eraseIdx_append_of_length_le (le_refl _)]
    simp

/-- The survivors of a deletion are the entries with another key. -/
theorem mem_swapRemove {key : α → κ} {l : List α} {i : ℕ} (hi : i < l.length)
    (h : (l.map key).Nodup) {x : α} :
    x ∈ swapRemove l i ↔ x ∈ l ∧ key x ≠ key l[i] := by
  have hperm : l.Perm (l[i] :: l.eraseIdx i) := (List.getElem_cons_eraseIdx_perm hi).symm
  have hnd : ((l[i] :: l.eraseIdx i).map key).Nodup := (hperm.map key).nodup_iff.mp h
  rw [List.map_cons, List.nodup_cons] at hnd
  rw [(swapRemove_perm l hi).mem_iff, hperm.mem_iff, List.mem_cons]
  constructor
  · intro hx
    exact ⟨Or.inr hx, fun he => hnd.1 (List.mem_map.mpr ⟨x, hx, he⟩)⟩
  · rintro ⟨rfl | hx, hne⟩
    · exact absurd rfl hne
    · exact hx

/-- Where keys are distinct, an entry is known by its key. -/
theorem eq_of_key_eq {key : α → κ} {l : List α} (h : (l.map key).Nodup) {x y : α} (hx : x ∈ l)
    (hy : y ∈ l) (hk : key x = key y) : x = y := List.inj_on_of_nodup_map h hx hy hk

/-- Where keys are distinct, a position is known by the key it holds. -/
theorem index_eq_of_key_eq {key : α → κ} {l : List α} (h : (l.map key).Nodup) {i j : ℕ}
    (hi : i < l.length) (hj : j < l.length) (hk : key l[i] = key l[j]) : i = j := by
  have hinj := List.nodup_iff_injective_getElem.mp h
  have := @hinj ⟨i, by simpa using hi⟩ ⟨j, by simpa using hj⟩ (by simpa using hk)
  simpa using this

end Hbootdbg.Lib.SwapList
