import Hbootdbg.Table.Invariant

/-!
# Breakpoints at arbitrary addresses

Nothing restricts the addresses that the commands carry, and `get_breakpoint` compares them for
equality: two breakpoints less than four bytes apart are two entries, whose words share bytes.

* `Restorable B M0 m` — the active words are disjoint, and removing the breakpoints in any order
  gives the memory `M0` back.
* `InsertsApart` — the guard on an insertion: it changes nothing, or its word shares no byte with
  the object `status` or with an active word.
* `Tracks.step` — the invariant over one call, for whatever address.
* `restorable_throughout` — a run whose insertions meet the guard is restorable throughout; where
  the words stay outside the object, no other run is. `overlap_captures` is the shortest one.
-/

namespace Hbootdbg.Table

open Hbootdbg.Lib.ByteMem Hbootdbg.Lib.Run Hbootdbg.Device

/-- The words of the active breakpoints share no byte. -/
def ActiveApart (B : Board) (m : Memory) : Prop :=
  (entries B m).Pairwise fun e f => Apart e.address 4 f.address 4

instance (B : Board) : DecidablePred (ActiveApart B) := fun _ =>
  inferInstanceAs (Decidable (List.Pairwise _ _))

/-- Active words are disjoint, and removing them in any order gives `M0` back. -/
def Restorable (B : Board) (M0 m : Memory) : Prop :=
  ActiveApart B m ∧
    ∀ rs : List (Word × Byte), (rs.map Prod.fst).Perm ((entries B m).map Entry.address) →
      ∀ x, ¬ InStatus B x → run (applyOp B) m (removals rs) x = M0 x

/-- An insertion that changes nothing, or whose word shares no byte with the object or with an
active word. -/
def InsertsApart (B : Board) (m : Memory) : TableOp → Prop
  | .insert a _ =>
      Active B m a ∨ dbgNbrPoints ≤ (bpSize B m).toNat ∨
        (OutsideStatus B a ∧ ∀ e ∈ entries B m, Apart e.address 4 a 4)
  | .remove _ _ => True

instance (B : Board) (m : Memory) : DecidablePred (InsertsApart B m)
  | .insert _ _ => inferInstanceAs (Decidable (_ ∨ _ ∨ _))
  | .remove _ _ => inferInstanceAs (Decidable True)

variable {B : Board} {M0 m : Memory}

/-- A tracked memory is restorable. -/
theorem Tracks.restorable (h : Tracks B M0 m) : Restorable B M0 m := by
  refine ⟨h.apart, fun rs hrs x hx => ?_⟩
  obtain ⟨ht, hnil⟩ := h.removeAll hrs
  exact ht.eq_of_entries_nil hnil hx

/-- How `insert_breakpoint` can end when the guard allows it. -/
theorem InsertsApart.cases {a : Word} {t : Byte} (h : InsertsApart B m (.insert a t)) :
    (insertBreakpoint B m a t).1 = m ∨
      (OutsideStatus B a ∧ (∀ e ∈ entries B m, Apart e.address 4 a 4) ∧
        Inserted B m a (insertBreakpoint B m a t).1) := by
  by_cases hact : Active B m a
  · left
    unfold insertBreakpoint
    rw [if_pos (getBreakpoint_isSome_iff.mpr hact)]
  · by_cases hfull : dbgNbrPoints ≤ (bpSize B m).toNat
    · left
      have hsome : ¬ (getBreakpoint B m a).isSome := by rwa [getBreakpoint_isSome_iff]
      unfold insertBreakpoint allocBreakpoint
      rw [if_neg hsome, if_pos hfull]
    · right
      obtain ⟨hout, hap⟩ := (h.resolve_left hact).resolve_left hfull
      exact ⟨hout, hap, inserted_of_room hout hact (by omega)⟩

/-- How `remove_breakpoint` can end over a tracked memory, for any address. -/
theorem Tracks.removeBreakpoint_cases (h : Tracks B M0 m) (a : Word) (t : Byte) :
    removeBreakpoint B m a t = (m, .noBreakpoint) ∨
      ((removeBreakpoint B m a t).2 = .success ∧
        ∃ i, Removed B m a i (removeBreakpoint B m a t).1) := by
  cases hfound : getBreakpoint B m a with
  | none =>
      left
      unfold removeBreakpoint
      rw [hfound]
  | some i =>
      right
      obtain ⟨-, hmem, rfl⟩ := found_of_getBreakpoint hfound
      have hout := h.outside _ hmem
      obtain ⟨hs, hrem⟩ := removed_of_getBreakpoint (t := t) hout h.size hfound
      exact ⟨hs, i, hrem⟩

/-- **A call that meets the guard keeps the invariant**, whatever its address. -/
theorem Tracks.step (h : Tracks B M0 m) (op : TableOp) (hop : InsertsApart B m op) :
    Tracks B M0 (applyOp B m op) := by
  cases op with
  | insert a t =>
      simp only [applyOp]
      rcases hop.cases with he | ⟨hout, hap, hins⟩
      · rwa [he]
      · exact h.inserted hout hap hins
  | remove a t =>
      simp only [applyOp]
      rcases h.removeBreakpoint_cases a t with he | ⟨-, i, hrem⟩
      · rwa [he]
      · exact h.removed hrem

/-- An insertion outside the object leaves the active words disjoint only if the guard allows
it. -/
theorem insertsApart_of_activeApart {a : Word} {t : Byte} (hout : OutsideStatus B a)
    (h : ActiveApart B (insertBreakpoint B m a t).1) : InsertsApart B m (.insert a t) := by
  rcases insertBreakpoint_cases hout t with ⟨hact, -⟩ | ⟨-, hfull, -⟩ | ⟨-, hins⟩
  · exact Or.inl hact
  · exact Or.inr (Or.inl hfull)
  · unfold ActiveApart at h
    rw [hins.entries_eq, List.pairwise_append] at h
    exact Or.inr (Or.inr ⟨hout, fun e he => h.2.2 e he _ (List.mem_singleton.mpr rfl)⟩)

/-- **Where every insertion keeps its word apart, memory is restorable in every state of a run**;
and only there, for runs that leave the object `status` alone. -/
theorem restorable_throughout (B : Board) (M0 : Memory) (ops : List TableOp) :
    (Guarded (applyOp B) (InsertsApart B) (dbgInit B M0) ops →
        Throughout (applyOp B) (Restorable B M0) (dbgInit B M0) ops) ∧
      ((∀ op ∈ ops, OutsideStatus B op.addr) →
        Throughout (applyOp B) (Restorable B M0) (dbgInit B M0) ops →
        Guarded (applyOp B) (InsertsApart B) (dbgInit B M0) ops) := by
  constructor
  · intro hg
    have ht : Throughout (applyOp B) (Tracks B M0) (dbgInit B M0) ops :=
      hg.throughout (fun m op hm hop => hm.step op hop) tracks_dbgInit
    exact ht.mono fun m hm => hm.restorable
  · intro hout
    refine (throughout_iff_guarded (I := Tracks B M0) (D := fun _ op => OutsideStatus B op.addr)
      (fun m op hm _ _ hok => hm.step op hok) (fun m op hm _ hop => ⟨fun hP => ?_, fun hok =>
        (hm.step op hok).restorable⟩) tracks_dbgInit tracks_dbgInit.restorable
      (guarded_of_forall fun op hop _ => hout op hop)).mp
    cases op with
    | insert a t => exact insertsApart_of_activeApart hop hP.1
    | remove a t => trivial

/-- Two breakpoints two bytes apart overlap, and the second one saved half of the first one's
`ARM_BKPT`: removing them in the order of insertion leaves it in memory. -/
theorem overlap_captures :
    ¬ ActiveApart Board.sample
        (run (applyOp Board.sample) (dbgInit Board.sample fun _ => 0#8)
          [.insert 0x8D001000#32 0#8, .insert 0x8D001002#32 0#8]) ∧
      run (applyOp Board.sample) (dbgInit Board.sample fun _ => 0#8)
          [.insert 0x8D001000#32 0#8, .insert 0x8D001002#32 0#8,
            .remove 0x8D001000#32 0#8, .remove 0x8D001002#32 0#8] 0x8D001003#32 = 0xe1#8 := by
  rw [dbgInit_eq]
  decide +kernel

/-- Unaligned breakpoints four bytes apart are restorable throughout. -/
theorem restorable_throughout_sample :
    Throughout (applyOp Board.sample) (Restorable Board.sample fun _ => 0#8)
      (dbgInit Board.sample fun _ => 0#8)
      [.insert 0x8D001001#32 0#8, .insert 0x8D001005#32 0#8, .remove 0x8D001001#32 0#8] := by
  refine (restorable_throughout Board.sample (fun _ => 0#8) _).1 ?_
  rw [dbgInit_eq]
  decide +kernel

end Hbootdbg.Table
