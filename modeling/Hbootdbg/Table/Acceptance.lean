import Hbootdbg.Table.Trampoline

/-!
# Which breakpoints are resumable once they are accepted

`insert_breakpoint` checks for a second breakpoint and for room, and nothing else: the displacement
of the branch back is cut to 24 bits whatever it is.

* `branchAt B m` — the word of the next slot that holds the branch back.
* `AcceptsResumable` — a success leaves a branch to `addr + 4` there, and where no such branch
  exists the call is refused and changes nothing.
* `accepts_resumable_iff` — for which addresses that is so. No assumption on the address or on the
  table is made.
-/

namespace Hbootdbg.Table

open Hbootdbg.Lib.ByteMem Hbootdbg.Lib.A32Branch Hbootdbg.Device

/-- `&bp->original_instruction[1]` of the slot that `alloc_breakpoint` gives out next. -/
def branchAt (B : Board) (m : Memory) : Word := originalAt B (bpSize B m).toNat 1

/-- An accepted breakpoint is resumable, and one that cannot be is refused without effect. -/
def AcceptsResumable (B : Board) (m : Memory) (addr : Word) (type : Byte) : Prop :=
  ((insertBreakpoint B m addr type).2 = .success →
      branchTarget (branchAt B m) (load32 (insertBreakpoint B m addr type).1 (branchAt B m)) =
        some (addr + 4#32)) ∧
    ((¬ ∃ v, branchTarget (branchAt B m) v = some (addr + 4#32)) →
      (insertBreakpoint B m addr type).2 ≠ .success ∧ (insertBreakpoint B m addr type).1 = m)

variable {B : Board} {m : Memory} {addr : Word} {type : Byte}

/-- What a success leaves of the slot's branch: the last two stores of `insert_breakpoint`. -/
theorem insertBreakpoint_of_room (type : Byte) (hnew : ¬ Active B m addr)
    (hroom : (bpSize B m).toNat < dbgNbrPoints) :
    ∃ m', insertBreakpoint B m addr type =
      (store32 (store32 m' (branchAt B m) (cpuGetBranch (branchAt B m) (addr + 4#32))) addr armBkpt,
        .success) := by
  have hsome : ¬ (getBreakpoint B m addr).isSome := by rwa [getBreakpoint_isSome_iff]
  have hsize : bpSize B (store32 m (off B.status bpSizeOffset) (bpSize B m + 1#32)) =
      bpSize B m + 1#32 := load32_store32 _ _ _ (by decide)
  have hslot : bpSize B m + 1#32 - 1#32 = bpSize B m := BitVec.add_sub_cancel _ _
  unfold insertBreakpoint allocBreakpoint branchAt
  rw [if_neg hsome, if_neg (by omega)]
  simp only [hsize, hslot]
  exact ⟨_, rfl⟩

/-- A call that refuses changes nothing. -/
theorem insertBreakpoint_of_refused (type : Byte)
    (h : Active B m addr ∨ dbgNbrPoints ≤ (bpSize B m).toNat) :
    (insertBreakpoint B m addr type).2 ≠ .success ∧ (insertBreakpoint B m addr type).1 = m := by
  unfold insertBreakpoint allocBreakpoint
  by_cases hact : Active B m addr
  · rw [if_pos (getBreakpoint_isSome_iff.mpr hact)]
    exact ⟨ErrorCode.noConfusion, rfl⟩
  · have hsome : ¬ (getBreakpoint B m addr).isSome := by rwa [getBreakpoint_isSome_iff]
    rw [if_neg hsome, if_pos (h.resolve_left hact)]
    exact ⟨ErrorCode.noConfusion, rfl⟩

/-- `ARM_BKPT` is not a branch. -/
theorem branchTarget_armBkpt (src : Word) : branchTarget src armBkpt = none :=
  if_neg (by decide)

/-- The branch that is left is right iff the address is word aligned and in reach, and its own
word is not that of the branch. -/
theorem branchTarget_stored_iff {m' : Memory} {src : Word} (hsrc : src.toNat % 4 = 0) :
    branchTarget src
        (load32 (store32 (store32 m' src (cpuGetBranch src (addr + 4#32))) addr armBkpt) src) =
        some (addr + 4#32) ↔
      addr.toNat % 4 = 0 ∧ InReach src (addr + 4#32) ∧ addr ≠ src := by
  constructor
  · intro h
    obtain ⟨hdst, hreach⟩ := inReach_of_branchTarget hsrc h
    refine ⟨by bv_omega, hreach, ?_⟩
    rintro rfl
    rw [load32_store32 _ _ _ (by decide), branchTarget_armBkpt] at h
    exact Option.some_ne_none _ h.symm
  · rintro ⟨hal, hreach, hne⟩
    rw [load32_store32_of_apart (by decide) (apart_of_aligned hsrc hal hne.symm),
      load32_store32 _ _ _ (by decide)]
    exact branchTarget_cpuGetBranch hsrc (by bv_omega) hreach

/-- **An accepted breakpoint is resumable iff the call is refused, or the address is word aligned,
in reach of the slot it gets, and not the slot's own branch.** -/
theorem accepts_resumable_iff (B : Board) (m : Memory) (addr : Word) (type : Byte) :
    AcceptsResumable B m addr type ↔
      Active B m addr ∨ dbgNbrPoints ≤ (bpSize B m).toNat ∨
        (addr.toNat % 4 = 0 ∧ InReach (branchAt B m) (addr + 4#32) ∧ addr ≠ branchAt B m) := by
  have hsrc : (branchAt B m).toNat % 4 = 0 := originalAt_toNat_mod
  by_cases hrefused : Active B m addr ∨ dbgNbrPoints ≤ (bpSize B m).toNat
  · obtain ⟨hne, hmem⟩ := insertBreakpoint_of_refused type hrefused
    rw [← or_assoc]
    exact iff_of_true ⟨fun hs => absurd hs hne, fun _ => ⟨hne, hmem⟩⟩ (Or.inl hrefused)
  · obtain ⟨hnew, hroom⟩ := not_or.mp hrefused
    obtain ⟨m', he⟩ := insertBreakpoint_of_room type hnew (not_le.mp hroom)
    unfold AcceptsResumable
    rw [he, branchTarget_stored_iff hsrc, or_iff_right hnew, or_iff_right hroom]
    constructor
    · rintro ⟨h, -⟩
      exact h rfl
    · rintro ⟨hal, hreach, hne⟩
      refine ⟨fun _ => ⟨hal, hreach, hne⟩, fun hno => absurd ?_ hno⟩
      exact (exists_branchTarget_iff hsrc).mpr ⟨by bv_omega, hreach⟩

/-- `0x1000` is out of reach of the first slot, and is accepted. -/
theorem accepts_out_of_reach :
    ¬ AcceptsResumable Board.sample (dbgInit Board.sample fun _ => 0#8) 0x1000#32 0#8 := by
  rintro ⟨h, -⟩
  rw [dbgInit_eq] at h
  exact absurd (h (by decide +kernel)) (by decide +kernel)

end Hbootdbg.Table
