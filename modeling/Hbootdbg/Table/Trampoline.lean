import Hbootdbg.Table.Refinement
import Hbootdbg.Lib.A32Branch

/-!
# The branch word of a trampoline, and what moving a slot does to it

`insert_breakpoint` computes `original_instruction[1]` for the slot it fills; `free_breakpoint`
copies the word to another slot, where it is fetched from another address.

* `TrampolineOk` — in every active slot, the word branches back to `address + 4` from where it is.
* `RemovesLast` — a removal that finds nothing, or finds the last slot.
* `TrampolineOk.inserted`, `trampolineOk_removed_iff` — the step lemmas: insertion keeps the
  property, and a removal keeps it iff no slot moves.
* `trampoline_throughout_iff` — over runs: the property holds throughout iff every removal is of
  the last slot. `trampoline_moved` is the shortest run that breaks it.
-/

namespace Hbootdbg.Table

open Hbootdbg.Lib.ByteMem Hbootdbg.Lib.A32Branch Hbootdbg.Lib.Run Hbootdbg.Device

/-- Slot `i` branches back to the instruction after its breakpoint. -/
def SlotOk (B : Board) (m : Memory) (i : ℕ) : Prop :=
  branchTarget (originalAt B i 1) (entryAt B m i).branch = some ((entryAt B m i).address + 4#32)

instance (B : Board) (m : Memory) (i : ℕ) : Decidable (SlotOk B m i) :=
  inferInstanceAs (Decidable (_ = _))

/-- Every active slot branches back to the instruction after its breakpoint. -/
def TrampolineOk (B : Board) (m : Memory) : Prop := ∀ i < (bpSize B m).toNat, SlotOk B m i

instance (B : Board) : DecidablePred (TrampolineOk B) := fun _ =>
  inferInstanceAs (Decidable (∀ i < _, _))

/-- The branch back to the instruction after `a` can be encoded in every slot of the table. -/
def InBranchRange (B : Board) (a : Word) : Prop :=
  ∀ i < dbgNbrPoints, InReach (originalAt B i 1) (a + 4#32)

instance (B : Board) (a : Word) : Decidable (InBranchRange B a) :=
  inferInstanceAs (Decidable (∀ i < _, _))

/-- The call moves no slot: it removes nothing, or the last slot. -/
def RemovesLast (B : Board) (m : Memory) : TableOp → Prop
  | .insert _ _ => True
  | .remove a _ => ¬ Active B m a ∨ getBreakpoint B m a = some ((bpSize B m).toNat - 1)

instance (B : Board) (m : Memory) : DecidablePred (RemovesLast B m)
  | .insert _ _ => inferInstanceAs (Decidable True)
  | .remove _ _ => inferInstanceAs (Decidable (_ ∨ _))

variable {B : Board} {m m' : Memory} {addr : Word} {i : ℕ}

/-- The branch that `insert_breakpoint` computes for slot `i` is right there. -/
theorem branchTarget_slot (hal : addr.toNat % 4 = 0) (hreach : InBranchRange B addr)
    (hi : i < dbgNbrPoints) :
    branchTarget (originalAt B i 1) (cpuGetBranch (originalAt B i 1) (addr + 4#32)) =
      some (addr + 4#32) :=
  branchTarget_cpuGetBranch originalAt_toNat_mod (by bv_omega) (hreach i hi)

/-- A slot that keeps its contents keeps its branch. -/
theorem SlotOk.congr (h : SlotOk B m i) (he : entryAt B m' i = entryAt B m i) : SlotOk B m' i := by
  unfold SlotOk
  rwa [he]

/-- **Insertion keeps the trampolines right.** -/
theorem TrampolineOk.inserted (h : TrampolineOk B m) (hal : addr.toNat % 4 = 0)
    (hreach : InBranchRange B addr) (hins : Inserted B m addr m') : TrampolineOk B m' := by
  intro i hi
  have hroom := hins.room
  rw [hins.size] at hi
  rcases (Nat.lt_succ_iff_lt_or_eq.mp hi) with hi | rfl
  · exact (h i hi).congr (hins.other i (by omega) hi.ne)
  · unfold SlotOk
    rw [hins.new]
    exact branchTarget_slot hal hreach hroom

/-- The same word, fetched in a lower slot, branches as much lower. -/
theorem branchTarget_lower_slot {i j : ℕ} (hij : i ≤ j) (v : Word) :
    branchTarget (originalAt B j 1) v =
      (branchTarget (originalAt B i 1) v).map
        (· + BitVec.ofNat 32 (sizeofBreakpoint * (j - i))) := by
  have hj : originalAt B j 1 = originalAt B i 1 + BitVec.ofNat 32 (sizeofBreakpoint * (j - i)) := by
    obtain ⟨d, rfl⟩ := Nat.exists_eq_add_of_le hij
    unfold originalAt off bpOffset sizeofBreakpoint
    rw [BitVec.add_assoc, ← BitVec.ofNat_add]
    congr 2
    omega
  rw [hj, branchTarget_shift]

/-- A moved entry does not branch where it did. -/
theorem not_slotOk_of_moved {j : ℕ} (hij : i < j) (hj : j < dbgNbrPoints) (hok : SlotOk B m j)
    (he : entryAt B m' i = entryAt B m j) : ¬ SlotOk B m' i := by
  intro h
  unfold dbgNbrPoints at hj
  unfold SlotOk at hok h
  rw [he] at h
  rw [branchTarget_lower_slot hij.le, h, Option.map_some, Option.some.injEq] at hok
  have hd : (BitVec.ofNat 32 (sizeofBreakpoint * (j - i))).toNat = 20 * (j - i) := by
    unfold sizeofBreakpoint
    rw [BitVec.toNat_ofNat, Nat.mod_eq_of_lt (by omega)]
  bv_omega

/-- **A removal keeps the trampolines right iff it moves no slot.** -/
theorem trampolineOk_removed_iff (h : TrampolineOk B m) (hsize : (bpSize B m).toNat ≤ dbgNbrPoints)
    (hrem : Removed B m addr i m') : TrampolineOk B m' ↔ i = (bpSize B m).toNat - 1 := by
  have hi := hrem.lt_size
  constructor
  · intro hok
    by_contra hne
    refine not_slotOk_of_moved (by omega) (by omega) (h ((bpSize B m).toNat - 1) (by omega))
      hrem.hole (hok i ?_)
    rw [hrem.size]
    omega
  · intro hlast j hj
    rw [hrem.size] at hj
    exact (h j (by omega)).congr (hrem.other j (by omega) (by omega))

/-- **A call keeps the trampolines right iff it moves no slot.** -/
theorem trampolineOk_step_iff {L : Memory} (ht : Tracks B L m) (h : TrampolineOk B m) (op : TableOp)
    (hop : AddressOk B op.addr) (hreach : InBranchRange B op.addr) :
    TrampolineOk B (applyOp B m op) ↔ RemovesLast B m op := by
  cases op with
  | insert a t =>
      have hout : OutsideStatus B a := hop.outside
      simp only [applyOp, RemovesLast, iff_true]
      rcases insertBreakpoint_cases hout t with ⟨-, he⟩ | ⟨-, -, he⟩ | ⟨-, hins⟩
      · rwa [he]
      · rwa [he]
      · exact h.inserted hop.1 hreach hins
  | remove a t =>
      have hout : OutsideStatus B a := hop.outside
      simp only [applyOp, RemovesLast]
      rcases removeBreakpoint_cases hout ht.size t with ⟨hno, he⟩ | ⟨-, i, hrem⟩
      · rw [he]
        exact ⟨fun _ => Or.inl hno, fun _ => h⟩
      · have hact : Active B m a := ⟨_, hrem.mem_entries, hrem.address_eq⟩
        rw [trampolineOk_removed_iff h ht.size hrem, hrem.found, Option.some.injEq]
        exact ⟨Or.inr, fun hor => hor.resolve_left (not_not_intro hact)⟩

theorem trampolineOk_dbgInit : TrampolineOk B (dbgInit B m) := by
  intro i hi
  rw [← length_entries, entries_dbgInit] at hi
  exact absurd hi (Nat.not_lt_zero i)

/-- **The trampolines are right in every state of a run iff every removal of the run finds nothing
or the last slot.** -/
theorem trampoline_throughout_iff (B : Board) (M0 : Memory) (ops : List TableOp)
    (hops : ∀ op ∈ ops, AddressOk B op.addr ∧ InBranchRange B op.addr) :
    Throughout (applyOp B) (TrampolineOk B) (dbgInit B M0) ops ↔
      Guarded (applyOp B) (RemovesLast B) (dbgInit B M0) ops := by
  refine throughout_iff_guarded (I := fun m => ∃ A, Refines B M0 m A)
    (D := fun _ op => AddressOk B op.addr ∧ InBranchRange B op.addr) ?_ ?_
    ⟨_, refines_dbgInit⟩ trampolineOk_dbgInit (guarded_of_forall fun op hop _ => hops op hop)
  · rintro m op ⟨A, hA⟩ - hop -
    exact ⟨_, (hA.step op hop.1).2.1⟩
  · rintro m op ⟨A, hA⟩ hok hop
    exact trampolineOk_step_iff hA.tracks hok op hop.1 hop.2

/-- Inserting at two addresses and removing the first moves the second slot, which then branches
20 bytes too low. -/
theorem trampoline_moved :
    (∀ op ∈ [TableOp.insert 0x8D001000#32 0#8, .insert 0x8D002000#32 0#8,
        .remove 0x8D001000#32 0#8],
        AddressOk Board.sample op.addr ∧ InBranchRange Board.sample op.addr) ∧
      ¬ TrampolineOk Board.sample
        (run (applyOp Board.sample) (dbgInit Board.sample fun _ => 0#8)
          [.insert 0x8D001000#32 0#8, .insert 0x8D002000#32 0#8, .remove 0x8D001000#32 0#8]) := by
  refine ⟨by decide +kernel, ?_⟩
  rw [dbgInit_eq]
  decide +kernel

/-- A run that removes in the opposite order of insertion keeps the trampolines right. -/
theorem trampoline_throughout_sample :
    Throughout (applyOp Board.sample) (TrampolineOk Board.sample)
      (dbgInit Board.sample fun _ => 0#8)
      [.insert 0x8D001000#32 0#8, .insert 0x8D002000#32 0#8, .remove 0x8D002000#32 0#8] := by
  refine (trampoline_throughout_iff Board.sample (fun _ => 0#8) _ (by decide +kernel)).mpr ?_
  rw [dbgInit_eq]
  decide +kernel

end Hbootdbg.Table
