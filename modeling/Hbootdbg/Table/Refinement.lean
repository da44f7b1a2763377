import Hbootdbg.Table.Invariant

/-!
# The breakpoint table refines a set of addresses

What the component is for: a set of at most 64 addresses, each of which reads as `ARM_BKPT` over a
memory that is otherwise left alone.

* `BreakpointSet` — the abstract table, with its capacity in the type.
* `BreakpointSet.reply`, `BreakpointSet.apply` — the two operations on it.
* `overlay M0 A` — the memory `M0` with the words of `A` replaced.
* `Refines` — the relation between a device memory and an abstract table; `Refines.step` is the
  simulation of one call, by the four ways a call can end.
* `table_refines_set` — the simulation over runs from `dbg_init`, with the replies, the errors and
  the restoration.
-/

namespace Hbootdbg.Table

open Hbootdbg.Lib.ByteMem Hbootdbg.Lib.Run Hbootdbg.Device

/-! ## The abstract table -/

/-- A set of breakpoint addresses that fits the table. -/
structure BreakpointSet where
  /-- The addresses. -/
  active : Finset Word
  /-- There is room for no more than `DBG_NBR_POINTS`. -/
  card_le : active.card ≤ dbgNbrPoints

/-- No breakpoint. -/
def BreakpointSet.empty : BreakpointSet := ⟨∅, Nat.zero_le _⟩

/-- The reply to an operation. -/
def BreakpointSet.reply (A : BreakpointSet) : TableOp → ErrorCode
  | .insert a _ =>
      if a ∈ A.active then .breakpointAlreadyExists
      else if A.active.card = dbgNbrPoints then .noMemoryAvailable
      else .success
  | .remove a _ => if a ∈ A.active then .success else .noBreakpoint

/-- The set after an operation. -/
def BreakpointSet.apply (A : BreakpointSet) : TableOp → BreakpointSet
  | .insert a _ =>
      if h : A.active.card < dbgNbrPoints then
        ⟨insert a A.active, (Finset.card_insert_le a A.active).trans h⟩
      else A
  | .remove a _ => ⟨A.active.erase a, Finset.card_erase_le.trans A.card_le⟩

/-- The word-aligned address of the word that `x` is in. -/
def wordOf (x : Word) : Word := BitVec.ofNat 32 (x.toNat / 4 * 4)

/-- `M0` with `ARM_BKPT` in the words at the word-aligned addresses `A`. -/
def overlay (M0 : Memory) (A : Finset Word) : Memory := fun x =>
  if wordOf x ∈ A then byteOf armBkpt (x.toNat % 4) else M0 x

/-- The word at a word-aligned address consists of the bytes that `wordOf` sends there. -/
theorem inSpan_iff_wordOf {a x : Word} (ha : a.toNat % 4 = 0) : InSpan a 4 x ↔ wordOf x = a := by
  unfold InSpan wordOf
  constructor
  · intro h
    bv_omega
  · rintro rfl
    bv_omega

/-! ## The relation -/

/-- The device memory `m` represents the abstract table `A` over `M0`. -/
structure Refines (B : Board) (M0 m : Memory) (A : BreakpointSet) : Prop where
  tracks : Tracks B M0 m
  planted : Planted B m
  active_iff : ∀ a, Active B m a ↔ a ∈ A.active
  aligned : ∀ a ∈ A.active, a.toNat % 4 = 0

/-- The addresses of instructions that are not the debugger's own data: word aligned, and not in the
object `status`. -/
def AddressOk (B : Board) (a : Word) : Prop := a.toNat % 4 = 0 ∧ ¬ InStatus B a

instance (B : Board) (a : Word) : Decidable (AddressOk B a) := inferInstanceAs (Decidable (_ ∧ _))

theorem AddressOk.outside {B : Board} {a : Word} (h : AddressOk B a) : OutsideStatus B a :=
  outsideStatus_of_aligned h.1 h.2

variable {B : Board} {M0 m : Memory} {A : BreakpointSet}

/-- The number of active slots is the size of the set. -/
theorem Refines.card_eq (h : Refines B M0 m A) : A.active.card = (bpSize B m).toNat := by
  have hset : A.active = ((entries B m).map Entry.address).toFinset := by
    ext a
    rw [← h.active_iff, List.mem_toFinset, List.mem_map]
    rfl
  rw [hset, List.toFinset_card_of_nodup h.tracks.nodup, List.length_map, length_entries]

/-- A word-aligned address is apart from every active one but itself. -/
theorem Refines.apart (h : Refines B M0 m A) {a : Word} (ha : a.toNat % 4 = 0)
    (hnew : ¬ Active B m a) : ∀ e ∈ entries B m, Apart e.address 4 a 4 := by
  intro e he
  have hal := h.aligned _ ((h.active_iff _).mp ⟨e, he, rfl⟩)
  exact apart_of_aligned hal ha fun hea => hnew ⟨e, he, hea⟩

/-- `insert_breakpoint` is simulated: same reply, related tables, no change on an error. -/
theorem Refines.insert (h : Refines B M0 m A) {a : Word} (ha : AddressOk B a) (t : Byte) :
    (insertBreakpoint B m a t).2 = A.reply (.insert a t) ∧
      Refines B M0 (insertBreakpoint B m a t).1 (A.apply (.insert a t)) ∧
      ((insertBreakpoint B m a t).2 ≠ .success → (insertBreakpoint B m a t).1 = m) := by
  have hcard := h.card_eq
  have hmem := h.active_iff a
  simp only [BreakpointSet.reply, BreakpointSet.apply]
  rcases insertBreakpoint_cases ha.outside t with ⟨hact, he⟩ | ⟨hact, hfull, he⟩ | ⟨hs, hins⟩
  · have hA : a ∈ A.active := hmem.mp hact
    rw [he]
    refine ⟨(if_pos hA).symm, ?_, fun _ => rfl⟩
    simp only [Finset.insert_eq_of_mem hA]
    split_ifs <;> exact h
  · have hA : a ∉ A.active := fun hc => hact (hmem.mpr hc)
    have hsize := h.tracks.size
    rw [he]
    refine ⟨?_, ?_, fun _ => rfl⟩
    · rw [if_neg hA, if_pos (by omega)]
    · rw [dif_neg (by omega)]
      exact h
  · have hnew := hins.inactive
    have hroom := hins.room
    have hA : a ∉ A.active := fun hc => hnew (hmem.mpr hc)
    have hap := h.apart ha.1 hnew
    refine ⟨by rw [hs, if_neg hA, if_neg (by omega)], ?_, fun hne => absurd hs hne⟩
    rw [dif_pos (by omega)]
    refine ⟨h.tracks.inserted ha.outside hap hins, h.planted.inserted h.tracks hap hins, ?_, ?_⟩
    · intro b
      rw [active_inserted hins, h.active_iff, Finset.mem_insert]
    · intro b hb
      rcases Finset.mem_insert.mp hb with rfl | hb
      · exact ha.1
      · exact h.aligned b hb

/-- `remove_breakpoint` is simulated: same reply, related tables, no change on an error. -/
theorem Refines.remove (h : Refines B M0 m A) {a : Word} (ha : AddressOk B a) (t : Byte) :
    (removeBreakpoint B m a t).2 = A.reply (.remove a t) ∧
      Refines B M0 (removeBreakpoint B m a t).1 (A.apply (.remove a t)) ∧
      ((removeBreakpoint B m a t).2 ≠ .success → (removeBreakpoint B m a t).1 = m) := by
  have hmem := h.active_iff a
  simp only [BreakpointSet.reply, BreakpointSet.apply]
  rcases removeBreakpoint_cases ha.outside h.tracks.size t with ⟨hact, he⟩ | ⟨hs, i, hrem⟩
  · have hA : a ∉ A.active := fun hc => hact (hmem.mpr hc)
    rw [he]
    refine ⟨(if_neg hA).symm, ?_, fun _ => rfl⟩
    simp only [Finset.erase_eq_of_notMem hA]
    exact h
  · have hA : a ∈ A.active := hmem.mp ⟨_, hrem.mem_entries, hrem.address_eq⟩
    refine ⟨by rw [hs, if_pos hA], ?_, fun hne => absurd hs hne⟩
    refine ⟨h.tracks.removed hrem, h.planted.removed h.tracks hrem, ?_, ?_⟩
    · intro b
      rw [h.tracks.active_removed hrem, h.active_iff, Finset.mem_erase, and_comm]
    · exact fun b hb => h.aligned b (Finset.mem_of_mem_erase hb)

/-- **One call is simulated by one abstract operation.** -/
theorem Refines.step (h : Refines B M0 m A) (op : TableOp) (hop : AddressOk B op.addr) :
    replyOp B m op = A.reply op ∧ Refines B M0 (applyOp B m op) (A.apply op) ∧
      (replyOp B m op ≠ .success → applyOp B m op = m) := by
  cases op with
  | insert a t => exact h.insert hop t
  | remove a t => exact h.remove hop t

/-- The empty table represents the empty set. -/
theorem refines_dbgInit : Refines B M0 (dbgInit B M0) .empty := by
  refine ⟨tracks_dbgInit, planted_dbgInit, fun a => ?_, ?_⟩
  · simp [BreakpointSet.empty]
  · simp [BreakpointSet.empty]

/-- A run of calls is simulated by the run of the abstract operations. -/
theorem refines_run (ops : List TableOp) (hops : ∀ op ∈ ops, AddressOk B op.addr) :
    Refines B M0 (run (applyOp B) (dbgInit B M0) ops)
      (run BreakpointSet.apply .empty ops) :=
  run_related (fun _ _ op h hop => (h.step op hop).2.1) refines_dbgInit hops

/-- Outside the object, the memory of a table is the overlay of its set. -/
theorem Refines.eq_overlay (h : Refines B M0 m A) {x : Word} (hx : ¬ InStatus B x) :
    m x = overlay M0 A.active x := by
  unfold overlay
  split_ifs with hA
  · obtain ⟨e, he, hea⟩ := (h.active_iff _).mpr hA
    have hin : InSpan e.address 4 x :=
      (inSpan_iff_wordOf (h.aligned _ ((h.active_iff _).mp ⟨e, he, rfl⟩))).mpr hea.symm
    have hword := h.planted e he
    have hstored : load32 (store32 m e.address armBkpt) e.address = armBkpt :=
      load32_store32 _ _ _ (by decide)
    rw [eq_of_load32_eq (hword.trans hstored.symm) hin]
    unfold store32
    rw [patch_of_inSpan hin, hea]
    congr 1
    unfold wordOf
    bv_omega
  · refine h.tracks.frame x hx fun e he hin => hA ?_
    have hact : e.address ∈ A.active := (h.active_iff _).mp ⟨e, he, rfl⟩
    rwa [(inSpan_iff_wordOf (h.aligned _ hact)).mp hin]

/-! ## The refinement -/

/-- **The breakpoint table refines a set of addresses, and memory is restorable in any order.**
After any run of calls from `dbg_init` over a memory `M0`, with the set `A` that the abstract
operations lead to: the active addresses are distinct, at most 64, and those of `A`; memory outside
the object is `M0` with `ARM_BKPT` over exactly these words; each slot saves the word of `M0`; the
next call replies as the set does and changes nothing on an error; and removing all breakpoints, in
any order, gives `M0` back. -/
theorem table_refines_set (B : Board) (M0 : Memory) (ops : List TableOp)
    (hops : ∀ op ∈ ops, AddressOk B op.addr) :
    let m := run (applyOp B) (dbgInit B M0) ops
    let A := run BreakpointSet.apply .empty ops
    (((entries B m).map Entry.address).Nodup ∧ (bpSize B m).toNat ≤ dbgNbrPoints ∧
        ((entries B m).map Entry.address).toFinset = A.active) ∧
      (∀ x, ¬ InStatus B x → m x = overlay M0 A.active x) ∧
      (∀ e ∈ entries B m, e.original = load32 M0 e.address) ∧
      (∀ op, AddressOk B op.addr →
        replyOp B m op = A.reply op ∧ (replyOp B m op ≠ .success → applyOp B m op = m)) ∧
      ∀ rs : List (Word × Byte), (rs.map Prod.fst).Perm ((entries B m).map Entry.address) →
        ∀ x, ¬ InStatus B x → run (applyOp B) m (removals rs) x = M0 x := by
  intro m A
  have h : Refines B M0 m A := refines_run ops hops
  refine ⟨⟨h.tracks.nodup, h.tracks.size, ?_⟩, fun x hx => h.eq_overlay hx, h.tracks.saved,
    fun op hop => ⟨(h.step op hop).1, (h.step op hop).2.2⟩, fun rs hrs x hx => ?_⟩
  · ext a
    rw [← h.active_iff, List.mem_toFinset, List.mem_map]
    rfl
  · obtain ⟨ht, hnil⟩ := h.tracks.removeAll hrs
    exact ht.eq_of_entries_nil hnil hx

/-- The refinement, on a run that fills a slot, moves an entry and removes one. -/
theorem table_refines_set_sample :
    ((entries Board.sample
        (run (applyOp Board.sample) (dbgInit Board.sample fun _ => 0#8)
          [.insert 0x8D001000#32 0#8, .insert 0x8D002000#32 0#8, .remove 0x8D001000#32 0#8])).map
      Entry.address).toFinset = {0x8D002000#32} := by
  have h := (table_refines_set Board.sample (fun _ => 0#8)
    [.insert 0x8D001000#32 0#8, .insert 0x8D002000#32 0#8, .remove 0x8D001000#32 0#8]
    (by decide)).1.2.2
  exact h.trans (by decide)

end Hbootdbg.Table
