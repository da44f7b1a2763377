import Hbootdbg.Device.Breakpoint
import Hbootdbg.Lib.SwapList

/-!
# The table as a list of entries, and what each operation does to it

The functions of `dbg.c` work on bytes; every later result works on the list of active entries.
This module is the bridge, and the only place where the stores of `insertBreakpoint` and
`removeBreakpoint` are looked at.

* `entryAt B m i`, `entries B m` — one slot, and the active slots in order.
* `getBreakpoint_eq_some_iff`, `getBreakpoint_eq_none_iff` — the search, over `entries`.
* `Inserted`, `Removed` — everything a successful call does: the slot written, the slots kept, the
  word planted or restored, and the frame. `insertBreakpoint_cases` and `removeBreakpoint_cases`
  are the inversion lemmas, one disjunct for each way the call can end.
* `Inserted.entries_eq`, `Removed.entries_eq` — insertion appends, and removal is
  swap-with-last deletion.
-/

namespace Hbootdbg.Table

open Hbootdbg.Lib.ByteMem Hbootdbg.Lib.SwapList Hbootdbg.Device

/-- What later results read of a `breakpoint`. Source: `dbg.h` `breakpoint` -/
structure Entry where
  /-- `address`. -/
  address : Word
  /-- `original_instruction[0]`: the word that was replaced. -/
  original : Word
  /-- `original_instruction[1]`: the branch back. -/
  branch : Word
  deriving DecidableEq

variable (B : Board) (m : Memory)

/-- Slot `i` of the table. -/
def entryAt (i : ℕ) : Entry := ⟨bpAddress B m i, bpOriginal B m i 0, bpOriginal B m i 1⟩

/-- The active slots `bp[0..bp_size)`. -/
def entries : List Entry := (List.range (bpSize B m).toNat).map (entryAt B m)

/-- `addr` is the address of an active breakpoint. -/
def Active (addr : Word) : Prop := ∃ e ∈ entries B m, e.address = addr

variable {B m} {m' : Memory} {addr : Word}

@[simp] theorem length_entries : (entries B m).length = (bpSize B m).toNat := by simp [entries]

@[simp] theorem getElem_entries {i : ℕ} (h : i < (entries B m).length) :
    (entries B m)[i] = entryAt B m i := by simp [entries]

/-- The entries are those of the slots in use. -/
theorem mem_entries_iff {e : Entry} :
    e ∈ entries B m ↔ ∃ i < (bpSize B m).toNat, entryAt B m i = e := by simp [entries]

/-! ## Searching -/

/-- `get_breakpoint` finds the first slot with the address. -/
theorem getBreakpoint_eq_some_iff {i : ℕ} :
    getBreakpoint B m addr = some i ↔
      i < (bpSize B m).toNat ∧ (entryAt B m i).address = addr ∧
        ∀ j < i, (entryAt B m j).address ≠ addr := by
  unfold getBreakpoint
  rw [List.find?_range_eq_some]
  simp only [beq_iff_eq, List.mem_range, Bool.not_eq_eq_eq_not, entryAt, Bool.not_true,
    beq_eq_false_iff_ne, ne_eq]
  tauto

/-- The slot that is found is in use and has the address. -/
theorem found_of_getBreakpoint {i : ℕ} (h : getBreakpoint B m addr = some i) :
    i < (bpSize B m).toNat ∧ entryAt B m i ∈ entries B m ∧ (entryAt B m i).address = addr := by
  obtain ⟨hi, hia, -⟩ := getBreakpoint_eq_some_iff.mp h
  exact ⟨hi, mem_entries_iff.mpr ⟨i, hi, rfl⟩, hia⟩

/-- A breakpoint that is found is active. -/
theorem active_of_getBreakpoint {i : ℕ} (h : getBreakpoint B m addr = some i) :
    Active B m addr := by
  obtain ⟨-, hmem, hia⟩ := found_of_getBreakpoint h
  exact ⟨_, hmem, hia⟩

/-- No breakpoint is found iff the address is not active. -/
theorem getBreakpoint_eq_none_iff : getBreakpoint B m addr = none ↔ ¬ Active B m addr := by
  unfold getBreakpoint Active
  rw [List.find?_eq_none]
  simp only [List.mem_range, beq_iff_eq, mem_entries_iff]
  constructor
  · rintro h ⟨e, ⟨i, hi, rfl⟩, he⟩
    exact h i hi he
  · intro h i hi he
    exact h ⟨_, ⟨i, hi, rfl⟩, he⟩

/-- A breakpoint is found iff the address is active. -/
theorem getBreakpoint_isSome_iff : (getBreakpoint B m addr).isSome ↔ Active B m addr := by
  rw [← not_iff_not, ← getBreakpoint_eq_none_iff, Bool.not_eq_true, Option.isSome_eq_false_iff,
    Option.isNone_iff_eq_none]

instance : Decidable (Active B m addr) := decidable_of_iff _ getBreakpoint_isSome_iff

/-! ## What the views depend on -/

/-- A field is determined by the bytes of the object. -/
theorem load32_field_congr {o : ℕ} (h : ∀ x, InStatus B x → m' x = m x)
    (ho : o + 4 ≤ sizeofStatus) : load32 m' (off B.status o) = load32 m (off B.status o) :=
  load32_congr (by decide) fun x hx => h x (InSpan.of_off hx ho (by decide))

/-- The size depends on the object alone. -/
theorem bpSize_congr (h : ∀ x, InStatus B x → m' x = m x) : bpSize B m' = bpSize B m :=
  load32_field_congr h (by decide)

/-- The continue address depends on the object alone. -/
theorem continueAddress_congr (h : ∀ x, InStatus B x → m' x = m x) :
    continueAddress B m' = continueAddress B m := load32_field_congr h (by decide)

/-- Each slot depends on the object alone. -/
theorem entryAt_congr (h : ∀ x, InStatus B x → m' x = m x) {i : ℕ} (hi : i < dbgNbrPoints) :
    entryAt B m' i = entryAt B m i := by
  unfold dbgNbrPoints at hi
  unfold entryAt bpAddress bpOriginal addressAt originalAt bpOffset sizeofBreakpoint
  rw [load32_field_congr h (by unfold sizeofStatus; omega),
    load32_field_congr h (by unfold sizeofStatus; omega),
    load32_field_congr h (by unfold sizeofStatus; omega)]

/-- The entries depend on the object alone. -/
theorem entries_congr (h : ∀ x, InStatus B x → m' x = m x)
    (hsize : (bpSize B m).toNat ≤ dbgNbrPoints) : entries B m' = entries B m := by
  unfold entries
  rw [bpSize_congr h]
  refine List.map_congr_left fun i hi => entryAt_congr h ?_
  have := List.mem_range.mp hi
  omega

/-- A search depends on the object alone. -/
theorem getBreakpoint_congr (h : ∀ x, InStatus B x → m' x = m x)
    (hsize : (bpSize B m).toNat ≤ dbgNbrPoints) (addr : Word) :
    getBreakpoint B m' addr = getBreakpoint B m addr := by
  have haddr : ∀ i < (bpSize B m).toNat, bpAddress B m' i = bpAddress B m i := fun i hi =>
    congrArg Entry.address (entryAt_congr h (hi.trans_le hsize))
  unfold getBreakpoint
  rw [bpSize_congr h]
  refine List.find?_congr fun i hi => ?_
  rw [haddr i (List.mem_range.mp hi)]

/-- A store outside the object does not change its bytes. -/
theorem store32_apply_inStatus {v x : Word} (hout : OutsideStatus B addr) (hx : InStatus B x) :
    store32 m addr v x = m x :=
  patch_of_not_inSpan (Apart.not_inSpan (Apart.symm hout) hx)

/-! ## Insertion -/

/-- What a successful `insert_breakpoint` does. -/
structure Inserted (B : Board) (m : Memory) (addr : Word) (m' : Memory) : Prop where
  inactive : ¬ Active B m addr
  room : (bpSize B m).toNat < dbgNbrPoints
  size : (bpSize B m').toNat = (bpSize B m).toNat + 1
  new : entryAt B m' (bpSize B m).toNat =
    ⟨addr, load32 m addr, cpuGetBranch (originalAt B (bpSize B m).toNat 1) (addr + 4#32)⟩
  other : ∀ i < dbgNbrPoints, i ≠ (bpSize B m).toNat → entryAt B m' i = entryAt B m i
  continues : continueAddress B m' = continueAddress B m
  planted : load32 m' addr = armBkpt
  frame : ∀ x, ¬ InStatus B x → ¬ InSpan addr 4 x → m' x = m x

/-- **With room in the table, an address that is not active is inserted.** -/
theorem inserted_of_room {t : Byte} (hout : OutsideStatus B addr) (hnew : ¬ Active B m addr)
    (hroom : (bpSize B m).toNat < dbgNbrPoints) :
    Inserted B m addr (insertBreakpoint B m addr t).1 := by
  have hsome : ¬ (getBreakpoint B m addr).isSome := by rwa [getBreakpoint_isSome_iff]
  obtain ⟨n, hn⟩ : ∃ n, (bpSize B m).toNat = n := ⟨_, rfl⟩
  have hn64 : n < 64 := by rw [← hn]; exact hroom
  have hs1 : (bpSize B m + 1#32).toNat = n + 1 := by bv_omega
  have hs2 : bpSize B m + 1#32 - 1#32 = bpSize B m := BitVec.add_sub_cancel _ _
  have h1 : bpSize B (store32 m (off B.status bpSizeOffset) (bpSize B m + 1#32)) =
      bpSize B m + 1#32 := load32_store32 _ _ _ (by decide)
  unfold insertBreakpoint allocBreakpoint
  rw [if_neg hsome, if_neg (by omega)]
  simp only [h1, hs2, hn]
  constructor
  · exact hnew
  · exact hroom
  · rw [hn, ← hs1]
    simp only [bpSize, addressAt, originalAt, enabledAt, bpAt, bpOffset, sizeofBreakpoint,
      bpSizeOffset]
    simp (disch := first | assumption | (unfold sizeofStatus; omega) | omega) only
      [load32_off_store32, load32_store32_off, load32_store8_off, load32_store32]
  · rw [hn]
    simp only [entryAt, bpAddress, bpOriginal, addressAt, originalAt, enabledAt, bpAt, bpOffset,
      sizeofBreakpoint, bpSizeOffset]
    simp (disch := first | assumption | (unfold sizeofStatus; omega) | omega) only
      [load32_off_store32, load32_store32_off, load32_store8_off, load32_store32,
        load32_store32_field, load32_store8_field]
  · intro i hi hne
    rw [hn] at hne
    unfold dbgNbrPoints at hi
    simp only [entryAt, bpAddress, bpOriginal, addressAt, originalAt, enabledAt, bpAt, bpOffset,
      sizeofBreakpoint, bpSizeOffset]
    simp (disch := first | assumption | (unfold sizeofStatus; omega) | omega) only
      [load32_off_store32, load32_store32_off, load32_store8_off]
  · simp only [continueAddress, addressAt, originalAt, enabledAt, bpAt, bpOffset,
      sizeofBreakpoint, bpSizeOffset, continueOffset]
    simp (disch := first | assumption | (unfold sizeofStatus; omega) | omega) only
      [load32_off_store32, load32_store32_off, load32_store8_off]
  · exact load32_store32 _ _ _ (by decide)
  · intro x hx hxa
    simp only [store32, store8]
    rw [patch_of_not_inSpan hxa]
    simp only [addressAt, originalAt, enabledAt, bpAt, bpOffset, sizeofBreakpoint, bpSizeOffset]
    simp (disch := first | assumption | (unfold sizeofStatus; omega) | decide) only
      [patch_off_outside (l := sizeofStatus) hx]

/-- **How `insert_breakpoint` can end**, for a word outside the object `status`. -/
theorem insertBreakpoint_cases (hout : OutsideStatus B addr) (type : Byte) :
    (Active B m addr ∧ insertBreakpoint B m addr type = (m, .breakpointAlreadyExists)) ∨
    (¬ Active B m addr ∧ dbgNbrPoints ≤ (bpSize B m).toNat ∧
      insertBreakpoint B m addr type = (m, .noMemoryAvailable)) ∨
    ((insertBreakpoint B m addr type).2 = .success ∧
      Inserted B m addr (insertBreakpoint B m addr type).1) := by
  by_cases hact : Active B m addr
  · left
    refine ⟨hact, ?_⟩
    unfold insertBreakpoint
    rw [if_pos (getBreakpoint_isSome_iff.mpr hact)]
  · right
    have hsome : ¬ (getBreakpoint B m addr).isSome := by rwa [getBreakpoint_isSome_iff]
    by_cases hfull : dbgNbrPoints ≤ (bpSize B m).toNat
    · left
      refine ⟨hact, hfull, ?_⟩
      unfold insertBreakpoint allocBreakpoint
      rw [if_neg hsome, if_pos hfull]
    · right
      refine ⟨?_, inserted_of_room hout hact (by omega)⟩
      unfold insertBreakpoint allocBreakpoint
      rw [if_neg hsome, if_neg hfull]

/-- **Insertion appends.** -/
theorem Inserted.entries_eq (h : Inserted B m addr m') :
    entries B m' = entries B m ++
      [⟨addr, load32 m addr, cpuGetBranch (originalAt B (bpSize B m).toNat 1) (addr + 4#32)⟩] := by
  have hroom := h.room
  unfold entries
  rw [h.size, List.range_succ, List.map_append, List.map_singleton, h.new]
  congr 1
  refine List.map_congr_left fun i hi => h.other i ?_ ?_
  · have := List.mem_range.mp hi
    omega
  · exact (List.mem_range.mp hi).ne

/-! ## Removal -/

/-- What a successful `remove_breakpoint` does, for a breakpoint in slot `i`. -/
structure Removed (B : Board) (m : Memory) (addr : Word) (i : ℕ) (m' : Memory) : Prop where
  found : getBreakpoint B m addr = some i
  size : (bpSize B m').toNat = (bpSize B m).toNat - 1
  hole : entryAt B m' i = entryAt B m ((bpSize B m).toNat - 1)
  other : ∀ j < dbgNbrPoints, j ≠ i → entryAt B m' j = entryAt B m j
  continues : continueAddress B m' = continueAddress B m
  restored : load32 m' addr = (entryAt B m i).original
  frame : ∀ x, ¬ InStatus B x → ¬ InSpan addr 4 x → m' x = m x

/-- **A breakpoint that is found is removed.** -/
theorem removed_of_getBreakpoint {t : Byte} {i : ℕ} (hout : OutsideStatus B addr)
    (hsize : (bpSize B m).toNat ≤ dbgNbrPoints) (hfound : getBreakpoint B m addr = some i) :
    (removeBreakpoint B m addr t).2 = .success ∧
      Removed B m addr i (removeBreakpoint B m addr t).1 := by
  obtain ⟨hi, hia, hfirst⟩ := getBreakpoint_eq_some_iff.mp hfound
  obtain ⟨n, hn⟩ : ∃ n, (bpSize B m).toNat = n := ⟨_, rfl⟩
  have hn64 : n ≤ 64 := by rw [← hn]; exact hsize
  have hs : (bpSize B m - 1#32).toNat = n - 1 := by bv_omega
  -- the restoring store is outside the object, so the search of `free_breakpoint` sees the table
  -- as `get_breakpoint` did
  have hkeep : ∀ x, InStatus B x → store32 m addr (bpOriginal B m i 0) x = m x := fun x hx =>
    store32_apply_inStatus hout hx
  have hsize1 := bpSize_congr hkeep
  have haddr1 : bpAddress B (store32 m addr (bpOriginal B m i 0)) i = addr :=
    (congrArg Entry.address (entryAt_congr hkeep (hi.trans_le hsize))).trans hia
  have hfind : getBreakpoint B (store32 m addr (bpOriginal B m i 0))
      (bpAddress B (store32 m addr (bpOriginal B m i 0)) i) = some i := by
    rw [haddr1, getBreakpoint_congr hkeep hsize, hfound]
  unfold getBreakpoint at hfind
  unfold removeBreakpoint freeBreakpoint
  rw [hfound]
  simp only [hfind]
  generalize hM : store32 m addr (bpOriginal B m i 0) = M at *
  have hb : bpSize B (copy M (bpAt B i) (bpAt B (bpSize B M - 1#32).toNat) sizeofBreakpoint) =
      bpSize B M := by
    unfold bpSize bpAt bpOffset sizeofBreakpoint bpSizeOffset
    exact load32_copy_off (by decide) (by decide) (by omega) (by omega) (by omega)
  rw [hb, hsize1, hs]
  refine ⟨trivial, ?_⟩
  constructor
  · exact hfound
  · rw [hn, ← hs]
    exact congrArg BitVec.toNat (load32_store32 _ _ _ (by decide))
  · rw [hn, ← entryAt_congr hkeep (show n - 1 < dbgNbrPoints by unfold dbgNbrPoints; omega)]
    simp only [entryAt, bpAddress, bpOriginal, addressAt, originalAt, bpAt, bpOffset,
      sizeofBreakpoint, bpSizeOffset]
    simp (disch := omega) only [load32_store32_off, load32_copy_field]
  · intro j hj hne
    rw [← entryAt_congr hkeep hj]
    unfold dbgNbrPoints at hj
    simp only [entryAt, bpAddress, bpOriginal, addressAt, originalAt, bpAt, bpOffset,
      sizeofBreakpoint, bpSizeOffset]
    simp (disch := omega) only [load32_store32_off, load32_copy_off]
  · rw [← continueAddress_congr hkeep]
    simp only [continueAddress, continueOffset, bpAt, bpOffset, sizeofBreakpoint, bpSizeOffset]
    simp (disch := omega) only [load32_store32_off, load32_copy_off]
  · rw [load32_store32_field hout (by decide)]
    have hc : load32 (copy M (bpAt B i) (bpAt B (n - 1)) sizeofBreakpoint) addr =
        load32 M addr := by
      refine load32_copy_of_apart (by decide)
        (Apart.off_right hout (by decide) (by decide) ?_ (by decide))
      unfold bpOffset sizeofBreakpoint sizeofStatus
      omega
    rw [hc, ← hM]
    exact load32_store32 _ _ _ (by decide)
  · intro x hx hxa
    have hM' : M x = m x := by
      rw [← hM]
      exact patch_of_not_inSpan hxa
    rw [← hM']
    simp only [store32, copy, bpAt, bpOffset, sizeofBreakpoint, bpSizeOffset]
    simp (disch := first | assumption | (unfold sizeofStatus; omega) | decide) only
      [patch_off_outside (l := sizeofStatus) hx]

/-- **How `remove_breakpoint` can end**, for a word outside the object `status`. -/
theorem removeBreakpoint_cases (hout : OutsideStatus B addr)
    (hsize : (bpSize B m).toNat ≤ dbgNbrPoints) (type : Byte) :
    (¬ Active B m addr ∧ removeBreakpoint B m addr type = (m, .noBreakpoint)) ∨
    ((removeBreakpoint B m addr type).2 = .success ∧
      ∃ i, Removed B m addr i (removeBreakpoint B m addr type).1) := by
  cases hfound : getBreakpoint B m addr with
  | none =>
      left
      refine ⟨getBreakpoint_eq_none_iff.mp hfound, ?_⟩
      unfold removeBreakpoint
      rw [hfound]
  | some i =>
      right
      obtain ⟨h1, h2⟩ := removed_of_getBreakpoint (t := type) hout hsize hfound
      exact ⟨h1, i, h2⟩

/-- The slot of a removed breakpoint was active. -/
theorem Removed.lt_size {i : ℕ} (h : Removed B m addr i m') : i < (bpSize B m).toNat :=
  (getBreakpoint_eq_some_iff.mp h.found).1

/-- The slot of a removed breakpoint held its address. -/
theorem Removed.address_eq {i : ℕ} (h : Removed B m addr i m') :
    (entryAt B m i).address = addr := (getBreakpoint_eq_some_iff.mp h.found).2.1

/-- **Removal is swap-with-last deletion.** -/
theorem Removed.entries_eq {i : ℕ} (h : Removed B m addr i m')
    (hsize : (bpSize B m).toNat ≤ dbgNbrPoints) :
    entries B m' = swapRemove (entries B m) i := by
  apply List.ext_getElem
  · rw [length_swapRemove, length_entries, length_entries, h.size]
  · intro j h1 h2
    have hj : j < (bpSize B m).toNat - 1 := by simpa [h.size] using h1
    rw [getElem_entries, getElem_swapRemove _ _ _ h2 (by rw [length_entries]; omega)]
    split_ifs with hji
    · subst hji
      rw [h.hole, getElem_entries, length_entries]
    · rw [getElem_entries, h.other j (by omega) hji]

end Hbootdbg.Table
