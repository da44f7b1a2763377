import Hbootdbg.Table.Spec
import Hbootdbg.Lib.Run

/-!
# The invariant that ties the table to the patched memory

`Tracks B L m` relates a device memory `m` to a *logical* memory `L` without breakpoints: the
active words are disjoint from each other and from the object `status`, each entry holds the
logical word at its address, and outside the active words and the object the two memories agree.
It says nothing of what stands in the active words; `Planted` does.

* `Tracks.inserted`, `Tracks.removed` — kept by every successful insertion at a word that is apart
  from the active ones, and by every successful removal.
* `Tracks.mem_entries_removed` — which entries survive a removal.
* `Planted.inserted`, `Planted.removed` — the breakpoint instructions stay where they are.
* `TableOp`, `applyOp`, `replyOp` — the two table operations as data, for runs.
* `Tracks.removeAll` — removing the active breakpoints, in any order, leaves the logical memory.
* `tracks_dbgInit` — the empty table tracks the memory it is initialised in.
-/

namespace Hbootdbg.Table

open Hbootdbg.Lib.ByteMem Hbootdbg.Lib.SwapList Hbootdbg.Lib.Run Hbootdbg.Device

/-! ## Operations as data -/

/-- A call of `insert_breakpoint` or of `remove_breakpoint`. -/
inductive TableOp
  | insert (addr : Word) (type : Byte)
  | remove (addr : Word) (type : Byte)

/-- The address an operation is about. -/
def TableOp.addr : TableOp → Word
  | insert a _ => a
  | remove a _ => a

/-- The memory after a call. -/
def applyOp (B : Board) (m : Memory) : TableOp → Memory
  | .insert a t => (insertBreakpoint B m a t).1
  | .remove a t => (removeBreakpoint B m a t).1

/-- The value a call returns. -/
def replyOp (B : Board) (m : Memory) : TableOp → ErrorCode
  | .insert a t => (insertBreakpoint B m a t).2
  | .remove a t => (removeBreakpoint B m a t).2

/-- The calls that remove the given breakpoints, in the given order. -/
def removals (rs : List (Word × Byte)) : List TableOp := rs.map fun r => .remove r.1 r.2

/-! ## The invariant -/

/-- The device memory `m` is the logical memory `L` with breakpoints, as the table describes. -/
structure Tracks (B : Board) (L m : Memory) : Prop where
  size : (bpSize B m).toNat ≤ dbgNbrPoints
  apart : (entries B m).Pairwise fun e f => Apart e.address 4 f.address 4
  outside : ∀ e ∈ entries B m, OutsideStatus B e.address
  saved : ∀ e ∈ entries B m, e.original = load32 L e.address
  frame : ∀ x, ¬ InStatus B x → (∀ e ∈ entries B m, ¬ InSpan e.address 4 x) → m x = L x

/-- Every active word holds the breakpoint instruction. -/
def Planted (B : Board) (m : Memory) : Prop := ∀ e ∈ entries B m, load32 m e.address = armBkpt

variable {B : Board} {L m m' : Memory} {addr : Word} {i : ℕ}

/-- Words that are apart are not the same word. -/
theorem ne_of_apart {a b : Word} (h : Apart a 4 b 4) : a ≠ b := by
  rintro rfl
  have := h.1
  simp at this

/-- Active addresses are distinct. -/
theorem Tracks.nodup (h : Tracks B L m) : ((entries B m).map Entry.address).Nodup :=
  List.pairwise_map.mpr (h.apart.imp fun hef => ne_of_apart hef)

/-- An address has one slot at most. -/
theorem Tracks.index_eq (h : Tracks B L m) {j : ℕ} (hi : i < (bpSize B m).toNat)
    (hj : j < (bpSize B m).toNat) (hij : (entryAt B m i).address = (entryAt B m j).address) :
    i = j := by
  have hi' : i < (entries B m).length := by simpa using hi
  have hj' : j < (entries B m).length := by simpa using hj
  refine index_eq_of_key_eq h.nodup hi' hj' ?_
  rwa [getElem_entries, getElem_entries]

/-- `get_breakpoint` finds the one slot of an active address. -/
theorem Tracks.getBreakpoint_of_address (h : Tracks B L m) (hi : i < (bpSize B m).toNat)
    (ha : (entryAt B m i).address = addr) : getBreakpoint B m addr = some i := by
  refine getBreakpoint_eq_some_iff.mpr ⟨hi, ha, fun j hj he => ?_⟩
  have := h.index_eq (hj.trans hi) hi (he.trans ha.symm)
  omega

/-! ## Insertion -/

/-- The entries after an insertion: those from before, and the new one. -/
theorem mem_entries_inserted (h : Inserted B m addr m') {e : Entry} :
    e ∈ entries B m' ↔ e ∈ entries B m ∨
      e = ⟨addr, load32 m addr,
        cpuGetBranch (originalAt B (bpSize B m).toNat 1) (addr + 4#32)⟩ := by
  rw [h.entries_eq, List.mem_append, List.mem_singleton]

/-- The addresses after an insertion: those from before, and the new one. -/
theorem active_inserted (h : Inserted B m addr m') {a : Word} :
    Active B m' a ↔ a = addr ∨ Active B m a := by
  unfold Active
  simp only [mem_entries_inserted h]
  constructor
  · rintro ⟨e, he | rfl, rfl⟩
    · exact Or.inr ⟨e, he, rfl⟩
    · exact Or.inl rfl
  · rintro (rfl | ⟨e, he, rfl⟩)
    · exact ⟨_, Or.inr rfl, rfl⟩
    · exact ⟨e, Or.inl he, rfl⟩

/-- **Insertion keeps the invariant**, at a word that is apart from the active ones. -/
theorem Tracks.inserted (h : Tracks B L m) (hout : OutsideStatus B addr)
    (hapart : ∀ e ∈ entries B m, Apart e.address 4 addr 4) (hins : Inserted B m addr m') :
    Tracks B L m' := by
  have hword : load32 m addr = load32 L addr :=
    load32_congr (by decide) fun x hx => h.frame x (hout.not_inSpan hx)
      fun e he => (hapart e he).symm.not_inSpan hx
  constructor
  · have := hins.room
    rw [hins.size]
    omega
  · rw [hins.entries_eq, List.pairwise_append]
    refine ⟨h.apart, List.pairwise_singleton _ _, fun e he f hf => ?_⟩
    rw [List.mem_singleton.mp hf]
    exact hapart e he
  · intro e he
    rcases (mem_entries_inserted hins).mp he with he | rfl
    · exact h.outside e he
    · exact hout
  · intro e he
    rcases (mem_entries_inserted hins).mp he with he | rfl
    · exact h.saved e he
    · exact hword
  · intro x hx hall
    have hxa : ¬ InSpan addr 4 x := hall _ ((mem_entries_inserted hins).mpr (Or.inr rfl))
    rw [hins.frame x hx hxa]
    exact h.frame x hx fun e he => hall e ((mem_entries_inserted hins).mpr (Or.inl he))

/-- A word outside the object and apart from the inserted one is not touched. -/
theorem Inserted.load32_eq (h : Inserted B m addr m') {a : Word} (hout : OutsideStatus B a)
    (hapart : Apart a 4 addr 4) : load32 m' a = load32 m a :=
  load32_congr (by decide) fun x hx => h.frame x (hout.not_inSpan hx) (hapart.not_inSpan hx)

/-- After an insertion, the breakpoint instruction is at every active address. -/
theorem Planted.inserted (hp : Planted B m) (h : Tracks B L m)
    (hapart : ∀ e ∈ entries B m, Apart e.address 4 addr 4) (hins : Inserted B m addr m') :
    Planted B m' := by
  intro e he
  rcases (mem_entries_inserted hins).mp he with he | rfl
  · rw [hins.load32_eq (h.outside e he) (hapart e he)]
    exact hp e he
  · exact hins.planted

/-! ## Removal -/

/-- The survivors of a removal are the entries with another address. -/
theorem Tracks.mem_entries_removed (h : Tracks B L m) (hrem : Removed B m addr i m') {e : Entry} :
    e ∈ entries B m' ↔ e ∈ entries B m ∧ e.address ≠ addr := by
  have hi : i < (entries B m).length := by simpa using hrem.lt_size
  rw [hrem.entries_eq h.size, mem_swapRemove hi h.nodup, getElem_entries, hrem.address_eq]

/-- The addresses after a removal: those from before, but for the removed one. -/
theorem Tracks.active_removed (h : Tracks B L m) (hrem : Removed B m addr i m') {a : Word} :
    Active B m' a ↔ Active B m a ∧ a ≠ addr := by
  unfold Active
  simp only [h.mem_entries_removed hrem]
  constructor
  · rintro ⟨e, ⟨he, hne⟩, rfl⟩
    exact ⟨⟨e, he, rfl⟩, hne⟩
  · rintro ⟨⟨e, he, rfl⟩, hne⟩
    exact ⟨e, ⟨he, hne⟩, rfl⟩

/-- What is removed was in the table. -/
theorem Removed.mem_entries (hrem : Removed B m addr i m') : entryAt B m i ∈ entries B m :=
  mem_entries_iff.mpr ⟨i, hrem.lt_size, rfl⟩

/-- **Removal keeps the invariant.** -/
theorem Tracks.removed (h : Tracks B L m) (hrem : Removed B m addr i m') : Tracks B L m' := by
  have hi : i < (entries B m).length := by simpa using hrem.lt_size
  have hmem := fun e => h.mem_entries_removed hrem (e := e)
  have hword : load32 m' addr = load32 L addr := by
    rw [hrem.restored, h.saved _ hrem.mem_entries, hrem.address_eq]
  constructor
  · have := h.size
    rw [hrem.size]
    omega
  · rw [hrem.entries_eq h.size, (swapRemove_perm _ hi).pairwise_iff fun hef => Apart.symm hef]
    exact h.apart.sublist (List.eraseIdx_sublist _ i)
  · exact fun e he => h.outside e ((hmem e).mp he).1
  · exact fun e he => h.saved e ((hmem e).mp he).1
  · intro x hx hall
    by_cases hxa : InSpan addr 4 x
    · exact eq_of_load32_eq hword hxa
    · rw [hrem.frame x hx hxa]
      refine h.frame x hx fun e he hin => ?_
      by_cases hea : e.address = addr
      · exact hxa (hea ▸ hin)
      · exact hall e ((hmem e).mpr ⟨he, hea⟩) hin

/-- A word outside the object and apart from the removed one is not touched. -/
theorem Removed.load32_eq (h : Removed B m addr i m') {a : Word} (hout : OutsideStatus B a)
    (hapart : Apart a 4 addr 4) : load32 m' a = load32 m a :=
  load32_congr (by decide) fun x hx => h.frame x (hout.not_inSpan hx) (hapart.not_inSpan hx)

/-- Distinct active words are apart. -/
theorem Tracks.apart_of_ne (h : Tracks B L m) {e f : Entry} (he : e ∈ entries B m)
    (hf : f ∈ entries B m) (hne : e.address ≠ f.address) : Apart e.address 4 f.address 4 := by
  have : Std.Symm fun e f : Entry => Apart e.address 4 f.address 4 := ⟨fun _ _ hef => hef.symm⟩
  exact h.apart.forall he hf fun hef => hne (hef ▸ rfl)

/-- After a removal, the breakpoint instruction is at every address that is still active. -/
theorem Planted.removed (hp : Planted B m) (h : Tracks B L m) (hrem : Removed B m addr i m') :
    Planted B m' := by
  intro e he
  obtain ⟨he, hne⟩ := (h.mem_entries_removed hrem).mp he
  have hap : Apart e.address 4 addr 4 := by
    rw [← hrem.address_eq]
    exact h.apart_of_ne he hrem.mem_entries (by rwa [hrem.address_eq])
  rw [hrem.load32_eq (h.outside e he) hap]
  exact hp e he

/-! ## Removing everything -/

/-- **Removing the active breakpoints empties the table**, in whatever order. -/
theorem Tracks.removeAll {rs : List (Word × Byte)} (h : Tracks B L m)
    (hrs : (rs.map Prod.fst).Perm ((entries B m).map Entry.address)) :
    Tracks B L (run (applyOp B) m (removals rs)) ∧
      entries B (run (applyOp B) m (removals rs)) = [] := by
  induction rs generalizing m with
  | nil =>
      refine ⟨h, ?_⟩
      simpa [removals] using hrs.symm
  | cons r rs ih =>
      obtain ⟨a, t⟩ := r
      have hact : Active B m a := by
        have ha : a ∈ (entries B m).map Entry.address := hrs.mem_iff.mp (by simp)
        simpa [Active] using ha
      have hout : OutsideStatus B a := by
        obtain ⟨e, he, rfl⟩ := hact
        exact h.outside e he
      rcases removeBreakpoint_cases hout h.size t with ⟨hno, -⟩ | ⟨-, i, hrem⟩
      · exact absurd hact hno
      · have hi : i < (entries B m).length := by simpa using hrem.lt_size
        -- up to order, the table is the removed entry and the table that is left
        have hperm : (entries B m).Perm
            (entryAt B m i :: entries B (removeBreakpoint B m a t).1) := by
          rw [hrem.entries_eq h.size, ← getElem_entries hi]
          exact (List.getElem_cons_eraseIdx_perm hi).symm.trans
            ((swapRemove_perm _ hi).symm.cons _)
        refine ih (h.removed hrem) ?_
        have := hrs.trans (hperm.map Entry.address)
        rw [List.map_cons, List.map_cons, hrem.address_eq] at this
        exact this.cons_inv

/-- With no breakpoint left, memory outside the object is the logical memory. -/
theorem Tracks.eq_of_entries_nil (h : Tracks B L m) (hnil : entries B m = []) {x : Word}
    (hx : ¬ InStatus B x) : m x = L x := h.frame x hx (by simp [hnil])

/-! ## The first state -/

theorem dbgInit_eq (B : Board) (m : Memory) : dbgInit B m = fill m B.status sizeofStatus 0#8 :=
  memset_eq_fill m B.status 0#8 (by decide)

/-- `dbg_init` clears the object and nothing else. -/
theorem dbgInit_of_not_inStatus {x : Word} (hx : ¬ InStatus B x) : dbgInit B m x = m x := by
  rw [dbgInit_eq]
  exact patch_of_not_inSpan hx

/-- `dbg_init` clears every field. -/
theorem load32_dbgInit {o : ℕ} (ho : o + 4 ≤ sizeofStatus) :
    load32 (dbgInit B m) (off B.status o) = 0#32 := by
  unfold sizeofStatus at ho
  have hz : ∀ k < 4, dbgInit B m (off B.status (o + k)) = 0#8 := fun k hk => by
    rw [dbgInit_eq]
    exact patch_off (by unfold sizeofStatus; omega) (by decide)
  have h0 := hz 0 (by omega)
  rw [Nat.add_zero] at h0
  unfold load32
  rw [off_off, off_off, off_off, hz 3 (by omega), hz 2 (by omega), hz 1 (by omega), h0]
  rfl

/-- At the start, the table is empty. -/
@[simp] theorem entries_dbgInit : entries B (dbgInit B m) = [] := by
  have h : bpSize B (dbgInit B m) = 0#32 := load32_dbgInit (by decide)
  unfold entries
  rw [h]
  rfl

@[simp] theorem not_active_dbgInit {a : Word} : ¬ Active B (dbgInit B m) a := by simp [Active]

/-- `dbg_init` makes an empty table over the memory it finds. -/
theorem tracks_dbgInit : Tracks B m (dbgInit B m) := by
  constructor
  · rw [← length_entries, entries_dbgInit]
    exact Nat.zero_le _
  · simp
  · simp
  · simp
  · exact fun x hx _ => dbgInit_of_not_inStatus hx

/-- At the start, nothing is planted. -/
theorem planted_dbgInit : Planted B (dbgInit B m) := by simp [Planted]

end Hbootdbg.Table
