import Hbootdbg.Table.Refinement

/-!
# The tables that a device can have

Between two table operations the bytes outside the object `status` can change in any way: code
runs, the host writes memory. What holds of the table in every such history is that it is well
formed.

* `TableOk` — at most 64 active slots, with distinct word-aligned addresses outside the object.
* `restored` — the memory with the saved words put back; `TableOk.tracks` says that a well-formed
  table describes memory relative to it, so that the invariant `Tracks` is available for every
  well-formed table.
* `Reachable` — the memories of a device after `dbg_init`: table operations, stops, and anything
  that leaves the object alone. `Reachable.tableOk` is the invariant.
-/

namespace Hbootdbg.Table

open Hbootdbg.Lib.ByteMem Hbootdbg.Lib.SwapList Hbootdbg.Device

/-- A well-formed table. -/
structure TableOk (B : Board) (m : Memory) : Prop where
  size : (bpSize B m).toNat ≤ dbgNbrPoints
  nodup : ((entries B m).map Entry.address).Nodup
  address : ∀ e ∈ entries B m, AddressOk B e.address

/-- `m` with every active word replaced by the word its slot saved. -/
def restored (B : Board) (m : Memory) : Memory := fun x =>
  match (entries B m).find? fun e => InSpan e.address 4 x with
  | some e => byteOf e.original (x - e.address).toNat
  | none => m x

variable {B : Board} {m m' : Memory}

/-- The active words of a well-formed table are disjoint. -/
theorem TableOk.apart (h : TableOk B m) :
    (entries B m).Pairwise fun e f => Apart e.address 4 f.address 4 := by
  have hne := List.pairwise_map.mp h.nodup
  refine hne.imp_of_mem fun he hf hef => ?_
  exact apart_of_aligned (h.address _ he).1 (h.address _ hf).1 hef

/-- In an active word, `restored` has the bytes of its saved word. -/
theorem TableOk.restored_of_inSpan (h : TableOk B m) {e : Entry} (he : e ∈ entries B m) {x : Word}
    (hx : InSpan e.address 4 x) : restored B m x = byteOf e.original (x - e.address).toNat := by
  have hfind : (entries B m).find? (fun e => InSpan e.address 4 x) = some e := by
    have hsome : ((entries B m).find? fun e => InSpan e.address 4 x).isSome :=
      List.find?_isSome.mpr ⟨e, he, by simpa using hx⟩
    obtain ⟨f, hf⟩ := Option.isSome_iff_exists.mp hsome
    have hfx : InSpan f.address 4 x := by simpa using List.find?_some hf
    have hfm := List.mem_of_find?_eq_some hf
    rw [hf]
    congr 1
    refine eq_of_key_eq h.nodup hfm he ?_
    by_contra hne
    exact (apart_of_aligned (h.address _ hfm).1 (h.address _ he).1 hne).not_inSpan hfx hx
  unfold restored
  rw [hfind]

/-- **A well-formed table describes memory**, relative to the memory with the saved words put
back. -/
theorem TableOk.tracks (h : TableOk B m) : Tracks B (restored B m) m := by
  refine ⟨h.size, h.apart, fun e he => (h.address e he).outside, fun e he => ?_, ?_⟩
  · have hw : load32 (restored B m) e.address = load32 (store32 m e.address e.original) e.address :=
      load32_congr (by decide) fun x hx => by
        rw [h.restored_of_inSpan he hx]
        exact (patch_of_inSpan hx).symm
    rw [hw, load32_store32 _ _ _ (by decide)]
  · intro x _ hall
    have hfind : (entries B m).find? (fun e => InSpan e.address 4 x) = none :=
      List.find?_eq_none.mpr fun e he => by simpa using hall e he
    unfold restored
    rw [hfind]

/-- Where there is no breakpoint, nothing was put back. -/
theorem TableOk.load32_restored (h : TableOk B m) {a : Word} (ha : AddressOk B a)
    (hact : ¬ Active B m a) : load32 (restored B m) a = load32 m a := by
  refine load32_congr (by decide) fun x hx => ?_
  refine (h.tracks.frame x (ha.outside.not_inSpan hx) fun e he => ?_).symm
  have hne : e.address ≠ a := fun hea => hact ⟨e, he, hea⟩
  exact (apart_of_aligned ha.1 (h.address e he).1 hne.symm).not_inSpan hx

/-! ## Reachable memories -/

/-- The memories of a device after a first `dbg_init`. -/
inductive Reachable (B : Board) : Memory → Prop
  /-- `dbg_init`, over any memory. -/
  | init (m : Memory) : Reachable B (dbgInit B m)
  /-- A call of `insert_breakpoint` or `remove_breakpoint`. -/
  | call {m : Memory} (h : Reachable B m) (op : TableOp) (hop : AddressOk B op.addr) :
      Reachable B (applyOp B m op)
  /-- A stop at `pc`. -/
  | stop {m : Memory} (h : Reachable B m) (pc : Word) : Reachable B (enterStop B m pc)
  /-- Whatever leaves the object `status` alone. -/
  | outside {m m' : Memory} (h : Reachable B m) (hm : ∀ x, InStatus B x → m' x = m x) :
      Reachable B m'

/-- Entering a stop leaves the slots alone. -/
theorem entryAt_enterStop {pc : Word} {i : ℕ} (hi : i < dbgNbrPoints) :
    entryAt B (enterStop B m pc) i = entryAt B m i := by
  unfold dbgNbrPoints at hi
  simp only [enterStop, entryAt, bpAddress, bpOriginal, addressAt, originalAt, bpOffset,
    sizeofBreakpoint, continueOffset]
  simp (disch := omega) only [load32_store32_off]

theorem bpSize_enterStop {pc : Word} : bpSize B (enterStop B m pc) = bpSize B m :=
  load32_store32_off (by decide) (by decide) (by decide) (by decide)

theorem entries_enterStop {p : Word} (h : (bpSize B m).toNat ≤ dbgNbrPoints) :
    entries B (enterStop B m p) = entries B m := by
  unfold entries
  rw [bpSize_enterStop]
  exact List.map_congr_left fun i hi => entryAt_enterStop ((List.mem_range.mp hi).trans_le h)

theorem getBreakpoint_enterStop {pc : Word} (h : (bpSize B m).toNat ≤ dbgNbrPoints) (addr : Word) :
    getBreakpoint B (enterStop B m pc) addr = getBreakpoint B m addr := by
  unfold getBreakpoint
  rw [bpSize_enterStop]
  refine List.find?_congr fun i hi => ?_
  have hi := (List.mem_range.mp hi).trans_le h
  rw [show bpAddress B (enterStop B m pc) i = bpAddress B m i from
    congrArg Entry.address (entryAt_enterStop hi)]

/-- Entering a stop sets the continue address. -/
theorem continueAddress_enterStop {pc : Word} :
    continueAddress B (enterStop B m pc) = resumeAddress B m pc :=
  load32_store32 _ _ _ (by decide)

/-- Entering a stop leaves everything outside the object alone. -/
theorem enterStop_of_not_inStatus {pc x : Word} (hx : ¬ InStatus B x) :
    enterStop B m pc x = m x := patch_off_outside hx (by decide) (by decide)

/-- Entering a stop keeps the description of memory by the table. -/
theorem Tracks.enterStop {L : Memory} {pc : Word} (h : Tracks B L m) :
    Tracks B L (enterStop B m pc) := by
  have hent := entries_enterStop (p := pc) h.size
  constructor
  · rw [bpSize_enterStop]
    exact h.size
  · rw [hent]
    exact h.apart
  · rw [hent]
    exact h.outside
  · rw [hent]
    exact h.saved
  · intro x hx hall
    rw [hent] at hall
    rw [enterStop_of_not_inStatus hx]
    exact h.frame x hx hall

/-- A memory with the same table is as well formed. -/
theorem TableOk.congr (h : TableOk B m) (hsize : bpSize B m' = bpSize B m)
    (hent : entries B m' = entries B m) : TableOk B m' :=
  ⟨hsize ▸ h.size, hent ▸ h.nodup, hent ▸ h.address⟩

theorem TableOk.call (h : TableOk B m) (op : TableOp) (hop : AddressOk B op.addr) :
    TableOk B (applyOp B m op) := by
  cases op with
  | insert a t =>
      have ha : AddressOk B a := hop
      simp only [applyOp]
      rcases insertBreakpoint_cases (m := m) ha.outside t with ⟨-, he⟩ | ⟨-, -, he⟩ | ⟨-, hins⟩
      · rwa [he]
      · rwa [he]
      · have hap : ∀ e ∈ entries B m, Apart e.address 4 a 4 := fun e he =>
          apart_of_aligned (h.address e he).1 ha.1 fun hea => hins.inactive ⟨e, he, hea⟩
        have ht := h.tracks.inserted ha.outside hap hins
        refine ⟨ht.size, ht.nodup, fun e he => ?_⟩
        rcases (mem_entries_inserted hins).mp he with he | rfl
        · exact h.address e he
        · exact ha
  | remove a t =>
      have ha : AddressOk B a := hop
      simp only [applyOp]
      rcases removeBreakpoint_cases ha.outside h.size t with ⟨-, he⟩ | ⟨-, i, hrem⟩
      · rwa [he]
      · have ht := h.tracks.removed hrem
        exact ⟨ht.size, ht.nodup, fun e he =>
          h.address e ((h.tracks.mem_entries_removed hrem).mp he).1⟩

/-- **Every reachable memory has a well-formed table.** -/
theorem Reachable.tableOk (h : Reachable B m) : TableOk B m := by
  induction h with
  | init m =>
      refine ⟨?_, by simp, by simp⟩
      rw [← length_entries, entries_dbgInit]
      exact Nat.zero_le _
  | call _ op hop ih => exact ih.call op hop
  | stop _ pc ih => exact ih.congr bpSize_enterStop (entries_enterStop ih.size)
  | outside _ hm ih => exact ih.congr (bpSize_congr hm) (entries_congr hm ih.size)

end Hbootdbg.Table
