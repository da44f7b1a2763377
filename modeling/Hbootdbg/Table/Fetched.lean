import Hbootdbg.Device.Caches
import Hbootdbg.Table.Refinement

/-!
# What the processor fetches of the planted code

The stores of the debugger go to the data cache, and instructions are fetched through another one.
`mmu_invalidate_cache_line` drops the instruction line before it cleans the data line, and
`free_breakpoint` moves a trampoline without any maintenance.

* `Cached`, `call` — the caches with the addresses that calls stored to; a call comes with the
  lines that are filled before each of its operations.
* `FetchesStored` — the words the debugger planted are fetched as they were stored last.
* `CallSafe` — the guard on a call: its address is not one of the object `status`, no fill between
  a drop and its clean takes a stale copy of the word, and a removal moves no trampoline word over
  another one.
* `Ready`, `Ready.step` — the invariant, and one call; `fetches_stored_throughout` — over runs.
* `planted_code_stale` — the shortest runs that fetch something else.
-/

namespace Hbootdbg.Table

open Hbootdbg.Lib.ByteMem Hbootdbg.Lib.Cache Hbootdbg.Lib.Run Hbootdbg.Device

/-- The caches, and the addresses whose word a call has stored to. -/
structure Cached where
  /-- Main memory and the caches. -/
  caches : Caches Word Byte
  /-- The addresses of the calls that succeeded. -/
  stored : List Word

/-- The operations of a call. -/
def callOps (B : Board) (m : Memory) : TableOp → List CacheOp
  | .insert a t => insertBreakpointOps B m a t
  | .remove a _ => removeBreakpointOps B m a

/-- A call, with the instruction lines that are filled before each of its operations and after the
last one. -/
def call (B : Board) (s : Cached) (c : TableOp × (ℕ → List ℕ)) : Cached where
  caches := s.caches.exec (icacheLine B) (dcacheLine B) (callOps B s.caches.data c.1) c.2
  stored :=
    if replyOp B s.caches.data c.1 = .success then c.1.addr :: s.stored else s.stored

/-- The words that calls stored to, and both words of every active trampoline, are fetched as they
were stored. -/
def FetchesStored (B : Board) (s : Cached) : Prop :=
  (∀ a ∈ s.stored, load32 s.caches.fetch a = load32 s.caches.data a) ∧
    ∀ i < (bpSize B s.caches.data).toNat, ∀ k < 2,
      load32 s.caches.fetch (originalAt B i k) = load32 s.caches.data (originalAt B i k)

instance (B : Board) : DecidablePred (FetchesStored B) := fun _ =>
  inferInstanceAs (Decidable (_ ∧ _))

/-- A removal leaves the trampoline words of the slot it fills as they are: it moves nothing, or
words that are the same. -/
def MovesNoWord (B : Board) (m : Memory) : TableOp → Prop
  | .insert _ _ => True
  | .remove a _ => ∀ i ∈ getBreakpoint B m a, ∀ k < 2,
      bpOriginal B m ((bpSize B m).toNat - 1) k = bpOriginal B m i k

instance (B : Board) (m : Memory) : DecidablePred (MovesNoWord B m)
  | .insert _ _ => inferInstanceAs (Decidable True)
  | .remove a _ => inferInstanceAs (Decidable (∀ i ∈ getBreakpoint B m a, ∀ k < 2, _))

/-- The guard on a call. -/
def CallSafe (B : Board) (s : Cached) (c : TableOp × (ℕ → List ℕ)) : Prop :=
  AddressOk B c.1.addr ∧ MovesNoWord B s.caches.data c.1 ∧
    Caches.SafeFills (icacheLine B) (dcacheLine B) InWord s.caches none
      (callOps B s.caches.data c.1) c.2

variable {B : Board} {m m' : Memory} {s : Cached} {addr x : Word} {type : Byte} {i k n : ℕ}

/-! ## The data -/

/-- The stores of a call are those of the table operation. -/
theorem foldl_callOps (B : Board) (m : Memory) (op : TableOp) :
    (callOps B m op).foldl Op.effect m = applyOp B m op := by
  cases op with
  | insert a t => exact foldl_insertBreakpointOps B m a t
  | remove a t => exact foldl_removeBreakpointOps B m a t

/-- **Whatever is filled, a call has its effect on the data.** -/
theorem data_call (B : Board) (s : Cached) (c : TableOp × (ℕ → List ℕ)) :
    (call B s c).caches.data = applyOp B s.caches.data c.1 :=
  (Caches.data_exec _ _).trans (foldl_callOps B _ _)

/-- A call that fails does nothing. -/
theorem callOps_of_failed {op : TableOp} (h : replyOp B m op ≠ .success) : callOps B m op = [] := by
  cases op with
  | insert a t =>
      simp only [replyOp] at h
      simp only [callOps]
      unfold insertBreakpoint at h
      unfold insertBreakpointOps
      by_cases hfound : (getBreakpoint B m a).isSome
      · rw [if_pos hfound]
      · rw [if_neg hfound] at h ⊢
        rcases hslot : allocBreakpoint B m with ⟨m', _ | bp⟩
        · rfl
        · rw [hslot] at h
          exact absurd rfl h
  | remove a t =>
      simp only [replyOp] at h
      simp only [callOps]
      unfold removeBreakpoint at h
      unfold removeBreakpointOps
      cases hfound : getBreakpoint B m a with
      | none => rfl
      | some bp =>
          rw [hfound] at h
          exact absurd rfl h

/-! ## Where the operations store -/

/-- `x` is in slot `n`, or in `bp_size`. -/
def SlotOrSize (B : Board) (n : ℕ) (x : Word) : Prop :=
  InSpan (bpAt B n) sizeofBreakpoint x ∨ InSpan (off B.status bpSizeOffset) 4 x

theorem stores_storeSpan {a : Word} {f : ℕ → Byte} (h : (storeSpan a n f).Stores x) :
    InSpan a n x := by
  by_contra hx
  exact h (if_neg hx)

/-- A field of a slot is in the slot. -/
theorem slotOrSize_of_field {o : ℕ} (h : InSpan (off (bpAt B n) o) k x)
    (ho : o + k ≤ sizeofBreakpoint) : SlotOrSize B n x := Or.inl (h.of_off ho (by decide))

/-- A field of a slot, by its offset in the object. -/
theorem slotOrSize_of_offset {o : ℕ} (h : InSpan (off B.status (bpOffset n + o)) k x)
    (ho : o + k ≤ sizeofBreakpoint) : SlotOrSize B n x := by
  rw [← off_off] at h
  exact slotOrSize_of_field h ho

theorem inStatus_of_slotOrSize (hn : n < dbgNbrPoints) (h : SlotOrSize B n x) : InStatus B x := by
  unfold dbgNbrPoints at hn
  rcases h with h | h
  · refine InSpan.of_off h ?_ (by decide)
    unfold bpOffset sizeofBreakpoint sizeofStatus
    omega
  · exact InSpan.of_off h (by decide) (by decide)

theorem apart_trampoline_size (hi : i < dbgNbrPoints) (hk : k < 2) :
    Apart (originalAt B i k) 4 (off B.status bpSizeOffset) 4 := by
  unfold dbgNbrPoints at hi
  refine apart_off B.status (by decide) (by decide) ?_ ?_ (by decide)
  · unfold bpOffset sizeofBreakpoint bpSizeOffset
    omega
  · unfold bpOffset sizeofBreakpoint
    omega

/-- The trampoline of another slot is not touched. -/
theorem not_slotOrSize_of_trampoline (hi : i < dbgNbrPoints) (hn : n < dbgNbrPoints) (hne : i ≠ n)
    (hk : k < 2) (h : InSpan (originalAt B i k) 4 x) : ¬ SlotOrSize B n x := by
  rintro (hs | hs)
  · unfold dbgNbrPoints at hi hn
    refine (apart_off B.status (by decide) (by decide) ?_ ?_ ?_).not_inSpan h hs
    all_goals
      unfold bpOffset sizeofBreakpoint
      omega
  · exact (apart_trampoline_size hi hk).not_inSpan h hs

/-- A byte of a breakpoint's word is not one of the object. -/
theorem AddressOk.not_inStatus (h : AddressOk B addr) (hx : InSpan addr 4 x) : ¬ InStatus B x :=
  Apart.not_inSpan h.outside hx

/-- **The program of an insertion that finds room**: stores to its slot, and three maintained
words. -/
theorem insertBreakpointOps_of_room (type : Byte) (hnew : ¬ Active B m addr)
    (hroom : (bpSize B m).toNat < dbgNbrPoints) :
    ∃ pre, insertBreakpointOps B m addr type =
        pre ++ (mmuInvalidateCacheLine (originalAt B (bpSize B m).toNat 0) ++
          (mmuInvalidateCacheLine (originalAt B (bpSize B m).toNat 1) ++
            storeWord addr armBkpt :: mmuInvalidateCacheLine addr)) ∧
      ∀ o ∈ pre, ∀ x, o.Stores x → SlotOrSize B (bpSize B m).toNat x := by
  have hsome : ¬ (getBreakpoint B m addr).isSome := by rwa [getBreakpoint_isSome_iff]
  have hsize : bpSize B (store32 m (off B.status bpSizeOffset) (bpSize B m + 1#32)) =
      bpSize B m + 1#32 := load32_store32 _ _ _ (by decide)
  have hslot : bpSize B m + 1#32 - 1#32 = bpSize B m := BitVec.add_sub_cancel _ _
  unfold insertBreakpointOps allocBreakpoint
  rw [if_neg hsome, if_neg (by omega)]
  simp only [hsize, hslot]
  rw [List.append_assoc, List.append_assoc]
  refine ⟨_, rfl, fun o ho x hx => ?_⟩
  simp only [List.mem_cons, List.not_mem_nil, or_false] at ho
  rcases ho with rfl | rfl | rfl | rfl | rfl | rfl
  · exact Or.inr (stores_storeSpan hx)
  · exact slotOrSize_of_offset (o := 0) (stores_storeSpan hx) (by decide)
  · exact slotOrSize_of_offset (stores_storeSpan hx) (by decide)
  · exact slotOrSize_of_offset (stores_storeSpan hx) (by decide)
  · exact slotOrSize_of_offset (stores_storeSpan hx) (by decide)
  · exact slotOrSize_of_offset (stores_storeSpan hx) (by decide)

/-- **The program of a removal that finds a breakpoint**: a maintained word, a copy to the slot,
and the new size. -/
theorem removeBreakpointOps_of_found (hout : OutsideStatus B addr)
    (hsize : (bpSize B m).toNat ≤ dbgNbrPoints) (hfound : getBreakpoint B m addr = some i) :
    ∃ f v, removeBreakpointOps B m addr =
      storeWord addr (bpOriginal B m i 0) :: (mmuInvalidateCacheLine addr ++
        [storeSpan (bpAt B i) sizeofBreakpoint f, storeWord (off B.status bpSizeOffset) v]) := by
  obtain ⟨hi, hia, -⟩ := getBreakpoint_eq_some_iff.mp hfound
  have hkeep : ∀ x, InStatus B x → store32 m addr (bpOriginal B m i 0) x = m x := fun x hx =>
    store32_apply_inStatus hout hx
  have haddr : bpAddress B (store32 m addr (bpOriginal B m i 0)) i = addr :=
    (congrArg Entry.address (entryAt_congr hkeep (hi.trans_le hsize))).trans hia
  have hfind : getBreakpoint B (store32 m addr (bpOriginal B m i 0))
      (bpAddress B (store32 m addr (bpOriginal B m i 0)) i) = some i := by
    rw [haddr, getBreakpoint_congr hkeep hsize, hfound]
  unfold getBreakpoint at hfind
  unfold removeBreakpointOps freeBreakpointOps
  rw [hfound]
  simp only [hfind]
  exact ⟨_, _, rfl⟩

/-! ## The invariant -/

/-- The planted words are coherent. -/
structure Ready (B : Board) (s : Cached) : Prop where
  /-- The table has no more slots than it can have. -/
  size : (bpSize B s.caches.data).toNat ≤ dbgNbrPoints
  /-- Calls that succeeded had a proper address. -/
  addresses : ∀ a ∈ s.stored, AddressOk B a
  /-- Their words are coherent. -/
  words : ∀ a ∈ s.stored, ∀ x, InSpan a 4 x → s.caches.Coherent x
  /-- The active trampolines are coherent. -/
  trampolines : ∀ i < (bpSize B s.caches.data).toNat, ∀ k < 2, ∀ x,
    InSpan (originalAt B i k) 4 x → s.caches.Coherent x

/-- Coherent words are fetched as they were stored. -/
theorem Ready.fetchesStored (h : Ready B s) : FetchesStored B s := by
  constructor
  · intro a ha
    exact load32_congr (by decide) fun x hx => (h.words a ha x hx).fetch_eq
  · intro i hi k hk
    exact load32_congr (by decide) fun x hx => (h.trampolines i hi k hk x hx).fetch_eq

section step

variable {fills : ℕ → List ℕ}

/-- The caches after a call. -/
theorem caches_call (s : Cached) (op : TableOp) (fills : ℕ → List ℕ) :
    (call B s (op, fills)).caches =
      s.caches.exec (icacheLine B) (dcacheLine B) (callOps B s.caches.data op) fills := rfl

theorem stored_call_of_success {op : TableOp} (h : replyOp B s.caches.data op = .success) :
    (call B s (op, fills)).stored = op.addr :: s.stored := if_pos h

/-- A word that is maintained and not stored to afterwards is coherent. -/
theorem coherent_of_split {op : TableOp} {pre post : List CacheOp} {w : Word}
    (hfills : Caches.SafeFills (icacheLine B) (dcacheLine B) InWord s.caches none
      (callOps B s.caches.data op) fills)
    (hsplit : callOps B s.caches.data op = pre ++ (mmuInvalidateCacheLine w ++ post))
    (hpost : ∀ o ∈ post, ¬ o.Stores x) (hal : w.toNat % 4 = 0) (hx : InSpan w 4 x) :
    (call B s (op, fills)).caches.Coherent x := by
  rw [caches_call]
  rw [hsplit] at hfills ⊢
  exact Caches.coherent_of_maintained icacheLine_of_inWord dcacheLine_of_inWord hfills hpost
    ⟨hal, hx⟩

/-- A word that is not stored to stays coherent. -/
theorem coherent_of_kept {op : TableOp} (h : s.caches.Coherent x)
    (hops : ∀ o ∈ callOps B s.caches.data op, ¬ o.Stores x) :
    (call B s (op, fills)).caches.Coherent x := h.exec (keepsAt_of_forall hops _) fills

/-- The maintenance of a line stores nothing. -/
theorem not_stores_maintenance {w : Word} {o : CacheOp} (h : o ∈ mmuInvalidateCacheLine w) :
    ¬ o.Stores x := by
  unfold mmuInvalidateCacheLine at h
  simp only [List.mem_cons, List.not_mem_nil, or_false] at h
  rcases h with rfl | rfl
  · exact not_false
  · exact not_false

/-- A word that is stored and maintained is the only one. -/
theorem not_stores_maintained {w v : Word} (hx : ¬ InSpan w 4 x) :
    ∀ o ∈ storeWord w v :: mmuInvalidateCacheLine w, ¬ o.Stores x := by
  intro o ho
  rcases List.mem_cons.mp ho with rfl | ho
  · exact fun hs => hx (stores_storeSpan hs)
  · exact not_stores_maintenance ho

/-- **A call that fails keeps the invariant**, whatever is filled. -/
theorem Ready.failed {op : TableOp} (h : Ready B s)
    (hfail : replyOp B s.caches.data op ≠ .success) : Ready B (call B s (op, fills)) := by
  have hdata : (call B s (op, fills)).caches.data = s.caches.data := by
    rw [data_call, ← foldl_callOps, callOps_of_failed hfail]
    rfl
  have hstored : (call B s (op, fills)).stored = s.stored := if_neg hfail
  have hcoh : ∀ x, s.caches.Coherent x → (call B s (op, fills)).caches.Coherent x := by
    intro x hx
    have hkeeps : KeepsAt x s.caches.data [] := trivial
    rw [caches_call, callOps_of_failed hfail]
    exact hx.exec hkeeps fills
  constructor
  · rw [hdata]
    exact h.size
  · rw [hstored]
    exact h.addresses
  · rw [hstored]
    exact fun a ha x hx => hcoh x (h.words a ha x hx)
  · rw [hdata]
    exact fun i hi k hk x hx => hcoh x (h.trampolines i hi k hk x hx)

/-- The words of a call and of slot `i` apart, what is coherent stays so. -/
def CoherentElsewhere (B : Board) (s : Cached) (c : TableOp × (ℕ → List ℕ)) (i : ℕ) : Prop :=
  ∀ x, ¬ InSpan c.1.addr 4 x → ¬ SlotOrSize B i x → s.caches.Coherent x →
    (call B s c).caches.Coherent x

/-- The words that were stored before a call, and the word of the call. -/
theorem Ready.words_of_elsewhere {c : TableOp × (ℕ → List ℕ)} (h : Ready B s)
    (hok : AddressOk B c.1.addr) (hi : i < dbgNbrPoints) (helse : CoherentElsewhere B s c i)
    (hown : ∀ x, InSpan c.1.addr 4 x → (call B s c).caches.Coherent x) :
    ∀ a ∈ c.1.addr :: s.stored, ∀ x, InSpan a 4 x → (call B s c).caches.Coherent x := by
  intro a ha x hx
  by_cases hne : a = c.1.addr
  · subst hne
    exact hown x hx
  · have hin : a ∈ s.stored := (List.mem_cons.mp ha).resolve_left hne
    have haok := h.addresses a hin
    refine helse x ?_ (fun hs => haok.not_inStatus hx (inStatus_of_slotOrSize hi hs))
      (h.words a hin x hx)
    exact (apart_of_aligned haok.1 hok.1 hne).not_inSpan hx

/-- The trampolines of the other slots. -/
theorem Ready.trampolines_of_elsewhere {c : TableOp × (ℕ → List ℕ)} {j k : ℕ} (h : Ready B s)
    (hok : AddressOk B c.1.addr) (hi : i < dbgNbrPoints) (helse : CoherentElsewhere B s c i)
    (hj : j < (bpSize B s.caches.data).toNat) (hne : j ≠ i) (hk : k < 2)
    (hx : InSpan (originalAt B j k) 4 x) : (call B s c).caches.Coherent x := by
  have hj64 : j < dbgNbrPoints := hj.trans_le h.size
  refine helse x (fun hxa => hok.not_inStatus hxa (inStatus_of_trampoline hj64 hk hx)) ?_
    (h.trampolines j hj k hk x hx)
  exact not_slotOrSize_of_trampoline hj64 hi hne hk hx

/-- **An insertion keeps the invariant**: its three words are maintained, and the others are not
stored to. -/
theorem Ready.inserted (h : Ready B s) (hsafe : CallSafe B s (.insert addr type, fills))
    (hins : Inserted B s.caches.data addr (insertBreakpoint B s.caches.data addr type).1)
    (hs : (insertBreakpoint B s.caches.data addr type).2 = .success) :
    Ready B (call B s (.insert addr type, fills)) := by
  obtain ⟨hok, -, hfills⟩ := hsafe
  have hroom := hins.room
  have hdata : (call B s (.insert addr type, fills)).caches.data =
      (insertBreakpoint B s.caches.data addr type).1 := data_call B s _
  have hstored : (call B s (.insert addr type, fills)).stored = addr :: s.stored :=
    stored_call_of_success hs
  obtain ⟨pre, hops, hpre⟩ := insertBreakpointOps_of_room type hins.inactive hroom
  generalize hn : (bpSize B s.caches.data).toNat = n at *
  have helse : CoherentElsewhere B s (.insert addr type, fills) n := by
    intro x hx hslot hcoh
    refine coherent_of_kept hcoh fun o ho => ?_
    simp only [callOps, hops, List.mem_append] at ho
    rcases ho with ho | ho | ho | ho
    · exact fun hs => hslot (hpre o ho x hs)
    · exact not_stores_maintenance ho
    · exact not_stores_maintenance ho
    · exact not_stores_maintained hx o ho
  constructor
  · rw [hdata, hins.size, hn]
    exact hroom
  · rw [hstored]
    exact List.forall_mem_cons.mpr ⟨hok, h.addresses⟩
  · rw [hstored]
    refine h.words_of_elsewhere hok hroom helse fun x hx => ?_
    have hsplit : callOps B s.caches.data (.insert addr type) =
        (pre ++ (mmuInvalidateCacheLine (originalAt B n 0) ++
          (mmuInvalidateCacheLine (originalAt B n 1) ++ [storeWord addr armBkpt]))) ++
        (mmuInvalidateCacheLine addr ++ []) := by
      simp only [callOps, hops, List.append_assoc, List.append_nil, List.cons_append,
        List.nil_append]
    exact coherent_of_split hfills hsplit (List.forall_mem_nil _) hok.1 hx
  · rw [hdata, hins.size, hn]
    intro i hi k hk x hx
    rcases Nat.lt_succ_iff_lt_or_eq.mp hi with hlt | rfl
    · exact h.trampolines_of_elsewhere hok hroom helse (hn ▸ hlt) hlt.ne hk hx
    · have hxa : ¬ InSpan addr 4 x := fun hxa =>
        hok.not_inStatus hxa (inStatus_of_trampoline hroom hk hx)
      rcases Nat.le_one_iff_eq_zero_or_eq_one.mp (Nat.le_of_lt_succ hk) with rfl | rfl
      · refine coherent_of_split hfills hops (fun o ho => ?_) originalAt_toNat_mod hx
        rcases List.mem_append.mp ho with ho | ho
        · exact not_stores_maintenance ho
        · exact not_stores_maintained hxa o ho
      · rw [← List.append_assoc] at hops
        exact coherent_of_split hfills hops (not_stores_maintained hxa) originalAt_toNat_mod hx

/-- **A removal that moves no word keeps the invariant.** -/
theorem Ready.removed (h : Ready B s) (hsafe : CallSafe B s (.remove addr type, fills))
    (hrem : Removed B s.caches.data addr i (removeBreakpoint B s.caches.data addr type).1)
    (hs : (removeBreakpoint B s.caches.data addr type).2 = .success) :
    Ready B (call B s (.remove addr type, fills)) := by
  obtain ⟨hok, hmoves, hfills⟩ := hsafe
  have hi := hrem.lt_size
  have hi64 : i < dbgNbrPoints := hi.trans_le h.size
  have hdata : (call B s (.remove addr type, fills)).caches.data =
      (removeBreakpoint B s.caches.data addr type).1 := data_call B s _
  have hstored : (call B s (.remove addr type, fills)).stored = addr :: s.stored :=
    stored_call_of_success hs
  obtain ⟨f, v, hops⟩ := removeBreakpointOps_of_found hok.outside h.size hrem.found
  have hcall : callOps B s.caches.data (.remove addr type) = _ := hops
  have hslot : ∀ x, ¬ SlotOrSize B i x →
      ∀ o ∈ [storeSpan (bpAt B i) sizeofBreakpoint f, storeWord (off B.status bpSizeOffset) v],
        ¬ o.Stores x := by
    intro x hx
    refine List.forall_mem_cons.mpr ⟨fun hs => hx (Or.inl (stores_storeSpan hs)), ?_⟩
    exact List.forall_mem_singleton.mpr fun hs => hx (Or.inr (stores_storeSpan hs))
  have helse : CoherentElsewhere B s (.remove addr type, fills) i := by
    intro x hx hxs hcoh
    refine coherent_of_kept hcoh fun o ho => ?_
    rw [hcall, ← List.cons_append] at ho
    rcases List.mem_append.mp ho with ho | ho
    · exact not_stores_maintained hx o ho
    · exact hslot x hxs o ho
  constructor
  · rw [hdata, hrem.size]
    exact (Nat.sub_le _ _).trans h.size
  · rw [hstored]
    exact List.forall_mem_cons.mpr ⟨hok, h.addresses⟩
  · rw [hstored]
    refine h.words_of_elsewhere hok hi64 helse fun x hx => ?_
    have hsplit : callOps B s.caches.data (.remove addr type) =
        [storeWord addr (bpOriginal B s.caches.data i 0)] ++ (mmuInvalidateCacheLine addr ++ _) :=
      hops
    exact coherent_of_split hfills hsplit
      (hslot x fun hs => hok.not_inStatus hx (inStatus_of_slotOrSize hi64 hs)) hok.1 hx
  · rw [hdata, hrem.size]
    intro j hj k hk x hx
    by_cases hne : j = i
    · -- the slot is filled with the words that it holds
      subst hne
      have hxa : ¬ InSpan addr 4 x := fun hxa =>
        hok.not_inStatus hxa (inStatus_of_trampoline hi64 hk hx)
      have hsame : (removeBreakpoint B s.caches.data addr type).1 x = s.caches.data x := by
        refine eq_of_load32_eq ?_ hx
        have hword := hmoves j hrem.found k hk
        rcases Nat.le_one_iff_eq_zero_or_eq_one.mp (Nat.le_of_lt_succ hk) with rfl | rfl
        · exact (congrArg Entry.original hrem.hole).trans hword
        · exact (congrArg Entry.branch hrem.hole).trans hword
      have hfold := congrFun (foldl_callOps B s.caches.data (.remove addr type)) x
      rw [hcall, ← List.cons_append] at hfold
      rw [caches_call, hcall, ← List.cons_append]
      refine (h.trampolines j hi k hk x hx).exec
        (keepsAt_of_foldl_eq (not_stores_maintained hxa) ?_ (hfold.trans hsame)) fills
      refine List.forall_mem_singleton.mpr fun hs => ?_
      exact (apart_trampoline_size hi64 hk).not_inSpan hx (stores_storeSpan hs)
    · exact h.trampolines_of_elsewhere hok hi64 helse (by omega) hne hk hx

/-- **A safe call keeps the invariant.** -/
theorem Ready.step (h : Ready B s) (c : TableOp × (ℕ → List ℕ)) (hsafe : CallSafe B s c) :
    Ready B (call B s c) := by
  obtain ⟨op, fills⟩ := c
  by_cases hs : replyOp B s.caches.data op = .success
  · cases op with
    | insert a t =>
        have hout : OutsideStatus B a := AddressOk.outside hsafe.1
        rcases insertBreakpoint_cases hout t with ⟨-, he⟩ | ⟨-, -, he⟩ | ⟨-, hins⟩
        · rw [replyOp, he] at hs
          cases hs
        · rw [replyOp, he] at hs
          cases hs
        · exact h.inserted hsafe hins hs
    | remove a t =>
        have hout : OutsideStatus B a := AddressOk.outside hsafe.1
        rcases removeBreakpoint_cases hout h.size t with ⟨-, he⟩ | ⟨-, i, hrem⟩
        · rw [replyOp, he] at hs
          cases hs
        · exact h.removed hsafe hrem hs
  · exact h.failed hs

end step

/-! ## Runs -/

/-- **In a run of safe calls, the planted words are fetched as they were stored**, after every
call. -/
theorem fetches_stored_throughout (B : Board) (s : Cached) (cs : List (TableOp × (ℕ → List ℕ)))
    (hempty : bpSize B s.caches.data = 0#32) (hnone : s.stored = [])
    (hsafe : Guarded (call B) (CallSafe B) s cs) :
    Throughout (call B) (FetchesStored B) s cs := by
  have hsize : (bpSize B s.caches.data).toNat = 0 := by
    rw [hempty]
    rfl
  have hready : Ready B s := by
    constructor
    · rw [hsize]
      exact Nat.zero_le _
    · rw [hnone]
      exact List.forall_mem_nil _
    · rw [hnone]
      exact List.forall_mem_nil _
    · rw [hsize]
      exact fun i hi => absurd hi (Nat.not_lt_zero i)
  have ht : Throughout (call B) (Ready B) s cs :=
    hsafe.throughout (fun s c hs hc => hs.step c hc) hready
  exact ht.mono fun s hs => hs.fetchesStored

/-- Caches with nothing in them, over a memory of zeros. -/
def cachedSample : Cached := ⟨⟨fun _ => 0#8, fun _ => none, fun _ => none⟩, []⟩

/-- The lines `ls` are filled before operation `j`. -/
def fillAt (j : ℕ) (ls : List ℕ) : ℕ → List ℕ := fun i => if i = j then ls else []

theorem fillAt_zero_succ (ls : List ℕ) (i : ℕ) : fillAt 0 ls (i + 1) = [] :=
  if_neg (Nat.succ_ne_zero i)

/-- The line of the breakpoint is filled between the two operations of its maintenance, which is
the last one of the insertion: the `BKPT` is not fetched. And without any fill, removing the first
of two breakpoints moves the second trampoline, whose words are not maintained. -/
theorem planted_code_stale :
    ¬ Throughout (call Board.sample) (FetchesStored Board.sample) cachedSample
        [(.insert 0x8D001000#32 0#8, fillAt 12 [icacheLine Board.sample 0x8D001000#32])] ∧
      ¬ Throughout (call Board.sample) (FetchesStored Board.sample) cachedSample
        [(.insert 0x8D001000#32 0#8, fillAt 0 []), (.insert 0x8D002000#32 0#8, fillAt 0 []),
          (.remove 0x8D001000#32 0#8, fillAt 0 [])] := by
  constructor
  · intro h
    have hword := h.last.1 0x8D001000#32 (by decide +kernel)
    rw [run_cons, run_nil, data_call] at hword
    have hbyte := eq_of_load32_eq hword (show InSpan _ 4 0x8D001000#32 by decide)
    exact absurd hbyte (by decide +kernel)
  · intro h
    have hsize : 0 < (bpSize Board.sample (run (call Board.sample) cachedSample
        [(.insert 0x8D001000#32 0#8, fillAt 0 []), (.insert 0x8D002000#32 0#8, fillAt 0 []),
          (.remove 0x8D001000#32 0#8, fillAt 0 [])]).caches.data).toNat := by
      rw [run_cons, run_cons, run_cons, run_nil, data_call, data_call, data_call]
      decide +kernel
    have hword := h.last.2 0 hsize 1 (by decide)
    have hin : InSpan (originalAt Board.sample 0 1) 4 (originalAt Board.sample 0 1) := by decide
    have hbyte := eq_of_load32_eq hword hin
    rw [run_cons, run_cons, run_cons, run_nil, data_call, data_call, data_call] at hbyte
    exact absurd hbyte (by decide +kernel)

/-- A breakpoint whose line is filled before it is inserted, and which is removed again. -/
theorem fetches_stored_sample :
    Throughout (call Board.sample) (FetchesStored Board.sample) cachedSample
      [(.insert 0x8D001000#32 0#8, fillAt 0 [icacheLine Board.sample 0x8D001000#32]),
        (.remove 0x8D001000#32 0#8, fillAt 0 [icacheLine Board.sample 0x8D001000#32])] := by
  refine fetches_stored_throughout Board.sample cachedSample _ (by decide +kernel) rfl
    ⟨⟨by decide, trivial, ?_⟩, ⟨by decide, ?_, ?_⟩, trivial⟩
  · exact Caches.safeFills_of_first (fillAt_zero_succ [icacheLine Board.sample 0x8D001000#32])
  · rw [data_call]
    decide +kernel
  · exact Caches.safeFills_of_first (fillAt_zero_succ [icacheLine Board.sample 0x8D001000#32])

end Hbootdbg.Table
