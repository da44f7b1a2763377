import Hbootdbg.Device.Handler
import Hbootdbg.Session.Serve
import Hbootdbg.Table.Reachable
import Hbootdbg.Table.Trampoline
import Hbootdbg.Table.Overlap
import Hbootdbg.Host.Command

/-!
# Resuming from a stop

`breakpoint_handler` computes `status.continue_address` once, when the stop is entered: the address
of a slot of the table. The commands served before the host continues can free that slot, move
another one into it or clear the table.

* `Resumes w a` — what `ctx->pc` has to be for the processor to execute `w` and go on at `a + 4`.
* `KeepsSlot` — the guard on a command: it leaves the words of slot `i` alone, or fills them with
  the same words again.
* `Armed` — the invariant of a stop whose commands meet the guard. `Armed.step` is its step lemma,
  `Armed.resumes` what it is for.
* `resumes_throughout` — over runs: at whatever point of such a stop the host continues, the right
  code is executed. `resumes_in_foreign_slot` is a failing stop; after an attach the continue
  address is zero (`continueAddress_attach`).
-/

namespace Hbootdbg.Stop

open Hbootdbg.Lib.ByteMem Hbootdbg.Lib.A32Branch Hbootdbg.Lib.Run Hbootdbg.Device Hbootdbg.Table
open Hbootdbg.Session

/-- The context makes the processor execute `w` and go on at `a + 4`: it resumes at `a` over `w`,
or at two words that are `w` and a branch to `a + 4`. -/
def Resumes (m : Memory) (ctx : Context) (w a : Word) : Prop :=
  (ctx.pc = a ∧ load32 m a = w) ∨
    (load32 m ctx.pc = w ∧
      branchTarget (ctx.pc + 4#32) (load32 m (ctx.pc + 4#32)) = some (a + 4#32))

instance (m : Memory) (ctx : Context) (w a : Word) : Decidable (Resumes m ctx w a) :=
  inferInstanceAs (Decidable (_ ∨ _))

/-- If the host continues now, the device executes `w` and goes on at `a + 4`. -/
def ResumesOnContinue (B : Board) (w a : Word) (s : Option Dev) : Prop :=
  ∀ c, kind c = some .breakpointContinue →
    ∃ d ctx, serve B s c = some d ∧ d.ctx = some ctx ∧ Resumes d.mem ctx w a

/-- The commands of a stop: breakpoint commands at word-aligned addresses, reads, register reads
and attaches. -/
def StopCmd (c : CmdBytes) : Prop :=
  ((kind c = some .insertBreakpoint ∨ kind c = some .removeBreakpoint) ∧ c.addr.toNat % 4 = 0) ∨
    kind c = some .read ∨ kind c = some .getRegisters ∨ kind c = some .attach

instance (c : CmdBytes) : Decidable (StopCmd c) := inferInstanceAs (Decidable (_ ∨ _))

/-- The command leaves slot `i`, whose breakpoint is at `a`, as it is. An insertion does so when
it changes nothing, or fills another slot, or puts `a` back into slot `i`; a removal, when it does
not remove slot `i`, or removes it as the last one. -/
def KeepsSlot (B : Board) (i : ℕ) (a : Word) (s : Option Dev) (c : CmdBytes) : Prop :=
  ∀ d ∈ s,
    kind c ≠ some .attach ∧
    (kind c = some .insertBreakpoint →
      Active B d.mem c.addr ∨ dbgNbrPoints ≤ (bpSize B d.mem).toNat ∨
        (¬ InStatus B c.addr ∧ ((bpSize B d.mem).toNat ≠ i ∨ c.addr = a))) ∧
    (kind c = some .removeBreakpoint →
      getBreakpoint B d.mem c.addr ≠ some i ∨ i + 1 = (bpSize B d.mem).toNat)

instance (B : Board) (i : ℕ) (a : Word) (s : Option Dev) : DecidablePred (KeepsSlot B i a s) :=
  fun _ => inferInstanceAs (Decidable (∀ d ∈ s, _ ∧ (_ → _) ∧ (_ → _)))

/-! ## The invariant of a stop -/

/-- A stop at `a`, whose breakpoint replaced `w` and was in slot `i`: the continue address points
to slot `i`, which still holds the trampoline, and `w` is the word at `a` in the memory `L` without
breakpoints. -/
structure Armed (B : Board) (L : Memory) (i : ℕ) (w a : Word) (ctx : Context) (d : Dev) : Prop where
  tracks : Tracks B L d.mem
  address : ∀ e ∈ entries B d.mem, AddressOk B e.address
  word : load32 L a = w
  lt : i < dbgNbrPoints
  original : (entryAt B d.mem i).original = w
  branch : branchTarget (originalAt B i 1) (entryAt B d.mem i).branch = some (a + 4#32)
  continues : continueAddress B d.mem = originalAt B i 0
  ctx : d.ctx = some ctx

variable {B : Board} {L : Memory} {i : ℕ} {w a : Word} {ctx : Context} {d d' : Dev} {c : CmdBytes}

/-- At a breakpoint, the program goes on in its trampoline. -/
theorem resumeAddress_of_found {m : Memory} (h : getBreakpoint B m a = some i) :
    resumeAddress B m a = originalAt B i 0 := by
  unfold resumeAddress
  rw [h]

/-- At a breakpoint instruction of its own, it goes on after it. -/
theorem resumeAddress_of_not_active {m : Memory} (h : ¬ Active B m a) :
    resumeAddress B m a = a + 4#32 := by
  unfold resumeAddress
  rw [getBreakpoint_eq_none_iff.mpr h]

/-- **In an armed stop, continuing resumes right.** -/
theorem Armed.resumes (h : Armed B L i w a ctx d) : ResumesOnContinue B w a (some d) := by
  intro c hk
  obtain ⟨d', hd', hm, hctx, -⟩ := serve_continue (B := B) hk h.ctx
  refine ⟨d', _, hd', hctx, Or.inr ?_⟩
  rw [Context.pc_setPc, hm, h.continues, ← originalAt_one]
  exact ⟨h.original, h.branch⟩

/-- Entering a stop at a breakpoint whose trampoline is right arms it. -/
theorem armed_enter (hr : Reachable B d.mem) (hi : getBreakpoint B d.mem ctx.pc = some i)
    (hslot : SlotOk B d.mem i) :
    Armed B (restored B d.mem) i (entryAt B d.mem i).original ctx.pc ctx (enter B d ctx) := by
  have hok := hr.tableOk
  obtain ⟨hlt, hmem, hia⟩ := found_of_getBreakpoint hi
  have hi64 : i < dbgNbrPoints := hlt.trans_le hok.size
  constructor
  · exact hok.tracks.enterStop
  · rw [enter_mem, entries_enterStop hok.size]
    exact hok.address
  · rw [← hia]
    exact (hok.tracks.saved _ hmem).symm
  · exact hi64
  · rw [enter_mem, entryAt_enterStop hi64]
  · rw [enter_mem, entryAt_enterStop hi64, ← hia]
    exact hslot
  · rw [enter_mem, continueAddress_enterStop, resumeAddress_of_found hi]
  · rfl

/-- A command that leaves memory and context alone. -/
theorem Armed.of_eq (h : Armed B L i w a ctx d) (hm : d'.mem = d.mem) (hctx : d'.ctx = d.ctx) :
    Armed B L i w a ctx d' :=
  ⟨hm ▸ h.tracks, hm ▸ h.address, h.word, h.lt, hm ▸ h.original, hm ▸ h.branch, hm ▸ h.continues,
    hctx.trans h.ctx⟩

/-- **An insertion that meets the guard keeps the stop armed.** -/
theorem Armed.insert (h : Armed B L i w a ctx d) (hreach : InBranchRange B a)
    (hk : kind c = some .insertBreakpoint) (hc : c.addr.toNat % 4 = 0)
    (hok : KeepsSlot B i a (some d) c) :
    ∃ d', serve B (some d) c = some d' ∧ Armed B L i w a ctx d' := by
  obtain ⟨d', hd', hm, hctx, -⟩ := serve_insert (B := B) (d := d) hk
  refine ⟨d', hd', ?_⟩
  have hguard := (hok d rfl).2.1 hk
  by_cases hact : Active B d.mem c.addr
  · refine h.of_eq ?_ hctx
    rw [hm, insertBreakpoint, if_pos (getBreakpoint_isSome_iff.mpr hact)]
  by_cases hfull : dbgNbrPoints ≤ (bpSize B d.mem).toNat
  · refine h.of_eq ?_ hctx
    rw [hm, insertBreakpoint, if_neg (by rwa [getBreakpoint_isSome_iff]), allocBreakpoint,
      if_pos hfull]
  obtain ⟨hns, hslot⟩ := (hguard.resolve_left hact).resolve_left hfull
  have ha : AddressOk B c.addr := ⟨hc, hns⟩
  have hins := inserted_of_room (t := c.bpType) ha.outside hact (by omega)
  have hap : ∀ e ∈ entries B d.mem, Apart e.address 4 c.addr 4 := fun e he =>
    apart_of_aligned (h.address e he).1 hc fun hea => hact ⟨e, he, hea⟩
  rw [← hm] at hins
  have ht := h.tracks.inserted ha.outside hap hins
  have hent : ∀ e ∈ entries B d'.mem, AddressOk B e.address := fun e he => by
    rcases (mem_entries_inserted hins).mp he with he | rfl
    · exact h.address e he
    · exact ha
  by_cases hn : i = (bpSize B d.mem).toNat
  · -- slot `i` is filled again, with the breakpoint the stop is at
    have hca : c.addr = a := hslot.resolve_left (not_not_intro hn.symm)
    have hnew : entryAt B d'.mem i =
        ⟨a, load32 d.mem a, cpuGetBranch (originalAt B i 1) (a + 4#32)⟩ := by
      rw [hn, hins.new, hca]
    refine ⟨ht, hent, h.word, h.lt, ?_, ?_, hins.continues.trans h.continues, hctx.trans h.ctx⟩
    · have hmem : entryAt B d'.mem i ∈ entries B d'.mem :=
        mem_entries_iff.mpr ⟨i, by rw [hins.size]; omega, rfl⟩
      rw [ht.saved _ hmem, hnew]
      exact h.word
    · rw [hnew]
      exact branchTarget_slot (hca ▸ hc) hreach h.lt
  · have he := hins.other i h.lt hn
    exact ⟨ht, hent, h.word, h.lt, he ▸ h.original, he ▸ h.branch,
      hins.continues.trans h.continues, hctx.trans h.ctx⟩

/-- **A removal that meets the guard keeps the stop armed.** -/
theorem Armed.remove (h : Armed B L i w a ctx d) (hk : kind c = some .removeBreakpoint)
    (hok : KeepsSlot B i a (some d) c) :
    ∃ d', serve B (some d) c = some d' ∧ Armed B L i w a ctx d' := by
  obtain ⟨d', hd', hm, hctx, -⟩ := serve_remove (B := B) (d := d) hk
  refine ⟨d', hd', ?_⟩
  have hguard := (hok d rfl).2.2 hk
  rcases h.tracks.removeBreakpoint_cases c.addr c.bpType with he | ⟨-, j, hrem⟩
  · exact h.of_eq (by rw [hm, he]) hctx
  · rw [← hm] at hrem
    have he : entryAt B d'.mem i = entryAt B d.mem i := by
      by_cases hij : i = j
      · subst hij
        have hlast := hguard.resolve_left (not_not_intro hrem.found)
        rw [hrem.hole, ← hlast, Nat.add_sub_cancel]
      · exact hrem.other i h.lt hij
    exact ⟨h.tracks.removed hrem,
      fun e he => h.address e ((h.tracks.mem_entries_removed hrem).mp he).1, h.word, h.lt,
      he ▸ h.original, he ▸ h.branch, hrem.continues.trans h.continues, hctx.trans h.ctx⟩

/-- **A command that meets the guard keeps the stop armed.** -/
theorem Armed.step (h : Armed B L i w a ctx d) (hreach : InBranchRange B a) (hc : StopCmd c)
    (hok : KeepsSlot B i a (some d) c) :
    ∃ d', serve B (some d) c = some d' ∧ Armed B L i w a ctx d' := by
  rcases hc with ⟨hk | hk, hc⟩ | hk | hk | hk
  · exact h.insert hreach hk hc hok
  · exact h.remove hk hok
  · obtain ⟨d', hd', hm, hctx, -⟩ := serve_read (B := B) (d := d) hk
    exact ⟨d', hd', h.of_eq hm hctx⟩
  · obtain ⟨d', hd', hm, hctx, -⟩ := serve_getRegisters (B := B) (d := d) hk
    exact ⟨d', hd', h.of_eq hm hctx⟩
  · exact absurd hk (hok d rfl).1

/-! ## Runs -/

/-- **Resuming from a stop executes the right code** if every command of the stop leaves the slot
that the continue address points to as it is: in every state of the stop, continuing executes the
replaced word and goes on after it. -/
theorem resumes_throughout (B : Board) (d : Dev) (ctx : Context) (i : ℕ) (cs : List CmdBytes)
    (hr : Reachable B d.mem) (hi : getBreakpoint B d.mem ctx.pc = some i)
    (hreach : InBranchRange B ctx.pc) (hslot : SlotOk B d.mem i) (hcs : ∀ c ∈ cs, StopCmd c)
    (hok : Guarded (serve B) (KeepsSlot B i ctx.pc) (some (enter B d ctx)) cs) :
    Throughout (serve B) (ResumesOnContinue B (entryAt B d.mem i).original ctx.pc)
      (some (enter B d ctx)) cs := by
  have harmed : Throughout (serve B)
      (fun s => ∃ d', s = some d' ∧
        Armed B (restored B d.mem) i (entryAt B d.mem i).original ctx.pc ctx d')
      (some (enter B d ctx)) cs := by
    have hcmds : Guarded (serve B) (fun _ c => StopCmd c) (some (enter B d ctx)) cs :=
      guarded_of_forall fun c hc _ => hcs c hc
    refine (hcmds.and hok).throughout ?_ ⟨_, rfl, armed_enter hr hi hslot⟩
    rintro s c ⟨d', rfl, h⟩ ⟨hc, hok⟩
    exact h.step hreach hc hok
  refine harmed.mono ?_
  rintro s ⟨d', rfl, h⟩
  exact h.resumes

/-! ## Examples -/

/-- A device with a breakpoint on `mov r0, #1` at `0x8D001000`, and `mov r0, #2` at
`0x8D002000`. -/
def stoppedSample : Dev :=
  { Dev.sample with
    mem := applyOp Board.sample
      (dbgInit Board.sample
        (store32 (store32 (fun _ => 0#8) 0x8D001000#32 0xe3a00001#32) 0x8D002000#32 0xe3a00002#32))
      (.insert 0x8D001000#32 0#8) }

/-- The context of a stop at that breakpoint. -/
def contextSample : Context := ⟨0#32, fun _ => 0x8D001000#32⟩

/-- Removing the breakpoint of the stop and inserting another one fills the slot that the continue
address points to with the trampoline of the other one. -/
theorem resumes_in_foreign_slot :
    getBreakpoint Board.sample stoppedSample.mem contextSample.pc = some 0 ∧
      SlotOk Board.sample stoppedSample.mem 0 ∧ InBranchRange Board.sample contextSample.pc ∧
      (∀ c ∈ [Host.removeBreakpoint 0x8D001000#32, Host.insertBreakpoint 0x8D002000#32],
        StopCmd c ∧ InBranchRange Board.sample c.addr) ∧
      ¬ ResumesOnContinue Board.sample 0xe3a00001#32 0x8D001000#32
        (run (serve Board.sample) (some (enter Board.sample stoppedSample contextSample))
          [Host.removeBreakpoint 0x8D001000#32, Host.insertBreakpoint 0x8D002000#32]) := by
  refine ⟨by decide +kernel, by decide +kernel, by decide +kernel, by decide +kernel, fun h => ?_⟩
  obtain ⟨d, ctx, hd, hctx, hres⟩ := h Host.breakpointContinue (by decide)
  have hwrong : ((serve Board.sample
      (run (serve Board.sample) (some (enter Board.sample stoppedSample contextSample))
        [Host.removeBreakpoint 0x8D001000#32, Host.insertBreakpoint 0x8D002000#32])
      Host.breakpointContinue).bind fun d => d.ctx.map fun ctx =>
        decide (Resumes d.mem ctx 0xe3a00001#32 0x8D001000#32)) = some false := by decide +kernel
  rw [hd, Option.bind_some, hctx, Option.map_some, decide_eq_true hres] at hwrong
  cases hwrong

/-- Attaching in the stop sets the continue address to zero. -/
theorem continueAddress_attach (B : Board) (m : Memory) :
    continueAddress B (intInstallExceptionHandlers B (dbgInit B m)) = 0#32 :=
  (continueAddress_congr fun _ hx => store32_apply_inStatus outsideStatus_vector hx).trans
    (load32_dbgInit (by decide))

theorem reachable_stoppedSample : Reachable Board.sample stoppedSample.mem := by
  dsimp only [stoppedSample]
  exact .call (.init _) _ (by decide)

/-- Inserting and removing another breakpoint in the stop is harmless. -/
theorem resumes_throughout_sample :
    Throughout (serve Board.sample)
      (ResumesOnContinue Board.sample (entryAt Board.sample stoppedSample.mem 0).original
        contextSample.pc)
      (some (enter Board.sample stoppedSample contextSample))
      [Host.insertBreakpoint 0x8D002000#32, Host.removeBreakpoint 0x8D002000#32] :=
  resumes_throughout Board.sample stoppedSample contextSample 0 _ reachable_stoppedSample
    (by decide +kernel) (by decide +kernel) (by decide +kernel) (by decide) (by decide +kernel)

end Hbootdbg.Stop
