import Hbootdbg.Stop.Stepping

/-!
# What a single step leaves behind

`handle_step` inserts a breakpoint and removes it after the next stop. It looks at neither answer:
if the breakpoint was there before, the removal is the user's.

* `SameBreakpoints` — two memories have the same active breakpoints, and the same words hold the
  breakpoint instruction.
* `LeavesDebugger` — from the insertion of a step to its stop, the program leaves the table and the
  breakpoint instructions as they are.
* `handleStep_eq_some` — what a step that is handled did: the insertion, the run, the removal.
* `step_sameBreakpoints_iff` — a step leaves the breakpoints as they were iff there was none at the
  address after `pc`. `step_removes_user` is a step onto a breakpoint of the user.
-/

namespace Hbootdbg.Gdb

open Hbootdbg.Lib.ByteMem Hbootdbg.Lib.A32Run Hbootdbg.Device Hbootdbg.Table Hbootdbg.Session
open Hbootdbg.Host Hbootdbg.Stop

/-- The active breakpoints are the same, and so are the words of the program that hold
`ARM_BKPT`. -/
def SameBreakpoints (B : Board) (m m' : Memory) : Prop :=
  (∀ a, Active B m' a ↔ Active B m a) ∧
    ∀ a, AddressOk B a → (load32 m' a = armBkpt ↔ load32 m a = armBkpt)

/-- Between two memories, the table is untouched and no breakpoint instruction was stored or
overwritten. -/
structure KeepsDebugger (B : Board) (m m' : Memory) : Prop where
  object : ∀ x, InStatus B x → m' x = m x
  bkpt : ∀ a, AddressOk B a → (load32 m' a = armBkpt ↔ load32 m a = armBkpt)

/-- The run of one step has nothing to do with the debugger: at the stop that it ends in, the
debugger finds what it left when it continued, with the breakpoint at `b` inserted. What the program
stores elsewhere, or would do in another memory, does not matter. -/
def LeavesDebugger (B : Board) (exec : Exec) (fuel : ℕ) (d : Dev) (b : Word) : Prop :=
  let m₁ := (Device.insertBreakpoint B d.mem b 0#8).1
  ∀ ctx, d.ctx = some ctx → ∀ c m₂ pcs,
    runToBkpt (processor exec) fuel (ctx.setPc (continueAddress B m₁)) m₁ = some (c, m₂, pcs) →
      KeepsDebugger B m₁ m₂

variable {H : HbootClient} {B : Board} {exec : Exec} {m m' m₁ m₂ : Memory} {b : Word} {d d' : Dev}
  {fuel : ℕ}

theorem KeepsDebugger.refl (B : Board) (m : Memory) : KeepsDebugger B m m :=
  ⟨fun _ _ => rfl, fun _ _ => Iff.rfl⟩

theorem KeepsDebugger.trans (h : KeepsDebugger B m m₁) (h' : KeepsDebugger B m₁ m₂) :
    KeepsDebugger B m m₂ :=
  ⟨fun x hx => (h'.object x hx).trans (h.object x hx),
    fun a ha => (h'.bkpt a ha).trans (h.bkpt a ha)⟩

/-- Entering a stop leaves the words of the program alone. -/
theorem load32_enterStop {pc a : Word} (ha : AddressOk B a) :
    load32 (enterStop B m pc) a = load32 m a :=
  load32_congr (by decide) fun _ hx => enterStop_of_not_inStatus (ha.outside.not_inSpan hx)

/-- **A step that is handled** is an insertion, a run of the program, a stop and a removal. -/
theorem handleStep_eq_some {r : ArmRegisters} {s : Stepped}
    (h : handleStep H B exec fuel r d = some (d', s))
    (hm₁ : (Device.insertBreakpoint B d.mem (r.gpr 15 + 4#32) 0#8).1 = m₁) :
    ∃ ctx c m₂ pcs, d.ctx = some ctx ∧
      runToBkpt (processor exec) fuel (ctx.setPc (continueAddress B m₁)) m₁ = some (c, m₂, pcs) ∧
        d'.mem = (Device.removeBreakpoint B (enterStop B m₂ c.pc) (r.gpr 15 + 4#32) 0#8).1 ∧
        d'.ctx = some c := by
  have hfit : ¬ 2 ^ 32 ≤ (r.gpr 15).toNat + 4 := by
    intro hbig
    rw [handleStep, if_pos hbig] at h
    cases h
  obtain ⟨d₁, bytes₁, hins, hmem₁, hctx₁⟩ := exchange_insert H B d (r.gpr 15 + 4#32)
  rw [hm₁] at hmem₁
  cases hctx : d₁.ctx with
  | none =>
      obtain ⟨d₂, hd₂, -, hctx₂, -⟩ := serve_continue_null (B := B) (c := breakpointContinue) rfl
        hctx
      rw [handleStep_eq_none exec fuel hfit hins (exchange_of_serve hd₂) hctx₂] at h
      cases h
  | some ctx =>
      obtain ⟨d₂, bytes₂, hcont, hmem₂, hctx₂⟩ := exchange_continue (H := H) (B := B) hctx
      rw [handleStep_eq exec fuel hfit hins hcont hctx₂] at h
      obtain ⟨⟨ctx', m₂, pcs⟩, hrun, h⟩ := Option.bind_eq_some_iff.mp h
      obtain ⟨d₃, hpoll, h⟩ := Option.bind_eq_some_iff.mp h
      obtain ⟨rfl, -⟩ := Prod.mk.inj (Option.some.inj h)
      obtain ⟨hctx₃, hmem₃⟩ := pollAndRemove_eq_some (c := ctx') rfl hpoll
      rw [hmem₂, hmem₁] at hrun
      exact ⟨ctx, ctx', m₂, pcs, hctx₁.symm.trans hctx, hrun, hmem₃, hctx₃⟩

/-- What a step does to the memory, when its run has nothing to do with the debugger. -/
theorem handleStep_cases {r : ArmRegisters} {s : Stepped}
    (hexec : LeavesDebugger B exec fuel d (r.gpr 15 + 4#32))
    (h : handleStep H B exec fuel r d = some (d', s)) :
    ∃ (m₂ : Memory) (pc : Word),
      KeepsDebugger B (Device.insertBreakpoint B d.mem (r.gpr 15 + 4#32) 0#8).1 m₂ ∧
        d'.mem = (Device.removeBreakpoint B (enterStop B m₂ pc) (r.gpr 15 + 4#32) 0#8).1 := by
  obtain ⟨ctx, c, m₂, pcs, hctx, hrun, hmem, -⟩ := handleStep_eq_some h rfl
  exact ⟨m₂, c.pc, hexec ctx hctx c m₂ pcs hrun, hmem⟩

/-- After the run, the table at the stop is the one from before. -/
theorem KeepsDebugger.tableOk (h : KeepsDebugger B m m₂) (pc : Word) (hok : TableOk B m) :
    TableOk B (enterStop B m₂ pc) ∧ entries B (enterStop B m₂ pc) = entries B m := by
  have hsize := bpSize_congr h.object
  have hent := entries_congr h.object hok.size
  have hent' : entries B (enterStop B m₂ pc) = entries B m :=
    (entries_enterStop (hsize ▸ hok.size)).trans hent
  exact ⟨hok.congr (bpSize_enterStop.trans hsize) hent', hent'⟩

theorem active_congr {a : Word} (h : entries B m' = entries B m) :
    Active B m' a ↔ Active B m a := by
  unfold Active
  rw [h]

/-- **Without a breakpoint at `b`, inserting one, running and removing it changes nothing.** -/
theorem sameBreakpoints_of_not_active {pc : Word} (hok : TableOk B m) (hb : AddressOk B b)
    (hnew : ¬ Active B m b)
    (hkeep : KeepsDebugger B (Device.insertBreakpoint B m b 0#8).1 m₂) :
    SameBreakpoints B m (Device.removeBreakpoint B (enterStop B m₂ pc) b 0#8).1 := by
  rcases insertBreakpoint_cases (m := m) hb.outside 0#8 with ⟨hact, -⟩ | ⟨-, -, he⟩ | ⟨-, hins⟩
  · exact absurd hact hnew
  · -- the table is full, and there is nothing to remove
    rw [he] at hkeep
    obtain ⟨hok', hent⟩ := hkeep.tableOk pc hok
    have hnone : ¬ Active B (enterStop B m₂ pc) b := fun h => hnew ((active_congr hent).mp h)
    rcases removeBreakpoint_cases hb.outside hok'.size 0#8 with ⟨-, hrem⟩ | ⟨-, i, hrem⟩
    · rw [hrem]
      refine ⟨fun a => active_congr hent, fun a ha => ?_⟩
      rw [load32_enterStop ha]
      exact hkeep.bkpt a ha
    · have hlt := hrem.lt_size
      exact absurd ⟨_, mem_entries_iff.mpr ⟨i, hlt, rfl⟩, hrem.address_eq⟩ hnone
  · have hok₁ : TableOk B (Device.insertBreakpoint B m b 0#8).1 := hok.call (.insert b 0#8) hb
    generalize (Device.insertBreakpoint B m b 0#8).1 = m₁ at hkeep hins hok₁
    obtain ⟨hok', hent⟩ := hkeep.tableOk pc hok₁
    have hnew₁ : (entryAt B m₁ (bpSize B m).toNat).address = b := by rw [hins.new]
    have hlt₁ : (bpSize B m).toNat < (bpSize B m₁).toNat := by
      rw [hins.size]
      exact Nat.lt_succ_self _
    -- the slot of the step is found again
    have hsize : bpSize B (enterStop B m₂ pc) = bpSize B m₁ :=
      bpSize_enterStop.trans (bpSize_congr hkeep.object)
    have hentry : entryAt B (enterStop B m₂ pc) (bpSize B m).toNat =
        entryAt B m₁ (bpSize B m).toNat :=
      (entryAt_enterStop hins.room).trans (entryAt_congr hkeep.object hins.room)
    have hfound : getBreakpoint B (enterStop B m₂ pc) b = some (bpSize B m).toNat :=
      hok'.tracks.getBreakpoint_of_address (by rw [hsize]; exact hlt₁)
        (by rw [hentry]; exact hnew₁)
    obtain ⟨-, hrem⟩ := removed_of_getBreakpoint (t := 0#8) hb.outside hok'.size hfound
    refine ⟨fun a => ?_, fun a ha => ?_⟩
    · rw [hok'.tracks.active_removed hrem, active_congr hent, active_inserted hins]
      constructor
      · rintro ⟨rfl | hact, hne⟩
        · exact absurd rfl hne
        · exact hact
      · intro hact
        exact ⟨Or.inr hact, fun hab => hnew (hab ▸ hact)⟩
    · by_cases hab : a = b
      · subst hab
        rw [hrem.restored, hentry, hins.new]
      · have hap : Apart a 4 b 4 := apart_of_aligned ha.1 hb.1 hab
        rw [hrem.load32_eq ha.outside hap, load32_enterStop ha, hkeep.bkpt a ha,
          hins.load32_eq ha.outside hap]

/-- **With a breakpoint at `b`, the step removes it.** -/
theorem not_active_of_active {pc : Word} (hok : TableOk B m) (hb : AddressOk B b)
    (hact : Active B m b)
    (hkeep : KeepsDebugger B (Device.insertBreakpoint B m b 0#8).1 m₂) :
    ¬ Active B (Device.removeBreakpoint B (enterStop B m₂ pc) b 0#8).1 b := by
  rcases insertBreakpoint_cases (m := m) hb.outside 0#8 with ⟨-, he⟩ | ⟨hno, -⟩ | ⟨-, hins⟩
  · rw [he] at hkeep
    obtain ⟨hok', hent⟩ := hkeep.tableOk pc hok
    rcases removeBreakpoint_cases hb.outside hok'.size 0#8 with ⟨hno, -⟩ | ⟨-, i, hrem⟩
    · exact absurd ((active_congr hent).mpr hact) hno
    · rw [hok'.tracks.active_removed hrem]
      exact fun h => h.2 rfl
  · exact absurd hact hno
  · exact absurd hact hins.inactive

/-- **A single step leaves the breakpoints as it found them iff there is none at the address after
the `pc` that the proxy knows.** A full table does no harm: then nothing is inserted or removed. -/
theorem step_sameBreakpoints_iff (H : HbootClient) (B : Board) (exec : Exec) (fuel : ℕ)
    (r : ArmRegisters) (d d' : Dev) (s : Stepped) (hok : TableOk B d.mem)
    (hb : AddressOk B (r.gpr 15 + 4#32))
    (hexec : LeavesDebugger B exec fuel d (r.gpr 15 + 4#32))
    (h : handleStep H B exec fuel r d = some (d', s)) :
    SameBreakpoints B d.mem d'.mem ↔ ¬ Active B d.mem (r.gpr 15 + 4#32) := by
  obtain ⟨m₂, pc, hkeep, hmem⟩ := handleStep_cases hexec h
  rw [hmem]
  constructor
  · intro hsame hact
    exact not_active_of_active hok hb hact hkeep ((hsame.1 _).mpr hact)
  · intro hnew
    exact sameBreakpoints_of_not_active hok hb hnew hkeep

/-! ## Examples -/

theorem leavesDebugger_nop (B : Board) (fuel : ℕ) (d : Dev) (b : Word) :
    LeavesDebugger B nop fuel d b :=
  fun _ _ _ _ _ hrun =>
    runToBkpt_invariant (fun w c m hm => (nop_memory w c m).symm ▸ hm) (.refl B _) hrun

/-- The registers of a stop at `0x8D001000`. -/
def cachedSample : ArmRegisters := ⟨0#32, fun _ => 0x8D001000#32⟩

/-- `nopSample`, with a second breakpoint at the next instruction. -/
def adjacentSample : Dev :=
  { nopSample with mem := applyOp Board.sample nopSample.mem (.insert 0x8D001004#32 0#8) }

theorem reachable_adjacentSample : Reachable Board.sample adjacentSample.mem := by
  dsimp only [adjacentSample]
  exact .call reachable_nopSample _ (by decide)

/-- Stepping onto a breakpoint of the user removes it. -/
theorem step_removes_user :
    ∃ d' s, handleStep .sample Board.sample nop 4 cachedSample
        (enter Board.sample adjacentSample contextSample) = some (d', s) ∧
      ¬ SameBreakpoints Board.sample (enter Board.sample adjacentSample contextSample).mem
        d'.mem := by
  have hstop : AtStop Board.sample (enter Board.sample adjacentSample contextSample) contextSample :=
    atStop_enter reachable_adjacentSample
  have hact : Active Board.sample (enter Board.sample adjacentSample contextSample).mem
      0x8D001004#32 := by decide +kernel
  have hends : (handleStep .sample Board.sample nop 4 cachedSample
      (enter Board.sample adjacentSample contextSample)).isSome = true := by decide +kernel
  obtain ⟨⟨d', s⟩, h⟩ := Option.isSome_iff_exists.mp hends
  obtain ⟨m₂, pc, hkeep, hmem⟩ := handleStep_cases (leavesDebugger_nop _ _ _ _) h
  refine ⟨d', s, h, fun hsame => ?_⟩
  rw [hmem] at hsame
  exact not_active_of_active hstop.reachable.tableOk (by decide) hact hkeep ((hsame.1 _).mpr hact)

/-- Without the second breakpoint, the step leaves everything as it was. -/
theorem step_sameBreakpoints_sample :
    ∃ d' s, handleStep .sample Board.sample nop 4 cachedSample
        (enter Board.sample nopSample contextSample) = some (d', s) ∧
      SameBreakpoints Board.sample (enter Board.sample nopSample contextSample).mem d'.mem := by
  have hends : (handleStep .sample Board.sample nop 4 cachedSample
      (enter Board.sample nopSample contextSample)).isSome = true := by decide +kernel
  have hstop : AtStop Board.sample (enter Board.sample nopSample contextSample) contextSample :=
    atStop_enter reachable_nopSample
  obtain ⟨⟨d', s⟩, h⟩ := Option.isSome_iff_exists.mp hends
  exact ⟨d', s, h, (step_sameBreakpoints_iff .sample Board.sample nop 4 cachedSample _ d' s
    hstop.reachable.tableOk (by decide) (leavesDebugger_nop _ _ _ _) h).mpr (by decide +kernel)⟩

end Hbootdbg.Gdb
