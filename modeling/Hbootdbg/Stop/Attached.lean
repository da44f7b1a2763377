import Hbootdbg.Device.Cpu
import Hbootdbg.Stop.SavedContext

/-!
# After an attach, breakpoints reach the debugger

`cmd_attach` writes a branch into the exception vector and sets the stack pointer of the abort mode.
From then on, a breakpoint instruction is a call of `dbg_event_handler`, however many stops there
have been.

* `SetsAbortStack` — the call of `cpu_set_mode_stack` in `int_install_exception_handlers`.
* `Attached` — what it leaves; `Attached.of_call` says so.
* `Stoppable`, `Vectored`, `vectorStep` — a program that can be stopped, the prefetch abort that a
  breakpoint instruction takes, and the instruction in the vector.
* `Attached.aborted` — the vector leads to the handler; `attach_arms` — over runs.
-/

namespace Hbootdbg.Stop.SavedContext

open Hbootdbg.Lib.ByteMem Hbootdbg.Lib.WordBlock Hbootdbg.Lib.A32Cpu Hbootdbg.Lib.A32Branch
open Hbootdbg.Device Hbootdbg.Device.Int
open Function (update)

/-! ## The attach -/

/-- `offsetof (interrupt_vector_table, prefetch_abort)`. Source: `int.h` `interrupt_vector_table` -/
def prefetchAbortVector : Word := 12#32

/-- `0x8d0e0000`. Source: `int.c` `int_install_exception_handlers` -/
def abortStack : Word := 0x8D0E0000#32

/-- `ARM_MODE_ABORT`. Source: `cpu.h` -/
def armModeAbort : Word := 0x17#32

/-- `cpu_set_mode_stack (ARM_MODE_ABORT, 0x8d0e0000)` is called, from a privileged mode other than
abort, with the branch in the vector, and with the vector not on the stack. -/
structure SetsAbortStack (B : Board) (c : Cpu) (M : Mode) : Prop where
  mode : modeOf c.cpsr = some M
  ne_abt : M ≠ .abt
  first : c.regs (.gpr false 0) = armModeAbort
  second : c.regs (.gpr false 1) = abortStack
  sp_aligned : (c.regs (.sp M)).toNat % 4 = 0
  lr_aligned : (c.regs (.lr M)).toNat % 4 = 0
  vector : ∃ m, load32 c.mem prefetchAbortVector =
    load32 (intInstallExceptionHandlers B m) prefetchAbortVector
  apart : Apart prefetchAbortVector 4 (down (c.regs (.sp M)) 12) 12

/-- The vector branches to the handler, and the abort mode has its stack. -/
structure Attached (B : Board) (m : Cpu) : Prop where
  stack : m.regs (.sp .abt) = abortStack
  vector : load32 m.mem prefetchAbortVector =
    cpuGetBranch prefetchAbortVector (B.prefetchAbortHandler &&& 0xffffff#32)

variable {B : Board} {R : Routines} {c m e : Cpu} {M : Mode}

/-- **The call sets up the abort mode**, and leaves the other registers alone. -/
theorem Attached.of_call (h : SetsAbortStack B c M) :
    ∃ c', Lib.A32Psr.execAll cpuSetModeStackCode c = some c' ∧ Attached B c' ∧
      c'.pc = c.regs (.lr M) ∧ c'.cpsr = c.cpsr ∧ (∀ x, x ≠ .sp .abt → c'.regs x = c.regs x) ∧
      ∀ a, ¬ InSpan (down (c.regs (.sp M)) 12) 12 a → c'.mem a = c.mem a := by
  have habt : modeOf (c.regs (.gpr false 0)) = some .abt := by
    rw [h.first]
    decide
  have hkeep : ∀ a, ¬ InSpan (down (c.regs (.sp M)) 12) 12 a →
      storeWords c.mem (down (c.regs (.sp M)) 12) (pushed c M) a = c.mem a := fun a ha =>
    storeWords_of_not_inSpan ha
  refine ⟨_, cpuSetModeStack_spec h.mode habt h.ne_abt.symm h.sp_aligned h.lr_aligned, ⟨?_, ?_⟩,
    rfl, rfl, fun x hx => Function.update_of_ne hx _ _, hkeep⟩
  · rw [← h.second]
    exact Function.update_self (Phys.sp .abt) _ c.regs
  · obtain ⟨m, hm⟩ := h.vector
    refine (load32_congr (by decide) fun a ha => hkeep a (h.apart.not_inSpan ha)).trans ?_
    rw [hm]
    exact load32_store32 _ _ _ (by decide)

/-! ## The abort -/

/-- A program in ARM state, in a privileged mode other than abort, whose frame is not where the
abort stack is in use. -/
structure Stoppable (m : Cpu) (M : Mode) : Prop where
  mode : modeOf m.cpsr = some M
  ne_abt : M ≠ .abt
  arm : IsArm m.cpsr
  sp_aligned : (m.regs (.sp M)).toNat % 4 = 0
  apart : Apart (frameAddr m M) 68 (down abortStack 12) 12

/-- The prefetch abort at `m.pc` has been taken. -/
structure Vectored (m e : Cpu) : Prop where
  pc : e.pc = prefetchAbortVector
  mode : modeOf e.cpsr = some .abt
  regs : e.regs = update m.regs (.lr .abt) (m.pc + 4#32)
  spsr : e.spsr .abt = m.cpsr
  mem : e.mem = m.mem

/-- The branch at `e.pc`. -/
def vectorStep (e : Cpu) : Option Cpu :=
  (branchTarget e.pc (load32 e.mem e.pc)).map fun t => { e with pc := t }

/-- The 24 bits of the handler are in reach of the vector. -/
theorem branchTarget_vector {a : Word} (ha : (a &&& 0xffffff#32).toNat % 4 = 0) :
    branchTarget prefetchAbortVector (cpuGetBranch prefetchAbortVector (a &&& 0xffffff#32)) =
      some (a &&& 0xffffff#32) := by
  have hlt : (a &&& 0xffffff#32).toNat < 2 ^ 24 := by
    rw [BitVec.toNat_and]
    exact Nat.and_lt_two_pow _ (show 0xffffff < 2 ^ 24 by decide)
  generalize a &&& 0xffffff#32 = t at ha hlt ⊢
  refine branchTarget_cpuGetBranch (by decide) ha ?_
  have hdiff : (t - 12#32 - 8#32).toNat = (t.toNat + (2 ^ 32 - 20)) % 2 ^ 32 := by bv_omega
  unfold InReach prefetchAbortVector
  rw [BitVec.toInt_eq_toNat_cond, hdiff]
  split_ifs <;> omega

/-- **The vector leads to the handler.** -/
theorem Attached.aborted (h : Attached B m)
    (hR : R.prefetchAbortHandler = B.prefetchAbortHandler &&& 0xffffff#32) (hv : Vectored m e) :
    ∃ e', vectorStep e = some e' ∧ Aborted R m e' := by
  have htarget : branchTarget e.pc (load32 e.mem e.pc) = some R.prefetchAbortHandler := by
    rw [hv.pc, hv.mem, h.vector, hR]
    exact branchTarget_vector (hR ▸ R.aligned)
  refine ⟨{ e with pc := R.prefetchAbortHandler }, ?_, rfl, hv.mode, hv.regs, hv.spsr, hv.mem⟩
  unfold vectorStep
  rw [htarget, Option.map_some]

/-- With the abort stack in place, the program can be interrupted. -/
theorem Attached.interrupted (h : Attached B m) (hm : Stoppable m M) : Interrupted m M := by
  have hscratch : scratchAddr m = down abortStack 12 := by
    unfold scratchAddr
    rw [h.stack]
  refine ⟨hm.mode, hm.ne_abt, hm.arm, hm.sp_aligned, ?_, ?_⟩
  · rw [h.stack]
    decide
  · rw [hscratch]
    exact hm.apart

/-! ## Runs -/

/-- **After an attach, every breakpoint is a call of the debugger.** Over any run of the program
with any number of stops in it, as long as its own steps add nothing to the stack pointer of the
abort mode, the vector keeps its branch and the handler is where that leads: where the program can
be stopped, a prefetch abort calls `dbg_event_handler` on the program's stack, with the program's
context; below `0x8d0e0000`, only the same three words are ever used. -/
theorem attach_arms (B : Board) (R : Routines) (own : Cpu → Cpu → Prop) (c : Cpu) (M : Mode)
    (hR : R.prefetchAbortHandler = B.prefetchAbortHandler &&& 0xffffff#32)
    (hcall : SetsAbortStack B c M) :
    ∃ c', Lib.A32Psr.execAll cpuSetModeStackCode c = some c' ∧
      (c'.pc = c.regs (.lr M) ∧ c'.cpsr = c.cpsr ∧ (∀ x, x ≠ .sp .abt → c'.regs x = c.regs x) ∧
        ∀ a, ¬ InSpan (down (c.regs (.sp M)) 12) 12 a → c'.mem a = c.mem a) ∧
      ∀ m N e, Run R own (.sp .abt) c' 0#32 m →
        load32 m.mem prefetchAbortVector = load32 c'.mem prefetchAbortVector → Stoppable m N →
        Vectored m e →
        ∃ e' s, vectorStep e = some e' ∧ run R.fetch 23 e' = some s ∧ Called R m N s ∧
          ∀ a, ¬ InSpan (frameAddr m N) 68 a → ¬ InSpan (down abortStack 12) 12 a →
            s.mem a = m.mem a := by
  obtain ⟨c', hc', hatt, hpc, hcpsr, hregs, hmem⟩ := Attached.of_call hcall
  refine ⟨c', hc', ⟨hpc, hcpsr, hregs, hmem⟩, fun m N e hrun hvector hm hv => ?_⟩
  have hattm : Attached B m := by
    refine ⟨?_, hvector.trans hatt.vector⟩
    rw [regs_of_run hrun (by decide), hatt.stack, BitVec.add_zero]
  have hint := hattm.interrupted hm
  obtain ⟨e', he', hab⟩ := hattm.aborted hR hv
  have hcalled : Called R m N (calling R m N e') := called_calling hint hab
  refine ⟨e', _, he', run_calling hint hab, hcalled, fun a hframe hscratch => ?_⟩
  refine hcalled.mem a hframe ?_
  unfold scratchAddr
  rwa [hattm.stack]

/-! ## Examples -/

/-- The routines of the sample board, one after the other from the handler on, as the vector
reaches them. -/
def vectorRoutines : Routines where
  fetch a :=
    if (a - 0xE2400#32).toNat % 4 = 0 then
      (prefetchAbortHandlerCode 0xE2418#32 0xE2500#32 0xE2460#32 ++ saveContextCode ++
        restoreContextCode)[(a - 0xE2400#32).toNat / 4]?
    else none
  prefetchAbortHandler := 0xE2400#32
  saveContext := 0xE2418#32
  restoreContext := 0xE2460#32
  dbgEventHandler := 0xE2500#32
  aligned := by decide
  handler_at := by decide
  save_at := by decide
  restore_at := by decide

/-- The bootloader in supervisor mode, at the call of `cpu_set_mode_stack`. -/
def attachSample : Cpu where
  regs x :=
    if x = .sp .svc then 0x8D0DFF00#32
    else if x = .lr .svc then 0x8D0E2300#32
    else if x = .gpr false 0 then armModeAbort
    else if x = .gpr false 1 then abortStack
    else 0#32
  spsr _ := 0#32
  pc := 0x8D0E2800#32
  cpsr := 0x13#32
  mem := intInstallExceptionHandlers Board.sample fun _ => 0#8

/-- The prefetch abort is taken. -/
def vectored (m : Cpu) : Cpu :=
  { m with
    regs := update m.regs (.lr .abt) (m.pc + 4#32)
    spsr := update m.spsr .abt m.cpsr
    cpsr := abortMode
    pc := prefetchAbortVector }

theorem vectored_spec (m : Cpu) : Vectored m (vectored m) where
  pc := rfl
  mode := (by decide : modeOf abortMode = some .abt)
  regs := rfl
  spsr := by simp [vectored]
  mem := rfl

theorem setsAbortStack_sample : SetsAbortStack Board.sample attachSample .svc where
  mode := by decide
  ne_abt := by decide
  first := rfl
  second := rfl
  sp_aligned := by decide
  lr_aligned := by decide
  vector := ⟨fun _ => 0#8, rfl⟩
  apart := by decide

/-- A breakpoint right after the attach. -/
theorem attach_arms_sample :
    ∃ c', Lib.A32Psr.execAll cpuSetModeStackCode attachSample = some c' ∧
      ∃ e' s, vectorStep (vectored c') = some e' ∧ run vectorRoutines.fetch 23 e' = some s ∧
        Called vectorRoutines c' .svc s := by
  obtain ⟨c', hc', ⟨-, hcpsr, hregs, -⟩, harms⟩ :=
    attach_arms Board.sample vectorRoutines (fun _ _ => False) attachSample .svc (by decide)
      setsAbortStack_sample
  have hsp : c'.regs (.sp .svc) = 0x8D0DFF00#32 := hregs _ (by decide)
  have hstop : Stoppable c' .svc := by
    refine ⟨by rw [hcpsr]; decide, by decide, by rw [hcpsr]; decide, by rw [hsp]; decide, ?_⟩
    unfold frameAddr
    rw [hsp]
    decide
  obtain ⟨e', s, he', hs, hcalled, -⟩ :=
    harms c' .svc (vectored c') .start rfl hstop (vectored_spec c')
  exact ⟨c', hc', e', s, he', hs, hcalled⟩

end Hbootdbg.Stop.SavedContext
