import Hbootdbg.Device.Int
import Hbootdbg.Lib.A32Psr

/-!
# `cpu.c`: the stack pointer of another mode

* `cpuSetModeStackCode` — the routine, with its arguments where the calling convention puts them.
* `execAll_switched`, `execAll_switchedBack` — the two halves: in the wanted mode, and back.
* `cpuSetModeStack_spec` — the whole routine.
-/

namespace Hbootdbg.Device.Int

open Hbootdbg.Lib.ByteMem Hbootdbg.Lib.WordBlock Hbootdbg.Lib.A32Cpu Hbootdbg.Lib.A32Psr
open Function (update)

/-- `cpu_set_mode_stack (mode, addr)`, with `mode` in `r0` and `addr` in `r1`.
Source: `cpu.c` `cpu_set_mode_stack` -/
def cpuSetModeStackCode : List PsrInstr :=
  [.other (.stm [.r 3, .r 4, .lr] false),
    .mrsCpsr (.r 3),
    .bic (.r 4) (.r 3) 0x1F#32,
    .orr (.r 4) (.r 0),
    .other (.msr (.r 4)),
    .other (.mov .sp (.r 1)),
    .other (.msr (.r 3)),
    .other (.ldm [.r 3, .r 4] true)]

/-- What is pushed: `r3`, `r4` and the return address. -/
def pushed (c : Cpu) (M : Mode) : List Word :=
  [c.regs (.gpr false 3), c.regs (.gpr false 4), c.regs (.lr M)]

/-- The status register with the wanted mode. -/
def wanted (c : Cpu) : Word :=
  ((c.cpsr &&& visibleMask) &&& ~~~0x1F#32) ||| c.regs (.gpr false 0)

/-- In the wanted mode, with the old status register in `r3`. -/
def switched (c : Cpu) (M : Mode) : Cpu :=
  { c with
    regs := update (update (update c.regs (.sp M) (down (c.regs (.sp M)) 12)) (.gpr false 3)
      (c.cpsr &&& visibleMask)) (.gpr false 4) (wanted c)
    cpsr := merge c.cpsr (wanted c) (flagsMask ||| controlMask)
    pc := c.pc + 20#32
    mem := storeWords c.mem (down (c.regs (.sp M)) 12) (pushed c M) }

variable {c : Cpu} {M N : Mode}

/-- The part of `cpu_set_mode_stack` up to the other mode. -/
theorem execAll_switched (hM : modeOf c.cpsr = some M) (hs : (c.regs (.sp M)).toNat % 4 = 0) :
    execAll
      [.other (.stm [.r 3, .r 4, .lr] false), .mrsCpsr (.r 3), .bic (.r 4) (.r 3) 0x1F#32,
        .orr (.r 4) (.r 0), .other (.msr (.r 4))] c = some (switched c M) := by
  simp [Lib.A32Psr.execAll, Lib.A32Psr.exec, Lib.A32Psr.effect, Lib.A32Cpu.effect, hM, hs, phys,
    switched, pushed, wanted, BitVec.add_assoc]

/-- The stack pointer of the wanted mode, and back in the mode of the caller. -/
def switchedBack (c : Cpu) (M N : Mode) : Cpu :=
  { switched c M with
    regs := update (switched c M).regs (.sp N) (c.regs (.gpr false 1))
    cpsr := c.cpsr
    pc := c.pc + 28#32 }

/-- The part of `cpu_set_mode_stack` in the other mode, and the way back. -/
theorem execAll_switchedBack (hN : modeOf (c.regs (.gpr false 0)) = some N) :
    execAll [.other (.mov .sp (.r 1)), .other (.msr (.r 3))] (switched c M) =
      some (switchedBack c M N) := by
  have hmode : modeOf (switched c M).cpsr = some N := by
    have hswitched : (switched c M).cpsr = merge c.cpsr (wanted c) (flagsMask ||| controlMask) := rfl
    rw [← hN, hswitched, modeOf_merge (by decide)]
    exact modeOf_replaced (by decide)
  have hcpsr : merge (switched c M).cpsr (c.cpsr &&& visibleMask)
      (flagsMask ||| controlMask) = c.cpsr :=
    merge_back (by decide)
  have h1 : (switched c M).regs (.gpr false 1) = c.regs (.gpr false 1) := rfl
  have h3 : (switched c M).regs (.gpr false 3) = c.cpsr &&& visibleMask := rfl
  have hpc : (switched c M).pc = c.pc + 20#32 := rfl
  generalize hs : switched c M = s at hmode hcpsr h1 h3 hpc ⊢
  simp [Lib.A32Psr.execAll, Lib.A32Psr.exec, Lib.A32Psr.effect, Lib.A32Cpu.effect, hmode, phys, h1,
    h3, hpc, hcpsr, switchedBack, hs, BitVec.add_assoc]

/-- **`cpu_set_mode_stack` sets the stack pointer of the wanted mode and nothing else**, but for
three words below the stack pointer of the caller, who must be in another mode. -/
theorem cpuSetModeStack_spec (hM : modeOf c.cpsr = some M)
    (hN : modeOf (c.regs (.gpr false 0)) = some N) (hne : N ≠ M)
    (hs : (c.regs (.sp M)).toNat % 4 = 0) (hlr : (c.regs (.lr M)).toNat % 4 = 0) :
    execAll cpuSetModeStackCode c = some
      { c with
        regs := update c.regs (.sp N) (c.regs (.gpr false 1))
        pc := c.regs (.lr M)
        mem := storeWords c.mem (down (c.regs (.sp M)) 12) (pushed c M) } := by
  have hsplit : cpuSetModeStackCode =
      [.other (.stm [.r 3, .r 4, .lr] false), .mrsCpsr (.r 3), .bic (.r 4) (.r 3) 0x1F#32,
          .orr (.r 4) (.r 0), .other (.msr (.r 4))] ++
        ([.other (.mov .sp (.r 1)), .other (.msr (.r 3))] ++ [.other (.ldm [.r 3, .r 4] true)]) :=
    rfl
  rw [hsplit, execAll_append (execAll_switched hM hs), execAll_append (execAll_switchedBack hN)]
  -- the frame is where the caller's stack pointer is
  have hsp : (switchedBack c M N).regs (.sp M) = down (c.regs (.sp M)) 12 := by
    simp [switchedBack, switched, hne.symm]
  have hmem : (switchedBack c M N).mem =
      storeWords c.mem (down (c.regs (.sp M)) 12) (pushed c M) := rfl
  have hword : ∀ i < 3, load32 (storeWords c.mem (down (c.regs (.sp M)) 12) (pushed c M))
      (off (down (c.regs (.sp M)) 12) (4 * i)) = (pushed c M).getD i 0#32 := fun i hi =>
    load32_storeWords (by decide) hi (show 4 * 3 ≤ 2 ^ 32 by decide)
  have hload : loadWords (storeWords c.mem (down (c.regs (.sp M)) 12) (pushed c M))
      (down (c.regs (.sp M)) 12) 2 = [c.regs (.gpr false 3), c.regs (.gpr false 4)] :=
    congrArg₂ (fun x y => [x, y]) (hword 0 (by decide)) (hword 1 (by decide))
  have hret : load32 (storeWords c.mem (down (c.regs (.sp M)) 12) (pushed c M))
      (off (down (c.regs (.sp M)) 12) 8) = c.regs (.lr M) := hword 2 (by decide)
  have hpopped : update (update (update (switchedBack c M N).regs (.gpr false 4)
      (c.regs (.gpr false 4))) (.gpr false 3) (c.regs (.gpr false 3))) (.sp M) (c.regs (.sp M)) =
      update c.regs (.sp N) (c.regs (.gpr false 1)) := by
    funext x
    by_cases hM : x = .sp M
    · simp [hM, hne.symm]
    · simp only [switchedBack, switched, Function.update_apply, if_neg hM]
      grind
  have haligned : (down (c.regs (.sp M)) 12).toNat % 4 = 0 := by
    unfold down
    bv_omega
  have hstatus : (switchedBack c M N).cpsr = c.cpsr ∧ (switchedBack c M N).spsr = c.spsr :=
    ⟨rfl, rfl⟩
  simp [Lib.A32Psr.execAll, Lib.A32Psr.exec, Lib.A32Psr.effect, Lib.A32Cpu.effect, hM, hsp, hmem,
    haligned, hload, hret, hlr, assign, phys, hpopped, hstatus]

end Hbootdbg.Device.Int
