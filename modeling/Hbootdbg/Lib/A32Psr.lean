import Hbootdbg.Lib.A32Cpu

/-!
# A32 code that changes the mode by the status register

The instructions of `A32Cpu`, and those that read the current status register and compute another
one of it.

* `PsrInstr`, `exec`, `execAll` — the instructions, one of them, and several.
* `merge_back` — what `mrs` has read, `msr` puts back, whatever was there in between.
* `modeOf_replaced` — a status register with the mode bits replaced.
-/

namespace Hbootdbg.Lib.A32Psr

open Hbootdbg.Lib.A32Cpu

/-- The instructions, in the assembler's spelling. -/
inductive PsrInstr where
  /-- An instruction that does not read the current status register. -/
  | other (i : Instr)
  /-- `mrs rd, cpsr`. -/
  | mrsCpsr (rd : Reg)
  /-- `bic rd, rn, #imm`. -/
  | bic (rd rn : Reg) (imm : BitVec 32)
  /-- `orr rd, rn`. -/
  | orr (rd rn : Reg)
  deriving DecidableEq

/-- The bits that `mrs` reads: all but those of the execution state. -/
def visibleMask : BitVec 32 := 0xF8FF03DF#32

/-- The effect of an instruction in a mode. -/
def effect (M : Mode) (c : Cpu) : PsrInstr → Option Cpu
  | .other i => A32Cpu.effect M c i
  | .mrsCpsr rd =>
      some
        { c with
          regs := Function.update c.regs (phys M rd) (c.cpsr &&& visibleMask)
          pc := c.pc + 4#32 }
  | .bic rd rn imm =>
      some
        { c with
          regs := Function.update c.regs (phys M rd) (c.regs (phys M rn) &&& ~~~imm)
          pc := c.pc + 4#32 }
  | .orr rd rn =>
      some
        { c with
          regs := Function.update c.regs (phys M rd) (c.regs (phys M rd) ||| c.regs (phys M rn))
          pc := c.pc + 4#32 }

/-- One instruction. -/
def exec (i : PsrInstr) (c : Cpu) : Option Cpu := (modeOf c.cpsr).bind fun M => effect M c i

/-- Instructions one after the other. -/
def execAll : List PsrInstr → Cpu → Option Cpu
  | [], c => some c
  | i :: is, c => (exec i c).bind (execAll is)

variable {psr v mask vis : BitVec 32} {code code' : List PsrInstr} {c c' : Cpu}

theorem execAll_append (h : execAll code c = some c') :
    execAll (code ++ code') c = execAll code' c' := by
  induction code generalizing c with
  | nil => rw [Option.some.inj h, List.nil_append]
  | cons i is ih =>
      obtain ⟨d, hd, h⟩ := Option.bind_eq_some_iff.mp h
      rw [List.cons_append, execAll, hd, Option.bind_some, ih h]

/-- **What was read is put back**, if all bits that are written have been read. -/
theorem merge_back (h : mask &&& vis = mask) :
    merge (merge psr v mask) (psr &&& vis) mask = psr := by
  refine BitVec.eq_of_getLsbD_eq fun i _ => ?_
  rw [getLsbD_merge, getLsbD_merge]
  cases hm : mask.getLsbD i with
  | false => rfl
  | true =>
      have hv : vis.getLsbD i = true := by
        rw [← h, BitVec.getLsbD_and, Bool.and_eq_true] at hm
        exact hm.2
      simp [hv]

/-- A status register whose mode bits are cleared and set has the new mode. -/
theorem modeOf_replaced (h : mask.setWidth 5 = 0b11111#5) :
    modeOf ((psr &&& ~~~mask) ||| v) = modeOf v := by
  have hlow : ((psr &&& ~~~mask) ||| v).setWidth 5 = v.setWidth 5 := by
    rw [BitVec.setWidth_or, BitVec.setWidth_and, BitVec.setWidth_not (by decide), h]
    generalize psr.setWidth 5 = x
    generalize v.setWidth 5 = y
    revert x y
    decide
  unfold modeOf
  rw [hlow]

end Hbootdbg.Lib.A32Psr
