import Hbootdbg.Lib.WordBlock

/-!
# A32 code in the privileged modes

Enough of the ARMv7-A processor for routines that move between modes: banked registers, the status
registers, blocks pushed to and popped from full descending stacks, branches, and the return from
an exception. No interrupt is taken, and the code is not part of the memory.

* `Mode`, `modeOf` — the privileged modes, and the mode in a status register.
* `Phys`, `phys` — the registers there are, and the one that a name means in a mode.
* `exec` — one instruction; `none` is a fault, or what the architecture leaves open.
* `run fetch n` — `n` instructions, fetched by address.
* `run_of_at` — code without branches, once it is in place, is run from its first instruction to
  its last.
-/

namespace Hbootdbg.Lib.A32Cpu

open Hbootdbg.Lib.ByteMem Hbootdbg.Lib.WordBlock

/-! ## Modes and registers -/

/-- The privileged modes. -/
inductive Mode where
  | fiq | irq | svc | mon | abt | und | sys
  deriving DecidableEq

/-- The encoding of a mode. -/
def Mode.bits : Mode → BitVec 5
  | fiq => 0b10001#5
  | irq => 0b10010#5
  | svc => 0b10011#5
  | mon => 0b10110#5
  | abt => 0b10111#5
  | und => 0b11011#5
  | sys => 0b11111#5

/-- The mode in a status register, when it is a privileged one. -/
def modeOf (psr : BitVec 32) : Option Mode :=
  [.fiq, .irq, .svc, .mon, .abt, .und, .sys].find? fun M => M.bits = psr.setWidth 5

/-- The status register of ARM state, not of Thumb or Jazelle. -/
def IsArm (psr : BitVec 32) : Prop := psr.getLsbD 5 = false ∧ psr.getLsbD 24 = false

instance (psr : BitVec 32) : Decidable (IsArm psr) := inferInstanceAs (Decidable (_ ∧ _))

instance neZeroThirteen : NeZero 13 := ⟨by decide⟩

/-- The names of the registers other than `pc`. -/
inductive Reg where
  | r (i : Fin 13)
  | sp
  | lr
  deriving DecidableEq

/-- The registers there are. The system mode has the stack pointer and the link register of the
user mode; `gpr true` are the registers that only the FIQ mode sees. -/
inductive Phys where
  | gpr (fiq : Bool) (i : Fin 13)
  | sp (M : Mode)
  | lr (M : Mode)
  deriving DecidableEq

/-- The register that a name means in a mode. -/
def phys (M : Mode) : Reg → Phys
  | .r i => .gpr (decide (M = .fiq ∧ 8 ≤ i.val)) i
  | .sp => .sp M
  | .lr => .lr M

/-- The state of the processor, and the memory. -/
structure Cpu where
  /-- The registers other than `pc`. -/
  regs : Phys → BitVec 32
  /-- The saved status registers. -/
  spsr : Mode → BitVec 32
  /-- The address of the next instruction. -/
  pc : BitVec 32
  /-- The status register. -/
  cpsr : BitVec 32
  /-- The memory. -/
  mem : Mem 32

/-! ## Instructions -/

/-- The instructions, in the assembler's spelling. -/
inductive Instr where
  /-- `stmfd sp!, {regs}`, with `pc` or without. -/
  | stm (regs : List Reg) (pc : Bool)
  /-- `ldmfd sp!, {regs}`, with `pc` or without. -/
  | ldm (regs : List Reg) (pc : Bool)
  /-- `sub rd, rn, #imm`. -/
  | sub (rd rn : Reg) (imm : BitVec 32)
  /-- `mov rd, rn`. -/
  | mov (rd rn : Reg)
  /-- `mov rd, #imm`. -/
  | movImm (rd : Reg) (imm : BitVec 32)
  /-- `mrs rd, spsr`. -/
  | mrs (rd : Reg)
  /-- `msr cpsr_c, rn`. -/
  | msrC (rn : Reg)
  /-- `msr cpsr_c, #imm`. -/
  | msrCImm (imm : BitVec 32)
  /-- `msr cpsr, rn`, which is `cpsr_fc`. -/
  | msr (rn : Reg)
  /-- `subs pc, lr, #imm`: the return from an exception. -/
  | subsPc (imm : BitVec 32)
  /-- `b target`. -/
  | b (target : BitVec 32)
  /-- `bl target`. -/
  | bl (target : BitVec 32)
  deriving DecidableEq

/-- The bits that `msr` writes of the control field: all but the Thumb bit. -/
def controlMask : BitVec 32 := 0xDF#32

/-- The bits that `msr` writes of the flags field: `N`, `Z`, `C`, `V` and `Q`. -/
def flagsMask : BitVec 32 := 0xF8000000#32

/-- A status register with some bits replaced. -/
def merge (psr v mask : BitVec 32) : BitVec 32 := (psr &&& ~~~mask) ||| (v &&& mask)

/-- Registers assigned from a list of words. -/
def assign (regs : Phys → BitVec 32) : List Phys → List (BitVec 32) → Phys → BitVec 32
  | x :: xs, v :: vs => Function.update (assign regs xs vs) x v
  | _, _ => regs

/-- The effect of an instruction in a mode. A block is transferred to word-aligned addresses only,
and a jump goes to a word-aligned address only. -/
def effect (M : Mode) (c : Cpu) : Instr → Option Cpu
  | .stm regs pc =>
      let vs := regs.map (fun x => c.regs (phys M x)) ++ if pc then [c.pc + 8#32] else []
      let sp := down (c.regs (.sp M)) (4 * vs.length)
      if (c.regs (.sp M)).toNat % 4 = 0 then
        some
          { c with
            regs := Function.update c.regs (.sp M) sp
            pc := c.pc + 4#32
            mem := storeWords c.mem sp vs }
      else none
  | .ldm regs pc =>
      let sp := c.regs (.sp M)
      let vs := loadWords c.mem sp regs.length
      let loaded := assign c.regs (regs.map (phys M)) vs
      if sp.toNat % 4 = 0 then
        if pc then
          let target := load32 c.mem (off sp (4 * regs.length))
          if target.toNat % 4 = 0 then
            some
              { c with
                regs := Function.update loaded (.sp M) (off sp (4 * (regs.length + 1)))
                pc := target }
          else none
        else
          some
            { c with
              regs := Function.update loaded (.sp M) (off sp (4 * regs.length))
              pc := c.pc + 4#32 }
      else none
  | .sub rd rn imm =>
      some
        { c with
          regs := Function.update c.regs (phys M rd) (c.regs (phys M rn) - imm)
          pc := c.pc + 4#32 }
  | .mov rd rn =>
      some
        { c with
          regs := Function.update c.regs (phys M rd) (c.regs (phys M rn))
          pc := c.pc + 4#32 }
  | .movImm rd imm =>
      some { c with regs := Function.update c.regs (phys M rd) imm, pc := c.pc + 4#32 }
  | .mrs rd =>
      if M = .sys then none
      else
        some { c with regs := Function.update c.regs (phys M rd) (c.spsr M), pc := c.pc + 4#32 }
  | .msrC rn =>
      some { c with cpsr := merge c.cpsr (c.regs (phys M rn)) controlMask, pc := c.pc + 4#32 }
  | .msrCImm imm => some { c with cpsr := merge c.cpsr imm controlMask, pc := c.pc + 4#32 }
  | .msr rn =>
      some
        { c with
          cpsr := merge c.cpsr (c.regs (phys M rn)) (flagsMask ||| controlMask)
          pc := c.pc + 4#32 }
  | .subsPc imm =>
      let target := c.regs (.lr M) - imm
      if M ≠ .sys ∧ IsArm (c.spsr M) ∧ target.toNat % 4 = 0 then
        some { c with pc := target, cpsr := c.spsr M }
      else none
  | .b target => some { c with pc := target }
  | .bl target =>
      some { c with regs := Function.update c.regs (.lr M) (c.pc + 4#32), pc := target }

/-- One instruction. -/
def exec (i : Instr) (c : Cpu) : Option Cpu := (modeOf c.cpsr).bind fun M => effect M c i

/-- Instructions one after the other. -/
def execAll : List Instr → Cpu → Option Cpu
  | [], c => some c
  | i :: is, c => (exec i c).bind (execAll is)

/-- `n` instructions, fetched by address. -/
def run (fetch : BitVec 32 → Option Instr) : ℕ → Cpu → Option Cpu
  | 0, c => some c
  | n + 1, c => (fetch c.pc).bind fun i => (exec i c).bind (run fetch n)

/-! ## Code in place -/

variable {fetch : BitVec 32 → Option Instr} {a : BitVec 32} {c c' c'' : Cpu} {i : Instr}
  {is code code' : List Instr} {n k : ℕ} {M : Mode}

/-- The code is at the address. -/
def At (fetch : BitVec 32 → Option Instr) : BitVec 32 → List Instr → Prop
  | _, [] => True
  | a, i :: is => fetch a = some i ∧ At fetch (a + 4#32) is

instance decidableAt (fetch : BitVec 32 → Option Instr) :
    (a : BitVec 32) → (code : List Instr) → Decidable (At fetch a code)
  | _, [] => isTrue trivial
  | a, i :: is =>
      have := decidableAt fetch (a + 4#32) is
      inferInstanceAs (Decidable (fetch a = some i ∧ At fetch (a + 4#32) is))

/-- Code in two pieces. -/
theorem at_append : At fetch a (code ++ code') ↔
    At fetch a code ∧ At fetch (off a (4 * code.length)) code' := by
  induction code generalizing a with
  | nil => simp [At]
  | cons i is ih =>
      have hoff : off (a + 4#32) (4 * is.length) = off a (4 * (is.length + 1)) := by
        rw [show a + 4#32 = off a 4 from rfl, off_off, Nat.mul_add, Nat.add_comm]
      rw [List.cons_append, At, At, ih, hoff, and_assoc, List.length_cons]

/-- The instruction goes on at the next word. -/
def Instr.straight : Instr → Bool
  | .ldm _ pc => !pc
  | .subsPc _ | .b _ | .bl _ => false
  | _ => true

theorem pc_of_straight (hi : i.straight = true) (h : exec i c = some c') :
    c'.pc = c.pc + 4#32 := by
  unfold exec at h
  obtain ⟨M, -, h⟩ := Option.bind_eq_some_iff.mp h
  cases i with
  | stm regs pc =>
      simp only [effect] at h
      split_ifs at h <;> rw [← Option.some.inj h]
  | ldm regs pc =>
      simp only [Instr.straight, Bool.not_eq_true'] at hi
      subst hi
      simp only [effect, if_neg Bool.false_ne_true] at h
      split_ifs at h
      rw [← Option.some.inj h]
  | mrs rd =>
      simp only [effect] at h
      split_ifs at h
      rw [← Option.some.inj h]
  | subsPc imm => cases hi
  | b target => cases hi
  | bl target => cases hi
  | _ =>
      simp only [effect] at h
      rw [← Option.some.inj h]

/-- **Straight code is run to its last instruction**, which may be a jump. -/
theorem run_of_at (hat : At fetch c.pc code)
    (hstraight : ∀ i ∈ code.dropLast, Instr.straight i = true) :
    run fetch code.length c = execAll code c := by
  induction code generalizing c with
  | nil => rfl
  | cons i is ih =>
      obtain ⟨hfetch, hat⟩ := hat
      simp only [List.length_cons, run, execAll, hfetch, Option.bind_some]
      cases h : exec i c with
      | none => rfl
      | some c' =>
          simp only [Option.bind_some]
          cases is with
          | nil => rfl
          | cons j js =>
              rw [List.dropLast_cons_cons] at hstraight
              apply ih
              · rw [pc_of_straight (hstraight i List.mem_cons_self) h]
                exact hat
              · intro j hj
                exact hstraight j (List.mem_cons_of_mem _ hj)

/-- Runs one after the other. -/
theorem run_add (h : run fetch n c = some c') : run fetch (n + k) c = run fetch k c' := by
  induction n generalizing c with
  | zero =>
      rw [Nat.zero_add]
      rw [← Option.some.inj h]
  | succ n ih =>
      rw [Nat.add_right_comm]
      simp only [run] at h ⊢
      obtain ⟨i, hi, h⟩ := Option.bind_eq_some_iff.mp h
      obtain ⟨d, hd, h⟩ := Option.bind_eq_some_iff.mp h
      rw [hi, Option.bind_some, hd, Option.bind_some, ih h]

theorem execAll_append (h : execAll code c = some c') :
    execAll (code ++ code') c = execAll code' c' := by
  induction code generalizing c with
  | nil => rw [Option.some.inj h, List.nil_append]
  | cons i is ih =>
      obtain ⟨d, hd, h⟩ := Option.bind_eq_some_iff.mp h
      rw [List.cons_append, execAll, hd, Option.bind_some, ih h]

/-! ## Status registers, addresses and assignments -/

/-- The bits of a status register with some bits replaced. -/
theorem getLsbD_merge (psr v mask : BitVec 32) (i : ℕ) :
    (merge psr v mask).getLsbD i = if mask.getLsbD i then v.getLsbD i else psr.getLsbD i := by
  unfold merge
  rw [BitVec.getLsbD_or, BitVec.getLsbD_and, BitVec.getLsbD_and, BitVec.getLsbD_not]
  by_cases hi : i < 32
  · cases mask.getLsbD i <;> simp [hi]
  · simp [BitVec.getLsbD_of_ge _ i (not_lt.mp hi)]

/-- A status register whose mode bits are replaced has the new mode. -/
theorem modeOf_merge {psr v mask : BitVec 32} (h : mask.setWidth 5 = 0b11111#5) :
    modeOf (merge psr v mask) = modeOf v := by
  have hlow : (merge psr v mask).setWidth 5 = v.setWidth 5 := by
    unfold merge
    rw [BitVec.setWidth_or, BitVec.setWidth_and, BitVec.setWidth_and,
      BitVec.setWidth_not (by decide), h]
    generalize psr.setWidth 5 = x
    generalize v.setWidth 5 = y
    revert x y
    decide
  unfold modeOf
  rw [hlow]

/-- The words after an aligned address. -/
theorem aligned_off (h : a.toNat % 4 = 0) {o : ℕ} (ho : o % 4 = 0) :
    (off a o).toNat % 4 = 0 := by
  unfold off
  rw [BitVec.toNat_add, BitVec.toNat_ofNat]
  omega

/-- Registers assigned from a valuation. -/
theorem assign_map (regs g : Phys → BitVec 32) (xs : List Phys) (x : Phys) :
    assign regs xs (xs.map g) x = if x ∈ xs then g x else regs x := by
  induction xs with
  | nil => rfl
  | cons y ys ih =>
      rw [List.map_cons, assign]
      by_cases h : x = y
      · rw [h, Function.update_self, if_pos List.mem_cons_self]
      · rw [Function.update_of_ne h, ih]
        simp only [List.mem_cons, h, false_or]

/-- A block popped into registers that a valuation agrees with. -/
theorem exec_ldm {regs : List Reg} {g : Phys → BitVec 32} (hM : modeOf c.cpsr = some M)
    (hs : (c.regs (.sp M)).toNat % 4 = 0)
    (hload : loadWords c.mem (c.regs (.sp M)) regs.length = regs.map fun y => g (phys M y)) :
    exec (.ldm regs false) c = some
      { c with
        regs := Function.update
          (fun x => if x ∈ regs.map (phys M) then g x else c.regs x)
          (.sp M) (off (c.regs (.sp M)) (4 * regs.length))
        pc := c.pc + 4#32 } := by
  have hassign : assign c.regs (regs.map (phys M)) (regs.map fun y => g (phys M y)) =
      fun x => if x ∈ regs.map (phys M) then g x else c.regs x := by
    funext x
    rw [← assign_map, List.map_map]
    rfl
  simp only [exec, hM, Option.bind_some, effect, if_pos hs, hload, hassign,
    if_neg Bool.false_ne_true]

end Hbootdbg.Lib.A32Cpu
