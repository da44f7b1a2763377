import Hbootdbg.Lib.WordBlock

/-!
# A32 code in memory

A processor that fetches its instructions from the memory it writes, so that code can be replaced
while it is in use. One mode, no flags; of the instructions, those that move words between registers
and memory.

* `decode`, `effect`, `step` — one instruction; `none` is a fault, or what the architecture leaves
  open.
* `Holds` — words at an address.
* `veneer` — a function that calls another one, whose address is in the word behind its code.
* `veneer_enter`, `veneer_return` — up to the callee, and back from it: of the four instructions,
  only the last must still be there at the return.
-/

namespace Hbootdbg.Lib.A32Code

open Hbootdbg.Lib.ByteMem Hbootdbg.Lib.WordBlock

/-! ## Instructions -/

/-- The number of a register. -/
abbrev Reg := Fin 16

/-- The fourth of the registers that a callee preserves. -/
def r4 : Reg := ⟨4, by decide⟩

/-- The stack pointer. -/
def sp : Reg := ⟨13, by decide⟩

/-- The link register. -/
def lr : Reg := ⟨14, by decide⟩

/-- The program counter. -/
def pc : Reg := ⟨15, by decide⟩

/-- The registers, with the address of the next instruction as `pc`, and the memory. -/
structure Cpu where
  /-- The registers. -/
  r : Reg → BitVec 32
  /-- The memory. -/
  mem : Mem 32

/-- The instructions, in the assembler's spelling. -/
inductive Instr where
  /-- `stmfd sp!, {regs}`. -/
  | stm (regs : List Reg)
  /-- `ldmfd sp!, {regs}`. -/
  | ldm (regs : List Reg)
  /-- `mov rd, rm`. -/
  | mov (rd rm : Reg)
  /-- `ldr rd, [pc, #imm]`, with a sign. -/
  | ldr (rd : Reg) (up : Bool) (imm : ℕ)
  deriving DecidableEq

/-- The registers of a transfer, in the order of their words. -/
def registers (w : BitVec 32) : List Reg := (List.finRange 16).filter fun i => w.getLsbD i

/-- The register in the four bits at `k`. -/
def field (w : BitVec 32) (k : ℕ) : Reg := ((w >>> k).setWidth 4).toFin

/-- The instruction that a word encodes. -/
def decode (w : BitVec 32) : Option Instr :=
  if w >>> 16 = 0xE92D#32 then some (.stm (registers w))
  else if w >>> 16 = 0xE8BD#32 then some (.ldm (registers w))
  else if w &&& 0xFFFF0FF0#32 = 0xE1A00000#32 then some (.mov (field w 12) (field w 0))
  else if w >>> 16 = 0xE59F#32 then some (.ldr (field w 12) true (w &&& 0xFFF#32).toNat)
  else if w >>> 16 = 0xE51F#32 then some (.ldr (field w 12) false (w &&& 0xFFF#32).toNat)
  else none

/-- What an instruction reads of a register: `pc` is two instructions ahead. -/
def Cpu.read (c : Cpu) (i : Reg) : BitVec 32 := if i = pc then c.r pc + 8#32 else c.r i

/-- Registers assigned from a list of words. -/
def assign (r : Reg → BitVec 32) : List Reg → List (BitVec 32) → Reg → BitVec 32
  | i :: is, v :: vs => assign (Function.update r i v) is vs
  | _, _ => r

/-- The registers of the next instruction. -/
def Cpu.next (c : Cpu) : Reg → BitVec 32 := Function.update c.r pc (c.r pc + 4#32)

/-- On with these registers, if `pc` is word aligned. -/
def goto (r : Reg → BitVec 32) (m : Mem 32) : Option Cpu :=
  if (r pc).toNat % 4 = 0 then some ⟨r, m⟩ else none

/-- The effect of an instruction. A block is transferred to word-aligned addresses only, and does
not contain the stack pointer. -/
def effect (c : Cpu) : Instr → Option Cpu
  | .stm regs =>
      let s := down (c.r sp) (4 * regs.length)
      if (c.r sp).toNat % 4 = 0 ∧ sp ∉ regs then
        goto (Function.update c.next sp s) (storeWords c.mem s (regs.map c.read))
      else none
  | .ldm regs =>
      let r := Function.update c.next sp (off (c.r sp) (4 * regs.length))
      if (c.r sp).toNat % 4 = 0 ∧ sp ∉ regs then
        goto (assign r regs (loadWords c.mem (c.r sp) regs.length)) c.mem
      else none
  | .mov rd rm => goto (Function.update c.next rd (c.read rm)) c.mem
  | .ldr rd up imm =>
      let a := if up then off (c.r pc + 8#32) imm else down (c.r pc + 8#32) imm
      if a.toNat % 4 = 0 then goto (Function.update c.next rd (load32 c.mem a)) c.mem else none

/-- One instruction. -/
def step (c : Cpu) : Option Cpu := (decode (load32 c.mem (c.r pc))).bind (effect c)

/-- `n` instructions. -/
def run : ℕ → Cpu → Option Cpu
  | 0, c => some c
  | n + 1, c => (step c).bind (run n)

/-! ## Code in place -/

/-- The words are at the address. -/
def Holds (m : Mem 32) (a : BitVec 32) (ws : List (BitVec 32)) : Prop :=
  ∀ i < ws.length, load32 m (off a (4 * i)) = ws.getD i 0#32

instance (m : Mem 32) (a : BitVec 32) (ws : List (BitVec 32)) : Decidable (Holds m a ws) :=
  inferInstanceAs (Decidable (∀ i < ws.length, _))

variable {m m' : Mem 32} {a b t : BitVec 32} {ws : List (BitVec 32)} {n : ℕ} {c c' : Cpu}

/-- Words that are stored are there. -/
theorem holds_storeWords (hlen : 4 * ws.length ≤ 2 ^ 32) : Holds (storeWords m a ws) a ws :=
  fun _ hi => load32_storeWords (by decide) hi hlen

/-- What happens elsewhere does not matter. -/
theorem Holds.congr (h : Holds m a ws) (hm : ∀ x, InSpan a (4 * ws.length) x → m' x = m x)
    (hlen : 4 * ws.length ≤ 2 ^ 32) : Holds m' a ws := by
  intro i hi
  rw [← h i hi]
  exact load32_congr (by decide) fun x hx => hm x (hx.of_off (by omega) hlen)

/-! ## Veneers -/

/-- A function that calls the one at `t`:
`stmfd sp!, {r4, lr}`; `mov lr, pc`; `ldr pc, literal`; `ldmfd sp!, {r4, pc}`;
`literal: .word t`. -/
def veneer (t : BitVec 32) : List (BitVec 32) :=
  [0xE92D4010#32, 0xE1A0E00F#32, 0xE51FF000#32, 0xE8BD8010#32, t]

/-- The callee is at its first instruction: it will return into the veneer, and the frame of the
veneer is on the stack. -/
def entered (c : Cpu) (t : BitVec 32) : Cpu where
  r := Function.update (Function.update (Function.update c.r sp (down (c.r sp) 8)) lr
    (off (c.r pc) 12)) pc t
  mem := storeWords c.mem (down (c.r sp) 8) [c.r r4, c.r lr]

@[simp] theorem entered_pc (c : Cpu) (t : BitVec 32) : (entered c t).r pc = t := by
  simp only [entered, Function.update_self]

/-- The caller goes on, with what it preserved. -/
def returned (c c' : Cpu) : Cpu where
  r := Function.update (Function.update (Function.update c'.r r4 (c.r r4)) sp (c.r sp)) pc (c.r lr)
  mem := c'.mem

/-- The word of an instruction of code in place. -/
theorem Holds.word (h : Holds m a ws) {i : ℕ} {v : BitVec 32} (hv : ws[i]? = some v) :
    load32 m (off a (4 * i)) = v := by
  obtain ⟨hi, rfl⟩ := List.getElem?_eq_some_iff.mp hv
  rw [h i hi, List.getD_eq_getElem _ _ hi]

theorem length_veneer (t : BitVec 32) : 4 * (veneer t).length = 20 := rfl

/-- Four bytes further, a word-aligned address is word aligned. -/
theorem aligned_off (h : a.toNat % 4 = 0) (k : ℕ) : (off a (4 * k)).toNat % 4 = 0 := by
  unfold off
  rw [BitVec.toNat_add, BitVec.toNat_ofNat]
  omega

theorem next_pc (c : Cpu) : c.next pc = off (c.r pc) 4 := Function.update_self _ _ _

section instructions

variable {w : BitVec 32} {regs : List Reg} {rd : Reg} {imm : ℕ} {up : Bool}

/-- The words of some registers are pushed. -/
theorem step_stm (hw : load32 c.mem (c.r pc) = w) (hd : decode w = some (.stm regs))
    (hpc : (c.r pc).toNat % 4 = 0) (hsp : (c.r sp).toNat % 4 = 0) (hregs : sp ∉ regs) :
    step c = some ⟨Function.update c.next sp (down (c.r sp) (4 * regs.length)),
      storeWords c.mem (down (c.r sp) (4 * regs.length)) (regs.map c.read)⟩ := by
  have hnext : (Function.update c.next sp (down (c.r sp) (4 * regs.length)) pc).toNat % 4 = 0 := by
    rw [Function.update_of_ne (by decide), next_pc]
    exact aligned_off hpc 1
  rw [step, hw, hd, Option.bind_some, effect]
  exact (if_pos ⟨hsp, hregs⟩).trans (if_pos hnext)

/-- A register gets the address of the instruction after the next. -/
theorem step_mov_pc (hw : load32 c.mem (c.r pc) = w) (hd : decode w = some (.mov rd pc))
    (hpc : (c.r pc).toNat % 4 = 0) (hrd : rd ≠ pc) :
    step c = some ⟨Function.update c.next rd (off (c.r pc) 8), c.mem⟩ := by
  have hnext : (Function.update c.next rd (off (c.r pc) 8) pc).toNat % 4 = 0 := by
    rw [Function.update_of_ne hrd.symm, next_pc]
    exact aligned_off hpc 1
  rw [step, hw, hd, Option.bind_some, effect, Cpu.read, if_pos rfl]
  exact if_pos hnext

/-- A jump to an address in memory. -/
theorem step_ldr_pc (hw : load32 c.mem (c.r pc) = w) (hd : decode w = some (.ldr pc false 0))
    (hpc : (c.r pc).toNat % 4 = 0) (ht : (load32 c.mem (off (c.r pc) 8)).toNat % 4 = 0) :
    step c = some ⟨Function.update c.next pc (load32 c.mem (off (c.r pc) 8)), c.mem⟩ := by
  have haddr : down (c.r pc + 8#32) 0 = off (c.r pc) 8 := BitVec.sub_zero _
  have hnext : (Function.update c.next pc (load32 c.mem (off (c.r pc) 8)) pc).toNat % 4 = 0 := by
    rwa [Function.update_self]
  rw [step, hw, hd, Option.bind_some, effect]
  simp only [Bool.false_eq_true, if_false, haddr]
  exact (if_pos (aligned_off hpc 2)).trans (if_pos hnext)

end instructions

/-- **Up to the callee**: three instructions. -/
theorem veneer_enter (h : Holds c.mem (c.r pc) (veneer t)) (hpc : (c.r pc).toNat % 4 = 0)
    (hsp : (c.r sp).toNat % 4 = 0) (ht : t.toNat % 4 = 0)
    (hstack : Apart (c.r pc) 20 (down (c.r sp) 8) 8) : run 3 c = some (entered c t) := by
  have hheld : Holds (entered c t).mem (c.r pc) (veneer t) :=
    h.congr (fun x hx => storeWords_of_not_inSpan (hstack.not_inSpan hx))
      (length_veneer t ▸ by decide)
  obtain ⟨c₁, hc₁, hr₁, hm₁⟩ : ∃ c₁, step c = some c₁ ∧
      c₁.r = Function.update c.next sp (down (c.r sp) 8) ∧ c₁.mem = (entered c t).mem := by
    have hword : load32 c.mem (c.r pc) = 0xE92D4010#32 := by simpa using h.word (i := 0) rfl
    exact ⟨_, step_stm hword (show decode _ = some (.stm [r4, lr]) by decide) hpc hsp (by decide),
      rfl, rfl⟩
  have hpc₁ : c₁.r pc = off (c.r pc) 4 := by
    rw [hr₁, Function.update_of_ne (by decide), next_pc]
  obtain ⟨c₂, hc₂, hr₂, hm₂⟩ : ∃ c₂, step c₁ = some c₂ ∧
      c₂.r = Function.update c₁.next lr (off (c.r pc) 12) ∧ c₂.mem = (entered c t).mem := by
    have hword : load32 c₁.mem (c₁.r pc) = 0xE1A0E00F#32 := by
      rw [hm₁, hpc₁]
      exact hheld.word (i := 1) rfl
    have hstep := step_mov_pc hword (show decode _ = some (.mov lr pc) by decide)
      (hpc₁ ▸ aligned_off hpc 1) (by decide)
    rw [hpc₁, off_off] at hstep
    exact ⟨_, hstep, rfl, hm₁⟩
  have hpc₂ : c₂.r pc = off (c.r pc) 8 := by
    rw [hr₂, Function.update_of_ne (by decide), next_pc, hpc₁, off_off]
  have hliteral : load32 c₂.mem (off (c₂.r pc) 8) = t := by
    rw [hm₂, hpc₂, off_off]
    exact hheld.word (i := 4) rfl
  have hc₃ : step c₂ = some (entered c t) := by
    have hword : load32 c₂.mem (c₂.r pc) = 0xE51FF000#32 := by
      rw [hm₂, hpc₂]
      exact hheld.word (i := 2) rfl
    rw [step_ldr_pc hword (by decide) (hpc₂ ▸ aligned_off hpc 2) (hliteral ▸ ht), hliteral, hm₂]
    congr 2
    funext i
    simp only [hr₂, hr₁, Cpu.next, Function.update_apply]
    split_ifs <;> rfl
  simp only [run, hc₁, hc₂, hc₃, Option.bind_some]

/-- **Back from it**: one instruction, as long as it is still there and the frame is untouched. -/
theorem veneer_return (hpc : c'.r pc = off (c.r pc) 12) (hsp' : c'.r sp = down (c.r sp) 8)
    (hword : load32 c'.mem (off (c.r pc) 12) = 0xE8BD8010#32)
    (hframe : Holds c'.mem (down (c.r sp) 8) [c.r r4, c.r lr]) (hsp : (c.r sp).toNat % 4 = 0)
    (hlr : (c.r lr).toNat % 4 = 0) : step c' = some (returned c c') := by
  have hdecode : decode 0xE8BD8010#32 = some (.ldm [r4, pc]) := by decide
  have halign : (down (c.r sp) 8).toNat % 4 = 0 := by
    unfold down
    rw [BitVec.toNat_sub, BitVec.toNat_ofNat]
    omega
  have hwords : loadWords c'.mem (c'.r sp) 2 = [c.r r4, c.r lr] := by
    have h0 := hframe.word (i := 0) rfl
    have h1 := hframe.word (i := 1) rfl
    rw [hsp']
    exact congrArg₂ (fun x y => [x, y]) h0 h1
  have hregs : assign (Function.update c'.next sp (c.r sp)) [r4, pc] [c.r r4, c.r lr] =
      (returned c c').r := by
    funext i
    simp only [assign, Cpu.next, returned, Function.update_apply]
    split_ifs <;> first | rfl | simp_all [r4, sp, pc]
  rw [step, hpc, hword, hdecode, Option.bind_some, effect]
  simp only [List.length_cons, List.length_nil, Nat.zero_add, Nat.reduceAdd, Nat.reduceMul, hwords]
  rw [hsp', off_down, hregs]
  refine (if_pos ⟨halign, by decide⟩).trans (if_pos ?_)
  exact hlr

end Hbootdbg.Lib.A32Code
