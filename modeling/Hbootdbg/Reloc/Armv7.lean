import Hbootdbg.Reloc.Tables

/-!
# `armv7.c`: the ARM disassembler

* `Darm` — the fields that the ARM decoder stores; a register or a flag that is not set is `none`.
* `armv7DisasUncond` — the unconditional instructions.
* `Flow` — how a part of `armv7_disas_cond` ends: it returns, or leaves the rest to what follows.
* `disasExtra`, `disasSat`, `disasPusr`, `disasLabel` — the four parts of `armv7_disas_cond`, in
  order, with one definition for each arm of the switch in the last.
* `darmArmv7Disasm` — the disassembler; `none` is its result -1.
-/

namespace Hbootdbg.Reloc

/-- `u32`. -/
abbrev Word := BitVec 32

/-- A `darm_reg_t`; `none` is `R_INVLD`. -/
abbrev Reg := Option (BitVec 4)

/-- A flag; `none` is `B_INVLD`. -/
abbrev Flag := Option Bool

/-- What the ARM decoder stores. Source: `darm.h` `darm_t` -/
structure Darm where
  w : Word
  instr : Instr
  instrType : EncType
  cond : BitVec 4
  B : Flag
  S : Flag
  E : Flag
  M : Flag
  N : Flag
  option : Option (BitVec 4)
  U : Flag
  H : Flag
  P : Flag
  R : Flag
  T : Flag
  W : Flag
  I : Flag
  rotate : Word
  Rd : Reg
  Rn : Reg
  Rm : Reg
  Ra : Reg
  Rt : Reg
  Rt2 : Reg
  RdHi : Reg
  RdLo : Reg
  imm : Word
  shiftType : Option (BitVec 2)
  Rs : Reg
  shift : Word
  lsb : Word
  width : Word
  reglist : BitVec 16
  coproc : BitVec 8
  opc1 : BitVec 8
  opc2 : BitVec 8
  CRd : Reg
  CRn : Reg
  CRm : Reg

/-- Source: `darm.c` `darm_init` -/
def darmInit : Darm where
  w := 0#32
  instr := .invld
  instrType := .invld
  cond := 0#4
  B := none
  S := none
  E := none
  M := none
  N := none
  option := none
  U := none
  H := none
  P := none
  R := none
  T := none
  W := none
  I := none
  rotate := 0#32
  Rd := none
  Rn := none
  Rm := none
  Ra := none
  Rt := none
  Rt2 := none
  RdHi := none
  RdLo := none
  imm := 0#32
  shiftType := none
  Rs := none
  shift := 0#32
  lsb := 0#32
  width := 0#32
  reglist := 0#16
  coproc := 0#8
  opc1 := 0#8
  opc2 := 0#8
  CRd := none
  CRn := none
  CRm := none

section decoder

/-- `(w >> i) & (2 ** n - 1)`. -/
def field (w : Word) (i n : ℕ) : BitVec n := w.extractLsb' i n

/-- `(w >> i) & b1111`, as a register. -/
def reg (w : Word) (i : ℕ) : Reg := some (field w i 4)

/-- `(w >> i) & 1`, as a flag. -/
def flag (w : Word) (i : ℕ) : Flag := some (w.getLsbD i)

/-- `SP`. -/
def sp : Reg := some 13#4

/-- `PC`. -/
def pc : Reg := some 15#4

/-- `S_LSL`. -/
def sLsl : Option (BitVec 2) := some 0#2

/-- `S_ROR`. -/
def sRor : Option (BitVec 2) := some 3#2

/-- `ARMExpandImm (imm12)`, with nothing shifted in for a shift by 32. -/
def armExpandImm (imm12 : BitVec 12) : Word :=
  let val := imm12.setWidth 32 &&& 0xff#32
  let rotate := (imm12.setWidth 32 >>> 7) &&& 0b11110#32
  (val >>> rotate) ||| (val <<< (32#32 - rotate))

/-- A 24-bit immediate, sign-extended and multiplied with four. -/
def branchImm (imm : Word) : Word :=
  if imm.getLsbD 23 then (imm ||| 0xff000000#32) <<< 2 else imm <<< 2

variable (d : Darm) (w : Word)

/-! ### Unconditional instructions -/

/-- The offset of a transfer: a shifted register with the 25th bit set, an immediate without.
Source: `armv7.c` `armv7_disas_uncond`, `armv7_disas_cond` -/
def memOffset : Darm :=
  if w.getLsbD 25 then
    { d with
      Rm := reg w 0
      shiftType := some (field w 5 2)
      shift := (field w 7 5).setWidth 32 }
  else { d with I := some true, imm := (field w 0 12).setWidth 32 }

/-- The `PLD` and `PLI` instructions, in `case b011`. Source: `armv7.c` `armv7_disas_uncond` -/
def disasPreload : Darm :=
  let instr := if w.getLsbD 24 then .pld else .pli
  let d := memOffset { d with instr := instr, Rn := reg w 16, U := flag w 23 } w
  if d.instr = .pld ∧ w.getLsbD 22 = false then { d with instr := .pldw } else d

/-- `case b101`. Source: `armv7.c` `armv7_disas_uncond` -/
def disasBlx : Darm :=
  { d with
    instr := .blx
    H := flag w 24
    I := some true
    imm := branchImm ((field w 0 24).setWidth 32) ||| ((field w 24 1).setWidth 32 <<< 1) }

/-- `case b111`. Source: `armv7.c` `armv7_disas_uncond` -/
def disasCoproc2 : Darm :=
  let d :=
    { d with
      CRn := reg w 16
      coproc := (field w 8 4).setWidth 8
      opc2 := (field w 5 3).setWidth 8
      CRm := reg w 0 }
  if w.getLsbD 4 = false then
    { d with instr := .cdp2, CRd := reg w 12, opc1 := (field w 20 4).setWidth 8 }
  else
    { d with
      instr := if w.getLsbD 20 then .mrc2 else .mcr2
      opc1 := (field w 21 3).setWidth 8
      Rt := reg w 12 }

/-- Source: `armv7.c` `armv7_disas_uncond` -/
def armv7DisasUncond : Option Darm :=
  let d := { d with instrType := .armUncond }
  if field w 25 3 = 0b000#3 then some { d with instr := .setend, E := flag w 9 }
  else if field w 25 3 = 0b010#3 then
    let instr := typeUncond2InstrLookup.get (field w 4 3)
    if w.getLsbD 21 ∧ instr ≠ .invld then
      if instr ≠ .clrex then some { d with instr := instr, option := some (field w 0 4) }
      else some { d with instr := instr }
    -- the fall-through into `case b011`, which stores a label of its own
    else some (disasPreload d w)
  else if field w 25 3 = 0b011#3 then some (disasPreload d w)
  else if field w 25 3 = 0b101#3 then some (disasBlx d w)
  else if field w 25 3 = 0b111#3 then some (disasCoproc2 d w)
  else none

/-! ### What the tables do not cover -/

/-- How a part of `armv7_disas_cond` ends. -/
inductive Flow where
  /-- It returns; `none` is -1. -/
  | done (r : Option Darm)
  /-- It leaves the rest to what follows. -/
  | goOn (d : Darm)

/-- What follows a part of `armv7_disas_cond`. -/
def Flow.andThen (flow : Flow) (next : Darm → Option Darm) : Option Darm :=
  match flow with
  | .done r => r
  | .goOn d => next d

/-- All variants of the `MUL` instruction. Source: `armv7.c` `armv7_disas_cond` -/
def disasMul : Option Darm :=
  let d :=
    { d with
      instr := typeMulInstrLookup.get (field w 21 3)
      instrType := .armMul
      S := flag w 20
      Rm := reg w 8
      Rn := reg w 0 }
  if (d.instr = .umaal ∨ d.instr = .mls) ∧ d.S ≠ some false then none
  else if d.instr = .mla ∨ d.instr = .mls then some { d with Ra := reg w 12, Rd := reg w 16 }
  else if d.instr = .mul then some { d with Rd := reg w 16 }
  else if d.instr = .umaal ∨ d.instr = .umull ∨ d.instr = .umlal ∨ d.instr = .smull ∨
      d.instr = .smlal then
    some { d with RdHi := reg w 16, RdLo := reg w 12 }
  else some d

/-- The register or the immediate of a halfword transfer. Source: `armv7.c` `armv7_disas_cond` -/
def stackOffset : Darm :=
  if w.getLsbD 22 = false then { d with Rm := reg w 0 }
  else { d with imm := (field w 8 4 ++ field w 0 4).setWidth 32, I := some true }

/-- The unprivileged halfword transfers. Source: `armv7.c` `armv7_disas_cond` -/
def disasStack1 : Option Darm :=
  let instr := typeStack1InstrLookup.get (field w 5 2 ++ field w 20 1)
  if instr = .invld then none
  else
    some (stackOffset
      { d with
        instr := instr
        instrType := .armStack1
        Rn := reg w 16
        Rt := reg w 12
        P := flag w 24
        U := flag w 23 } w)

/-- The other halfword transfers. Source: `armv7.c` `armv7_disas_cond` -/
def disasStack2 : Option Darm :=
  let instr := typeStack2InstrLookup.get (field w 5 2 ++ field w 20 1)
  if instr = .invld then none
  else
    some (stackOffset
      { d with
        instr := instr
        instrType := .armStack2
        Rn := reg w 16
        Rt := reg w 12
        P := flag w 24
        U := flag w 23
        W := flag w 21 } w)

/-- The synchronization primitives. Source: `armv7.c` `armv7_disas_cond` -/
def disasSync : Flow :=
  let d :=
    { d with
      instr := typeSyncInstrLookup.get (field w 20 4)
      instrType := .armSync
      Rn := reg w 16 }
  if d.instr = .swp ∨ d.instr = .swpb then
    .done (some { d with B := flag w 22, Rt := reg w 12, Rt2 := reg w 0 })
  else if d.instr = .ldrex ∨ d.instr = .ldrexd ∨ d.instr = .ldrexb ∨ d.instr = .ldrexh then
    .done (some { d with Rt := reg w 12 })
  else if d.instr = .strex ∨ d.instr = .strexd ∨ d.instr = .strexb ∨ d.instr = .strexh then
    .done (some { d with Rd := reg w 12, Rt := reg w 0 })
  else .goOn d

/-- The single word and byte transfers. Source: `armv7.c` `armv7_disas_cond` -/
def disasStack0 : Darm :=
  let d :=
    memOffset
      { d with
        instr := typeStack0InstrLookup.get (field w 20 5)
        instrType := .armStack0
        Rn := reg w 16
        Rt := reg w 12
        P := flag w 24
        U := flag w 23
        W := flag w 21 } w
  if d.instr = .str ∧ d.Rn = sp ∧ d.P = some true ∧ d.U = some false ∧ d.W = some true ∧
      d.imm = 4#32 then
    { d with instr := .push }
  else if d.instr = .ldr ∧ d.Rn = sp ∧ d.P = some false ∧ d.U = some true ∧ d.W = some false ∧
      d.imm = 4#32 then
    { d with instr := .pop }
  else d

/-- The exceptions for the `MUL`, `STR` and `LDR`-like instructions.
Source: `armv7.c` `armv7_disas_cond` -/
def disasExtra : Flow :=
  let mask := (0b111#32 <<< 25) ||| (0b1001#32 <<< 4)
  if w &&& mask = 0b1001#32 <<< 4 then
    if w.getLsbD 24 = false ∧ field w 4 4 = 0b1001#4 then .done (disasMul d w)
    else if w.getLsbD 24 = false ∧ field w 5 2 ≠ 0#2 ∧ w.getLsbD 21 then .done (disasStack1 d w)
    else if field w 5 2 ≠ 0#2 ∧ (w >>> 20) &&& 0b10010#32 ≠ 0b00010#32 then
      .done (disasStack2 d w)
    else if w.getLsbD 24 ∧ field w 4 4 = 0b1001#4 then disasSync d w
    else .goOn d
  else if field w 26 2 = 0b01#2 then
    let mediaMask := (1#32 <<< 25) ||| (1#32 <<< 4)
    if w &&& mediaMask ≠ mediaMask then .done (some (disasStack0 d w)) else .goOn d
  else .goOn d

/-- Saturating addition and subtraction. Source: `armv7.c` `armv7_disas_cond` -/
def disasSat : Flow :=
  let mask2 := (0b11111001#32 <<< 20) ||| (0b1111#32 <<< 4)
  if w &&& mask2 = (1#32 <<< 24) ||| (0b0101#32 <<< 4) then
    .done (some
      { d with
        instr := typeSatInstrLookup.get (field w 21 2)
        instrType := .armSat
        Rn := reg w 16
        Rd := reg w 12
        Rm := reg w 0 })
  else .goOn d

/-- Packing, unpacking, saturation and reversal. Source: `armv7.c` `armv7_disas_cond` -/
def disasPusr : Flow :=
  let mask3 := (0b11111#32 <<< 23) ||| (1#32 <<< 4)
  if w &&& mask3 = (0b01101#32 <<< 23) ||| (1#32 <<< 4) then
    let op1 := field w 20 3
    let a := field w 16 4
    let op2 := field w 5 3
    let instr := typePusrInstrLookup.get (op1 ++ BitVec.ofBool (a = 0b1111#4))
    let d := { d with instrType := .armPusr, instr := if op2 = 0b011#3 then instr else d.instr }
    if op2 = 0b011#3 ∧ instr ≠ .invld then
      .done (some
        { d with
          instr := instr
          Rd := reg w 12
          Rm := reg w 0
          rotate := (w >>> 7) &&& 0b11000#32
          Rn := if a ≠ 0b1111#4 then some a else d.Rn })
    else if op1 &&& 0b010#3 = 0b010#3 ∧ op2 &&& 1#3 = 0#3 then
      let instr := if op1 >>> 2 ≠ 0#3 then .usat else .ssat
      .done (some
        { d with
          instr := instr
          imm := (field w 16 5).setWidth 32 + if instr = .ssat then 1#32 else 0#32
          I := some true
          Rd := reg w 12
          shift := (field w 7 5).setWidth 32
          shiftType := some (field w 5 2)
          Rn := reg w 0 })
    else if (op1 = 0b010#3 ∨ op1 = 0b110#3) ∧ op2 = 0b001#3 then
      let instr := if op1 = 0b010#3 then .ssat16 else .usat16
      .done (some
        { d with
          instr := instr
          imm := (field w 16 4).setWidth 32 + if instr = .ssat16 then 1#32 else 0#32
          I := some true
          Rd := reg w 12
          Rn := reg w 0 })
    else .goOn d
  else .goOn d

/-! ### The arms of the switch on the encoding type -/

/-- The operand that is shifted by a register or by an immediate.
Source: `armv7.c` `armv7_disas_cond`, in three arms -/
def shiftOperand : Darm :=
  if w.getLsbD 4 then { d with Rs := reg w 8 } else { d with shift := (field w 7 5).setWidth 32 }

/-- `case T_ARM_ARITH_SHIFT`. -/
def disasArithShift : Darm :=
  shiftOperand
    { d with
      S := flag w 20
      Rd := reg w 12
      Rn := reg w 16
      Rm := reg w 0
      shiftType := some (field w 5 2) } w

/-- `case T_ARM_ARITH_IMM`. -/
def disasArithImm : Darm :=
  let d :=
    { d with
      S := flag w 20
      Rd := reg w 12
      Rn := reg w 16
      imm := armExpandImm (field w 0 12)
      I := some true }
  if (d.instr = .add ∨ d.instr = .sub) ∧ d.S = some false ∧ d.Rn = pc then
    { d with instr := .adr, Rn := none, U := flag w 23 }
  else d

/-- `case T_ARM_BITS`. -/
def disasBits : Darm :=
  let instr := typeBitsInstrLookup.get (field w 21 2)
  let lsb : Word := (field w 7 5).setWidth 32
  let msb : Word := (field w 16 5).setWidth 32
  let d :=
    { d with
      instr := instr
      instrType := .armBits
      Rd := reg w 12
      Rn := reg w 0
      lsb := lsb
      width := if instr = .bfi then msb - lsb + 1#32 else msb + 1#32 }
  if instr = .bfi ∧ d.Rn = some 0b1111#4 then { d with Rn := none, instr := .bfc } else d

/-- `case T_ARM_BRNCHSC`. -/
def disasBrnchsc : Darm :=
  let imm : Word := (field w 0 24).setWidth 32
  { d with I := some true, imm := if d.instr ≠ .svc then branchImm imm else imm }

/-- `case T_ARM_BRNCHMISC`. -/
def disasBrnchmisc : Option Darm :=
  let d := { d with instr := typeBrnchmiscInstrLookup.get (field w 4 4) }
  if d.instr = .bkpt then
    some
      { d with
        imm := ((field w 8 12).setWidth 32 <<< 4) + (field w 0 4).setWidth 32
        I := some true }
  else if d.instr = .bx ∨ d.instr = .bxj ∨ d.instr = .blx then some { d with Rm := reg w 0 }
  else if d.instr = .msr then
    some { d with Rn := reg w 0, imm := (field w 18 2).setWidth 32, I := some true }
  else none

/-- `case T_ARM_MOV_IMM`. -/
def disasMovImm : Darm :=
  let d := { d with Rd := reg w 12, I := some true }
  if d.instr = .mov ∨ d.instr = .mvn then
    { d with S := flag w 20, imm := armExpandImm (field w 0 12) }
  else { d with imm := (field w 16 4 ++ field w 0 12).setWidth 32 }

/-- `case T_ARM_CMP_OP`. -/
def disasCmpOp : Darm :=
  shiftOperand { d with Rn := reg w 16, Rm := reg w 0, shiftType := some (field w 5 2) } w

/-- `case T_ARM_CMP_IMM`. -/
def disasCmpImm : Darm :=
  { d with Rn := reg w 16, imm := armExpandImm (field w 0 12), I := some true }

/-- `case T_ARM_OPLESS`. -/
def disasOpless : Option Darm :=
  let instr := typeOplessInstrLookup.get (field w 0 3)
  if instr = .invld then none else some { d with instr := instr }

/-- `case T_ARM_DST_SRC`. -/
def disasDstSrc : Option Darm :=
  let instr := typeShiftInstrLookup.get (field w 4 4)
  if instr = .invld then none
  else
    let d :=
      { d with
        instr := instr
        S := flag w 20
        Rd := reg w 12
        shiftType := some (field w 5 2) }
    if w.getLsbD 4 then some { d with Rm := reg w 8, Rn := reg w 0 }
    else
      let d := { d with Rm := reg w 0, shift := (field w 7 5).setWidth 32 }
      if d.instr = .lsl ∧ d.shiftType = sLsl ∧ d.shift = 0#32 then
        if d.Rd = some 0#4 ∧ d.Rm = some 0#4 then
          some { d with instr := .nop, Rd := none, Rm := none }
        else some { d with instr := .mov }
      else if d.instr = .ror ∧ d.shiftType = sRor ∧ d.shift = 0#32 then
        some { d with instr := .rrx }
      else some d

/-- `case T_ARM_LDSTREGS`. -/
def disasLdstregs : Darm :=
  let d := { d with W := flag w 21, Rn := reg w 16, reglist := field w 0 16 }
  if d.instr = .ldm ∧ d.W = some true ∧ d.Rn = sp then { d with instr := .pop }
  else if d.instr = .stmdb ∧ d.W = some true ∧ d.Rn = sp then { d with instr := .push }
  else d

/-- `case T_ARM_BITREV`. -/
def disasBitrev : Darm :=
  let d := { d with Rd := reg w 12, Rm := reg w 0 }
  if d.instr = .rev16 ∧ field w 4 4 = 0b0011#4 then { d with instr := .rev }
  else if d.instr = .revsh ∧ field w 4 4 = 0b0011#4 then { d with instr := .rbit }
  else d

/-- `case T_ARM_PAS`. -/
def disasPas : Option Darm :=
  let instr := typePasInstrLookup.get (field w 20 3 ++ field w 5 3)
  if instr = .invld then none
  else some { d with instr := instr, Rn := reg w 16, Rd := reg w 12, Rm := reg w 0 }

/-- `case T_ARM_SM`; a label that it does not know falls through into `case T_ARM_PAS`. -/
def disasSm : Option Darm :=
  if d.instr = .smmul then
    some
      { d with
        Rd := reg w 16
        Ra := reg w 12
        Rm := reg w 8
        R := flag w 5
        Rn := reg w 0
        instr :=
          if w.getLsbD 6 then .smmls else if reg w 12 ≠ some 0b1111#4 then .smmla else d.instr }
  else if d.instr = .smusd then
    some
      { d with
        Rd := reg w 16
        Ra := reg w 12
        Rm := reg w 8
        M := flag w 5
        Rn := reg w 0
        instr :=
          if w.getLsbD 6 ∧ reg w 0 ≠ some 0b1111#4 then .smlsd
          else if w.getLsbD 6 = false then
            if reg w 12 = some 0b1111#4 then .smuad else .smlad
          else d.instr }
  else if d.instr = .smlsld then
    some
      { d with
        RdHi := reg w 16
        RdLo := reg w 12
        Rm := reg w 8
        M := flag w 5
        Rn := reg w 0
        instr := if w.getLsbD 6 = false then .smlald else d.instr }
  else if d.instr = .smla then
    some
      { d with
        Rd := reg w 16
        Ra := reg w 12
        Rm := reg w 8
        M := flag w 6
        N := flag w 5
        Rn := reg w 0 }
  else if d.instr = .smlal then
    some
      { d with
        RdHi := reg w 16
        RdLo := reg w 12
        Rm := reg w 8
        M := flag w 6
        N := flag w 5
        Rn := reg w 0 }
  else disasPas d w

/-- `case I_SMC` of `case T_ARM_MISC`. -/
def disasSmc : Option Darm :=
  let op := field w 4 4
  if op = 0b1000#4 ∨ op = 0b1010#4 ∨ op = 0b1100#4 ∨ op = 0b1110#4 then
    some
      { d with
        instr := .smul
        instrType := .armSm
        Rd := reg w 16
        Rm := reg w 8
        M := flag w 6
        N := flag w 5
        Rn := reg w 0 }
  else if op = 0b0111#4 then
    some { d with instr := .smc, imm := (field w 0 4).setWidth 32, I := some true }
  else if op = 0b0001#4 then some { d with instr := .clz, Rm := reg w 0, Rd := reg w 12 }
  else none

/-- `case I_SEL` of `case T_ARM_MISC`. -/
def disasSel : Darm :=
  let d := { d with Rd := reg w 12, Rn := reg w 16, Rm := reg w 0 }
  if w.getLsbD 5 = false then
    { d with
      instr := .pkh
      shiftType := some (field w 5 2 &&& 0b10#2)
      shift := (field w 7 5).setWidth 32
      T := flag w 6 }
  else d

/-- `case T_ARM_MISC`; a label that it does not know falls through into `case T_ARM_SM`. -/
def disasMisc : Option Darm :=
  if d.instr = .mvn then
    some (shiftOperand
      { d with S := flag w 20, Rd := reg w 12, shiftType := some (field w 5 2), Rm := reg w 0 } w)
  else if d.instr = .dbg then some { d with option := some (field w 0 4) }
  else if d.instr = .smc then disasSmc d w
  else if d.instr = .sel then some (disasSel d w)
  else disasSm d w

/-- `case T_ARM_MVCR`. -/
def disasMvcr : Darm :=
  let d :=
    { d with
      CRn := reg w 16
      coproc := (field w 8 4).setWidth 8
      opc2 := (field w 5 3).setWidth 8
      CRm := reg w 0 }
  if w.getLsbD 4 = false then
    { d with instr := .cdp, opc1 := (field w 20 4).setWidth 8, CRd := reg w 12 }
  else { d with opc1 := (field w 21 3).setWidth 8, Rt := reg w 12 }

/-- `case T_ARM_UDF`. -/
def disasUdf : Darm :=
  { d with I := some true, imm := (field w 8 12 ++ field w 0 4).setWidth 32 }

/-- The switch on the encoding type. Source: `armv7.c` `armv7_disas_cond` -/
def disasType : Option Darm :=
  match d.instrType with
  | .armArithShift => some (disasArithShift d w)
  | .armArithImm => some (disasArithImm d w)
  | .armBits => some (disasBits d w)
  | .armBrnchsc => some (disasBrnchsc d w)
  | .armBrnchmisc => disasBrnchmisc d w
  | .armMovImm => some (disasMovImm d w)
  | .armCmpOp => some (disasCmpOp d w)
  | .armCmpImm => some (disasCmpImm d w)
  | .armOpless => disasOpless d w
  | .armDstSrc => disasDstSrc d w
  | .armLdstregs => some (disasLdstregs d w)
  | .armBitrev => some (disasBitrev d w)
  | .armMisc => disasMisc d w
  | .armSm => disasSm d w
  | .armPas => disasPas d w
  | .armMvcr => some (disasMvcr d w)
  | .armUdf => some (disasUdf d w)
  | _ => none

/-- The lookup of the label and of the type, and what is done for the type.
Source: `armv7.c` `armv7_disas_cond` -/
def disasLabel : Option Darm :=
  disasType
    { d with
      instr := armv7InstrLabels.get (field w 20 8)
      instrType := armv7InstrTypes.get (field w 20 8) } w

/-- Source: `armv7.c` `armv7_disas_cond` -/
def armv7DisasCond : Option Darm :=
  (disasExtra d w).andThen fun d =>
    (disasSat d w).andThen fun d => (disasPusr d w).andThen fun d => disasLabel d w

end decoder

/-- A shift by a zero immediate is no shift. Source: `armv7.c` `darm_armv7_disasm` -/
def dropShift (d : Darm) : Darm :=
  if d.shiftType = sLsl ∧ d.Rs = none ∧ d.shift = 0#32 then { d with shiftType := none } else d

/-- The disassembler; what a failing run leaves behind is not read.
Source: `armv7.c` `darm_armv7_disasm` -/
def darmArmv7Disasm (w : Word) : Option Darm :=
  let d := { darmInit with w := w, cond := field w 28 4 }
  (if d.cond = 15#4 then armv7DisasUncond d w else armv7DisasCond d w).map dropShift

end Hbootdbg.Reloc
