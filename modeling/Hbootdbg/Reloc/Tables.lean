import Mathlib

/-!
# `armv7-tbl.c`: the tables of the disassembler

* `Instr`, `EncType` — the instruction labels and the encoding types that the ARM decoder uses.
* `LookupTable α k` — a table with one entry for each `k`-bit index, so no lookup is out of bounds.
* `armv7InstrLabels_eq_b_iff`, `armv7InstrLabels_eq_bl_iff` — the indices labelled `B` and `BL`;
  `notBranch_get` — the other tables have neither.
-/

namespace Hbootdbg.Reloc

/-- The labels that the ARM tables and `armv7.c` name, without their `I_`.
Source: `darm-tbl.h` `darm_instr_t` -/
inductive Instr where
  | invld | adc | add | adr | and | asr | b | bfc | bfi | bic | bkpt | bl | blx | bx | bxj | cdp
  | cdp2 | clrex | clz | cmn | cmp | dbg | dmb | dsb | eor | isb | ldm | ldmda | ldmdb | ldmib
  | ldr | ldrb | ldrbt | ldrd | ldrex | ldrexb | ldrexd | ldrexh | ldrh | ldrht | ldrsb | ldrsbt
  | ldrsh | ldrsht | ldrt | lsl | lsr | mcr | mcr2 | mla | mls | mov | movt | movw | mrc | mrc2
  | msr | mul | mvn | nop | orr | pkh | pld | pldw | pli | pop | push | qadd | qadd16 | qadd8
  | qasx | qdadd | qdsub | qsax | qsub | qsub16 | qsub8 | rbit | rev | rev16 | revsh | ror | rrx
  | rsb | rsc | sadd16 | sadd8 | sasx | sbc | sbfx | sel | setend | sev | shadd16 | shadd8 | shasx
  | shsax | shsub16 | shsub8 | smc | smla | smlad | smlal | smlald | smlaw | smlsd | smlsld
  | smmla | smmls | smmul | smuad | smul | smull | smulw | smusd | ssat | ssat16 | ssax | ssub16
  | ssub8 | stm | stmda | stmdb | stmib | str | strb | strbt | strd | strex | strexb | strexd
  | strexh | strh | strht | strt | sub | svc | swp | swpb | sxtab | sxtab16 | sxtah | sxtb
  | sxtb16 | sxth | teq | tst | uadd16 | uadd8 | uasx | ubfx | udf | uhadd16 | uhadd8 | uhasx
  | uhsax | uhsub16 | uhsub8 | umaal | umlal | umull | uqadd16 | uqadd8 | uqasx | uqsax | uqsub16
  | uqsub8 | usat | usat16 | usax | usub16 | usub8 | uxtab | uxtab16 | uxtah | uxtb | uxtb16
  | uxth | wfe | wfi | yield
  deriving DecidableEq

/-- The encoding types of the ARM decoder, without their `T_`.
Source: `darm-tbl.h` `darm_enctype_t` -/
inductive EncType where
  | invld | armUncond | armMul | armStack0 | armStack1 | armStack2 | armArithShift | armArithImm
  | armBits | armBrnchsc | armBrnchmisc | armMovImm | armCmpOp | armCmpImm | armOpless | armDstSrc
  | armLdstregs | armBitrev | armMisc | armSm | armPas | armSat | armSync | armPusr | armMvcr
  | armUdf
  deriving DecidableEq

/-- A table that has an entry for every index of `k` bits. -/
structure LookupTable (α : Type) (k : ℕ) where
  /-- The entries, in order. -/
  entries : List α
  /-- No index is out of bounds. -/
  length_eq : entries.length = 2 ^ k

/-- `table[i]`. -/
def LookupTable.get {α : Type} {k : ℕ} (table : LookupTable α k) (i : BitVec k) : α :=
  table.entries.get ⟨i.toNat, table.length_eq ▸ i.isLt⟩

/-- What holds of every entry of a table holds of every lookup. -/
theorem LookupTable.get_of_forall {α : Type} {k : ℕ} {table : LookupTable α k} {p : α → Prop}
    (h : ∀ a ∈ table.entries, p a) (i : BitVec k) : p (table.get i) :=
  h _ (List.get_mem _ _)

/-- Source: `armv7-tbl.c` `armv7_instr_types` -/
def armv7InstrTypes : LookupTable EncType 8 where
  entries :=
    [.armArithShift, .armArithShift, .armArithShift, .armArithShift, .armArithShift,
    .armArithShift, .armArithShift, .armArithShift, .armArithShift, .armArithShift,
    .armArithShift, .armArithShift, .armArithShift, .armArithShift, .armArithShift,
    .armArithShift, .armSm, .armCmpOp, .armBrnchmisc, .armCmpOp, .armSm, .armCmpOp, .armMisc,
    .armCmpOp, .armArithShift, .armArithShift, .armDstSrc, .armDstSrc, .armArithShift,
    .armArithShift, .armMisc, .armMisc, .armArithImm, .armArithImm, .armArithImm, .armArithImm,
    .armArithImm, .armArithImm, .armArithImm, .armArithImm, .armArithImm, .armArithImm,
    .armArithImm, .armArithImm, .armArithImm, .armArithImm, .armArithImm, .armArithImm,
    .armMovImm, .armCmpImm, .armOpless, .armCmpImm, .armMovImm, .armCmpImm, .invld, .armCmpImm,
    .armArithImm, .armArithImm, .armMovImm, .armMovImm, .armArithImm, .armArithImm, .armMovImm,
    .armMovImm, .invld, .invld, .invld, .invld, .invld, .invld, .invld, .invld, .invld, .invld,
    .invld, .invld, .invld, .invld, .invld, .invld, .invld, .invld, .invld, .invld, .invld,
    .invld, .invld, .invld, .invld, .invld, .invld, .invld, .invld, .invld, .invld, .invld,
    .invld, .armPas, .armPas, .armPas, .invld, .armPas, .armPas, .armPas, .armMisc, .invld,
    .invld, .armBitrev, .invld, .invld, .invld, .armBitrev, .armSm, .invld, .invld, .invld,
    .armSm, .armSm, .invld, .invld, .invld, .invld, .armBits, .armBits, .armBits, .armBits,
    .armBits, .armUdf, .armLdstregs, .armLdstregs, .armLdstregs, .armLdstregs, .invld, .invld,
    .invld, .invld, .armLdstregs, .armLdstregs, .armLdstregs, .armLdstregs, .invld, .invld,
    .invld, .invld, .armLdstregs, .armLdstregs, .armLdstregs, .armLdstregs, .invld, .invld,
    .invld, .invld, .armLdstregs, .armLdstregs, .armLdstregs, .armLdstregs, .invld, .invld,
    .invld, .invld, .armBrnchsc, .armBrnchsc, .armBrnchsc, .armBrnchsc, .armBrnchsc, .armBrnchsc,
    .armBrnchsc, .armBrnchsc, .armBrnchsc, .armBrnchsc, .armBrnchsc, .armBrnchsc, .armBrnchsc,
    .armBrnchsc, .armBrnchsc, .armBrnchsc, .armBrnchsc, .armBrnchsc, .armBrnchsc, .armBrnchsc,
    .armBrnchsc, .armBrnchsc, .armBrnchsc, .armBrnchsc, .armBrnchsc, .armBrnchsc, .armBrnchsc,
    .armBrnchsc, .armBrnchsc, .armBrnchsc, .armBrnchsc, .armBrnchsc, .invld, .invld, .invld,
    .invld, .invld, .invld, .invld, .invld, .invld, .invld, .invld, .invld, .invld, .invld,
    .invld, .invld, .invld, .invld, .invld, .invld, .invld, .invld, .invld, .invld, .invld,
    .invld, .invld, .invld, .invld, .invld, .invld, .invld, .armMvcr, .armMvcr, .armMvcr,
    .armMvcr, .armMvcr, .armMvcr, .armMvcr, .armMvcr, .armMvcr, .armMvcr, .armMvcr, .armMvcr,
    .armMvcr, .armMvcr, .armMvcr, .armMvcr, .armBrnchsc, .armBrnchsc, .armBrnchsc, .armBrnchsc,
    .armBrnchsc, .armBrnchsc, .armBrnchsc, .armBrnchsc, .armBrnchsc, .armBrnchsc, .armBrnchsc,
    .armBrnchsc, .armBrnchsc, .armBrnchsc, .armBrnchsc, .armBrnchsc]
  length_eq := by decide +kernel

/-- Source: `armv7-tbl.c` `armv7_instr_labels` -/
def armv7InstrLabels : LookupTable Instr 8 where
  entries :=
    [.and, .and, .eor, .eor, .sub, .sub, .rsb, .rsb, .add, .add, .adc, .adc, .sbc, .sbc, .rsc,
    .rsc, .smla, .tst, .smulw, .teq, .smlal, .cmp, .smc, .cmn, .orr, .orr, .strexd, .rrx, .bic,
    .bic, .mvn, .mvn, .and, .and, .eor, .eor, .sub, .sub, .rsb, .rsb, .add, .add, .adc, .adc,
    .sbc, .sbc, .rsc, .rsc, .movw, .tst, .yield, .teq, .movt, .cmp, .invld, .cmn, .orr, .orr,
    .mov, .mov, .bic, .bic, .mvn, .mvn, .invld, .invld, .invld, .invld, .invld, .invld, .invld,
    .invld, .invld, .invld, .invld, .invld, .invld, .invld, .invld, .invld, .invld, .invld,
    .invld, .invld, .invld, .invld, .invld, .invld, .invld, .invld, .invld, .invld, .invld,
    .invld, .invld, .invld, .invld, .ssub8, .qsub8, .shsub8, .invld, .usub8, .uqsub8, .uhsub8,
    .sel, .invld, .invld, .rev16, .invld, .invld, .invld, .revsh, .smusd, .invld, .invld, .invld,
    .smlsld, .smmul, .invld, .invld, .invld, .invld, .sbfx, .sbfx, .bfi, .bfi, .ubfx, .udf,
    .stmda, .ldmda, .stmda, .ldmda, .invld, .invld, .invld, .invld, .stm, .ldm, .stm, .pop,
    .invld, .invld, .invld, .invld, .stmdb, .ldmdb, .stmdb, .ldmdb, .invld, .invld, .invld,
    .invld, .stmib, .ldmib, .stmib, .ldmib, .invld, .invld, .invld, .invld, .b, .b, .b, .b, .b,
    .b, .b, .b, .b, .b, .b, .b, .b, .b, .b, .b, .bl, .bl, .bl, .bl, .bl, .bl, .bl, .bl, .bl, .bl,
    .bl, .bl, .bl, .bl, .bl, .bl, .invld, .invld, .invld, .invld, .invld, .invld, .invld, .invld,
    .invld, .invld, .invld, .invld, .invld, .invld, .invld, .invld, .invld, .invld, .invld,
    .invld, .invld, .invld, .invld, .invld, .invld, .invld, .invld, .invld, .invld, .invld,
    .invld, .invld, .mcr, .mrc, .mcr, .mrc, .mcr, .mrc, .mcr, .mrc, .mcr, .mrc, .mcr, .mrc, .mcr,
    .mrc, .mcr, .mrc, .svc, .svc, .svc, .svc, .svc, .svc, .svc, .svc, .svc, .svc, .svc, .svc,
    .svc, .svc, .svc, .svc]
  length_eq := by decide +kernel

/-- Source: `armv7-tbl.c` `type_shift_instr_lookup` -/
def typeShiftInstrLookup : LookupTable Instr 4 where
  entries :=
    [.lsl, .lsl, .lsr, .lsr, .asr, .asr, .ror, .ror, .lsl, .invld, .lsr, .invld, .asr, .invld,
    .ror, .invld]
  length_eq := rfl

/-- Source: `armv7-tbl.c` `type_brnchmisc_instr_lookup` -/
def typeBrnchmiscInstrLookup : LookupTable Instr 4 where
  entries :=
    [.msr, .bx, .bxj, .blx, .invld, .qsub, .invld, .bkpt, .smlaw, .invld, .smulw, .invld, .smlaw,
    .invld, .smulw, .invld]
  length_eq := rfl

/-- Source: `armv7-tbl.c` `type_opless_instr_lookup` -/
def typeOplessInstrLookup : LookupTable Instr 3 where
  entries :=
    [.nop, .yield, .wfe, .wfi, .sev, .invld, .invld, .invld]
  length_eq := rfl

/-- Source: `armv7-tbl.c` `type_uncond2_instr_lookup` -/
def typeUncond2InstrLookup : LookupTable Instr 3 where
  entries :=
    [.invld, .clrex, .invld, .invld, .dsb, .dmb, .isb, .invld]
  length_eq := rfl

/-- Source: `armv7-tbl.c` `type_mul_instr_lookup` -/
def typeMulInstrLookup : LookupTable Instr 3 where
  entries :=
    [.mul, .mla, .umaal, .mls, .umull, .umlal, .smull, .smlal]
  length_eq := rfl

/-- Source: `armv7-tbl.c` `type_stack0_instr_lookup` -/
def typeStack0InstrLookup : LookupTable Instr 5 where
  entries :=
    [.str, .ldr, .strt, .ldrt, .strb, .ldrb, .strbt, .ldrbt, .str, .ldr, .strt, .ldrt, .strb,
    .ldrb, .strbt, .ldrbt, .str, .ldr, .str, .ldr, .strb, .ldrb, .strb, .ldrb, .str, .ldr, .str,
    .ldr, .strb, .ldrb, .strb, .ldrb]
  length_eq := rfl

/-- Source: `armv7-tbl.c` `type_stack1_instr_lookup` -/
def typeStack1InstrLookup : LookupTable Instr 3 where
  entries :=
    [.invld, .invld, .strht, .ldrht, .invld, .ldrsbt, .invld, .ldrsht]
  length_eq := rfl

/-- Source: `armv7-tbl.c` `type_stack2_instr_lookup` -/
def typeStack2InstrLookup : LookupTable Instr 3 where
  entries :=
    [.invld, .invld, .strh, .ldrh, .ldrd, .ldrsb, .strd, .ldrsh]
  length_eq := rfl

/-- Source: `armv7-tbl.c` `type_bits_instr_lookup` -/
def typeBitsInstrLookup : LookupTable Instr 2 where
  entries :=
    [.invld, .sbfx, .bfi, .ubfx]
  length_eq := rfl

/-- Source: `armv7-tbl.c` `type_pas_instr_lookup` -/
def typePasInstrLookup : LookupTable Instr 6 where
  entries :=
    [.invld, .invld, .invld, .invld, .invld, .invld, .invld, .invld, .sadd16, .sasx, .ssax,
    .ssub16, .sadd8, .invld, .invld, .ssub8, .qadd16, .qasx, .qsax, .qsub16, .qadd8, .invld,
    .invld, .qsub8, .shadd16, .shasx, .shsax, .shsub16, .shadd8, .invld, .invld, .shsub8, .invld,
    .invld, .invld, .invld, .invld, .invld, .invld, .invld, .uadd16, .uasx, .usax, .usub16,
    .uadd8, .invld, .invld, .usub8, .uqadd16, .uqasx, .uqsax, .uqsub16, .uqadd8, .invld, .invld,
    .uqsub8, .uhadd16, .uhasx, .uhsax, .uhsub16, .uhadd8, .invld, .invld, .uhsub8]
  length_eq := rfl

/-- Source: `armv7-tbl.c` `type_sat_instr_lookup` -/
def typeSatInstrLookup : LookupTable Instr 2 where
  entries :=
    [.qadd, .qsub, .qdadd, .qdsub]
  length_eq := rfl

/-- Source: `armv7-tbl.c` `type_sync_instr_lookup` -/
def typeSyncInstrLookup : LookupTable Instr 4 where
  entries :=
    [.swp, .invld, .invld, .invld, .swpb, .invld, .invld, .invld, .strex, .ldrex, .strexd,
    .ldrexd, .strexb, .ldrexb, .strexh, .ldrexh]
  length_eq := rfl

/-- Source: `armv7-tbl.c` `type_pusr_instr_lookup` -/
def typePusrInstrLookup : LookupTable Instr 4 where
  entries :=
    [.sxtab16, .sxtb16, .invld, .invld, .sxtab, .sxtb, .sxtah, .sxth, .uxtab16, .uxtb16, .invld,
    .invld, .uxtab, .uxtb, .uxtah, .uxth]
  length_eq := rfl

/-- The label is neither of a branch `B` nor of a `BL`. -/
def NotBranch (i : Instr) : Prop := i ≠ .b ∧ i ≠ .bl

instance (i : Instr) : Decidable (NotBranch i) := inferInstanceAs (Decidable (_ ∧ _))

/-- The indices that are labelled `B`: those with `1010` in the upper half. -/
theorem armv7InstrLabels_eq_b_iff (i : BitVec 8) :
    armv7InstrLabels.get i = .b ↔ i.extractLsb' 4 4 = 0b1010#4 := by
  revert i
  decide +kernel

/-- The indices that are labelled `BL`: those with `1011` in the upper half. -/
theorem armv7InstrLabels_eq_bl_iff (i : BitVec 8) :
    armv7InstrLabels.get i = .bl ↔ i.extractLsb' 4 4 = 0b1011#4 := by
  revert i
  decide +kernel

/-- The indices with `101` in the upper three bits all have the type of a branch. -/
theorem armv7InstrTypes_of_branch (i : BitVec 8) (h : i.extractLsb' 5 3 = 0b101#3) :
    armv7InstrTypes.get i = .armBrnchsc := by
  revert i
  decide +kernel

end Hbootdbg.Reloc
