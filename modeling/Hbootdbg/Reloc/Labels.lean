import Hbootdbg.Reloc.Armv7
import Hbootdbg.Lib.A32Branch

/-!
# Which words the disassembler labels `B` or `BL`

* `Plain r` — the result `r`, when there is one, has another label. Each part of the decoder has
  its lemma: the ones with a table of their own are plain, the others keep the label that
  `armv7_instr_labels` gave or replace it with another one.
* `isBranch_of_disasm` — **only the branches get the labels `B` and `BL`**.
* `darmArmv7Disasm_of_isBranch` — what is stored for a branch: the label from the link bit, and
  the displacement in bytes.
-/

namespace Hbootdbg.Reloc

open Hbootdbg.Lib.A32Branch

/-- The result, when there is one, has neither the label `B` nor the label `BL`. -/
def Plain (r : Option Darm) : Prop := ∀ d ∈ r, NotBranch d.instr

/-- A decoder that fails has labelled nothing a branch. -/
@[simp] theorem plain_none : Plain none := by
  intro d hd
  cases hd

/-- A decoder that succeeds is plain iff its label is. -/
@[simp] theorem plain_some {d : Darm} : Plain (some d) ↔ NotBranch d.instr := by
  simp [Plain]

/-- A choice between two labels. -/
theorem notBranch_ite {c : Prop} [Decidable c] {i j : Instr} (hi : NotBranch i)
    (hj : NotBranch j) : NotBranch (if c then i else j) := by
  split_ifs
  · exact hi
  · exact hj

/-- A choice between two results. -/
theorem plain_ite {c : Prop} [Decidable c] {r s : Option Darm} (hr : Plain r) (hs : Plain s) :
    Plain (if c then r else s) := by
  split_ifs
  · exact hr
  · exact hs

/-- A choice between two instructions. -/
theorem notBranch_instr_ite {c : Prop} [Decidable c] {d e : Darm} (hd : NotBranch d.instr)
    (he : NotBranch e.instr) : NotBranch (if c then d else e).instr := by
  split_ifs
  · exact hd
  · exact he

variable (d : Darm) (w : Word)

/-! ### The unconditional instructions -/

/-- The offset of a memory access leaves the label. -/
@[simp] theorem instr_memOffset : (memOffset d w).instr = d.instr := by
  unfold memOffset
  split_ifs <;> rfl

/-- A preload is no branch. -/
theorem notBranch_disasPreload : NotBranch (disasPreload d w).instr := by
  unfold disasPreload
  apply notBranch_instr_ite
  · exact (by decide : NotBranch .pldw)
  · rw [instr_memOffset]
    exact notBranch_ite (i := .pld) (j := .pli) (by decide) (by decide)

/-- `case b111` labels no branch. -/
theorem notBranch_disasCoproc2 : NotBranch (disasCoproc2 d w).instr := by
  unfold disasCoproc2
  apply notBranch_instr_ite
  · exact (by decide : NotBranch .cdp2)
  · exact notBranch_ite (i := .mrc2) (j := .mcr2) (by decide) (by decide)

/-- **No unconditional word is labelled a branch.** The cases are those of the top bits. -/
theorem plain_armv7DisasUncond : Plain (armv7DisasUncond d w) := by
  have hlookup : NotBranch (typeUncond2InstrLookup.get (field w 4 3)) :=
    LookupTable.get_of_forall (by decide) _
  unfold armv7DisasUncond
  apply plain_ite
  · exact plain_some.mpr (by decide : NotBranch .setend)
  apply plain_ite
  · apply plain_ite
    · exact plain_ite (plain_some.mpr hlookup) (plain_some.mpr hlookup)
    · exact plain_some.mpr (notBranch_disasPreload _ w)
  apply plain_ite
  · exact plain_some.mpr (notBranch_disasPreload _ w)
  apply plain_ite
  · exact plain_some.mpr (by decide : NotBranch .blx)
  apply plain_ite
  · exact plain_some.mpr (notBranch_disasCoproc2 _ w)
  · exact plain_none

/-! ### What the tables do not cover -/

/-- A part that has returned, has returned something plain. -/
def Flow.Plain : Flow → Prop
  | .done r => Reloc.Plain r
  | .goOn _ => True

/-- A plain part, before something that always is, gives something plain. -/
theorem Flow.Plain.andThen {flow : Flow} (h : flow.Plain) {next : Darm → Option Darm}
    (hnext : ∀ d, Reloc.Plain (next d)) : Reloc.Plain (flow.andThen next) := by
  cases flow with
  | done r => exact h
  | goOn d => exact hnext d

/-- A choice between two parts. -/
theorem Flow.plain_ite {c : Prop} [Decidable c] {f g : Flow} (hf : f.Plain) (hg : g.Plain) :
    Flow.Plain (if c then f else g) := by
  split_ifs
  · exact hf
  · exact hg

/-- A multiplication is no branch. -/
theorem plain_disasMul : Plain (disasMul d w) := by
  have hlookup : NotBranch (typeMulInstrLookup.get (field w 21 3)) :=
    LookupTable.get_of_forall (by decide) _
  unfold disasMul
  apply plain_ite
  · exact plain_none
  apply plain_ite
  · exact plain_some.mpr hlookup
  apply plain_ite
  · exact plain_some.mpr hlookup
  · exact plain_ite (plain_some.mpr hlookup) (plain_some.mpr hlookup)

/-- The offset of a stack access leaves the label. -/
@[simp] theorem instr_stackOffset : (stackOffset d w).instr = d.instr := by
  unfold stackOffset
  split_ifs <;> rfl

/-- An unprivileged halfword transfer is no branch. -/
theorem plain_disasStack1 : Plain (disasStack1 d w) := by
  unfold disasStack1
  apply plain_ite
  · exact plain_none
  · rw [plain_some, instr_stackOffset]
    exact LookupTable.get_of_forall (by decide) _

/-- No other halfword transfer is a branch. -/
theorem plain_disasStack2 : Plain (disasStack2 d w) := by
  unfold disasStack2
  apply plain_ite
  · exact plain_none
  · rw [plain_some, instr_stackOffset]
    exact LookupTable.get_of_forall (by decide) _

/-- A synchronization primitive is no branch, and the other words go on as they came. -/
theorem plain_disasSync : (disasSync d w).Plain := by
  have hlookup : NotBranch (typeSyncInstrLookup.get (field w 20 4)) :=
    LookupTable.get_of_forall (by decide) _
  unfold disasSync
  apply Flow.plain_ite
  · exact plain_some.mpr hlookup
  apply Flow.plain_ite
  · exact plain_some.mpr hlookup
  apply Flow.plain_ite
  · exact plain_some.mpr hlookup
  · trivial

/-- A single word or byte transfer is no branch. -/
theorem notBranch_disasStack0 : NotBranch (disasStack0 d w).instr := by
  unfold disasStack0
  apply notBranch_instr_ite
  · exact (by decide : NotBranch .push)
  apply notBranch_instr_ite
  · exact (by decide : NotBranch .pop)
  · rw [instr_memOffset]
    exact LookupTable.get_of_forall (by decide) _

/-- The exceptions among multiplications and transfers are no branches. -/
theorem plain_disasExtra : (disasExtra d w).Plain := by
  unfold disasExtra
  apply Flow.plain_ite
  · apply Flow.plain_ite
    · exact plain_disasMul d w
    apply Flow.plain_ite
    · exact plain_disasStack1 d w
    apply Flow.plain_ite
    · exact plain_disasStack2 d w
    apply Flow.plain_ite
    · exact plain_disasSync d w
    · trivial
  apply Flow.plain_ite
  · apply Flow.plain_ite
    · exact plain_some.mpr (notBranch_disasStack0 d w)
    · trivial
  · trivial

/-- Saturating addition and subtraction are no branches. -/
theorem plain_disasSat : (disasSat d w).Plain := by
  unfold disasSat
  apply Flow.plain_ite
  · exact plain_some.mpr (LookupTable.get_of_forall (by decide) _)
  · trivial

/-- Packing, unpacking, saturation and reversal are no branches. -/
theorem plain_disasPusr : (disasPusr d w).Plain := by
  unfold disasPusr
  apply Flow.plain_ite
  · apply Flow.plain_ite
    · apply plain_some.mpr
      exact LookupTable.get_of_forall (by decide) _
    apply Flow.plain_ite
    · exact plain_some.mpr (notBranch_ite (i := .usat) (j := .ssat) (by decide) (by decide))
    apply Flow.plain_ite
    · exact plain_some.mpr (notBranch_ite (i := .ssat16) (j := .usat16) (by decide) (by decide))
    · trivial
  · trivial

/-! ### The arms of the switch on the encoding type -/

/-- The operand of a shift leaves the label. -/
@[simp] theorem instr_shiftOperand : (shiftOperand d w).instr = d.instr := by
  unfold shiftOperand
  split_ifs <;> rfl

/-- `case T_ARM_BITS` labels no branch. -/
theorem notBranch_disasBits : NotBranch (disasBits d w).instr := by
  unfold disasBits
  apply notBranch_instr_ite
  · exact (by decide : NotBranch .bfc)
  · exact LookupTable.get_of_forall (by decide) _

/-- `case T_ARM_BRNCHMISC` has labels of its own for branches through a register. -/
theorem plain_disasBrnchmisc : Plain (disasBrnchmisc d w) := by
  have hlookup : NotBranch (typeBrnchmiscInstrLookup.get (field w 4 4)) :=
    LookupTable.get_of_forall (by decide) _
  unfold disasBrnchmisc
  apply plain_ite
  · exact plain_some.mpr hlookup
  apply plain_ite
  · exact plain_some.mpr hlookup
  apply plain_ite
  · exact plain_some.mpr hlookup
  · exact plain_none

/-- `case T_ARM_OPLESS` labels no branch. -/
theorem plain_disasOpless : Plain (disasOpless d w) := by
  unfold disasOpless
  apply plain_ite
  · exact plain_none
  · exact plain_some.mpr (LookupTable.get_of_forall (by decide) _)

/-- `case T_ARM_DST_SRC` labels no branch. -/
theorem plain_disasDstSrc : Plain (disasDstSrc d w) := by
  have hlookup : NotBranch (typeShiftInstrLookup.get (field w 4 4)) :=
    LookupTable.get_of_forall (by decide) _
  unfold disasDstSrc
  apply plain_ite
  · exact plain_none
  apply plain_ite
  · exact plain_some.mpr hlookup
  apply plain_ite
  · apply plain_ite
    · exact plain_some.mpr (by decide : NotBranch .nop)
    · exact plain_some.mpr (by decide : NotBranch .mov)
  apply plain_ite
  · exact plain_some.mpr (by decide : NotBranch .rrx)
  · exact plain_some.mpr hlookup

/-- `case T_ARM_PAS` labels no branch. -/
theorem plain_disasPas : Plain (disasPas d w) := by
  unfold disasPas
  apply plain_ite
  · exact plain_none
  · exact plain_some.mpr (LookupTable.get_of_forall (by decide) _)

/-- A call of the secure monitor is no branch. -/
theorem plain_disasSmc : Plain (disasSmc d w) := by
  unfold disasSmc
  apply plain_ite
  · exact plain_some.mpr (by decide : NotBranch .smul)
  apply plain_ite
  · exact plain_some.mpr (by decide : NotBranch .smc)
  apply plain_ite
  · exact plain_some.mpr (by decide : NotBranch .clz)
  · exact plain_none

section label

variable {d : Darm} (hd : NotBranch d.instr)
include hd

/-- `case T_ARM_ARITH_IMM` labels no branch. -/
theorem notBranch_disasArithImm : NotBranch (disasArithImm d w).instr := by
  unfold disasArithImm
  apply notBranch_instr_ite
  · exact (by decide : NotBranch .adr)
  · exact hd

/-- `case T_ARM_MOV_IMM` labels no branch. -/
theorem notBranch_disasMovImm : NotBranch (disasMovImm d w).instr := by
  unfold disasMovImm
  exact notBranch_instr_ite hd hd

/-- A transfer of several registers is no branch. -/
theorem notBranch_disasLdstregs : NotBranch (disasLdstregs d w).instr := by
  unfold disasLdstregs
  apply notBranch_instr_ite
  · exact (by decide : NotBranch .pop)
  apply notBranch_instr_ite
  · exact (by decide : NotBranch .push)
  · exact hd

/-- `case T_ARM_BITREV` labels no branch. -/
theorem notBranch_disasBitrev : NotBranch (disasBitrev d w).instr := by
  unfold disasBitrev
  apply notBranch_instr_ite
  · exact (by decide : NotBranch .rev)
  apply notBranch_instr_ite
  · exact (by decide : NotBranch .rbit)
  · exact hd

/-- `case T_ARM_MVCR` labels no branch. -/
theorem notBranch_disasMvcr : NotBranch (disasMvcr d w).instr := by
  unfold disasMvcr
  apply notBranch_instr_ite
  · exact (by decide : NotBranch .cdp)
  · exact hd

/-- `case T_ARM_SM` labels no branch, with the arm that it falls through into. -/
theorem plain_disasSm : Plain (disasSm d w) := by
  unfold disasSm
  apply plain_ite
  · apply plain_some.mpr
    exact notBranch_ite (i := .smmls) (by decide) (notBranch_ite (i := .smmla) (by decide) hd)
  apply plain_ite
  · apply plain_some.mpr
    apply notBranch_ite (i := .smlsd) (by decide)
    exact notBranch_ite (notBranch_ite (i := .smuad) (j := .smlad) (by decide) (by decide)) hd
  apply plain_ite
  · apply plain_some.mpr
    exact notBranch_ite (i := .smlald) (by decide) hd
  apply plain_ite
  · exact plain_some.mpr hd
  apply plain_ite
  · exact plain_some.mpr hd
  · exact plain_disasPas d w

/-- A selection of bytes is no branch. -/
theorem notBranch_disasSel : NotBranch (disasSel d w).instr := by
  unfold disasSel
  apply notBranch_instr_ite
  · exact (by decide : NotBranch .pkh)
  · exact hd

/-- `case T_ARM_MISC` labels no branch, with the arms that it falls through into. -/
theorem plain_disasMisc : Plain (disasMisc d w) := by
  unfold disasMisc
  apply plain_ite
  · rw [plain_some, instr_shiftOperand]
    exact hd
  apply plain_ite
  · exact plain_some.mpr hd
  apply plain_ite
  · exact plain_disasSmc d w
  apply plain_ite
  · exact plain_some.mpr (notBranch_disasSel w hd)
  · exact plain_disasSm w hd

/-- The switch on the encoding type makes no branch of what is not labelled as one. -/
theorem plain_disasType : Plain (disasType d w) := by
  unfold disasType
  cases d.instrType with
  | armArithShift =>
      apply plain_some.mpr
      unfold disasArithShift
      rwa [instr_shiftOperand]
  | armArithImm => exact plain_some.mpr (notBranch_disasArithImm w hd)
  | armBits => exact plain_some.mpr (notBranch_disasBits d w)
  | armBrnchsc => exact plain_some.mpr hd
  | armBrnchmisc => exact plain_disasBrnchmisc d w
  | armMovImm => exact plain_some.mpr (notBranch_disasMovImm w hd)
  | armCmpOp =>
      apply plain_some.mpr
      unfold disasCmpOp
      rwa [instr_shiftOperand]
  | armCmpImm => exact plain_some.mpr hd
  | armOpless => exact plain_disasOpless d w
  | armDstSrc => exact plain_disasDstSrc d w
  | armLdstregs => exact plain_some.mpr (notBranch_disasLdstregs w hd)
  | armBitrev => exact plain_some.mpr (notBranch_disasBitrev w hd)
  | armMisc => exact plain_disasMisc w hd
  | armSm => exact plain_disasSm w hd
  | armPas => exact plain_disasPas d w
  | armMvcr => exact plain_some.mpr (notBranch_disasMvcr w hd)
  | armUdf => exact plain_some.mpr hd
  | _ => exact plain_none

end label

/-! ### The words that are labelled as branches -/

/-- The upper half of the index of a word into the tables. -/
theorem index_upper (w : Word) : (field w 20 8).extractLsb' 4 4 = field w 24 4 :=
  extractLsb'_extractLsb' w 20 4 (by decide)

/-- A label `B` or `BL` in the table has `101` in bits 27 to 25 of its word. -/
theorem field_of_label {w : Word} (h : ¬ NotBranch (armv7InstrLabels.get (field w 20 8))) :
    field w 25 3 = 0b101#3 := by
  have hfield : field w 25 3 = (field w 24 4).extractLsb' 1 3 :=
    (extractLsb'_extractLsb' w 24 1 (by decide)).symm
  have hopcode : field w 24 4 = 0b1010#4 ∨ field w 24 4 = 0b1011#4 := by
    rw [← index_upper, ← armv7InstrLabels_eq_b_iff, ← armv7InstrLabels_eq_bl_iff]
    unfold NotBranch at h
    tauto
  rw [hfield]
  obtain h | h := hopcode <;> rw [h] <;> rfl

/-- A word whose label is not that of a branch is decoded to something else. -/
theorem plain_armv7DisasCond (d : Darm) {w : Word}
    (h : NotBranch (armv7InstrLabels.get (field w 20 8))) : Plain (armv7DisasCond d w) := by
  unfold armv7DisasCond
  apply (plain_disasExtra d w).andThen
  intro d
  apply (plain_disasSat d w).andThen
  intro d
  apply (plain_disasPusr d w).andThen
  intro d
  exact plain_disasType w h

/-- Dropping the shift leaves the label. -/
@[simp] theorem instr_dropShift (d : Darm) : (dropShift d).instr = d.instr := by
  unfold dropShift
  split_ifs <;> rfl

/-- **Only the branches get the label `B` or `BL`.** -/
theorem isBranch_of_disasm {w : Word} {d : Darm} (h : darmArmv7Disasm w = some d)
    (hd : ¬ NotBranch d.instr) : IsBranch w := by
  unfold darmArmv7Disasm at h
  obtain ⟨d', hd', rfl⟩ := Option.map_eq_some_iff.mp h
  rw [instr_dropShift] at hd
  split_ifs at hd' with hcond
  · exact absurd (plain_armv7DisasUncond _ w d' hd') hd
  · refine ⟨?_, hcond⟩
    apply field_of_label
    intro hlabel
    exact hd (plain_armv7DisasCond _ hlabel d' hd')

/-! ### What is stored for a branch -/

section branch

variable {w : Word} (hw : field w 25 3 = 0b101#3)
include hw

/-- The opcode bits of a branch. -/
theorem getElem_of_branch : w[25] = true ∧ w[26] = false ∧ w[27] = true := by
  have hbit (i : ℕ) (hi : i < 3) : w.getLsbD (25 + i) = (0b101#3).getLsbD i := by
    rw [← hw, field, BitVec.getLsbD_extractLsb', decide_eq_true hi, Bool.true_and]
  exact ⟨hbit 0 (by decide), hbit 1 (by decide), hbit 2 (by decide)⟩

omit hw in
/-- Two words with a different bit differ. -/
theorem ne_of_getLsbD {n : ℕ} {v v' : BitVec n} (i : ℕ) (h : v.getLsbD i ≠ v'.getLsbD i) :
    v ≠ v' := by
  intro heq
  exact h (congrArg (·.getLsbD i) heq)

/-- A branch is none of the exceptions among multiplications and transfers. -/
theorem disasExtra_of_branch (d : Darm) : disasExtra d w = .goOn d := by
  obtain ⟨h25, h26, -⟩ := getElem_of_branch hw
  unfold disasExtra
  rw [if_neg, if_neg]
  · exact ne_of_getLsbD 0 (by simp [field, h26])
  · exact ne_of_getLsbD 25 (by simp [h25])

/-- A branch is no saturating operation. -/
theorem disasSat_of_branch (d : Darm) : disasSat d w = .goOn d := by
  obtain ⟨-, -, h27⟩ := getElem_of_branch hw
  unfold disasSat
  rw [if_neg]
  exact ne_of_getLsbD 27 (by simp [h27])

/-- A branch is nothing to be packed or reversed: it goes on to its label. -/
theorem disasPusr_of_branch (d : Darm) : disasPusr d w = .goOn d := by
  obtain ⟨-, -, h27⟩ := getElem_of_branch hw
  unfold disasPusr
  rw [if_neg]
  exact ne_of_getLsbD 27 (by simp [h27])

/-- The opcode of a branch, with its link bit. -/
theorem opcode_of_branch :
    field w 24 4 = if w.getLsbD 24 then 0b1011#4 else 0b1010#4 := by
  obtain ⟨h25, h26, h27⟩ := getElem_of_branch hw
  apply BitVec.eq_of_getLsbD_eq
  intro i hi
  rw [field, BitVec.getLsbD_extractLsb', decide_eq_true hi, Bool.true_and]
  interval_cases i
  all_goals split_ifs with hlink <;> simp_all

/-- The label of a branch is chosen by its link bit. -/
theorem label_of_branch :
    armv7InstrLabels.get (field w 20 8) = if w.getLsbD 24 then .bl else .b := by
  have hopcode := opcode_of_branch hw
  rw [← index_upper] at hopcode
  split_ifs at hopcode ⊢
  · exact (armv7InstrLabels_eq_bl_iff _).mpr hopcode
  · exact (armv7InstrLabels_eq_b_iff _).mpr hopcode

/-- The table has one type for all branches. -/
theorem type_of_branch : armv7InstrTypes.get (field w 20 8) = .armBrnchsc := by
  apply armv7InstrTypes_of_branch
  rw [← hw]
  exact extractLsb'_extractLsb' w 20 5 (by decide)

/-- The label of a branch is that of its link bit. -/
theorem disasLabel_of_branch (d : Darm) :
    disasLabel d w = some
      { d with
        instr := if w.getLsbD 24 then .bl else .b
        instrType := .armBrnchsc
        I := some true
        imm := branchImm ((field w 0 24).setWidth 32) } := by
  have hsvc : (if w.getLsbD 24 then Instr.bl else .b) ≠ .svc := by
    split_ifs <;> decide
  unfold disasLabel
  rw [label_of_branch hw, type_of_branch hw]
  simp only [disasType, disasBrnchsc, if_pos hsvc]

/-- Nothing before the label takes a branch for something else. -/
theorem armv7DisasCond_of_branch (d : Darm) : armv7DisasCond d w = disasLabel d w := by
  unfold armv7DisasCond
  rw [disasExtra_of_branch hw, Flow.andThen, disasSat_of_branch hw, Flow.andThen,
    disasPusr_of_branch hw, Flow.andThen]

end branch

/-- **What is stored for a branch**: its label, and its displacement in bytes. -/
theorem darmArmv7Disasm_of_isBranch {w : Word} (hw : IsBranch w) :
    darmArmv7Disasm w = some
      { darmInit with
        w := w
        cond := field w 28 4
        instr := if w.getLsbD 24 then .bl else .b
        instrType := .armBrnchsc
        I := some true
        imm := branchImm ((field w 0 24).setWidth 32) } := by
  obtain ⟨hop, hcond⟩ := hw
  have hcond' : field w 28 4 ≠ 15#4 := hcond
  simp only [darmArmv7Disasm]
  rw [if_neg hcond', armv7DisasCond_of_branch hop, disasLabel_of_branch hop, Option.map_some]
  rfl

end Hbootdbg.Reloc
