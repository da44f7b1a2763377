import Hbootdbg.Reloc.Labels

/-!
# `reloc.c`: moving an instruction

* `darmArmv7Update`, `relocateInstruction` — the encoder and the relocation.
* `relocateInstruction_of_isBranch` — the word that a branch becomes, at any two addresses.
* `relocates_only_branches` — exactly the branches are relocated, and the rest is left alone.
* `relocate_preserves_iff` — a relocated branch has its old target iff that is the address of the
  new one plus eight: the displacement is kept in bytes, but written where words are counted.
-/

namespace Hbootdbg.Reloc

open Hbootdbg.Lib.A32Branch

/-- The encoder, which knows `B` and `BL`. Source: `reloc.c` `darm_armv7_update` -/
def darmArmv7Update (d : Darm) : ℤ × Darm :=
  let d := { d with w := d.cond.setWidth 32 <<< 28 }
  if d.instr = .b then
    (0, { d with w := (d.w ||| 0b1010#32 <<< 24) ||| (d.imm &&& 0xffffff#32) })
  else if d.instr = .bl then
    (0, { d with w := (d.w ||| 0b1011#32 <<< 24) ||| (d.imm &&& 0xffffff#32) })
  else (-1, d)

/-- The result of `relocate_instruction (instr, src_addr, dst_addr)`, and `*instr` after it.
Source: `reloc.c` `relocate_instruction` -/
def relocateInstruction (instr srcAddr dstAddr : Word) : ℤ × Word :=
  match darmArmv7Disasm instr with
  | none => (-1, instr)
  | some d =>
      if d.instr = .b ∨ d.instr = .bl then
        let (ret, d) := darmArmv7Update { d with imm := d.imm + (srcAddr - dstAddr) }
        if ret ≠ 0 then (-1, instr) else (0, d.w)
      else (-1, instr)

/-- The condition and the opcode over the low 24 bits of a word. -/
theorem encode_eq (cond opcode : BitVec 4) (imm : Word) :
    cond.setWidth 32 <<< 28 ||| opcode.setWidth 32 <<< 24 ||| (imm &&& 0xffffff#32) =
      cond ++ opcode ++ imm.setWidth 24 := by
  have hlt : imm.toNat % 2 ^ 24 < 2 ^ 32 := by omega
  have hmask : imm &&& 0xffffff#32 = (imm.setWidth 24).setWidth 32 := by
    apply BitVec.eq_of_toNat_eq
    rw [BitVec.toNat_and, BitVec.toNat_setWidth, BitVec.toNat_setWidth, Nat.mod_eq_of_lt hlt]
    exact Nat.and_two_pow_sub_one_eq_mod imm.toNat 24
  have happend := @BitVec.setWidth_append_append_eq_shiftLeft_setWidth_or 4 4 24 32 cond opcode
    (imm.setWidth 24)
  rw [hmask, ← happend]
  exact BitVec.setWidth_eq _

/-- The word that a branch becomes: the displacement in bytes, corrected by the distance of the
two addresses and cut to 24 bits, under the condition and the opcode of the old word. -/
def relocated (w srcAddr dstAddr : Word) : Word :=
  w.extractLsb' 24 8 ++ ((w.setWidth 24).signExtend 32 <<< 2 + (srcAddr - dstAddr)).setWidth 24

/-- Setting the upper byte extends a negative 24-bit number. -/
theorem signExtend_of_msb {x : BitVec 24} (h : x.msb = true) :
    x.signExtend 32 = x.setWidth 32 ||| 0xff000000#32 := by
  apply BitVec.eq_of_getLsbD_eq
  intro i hi
  rw [BitVec.getLsbD_signExtend, h, BitVec.getLsbD_or, BitVec.getLsbD_setWidth,
    decide_eq_true hi, Bool.true_and, Bool.true_and]
  by_cases hlow : i < 24
  · have hmask : (0xff000000#32).getLsbD i = false := by
      revert i
      decide
    rw [if_pos hlow, hmask, Bool.or_false]
  · have hmask : (0xff000000#32).getLsbD i = true := by
      revert i
      decide
    rw [if_neg hlow, hmask, Bool.or_true]

/-- The displacement of a branch, in bytes. -/
theorem branchImm_field (w : Word) :
    branchImm ((field w 0 24).setWidth 32) = (w.setWidth 24).signExtend 32 <<< 2 := by
  have hfield : field w 0 24 = w.setWidth 24 := BitVec.setWidth_eq_extractLsb' (by decide) |>.symm
  have hmsb : ((w.setWidth 24).setWidth 32).getLsbD 23 = (w.setWidth 24).msb := by
    rw [BitVec.getLsbD_setWidth, BitVec.msb_eq_getLsbD_last]
    rfl
  unfold branchImm
  rw [hfield, hmsb]
  cases h : (w.setWidth 24).msb with
  | true => rw [if_pos rfl, signExtend_of_msb h]
  | false => rw [if_neg Bool.false_ne_true, BitVec.signExtend_eq_setWidth_of_msb_false h]

/-- **Every branch is relocated, wherever it goes.** -/
theorem relocateInstruction_of_isBranch {w : Word} (hw : IsBranch w) (srcAddr dstAddr : Word) :
    relocateInstruction w srcAddr dstAddr = (0, relocated w srcAddr dstAddr) := by
  have htop : w.extractLsb' 24 8 = field w 28 4 ++ field w 24 4 :=
    (@BitVec.extractLsb'_append_extractLsb'_eq_extractLsb' 32 28 24 4 4 w rfl).symm
  have hopcode := opcode_of_branch hw.1
  unfold relocateInstruction relocated
  rw [darmArmv7Disasm_of_isBranch hw, htop, hopcode, ← branchImm_field]
  -- the label was chosen by the link bit, and chooses it again
  cases hlink : w.getLsbD 24 with
  | false =>
      rw [if_neg Bool.false_ne_true, ← encode_eq]
      rfl
  | true =>
      rw [if_pos rfl, ← encode_eq]
      rfl

/-- What is not a branch is not relocated, and left alone. -/
theorem relocateInstruction_of_not_isBranch {w : Word} (hw : ¬ IsBranch w)
    (srcAddr dstAddr : Word) : relocateInstruction w srcAddr dstAddr = (-1, w) := by
  unfold relocateInstruction
  cases hd : darmArmv7Disasm w with
  | none => rfl
  | some d =>
      have hplain : NotBranch d.instr := by
        by_contra h
        exact hw (isBranch_of_disasm hd h)
      have hor : ¬ (d.instr = .b ∨ d.instr = .bl) := not_or.mpr hplain
      simp only [if_neg hor]

/-- The branches are what is relocated. -/
theorem relocateInstruction_eq_zero_iff (w srcAddr dstAddr : Word) :
    (relocateInstruction w srcAddr dstAddr).1 = 0 ↔ IsBranch w := by
  by_cases hw : IsBranch w
  · rw [relocateInstruction_of_isBranch hw]
    exact iff_of_true rfl hw
  · rw [relocateInstruction_of_not_isBranch hw]
    exact iff_of_false (show (-1 : ℤ) ≠ 0 by decide) hw

/-- **The branches are exactly what is relocated.** Any other word is answered with `-1` and left
alone; a branch is answered with `0`, between any two addresses, and keeps its top byte. -/
theorem relocates_only_branches (w srcAddr dstAddr : Word) :
    ((relocateInstruction w srcAddr dstAddr).1 = 0 ↔ IsBranch w) ∧
      (¬ IsBranch w → relocateInstruction w srcAddr dstAddr = (-1, w)) ∧
      (IsBranch w →
        (relocateInstruction w srcAddr dstAddr).2.extractLsb' 24 8 = w.extractLsb' 24 8) := by
  refine ⟨relocateInstruction_eq_zero_iff w srcAddr dstAddr, fun hw => ?_, fun hw => ?_⟩
  · exact relocateInstruction_of_not_isBranch hw srcAddr dstAddr
  · rw [relocateInstruction_of_isBranch hw]
    exact BitVec.extractLsb'_append_eq_left

/-- What a relocated branch is, at its new address. -/
theorem branch_relocated {w srcAddr dstAddr : Word} {br : Branch}
    (hbr : branch srcAddr w = some br) :
    branch dstAddr (relocated w srcAddr dstAddr) = some
      { br with
        target := dstAddr + 8#32 +
          ((br.target - dstAddr - 8#32).setWidth 24).signExtend 32 <<< 2 } := by
  have hdisp : br.target - dstAddr - 8#32 =
      (w.setWidth 24).signExtend 32 <<< 2 + (srcAddr - dstAddr) := by
    unfold branch at hbr
    split_ifs at hbr
    rw [← Option.some.inj hbr]
    ring
  unfold relocated
  rw [branch_append, hdisp]
  unfold branch at hbr ⊢
  split_ifs at hbr ⊢
  rw [← Option.some.inj hbr]
  rfl

/-- **A branch keeps its meaning iff its target is the address of the new one plus eight.** The
new word is to be a branch of the same kind to the same target, or -1 is to be returned when
that target is out of reach. -/
theorem relocate_preserves_iff {w srcAddr dstAddr : Word} {br : Branch}
    (hbr : branch srcAddr w = some br) :
    (((relocateInstruction w srcAddr dstAddr).1 = 0 →
        branch dstAddr (relocateInstruction w srcAddr dstAddr).2 = some br) ∧
      (¬ InReach dstAddr br.target → (relocateInstruction w srcAddr dstAddr).1 = -1)) ↔
      br.target = dstAddr + 8#32 := by
  have hw : IsBranch w := by
    unfold branch at hbr
    split_ifs at hbr with hw
    exact hw
  rw [relocateInstruction_of_isBranch hw, branch_relocated hbr]
  constructor
  · rintro ⟨hsame, -⟩
    have htarget := congrArg Branch.target (Option.some.inj (hsame rfl))
    -- the displacement in bytes reads back as itself, so it is zero
    have hzero : br.target - dstAddr - 8#32 = 0#32 := by
      rw [← signExtend_setWidth_shift_eq_iff]
      simp only at htarget
      bv_omega
    bv_omega
  · intro htarget
    have hzero : br.target - dstAddr - 8#32 = 0#32 := by bv_omega
    constructor
    · intro _
      have hshift : ((0#32).setWidth 24).signExtend 32 <<< 2 = 0#32 := by decide
      rw [hzero, hshift, BitVec.add_zero, ← htarget]
    · intro hreach
      refine absurd ?_ hreach
      unfold InReach
      rw [hzero]
      decide

/-- A `BL` that goes to the address of the new one plus eight. -/
theorem relocate_preserves_sample :
    ((relocateInstruction 0xEB000010#32 0x8D001000#32 0x8D001040#32).1 = 0 →
        branch 0x8D001040#32 (relocateInstruction 0xEB000010#32 0x8D001000#32 0x8D001040#32).2 =
          some { cond := 0b1110#4, link := true, target := 0x8D001048#32 }) ∧
      (¬ InReach 0x8D001040#32 0x8D001048#32 →
        (relocateInstruction 0xEB000010#32 0x8D001000#32 0x8D001040#32).1 = -1) :=
  (relocate_preserves_iff (by decide)).mpr (by decide)

/-- A branch that is moved down by 256 bytes, and then goes to `0x8D001408`, not to `0x8D001048`;
and one that is relocated to where its target is out of reach. -/
theorem relocate_misses :
    relocateInstruction 0xEA000010#32 0x8D001000#32 0x8D000F00#32 = (0, 0xEA000140#32) ∧
      branch 0x8D001000#32 0xEA000010#32 =
        some { cond := 0b1110#4, link := false, target := 0x8D001048#32 } ∧
      branch 0x8D000F00#32 0xEA000140#32 =
        some { cond := 0b1110#4, link := false, target := 0x8D001408#32 } ∧
      ¬ InReach 0x00100000#32 0x8D001048#32 ∧
      (relocateInstruction 0xEA000010#32 0x8D001000#32 0x00100000#32).1 = 0 := by
  have hw : IsBranch 0xEA000010#32 := by decide
  rw [relocateInstruction_of_isBranch hw, relocateInstruction_of_isBranch hw]
  decide

end Hbootdbg.Reloc
