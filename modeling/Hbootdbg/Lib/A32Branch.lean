import Mathlib

/-!
# The A32 branch instructions `B` and `BL`

The branches of the 32-bit ARM instruction set: a condition, `101`, the link bit and a signed
24-bit word displacement, taken from the address of the branch plus eight. The always-executed
`B` has `0xEA` in its top byte.

* `branch pc v` — the meaning of the word `v` fetched at `pc`, when it is a `B` or a `BL`.
* `branchTarget pc v` — the target of the word `v` fetched at `pc`, when it is such a `B`.
* `branchWord from to` — the encoder: the displacement shifted and cut to 24 bits.
* `InReach from to` — the displacements a branch can carry, `±32 MB`.
* `branchTarget_branchWord_iff` — encoding is exact on the reach, and nowhere else.
* `exists_branchTarget_iff` — the addresses that a branch can reach at all.
* `branchTarget_shift` — a branch word is position dependent: fetched `d` bytes further up, it
  goes `d` bytes further up.
* `branch_append` — another displacement changes the target of a branch, and nothing else.
* `signExtend_setWidth_shift_eq_iff` — a displacement in bytes is none in words.
-/

namespace Hbootdbg.Lib.A32Branch

/-- The word is a `B` or a `BL` with a condition. -/
def IsBranch (v : BitVec 32) : Prop :=
  v.extractLsb' 25 3 = 0b101#3 ∧ v.extractLsb' 28 4 ≠ 0b1111#4

instance (v : BitVec 32) : Decidable (IsBranch v) := inferInstanceAs (Decidable (_ ∧ _))

/-- What a branch says: when it is taken, whether it links, and where it goes. -/
structure Branch where
  /-- The condition. -/
  cond : BitVec 4
  /-- Whether the return address is kept. -/
  link : Bool
  /-- The target. -/
  target : BitVec 32
  deriving DecidableEq

/-- The branch that the word `v` is, fetched at `pc`. -/
def branch (pc v : BitVec 32) : Option Branch :=
  if IsBranch v then
    some
      { cond := v.extractLsb' 28 4
        link := v.getLsbD 24
        target := pc + 8#32 + (v.setWidth 24).signExtend 32 <<< 2 }
  else none

/-- The target of the word `v`, fetched at `pc`, when it is an always-executed `B`. -/
def branchTarget (pc v : BitVec 32) : Option (BitVec 32) :=
  if v >>> 24 = 0xEA#32 then some (pc + 8#32 + (v.setWidth 24).signExtend 32 <<< 2) else none

/-- The always-executed `B` placed at `src` for the target `dst`. -/
def branchWord (src dst : BitVec 32) : BitVec 32 :=
  0xEA000000#32 ||| (((dst - src - 8#32) >>> 2) &&& 0x00FFFFFF#32)

/-- The displacement from `src` to `dst` fits the 24-bit word offset of a branch. -/
def InReach (src dst : BitVec 32) : Prop :=
  -2 ^ 25 ≤ (dst - src - 8#32).toInt ∧ (dst - src - 8#32).toInt ≤ 2 ^ 25 - 4

instance (src dst : BitVec 32) : Decidable (InReach src dst) :=
  inferInstanceAs (Decidable (_ ∧ _))

/-- Setting the opcode over a 24-bit field adds the two. -/
theorem toNat_opcode_or (d : BitVec 32) :
    (0xEA000000#32 ||| (d &&& 0x00FFFFFF#32)).toNat = 0xEA * 2 ^ 24 + d.toNat % 2 ^ 24 := by
  have hmask : (d &&& 0x00FFFFFF#32).toNat = d.toNat % 2 ^ 24 := by
    rw [BitVec.toNat_and]
    exact Nat.and_two_pow_sub_one_eq_mod d.toNat 24
  rw [BitVec.toNat_or, hmask]
  exact (Nat.shiftLeft_add_eq_or_of_lt (Nat.mod_lt _ (show 0 < 2 ^ 24 by decide)) 0xEA).symm

/-- A word with the opcode in its top byte is a branch with the displacement in the rest. -/
theorem branchTarget_opcode_or (pc d : BitVec 32) :
    branchTarget pc (0xEA000000#32 ||| (d &&& 0x00FFFFFF#32)) =
      some (pc + 8#32 + (d.setWidth 24).signExtend 32 <<< 2) := by
  have hsum := toNat_opcode_or d
  generalize 0xEA000000#32 ||| (d &&& 0x00FFFFFF#32) = v at hsum ⊢
  have hop : v >>> 24 = 0xEA#32 := by
    apply BitVec.eq_of_toNat_eq
    rw [BitVec.toNat_ushiftRight, Nat.shiftRight_eq_div_pow, hsum, BitVec.toNat_ofNat]
    omega
  have himm : v.setWidth 24 = d.setWidth 24 := by
    apply BitVec.eq_of_toNat_eq
    rw [BitVec.toNat_setWidth, BitVec.toNat_setWidth, hsum]
    omega
  unfold branchTarget
  rw [if_pos hop, himm]

/-- A displacement survives the cut to a signed 24-bit word offset iff it is in reach. -/
theorem signExtend_shift_eq_iff (d : BitVec 32) (hd : d.toNat % 4 = 0) :
    ((d >>> 2).setWidth 24).signExtend 32 <<< 2 = d ↔
      -2 ^ 25 ≤ d.toInt ∧ d.toInt ≤ 2 ^ 25 - 4 := by
  have hlt := d.isLt
  have himm : ((d >>> 2).setWidth 24).toNat = d.toNat / 4 % 2 ^ 24 := by
    rw [BitVec.toNat_setWidth, BitVec.toNat_ushiftRight, Nat.shiftRight_eq_div_pow]
  rw [← BitVec.toNat_inj, BitVec.toNat_shiftLeft, BitVec.toNat_signExtend,
    BitVec.toInt_eq_toNat_cond, BitVec.msb_eq_decide, BitVec.toNat_setWidth, himm,
    Nat.shiftLeft_eq]
  simp only [decide_eq_true_eq]
  split_ifs <;> omega

/-- **Branch encoding is exact on its reach.** -/
theorem branchTarget_branchWord_iff {src dst : BitVec 32} (hs : src.toNat % 4 = 0)
    (hd : dst.toNat % 4 = 0) :
    branchTarget src (branchWord src dst) = some dst ↔ InReach src dst := by
  have h4 : (dst - src - 8#32).toNat % 4 = 0 := by bv_omega
  have hdst : src + 8#32 + (dst - src - 8#32) = dst := by bv_omega
  unfold branchWord InReach
  rw [branchTarget_opcode_or, Option.some.injEq, ← signExtend_shift_eq_iff _ h4]
  constructor
  · intro h
    exact (BitVec.add_right_inj (src + 8#32)).mp (h.trans hdst.symm)
  · intro h
    rw [h, hdst]

/-- A 24-bit word offset is recovered from its displacement. -/
theorem signExtend_shift_setWidth (imm : BitVec 24) :
    ((imm.signExtend 32 <<< 2) >>> 2).setWidth 24 = imm := by
  ext i hi
  rw [BitVec.getElem_setWidth, BitVec.getLsbD_ushiftRight, BitVec.getLsbD_shiftLeft,
    BitVec.getLsbD_signExtend, if_pos (by omega), BitVec.getLsbD_eq_getElem (by omega)]
  simp [show 2 + i < 32 by omega, show i < 32 by omega, show ¬ 2 + i ≤ 1 by omega]

/-- A branch from a word-aligned address goes to one in its reach. -/
theorem inReach_of_branchTarget {src dst v : BitVec 32} (hs : src.toNat % 4 = 0)
    (h : branchTarget src v = some dst) : dst.toNat % 4 = 0 ∧ InReach src dst := by
  unfold branchTarget at h
  split_ifs at h
  obtain rfl := Option.some.inj h
  generalize hd : (v.setWidth 24).signExtend 32 <<< 2 = d
  have hd4 : d.toNat % 4 = 0 := by
    rw [← hd, BitVec.toNat_shiftLeft, Nat.shiftLeft_eq]
    omega
  have hdisp : src + 8#32 + d - src - 8#32 = d := by bv_omega
  refine ⟨by bv_omega, ?_⟩
  unfold InReach
  rw [hdisp, ← signExtend_shift_eq_iff d hd4, ← hd, signExtend_shift_setWidth]

/-- **A branch from `src` to `dst` exists iff `dst` is a word-aligned address in reach.** -/
theorem exists_branchTarget_iff {src dst : BitVec 32} (hs : src.toNat % 4 = 0) :
    (∃ v, branchTarget src v = some dst) ↔ dst.toNat % 4 = 0 ∧ InReach src dst := by
  constructor
  · rintro ⟨v, hv⟩
    exact inReach_of_branchTarget hs hv
  · rintro ⟨hd, hreach⟩
    exact ⟨branchWord src dst, (branchTarget_branchWord_iff hs hd).mpr hreach⟩

/-- **A branch word is position dependent**: fetched `d` further up, it goes `d` further up. -/
theorem branchTarget_shift (pc d v : BitVec 32) :
    branchTarget (pc + d) v = (branchTarget pc v).map (· + d) := by
  unfold branchTarget
  split_ifs
  · simp only [Option.map_some, Option.some.injEq]
    ac_rfl
  · rfl

/-! ### Branches with a condition and a link -/

/-- A field of a field. -/
theorem extractLsb'_extractLsb' (v : BitVec 32) (start start' : ℕ) {len len' : ℕ}
    (h : start' + len' ≤ len) : (v.extractLsb' start len).extractLsb' start' len' =
      v.extractLsb' (start + start') len' := by
  apply BitVec.eq_of_getLsbD_eq
  intro i hi
  rw [BitVec.getLsbD_extractLsb', BitVec.getLsbD_extractLsb', BitVec.getLsbD_extractLsb',
    decide_eq_true (show start' + i < len by omega), Bool.true_and, Nat.add_assoc]

/-- The top byte of a word, over another displacement. -/
theorem extractLsb'_top_append (v : BitVec 32) (imm : BitVec 24) {start len : ℕ}
    (h : 24 ≤ start) (hlen : start + len ≤ 32) :
    (v.extractLsb' 24 8 ++ imm).extractLsb' start len = v.extractLsb' start len := by
  rw [BitVec.extractLsb'_append_eq_of_le h, extractLsb'_extractLsb' v 24 _ (by omega),
    Nat.add_sub_cancel' h]

theorem isBranch_append (v : BitVec 32) (imm : BitVec 24) :
    IsBranch (v.extractLsb' 24 8 ++ imm) ↔ IsBranch v := by
  unfold IsBranch
  rw [extractLsb'_top_append v imm (by decide) (by decide),
    extractLsb'_top_append v imm (by decide) (by decide)]

/-- **The displacement of a branch says where it goes, and the rest of it says nothing else.** -/
theorem branch_append (pc v : BitVec 32) (imm : BitVec 24) :
    branch pc (v.extractLsb' 24 8 ++ imm) = (branch pc v).map fun b =>
      { b with target := pc + 8#32 + imm.signExtend 32 <<< 2 } := by
  have hlink : (v.extractLsb' 24 8 ++ imm).getLsbD 24 = v.getLsbD 24 := by
    rw [BitVec.getLsbD_append, if_neg (by decide), BitVec.getLsbD_extractLsb']
    rfl
  unfold branch
  by_cases hv : IsBranch v
  · rw [if_pos ((isBranch_append v imm).mpr hv), if_pos hv, Option.map_some, hlink,
      extractLsb'_top_append v imm (by decide) (by decide), BitVec.setWidth_append_eq_right]
  · rw [if_neg (mt (isBranch_append v imm).mp hv), if_neg hv, Option.map_none]

/-- Four times a field is the field itself modulo `2 ^ 24` only when it is zero. -/
theorem mod_eq_zero_of_four_mul {n k : ℕ} (h : (n % 2 ^ 24 + k * 2 ^ 24) * 4 % 2 ^ 32 = n) :
    n % 2 ^ 24 = 0 := by
  have hself : 4 * (n % 2 ^ 24) % 2 ^ 24 = n % 2 ^ 24 := by
    conv_rhs => rw [← h]
    rw [Nat.mod_mod_of_dvd _ (by decide : 2 ^ 24 ∣ 2 ^ 32),
      show (n % 2 ^ 24 + k * 2 ^ 24) * 4 = 4 * (n % 2 ^ 24) + 2 ^ 24 * (4 * k) by ring,
      Nat.add_mul_mod_self_left]
  have hdvd : 2 ^ 24 ∣ 3 * (n % 2 ^ 24) := by
    refine ⟨4 * (n % 2 ^ 24) / 2 ^ 24, ?_⟩
    have hdiv := Nat.div_add_mod (4 * (n % 2 ^ 24)) (2 ^ 24)
    rw [hself] at hdiv
    linarith
  have hcop : Nat.Coprime (2 ^ 24) 3 := by decide
  exact Nat.eq_zero_of_dvd_of_lt (hcop.dvd_of_dvd_mul_left hdvd) (Nat.mod_lt _ (by decide))

/-- A displacement in bytes is read back from its low 24 bits, as one in words, only when it is
zero. -/
theorem signExtend_setWidth_shift_eq_iff (d : BitVec 32) :
    (d.setWidth 24).signExtend 32 <<< 2 = d ↔ d = 0#32 := by
  have himm : (d.setWidth 24).toNat = d.toNat % 2 ^ 24 := BitVec.toNat_setWidth 24 d
  have hlt : d.toNat % 2 ^ 24 < 2 ^ 32 := by omega
  constructor
  · intro h
    have hnat := congrArg BitVec.toNat h
    rw [BitVec.toNat_shiftLeft, BitVec.toNat_signExtend, BitVec.toNat_setWidth, himm,
      Nat.shiftLeft_eq, Nat.mod_eq_of_lt hlt] at hnat
    have hfield : d.toNat % 2 ^ 24 = 0 := by
      split_ifs at hnat
      · exact mod_eq_zero_of_four_mul (k := 255) hnat
      · exact mod_eq_zero_of_four_mul (k := 0) hnat
    have hzero : d.setWidth 24 = 0#24 := by
      apply BitVec.eq_of_toNat_eq
      rw [himm, hfield, BitVec.toNat_ofNat, Nat.zero_mod]
    rw [hzero] at h
    exact h.symm
  · intro h
    rw [h]
    rfl

end Hbootdbg.Lib.A32Branch
