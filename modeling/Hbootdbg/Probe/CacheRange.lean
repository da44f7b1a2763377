import Hbootdbg.Device.Mmu
import Hbootdbg.Lib.Stride

/-!
# The cache range loops of `mmu.c`

The cursor of both loops goes through the lines from the one of `addr` on, and the end is
`addr + size`, all as 32-bit addresses that wrap around.

* `linesFrom_eq` — the loops are strided loops.
* `RangeEnds` — a loop ends; `ranges_end_iff` — both do iff the end is not above the last line of
  the address space.
* `CoversExactly` — the lines of a range, once each and in order; `covers_exactly` — a range that
  does not reach the top is covered so.
* `mmuInvalidateCacheRange_ne_none_iff` — when the maintenance after a write returns.
-/

namespace Hbootdbg.Probe

open Hbootdbg.Lib.ByteMem Hbootdbg.Lib.Stride Hbootdbg.Device

variable {B : Board} {addr size line : Word} {k : ℕ}

/-- The loops of `mmu.c` are strided loops. -/
theorem linesFrom_eq (step stop : Word) (fuel : ℕ) (x : Word) :
    linesFrom step stop fuel x = strideFrom step stop fuel x := by
  induction fuel generalizing x with
  | zero => rfl
  | succ fuel ih => rw [linesFrom, strideFrom, ih]

/-! ## Line sizes -/

theorem dvd_of_twoPow (hk : k < 32) : (BitVec.twoPow 32 k).toNat ∣ 2 ^ 32 := by
  rw [BitVec.toNat_twoPow_of_lt hk]
  exact Nat.pow_dvd_pow 2 hk.le

/-! ## Termination -/

/-- The loop of a range, with lines of `lineSize` bytes, ends after finitely many rounds and visits
no line twice. -/
def RangeEnds (lineSize addr size : Word) : Prop :=
  ∃ fuel lines, linesFrom lineSize (addr + size) fuel (addr &&& ~~~(lineSize - 1#32)) =
    some lines ∧ lines.Nodup

/-- The end of the range is not above the last line of the address space. -/
def StopsAtLine (lineSize addr size : Word) : Prop :=
  (addr + size).toNat ≤ 2 ^ 32 - lineSize.toNat

instance (lineSize addr size : Word) : Decidable (StopsAtLine lineSize addr size) :=
  inferInstanceAs (Decidable (_ ≤ _))

theorem rangeEnds_iff (hk : k < 32) :
    RangeEnds (BitVec.twoPow 32 k) addr size ↔ StopsAtLine (BitVec.twoPow 32 k) addr size := by
  have hends := ends_iff (addr + size) (dvd_of_twoPow hk)
    (dvd_alignDown (x := addr) hk)
  unfold RangeEnds
  simp only [linesFrom_eq]
  exact hends

/-- **Both range loops end iff the end of the range is not above the last line**, for the line size
of each. -/
theorem ranges_end_iff (B : Board) (addr size : Word) :
    (RangeEnds (mmuGetIcacheLineSize B) addr size ∧ RangeEnds (mmuGetDcacheLineSize B) addr size) ↔
      StopsAtLine (mmuGetIcacheLineSize B) addr size ∧
        StopsAtLine (mmuGetDcacheLineSize B) addr size := by
  obtain ⟨i, hi, -, -, hisize⟩ := exists_lineSize B.cp15.cacheType
  obtain ⟨j, hj, -, -, hjsize⟩ := exists_lineSize (B.cp15.cacheType >>> 12)
  unfold mmuGetIcacheLineSize mmuGetDcacheLineSize
  rw [hisize, hjsize, rangeEnds_iff hi, rangeEnds_iff hj]

/-- With lines of 8 bytes, a write of 7 bytes to `0xFFFFFFF8` is never done: the cursor goes from
the last line to the first. -/
theorem range_never_ends :
    ¬ RangeEnds (mmuGetDcacheLineSize Board.sample) 0xFFFFFFF8#32 7#32 := by
  have hsize : mmuGetDcacheLineSize Board.sample = BitVec.twoPow 32 3 := by decide
  rw [hsize, rangeEnds_iff (by decide)]
  decide

/-- The bound on the rounds in the model is no restriction. -/
theorem invalidateRange_eq_none_iff (hk : k < 32) (addr size : Word) :
    invalidateRange (BitVec.twoPow 32 k) addr size = none ↔
      ¬ RangeEnds (BitVec.twoPow 32 k) addr size := by
  rw [rangeEnds_iff hk]
  unfold invalidateRange StopsAtLine
  rw [linesFrom_eq]
  have hdvd := dvd_of_twoPow hk
  have halign := dvd_alignDown (x := addr) hk
  constructor
  · intro hnone hstop
    have hfuel : (addr + size).toNat - (alignDown (BitVec.twoPow 32 k) addr).toNat < 2 ^ 32 := by
      have hlt := (addr + size).isLt
      omega
    obtain ⟨xs, hxs, -⟩ := strideFrom_spec _ hdvd halign hstop hfuel
    rw [alignDown, hnone] at hxs
    cases hxs
  · intro hstop
    exact strideFrom_eq_none hdvd halign (by omega)

/-- **The maintenance after a write returns iff both loops end.** -/
theorem mmuInvalidateCacheRange_ne_none_iff (B : Board) (addr size : Word) :
    mmuInvalidateCacheRange B addr size ≠ none ↔
      RangeEnds (mmuGetIcacheLineSize B) addr size ∧
        RangeEnds (mmuGetDcacheLineSize B) addr size := by
  obtain ⟨i, hi, -, -, hisize⟩ := exists_lineSize B.cp15.cacheType
  obtain ⟨j, hj, -, -, hjsize⟩ := exists_lineSize (B.cp15.cacheType >>> 12)
  have hilines := invalidateRange_eq_none_iff hi addr size
  have hdlines := invalidateRange_eq_none_iff hj addr size
  unfold mmuInvalidateCacheRange mmuGetIcacheLineSize mmuGetDcacheLineSize
  rw [hisize, hjsize]
  cases hic : invalidateRange (BitVec.twoPow 32 i) addr size with
  | none =>
      have hnot := hilines.mp hic
      simp [hnot]
  | some ilines =>
      cases hdc : invalidateRange (BitVec.twoPow 32 j) addr size with
      | none =>
          have hnot := hdlines.mp hdc
          simp [hnot]
      | some dlines =>
          rw [hic] at hilines
          rw [hdc] at hdlines
          simp only [reduceCtorEq, false_iff, not_not] at hilines hdlines
          simp [hilines, hdlines]

/-! ## Coverage -/

/-- The line at `line` has a byte of the range, which does not wrap around. -/
def Intersects (lineSize : ℕ) (line addr size : Word) : Prop :=
  ∃ x, addr.toNat ≤ x ∧ x < addr.toNat + size.toNat ∧
    line.toNat ≤ x ∧ x < line.toNat + lineSize

/-- The loop maintains the lines that intersect the range, once each and in increasing order: no
byte of the range is left in a line that is not maintained. -/
def CoversExactly (lineSize : ℕ) (addr size : Word) (visited : Option (List Word)) : Prop :=
  ∃ lines, visited = some lines ∧ lines.Pairwise (· < ·) ∧
    (∀ line, line ∈ lines ↔ lineSize ∣ line.toNat ∧ Intersects lineSize line addr size) ∧
    ∀ i < size.toNat, ∃ line ∈ lines,
      line.toNat ≤ (off addr i).toNat ∧ (off addr i).toNat < line.toNat + lineSize

/-- The first multiple of `n` from `x` on. -/
def roundUp (x n : ℕ) : ℕ := (x + n - 1) / n * n

theorem le_last_of_roundUp {x n : ℕ} (hn : n ∣ 2 ^ 32) (h : roundUp x n < 2 ^ 32) :
    x ≤ 2 ^ 32 - n := by
  obtain ⟨q, hq⟩ := hn
  have hpos : 0 < n := Nat.pos_of_ne_zero fun h0 => by simp [h0] at hq
  unfold roundUp at h
  rw [hq, Nat.mul_comm] at h
  have hlt : (x + n - 1) / n < q := Nat.lt_of_mul_lt_mul_left h
  have hle : (x + n - 1) / n ≤ q - 1 := by omega
  have hx : x ≤ n * (q - 1) := by
    have := (Nat.div_le_iff_le_mul_add_pred hpos).mp hle
    omega
  rw [hq, ← Nat.mul_sub_one]
  exact hx

/-- The multiples of a line size between the two ends are the lines that intersect the range. -/
theorem intersects_iff {n : ℕ} (hpos : 0 < n) (hsize : size ≠ 0#32) (hline : n ∣ line.toNat) :
    addr.toNat / n * n ≤ line.toNat ∧ line.toNat < addr.toNat + size.toNat ↔
      Intersects n line addr size := by
  have hsize' : 0 < size.toNat := Nat.pos_of_ne_zero fun h => hsize (BitVec.eq_of_toNat_eq h)
  obtain ⟨q, hq⟩ := hline
  have hdiv := Nat.div_add_mod addr.toNat n
  have hmod := Nat.mod_lt addr.toNat hpos
  rw [hq]
  constructor
  · rintro ⟨hle, hlt⟩
    refine ⟨max addr.toNat (n * q), le_max_left _ _, ?_, hq ▸ le_max_right _ _, ?_⟩
    · exact max_lt (by omega) hlt
    · rw [Nat.mul_comm] at hle
      rw [hq]
      exact max_lt (by omega) (by omega)
  · rintro ⟨x, hx, hlt, hle, hxlt⟩
    rw [hq] at hle hxlt
    refine ⟨?_, by omega⟩
    have hlt' : addr.toNat / n < q + 1 := by
      apply Nat.div_lt_of_lt_mul
      rw [Nat.mul_add_one]
      omega
    rw [Nat.mul_comm]
    exact Nat.mul_le_mul_left n (by omega)

/-- The loop covers a range that does not reach the last line. -/
theorem invalidateRange_covers (hk : k < 32) (hsize : size ≠ 0#32)
    (hend : roundUp (addr.toNat + size.toNat) (2 ^ k) < 2 ^ 32) :
    CoversExactly (2 ^ k) addr size (invalidateRange (BitVec.twoPow 32 k) addr size) := by
  have hpow : (BitVec.twoPow 32 k).toNat = 2 ^ k := BitVec.toNat_twoPow_of_lt hk
  have hle := le_last_of_roundUp (Nat.pow_dvd_pow 2 hk.le) hend
  have hpos := Nat.two_pow_pos k
  have hsum : (addr + size).toNat = addr.toNat + size.toNat := by
    rw [BitVec.toNat_add, Nat.mod_eq_of_lt (by omega)]
  have hfuel : (addr + size).toNat - (alignDown (BitVec.twoPow 32 k) addr).toNat < 2 ^ 32 := by
    omega
  obtain ⟨lines, hlines, hsorted, hmem⟩ := strideFrom_spec (addr + size)
    (dvd_of_twoPow hk) (dvd_alignDown (x := addr) hk) (by rw [hsum, hpow]; exact hle) hfuel
  have hlines_iff : ∀ line, line ∈ lines ↔
      2 ^ k ∣ line.toNat ∧ Intersects (2 ^ k) line addr size := by
    intro line
    rw [hmem, BitVec.le_def, BitVec.lt_def, toNat_alignDown hk, hsum, hpow]
    exact and_congr_right fun hline => intersects_iff hpos hsize hline
  refine ⟨lines, ?_, hsorted, hlines_iff, fun i hi => ?_⟩
  · unfold invalidateRange
    rw [linesFrom_eq]
    exact hlines
  · have hbyte : (off addr i).toNat = addr.toNat + i := by
      unfold off
      bv_omega
    have hmod := Nat.mod_lt (addr.toNat + i) hpos
    have hdiv := Nat.div_add_mod (addr.toNat + i) (2 ^ k)
    rw [Nat.mul_comm] at hdiv
    have hline := toNat_alignDown (x := off addr i) hk
    rw [hbyte] at hline ⊢
    have hdvd : 2 ^ k ∣ (alignDown (BitVec.twoPow 32 k) (off addr i)).toNat := by
      rw [← hpow]
      exact dvd_alignDown hk
    refine ⟨alignDown (BitVec.twoPow 32 k) (off addr i),
      (hlines_iff _).mpr ⟨hdvd, addr.toNat + i, ?_⟩, ?_⟩
    · rw [hline]
      omega
    · rw [hline]
      omega

/-- **Both range loops maintain exactly the lines of the range**, once each and in increasing order,
whatever the line size is. -/
theorem covers_exactly (k : ℕ) (hk : k < 32) (addr size : Word) (hsize : size ≠ 0#32)
    (hend : roundUp (addr.toNat + size.toNat) (2 ^ k) < 2 ^ 32) :
    CoversExactly (2 ^ k) addr size (invalidateRange (BitVec.twoPow 32 k) addr size) ∧
      ∀ B : Board,
        (mmuGetIcacheLineSize B = BitVec.twoPow 32 k →
          CoversExactly (2 ^ k) addr size (mmuInvalidateIcacheRange B addr size)) ∧
        (mmuGetDcacheLineSize B = BitVec.twoPow 32 k →
          CoversExactly (2 ^ k) addr size (mmuInvalidateDcacheRange B addr size)) := by
  have hcovers := invalidateRange_covers hk hsize hend
  refine ⟨hcovers, fun B => ⟨fun hline => ?_, fun hline => ?_⟩⟩
  · rw [mmuInvalidateIcacheRange, hline]
    exact hcovers
  · rw [mmuInvalidateDcacheRange, hline]
    exact hcovers

/-- A range of 16 bytes that starts and ends within a line of 8 bytes. -/
theorem covers_exactly_sample :
    CoversExactly (2 ^ 3) 0x8D001004#32 16#32 (invalidateRange 8#32 0x8D001004#32 16#32) :=
  (covers_exactly 3 (by decide) 0x8D001004#32 16#32 (by decide) (by decide)).1

end Hbootdbg.Probe
