import Hbootdbg.Device.Mmu

/-!
# The sections that a probe looks at

`mmu_probe_read` and `mmu_probe_write` differ in what they ask of a descriptor. The sections are
counted and walked alike.

* `readCheck`, `writeCheck` — what the two probes ask of the descriptor at an index.
* `probeLoop` — the walk, with the indices that it dereferences up to the first refusal;
  `mmuProbeRead_eq`, `mmuProbeWrite_eq` say that the probes are its results.
* `toNat_sectionsNr` — the count, which is that of the sections that the range touches, also where
  `section_end` wraps around.
* `ProbesExact`, `probes_exact` — ranges that do not wrap are probed exactly.
* `StaysInTable`, `probes_stay_in_table_iff` — a range that wraps leaves the table of 4096
  descriptors, unless a section before the top is refused.
-/

namespace Hbootdbg.Probe

open Hbootdbg.Lib.ByteMem Hbootdbg.Device

variable (B : Board) (m : Memory)

/-- What `mmu_probe_read` asks of the descriptor at an index. Source: `mmu.c` `mmu_probe_read` -/
def readCheck (k : Word) : Bool :=
  let d := sectionDesc B m k
  descType d != 0#32 &&
    (B.cp15.control &&& ((1#32 <<< 8) ||| (1#32 <<< 9)) != 0#32 || descAp d != 0#32)

/-- What `mmu_probe_write` asks of the descriptor at an index. Source: `mmu.c` `mmu_probe_write` -/
def writeCheck (k : Word) : Bool :=
  let d := sectionDesc B m k
  descType d != 0#32 && descAp d != 0#32

/-- The loop over the sections, from an index on: the indices of the descriptors that are
dereferenced, and the result. It returns at the first refusal.
Source: `mmu.c` `mmu_probe_read`, `mmu_probe_write` -/
def probeLoop (check : Word → Bool) : ℕ → Word → List Word × Bool
  | 0, _ => ([], true)
  | n + 1, k =>
      if check k then (k :: (probeLoop check n (k + 1#32)).1, (probeLoop check n (k + 1#32)).2)
      else ([k], false)

/-- The walk for a range. Source: `mmu.c` `mmu_probe_read`, `mmu_probe_write` -/
def probe (check : Word → Bool) (addr length : Word) : List Word × Bool :=
  probeLoop check (sectionsNr addr length).toNat (addr >>> 20)

/-! ## The loop -/

section loop

variable {check : Word → Bool} {n : ℕ} {k : Word}

theorem off_succ (k : Word) (i : ℕ) : off k (i + 1) = off (k + 1#32) i := by
  have h := off_off k 1 i
  rw [Nat.add_comm 1 i] at h
  exact h.symm

/-- The walk succeeds iff no section is refused. -/
theorem probeLoop_snd : (probeLoop check n k).2 = true ↔ ∀ i < n, check (off k i) = true := by
  induction n generalizing k with
  | zero => simp [probeLoop]
  | succ n ih =>
      rw [probeLoop]
      by_cases hk : check k = true
      · rw [if_pos hk, ih]
        constructor
        · intro h i hi
          cases i with
          | zero => rwa [off_zero]
          | succ i => exact off_succ k i ▸ h i (by omega)
        · intro h i hi
          exact off_succ k i ▸ h (i + 1) (by omega)
      · rw [if_neg hk]
        refine iff_of_false (by simp) fun h => hk ?_
        have h0 := h 0 (Nat.succ_pos n)
        rwa [off_zero] at h0

/-- **A descriptor is dereferenced iff none before it is refused.** -/
theorem mem_probeLoop {x : Word} :
    x ∈ (probeLoop check n k).1 ↔
      ∃ i < n, x = off k i ∧ ∀ j < i, check (off k j) = true := by
  induction n generalizing k with
  | zero => simp [probeLoop]
  | succ n ih =>
      rw [probeLoop]
      by_cases hk : check k = true
      · rw [if_pos hk, List.mem_cons, ih]
        constructor
        · rintro (rfl | ⟨i, hi, rfl, hbefore⟩)
          · exact ⟨0, Nat.succ_pos n, (off_zero _).symm, fun j hj => absurd hj (Nat.not_lt_zero j)⟩
          · refine ⟨i + 1, by omega, (off_succ k i).symm, fun j hj => ?_⟩
            cases j with
            | zero => rwa [off_zero]
            | succ j => exact off_succ k j ▸ hbefore j (by omega)
        · rintro ⟨i, hi, rfl, hbefore⟩
          cases i with
          | zero => exact Or.inl (off_zero k)
          | succ i =>
              refine Or.inr ⟨i, by omega, off_succ k i, fun j hj => ?_⟩
              exact off_succ k j ▸ hbefore (j + 1) (by omega)
      · rw [if_neg hk, List.mem_singleton]
        constructor
        · rintro rfl
          exact ⟨0, Nat.succ_pos n, (off_zero _).symm, fun j hj => absurd hj (Nat.not_lt_zero j)⟩
        · rintro ⟨i, -, rfl, hbefore⟩
          cases i with
          | zero => exact off_zero k
          | succ i =>
              have h0 := hbefore 0 (Nat.succ_pos i)
              rw [off_zero] at h0
              exact absurd h0 hk

end loop

/-! ## The count -/

/-- Rounding down to a section. -/
theorem and_not_sectionMask (x : Word) :
    x &&& ~~~(mmuPageSectionSize - 1#32) = (x >>> 20) <<< 20 := by
  have hmask : ~~~(mmuPageSectionSize - 1#32) = 0xfff00000#32 := by decide
  rw [hmask]
  ext i hi
  interval_cases i <;> simp

/-- The rest of the first section. `section_end` is 0 in the last one, and the difference is
right. -/
theorem toNat_sectionEnd_sub (addr : Word) :
    (((addr + mmuPageSectionSize) &&& ~~~(mmuPageSectionSize - 1#32)) - addr).toNat =
      2 ^ 20 - addr.toNat % 2 ^ 20 := by
  have hsize : mmuPageSectionSize.toNat = 2 ^ 20 := by decide
  have haddr := addr.isLt
  have hend : (((addr + mmuPageSectionSize) >>> 20) <<< 20).toNat =
      (addr.toNat + 2 ^ 20) % 2 ^ 32 / 2 ^ 20 * 2 ^ 20 := by
    rw [BitVec.toNat_shiftLeft, BitVec.toNat_ushiftRight, BitVec.toNat_add, hsize,
      Nat.shiftRight_eq_div_pow, Nat.shiftLeft_eq]
    omega
  rw [and_not_sectionMask, BitVec.toNat_sub, hend]
  omega

/-- The section of an address. -/
theorem toNat_shiftRight_section (addr : Word) : (addr >>> 20).toNat = addr.toNat / 2 ^ 20 := by
  rw [BitVec.toNat_ushiftRight, Nat.shiftRight_eq_div_pow]

/-- Whole sections, and one more for a remainder. -/
theorem toNat_wholeSections (c x : Word) (hc : c.toNat ≤ 1) :
    (if x - ((x >>> 20) <<< 20) ≠ 0#32 then c + (x >>> 20) + 1#32 else c + (x >>> 20)).toNat =
      c.toNat + (x.toNat + (2 ^ 20 - 1)) / 2 ^ 20 := by
  have hx := x.isLt
  have hlow : (x - ((x >>> 20) <<< 20)).toNat = x.toNat % 2 ^ 20 := by
    rw [BitVec.toNat_sub, BitVec.toNat_shiftLeft, toNat_shiftRight_section, Nat.shiftLeft_eq]
    omega
  have hsum : (c + (x >>> 20)).toNat = c.toNat + x.toNat / 2 ^ 20 := by
    rw [BitVec.toNat_add, toNat_shiftRight_section]
    omega
  by_cases hz : x - ((x >>> 20) <<< 20) = 0#32
  · rw [if_neg (not_not_intro hz), hsum]
    rw [hz, BitVec.toNat_zero] at hlow
    omega
  · have hpos : x.toNat % 2 ^ 20 ≠ 0 := by
      rw [← hlow]
      exact fun h => hz (BitVec.eq_of_toNat_eq h)
    have hone : (1#32).toNat = 1 := rfl
    rw [if_pos hz, BitVec.toNat_add, hsum, hone]
    omega

/-- **The count of the sections that the range touches.** -/
theorem toNat_sectionsNr (addr length : Word) :
    (sectionsNr addr length).toNat =
      if length.toNat = 0 then 0 else (addr.toNat % 2 ^ 20 + length.toNat - 1) / 2 ^ 20 + 1 := by
  have hrem := toNat_sectionEnd_sub addr
  have hlength := length.isLt
  unfold sectionsNr
  simp only
  rw [toNat_wholeSections]
  · by_cases hlt : ((addr + mmuPageSectionSize) &&& ~~~(mmuPageSectionSize - 1#32)) - addr < length
    · have hsub := BitVec.toNat_sub_of_le (BitVec.le_of_lt hlt)
      have hlt' := BitVec.lt_def.mp hlt
      have hone : (1#32).toNat = 1 := rfl
      rw [hrem] at hsub hlt'
      rw [if_pos hlt]
      simp only
      rw [hsub, hone]
      split_ifs <;> omega
    · have hge := mt BitVec.lt_def.mpr hlt
      rw [hrem] at hge
      rw [if_neg hlt]
      simp only
      rw [BitVec.toNat_zero]
      split_ifs <;> omega
  · split_ifs
    · exact Nat.le_refl 1
    · exact Nat.zero_le 1

/-- The index of a section of the walk; it may be past the table. -/
theorem toNat_index {addr length : Word} {i : ℕ} (hi : i < (sectionsNr addr length).toNat) :
    (off (addr >>> 20) i).toNat = addr.toNat / 2 ^ 20 + i := by
  have haddr := addr.isLt
  have hlength := length.isLt
  rw [toNat_sectionsNr] at hi
  rw [off, BitVec.toNat_add, toNat_shiftRight_section, BitVec.toNat_ofNat]
  split_ifs at hi <;> omega

/-- **The walk visits the sections of the bytes of the range.** -/
theorem exists_index_iff {addr length : Word} (k : ℕ) :
    (∃ i < (sectionsNr addr length).toNat, k = addr.toNat / 2 ^ 20 + i) ↔
      ∃ b, addr.toNat ≤ b ∧ b < addr.toNat + length.toNat ∧ k = b / 2 ^ 20 := by
  rw [toNat_sectionsNr]
  constructor
  · rintro ⟨i, hi, rfl⟩
    refine ⟨max addr.toNat ((addr.toNat / 2 ^ 20 + i) * 2 ^ 20), le_max_left _ _, ?_, ?_⟩
    · split_ifs at hi <;> omega
    · split_ifs at hi <;> omega
  · rintro ⟨b, hle, hlt, rfl⟩
    refine ⟨b / 2 ^ 20 - addr.toNat / 2 ^ 20, ?_, by omega⟩
    split_ifs <;> omega

/-! ## The probes -/

variable {B m} {addr length : Word}

/-- A loop that runs to its end is `List.all`. -/
theorem all_range_eq_probeLoop (check : Word → Bool) (n : ℕ) (k : Word) :
    ((List.range n).all fun i => check (off k i)) = (probeLoop check n k).2 := by
  rw [Bool.eq_iff_iff, probeLoop_snd, List.all_eq_true]
  simp only [List.mem_range]

theorem mmuProbeRead_eq : mmuProbeRead B m addr length = (probe (readCheck B m) addr length).2 :=
  all_range_eq_probeLoop (readCheck B m) _ _

theorem mmuProbeWrite_eq : mmuProbeWrite B m addr length = (probe (writeCheck B m) addr length).2 :=
  all_range_eq_probeLoop (writeCheck B m) _ _

/-! ## Exactness -/

/-- The `S` or the `R` bit of the control register is set. -/
def ProtectionBit (B : Board) : Prop :=
  B.cp15.control.getLsbD 8 = true ∨ B.cp15.control.getLsbD 9 = true

/-- The section with that index may be read. -/
def SectionReadable (B : Board) (m : Memory) (k : Word) : Prop :=
  descType (sectionDesc B m k) ≠ 0#32 ∧
    (¬ ProtectionBit B → descAp (sectionDesc B m k) ≠ 0#32)

/-- The section with that index may be written. -/
def SectionWritable (B : Board) (m : Memory) (k : Word) : Prop :=
  descType (sectionDesc B m k) ≠ 0#32 ∧ descAp (sectionDesc B m k) ≠ 0#32

/-- A byte address of `[addr, addr + length)`, which is not cut at the top of the space. -/
def InRange (addr length b : Word) : Prop :=
  addr.toNat ≤ b.toNat ∧ b.toNat < addr.toNat + length.toNat

instance (addr length b : Word) : Decidable (InRange addr length b) :=
  inferInstanceAs (Decidable (_ ∧ _))

/-- The mask of the `S` and the `R` bit. -/
theorem control_and_ne_zero_iff :
    B.cp15.control &&& ((1#32 <<< 8) ||| (1#32 <<< 9)) ≠ 0#32 ↔ ProtectionBit B := by
  have hmask : (1#32 <<< 8) ||| (1#32 <<< 9) = 0x300#32 := by decide
  unfold ProtectionBit
  rw [hmask]
  generalize B.cp15.control = c
  rw [← not_iff_not, not_not, not_or, Bool.not_eq_true, Bool.not_eq_true]
  constructor
  · intro h
    refine ⟨?_, ?_⟩
    · simpa using congrArg (BitVec.getLsbD · 8) h
    · simpa using congrArg (BitVec.getLsbD · 9) h
  · rintro ⟨h8, h9⟩
    ext i hi
    interval_cases i <;> simp [h8, h9, ← BitVec.getLsbD_eq_getElem]

/-- The test of `mmu_probe_read` on one section. -/
theorem readCheck_iff {k : Word} : readCheck B m k = true ↔ SectionReadable B m k := by
  have hbit := control_and_ne_zero_iff (B := B)
  unfold readCheck SectionReadable
  simp only [Bool.and_eq_true, Bool.or_eq_true, bne_iff_ne]
  rw [hbit, or_iff_not_imp_left]

/-- The test of `mmu_probe_write` on one section. -/
theorem writeCheck_iff {k : Word} : writeCheck B m k = true ↔ SectionWritable B m k := by
  unfold writeCheck SectionWritable
  simp only [Bool.and_eq_true, bne_iff_ne]

/-- What may be written may be read. -/
theorem readCheck_of_writeCheck {k : Word} (h : writeCheck B m k = true) :
    readCheck B m k = true := by
  rw [writeCheck_iff] at h
  exact readCheck_iff.mpr ⟨h.1, fun _ => h.2⟩

/-- A walk that does not wrap visits the sections of the byte addresses of the range. -/
theorem exists_index_iff_inRange (h : addr.toNat + length.toNat ≤ 2 ^ 32) (k : Word) :
    (∃ i < (sectionsNr addr length).toNat, k = off (addr >>> 20) i) ↔
      ∃ b, InRange addr length b ∧ k = b >>> 20 := by
  constructor
  · rintro ⟨i, hi, rfl⟩
    obtain ⟨b, hle, hlt, hk⟩ := (exists_index_iff _).mp ⟨i, hi, toNat_index hi⟩
    have hb : (BitVec.ofNat 32 b).toNat = b := Nat.mod_eq_of_lt (by omega)
    refine ⟨BitVec.ofNat 32 b, ⟨?_, ?_⟩, ?_⟩
    · rwa [hb]
    · rwa [hb]
    · apply BitVec.eq_of_toNat_eq
      rw [hk, toNat_shiftRight_section, hb]
  · rintro ⟨b, ⟨hle, hlt⟩, rfl⟩
    obtain ⟨i, hi, hk⟩ := (exists_index_iff (b.toNat / 2 ^ 20)).mpr ⟨b.toNat, hle, hlt, rfl⟩
    refine ⟨i, hi, BitVec.eq_of_toNat_eq ?_⟩
    rw [toNat_index hi, toNat_shiftRight_section, hk]

/-- **A probe that does not wrap succeeds iff the section of every byte passes.** -/
theorem probe_snd_iff {check : Word → Bool} (h : addr.toNat + length.toNat ≤ 2 ^ 32) :
    (probe check addr length).2 = true ↔
      ∀ b, InRange addr length b → check (b >>> 20) = true := by
  unfold probe
  rw [probeLoop_snd]
  constructor
  · intro hall b hb
    obtain ⟨i, hi, hk⟩ := (exists_index_iff_inRange h _).mpr ⟨b, hb, rfl⟩
    rw [hk]
    exact hall i hi
  · intro hall i hi
    obtain ⟨b, hb, hk⟩ := (exists_index_iff_inRange h _).mp ⟨i, hi, rfl⟩
    rw [hk]
    exact hall b hb

/-- The sections that a probe consults hold a byte of the range. -/
theorem inRange_of_mem_probe {check : Word → Bool} (h : addr.toNat + length.toNat ≤ 2 ^ 32)
    {k : Word} (hk : k ∈ (probe check addr length).1) :
    ∃ b, InRange addr length b ∧ k = b >>> 20 := by
  obtain ⟨i, hi, rfl, -⟩ := mem_probeLoop.mp hk
  exact (exists_index_iff_inRange h _).mp ⟨i, hi, rfl⟩

/-- A probe that succeeds has consulted every section that holds a byte of the range. -/
theorem mem_probe_of_inRange {check : Word → Bool} (h : addr.toNat + length.toNat ≤ 2 ^ 32)
    (hsucc : (probe check addr length).2 = true) {b : Word} (hb : InRange addr length b) :
    b >>> 20 ∈ (probe check addr length).1 := by
  obtain ⟨i, hi, hk⟩ := (exists_index_iff_inRange h _).mpr ⟨b, hb, rfl⟩
  refine mem_probeLoop.mpr ⟨i, hi, hk, fun j hj => ?_⟩
  exact probeLoop_snd.mp hsucc j (hj.trans hi)

/-- A walk that consults what it should: every section of the range before it succeeds, and no
other. -/
def ConsultsExactly (check : Word → Bool) (addr length : Word) : Prop :=
  (∀ k ∈ (probe check addr length).1, ∃ b, InRange addr length b ∧ k = b >>> 20) ∧
    ((probe check addr length).2 = true →
      ∀ b, InRange addr length b → b >>> 20 ∈ (probe check addr length).1)

/-- The two probes are exact on a range. -/
structure ProbesExact (B : Board) (m : Memory) (addr length : Word) : Prop where
  /-- `mmu_probe_read` returns 1 iff every byte may be read. -/
  read : mmuProbeRead B m addr length = true ↔
    ∀ b, InRange addr length b → SectionReadable B m (b >>> 20)
  /-- `mmu_probe_write` returns 1 iff every byte may be written. -/
  write : mmuProbeWrite B m addr length = true ↔
    ∀ b, InRange addr length b → SectionWritable B m (b >>> 20)
  /-- The descriptors that `mmu_probe_read` consults. -/
  readConsults : ConsultsExactly (readCheck B m) addr length
  /-- The descriptors that `mmu_probe_write` consults. -/
  writeConsults : ConsultsExactly (writeCheck B m) addr length

theorem consultsExactly (check : Word → Bool) (h : addr.toNat + length.toNat ≤ 2 ^ 32) :
    ConsultsExactly check addr length :=
  ⟨fun _ hk => inRange_of_mem_probe h hk, fun hsucc _ hb => mem_probe_of_inRange h hsucc hb⟩

/-- **The probes are exact on every range that does not wrap**, for every translation table and
every control register. -/
theorem probes_exact (B : Board) (m : Memory) (addr length : Word)
    (h : addr.toNat + length.toNat ≤ 2 ^ 32) : ProbesExact B m addr length where
  read := by
    rw [mmuProbeRead_eq, probe_snd_iff h]
    exact forall₂_congr fun _ _ => readCheck_iff
  write := by
    rw [mmuProbeWrite_eq, probe_snd_iff h]
    exact forall₂_congr fun _ _ => writeCheck_iff
  readConsults := consultsExactly _ h
  writeConsults := consultsExactly _ h

/-- Both probes are exact on a word that crosses into the last section, up to its end. -/
theorem probes_exact_top :
    (0xffeffffe#32).toNat + (0x100002#32).toNat ≤ 2 ^ 32 ∧
      ProbesExact Board.sample (fun _ => 0#8) 0xffeffffe#32 0x100002#32 :=
  ⟨by decide, probes_exact Board.sample (fun _ => 0#8) _ _ (by decide)⟩

/-! ## Ranges that wrap -/

/-- A probe stays in the table of 4096 descriptors and refuses what runs past the top. -/
def StaysInTable (check : Word → Bool) (addr length : Word) : Prop :=
  (∀ k ∈ (probe check addr length).1, k.toNat < 4096) ∧
    (2 ^ 32 < addr.toNat + length.toNat → (probe check addr length).2 = false)

/-- A section from that of `addr` to the last one is refused. -/
def RefusedBelowTop (check : Word → Bool) (addr : Word) : Prop :=
  ∃ k : Word, addr.toNat / 2 ^ 20 ≤ k.toNat ∧ k.toNat < 4096 ∧ check k = false

/-- The sections of a range that wraps are those up to the top, and at least one past it. -/
theorem lt_sectionsNr_iff (h : 2 ^ 32 < addr.toNat + length.toNat) {i : ℕ}
    (hi : addr.toNat / 2 ^ 20 + i ≤ 4096) : i < (sectionsNr addr length).toNat := by
  rw [toNat_sectionsNr]
  have haddr := addr.isLt
  rw [if_neg (by omega)]
  omega

/-- **A probe stays in the table iff its range does not wrap or it refuses a section before the
top.** -/
theorem staysInTable_iff (check : Word → Bool) (addr length : Word) :
    StaysInTable check addr length ↔
      addr.toNat + length.toNat ≤ 2 ^ 32 ∨ RefusedBelowTop check addr := by
  have haddr := addr.isLt
  constructor
  · rintro ⟨hin, -⟩
    by_contra hcon
    rw [not_or, not_le] at hcon
    obtain ⟨hwrap, hpass⟩ := hcon
    -- every section up to the top passes, so the walk dereferences the one after it
    have hlast := lt_sectionsNr_iff hwrap (i := 4096 - addr.toNat / 2 ^ 20) (by omega)
    have hmem : off (addr >>> 20) (4096 - addr.toNat / 2 ^ 20) ∈ (probe check addr length).1 := by
      refine mem_probeLoop.mpr ⟨_, hlast, rfl, fun j hj => ?_⟩
      have hindex := toNat_index (hj.trans hlast)
      by_contra hfalse
      exact hpass ⟨_, by omega, by omega, Bool.eq_false_iff.mpr hfalse⟩
    have hlt := hin _ hmem
    rw [toNat_index hlast] at hlt
    omega
  · rintro (hle | ⟨k, hk, htop, hfalse⟩)
    · refine ⟨fun k hk => ?_, fun hwrap => absurd hwrap (not_lt.mpr hle)⟩
      obtain ⟨b, -, rfl⟩ := inRange_of_mem_probe hle hk
      have hb := b.isLt
      rw [toNat_shiftRight_section]
      omega
    · -- the refused section is the one at index `k - addr / 2 ^ 20` of the walk
      have hoff : off (addr >>> 20) (k.toNat - addr.toNat / 2 ^ 20) = k := by
        apply BitVec.eq_of_toNat_eq
        rw [off, BitVec.toNat_add, toNat_shiftRight_section, BitVec.toNat_ofNat]
        omega
      constructor
      · intro x hx
        obtain ⟨i, hi, rfl, hbefore⟩ := mem_probeLoop.mp hx
        rw [toNat_index hi]
        by_contra htop'
        have hpass := hbefore (k.toNat - addr.toNat / 2 ^ 20) (by omega)
        rw [hoff, hfalse] at hpass
        exact Bool.false_ne_true hpass
      · intro hwrap
        rw [Bool.eq_false_iff]
        intro hsucc
        have hpass := probeLoop_snd.mp hsucc (k.toNat - addr.toNat / 2 ^ 20)
          (lt_sectionsNr_iff hwrap (by omega))
        rw [hoff, hfalse] at hpass
        exact Bool.false_ne_true hpass

/-- A memory in which every section descriptor is that of a section that may be read and written:
type 2, `ap` 3. -/
def sectionsSample : Memory := fun x =>
  if x &&& 3#32 = 0#32 then 0x02#8 else if x &&& 3#32 = 1#32 then 0x0c#8 else 0x00#8

/-- Two megabytes from the last section on: descriptor 4096 is dereferenced, and passes. -/
theorem probe_leaves_table :
    ¬ StaysInTable (readCheck Board.sample sectionsSample) 0xfff00000#32 0x200000#32 := by
  intro h
  have hlt := h.1 4096#32 (by decide +kernel)
  exact absurd hlt (by decide)

/-- **Both probes stay in the table iff the range does not wrap or a section before the top may
not be read.** -/
theorem probes_stay_in_table_iff (B : Board) (m : Memory) (addr length : Word) :
    (StaysInTable (readCheck B m) addr length ∧ StaysInTable (writeCheck B m) addr length) ↔
      addr.toNat + length.toNat ≤ 2 ^ 32 ∨ RefusedBelowTop (readCheck B m) addr := by
  rw [staysInTable_iff, staysInTable_iff]
  have himp : RefusedBelowTop (readCheck B m) addr → RefusedBelowTop (writeCheck B m) addr := by
    rintro ⟨k, hk, htop, hfalse⟩
    refine ⟨k, hk, htop, ?_⟩
    rw [Bool.eq_false_iff] at hfalse ⊢
    exact fun hw => hfalse (readCheck_of_writeCheck hw)
  constructor
  · rintro ⟨h, -⟩
    exact h
  · rintro (h | h)
    · exact ⟨Or.inl h, Or.inl h⟩
    · exact ⟨Or.inr h, Or.inr (himp h)⟩

end Hbootdbg.Probe
