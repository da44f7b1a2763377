import Hbootdbg.Device.Board

/-!
# `mmu.c`: the memory probes and the cache range loops

* `sectionsNr`, `mmuProbeRead`, `mmuProbeWrite` — the section walk over the first-level
  translation table, which is read from memory.
* `mmuInvalidateIcacheRange`, `mmuInvalidateDcacheRange`, `mmuInvalidateCacheRange` — the lines that
  the two range loops maintain, or `none` when a loop does not end. Cache maintenance does not change
  the memory modelled here.
-/

namespace Hbootdbg.Device

open Hbootdbg.Lib.ByteMem

variable (B : Board)

/-! ## Probes -/

/-- `MMU_PAGE_SECTION_SIZE`. Source: `mmu.h` -/
def mmuPageSectionSize : Word := 1#32 <<< 20

/-- `mmu_get_translation_table ()`. Source: `mmu.c` `mmu_get_translation_table` -/
def mmuGetTranslationTable : Word := (B.cp15.ttbr0 >>> 14) <<< 14

/-- The descriptor `ttbr[i]`. Source: `mmu.c` `mmu_probe_read` -/
def sectionDesc (m : Memory) (i : Word) : Word :=
  load32 m (mmuGetTranslationTable B + 4#32 * i)

/-- `bits.type` of a descriptor. Source: `mmu.h` `mmu_section_descriptor` -/
def descType (d : Word) : Word := d &&& 3#32

/-- `bits.ap` of a descriptor. Source: `mmu.h` `mmu_section_descriptor` -/
def descAp (d : Word) : Word := (d >>> 10) &&& 3#32

/-- The number of impacted sections. Source: `mmu.c` `mmu_probe_read`, `mmu_probe_write` -/
def sectionsNr (addr length : Word) : Word :=
  let sectionEnd := (addr + mmuPageSectionSize) &&& ~~~(mmuPageSectionSize - 1#32)
  let first : Word × Word :=
    if sectionEnd - addr < length then (1#32, length - (sectionEnd - addr)) else (0#32, length)
  let whole := first.1 + (first.2 >>> 20)
  if first.2 - ((first.2 >>> 20) <<< 20) ≠ 0#32 then whole + 1#32 else whole

/-- `mmu_probe_read (addr, length)`. Source: `mmu.c` `mmu_probe_read` -/
def mmuProbeRead (m : Memory) (addr length : Word) : Bool :=
  (List.range (sectionsNr addr length).toNat).all fun i =>
    let d := sectionDesc B m ((addr >>> 20) + BitVec.ofNat 32 i)
    descType d != 0#32 &&
      (B.cp15.control &&& ((1#32 <<< 8) ||| (1#32 <<< 9)) != 0#32 || descAp d != 0#32)

/-- `mmu_probe_write (addr, length)`. Source: `mmu.c` `mmu_probe_write` -/
def mmuProbeWrite (m : Memory) (addr length : Word) : Bool :=
  (List.range (sectionsNr addr length).toNat).all fun i =>
    let d := sectionDesc B m ((addr >>> 20) + BitVec.ofNat 32 i)
    descType d != 0#32 && descAp d != 0#32

/-! ## Cache maintenance -/

/-- `mmu_get_icache_line_size ()`. Source: `mmu.c` `mmu_get_icache_line_size` -/
def mmuGetIcacheLineSize : Word := 1#32 <<< ((B.cp15.cacheType &&& 3#32) + 3#32)

/-- `mmu_get_dcache_line_size ()`. Source: `mmu.c` `mmu_get_dcache_line_size` -/
def mmuGetDcacheLineSize : Word := 1#32 <<< (((B.cp15.cacheType >>> 12) &&& 3#32) + 3#32)

/-- The line sizes: two bits of the cache type register, plus three, are the exponent. -/
theorem exists_lineSize (len : Word) :
    ∃ k < 32, 3 ≤ k ∧ k < 7 ∧ 1#32 <<< ((len &&& 3#32) + 3#32) = BitVec.twoPow 32 k := by
  have hlen : (len &&& 3#32).toNat < 4 := by
    rw [BitVec.toNat_and]
    exact Nat.and_lt_two_pow _ (show 3 < 2 ^ 2 by decide)
  generalize len &&& 3#32 = v at hlen
  obtain ⟨n, hn, rfl⟩ : ∃ n < 4, v = BitVec.ofNat 32 n :=
    ⟨v.toNat, hlen, by rw [BitVec.ofNat_toNat, BitVec.setWidth_eq]⟩
  refine ⟨n + 3, by omega, by omega, by omega, ?_⟩
  interval_cases n <;> decide

/-- `for (line = …; line < stop; line += size)`: the lines visited, `none` when `fuel` runs out.
Source: `mmu.c` `mmu_invalidate_dcache_range` -/
def linesFrom (size stop : Word) : ℕ → Word → Option (List Word)
  | 0, _ => none
  | fuel + 1, line =>
      if line < stop then (linesFrom size stop fuel (line + size)).map (line :: ·) else some []

/-- The lines of a range, for one line size. A loop that visits more lines than there are
addresses never ends. Source: `mmu.c` `mmu_invalidate_dcache_range`,
`mmu_invalidate_icache_range` -/
def invalidateRange (size addr length : Word) : Option (List Word) :=
  linesFrom size (addr + length) (2 ^ 32) (addr &&& ~~~(size - 1#32))

/-- `mmu_invalidate_icache_range (addr, size)`. Source: `mmu.c` `mmu_invalidate_icache_range` -/
def mmuInvalidateIcacheRange (addr length : Word) : Option (List Word) :=
  invalidateRange (mmuGetIcacheLineSize B) addr length

/-- `mmu_invalidate_dcache_range (addr, size)`. Source: `mmu.c` `mmu_invalidate_dcache_range` -/
def mmuInvalidateDcacheRange (addr length : Word) : Option (List Word) :=
  invalidateRange (mmuGetDcacheLineSize B) addr length

/-- `mmu_invalidate_cache_range (addr, size)`: the instruction lines, then the data lines.
Source: `mmu.c` `mmu_invalidate_cache_range` -/
def mmuInvalidateCacheRange (addr length : Word) : Option (List Word × List Word) := do
  let ilines ← invalidateRange (mmuGetIcacheLineSize B) addr length
  let dlines ← invalidateRange (mmuGetDcacheLineSize B) addr length
  some (ilines, dlines)

end Hbootdbg.Device
