import Hbootdbg.Lib.ByteMem

/-!
# The device: memory, board parameters and the layout of `dbg_status`

* `Board` — what the C code takes from outside the C code: where the linker put the static object
  `status`, the CP15 registers, the address of the abort handler, and the code that `CMD_CALL`
  runs. The layout facts every result needs are fields, so a board that violates them cannot be
  built.
* `bpOffset`, `bpSizeOffset`, `continueOffset`, `sizeofStatus` — the offsets of `dbg_status` and
  `breakpoint` (`dbg.h`). `breakpoint` is 20 bytes whether the compiler gives its leading enum one
  byte or four: the `address` that follows is word aligned.
* `bpAddress`, `bpOriginal`, `bpSize`, `continueAddress` — the fields, loaded from memory. The
  object lives *in* memory, so a breakpoint planted on it is modelled like any other.
-/

namespace Hbootdbg.Device

open Hbootdbg.Lib.ByteMem

/-- `u32`. -/
abbrev Word := BitVec 32

/-- The memory of the phone. -/
abbrev Memory := Mem 32

/-- The CP15 registers that `mmu.c` reads.
Source: `mmu.c` `mmu_get_cache_type_register`, `mmu_get_control_register`,
`mmu_get_translation_table` -/
structure Cp15 where
  /-- `c0, c0, 1`: the cache type register. -/
  cacheType : Word
  /-- `c1, c0, 0`: the control register. -/
  control : Word
  /-- `c2, c0, 0`: the translation table base register. -/
  ttbr0 : Word

/-- `sizeof (dbg_status)`. Source: `dbg.h` -/
def sizeofStatus : ℕ := 1292

/-- What the code finds on the phone it is linked for.
Source: `hbootdbg.elf.ld` (`. = 0x8D0E2000`), `dbg.c` (`static dbg_status status`) -/
structure Board where
  /-- The address of the static object `status`. -/
  status : Word
  /-- The address of `prefetch_abort_handler`. -/
  prefetchAbortHandler : Word
  /-- The system control coprocessor. -/
  cp15 : Cp15
  /-- The effect on memory of the code at an address, called with four arguments. -/
  callee : Word → Word → Word → Word → Word → Memory → Memory
  /-- `dbg_status` starts with a word-aligned member. -/
  aligned : status.toNat % 4 = 0
  /-- `.bss` follows `.text`, which the linker script places at `0x8D0E2000`. -/
  linked : 0x8D0E2000 ≤ status.toNat
  /-- The object does not wrap around. -/
  fits : status.toNat + sizeofStatus ≤ 2 ^ 32

/-- A board with `status` in the page after the code, as the linker script places it, and a
callee that returns at once. Source: `hbootdbg.elf.ld` -/
def Board.sample : Board where
  status := 0x8D0E8000#32
  prefetchAbortHandler := 0x8D0E2400#32
  cp15 := ⟨0x0#32, 0x1#32, 0x8D200000#32⟩
  callee _ _ _ _ _ m := m
  aligned := by decide
  linked := by decide
  fits := by decide

/-- `ARM_BKPT`. Source: `cpu.h` -/
def armBkpt : Word := 0xe1200070#32

/-- `DBG_NBR_POINTS`. Source: `dbg.h` -/
def dbgNbrPoints : ℕ := 64

/-! ## Offsets -/

/-- `sizeof (breakpoint)`. Source: `dbg.h` -/
def sizeofBreakpoint : ℕ := 20

/-- The offset of `bp[i]` in `dbg_status`. Source: `dbg.h` -/
def bpOffset (i : ℕ) : ℕ := 4 + sizeofBreakpoint * i

/-- The offset of `bp_size` in `dbg_status`. Source: `dbg.h` -/
def bpSizeOffset : ℕ := 1284

/-- The offset of `continue_address` in `dbg_status`. Source: `dbg.h` -/
def continueOffset : ℕ := 1288

variable (B : Board) (m : Memory)

/-- `&status.bp[i]`. Source: `dbg.h` -/
def bpAt (i : ℕ) : Word := off B.status (bpOffset i)

/-- `&status.bp[i].address`. Source: `dbg.h` -/
def addressAt (i : ℕ) : Word := off B.status (bpOffset i + 4)

/-- `&status.bp[i].original_instruction[k]`. Source: `dbg.h` -/
def originalAt (i k : ℕ) : Word := off B.status (bpOffset i + (8 + 4 * k))

/-- `&status.bp[i].enabled`. Source: `dbg.h` -/
def enabledAt (i : ℕ) : Word := off B.status (bpOffset i + 16)

/-! ## Fields -/

/-- `status.bp[i].address`. Source: `dbg.h` -/
def bpAddress (i : ℕ) : Word := load32 m (addressAt B i)

/-- `status.bp[i].original_instruction[k]`. Source: `dbg.h` -/
def bpOriginal (i k : ℕ) : Word := load32 m (originalAt B i k)

/-- `status.bp_size`. Source: `dbg.h` -/
def bpSize : Word := load32 m (off B.status bpSizeOffset)

/-- `status.continue_address`. Source: `dbg.h` -/
def continueAddress : Word := load32 m (off B.status continueOffset)

/-- `x` is one of the bytes of the object `status`. -/
def InStatus (x : Word) : Prop := InSpan B.status sizeofStatus x

instance (x : Word) : Decidable (InStatus B x) := inferInstanceAs (Decidable (InSpan _ _ _))

/-- The word at `a` lies outside the object `status`. -/
def OutsideStatus (a : Word) : Prop := Apart a 4 B.status sizeofStatus

instance (a : Word) : Decidable (OutsideStatus B a) := inferInstanceAs (Decidable (Apart _ _ _ _))

/-- Two distinct word-aligned addresses have disjoint words. -/
theorem apart_of_aligned {a b : Word} (ha : a.toNat % 4 = 0) (hb : b.toNat % 4 = 0) (h : a ≠ b) :
    Apart a 4 b 4 := by
  unfold Apart
  constructor <;> bv_omega

/-- A word-aligned address outside the object has its whole word outside. -/
theorem outsideStatus_of_aligned {B : Board} {a : Word} (ha : a.toNat % 4 = 0)
    (h : ¬ InStatus B a) : OutsideStatus B a := by
  have h1 := B.aligned
  have h2 := B.fits
  unfold OutsideStatus Apart
  unfold InStatus InSpan at h
  unfold sizeofStatus at *
  constructor <;> bv_omega

/-- The exception vector is outside the object. -/
theorem outsideStatus_vector {B : Board} : OutsideStatus B 12#32 := by
  refine outsideStatus_of_aligned (by decide) ?_
  have h1 := B.linked
  have h2 := B.fits
  unfold InStatus InSpan
  unfold sizeofStatus at *
  bv_omega

variable {B m}

/-- The words of a trampoline are word aligned. -/
theorem originalAt_toNat_mod {i k : ℕ} : (originalAt B i k).toNat % 4 = 0 := by
  have h1 := B.aligned
  unfold originalAt off bpOffset sizeofBreakpoint
  rw [BitVec.toNat_add, BitVec.toNat_ofNat]
  omega

/-- The second word of a trampoline follows the first. -/
theorem originalAt_one (i : ℕ) : originalAt B i 1 = originalAt B i 0 + 4#32 := by
  unfold originalAt off
  rw [BitVec.add_assoc, ← BitVec.ofNat_add]

/-- The words of a trampoline are in the object. -/
theorem inStatus_of_trampoline {i k : ℕ} {x : Word} (hi : i < dbgNbrPoints) (hk : k < 2)
    (h : InSpan (originalAt B i k) 4 x) : InStatus B x := by
  unfold dbgNbrPoints at hi
  refine InSpan.of_off h ?_ (by decide)
  unfold bpOffset sizeofBreakpoint sizeofStatus
  omega

/-! ## Stores inside and outside the object -/

/-- A word outside the object `status` is apart from each field. -/
theorem OutsideStatus.apart_field {a : Word} {o : ℕ} (h : OutsideStatus B a)
    (ho : o + 4 ≤ sizeofStatus) : Apart a 4 (off B.status o) 4 :=
  Apart.off_right h (by decide) (by decide) ho (by decide)

/-- Planting a word outside the object leaves its fields alone. -/
theorem load32_off_store32 {a v : Word} {o : ℕ} (h : OutsideStatus B a)
    (ho : o + 4 ≤ sizeofStatus) :
    load32 (store32 m a v) (off B.status o) = load32 m (off B.status o) :=
  load32_store32_of_apart (by decide) (h.apart_field ho).symm

/-- Writing a field leaves the words outside the object alone. -/
theorem load32_store32_field {a v : Word} {o : ℕ} (h : OutsideStatus B a)
    (ho : o + 4 ≤ sizeofStatus) : load32 (store32 m (off B.status o) v) a = load32 m a :=
  load32_store32_of_apart (by decide) (h.apart_field ho)

/-- Writing a byte field leaves the words outside the object alone. -/
theorem load32_store8_field {a : Word} {v : Byte} {o : ℕ} (h : OutsideStatus B a)
    (ho : o + 1 ≤ sizeofStatus) : load32 (store8 m (off B.status o) v) a = load32 m a :=
  load32_patch_of_apart (by decide)
    (Apart.off_right h (by decide) (by decide) ho (by decide))

end Hbootdbg.Device
