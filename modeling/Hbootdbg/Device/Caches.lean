import Hbootdbg.Device.Breakpoint
import Hbootdbg.Device.Mmu
import Hbootdbg.Lib.Cache

/-!
# `dbg.c` over the caches

The stores of `insert_breakpoint` and `remove_breakpoint`, and the cache maintenance between them,
in the order of the source. Loads go through the data cache, so the operations depend on the data
only.

* `icacheLine`, `dcacheLine` — the lines of an address.
* `storeSpan`, `mmuInvalidateCacheLine` — one store, and the maintenance of one address.
* `insertBreakpointOps`, `removeBreakpointOps` — the two functions as programs;
  `foldl_insertBreakpointOps` and `foldl_removeBreakpointOps` say that their stores have the effect
  of `insertBreakpoint` and `removeBreakpoint`.
-/

namespace Hbootdbg.Device

open Hbootdbg.Lib.ByteMem Hbootdbg.Lib.Cache

/-- An operation on the caches of the phone. -/
abbrev CacheOp := Op Word Byte

variable (B : Board) (m : Memory)

/-! ## Lines -/

/-- The instruction line of an address. Source: `mmu.c` `mmu_get_icache_line_size` -/
def icacheLine (x : Word) : ℕ := x.toNat / (mmuGetIcacheLineSize B).toNat

/-- The data line of an address. Source: `mmu.c` `mmu_get_dcache_line_size` -/
def dcacheLine (x : Word) : ℕ := x.toNat / (mmuGetDcacheLineSize B).toNat

/-- `x` is one of the bytes of the aligned word at `a`. -/
def InWord (a x : Word) : Prop := a.toNat % 4 = 0 ∧ InSpan a 4 x

/-- A line consists of words. -/
theorem four_dvd_lineSize (len : Word) : 4 ∣ (1#32 <<< ((len &&& 3#32) + 3#32)).toNat := by
  obtain ⟨k, hk, h3, -, h⟩ := exists_lineSize len
  rw [h, BitVec.toNat_twoPow_of_lt hk]
  exact Nat.pow_dvd_pow 2 (show 2 ≤ k by omega)

/-- A line holds whole words. -/
theorem div_eq_of_inWord {a x : Word} {size : ℕ} (h : InWord a x) (hsize : 4 ∣ size) :
    x.toNat / size = a.toNat / size := by
  obtain ⟨hal, hin⟩ := h
  obtain ⟨k, rfl⟩ := hsize
  have hx : x.toNat / 4 = a.toNat / 4 := by
    unfold InSpan at hin
    bv_omega
  rw [← Nat.div_div_eq_div_mul, hx, Nat.div_div_eq_div_mul]

variable {B m}

theorem icacheLine_of_inWord (a x : Word) (h : InWord a x) : icacheLine B x = icacheLine B a :=
  div_eq_of_inWord h (four_dvd_lineSize _)

theorem dcacheLine_of_inWord (a x : Word) (h : InWord a x) : dcacheLine B x = dcacheLine B a :=
  div_eq_of_inWord h (four_dvd_lineSize _)

/-! ## Operations -/

/-- `n` bytes are stored at `a`. -/
def storeSpan (a : Word) (n : ℕ) (f : ℕ → Byte) : CacheOp :=
  .store fun x => if (x - a).toNat < n then some (f (x - a).toNat) else none

/-- A byte is stored. -/
def storeByte (a : Word) (v : Byte) : CacheOp := storeSpan a 1 fun _ => v

/-- A word is stored. -/
def storeWord (a v : Word) : CacheOp := storeSpan a 4 (byteOf v)

/-- Storing a span is patching the memory. -/
theorem effect_storeSpan (m : Memory) (a : Word) (n : ℕ) (f : ℕ → Byte) :
    (storeSpan a n f).effect m = patch m a n f := by
  funext x
  unfold storeSpan Op.effect patch
  simp only
  split_ifs <;> rfl

@[simp] theorem effect_storeByte (m : Memory) (a : Word) (v : Byte) :
    (storeByte a v).effect m = store8 m a v := effect_storeSpan m a 1 _

@[simp] theorem effect_storeWord (m : Memory) (a v : Word) :
    (storeWord a v).effect m = store32 m a v := effect_storeSpan m a 4 _

/-- `mmu_invalidate_cache_line (addr)`. Source: `mmu.c` `mmu_invalidate_cache_line` -/
def mmuInvalidateCacheLine (addr : Word) : List CacheOp := [.dropLine addr, .cleanLine addr]

/-! ## Programs -/

variable (B m)

/-- `insert_breakpoint (addr, type)`. Source: `dbg.c` `alloc_breakpoint`, `insert_breakpoint` -/
def insertBreakpointOps (addr : Word) (type : Byte) : List CacheOp :=
  if (getBreakpoint B m addr).isSome then []
  else
    match allocBreakpoint B m with
    | (_, none) => []
    | (m₁, some bp) =>
        let m₂ := store8 m₁ (bpAt B bp) type
        let m₃ := store32 m₂ (addressAt B bp) addr
        let m₄ := store8 m₃ (enabledAt B bp) 1#8
        [storeWord (off B.status bpSizeOffset) (bpSize B m + 1#32),
          storeByte (bpAt B bp) type,
          storeWord (addressAt B bp) addr,
          storeByte (enabledAt B bp) 1#8,
          storeWord (originalAt B bp 0) (load32 m₄ addr),
          storeWord (originalAt B bp 1) (cpuGetBranch (originalAt B bp 1) (addr + 4#32))] ++
        mmuInvalidateCacheLine (originalAt B bp 0) ++ mmuInvalidateCacheLine (originalAt B bp 1) ++
        storeWord addr armBkpt :: mmuInvalidateCacheLine addr

/-- `free_breakpoint (bp)`. Source: `dbg.c` `free_breakpoint` -/
def freeBreakpointOps (bp : ℕ) : List CacheOp :=
  match (List.range (bpSize B m).toNat).find? fun i => bpAddress B m i == bpAddress B m bp with
  | none => []
  | some i =>
      let last := bpAt B (bpSize B m - 1#32).toNat
      let m₁ := copy m (bpAt B i) last sizeofBreakpoint
      [storeSpan (bpAt B i) sizeofBreakpoint fun j => m (off last j),
        storeWord (off B.status bpSizeOffset) (bpSize B m₁ - 1#32)]

/-- `remove_breakpoint (addr, type)`. Source: `dbg.c` `remove_breakpoint` -/
def removeBreakpointOps (addr : Word) : List CacheOp :=
  match getBreakpoint B m addr with
  | none => []
  | some bp =>
      storeWord addr (bpOriginal B m bp 0) :: mmuInvalidateCacheLine addr ++
        freeBreakpointOps B (store32 m addr (bpOriginal B m bp 0)) bp

/-- **The stores of the program are those of the function.** -/
theorem foldl_insertBreakpointOps (addr : Word) (type : Byte) :
    (insertBreakpointOps B m addr type).foldl Op.effect m =
      (insertBreakpoint B m addr type).1 := by
  unfold insertBreakpointOps insertBreakpoint
  by_cases hfound : (getBreakpoint B m addr).isSome
  · rw [if_pos hfound, if_pos hfound]
    rfl
  · rw [if_neg hfound, if_neg hfound]
    unfold allocBreakpoint
    by_cases hfull : dbgNbrPoints ≤ (bpSize B m).toNat
    · rw [if_pos hfull]
      rfl
    · rw [if_neg hfull]
      simp only [mmuInvalidateCacheLine, List.cons_append, List.nil_append, List.foldl_cons,
        List.foldl_nil, effect_storeByte, effect_storeWord, Op.effect_dropLine,
        Op.effect_cleanLine]

/-- The operations of `free_breakpoint` do what it does. -/
theorem foldl_freeBreakpointOps (bp : ℕ) :
    (freeBreakpointOps B m bp).foldl Op.effect m = freeBreakpoint B m bp := by
  unfold freeBreakpointOps freeBreakpoint
  cases (List.range (bpSize B m).toNat).find? fun i => bpAddress B m i == bpAddress B m bp with
  | none => rfl
  | some i =>
      simp only [List.foldl_cons, List.foldl_nil, effect_storeSpan, effect_storeWord]
      rfl

/-- **The stores of the program are those of the function.** -/
theorem foldl_removeBreakpointOps (addr : Word) (type : Byte) :
    (removeBreakpointOps B m addr).foldl Op.effect m = (removeBreakpoint B m addr type).1 := by
  unfold removeBreakpointOps removeBreakpoint
  cases getBreakpoint B m addr with
  | none => rfl
  | some bp =>
      simp only [mmuInvalidateCacheLine, List.cons_append, List.nil_append, List.foldl_cons,
        effect_storeWord, Op.effect_dropLine, Op.effect_cleanLine, foldl_freeBreakpointOps]

end Hbootdbg.Device
