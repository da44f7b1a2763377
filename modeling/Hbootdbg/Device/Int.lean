import Hbootdbg.Device.Commands
import Hbootdbg.Lib.A32Cpu

/-!
# `int.c`: from a prefetch abort to the debugger and back

* `saveContextCode`, `restoreContextCode`, `prefetchAbortHandlerCode` — the three routines.
* `Routines` — where they are. The branches are resolved by the linker, which also makes the
  `blx` of an ARM routine a `bl`.
* `contextAt` — a `context` in memory.
-/

namespace Hbootdbg.Device.Int

open Hbootdbg.Lib.ByteMem Hbootdbg.Lib.WordBlock Hbootdbg.Lib.A32Cpu Hbootdbg.Device

/-- `ARM_SPR_MASK_INTS | ARM_MODE_ABORT`. Source: `cpu.h` -/
def abortMode : Word := 0xD7#32

/-- `EVENT_BREAKPOINT`. Source: `int.h` `event_type` -/
def eventBreakpoint : Word := 1#32

/-- Source: `int.c` `save_context` -/
def saveContextCode : List Instr :=
  [.stm [.r 0, .r 1] false,
    .sub (.r 0) .lr 4#32,
    .mrs .lr,
    .msrC .lr,
    .mov (.r 1) .sp,
    .stm [.r 0] false,
    .stm [.lr] false,
    .stm [.r 1] false,
    .stm [.r 2, .r 3, .r 4, .r 5, .r 6, .r 7, .r 8, .r 9, .r 10, .r 11, .r 12] false,
    .msrCImm abortMode,
    .ldm [.r 0, .r 1] false,
    .mrs (.r 2),
    .msrC .lr,
    .stm [.r 0, .r 1] false,
    .stm [.r 2] false,
    .msrCImm abortMode,
    .ldm [.lr] false,
    .subsPc 0#32]

/-- Source: `int.c` `restore_context` -/
def restoreContextCode : List Instr :=
  [.ldm [.r 12] false,
    .msr (.r 12),
    .ldm
      [.r 0, .r 1, .r 2, .r 3, .r 4, .r 5, .r 6, .r 7, .r 8, .r 9, .r 10, .r 11, .r 12] false,
    .ldm [.lr] false,
    .ldm [.lr] true]

/-- Source: `int.c` `prefetch_abort_handler` -/
def prefetchAbortHandlerCode (saveContext dbgEventHandler restoreContext : Word) : List Instr :=
  [.stm [] true,
    .b saveContext,
    .movImm (.r 0) eventBreakpoint,
    .mov (.r 1) .sp,
    .bl dbgEventHandler,
    .bl restoreContext]

/-- Where the routines of `int.c` and the event handler of `dbg.c` are. -/
structure Routines where
  /-- The instructions in the address space. -/
  fetch : Word → Option Instr
  /-- The address of `prefetch_abort_handler`. -/
  prefetchAbortHandler : Word
  /-- The address of `save_context`. -/
  saveContext : Word
  /-- The address of `restore_context`. -/
  restoreContext : Word
  /-- The address of `dbg_event_handler`. -/
  dbgEventHandler : Word
  /-- ARM code is word aligned. -/
  aligned : prefetchAbortHandler.toNat % 4 = 0
  /-- `prefetch_abort_handler` is in place. -/
  handler_at : At fetch prefetchAbortHandler
    (prefetchAbortHandlerCode saveContext dbgEventHandler restoreContext)
  /-- `save_context` is in place. -/
  save_at : At fetch saveContext saveContextCode
  /-- `restore_context` is in place. -/
  restore_at : At fetch restoreContext restoreContextCode

/-- `*(context*) a`. Source: `cpu.h` `context` -/
def contextAt (m : Memory) (a : Word) : Context where
  cpsr := load32 m a
  r i := load32 m (off a (4 + 4 * i.val))

/-- `ctx->pc = v` in memory is `setPc` on the context. -/
theorem contextAt_store_pc (m : Memory) (a v : Word) :
    contextAt (store32 m (off a 64) v) a = (contextAt m a).setPc v := by
  have hcpsr : load32 (store32 m (off a 64) v) (off a 0) = load32 m (off a 0) :=
    load32_store32_off (by decide) (by decide) (by decide) (by decide)
  rw [off_zero] at hcpsr
  unfold contextAt Context.setPc
  rw [hcpsr]
  congr 1
  funext i
  by_cases hi : i = 15
  · rw [hi, Function.update_self]
    exact load32_store32 _ _ _ (by decide)
  · rw [Function.update_of_ne hi]
    have hlt : i.val < 15 := by omega
    exact load32_store32_off (by decide) (by omega) (by omega) (by decide)

end Hbootdbg.Device.Int
