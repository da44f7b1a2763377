import Hbootdbg.Device.Hbootlib

/-!
# `dbg.c`: the breakpoint table

The functions of the "Breakpoint" section of `dbg.c`, and the entry of `breakpoint_handler`, as
functions on memory. A `breakpoint*` into the table is the index of its slot; `NULL` is `none`.
The cache maintenance calls of the source have no effect on this memory.

* `dbgInit`, `allocBreakpoint`, `freeBreakpoint`, `getBreakpoint`, `insertBreakpoint`,
  `removeBreakpoint` — the functions of the source.
* `resumeAddress`, `enterStop` — the continue address computed when a stop is entered.
-/

namespace Hbootdbg.Device

open Hbootdbg.Lib.ByteMem

/-- `error_code`. Source: `dbg.h` -/
inductive ErrorCode
  | success
  | unknownCmd
  | malformedCmd
  | invalidMemoryAccess
  | breakpointAlreadyExists
  | noBreakpoint
  | noMemoryAvailable
  | unmappedMemory
  deriving DecidableEq, Repr

/-- The value of an `error_code`. Source: `dbg.h` -/
def ErrorCode.code : ErrorCode → Byte
  | success => 0#8
  | unknownCmd => 1#8
  | malformedCmd => 2#8
  | invalidMemoryAccess => 3#8
  | breakpointAlreadyExists => 4#8
  | noBreakpoint => 5#8
  | noMemoryAvailable => 6#8
  | unmappedMemory => 7#8

variable (B : Board)

/-- `dbg_init ()`: `memset (&status, 0, sizeof (status))`. Source: `dbg.c` `dbg_init` -/
def dbgInit (m : Memory) : Memory := memset m B.status 0#8 sizeofStatus

/-- `get_breakpoint (addr)`: the first slot with that address. Source: `dbg.c` `get_breakpoint` -/
def getBreakpoint (m : Memory) (addr : Word) : Option ℕ :=
  (List.range (bpSize B m).toNat).find? fun i => bpAddress B m i == addr

/-- `alloc_breakpoint ()`. Source: `dbg.c` `alloc_breakpoint` -/
def allocBreakpoint (m : Memory) : Memory × Option ℕ :=
  if dbgNbrPoints ≤ (bpSize B m).toNat then (m, none)
  else
    let m := store32 m (off B.status bpSizeOffset) (bpSize B m + 1#32)
    (m, some (bpSize B m - 1#32).toNat)

/-- `free_breakpoint (bp)`: the first slot with the address of `bp` gets a copy of the last one.
Source: `dbg.c` `free_breakpoint` -/
def freeBreakpoint (m : Memory) (bp : ℕ) : Memory :=
  match (List.range (bpSize B m).toNat).find? fun i => bpAddress B m i == bpAddress B m bp with
  | none => m
  | some i =>
      let m := copy m (bpAt B i) (bpAt B (bpSize B m - 1#32).toNat) sizeofBreakpoint
      store32 m (off B.status bpSizeOffset) (bpSize B m - 1#32)

/-- `insert_breakpoint (addr, type)`. Source: `dbg.c` `insert_breakpoint` -/
def insertBreakpoint (m : Memory) (addr : Word) (type : Byte) : Memory × ErrorCode :=
  if (getBreakpoint B m addr).isSome then (m, .breakpointAlreadyExists)
  else
    match allocBreakpoint B m with
    | (m, none) => (m, .noMemoryAvailable)
    | (m, some bp) =>
        let m := store8 m (bpAt B bp) type
        let m := store32 m (addressAt B bp) addr
        let m := store8 m (enabledAt B bp) 1#8
        let m := store32 m (originalAt B bp 0) (load32 m addr)
        let m := store32 m (originalAt B bp 1) (cpuGetBranch (originalAt B bp 1) (addr + 4#32))
        (store32 m addr armBkpt, .success)

/-- `remove_breakpoint (addr, type)`. Source: `dbg.c` `remove_breakpoint` -/
def removeBreakpoint (m : Memory) (addr : Word) (_type : Byte) : Memory × ErrorCode :=
  match getBreakpoint B m addr with
  | none => (m, .noBreakpoint)
  | some bp =>
      let m := store32 m addr (bpOriginal B m bp 0)
      (freeBreakpoint B m bp, .success)

/-! ## Entering a stop -/

/-- The address a stop at `pc` resumes at: the trampoline of its breakpoint, or the instruction
after a hard-coded one. Source: `dbg.c` `breakpoint_handler` -/
def resumeAddress (m : Memory) (pc : Word) : Word :=
  match getBreakpoint B m pc with
  | none => pc + 4#32
  | some bp => originalAt B bp 0

/-- The entry of `breakpoint_handler`: `status.continue_address = …`.
Source: `dbg.c` `breakpoint_handler` -/
def enterStop (m : Memory) (pc : Word) : Memory :=
  store32 m (off B.status continueOffset) (resumeAddress B m pc)

end Hbootdbg.Device
