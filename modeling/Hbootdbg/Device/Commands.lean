import Hbootdbg.Device.Breakpoint
import Hbootdbg.Device.Mmu

/-!
# `dbg.c`: the commands

* `Context`, `Dev` — the saved registers of a stop, and the state a command acts on: memory, the
  packed `command` object (`decoded_buf`, seen as its bytes), the context (`none` for `NULL`) and
  what left the device so far. The handler's own stack frame, which holds the command object and
  the context, is kept apart from `mem`.
* `CmdType` — the command types, with their values.
* `cmdError` … `cmdFastbootReboot` — the handlers, in the order of the source.
* `cmdDispatcher` — the dispatcher. The result is `none` when the command never returns (a cache
  range loop that wraps around).
-/

namespace Hbootdbg.Device

open Hbootdbg.Lib.ByteMem

/-! ## Contexts -/

/-- The indices of registers. -/
instance neZeroSixteen : NeZero 16 := ⟨by decide⟩

/-- `context`: the saved `cpsr` and `r0` … `r15`. Source: `cpu.h` -/
structure Context where
  /-- The saved status register. -/
  cpsr : Word
  /-- `r[16]`; `r[15]` is `pc`. -/
  r : Fin 16 → Word

/-- `ctx->pc`. Source: `cpu.h` -/
def Context.pc (c : Context) : Word := c.r 15

/-- `ctx->pc = v`. Source: `cpu.h` -/
def Context.setPc (c : Context) (v : Word) : Context := { c with r := Function.update c.r 15 v }

@[simp] theorem Context.pc_setPc (c : Context) (v : Word) : (c.setPc v).pc = v := by
  simp [Context.setPc, Context.pc]

/-- The four bytes of a word in memory order. -/
def wordBytes (v : Word) : List Byte := [byteOf v 0, byteOf v 1, byteOf v 2, byteOf v 3]

/-- The 68 bytes of a context. Source: `cpu.h` `context` -/
def Context.bytes (c : Context) : List Byte :=
  wordBytes c.cpsr ++ (List.ofFn c.r).flatMap wordBytes

/-! ## Commands -/

/-- `cmd_type`. Source: `dbg.h` -/
inductive CmdType
  | undefined
  | attach
  | detach
  | read
  | write
  | insertBreakpoint
  | removeBreakpoint
  | breakpointContinue
  | getRegisters
  | call
  | fastbootReboot
  | breakpoint
  | flashlight
  deriving DecidableEq, Repr

/-- The value of a `cmd_type`. Source: `dbg.h` -/
def CmdType.code : CmdType → Byte
  | undefined => 0#8
  | attach => 1#8
  | detach => 2#8
  | read => 3#8
  | write => 4#8
  | insertBreakpoint => 5#8
  | removeBreakpoint => 6#8
  | breakpointContinue => 7#8
  | getRegisters => 8#8
  | call => 50#8
  | fastbootReboot => 51#8
  | breakpoint => 55#8
  | flashlight => 80#8

/-- The types a `switch (cmd->type)` has a case for. Source: `dbg.c` `cmd_dispatcher` -/
def CmdType.ofCode (b : Byte) : Option CmdType :=
  [attach, detach, read, write, insertBreakpoint, removeBreakpoint, getRegisters,
    breakpointContinue, call, breakpoint, flashlight, fastbootReboot].find? fun t => t.code == b

/-- A code that has a type is the code of that type. -/
theorem CmdType.code_of_ofCode {b : Byte} {t : CmdType} (h : ofCode b = some t) : t.code = b := by
  simpa using List.find?_some h

/-- What leaves the device, and the calls out of the debugger's own code. -/
inductive Out
  /-- `__usb_send (data, len)`. -/
  | usbSend (data : List Byte)
  /-- `__turn_on_flashlight (time)`. -/
  | turnOnFlashlight (time : Word)
  /-- `__fastboot_reboot ()`, which does not return. -/
  | fastbootReboot
  /-- The `bkpt` instruction of `cmd_breakpoint`. -/
  | bkpt
  /-- `blx r4` of `cmd_call`, with `r0` … `r3`. -/
  | call (addr a0 a1 a2 a3 : Word)
  deriving DecidableEq

/-- The bytes of the `command` object. Source: `dbg.h` `command` -/
abbrev CmdBytes := ℕ → Byte

/-- The little-endian word at offset `o` of the packed object. Source: `dbg.h` `command` -/
def CmdBytes.word (c : CmdBytes) (o : ℕ) : Word := c (o + 3) ++ c (o + 2) ++ c (o + 1) ++ c o

/-- `cmd->type`. Source: `dbg.h` `command` -/
def CmdBytes.type (c : CmdBytes) : Byte := c 0

/-- `cmd->error`. Source: `dbg.h` `command` -/
def CmdBytes.error (c : CmdBytes) : Byte := c 1

/-- `cmd->read.addr`, `cmd->write.addr`, `cmd->breakpoint.addr`, `cmd->call.addr`: the first
member of each of these structs. Source: `dbg.h` `command` -/
def CmdBytes.addr (c : CmdBytes) : Word := CmdBytes.word c 2

/-- `cmd->read.size`, `cmd->write.size`. Source: `dbg.h` `command` -/
def CmdBytes.size (c : CmdBytes) : Word := CmdBytes.word c 6

/-- `cmd->write.data[i]`. Source: `dbg.h` `command` -/
def CmdBytes.data (c : CmdBytes) (i : ℕ) : Byte := c (10 + i)

/-- `cmd->breakpoint.type`. Source: `dbg.h` `command` -/
def CmdBytes.bpType (c : CmdBytes) : Byte := c 6

/-- `cmd->call.args[i]`. Source: `dbg.h` `command` -/
def CmdBytes.arg (c : CmdBytes) (i : ℕ) : Word := CmdBytes.word c (6 + 4 * i)

/-- `cmd->flashlight.time`. Source: `dbg.h` `command` -/
def CmdBytes.time (c : CmdBytes) : Word := CmdBytes.word c 2

/-- The state a command acts on. -/
structure Dev where
  /-- Memory, with the object `status` in it. -/
  mem : Memory
  /-- The object `cmd` points to. -/
  cmd : CmdBytes
  /-- The object `ctx` points to, `none` for `NULL`. -/
  ctx : Option Context
  /-- What left the device, oldest first. -/
  out : List Out

/-- A device at rest, outside any stop, with every byte of memory zero. -/
def Dev.sample : Dev where
  mem _ := 0#8
  cmd _ := 0#8
  ctx := none
  out := []

/-- `__usb_send (data, len)`. -/
def Dev.send (d : Dev) (data : List Byte) : Dev := { d with out := d.out ++ [.usbSend data] }

/-! ## Handlers -/

variable (B : Board)

/-- `cmd_error (cmd, error)`. Source: `dbg.c` `cmd_error` -/
def cmdError (d : Dev) (error : ErrorCode) : Dev :=
  let d := { d with cmd := Function.update d.cmd 1 error.code }
  d.send [d.cmd 0, d.cmd 1]

/-- `cmd_success (cmd)`. Source: `dbg.c` `cmd_success` -/
def cmdSuccess (d : Dev) : Dev := cmdError d .success

/-- `int_install_exception_handlers ()`: the branch in `ivt->prefetch_abort`. The stack pointer of
the abort mode, which it also sets, is not part of this model.
Source: `int.c` `int_install_exception_handlers` -/
def intInstallExceptionHandlers (m : Memory) : Memory :=
  store32 m 12#32 (cpuGetBranch 12#32 (B.prefetchAbortHandler &&& 0xffffff#32))

/-- `cmd_attach`. Source: `dbg.c` `cmd_attach` -/
def cmdAttach (d : Dev) : Dev :=
  cmdSuccess { d with mem := intInstallExceptionHandlers B (dbgInit B d.mem) }

/-- `cmd_detach`. Source: `dbg.c` `cmd_detach` -/
def cmdDetach (d : Dev) : Dev := cmdSuccess d

/-- The packets of the sending loop of `cmd_read`, `block_size` bytes each but the last.
Source: `dbg.c` `cmd_read` -/
def readPackets (m : Memory) : ℕ → Word → ℕ → List (List Byte)
  | 0, _, _ => []
  | fuel + 1, addr, count =>
      if count = 0 then []
      else
        let len := if count < 1024 then count else 1024
        bytes m addr len :: readPackets m fuel (off addr len) (count - len)

/-- `cmd_read`. Source: `dbg.c` `cmd_read` -/
def cmdRead (d : Dev) : Dev :=
  let addr := d.cmd.addr
  let count := d.cmd.size
  if mmuProbeRead B d.mem addr count then
    (readPackets d.mem count.toNat addr count.toNat).foldl Dev.send (cmdSuccess d)
  else cmdError d .unmappedMemory

/-- `cmd_write`. Source: `dbg.c` `cmd_write` -/
def cmdWrite (d : Dev) : Option Dev :=
  let addr := d.cmd.addr
  let size := d.cmd.size
  if mmuProbeRead B d.mem addr size then
    let d := { d with mem := memcpyIn d.mem addr d.cmd.data size.toNat }
    (mmuInvalidateCacheRange B addr size).map fun _ => cmdSuccess d
  else some (cmdError d .unmappedMemory)

/-- `cmd_insert_breakpoint`. Source: `dbg.c` `cmd_insert_breakpoint` -/
def cmdInsertBreakpoint (d : Dev) : Dev :=
  let r := insertBreakpoint B d.mem d.cmd.addr d.cmd.bpType
  cmdError { d with mem := r.1 } r.2

/-- `cmd_remove_breakpoint`. Source: `dbg.c` `cmd_remove_breakpoint` -/
def cmdRemoveBreakpoint (d : Dev) : Dev :=
  let r := removeBreakpoint B d.mem d.cmd.addr d.cmd.bpType
  cmdError { d with mem := r.1 } r.2

/-- `cmd_get_registers`. Source: `dbg.c` `cmd_get_registers` -/
def cmdGetRegisters (d : Dev) : Dev :=
  match d.ctx with
  | none => cmdError d .noBreakpoint
  | some ctx => (cmdSuccess d).send ctx.bytes

/-- `cmd_breakpoint_continue`. Source: `dbg.c` `cmd_breakpoint_continue` -/
def cmdBreakpointContinue (d : Dev) : Dev :=
  match d.ctx with
  | none => cmdError d .noBreakpoint
  | some ctx => cmdSuccess { d with ctx := some (ctx.setPc (continueAddress B d.mem)) }

/-- `cmd_breakpoint`, up to its `bkpt`. Source: `dbg.c` `cmd_breakpoint` -/
def cmdBreakpoint (d : Dev) : Dev :=
  let d := cmdSuccess d
  { d with out := d.out ++ [.bkpt] }

/-- `cmd_flashlight`. Source: `dbg.c` `cmd_flashlight` -/
def cmdFlashlight (d : Dev) : Dev :=
  let d := cmdSuccess d
  { d with out := d.out ++ [.turnOnFlashlight d.cmd.time] }

/-- `cmd_call`. It sends no status. Source: `dbg.c` `cmd_call` -/
def cmdCall (d : Dev) : Dev :=
  let a := d.cmd.arg
  { d with
    mem := B.callee d.cmd.addr (a 0) (a 1) (a 2) (a 3) d.mem
    out := d.out ++ [.call d.cmd.addr (a 0) (a 1) (a 2) (a 3)] }

/-- `cmd_fastboot_reboot`. Source: `dbg.c` `cmd_fastboot_reboot` -/
def cmdFastbootReboot (d : Dev) : Dev := { d with out := d.out ++ [.fastbootReboot] }

/-- `cmd_dispatcher (cmd, ctx)`. Source: `dbg.c` `cmd_dispatcher` -/
def cmdDispatcher (d : Dev) : Option Dev :=
  match CmdType.ofCode d.cmd.type with
  | some .attach => some (cmdAttach B d)
  | some .detach => some (cmdDetach d)
  | some .read => some (cmdRead B d)
  | some .write => cmdWrite B d
  | some .insertBreakpoint => some (cmdInsertBreakpoint B d)
  | some .removeBreakpoint => some (cmdRemoveBreakpoint B d)
  | some .getRegisters => some (cmdGetRegisters d)
  | some .breakpointContinue => some (cmdBreakpointContinue B d)
  | some .call => some (cmdCall B d)
  | some .breakpoint => some (cmdBreakpoint d)
  | some .flashlight => some (cmdFlashlight d)
  | some .fastbootReboot => some (cmdFastbootReboot d)
  | some .undefined | none => some (cmdError d .unknownCmd)

end Hbootdbg.Device
