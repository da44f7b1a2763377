import Hbootdbg.Device.Base64
import Hbootdbg.Device.Commands
import Hbootdbg.Lib.Run

/-!
# `dbg.c` and `hbootdbg.c`: where commands come from

A command arrives while the device runs (`hbootdbg`) or during a stop (`breakpoint_handler`), and is
decoded into the local `decoded_buf`.

* `usbRecv`, `payload` — the local `buf` after a packet, and the string that is decoded.
* `HandlerInBounds` — the accesses of the decoding are inside the two buffers. What happens after an
  access outside is not defined, and is not modelled.
* `handlerIteration`, `breakpointHandler` — one iteration of the loop of a stop, and the handler.
* `hbootdbg` — the command hook.
-/

namespace Hbootdbg.Device

open Hbootdbg.Lib.ByteMem Hbootdbg.Lib.Run

/-! ## Packets -/

/-- `sizeof (buf)`, and the size of `decoded_buf`.
Source: `dbg.c` `breakpoint_handler`, `hbootdbg.c` `hbootdbg` -/
def sizeofBuf : ℕ := 1024

/-- `buf` after `__usb_recv (buf, …)`: the bytes of the packet at the start, the rest as it was.
Source: `dbg.c` `breakpoint_handler` -/
def usbRecv (packet : List Byte) (buf : ℕ → Byte) : ℕ → Byte := fun i => packet.getD i (buf i)

/-- What is stripped: `"oem "` or `"keytest "`. Source: `dbg.c` `breakpoint_handler` -/
def payloadOffset (first : Byte) : ℕ := if first = 0x6f#8 then 4 else 8

/-- `buf + 4` or `buf + 8`. Source: `dbg.c` `breakpoint_handler` -/
def payload (buf : ℕ → Byte) : ℕ → Byte := fun i => buf (payloadOffset (buf 0) + i)

/-- The indices of `decoded_buf` that decoding a string writes are inside it. -/
def WritesInBounds (input decodedBuf : ℕ → Byte) : Prop :=
  ∀ r ∈ base64Decode input decodedBuf, ∀ i ∈ r.writes, i < sizeofBuf

/-- The indices of `buf` that `strlen` and the decoder read, and the indices of `decoded_buf` that
the decoder writes, are inside the two buffers. -/
def HandlerInBounds (buf decodedBuf : ℕ → Byte) : Prop :=
  (∀ i ∈ strlenReads (payload buf), payloadOffset (buf 0) + i < sizeofBuf) ∧
    (∀ r ∈ base64Decode (payload buf) decodedBuf, ∀ i ∈ r.reads,
      payloadOffset (buf 0) + i < sizeofBuf) ∧
    WritesInBounds (payload buf) decodedBuf

instance (input decodedBuf : ℕ → Byte) : Decidable (WritesInBounds input decodedBuf) :=
  inferInstanceAs (Decidable (∀ r ∈ base64Decode input decodedBuf, _))

instance (buf decodedBuf : ℕ → Byte) : Decidable (HandlerInBounds buf decodedBuf) :=
  inferInstanceAs (Decidable (_ ∧ _ ∧ _))

/-! ## Stops -/

/-- The entry of `breakpoint_handler (ctx)`. Source: `dbg.c` `breakpoint_handler` -/
def enter (B : Board) (d : Dev) (ctx : Context) : Dev :=
  { d with mem := enterStop B d.mem ctx.pc, ctx := some ctx }

@[simp] theorem enter_mem (B : Board) (d : Dev) (ctx : Context) :
    (enter B d ctx).mem = enterStop B d.mem ctx.pc := rfl

/-- A stopped device: the local `buf` of its handler, and the rest. The local `decoded_buf` is the
object that commands are read from. -/
structure Stopped where
  /-- The device. -/
  dev : Dev
  /-- `buf`. -/
  buf : ℕ → Byte

/-- Where the handler is. -/
inductive Outcome
  /-- In its loop, before the next `__usb_recv`. -/
  | waiting (s : Stopped)
  /-- Past its loop. -/
  | returned (s : Stopped)
  /-- In a command that never returns. -/
  | hangs
  /-- At an access outside its buffers. -/
  | outOfBounds

/-- The loop is left after these commands. Source: `dbg.c` `breakpoint_handler` -/
def leavesLoop (type : Byte) : Bool :=
  type == CmdType.breakpointContinue.code || type == CmdType.detach.code

/-- The test at the end of an iteration, after the command. Source: `dbg.c` `breakpoint_handler` -/
def afterCommand (buf : ℕ → Byte) : Option Dev → Outcome
  | none => .hangs
  | some d => if leavesLoop d.cmd.type then .returned ⟨d, buf⟩ else .waiting ⟨d, buf⟩

/-- One iteration, with the packet that ends the polling.
Source: `dbg.c` `breakpoint_handler` -/
def handlerIteration (B : Board) (s : Stopped) (packet : List Byte) : Outcome :=
  let buf := usbRecv packet s.buf
  if HandlerInBounds buf s.dev.cmd then
    match base64Decode (payload buf) s.dev.cmd with
    | none => .hangs
    | some r => afterCommand buf (cmdDispatcher B { s.dev with cmd := r.plaintext })
  else .outOfBounds

/-- The handler takes what one `__usb_recv` hands over, nothing at all included.
Source: `dbg.c` `breakpoint_handler` -/
def handlerStep (B : Board) : Outcome → List Byte → Outcome
  | .waiting s, [] => .waiting s
  | .waiting s, packet => handlerIteration B s packet
  | o, _ => o

/-- `breakpoint_handler (ctx)`, with what the calls of `__usb_recv` hand over.
Source: `dbg.c` `breakpoint_handler` -/
def breakpointHandler (B : Board) (s : Stopped) (ctx : Context) (packets : List (List Byte)) :
    Outcome := run (handlerStep B) (.waiting { s with dev := enter B s.dev ctx }) packets

/-! ## The command hook -/

/-- `argv[1]` or `cmd`. Source: `hbootdbg.c` `hbootdbg` -/
def hbootdbgString (m : Memory) (cmd argv : Word) : Word :=
  if cmd < 100#32 then load32 m (argv + 4#32) else cmd

/-- The string at an address. -/
def stringAt (m : Memory) (s : Word) : ℕ → Byte := fun i => m (off s i)

/-- `hbootdbg (cmd, argv)`, `none` when it never returns. Source: `hbootdbg.c` `hbootdbg` -/
def hbootdbg (B : Board) (d : Dev) (cmd argv : Word) : Option Dev := do
  let r ← base64Decode (stringAt d.mem (hbootdbgString d.mem cmd argv)) d.cmd
  cmdDispatcher B { d with cmd := r.plaintext, ctx := none }

end Hbootdbg.Device
