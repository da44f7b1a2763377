import Hbootdbg.Device.Commands

/-!
# `preloader.c`: the handler that loads the debugger

* `sendBlocks` — the sending loop, on 32-bit variables; the one of `cmd_read` has the same text.
* `cmdReadMemory`, `cmdWriteMemory`, `cmdDefault`, `myFbCmdOemDbg` — the handlers, and their
  dispatcher. `__memcpy` is a function of the phone, and so a parameter.
-/

namespace Hbootdbg.Device.Preloader

open Hbootdbg.Lib.ByteMem Hbootdbg.Device

/-- `CMD_READ_MEM`. Source: `preloader.h` -/
def cmdReadMem : Byte := 7#8

/-- `CMD_WRITE_MEM`. Source: `preloader.h` -/
def cmdWriteMem : Byte := 8#8

/-- `ERROR_SUCCESS`. Source: `preloader.h` -/
def errorSuccess : Byte := 0#8

/-- `ERROR_CMD_NOT_FOUND`, which is -1. Source: `preloader.h` -/
def errorCmdNotFound : Byte := 0xff#8

/-- The bytes of a `request_packet`; both structs of its union start at offset 1.
Source: `preloader.h` `request_packet` -/
abbrev RequestPacket := ℕ → Byte

/-- `packet->read.base`, `packet->write.dest`. Source: `preloader.h` `request_packet` -/
def RequestPacket.base (packet : RequestPacket) : Word := CmdBytes.word packet 1

/-- `packet->read.size`, `packet->write.size`. Source: `preloader.h` `request_packet` -/
def RequestPacket.size (packet : RequestPacket) : Word := CmdBytes.word packet 5

/-- A `response_packet` over zeros: four bytes with the alignment.
Source: `preloader.h` `response_packet` -/
def responsePacket (type errorCode : Byte) : List Byte := [type, errorCode, 0#8, 0#8]

/-- Memory, and what `__usb_send_to_device_1` has sent. -/
structure State where
  /-- Memory. -/
  mem : Memory
  /-- The packets sent, oldest first. -/
  out : List (List Byte)

/-- `while (count > 0)`: the packets sent, `none` when `fuel` runs out.
Source: `preloader.c` `cmd_read_memory`, `dbg.c` `cmd_read` -/
def sendBlocks (m : Memory) : ℕ → Word → Word → Option (List (List Byte))
  | 0, _, _ => none
  | fuel + 1, ptr, count =>
      if count = 0#32 then some []
      else
        let len := if count < 1024#32 then count else 1024#32
        (sendBlocks m fuel (ptr + len) (count - len)).map (bytes m ptr len.toNat :: ·)

/-- `cmd_read_memory (addr, count)`. Every round takes something from `count`, so the loop has
ended after `2 ^ 32` rounds, or never ends. Source: `preloader.c` `cmd_read_memory` -/
def cmdReadMemory (s : State) (addr count : Word) : Option State :=
  (sendBlocks s.mem (2 ^ 32) addr count).map fun packets => { s with out := s.out ++ packets }

/-- `cmd_write_memory (dest, data, size)`. Source: `preloader.c` `cmd_write_memory` -/
def cmdWriteMemory (memcpy : Memory → Word → Word → Word → Memory) (s : State)
    (dest data size : Word) : State where
  mem := memcpy s.mem dest data size
  out := s.out ++ [responsePacket cmdWriteMem errorSuccess]

/-- `cmd_default ()`. Source: `preloader.c` `cmd_default` -/
def cmdDefault (s : State) : State :=
  { s with out := s.out ++ [responsePacket 0#8 errorCmdNotFound] }

/-- `my_fb_cmd_oem_dbg (cmd)`: the data of a write are where the phone puts a download.
Source: `preloader.c` `my_fb_cmd_oem_dbg` -/
def myFbCmdOemDbg (memcpy : Memory → Word → Word → Word → Memory) (s : State)
    (packet : RequestPacket) : Option State :=
  if packet 0 = cmdReadMem then cmdReadMemory s packet.base packet.size
  else if packet 0 = cmdWriteMem then
    some (cmdWriteMemory memcpy s packet.base 0x058D3000#32 packet.size)
  else some (cmdDefault s)

/-! ## The sending loop -/

variable {m : Memory} {ptr count : Word} {fuel : ℕ}

/-- **The loop ends**, and sends the packets of `cmd_read`. -/
theorem sendBlocks_eq {n : ℕ} (hfuel : count.toNat < fuel) (hn : count.toNat ≤ n) :
    sendBlocks m fuel ptr count = some (readPackets m n ptr count.toNat) := by
  induction fuel generalizing ptr count n with
  | zero => omega
  | succ fuel ih =>
      unfold sendBlocks
      by_cases hzero : count = 0#32
      · rw [if_pos hzero, hzero]
        cases n <;> rfl
      · have hpos : 0 < count.toNat := Nat.pos_of_ne_zero fun h =>
          hzero (BitVec.eq_of_toNat_eq h)
        obtain ⟨n, rfl⟩ := Nat.exists_eq_succ_of_ne_zero (by omega : n ≠ 0)
        generalize hlen : (if count < 1024#32 then count else 1024#32) = len
        have hlen' : (if count.toNat < 1024 then count.toNat else 1024) = len.toNat := by
          rw [← hlen]
          split_ifs <;> bv_omega
        have hle : 0 < len.toNat ∧ len.toNat ≤ count.toNat := by
          rw [← hlen']
          split_ifs <;> omega
        have hrest : (count - len).toNat = count.toNat - len.toNat := by bv_omega
        have hnext : ptr + len = off ptr len.toNat := by
          rw [off, BitVec.ofNat_toNat, BitVec.setWidth_eq]
        rw [if_neg hzero, readPackets, if_neg (by omega), hlen']
        simp only
        rw [ih (n := n) (by omega) (by omega), hrest, hnext, Option.map_some]

end Hbootdbg.Device.Preloader
