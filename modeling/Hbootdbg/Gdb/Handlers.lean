import Hbootdbg.Host.Client
import Hbootdbg.Lib.Hex

/-!
# `gdbproxy.py`: the memory and breakpoint handlers

A handler gets the digits that its regular expression has matched (`cmd_match.group (1)`) and the
other fields of the packet (`data_list`). Its result is the device and the data of the reply, or
`none` where Python raises or the device never returns. `int` takes digits only here: GDB sends
nothing else.

* `HexWord` — a hexadecimal argument that fits a word.
* `handleReadMemory`, `handleWriteMemory`, `handleInsertBreakpoint`, `handleRemoveBreakpoint` — the
  handlers.
-/

namespace Hbootdbg.Gdb

open Hbootdbg.Lib.ByteMem Hbootdbg.Lib.Hex Hbootdbg.Device Hbootdbg.Host

/-- A hexadecimal argument. -/
structure HexWord where
  /-- The digits in the packet. -/
  text : List Byte
  /-- The word they stand for. -/
  value : Word
  /-- The digits are those of the word, in any case and with any leading zeros. -/
  spells : ofHex text = some value.toNat

/-- `8d001000`. -/
def addressSample : HexWord where
  text := [0x38#8, 0x64#8, 0x30#8, 0x30#8, 0x31#8, 0x30#8, 0x30#8, 0x30#8]
  value := 0x8D001000#32
  spells := by decide

/-- `b'OK'`. -/
def ok : List Byte := [0x4f#8, 0x4b#8]

variable (H : HbootClient) (B : Board) (d : Dev) (group : List Byte) (dataList : List (List Byte))

/-- `handle_read_memory`. Source: `scripts/gdbproxy.py` `handle_read_memory` -/
def handleReadMemory : Option (Dev × List Byte) := do
  let address ← ofHex group
  let size ← dataList[0]?.bind ofHex
  let (d', response) ← request H B d (.read address size)
  let data ← response.data
  some (d', hexlify data)

/-- `handle_write_memory`. Source: `scripts/gdbproxy.py` `handle_write_memory` -/
def handleWriteMemory : Option (Dev × List Byte) := do
  let address ← ofHex group
  let size ← dataList[0]?.bind ofHex
  let data ← dataList[1]?.bind ofHex
  let (d', response) ← request H B d (.write address size data)
  let res ← response.data
  some (d', hexlify res)

/-- `handle_insert_breakpoint`. It does not use the response.
Source: `scripts/gdbproxy.py` `handle_insert_breakpoint` -/
def handleInsertBreakpoint : Option (Dev × List Byte) := do
  let address ← dataList[0]?.bind ofHex
  let _type ← dataList[1]?.bind ofDecimal
  let (d', _) ← request H B d (.insertBreakpoint address 0)
  some (d', ok)

/-- `handle_remove_breakpoint`. It does not use the response.
Source: `scripts/gdbproxy.py` `handle_remove_breakpoint` -/
def handleRemoveBreakpoint : Option (Dev × List Byte) := do
  let address ← dataList[0]?.bind ofHex
  let _type ← dataList[1]?.bind ofDecimal
  let (d', _) ← request H B d (.removeBreakpoint address 0)
  some (d', ok)

/-! ## A write, once its arguments are read -/

section write

variable {H B d} {a n : HexWord} {data : List Byte}

theorem handleWriteMemory_eq (hdata : data ≠ []) :
    handleWriteMemory H B d a.text [n.text, hexlify data] =
      (request H B d (.write a.value.toNat n.value.toNat (bigEndian 0 data))).bind fun r =>
        r.2.data.bind fun res => some (r.1, hexlify res) := by
  unfold handleWriteMemory
  rw [a.spells]
  simp only [List.getElem?_cons_zero, List.getElem?_cons_succ, Option.bind_eq_bind,
    Option.bind_some, n.spells, ofHex_hexlify hdata]

/-- The data do not fit the word of the command. -/
theorem handleWriteMemory_raises (hdata : data ≠ []) (h : 2 ^ 32 ≤ bigEndian 0 data) :
    handleWriteMemory H B d a.text [n.text, hexlify data] = none := by
  have hpack : packI (bigEndian 0 data) = none := if_neg (Nat.not_lt.mpr h)
  rw [handleWriteMemory_eq hdata]
  simp [request, Command.pack, Command.packs, Method.command, concat, packBigI, hpack]

end write

end Hbootdbg.Gdb
