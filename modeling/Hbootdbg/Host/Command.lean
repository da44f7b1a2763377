import Hbootdbg.Device.Commands
import Hbootdbg.Lib.Hex

/-!
# `hbootdbg.py`: packing a command

Python's `int`s are natural numbers here, and `struct.pack` raises (`none`) for one that does not
fit its field.

* `packB`, `packI`, `packBigI` — the formats that `struct.pack` is called with, on a little-endian
  host.
* `Command`, `Command.pack` — the host's command object and its `struct.pack` calls.
* `Method`, `Method.command` — the methods of `HbootDbg`, with the command that each constructs.
* `overlay`, `Command.bytes` — the packed bytes as the device's `command` object, over what the
  object held, and over zeros.
* `isSome_concat` and the lemmas after it — the arguments that a method can pack.
* `attach`, `insertBreakpoint`, … — the objects of the methods for arguments that fit, and
  `addr_insertBreakpoint`, …: the device reads the fields the host packed.
-/

namespace Hbootdbg.Host

open Hbootdbg.Lib.ByteMem Hbootdbg.Lib.Hex Hbootdbg.Device

/-! ## The command object -/

/-- `struct.pack ('B', v)`. -/
def packB (v : ℕ) : Option (List Byte) := if v < 2 ^ 8 then some [BitVec.ofNat 8 v] else none

/-- `struct.pack ('I', v)`. -/
def packI (v : ℕ) : Option (List Byte) :=
  if v < 2 ^ 32 then some (wordBytes (BitVec.ofNat 32 v)) else none

/-- `struct.pack ('>I', v)`. -/
def packBigI (v : ℕ) : Option (List Byte) := (packI v).map List.reverse

/-- `Command`. Source: `scripts/hbootdbg.py` `Command.__init__` -/
structure Command where
  /-- `type`, an index of `COMMAND`. -/
  type : CmdType := .undefined
  /-- `error`. -/
  error : ℕ := 0
  /-- `address`. -/
  address : ℕ := 0
  /-- `size`. -/
  size : ℕ := 0
  /-- `breakpoint_type`. -/
  breakpointType : ℕ := 0
  /-- `data`, `none` for `None`. -/
  data : Option ℕ := none
  /-- `args`. -/
  args : ℕ × ℕ × ℕ × ℕ := (0, 0, 0, 0)
  /-- `time_`. -/
  time : ℕ := 0

/-- The `struct.pack` calls of a command, in order. The data of a `write` go out big-endian.
Source: `scripts/hbootdbg.py` `Command.pack` -/
def Command.packs (c : Command) : List (Option (List Byte)) :=
  packB c.type.code.toNat :: packB c.error ::
    match c.type with
    | .read => [packI c.address, packI c.size]
    | .write => [packI c.address, packI c.size, c.data.bind packBigI]
    | .insertBreakpoint | .removeBreakpoint => [packI c.address, packI c.breakpointType]
    | .call => [packI c.address, packI c.args.1, packI c.args.2.1, packI c.args.2.2.1,
        packI c.args.2.2.2]
    | .flashlight => [packI c.time]
    | _ => []

/-- The concatenation of the results of `struct.pack` calls. -/
def concat : List (Option (List Byte)) → Option (List Byte)
  | [] => some []
  | p :: ps => p.bind fun b => (concat ps).map (b ++ ·)

/-- `Command.pack ()`. Source: `scripts/hbootdbg.py` `Command.pack` -/
def Command.pack (c : Command) : Option (List Byte) := concat c.packs

/-! ## The methods -/

/-- A call of a method of `HbootDbg`. Source: `scripts/hbootdbg.py` `HbootDbg` -/
inductive Method
  | attach
  | detach
  | read (address size : ℕ)
  | write (address size data : ℕ)
  | insertBreakpoint (address type : ℕ)
  | removeBreakpoint (address type : ℕ)
  | breakpointContinue
  | getRegisters
  | call (address : ℕ) (args : ℕ × ℕ × ℕ × ℕ)
  | breakpoint
  | flashlight (time : ℕ)
  | fastbootReboot

/-- The command that a method constructs. `flashlight` passes its argument by position, and the
second parameter of `Command` is `error`. Source: `scripts/hbootdbg.py` `HbootDbg` -/
def Method.command : Method → Command
  | .attach => { type := .attach }
  | .detach => { type := .detach }
  | .read address size => { type := .read, address, size }
  | .write address size data => { type := .write, address, size, data := some data }
  | .insertBreakpoint address type =>
      { type := .insertBreakpoint, address, breakpointType := type }
  | .removeBreakpoint address type =>
      { type := .removeBreakpoint, address, breakpointType := type }
  | .breakpointContinue => { type := .breakpointContinue }
  | .getRegisters => { type := .getRegisters }
  | .call address args => { type := .call, address, args }
  | .breakpoint => { type := .breakpoint }
  | .flashlight time => { type := .flashlight, error := time }
  | .fastbootReboot => { type := .fastbootReboot }

/-! ## The object on the device -/

/-- The packed bytes at the start of an object. -/
def overlay (packed : List Byte) (obj : CmdBytes) : CmdBytes := fun i => packed.getD i (obj i)

/-- The packed bytes at the start of an object that held zeros. -/
def Command.bytes (c : Command) : CmdBytes := overlay (c.pack.getD []) fun _ => 0#8

/-- `attach ()`. Source: `scripts/hbootdbg.py` `HbootDbg.attach` -/
def attach : CmdBytes := Method.attach.command.bytes

/-- `insert_breakpoint (address)`. Source: `scripts/hbootdbg.py` `HbootDbg.insert_breakpoint` -/
def insertBreakpoint (address : Word) : CmdBytes :=
  (Method.insertBreakpoint address.toNat 0).command.bytes

/-- `remove_breakpoint (address)`. Source: `scripts/hbootdbg.py` `HbootDbg.remove_breakpoint` -/
def removeBreakpoint (address : Word) : CmdBytes :=
  (Method.removeBreakpoint address.toNat 0).command.bytes

/-- `breakpoint_continue ()`. Source: `scripts/hbootdbg.py` `HbootDbg.breakpoint_continue` -/
def breakpointContinue : CmdBytes := Method.breakpointContinue.command.bytes

/-- `get_registers ()`. Source: `scripts/hbootdbg.py` `HbootDbg.get_registers` -/
def getRegisters : CmdBytes := Method.getRegisters.command.bytes

/-- `read (address, size)`. Source: `scripts/hbootdbg.py` `HbootDbg.read` -/
def read (address size : Word) : CmdBytes :=
  (Method.read address.toNat size.toNat).command.bytes

/-- `write (address, size, data)`. Source: `scripts/hbootdbg.py` `HbootDbg.write` -/
def write (address size data : Word) : CmdBytes :=
  (Method.write address.toNat size.toNat data.toNat).command.bytes

/-! ## What the device reads -/

/-- A byte is packed as itself. -/
@[simp] theorem packB_toNat (v : Byte) : packB v.toNat = some [v] := by
  unfold packB
  rw [if_pos v.isLt, BitVec.ofNat_toNat, BitVec.setWidth_eq]

/-- A word is packed as its bytes, least significant first. -/
@[simp] theorem packI_toNat (v : Word) : packI v.toNat = some (wordBytes v) := by
  unfold packI
  rw [if_pos v.isLt, BitVec.ofNat_toNat, BitVec.setWidth_eq]

/-- The error field of a request. -/
@[simp] theorem packB_zero : packB 0 = some [0#8] := rfl

/-- A field that is left at zero. -/
@[simp] theorem packI_zero : packI 0 = some (wordBytes 0#32) := rfl

/-- A word comes out of the packed object as it went in. -/
theorem word_wordBytes (v : Word) : byteOf v 3 ++ byteOf v 2 ++ byteOf v 1 ++ byteOf v 0 = v :=
  byteOf_append v

/-- A word is sent big-endian in the order of its bytes. -/
theorem reverse_wordBytes (b0 b1 b2 b3 : Byte) :
    (wordBytes (b0 ++ b1 ++ b2 ++ b3)).reverse = [b0, b1, b2, b3] := by
  have hbyte : ∀ i, (byteOf (b0 ++ b1 ++ b2 ++ b3) i).toNat =
      (b0 ++ b1 ++ b2 ++ b3).toNat / 2 ^ (8 * i) % 2 ^ 8 := by
    intro i
    rw [byteOf, BitVec.toNat_setWidth, BitVec.toNat_ushiftRight, Nat.shiftRight_eq_div_pow]
  have h0 := b0.isLt
  have h1 := b1.isLt
  have h2 := b2.isLt
  have h3 := b3.isLt
  have hb : ∀ (b : Byte) (i : ℕ), (b0 ++ b1 ++ b2 ++ b3).toNat / 2 ^ (8 * i) % 2 ^ 8 = b.toNat →
      byteOf (b0 ++ b1 ++ b2 ++ b3) i = b := fun b i h =>
    BitVec.eq_of_toNat_eq ((hbyte i).trans h)
  simp only [toNat_append_byte] at hb
  unfold wordBytes
  rw [hb b3 0 (by omega), hb b2 1 (by omega), hb b1 2 (by omega), hb b0 3 (by omega)]
  rfl

/-- The bytes of `insert_breakpoint`. -/
theorem pack_insertBreakpoint (a t : Word) :
    (Method.insertBreakpoint a.toNat t.toNat).command.pack =
      some (CmdType.insertBreakpoint.code :: 0#8 :: (wordBytes a ++ wordBytes t)) := by
  simp [Command.pack, Command.packs, Method.command, concat]

/-- The bytes of `remove_breakpoint`. -/
theorem pack_removeBreakpoint (a t : Word) :
    (Method.removeBreakpoint a.toNat t.toNat).command.pack =
      some (CmdType.removeBreakpoint.code :: 0#8 :: (wordBytes a ++ wordBytes t)) := by
  simp [Command.pack, Command.packs, Method.command, concat]

/-- The bytes of `read`. -/
theorem pack_read (a n : Word) :
    (Method.read a.toNat n.toNat).command.pack =
      some (CmdType.read.code :: 0#8 :: (wordBytes a ++ wordBytes n)) := by
  simp [Command.pack, Command.packs, Method.command, concat]

/-- The bytes of `write`; its data are the only field with the most significant byte first. -/
theorem pack_write (a n v : Word) :
    (Method.write a.toNat n.toNat v.toNat).command.pack =
      some (CmdType.write.code :: 0#8 ::
        (wordBytes a ++ (wordBytes n ++ (wordBytes v).reverse))) := by
  simp [Command.pack, Command.packs, Method.command, concat, packBigI]

/-- The bytes of `call`. -/
theorem pack_call (a a0 a1 a2 a3 : Word) :
    (Method.call a.toNat (a0.toNat, a1.toNat, a2.toNat, a3.toNat)).command.pack =
      some (CmdType.call.code :: 0#8 :: (wordBytes a ++
        (wordBytes a0 ++ (wordBytes a1 ++ (wordBytes a2 ++ wordBytes a3))))) := by
  simp [Command.pack, Command.packs, Method.command, concat]

/-- The object that the proxy sends for an insertion, as its bytes over zeros. -/
theorem insertBreakpoint_eq (a : Word) : insertBreakpoint a =
    overlay (CmdType.insertBreakpoint.code :: 0#8 :: (wordBytes a ++ wordBytes 0#32))
      fun _ => 0#8 := by
  have hpack := pack_insertBreakpoint a 0#32
  rw [BitVec.toNat_zero] at hpack
  unfold insertBreakpoint Command.bytes
  rw [hpack, Option.getD_some]

/-- The object that the proxy sends for a removal. -/
theorem removeBreakpoint_eq (a : Word) : removeBreakpoint a =
    overlay (CmdType.removeBreakpoint.code :: 0#8 :: (wordBytes a ++ wordBytes 0#32))
      fun _ => 0#8 := by
  have hpack := pack_removeBreakpoint a 0#32
  rw [BitVec.toNat_zero] at hpack
  unfold removeBreakpoint Command.bytes
  rw [hpack, Option.getD_some]

/-- The device finds the type of an insertion where it looks for it. -/
@[simp] theorem type_insertBreakpoint (a : Word) :
    (insertBreakpoint a).type = CmdType.insertBreakpoint.code := by
  rw [insertBreakpoint_eq]
  rfl

/-- The device finds the address of an insertion. -/
@[simp] theorem addr_insertBreakpoint (a : Word) : (insertBreakpoint a).addr = a := by
  rw [insertBreakpoint_eq]
  exact word_wordBytes a

/-- The device finds the type of the breakpoint in an insertion. -/
@[simp] theorem bpType_insertBreakpoint (a : Word) : (insertBreakpoint a).bpType = 0#8 := by
  rw [insertBreakpoint_eq]
  rfl

/-- The device finds the type of a removal where it looks for it. -/
@[simp] theorem type_removeBreakpoint (a : Word) :
    (removeBreakpoint a).type = CmdType.removeBreakpoint.code := by
  rw [removeBreakpoint_eq]
  rfl

/-- The device finds the address of a removal. -/
@[simp] theorem addr_removeBreakpoint (a : Word) : (removeBreakpoint a).addr = a := by
  rw [removeBreakpoint_eq]
  exact word_wordBytes a

/-- The device finds the type of the breakpoint in a removal. -/
@[simp] theorem bpType_removeBreakpoint (a : Word) : (removeBreakpoint a).bpType = 0#8 := by
  rw [removeBreakpoint_eq]
  rfl

/-! ## What can be packed -/

/-- `struct.pack` raises for a number that does not fit a word. -/
theorem isSome_packI (v : ℕ) : (packI v).isSome ↔ v < 2 ^ 32 := by
  unfold packI
  by_cases h : v < 2 ^ 32
  · rw [if_pos h]
    exact iff_of_true rfl h
  · rw [if_neg h]
    exact iff_of_false Bool.noConfusion h

/-- A command is packed iff each of its `struct.pack` calls returns. -/
theorem isSome_concat (ps : List (Option (List Byte))) :
    (concat ps).isSome ↔ ∀ p ∈ ps, p.isSome := by
  induction ps with
  | nil => exact iff_of_true rfl nofun
  | cons p ps ih =>
      rw [List.forall_mem_cons, ← ih, concat]
      cases p with
      | none => simp
      | some b => simp

/-- A read can be packed iff both of its numbers fit. -/
theorem isSome_pack_read (a n : ℕ) :
    (Method.read a n).command.pack.isSome ↔ a < 2 ^ 32 ∧ n < 2 ^ 32 := by
  rw [Command.pack, isSome_concat]
  simp [Command.packs, Method.command, isSome_packI]

/-- A write can be packed iff its data fit, too. -/
theorem isSome_pack_write (a n v : ℕ) :
    (Method.write a n v).command.pack.isSome ↔ a < 2 ^ 32 ∧ n < 2 ^ 32 ∧ v < 2 ^ 32 := by
  rw [Command.pack, isSome_concat]
  simp [Command.packs, Method.command, packBigI, isSome_packI]

/-- An insertion can be packed iff its address fits. -/
theorem isSome_pack_insertBreakpoint (a : ℕ) :
    (Method.insertBreakpoint a 0).command.pack.isSome ↔ a < 2 ^ 32 := by
  rw [Command.pack, isSome_concat]
  simp [Command.packs, Method.command, isSome_packI]

/-- A removal can be packed iff its address fits. -/
theorem isSome_pack_removeBreakpoint (a : ℕ) :
    (Method.removeBreakpoint a 0).command.pack.isSome ↔ a < 2 ^ 32 := by
  rw [Command.pack, isSome_concat]
  simp [Command.packs, Method.command, isSome_packI]

end Hbootdbg.Host
