import Hbootdbg.Probe.Sections
import Hbootdbg.Session.Serve

/-!
# What the commands probe before they touch memory

`cmd_read` and `cmd_write` are guarded by `mmu_probe_read`. `mmu_probe_write` has no caller, and
the breakpoint commands probe nothing.

* `RespectsWritePermission` — a write happens only where `mmu_probe_write` allows it;
  `respectsWritePermission_iff` says for which tables and control registers.
* `insertBreakpointLog`, `removeBreakpointLog` — the two table operations, with their accesses
  through the address that the command carries.
* `InsertRespectsMapping`, `RemoveRespectsMapping` — these accesses stay in mapped sections;
  `respectsMapping_iff` says when.
-/

namespace Hbootdbg.Probe

open Hbootdbg.Lib.ByteMem Hbootdbg.Device Hbootdbg.Session Hbootdbg.Table

variable {B : Board} {m : Memory} {d : Dev} {addr length : Word}

/-! ## Writing -/

/-- `cmd_write` changes memory only where `mmu_probe_write` returns 1, and where it does not it
answers `ERROR_UNMAPPED_MEMORY` and changes nothing. -/
def RespectsWritePermission (B : Board) (d : Dev) : Prop :=
  (∀ d', cmdWrite B d = some d' → d'.mem ≠ d.mem →
      mmuProbeWrite B d.mem d.cmd.addr d.cmd.size = true) ∧
    (mmuProbeWrite B d.mem d.cmd.addr d.cmd.size = false →
      ∃ d', cmdWrite B d = some d' ∧ d'.mem = d.mem ∧
        d'.out = d.out ++ [.usbSend [d.cmd.type, ErrorCode.unmappedMemory.code]])

/-- A guard of `mmu_probe_read` is one of `mmu_probe_write`: neither the `S` nor the `R` bit is
set, or the range holds an unmapped section, or `ap` is not 0 in any of its sections. -/
def ReadGuardSuffices (B : Board) (m : Memory) (addr length : Word) : Prop :=
  ¬ ProtectionBit B ∨
    (∃ b, InRange addr length b ∧ descType (sectionDesc B m (b >>> 20)) = 0#32) ∨
    ∀ b, InRange addr length b → descAp (sectionDesc B m (b >>> 20)) ≠ 0#32

/-- The condition is that no range is readable and not writable. -/
theorem readGuardSuffices_iff (h : addr.toNat + length.toNat ≤ 2 ^ 32) :
    ReadGuardSuffices B m addr length ↔
      (mmuProbeRead B m addr length = true → mmuProbeWrite B m addr length = true) := by
  have hex := probes_exact B m addr length h
  rw [hex.read, hex.write]
  constructor
  · rintro (hbit | ⟨b, hb, htype⟩ | hap) hread b' hb'
    · exact ⟨(hread b' hb').1, (hread b' hb').2 hbit⟩
    · exact absurd htype (hread b hb).1
    · exact ⟨(hread b' hb').1, hap b' hb'⟩
  · intro himp
    by_cases hbit : ProtectionBit B
    · by_cases htype : ∃ b, InRange addr length b ∧ descType (sectionDesc B m (b >>> 20)) = 0#32
      · exact Or.inr (Or.inl htype)
      · refine Or.inr (Or.inr fun b hb => (himp (fun b' hb' => ⟨?_, ?_⟩) b hb).2)
        · exact fun h0 => htype ⟨b', hb', h0⟩
        · exact fun hno => absurd hbit hno
    · exact Or.inl hbit

/-- A write that is not refused is not answered with an error. -/
theorem not_respectsWritePermission
    (hread : mmuProbeRead B d.mem d.cmd.addr d.cmd.size = true)
    (hwrite : mmuProbeWrite B d.mem d.cmd.addr d.cmd.size = false) :
    ¬ RespectsWritePermission B d := by
  rintro ⟨-, herr⟩
  obtain ⟨d', hd', -, hout⟩ := herr hwrite
  unfold cmdWrite at hd'
  simp only [if_pos hread, Option.map_eq_some_iff] at hd'
  obtain ⟨_, -, rfl⟩ := hd'
  rw [cmdSuccess_out, List.append_cancel_left_eq] at hout
  have hcode : d.cmd 0 = d.cmd.type ∧
      ErrorCode.success.code = ErrorCode.unmappedMemory.code := by
    simpa using hout
  exact absurd hcode.2 (by decide)

/-- **`cmd_write` respects the write permission iff its guard is as strong as
`mmu_probe_write`.** -/
theorem respects_write_permission_iff (B : Board) (d : Dev)
    (h : d.cmd.addr.toNat + d.cmd.size.toNat ≤ 2 ^ 32) :
    RespectsWritePermission B d ↔ ReadGuardSuffices B d.mem d.cmd.addr d.cmd.size := by
  rw [readGuardSuffices_iff h]
  constructor
  · intro hok hread
    by_contra hwrite
    exact not_respectsWritePermission hread (Bool.eq_false_iff.mpr hwrite) hok
  · intro himp
    refine ⟨fun d' hd' hne => himp ?_, fun hwrite => ?_⟩
    · by_contra hread
      unfold cmdWrite at hd'
      simp only [if_neg hread, Option.some.injEq] at hd'
      exact hne (hd' ▸ cmdError_mem d .unmappedMemory)
    · have hread : ¬ mmuProbeRead B d.mem d.cmd.addr d.cmd.size = true := fun hr =>
        Bool.eq_false_iff.mp hwrite (himp hr)
      refine ⟨cmdError d .unmappedMemory, ?_, cmdError_mem d _, cmdError_out d _⟩
      unfold cmdWrite
      simp only [if_neg hread]

/-- A board whose control register has the `S` bit. -/
def systemProtectBoard : Board :=
  { Board.sample with cp15 := { Board.sample.cp15 with control := 0x101#32 } }

/-- A memory in which every section descriptor is that of a section that may only be read: type 2,
`ap` 0. -/
def readOnlySections : Memory := fun x => if x &&& 3#32 = 0#32 then 0x02#8 else 0x00#8

/-- A `CMD_WRITE` of no more than four bytes at `0x8D001000`. -/
def writeSample : CmdBytes :=
  fun i => [0x04#8, 0x00#8, 0x00#8, 0x10#8, 0x00#8, 0x8d#8, 0x04#8, 0x00#8, 0x00#8, 0x00#8,
    0xde#8, 0xad#8, 0xbe#8, 0xef#8].getD i 0#8

/-- A read-only section is written. -/
theorem write_ignores_permission :
    writeSample.addr.toNat + writeSample.size.toNat ≤ 2 ^ 32 ∧
      ¬ RespectsWritePermission systemProtectBoard
        { Dev.sample with mem := readOnlySections, cmd := writeSample } := by
  refine ⟨by decide, not_respectsWritePermission ?_ ?_⟩
  · decide +kernel
  · decide +kernel

/-- A write on the same board to a section with `ap` 3. -/
theorem respects_write_permission_sample :
    writeSample.addr.toNat + writeSample.size.toNat ≤ 2 ^ 32 ∧
      (RespectsWritePermission systemProtectBoard
          { Dev.sample with mem := sectionsSample, cmd := writeSample } ↔
        ReadGuardSuffices systemProtectBoard sectionsSample writeSample.addr
          writeSample.size) := by
  have h : writeSample.addr.toNat + writeSample.size.toNat ≤ 2 ^ 32 := by decide
  exact ⟨h, respects_write_permission_iff systemProtectBoard
    { Dev.sample with mem := sectionsSample, cmd := writeSample } h⟩

/-! ## Breakpoints -/

/-- A load from or a store to an address that a command carries. -/
inductive Access
  | load (addr : Word)
  | store (addr : Word)
  deriving DecidableEq, Repr

/-- `insert_breakpoint (addr, type)`, with its accesses through `addr`.
Source: `dbg.c` `insert_breakpoint` -/
def insertBreakpointLog (B : Board) (m : Memory) (addr : Word) (type : Byte) :
    (Memory × ErrorCode) × List Access :=
  if (getBreakpoint B m addr).isSome then ((m, .breakpointAlreadyExists), [])
  else
    match allocBreakpoint B m with
    | (m, none) => ((m, .noMemoryAvailable), [])
    | (m, some bp) =>
        let m := store8 m (bpAt B bp) type
        let m := store32 m (addressAt B bp) addr
        let m := store8 m (enabledAt B bp) 1#8
        let m := store32 m (originalAt B bp 0) (load32 m addr)
        let m := store32 m (originalAt B bp 1) (cpuGetBranch (originalAt B bp 1) (addr + 4#32))
        ((store32 m addr armBkpt, .success), [.load addr, .store addr])

/-- `remove_breakpoint (addr, type)`, with its accesses through `addr`.
Source: `dbg.c` `remove_breakpoint` -/
def removeBreakpointLog (B : Board) (m : Memory) (addr : Word) (_type : Byte) :
    (Memory × ErrorCode) × List Access :=
  match getBreakpoint B m addr with
  | none => ((m, .noBreakpoint), [])
  | some bp =>
      let m := store32 m addr (bpOriginal B m bp 0)
      ((freeBreakpoint B m bp, .success), [.store addr])

/-- The log does not change what the operation does. -/
theorem insertBreakpointLog_fst (m : Memory) (addr : Word) (type : Byte) :
    (insertBreakpointLog B m addr type).1 = insertBreakpoint B m addr type := by
  unfold insertBreakpointLog insertBreakpoint
  by_cases hfound : (getBreakpoint B m addr).isSome
  · rw [if_pos hfound, if_pos hfound]
  · rw [if_neg hfound, if_neg hfound]
    rcases allocBreakpoint B m with ⟨m', _ | bp⟩
    · rfl
    · rfl

theorem removeBreakpointLog_fst (m : Memory) (addr : Word) (type : Byte) :
    (removeBreakpointLog B m addr type).1 = removeBreakpoint B m addr type := by
  unfold removeBreakpointLog removeBreakpoint
  rcases getBreakpoint B m addr with _ | bp
  · rfl
  · rfl

/-- `remove_breakpoint` accesses the address iff it finds a breakpoint there. -/
theorem removeBreakpointLog_snd (type : Byte) :
    (removeBreakpointLog B m addr type).2 = if Active B m addr then [.store addr] else [] := by
  unfold removeBreakpointLog
  cases hfound : getBreakpoint B m addr with
  | none => rw [if_neg (getBreakpoint_eq_none_iff.mp hfound)]
  | some bp =>
      rw [if_pos (active_of_getBreakpoint hfound)]

/-- Every section of `[addr, addr + 4)` is mapped. -/
def Mapped (B : Board) (m : Memory) (addr : Word) : Prop :=
  ∀ i < 4, descType (sectionDesc B m (off addr i >>> 20)) ≠ 0#32

instance (B : Board) (m : Memory) (addr : Word) : Decidable (Mapped B m addr) :=
  inferInstanceAs (Decidable (∀ i < 4, _))

/-- `CMD_INSERT_BREAKPOINT` accesses its address only if it is mapped, and answers
`ERROR_UNMAPPED_MEMORY` without any change if it is not. -/
def InsertRespectsMapping (B : Board) (d : Dev) : Prop :=
  ((insertBreakpointLog B d.mem d.cmd.addr d.cmd.bpType).2 ≠ [] → Mapped B d.mem d.cmd.addr) ∧
    (¬ Mapped B d.mem d.cmd.addr →
      (cmdInsertBreakpoint B d).mem = d.mem ∧
        (cmdInsertBreakpoint B d).out =
          d.out ++ [.usbSend [d.cmd.type, ErrorCode.unmappedMemory.code]])

/-- `CMD_REMOVE_BREAKPOINT` accesses its address only if it is mapped. -/
def RemoveRespectsMapping (B : Board) (d : Dev) : Prop :=
  (removeBreakpointLog B d.mem d.cmd.addr d.cmd.bpType).2 ≠ [] → Mapped B d.mem d.cmd.addr

/-- `insert_breakpoint` has no result `ERROR_UNMAPPED_MEMORY`. -/
theorem insertBreakpoint_snd_ne (B : Board) (m : Memory) (addr : Word) (type : Byte) :
    (insertBreakpoint B m addr type).2 ≠ .unmappedMemory := by
  unfold insertBreakpoint
  by_cases hfound : (getBreakpoint B m addr).isSome
  · rw [if_pos hfound]
    exact ErrorCode.noConfusion
  · rw [if_neg hfound]
    rcases allocBreakpoint B m with ⟨m', _ | bp⟩
    · exact ErrorCode.noConfusion
    · exact ErrorCode.noConfusion

/-- Distinct errors have distinct values. -/
theorem errorCode_injective : Function.Injective ErrorCode.code := by
  intro e f h
  cases e <;> cases f <;> first | rfl | exact absurd h (by decide)

/-- An insertion at an unmapped address is not answered with `ERROR_UNMAPPED_MEMORY`. -/
theorem not_insertRespectsMapping (h : ¬ Mapped B d.mem d.cmd.addr) :
    ¬ InsertRespectsMapping B d := by
  rintro ⟨-, herr⟩
  have hout := (herr h).2
  unfold cmdInsertBreakpoint at hout
  simp only at hout
  rw [cmdError_out, List.append_cancel_left_eq] at hout
  have hcode : d.cmd 0 = d.cmd.type ∧
      (insertBreakpoint B d.mem d.cmd.addr d.cmd.bpType).2.code =
        ErrorCode.unmappedMemory.code := by
    simpa using hout
  exact insertBreakpoint_snd_ne B d.mem d.cmd.addr d.cmd.bpType (errorCode_injective hcode.2)

/-- **The breakpoint commands respect the mapping iff the address is mapped**, or, for a removal,
there is no breakpoint to remove. The state of the table makes no difference to an insertion. -/
theorem respects_mapping_iff (B : Board) (d : Dev) :
    (InsertRespectsMapping B d ↔ Mapped B d.mem d.cmd.addr) ∧
      (RemoveRespectsMapping B d ↔
        Mapped B d.mem d.cmd.addr ∨ ¬ Active B d.mem d.cmd.addr) := by
  constructor
  · constructor
    · intro hok
      by_contra h
      exact not_insertRespectsMapping h hok
    · intro h
      exact ⟨fun _ => h, fun hno => absurd h hno⟩
  · unfold RemoveRespectsMapping
    rw [removeBreakpointLog_snd]
    by_cases hact : Active B d.mem d.cmd.addr
    · rw [if_pos hact]
      simp [hact]
    · rw [if_neg hact]
      simp [hact]

/-- A `CMD_INSERT_BREAKPOINT` at `0x1000`. -/
def insertSample : CmdBytes :=
  fun i => [0x05#8, 0x00#8, 0x00#8, 0x10#8, 0x00#8, 0x00#8, 0x00#8].getD i 0#8

/-- With an empty table and no section mapped, an insertion is not refused. -/
theorem insert_touches_unmapped :
    ¬ InsertRespectsMapping Board.sample
      { Dev.sample with mem := dbgInit Board.sample fun _ => 0#8, cmd := insertSample } := by
  refine not_insertRespectsMapping ?_
  rw [dbgInit_eq]
  decide +kernel

end Hbootdbg.Probe
