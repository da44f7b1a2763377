import Hbootdbg.Device.Commands
import Hbootdbg.Table.Refinement

/-!
# Serving a command

A run of the debugger is a list of commands, each dispatched to the device the one before left.
A command is the whole object `decoded_buf`, so the statements over runs hold whatever an earlier
packet left behind in it.

* `serve` — one command; a dispatcher that does not return leaves no device.
* `kind` — the case of the `switch` a command goes to.
* `readPackets_flatten` — the packets of a read are its range, in order.
* `serve_attach`, `serve_insert`, `serve_remove`, … — what each command does to memory and to the
  context, and what it sends: later results do not unfold the dispatcher.
-/

namespace Hbootdbg.Session

open Hbootdbg.Lib.ByteMem Hbootdbg.Lib.Run Hbootdbg.Device Hbootdbg.Table

/-- The case of `switch (cmd->type)` for a command. Source: `dbg.c` `cmd_dispatcher` -/
def kind (c : CmdBytes) : Option CmdType := CmdType.ofCode c.type

/-- One command, dispatched to a device.
Source: `dbg.c` `breakpoint_handler`, `hbootdbg.c` `hbootdbg` -/
def serve (B : Board) (s : Option Dev) (c : CmdBytes) : Option Dev :=
  s.bind fun d => cmdDispatcher B { d with cmd := c }

/-! ## Replies -/

section reply

variable (d : Dev) (e : ErrorCode)

@[simp] theorem cmdError_mem : (cmdError d e).mem = d.mem := rfl

@[simp] theorem cmdError_ctx : (cmdError d e).ctx = d.ctx := rfl

@[simp] theorem cmdError_out :
    (cmdError d e).out = d.out ++ [.usbSend [d.cmd 0, e.code]] := by
  simp [cmdError, Dev.send]

@[simp] theorem cmdSuccess_mem : (cmdSuccess d).mem = d.mem := rfl

@[simp] theorem cmdSuccess_ctx : (cmdSuccess d).ctx = d.ctx := rfl

@[simp] theorem cmdSuccess_out :
    (cmdSuccess d).out = d.out ++ [.usbSend [d.cmd 0, ErrorCode.success.code]] :=
  cmdError_out d .success

@[simp] theorem send_mem (data : List Byte) : (d.send data).mem = d.mem := rfl

@[simp] theorem send_ctx (data : List Byte) : (d.send data).ctx = d.ctx := rfl

@[simp] theorem send_out (data : List Byte) : (d.send data).out = d.out ++ [.usbSend data] := rfl

/-- Packets are sent in order, and nothing else changes. -/
theorem foldl_send (ps : List (List Byte)) :
    ps.foldl Dev.send d = { d with out := d.out ++ ps.map .usbSend } := by
  induction ps generalizing d with
  | nil => simp
  | cons p ps ih =>
      rw [List.foldl_cons, ih]
      simp [Dev.send]

end reply

/-- **The packets of `cmd_read` are the bytes of the range, in order.** -/
theorem readPackets_flatten (m : Memory) {fuel : ℕ} {addr : Word} {count : ℕ} (h : count ≤ fuel) :
    (readPackets m fuel addr count).flatten = bytes m addr count := by
  induction fuel generalizing addr count with
  | zero =>
      obtain rfl : count = 0 := by omega
      rfl
  | succ fuel ih =>
      unfold readPackets
      by_cases hz : count = 0
      · rw [if_pos hz, hz]
        rfl
      · rw [if_neg hz, List.flatten_cons]
        generalize hlen : (if count < 1024 then count else 1024) = len
        have h1 : len ≤ count ∧ 0 < len := by
          rw [← hlen]
          split_ifs <;> omega
        rw [ih (by omega)]
        obtain ⟨k, rfl⟩ := Nat.exists_eq_add_of_le h1.1
        unfold bytes
        rw [Nat.add_sub_cancel_left, List.range_add, List.map_append, List.map_map]
        congr 1
        refine List.map_congr_left fun i _ => ?_
        rw [Function.comp_apply, off_off]

/-- The type byte of a command of a kind. -/
theorem type_of_kind {c : CmdBytes} {t : CmdType} (h : kind c = some t) : c 0 = t.code :=
  (CmdType.code_of_ofCode h).symm

/-! ## The commands, one by one -/

section commands

variable {B : Board} {d : Dev} {c : CmdBytes}

/-- `CMD_ATTACH`: a new table, and the exception vector. -/
theorem serve_attach (h : kind c = some .attach) :
    ∃ d', serve B (some d) c = some d' ∧
      d'.mem = intInstallExceptionHandlers B (dbgInit B d.mem) ∧ d'.ctx = d.ctx ∧
      d'.out = d.out ++ [.usbSend [CmdType.attach.code, ErrorCode.success.code]] := by
  refine ⟨cmdAttach B { d with cmd := c }, ?_, rfl, rfl, ?_⟩
  · unfold kind at h
    simp [serve, cmdDispatcher, h]
  · simp [cmdAttach, type_of_kind h]

/-- `CMD_DETACH`: a reply, and nothing else. -/
theorem serve_detach (h : kind c = some .detach) :
    ∃ d', serve B (some d) c = some d' ∧ d'.mem = d.mem ∧ d'.ctx = d.ctx ∧
      d'.out = d.out ++ [.usbSend [CmdType.detach.code, ErrorCode.success.code]] := by
  refine ⟨cmdDetach { d with cmd := c }, ?_, rfl, rfl, ?_⟩
  · unfold kind at h
    simp [serve, cmdDispatcher, h]
  · simp [cmdDetach, type_of_kind h]

/-- `CMD_INSERT_BREAKPOINT`: `insert_breakpoint`, and its result as the reply. -/
theorem serve_insert (h : kind c = some .insertBreakpoint) :
    ∃ d', serve B (some d) c = some d' ∧
      d'.mem = (insertBreakpoint B d.mem c.addr c.bpType).1 ∧ d'.ctx = d.ctx ∧
      d'.out = d.out ++ [.usbSend [CmdType.insertBreakpoint.code,
        (insertBreakpoint B d.mem c.addr c.bpType).2.code]] := by
  refine ⟨cmdInsertBreakpoint B { d with cmd := c }, ?_, rfl, rfl, ?_⟩
  · unfold kind at h
    simp [serve, cmdDispatcher, h]
  · simp [cmdInsertBreakpoint, type_of_kind h]

/-- `CMD_REMOVE_BREAKPOINT`: `remove_breakpoint`, and its result as the reply. -/
theorem serve_remove (h : kind c = some .removeBreakpoint) :
    ∃ d', serve B (some d) c = some d' ∧
      d'.mem = (removeBreakpoint B d.mem c.addr c.bpType).1 ∧ d'.ctx = d.ctx ∧
      d'.out = d.out ++ [.usbSend [CmdType.removeBreakpoint.code,
        (removeBreakpoint B d.mem c.addr c.bpType).2.code]] := by
  refine ⟨cmdRemoveBreakpoint B { d with cmd := c }, ?_, rfl, rfl, ?_⟩
  · unfold kind at h
    simp [serve, cmdDispatcher, h]
  · simp [cmdRemoveBreakpoint, type_of_kind h]

/-- `CMD_READ`: memory and the context stay; the reply and the packets go out. -/
theorem serve_read (h : kind c = some .read) :
    ∃ d', serve B (some d) c = some d' ∧ d'.mem = d.mem ∧ d'.ctx = d.ctx ∧
      d'.out = d.out ++
        if mmuProbeRead B d.mem c.addr c.size then
          .usbSend [CmdType.read.code, ErrorCode.success.code] ::
            (readPackets d.mem c.size.toNat c.addr c.size.toNat).map .usbSend
        else [.usbSend [CmdType.read.code, ErrorCode.unmappedMemory.code]] := by
  refine ⟨cmdRead B { d with cmd := c }, ?_, ?_⟩
  · unfold kind at h
    simp [serve, cmdDispatcher, h]
  · unfold cmdRead
    simp only
    split_ifs with hmap
    · simp [foldl_send, type_of_kind h]
    · simp [type_of_kind h]

/-- `CMD_GET_REGISTERS`: the context goes out, if there is one. -/
theorem serve_getRegisters (h : kind c = some .getRegisters) :
    ∃ d', serve B (some d) c = some d' ∧ d'.mem = d.mem ∧ d'.ctx = d.ctx ∧
      d'.out = d.out ++
        match d.ctx with
        | none => [.usbSend [CmdType.getRegisters.code, ErrorCode.noBreakpoint.code]]
        | some ctx => [.usbSend [CmdType.getRegisters.code, ErrorCode.success.code],
            .usbSend ctx.bytes] := by
  refine ⟨cmdGetRegisters { d with cmd := c }, ?_, ?_⟩
  · unfold kind at h
    simp [serve, cmdDispatcher, h]
  · unfold cmdGetRegisters
    cases hctx : d.ctx with
    | none => simp [type_of_kind h]
    | some ctx => simp [type_of_kind h]

/-- `CMD_BREAKPOINT_CONTINUE` in a stop: `pc` becomes `status.continue_address`. -/
theorem serve_continue {ctx : Context} (h : kind c = some .breakpointContinue)
    (hctx : d.ctx = some ctx) :
    ∃ d', serve B (some d) c = some d' ∧ d'.mem = d.mem ∧
      d'.ctx = some (ctx.setPc (continueAddress B d.mem)) ∧
      d'.out = d.out ++ [.usbSend [CmdType.breakpointContinue.code, ErrorCode.success.code]] := by
  refine ⟨cmdBreakpointContinue B { d with cmd := c }, ?_, ?_⟩
  · unfold kind at h
    simp [serve, cmdDispatcher, h]
  · unfold cmdBreakpointContinue
    simp [hctx, type_of_kind h]

/-- `CMD_BREAKPOINT_CONTINUE` outside a stop is refused. -/
theorem serve_continue_null (h : kind c = some .breakpointContinue) (hctx : d.ctx = none) :
    ∃ d', serve B (some d) c = some d' ∧ d'.mem = d.mem ∧ d'.ctx = none ∧
      d'.out = d.out ++
        [.usbSend [CmdType.breakpointContinue.code, ErrorCode.noBreakpoint.code]] := by
  refine ⟨cmdBreakpointContinue B { d with cmd := c }, ?_, ?_⟩
  · unfold kind at h
    simp [serve, cmdDispatcher, h]
  · unfold cmdBreakpointContinue
    simp [hctx, type_of_kind h]

/-- `CMD_BREAKPOINT`: a reply, and the `bkpt` that enters the next stop. -/
theorem serve_breakpoint (h : kind c = some .breakpoint) :
    ∃ d', serve B (some d) c = some d' ∧ d'.mem = d.mem ∧ d'.ctx = d.ctx ∧
      d'.out = d.out ++
        [.usbSend [CmdType.breakpoint.code, ErrorCode.success.code], .bkpt] := by
  refine ⟨cmdBreakpoint { d with cmd := c }, ?_, rfl, rfl, ?_⟩
  · unfold kind at h
    simp [serve, cmdDispatcher, h]
  · simp [cmdBreakpoint, type_of_kind h]

/-- `CMD_CALL`: the call, and no reply. -/
theorem serve_call (h : kind c = some .call) :
    ∃ d', serve B (some d) c = some d' ∧
      d'.mem = B.callee c.addr (c.arg 0) (c.arg 1) (c.arg 2) (c.arg 3) d.mem ∧ d'.ctx = d.ctx ∧
      d'.out = d.out ++ [.call c.addr (c.arg 0) (c.arg 1) (c.arg 2) (c.arg 3)] := by
  refine ⟨cmdCall B { d with cmd := c }, ?_, rfl, rfl, rfl⟩
  unfold kind at h
  simp [serve, cmdDispatcher, h]

/-- `CMD_FLASHLIGHT`: a reply, and the call. -/
theorem serve_flashlight (h : kind c = some .flashlight) :
    ∃ d', serve B (some d) c = some d' ∧ d'.mem = d.mem ∧ d'.ctx = d.ctx ∧
      d'.out = d.out ++ [.usbSend [CmdType.flashlight.code, ErrorCode.success.code],
        .turnOnFlashlight c.time] := by
  refine ⟨cmdFlashlight { d with cmd := c }, ?_, rfl, rfl, ?_⟩
  · unfold kind at h
    simp [serve, cmdDispatcher, h]
  · simp only [cmdFlashlight, cmdSuccess_out, type_of_kind h, List.append_assoc]
    rfl

/-- `CMD_FASTBOOT_REBOOT`: the call, and no reply. -/
theorem serve_fastbootReboot (h : kind c = some .fastbootReboot) :
    ∃ d', serve B (some d) c = some d' ∧ d'.mem = d.mem ∧ d'.ctx = d.ctx ∧
      d'.out = d.out ++ [.fastbootReboot] := by
  refine ⟨cmdFastbootReboot { d with cmd := c }, ?_, rfl, rfl, rfl⟩
  unfold kind at h
  simp [serve, cmdDispatcher, h]

/-- No command is of the type `CMD_UNDEFINED`: the dispatcher has no case for it. -/
theorem kind_ne_undefined : kind c ≠ some .undefined := by
  unfold kind CmdType.ofCode
  intro h
  have hmem := List.mem_of_find?_eq_some h
  revert hmem
  decide

/-- A type without a case is refused. -/
theorem serve_unknown (h : kind c = none) :
    ∃ d', serve B (some d) c = some d' ∧ d'.mem = d.mem ∧ d'.ctx = d.ctx ∧
      d'.out = d.out ++ [.usbSend [c.type, ErrorCode.unknownCmd.code]] := by
  refine ⟨cmdError { d with cmd := c } .unknownCmd, ?_, rfl, rfl, cmdError_out _ _⟩
  unfold kind at h
  simp [serve, cmdDispatcher, h]

/-- A write is served by `cmd_write`. -/
theorem serve_eq_cmdWrite (h : kind c = some .write) :
    serve B (some d) c = cmdWrite B { d with cmd := c } := by
  have hs : serve B (some d) c = cmdDispatcher B { d with cmd := c } := rfl
  have hk : CmdType.ofCode ({ d with cmd := c } : Dev).cmd.type = some .write := h
  rw [hs, cmdDispatcher, hk]

/-- `CMD_WRITE`: the data replace the range, if the range is mapped; a reply is sent once the
cache loops have ended. -/
theorem serve_write (h : kind c = some .write) :
    (mmuProbeRead B d.mem c.addr c.size = true ∧
      ((mmuInvalidateCacheRange B c.addr c.size = none ∧ serve B (some d) c = none) ∨
        ∃ d', serve B (some d) c = some d' ∧
          d'.mem = patch d.mem c.addr c.size.toNat c.data ∧ d'.ctx = d.ctx ∧
          d'.out = d.out ++ [.usbSend [CmdType.write.code, ErrorCode.success.code]])) ∨
    (mmuProbeRead B d.mem c.addr c.size = false ∧
      ∃ d', serve B (some d) c = some d' ∧ d'.mem = d.mem ∧ d'.ctx = d.ctx ∧
        d'.out = d.out ++ [.usbSend [CmdType.write.code, ErrorCode.unmappedMemory.code]]) := by
  rw [serve_eq_cmdWrite h]
  unfold cmdWrite
  simp only
  cases hmap : mmuProbeRead B d.mem c.addr c.size with
  | false =>
      right
      refine ⟨rfl, _, rfl, rfl, rfl, ?_⟩
      simp [type_of_kind h]
  | true =>
      left
      refine ⟨rfl, ?_⟩
      cases hcache : mmuInvalidateCacheRange B c.addr c.size with
      | none => exact Or.inl ⟨rfl, rfl⟩
      | some lines =>
          right
          refine ⟨_, rfl, ?_, rfl, ?_⟩
          · exact memcpyIn_eq_patch _ _ _ c.size.isLt.le
          · simp [type_of_kind h]

/-- Sending leaves the command object alone. -/
theorem foldl_send_cmd (ps : List (List Byte)) : (ps.foldl Dev.send d).cmd = d.cmd := by
  rw [foldl_send]

/-- A read, as the packets of `readPackets`. -/
theorem cmdRead_eq : cmdRead B d =
    if mmuProbeRead B d.mem d.cmd.addr d.cmd.size then
      (readPackets d.mem d.cmd.size.toNat d.cmd.addr d.cmd.size.toNat).foldl Dev.send (cmdSuccess d)
    else cmdError d .unmappedMemory := rfl

/-- Every handler leaves the command object as it is, but for the error code. -/
theorem serve_cmd {d' : Dev} {i : ℕ} (h : serve B (some d) c = some d') (hi : i ≠ 1) :
    d'.cmd i = c i := by
  have herr : ∀ (x : Dev) (e : ErrorCode), (cmdError x e).cmd i = x.cmd i := fun x e =>
    Function.update_of_ne hi _ _
  change cmdDispatcher B { d with cmd := c } = some d' at h
  have hkind : CmdType.ofCode ({ d with cmd := c } : Dev).cmd.type = kind c := rfl
  rw [cmdDispatcher, hkind] at h
  cases hk : kind c with
  | none =>
      rw [hk] at h
      rw [← Option.some.inj h]
      exact herr _ _
  | some t =>
      rw [hk] at h
      cases t with
      | undefined => exact absurd hk kind_ne_undefined
      | attach =>
          rw [← Option.some.inj h]
          exact herr _ _
      | detach =>
          rw [← Option.some.inj h]
          exact herr _ _
      | read =>
          rw [← Option.some.inj h]
          by_cases hmap : mmuProbeRead B d.mem c.addr c.size = true
          · rw [cmdRead_eq, if_pos hmap, foldl_send_cmd]
            exact herr _ _
          · rw [cmdRead_eq, if_neg hmap]
            exact herr _ _
      | write =>
          simp only [cmdWrite] at h
          split_ifs at h
          · obtain ⟨lines, -, rfl⟩ := Option.map_eq_some_iff.mp h
            exact herr _ _
          · rw [← Option.some.inj h]
            exact herr _ _
      | insertBreakpoint =>
          rw [← Option.some.inj h]
          exact herr _ _
      | removeBreakpoint =>
          rw [← Option.some.inj h]
          exact herr _ _
      | breakpointContinue =>
          rw [← Option.some.inj h]
          unfold cmdBreakpointContinue
          split
          · exact herr _ _
          · exact herr _ _
      | getRegisters =>
          rw [← Option.some.inj h]
          unfold cmdGetRegisters
          split
          · exact herr _ _
          · exact herr _ _
      | call =>
          rw [← Option.some.inj h]
          rfl
      | fastbootReboot =>
          rw [← Option.some.inj h]
          rfl
      | breakpoint =>
          rw [← Option.some.inj h]
          exact herr _ _
      | flashlight =>
          rw [← Option.some.inj h]
          exact herr _ _

/-- Only a continue changes the context of the stop. -/
theorem serve_ctx {d' : Dev} (h : serve B (some d) c = some d')
    (hk : c 0 ≠ CmdType.breakpointContinue.code) : d'.ctx = d.ctx := by
  have hcase : ∀ x, serve B (some d) c = some x → x.ctx = d.ctx → d'.ctx = d.ctx := by
    intro x hx hxc
    rw [hx] at h
    cases h
    exact hxc
  cases hkind : kind c with
  | none =>
      obtain ⟨x, hx, -, hxc, -⟩ := serve_unknown (B := B) (d := d) hkind
      exact hcase x hx hxc
  | some t =>
      cases t with
      | undefined => exact absurd hkind kind_ne_undefined
      | attach =>
          obtain ⟨x, hx, -, hxc, -⟩ := serve_attach (B := B) (d := d) hkind
          exact hcase x hx hxc
      | detach =>
          obtain ⟨x, hx, -, hxc, -⟩ := serve_detach (B := B) (d := d) hkind
          exact hcase x hx hxc
      | read =>
          obtain ⟨x, hx, -, hxc, -⟩ := serve_read (B := B) (d := d) hkind
          exact hcase x hx hxc
      | write =>
          rcases serve_write (B := B) (d := d) hkind with
            ⟨-, ⟨-, hx⟩ | ⟨x, hx, -, hxc, -⟩⟩ | ⟨-, x, hx, -, hxc, -⟩
          · rw [hx] at h
            cases h
          · exact hcase x hx hxc
          · exact hcase x hx hxc
      | insertBreakpoint =>
          obtain ⟨x, hx, -, hxc, -⟩ := serve_insert (B := B) (d := d) hkind
          exact hcase x hx hxc
      | removeBreakpoint =>
          obtain ⟨x, hx, -, hxc, -⟩ := serve_remove (B := B) (d := d) hkind
          exact hcase x hx hxc
      | breakpointContinue => exact absurd (type_of_kind hkind) hk
      | getRegisters =>
          obtain ⟨x, hx, -, hxc, -⟩ := serve_getRegisters (B := B) (d := d) hkind
          exact hcase x hx hxc
      | call =>
          obtain ⟨x, hx, -, hxc, -⟩ := serve_call (B := B) (d := d) hkind
          exact hcase x hx hxc
      | fastbootReboot =>
          obtain ⟨x, hx, -, hxc, -⟩ := serve_fastbootReboot (B := B) (d := d) hkind
          exact hcase x hx hxc
      | breakpoint =>
          obtain ⟨x, hx, -, hxc, -⟩ := serve_breakpoint (B := B) (d := d) hkind
          exact hcase x hx hxc
      | flashlight =>
          obtain ⟨x, hx, -, hxc, -⟩ := serve_flashlight (B := B) (d := d) hkind
          exact hcase x hx hxc

end commands

end Hbootdbg.Session
