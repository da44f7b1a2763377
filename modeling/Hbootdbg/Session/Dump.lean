import Hbootdbg.Device.Preloader
import Hbootdbg.Session.Serve

/-!
# Memory dumps

`cmd_read` of the debugger and `cmd_read_memory` of the preloader send a range in packets of 1024
bytes and a rest.

* `length_of_mem_readPackets` — no packet is empty, or longer than that.
* `Dumps` — the packets of a range; `dumps_readPackets` is the loop.
* `dump_complete` — what the two commands send.
-/

namespace Hbootdbg.Session

open Hbootdbg.Lib.ByteMem Hbootdbg.Device

variable {B : Board} {d : Dev} {m : Memory} {addr : Word} {count fuel : ℕ}

/-- Every packet has between 1 and 1024 bytes. -/
theorem length_of_mem_readPackets {p : List Byte} (h : p ∈ readPackets m fuel addr count) :
    1 ≤ p.length ∧ p.length ≤ 1024 := by
  induction fuel generalizing addr count with
  | zero => cases h
  | succ fuel ih =>
      unfold readPackets at h
      by_cases hzero : count = 0
      · rw [if_pos hzero] at h
        cases h
      · rw [if_neg hzero] at h
        rcases List.mem_cons.mp h with rfl | h
        · unfold bytes
          rw [List.length_map, List.length_range]
          split_ifs <;> omega
        · exact ih h

/-- The packets hold the range, in order and without gaps. -/
structure Dumps (m : Memory) (addr : Word) (count : ℕ) (packets : List (List Byte)) : Prop where
  /-- Every packet has between 1 and 1024 bytes. -/
  sizes : ∀ p ∈ packets, 1 ≤ p.length ∧ p.length ≤ 1024
  /-- Together, they are the range. -/
  flatten : packets.flatten = bytes m addr count

theorem dumps_readPackets (h : count ≤ fuel) : Dumps m addr count (readPackets m fuel addr count) :=
  ⟨fun _ hp => length_of_mem_readPackets hp, readPackets_flatten m h⟩

theorem cmdRead_out (B : Board) (d : Dev) : (cmdRead B d).out = d.out ++
    if mmuProbeRead B d.mem d.cmd.addr d.cmd.size then
      .usbSend [d.cmd.type, ErrorCode.success.code] ::
        (readPackets d.mem d.cmd.size.toNat d.cmd.addr d.cmd.size.toNat).map .usbSend
    else [.usbSend [d.cmd.type, ErrorCode.unmappedMemory.code]] := by
  rw [cmdRead_eq]
  split_ifs
  · rw [foldl_send, cmdSuccess_out, List.append_assoc]
    rfl
  · exact cmdError_out d .unmappedMemory

/-- **A dump is complete and in order**: for every range there are packets that hold it, `cmd_read`
sends a status of success and these packets if the range is mapped, and the status of the error
alone if it is not; `cmd_read_memory` always ends, and sends these packets. -/
theorem dump_complete (B : Board) (d : Dev) (out : List (List Byte)) :
    ∃ packets, Dumps d.mem d.cmd.addr d.cmd.size.toNat packets ∧
      ((cmdRead B d).out = d.out ++ .usbSend [d.cmd.type, ErrorCode.success.code] ::
          packets.map .usbSend ↔ mmuProbeRead B d.mem d.cmd.addr d.cmd.size = true) ∧
      ((cmdRead B d).out = d.out ++ [.usbSend [d.cmd.type, ErrorCode.unmappedMemory.code]] ↔
        mmuProbeRead B d.mem d.cmd.addr d.cmd.size = false) ∧
      Preloader.cmdReadMemory ⟨d.mem, out⟩ d.cmd.addr d.cmd.size =
        some ⟨d.mem, out ++ packets⟩ := by
  refine ⟨_, dumps_readPackets le_rfl, ?_, ?_, ?_⟩
  · rw [cmdRead_out, List.append_cancel_left_eq]
    cases mmuProbeRead B d.mem d.cmd.addr d.cmd.size with
    | true => exact iff_of_true (if_pos rfl) rfl
    | false =>
        refine iff_of_false (fun h => ?_) Bool.false_ne_true
        rw [if_neg Bool.false_ne_true, List.cons.injEq, Out.usbSend.injEq] at h
        exact absurd h.1 (by simp [ErrorCode.code])
  · rw [cmdRead_out, List.append_cancel_left_eq]
    cases mmuProbeRead B d.mem d.cmd.addr d.cmd.size with
    | true =>
        refine iff_of_false (fun h => ?_) nofun
        rw [if_pos rfl, List.cons.injEq, Out.usbSend.injEq] at h
        exact absurd h.1 (by simp [ErrorCode.code])
    | false => exact iff_of_true (if_neg Bool.false_ne_true) rfl
  · have hlt := d.cmd.size.isLt
    rw [Preloader.cmdReadMemory, Preloader.sendBlocks_eq hlt le_rfl]
    rfl

end Hbootdbg.Session
