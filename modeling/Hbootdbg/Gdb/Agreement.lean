import Hbootdbg.Gdb.Server
import Hbootdbg.Session.Replies

/-!
# The handlers on the modelled device

The handlers of `Hbootdbg.Gdb.Handlers` work on the device itself, and take digits alone for their
arguments. Those of `Hbootdbg.Gdb.Server` work on any phone, and take what Python takes.

* `Answering` — the phone answers the next method as the device does.
* `handleReadMemory_agrees`, `handleWriteMemory_agrees`, `handleInsertBreakpoint_agrees`,
  `handleRemoveBreakpoint_agrees`, `handleGetRegister_agrees` — then what a handler does on the
  device, it does on the phone.
* `sent_wellFormed` — what a phone is taken to answer, the device sends where it returns.
-/

namespace Hbootdbg.Gdb

open Hbootdbg.Lib.ByteMem Hbootdbg.Lib.Hex Hbootdbg.Lib.PyInt Hbootdbg.Device Hbootdbg.Host
open Hbootdbg.Session Hbootdbg.Wire

/-- In this state, the phone answers as the device `d` does. -/
def Answering (H : HbootClient) (B : Board) (d : Dev) (P : Link) (p : P.State) : Prop :=
  ∀ m d' response, request H B d m = some (d', response) → ∃ p', P.call p m = .ok (p', response)

variable {H : HbootClient} {B : Board} {d d' : Dev} {P : Link} {s : GdbServer P} {π : Python}
  {group reply : List Byte} {dataList : List (List Byte)}

/-- An argument of digits. -/
theorem bind_int16 {i n : ℕ} (h : dataList[i]?.bind ofHex = some n) :
    dataList[i]?.bind π.int16 = some (n : ℤ) := by
  obtain ⟨text, htext, hn⟩ := Option.bind_eq_some_iff.mp h
  rw [htext, Option.bind_some, int16_of_ofHex hn]

/-- A field that is a short decimal number is read alike in both models. -/
theorem bind_int10 {i n : ℕ} (h : dataList[i]?.bind ofDecimal = some n)
    (hlen : π.maxStrDigits = 0 ∨ ∀ text ∈ dataList, text.length ≤ π.maxStrDigits) :
    dataList[i]?.bind π.int10 = some (n : ℤ) := by
  obtain ⟨text, htext, hn⟩ := Option.bind_eq_some_iff.mp h
  have hfew := hlen.imp_right fun hall => hall text (List.mem_of_getElem? htext)
  rw [htext, Option.bind_some, int10_of_ofDecimal hn hfew]

/-- `m`: what the device answers is what the server sends. -/
theorem handleReadMemory_agrees (hs : Answering H B d P s.dev)
    (h : handleReadMemory H B d group dataList = some (d', reply)) :
    ∃ dev, s.handleReadMemory π group dataList = .ok ({ s with dev }, [[reply]]) := by
  obtain ⟨address, haddress, h⟩ := Option.bind_eq_some_iff.mp h
  obtain ⟨size, hsize, h⟩ := Option.bind_eq_some_iff.mp h
  obtain ⟨⟨d₁, response⟩, hrequest, h⟩ := Option.bind_eq_some_iff.mp h
  obtain ⟨data, hdata, h⟩ := Option.bind_eq_some_iff.mp h
  obtain ⟨-, rfl⟩ := Prod.mk.inj (Option.some.inj h)
  obtain ⟨dev, hcall⟩ := hs _ _ _ hrequest
  refine ⟨dev, ?_⟩
  simp only [GdbServer.handleReadMemory, int16_of_ofHex haddress, bind_int16 hsize, hcall, hdata,
    orRaise_some, ok_bind, natural_natCast]

/-- `M`: what the device answers is what the server sends. -/
theorem handleWriteMemory_agrees (hs : Answering H B d P s.dev)
    (h : handleWriteMemory H B d group dataList = some (d', reply)) :
    ∃ dev, s.handleWriteMemory π group dataList = .ok ({ s with dev }, [[reply]]) := by
  obtain ⟨address, haddress, h⟩ := Option.bind_eq_some_iff.mp h
  obtain ⟨size, hsize, h⟩ := Option.bind_eq_some_iff.mp h
  obtain ⟨data, hdata, h⟩ := Option.bind_eq_some_iff.mp h
  obtain ⟨⟨d₁, response⟩, hrequest, h⟩ := Option.bind_eq_some_iff.mp h
  obtain ⟨res, hres, h⟩ := Option.bind_eq_some_iff.mp h
  obtain ⟨-, rfl⟩ := Prod.mk.inj (Option.some.inj h)
  obtain ⟨dev, hcall⟩ := hs _ _ _ hrequest
  refine ⟨dev, ?_⟩
  simp only [GdbServer.handleWriteMemory, int16_of_ofHex haddress, bind_int16 hsize,
    bind_int16 hdata, hcall, hres, orRaise_some, ok_bind, natural_natCast]

/-- A breakpoint request, for either method. -/
theorem handleBreakpoint_agrees {method : ℕ → Method} (hs : Answering H B d P s.dev)
    (hlen : π.maxStrDigits = 0 ∨ ∀ text ∈ dataList, text.length ≤ π.maxStrDigits)
    {address type : ℕ} {response : Response} (haddress : dataList[0]?.bind ofHex = some address)
    (htype : dataList[1]?.bind ofDecimal = some type)
    (hrequest : request H B d (method address) = some (d', response)) :
    ∃ dev, s.handleBreakpoint π dataList method = .ok ({ s with dev }, [[ok]]) := by
  obtain ⟨dev, hcall⟩ := hs _ _ _ hrequest
  refine ⟨dev, ?_⟩
  simp only [GdbServer.handleBreakpoint, bind_int16 haddress, bind_int10 htype hlen, hcall,
    orRaise_some, ok_bind, natural_natCast]

/-- `Z0`: what the device answers is what the server sends. -/
theorem handleInsertBreakpoint_agrees (hs : Answering H B d P s.dev)
    (hlen : π.maxStrDigits = 0 ∨ ∀ text ∈ dataList, text.length ≤ π.maxStrDigits)
    (h : handleInsertBreakpoint H B d dataList = some (d', reply)) :
    ∃ dev, s.handleInsertBreakpoint π dataList = .ok ({ s with dev }, [[reply]]) := by
  obtain ⟨address, haddress, h⟩ := Option.bind_eq_some_iff.mp h
  obtain ⟨type, htype, h⟩ := Option.bind_eq_some_iff.mp h
  obtain ⟨⟨d₁, response⟩, hrequest, h⟩ := Option.bind_eq_some_iff.mp h
  obtain ⟨-, rfl⟩ := Prod.mk.inj (Option.some.inj h)
  exact handleBreakpoint_agrees hs hlen haddress htype hrequest

/-- `z0`: what the device answers is what the server sends. -/
theorem handleRemoveBreakpoint_agrees (hs : Answering H B d P s.dev)
    (hlen : π.maxStrDigits = 0 ∨ ∀ text ∈ dataList, text.length ≤ π.maxStrDigits)
    (h : handleRemoveBreakpoint H B d dataList = some (d', reply)) :
    ∃ dev, s.handleRemoveBreakpoint π dataList = .ok ({ s with dev }, [[reply]]) := by
  obtain ⟨address, haddress, h⟩ := Option.bind_eq_some_iff.mp h
  obtain ⟨type, htype, h⟩ := Option.bind_eq_some_iff.mp h
  obtain ⟨⟨d₁, response⟩, hrequest, h⟩ := Option.bind_eq_some_iff.mp h
  obtain ⟨-, rfl⟩ := Prod.mk.inj (Option.some.inj h)
  exact handleBreakpoint_agrees hs hlen haddress htype hrequest

/-- `p`: the cached registers are all that it reads. -/
theorem handleGetRegister_agrees (h : handleGetRegister s.r group = some reply) :
    s.handleGetRegister π group = .ok (s, [[reply]]) := by
  obtain ⟨regNbr, hnbr, h⟩ := Option.bind_eq_some_iff.mp h
  obtain ⟨v, hv, h⟩ := Option.bind_eq_some_iff.mp h
  obtain rfl := Option.some.inj h
  simp only [GdbServer.handleGetRegister, int16_of_ofHex hnbr, hv, orRaise_some, ok_bind,
    natural_natCast]

/-! ## What the device answers -/

variable {m : Method} {packed : List Byte} {n : ℕ}

/-- The device gets the command of the method. -/
theorem kind_received (hpack : m.command.pack = some packed) (obj : CmdBytes) :
    kind (received packed obj) = some m.command.type := by
  obtain ⟨rest, rfl⟩ := pack_head hpack
  unfold kind CmdBytes.type
  rw [received_of_lt (by simp)]
  cases m <;> rfl

/-- The commands with a length are those that return and send a status. -/
theorem type_ne_of_dataLength (hn : dataLength m = some n) :
    m.command.type ≠ .call ∧ m.command.type ≠ .fastbootReboot := by
  cases m with
  | call | fastbootReboot => cases hn
  | _ => exact ⟨nofun, nofun⟩

/-- The size of a read is what the host packed. -/
theorem size_received {address size : ℕ}
    (hpack : (Method.read address size).command.pack = some packed) (obj : CmdBytes) :
    (received packed obj).size.toNat = size := by
  obtain ⟨haddress, hsize⟩ := (isSome_pack_read address size).mp (Option.isSome_of_eq_some hpack)
  have hpack' := pack_read (BitVec.ofNat 32 address) (BitVec.ofNat 32 size)
  rw [BitVec.toNat_ofNat, BitVec.toNat_ofNat, Nat.mod_eq_of_lt haddress, Nat.mod_eq_of_lt hsize]
    at hpack'
  obtain rfl := Option.some.inj (hpack'.symm.trans hpack)
  obtain ⟨c, hc, -, -, hn⟩ :=
    received_read (BitVec.ofNat 32 address) (BitVec.ofNat 32 size) obj
  rw [hc, hn, BitVec.toNat_ofNat, Nat.mod_eq_of_lt hsize]

/-- The data that fit a status of success have the length that the host expects. -/
theorem length_of_dataFits {data : List Byte} (hpack : m.command.pack = some packed)
    (hn : dataLength m = some n) (hfit : DataFits (received packed d.cmd) d data) :
    data.length = n := by
  unfold DataFits at hfit
  rw [kind_received hpack] at hfit
  cases m with
  | read address size =>
      obtain rfl := Option.some.inj hn
      exact hfit.trans (size_received hpack d.cmd)
  | getRegisters =>
      obtain rfl := Option.some.inj hn
      obtain ⟨ctx, -, rfl⟩ := Option.map_eq_some_iff.mp hfit
      exact length_bytes ctx
  | write | insertBreakpoint | removeBreakpoint | breakpointContinue | detach =>
      obtain rfl := Option.some.inj hn
      exact congrArg List.length hfit
  | _ => cases hn

/-- **The device sends what `Phone.wellFormed` says**, where it returns. -/
theorem sent_wellFormed (hpack : m.command.pack = some packed) (hn : dataLength m = some n)
    (hserve : serve B (some d) (received packed d.cmd) = some d') :
    ∃ error data, sent d d' = m.command.type.code :: error :: data ∧
      data.length = if error = ErrorCode.success.code then n else 0 := by
  have hkind := kind_received hpack d.cmd
  obtain ⟨hcall, hreboot⟩ := type_ne_of_dataLength hn
  rw [← Option.some_injective _ |>.ne_iff, ← hkind] at hcall hreboot
  obtain ⟨d₂, hd₂, e, packets, hsent, hsuccess, herror⟩ :=
    repliesOnce_of_serve hcall hreboot hserve
  obtain rfl := Option.some.inj (hserve.symm.trans hd₂)
  refine ⟨e.code, packets.flatten, ?_, ?_⟩
  · have hbytes : sent d d' = (sentPackets d d').flatten := rfl
    have htype : CmdBytes.type (received packed d.cmd) = m.command.type.code := type_of_kind hkind
    rw [hbytes, hsent, htype]
    rfl
  · have hcode : e.code = ErrorCode.success.code ↔ e = .success := by cases e <;> decide
    by_cases he : e = .success
    · rw [if_pos (hcode.mpr he)]
      exact length_of_dataFits hpack hn (hsuccess he)
    · rw [if_neg (mt hcode.mp he), herror he]
      rfl

end Hbootdbg.Gdb
