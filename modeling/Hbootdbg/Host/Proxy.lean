import Hbootdbg.Session.Serve
import Hbootdbg.Host.Command
import Hbootdbg.Host.Decoration

/-!
# `hbootdbg.py` and `gdbproxy.py`: responses and registers

* `HbootClient` — the client in one of its modes, with what is on its line in and out of a stop.
* `HbootClient.result` — what it makes of a response: `hbootdbg_line`. `HbootClient.Keeps` says when
  that is the response; `result_of_keeps`, `exists_of_not_keeps`.
* `exchange` — a command, with the bytes that the client gets for it.
* `Response`, `Response.unpack` — `Command.unpack ()`.
* `ArmRegisters.unpack` — the registers the proxy keeps; `unpack_bytes` says that it finds the
  registers of the context in the bytes the device sends, but for `r11`.
* `exchange_getRegisters` — what the proxy learns from a stopped device.
-/

namespace Hbootdbg.Host

open Hbootdbg.Lib.ByteMem Hbootdbg.Device Hbootdbg.Session

/-- The bytes of a `__usb_send`. -/
def payload : Out → Option (List Byte)
  | .usbSend data => some data
  | _ => none

/-- The bytes sent between two states. -/
def sent (d d' : Dev) : List Byte := ((d'.out.drop d.out.length).filterMap payload).flatten

/-- The client, and the console of the phone at the other end of its line. Source:
`scripts/hboot.py` `HbootClient` -/
structure HbootClient where
  /-- How bytes arrive. -/
  serial : SerialClient
  /-- `_fastboot_mode`. -/
  fastbootMode : Bool
  /-- In the other mode, what the console puts around the response to a command. -/
  console : Dev → CmdBytes → Decoration

namespace HbootClient

variable (H : HbootClient) (B : Board) (d : Dev) (c : CmdBytes) (r : List Byte)

/-- What is on the line for a response of the device `d`. In a breakpoint it is the response alone,
in both modes. -/
def line : List Byte :=
  if H.fastbootMode = true ∨ d.ctx.isSome = true then r else (H.console d c).around r

/-- What the client makes of a response of the device `d`: in a breakpoint, the response is searched
for an echo and a prompt that are not there. -/
def result : List Byte :=
  if H.fastbootMode = false ∧ d.ctx.isSome = true then stripDecoration r else r

/-- Nothing is taken off: the client does not look, the console has added its lines, or the end does
not look like a prompt. -/
def Keeps : Prop := H.fastbootMode = true ∨ d.ctx = none ∨ ¬ hbootPrompt <:+ r

instance : Decidable (H.Keeps d r) := inferInstanceAs (Decidable (_ ∨ _))

end HbootClient

/-- A command, and the bytes that `hbootdbg` returns for it.
Source: `scripts/hboot.py` `HbootClient.hbootdbg` -/
def exchange (H : HbootClient) (B : Board) (d : Dev) (c : CmdBytes) : Option (Dev × List Byte) := do
  let d' ← serve B (some d) c
  let data ← hbootdbg H.serial H.fastbootMode (H.line d c (sent d d'))
  some (d', data)

/-- What `Command.unpack ()` sets. Source: `scripts/hbootdbg.py` `Command.unpack` -/
structure Response where
  /-- `type`. -/
  type : Byte
  /-- `error`. -/
  error : Byte
  /-- `data`, `none` for `None`. -/
  data : Option (List Byte)

/-- `Command.unpack (packed)`, `none` where `struct` raises.
Source: `scripts/hbootdbg.py` `Command.unpack` -/
def Response.unpack : List Byte → Option Response
  | t :: e :: rest =>
      some ⟨t, e,
        if t ∈ [CmdType.read.code, CmdType.write.code, CmdType.breakpoint.code,
            CmdType.getRegisters.code]
        then some rest else none⟩
  | _ => none

/-- `ARMRegisters`. Source: `scripts/gdbproxy.py` `ARMRegisters` -/
structure ArmRegisters where
  /-- `_cpsr`. -/
  cpsr : Word
  /-- `_gpr`. -/
  gpr : Fin 16 → Word

/-- `struct.unpack_from ('<I', data, offset)`. -/
def unpackLittle (data : List Byte) (offset : ℕ) : Word :=
  data.getD (offset + 3) 0#8 ++ data.getD (offset + 2) 0#8 ++ data.getD (offset + 1) 0#8 ++
    data.getD offset 0#8

/-- `struct.unpack_from ('>I', data, offset)`. -/
def unpackBig (data : List Byte) (offset : ℕ) : Word :=
  data.getD offset 0#8 ++ data.getD (offset + 1) 0#8 ++ data.getD (offset + 2) 0#8 ++
    data.getD (offset + 3) 0#8

/-- `ARMRegisters.unpack (data)`, `none` where `struct` raises. `r11` is replaced.
Source: `scripts/gdbproxy.py` `ARMRegisters.unpack` -/
def ArmRegisters.unpack (data : List Byte) : Option ArmRegisters :=
  if data.length < 68 then none
  else some {
    cpsr := unpackBig data 0
    gpr := Function.update (fun i => unpackLittle data (4 + i * 4)) 11 0x8d05e8c0#32 }

/-! ## What the proxy learns -/

/-- The registers of a context, in the bytes it is sent as. -/
theorem unpackLittle_bytes (ctx : Context) (i : Fin 16) :
    unpackLittle ctx.bytes (4 + i * 4) = ctx.r i := by
  have h : unpackLittle ctx.bytes (4 + i * 4) =
      byteOf (ctx.r i) 3 ++ byteOf (ctx.r i) 2 ++ byteOf (ctx.r i) 1 ++ byteOf (ctx.r i) 0 := by
    fin_cases i <;> rfl
  rw [h, byteOf_append]

/-- A context is sent as 17 words. -/
theorem length_bytes (ctx : Context) : ctx.bytes.length = 68 := rfl

/-- **The proxy finds the registers of the context**, but for `r11`. -/
theorem unpack_bytes (ctx : Context) :
    ∃ r, ArmRegisters.unpack ctx.bytes = some r ∧
      r.gpr = Function.update ctx.r 11 0x8d05e8c0#32 := by
  refine ⟨_, if_neg (by rw [length_bytes]; decide), ?_⟩
  simp only [unpackLittle_bytes]

variable {H : HbootClient} {B : Board} {d d' : Dev} {c : CmdBytes} {r bytes : List Byte}

/-- **What the client makes of what is on the line**, however it arrives. -/
theorem hbootdbg_line (H : HbootClient) (d : Dev) (c : CmdBytes) (r : List Byte) :
    hbootdbg H.serial H.fastbootMode (H.line d c r) = some (H.result d r) := by
  rw [hbootdbg_eq]
  unfold HbootClient.line HbootClient.result
  cases hmode : H.fastbootMode with
  | true => simp
  | false =>
      cases hctx : d.ctx with
      | none => simp [stripDecoration_around]
      | some ctx => simp

/-- An exchange gets what the client makes of the bytes sent. -/
theorem exchange_eq (H : HbootClient) (B : Board) (d : Dev) (c : CmdBytes) :
    exchange H B d c = (serve B (some d) c).map fun d' => (d', H.result d (sent d d')) := by
  unfold exchange
  cases serve B (some d) c with
  | none => rfl
  | some d' => simp only [Option.bind_eq_bind, Option.bind_some, hbootdbg_line, Option.map_some]

/-- A command that is served gets what the client makes of the bytes sent. -/
theorem exchange_of_serve (h : serve B (some d) c = some d') :
    exchange H B d c = some (d', H.result d (sent d d')) := by
  rw [exchange_eq, h, Option.map_some]

/-- What was exchanged was served. -/
theorem serve_of_exchange (h : exchange H B d c = some (d', bytes)) :
    serve B (some d) c = some d' ∧ bytes = H.result d (sent d d') := by
  rw [exchange_eq] at h
  obtain ⟨d₁, hserve, he⟩ := Option.map_eq_some_iff.mp h
  obtain ⟨rfl, rfl⟩ := Prod.mk.inj he
  exact ⟨hserve, rfl⟩

/-- A reply from which nothing is taken off is what the client gets. -/
theorem result_of_keeps (hr : IsReply r) (h : H.Keeps d r) : H.result d r = r := by
  unfold HbootClient.result
  by_cases hlook : H.fastbootMode = false ∧ d.ctx.isSome = true
  · rw [if_pos hlook]
    rcases h with hmode | hctx | hprompt
    · rw [hmode] at hlook
      exact absurd hlook.1 (by decide)
    · rw [hctx] at hlook
      exact absurd hlook.2 (by decide)
    · exact stripDecoration_of_not_prompt hr hprompt
  · exact if_neg hlook

/-- Of any other reply, something is missing at the end. -/
theorem exists_of_not_keeps (hr : IsReply r) (h : ¬ H.Keeps d r) :
    ∃ rest, rest ≠ [] ∧ H.result d r ++ rest = r := by
  unfold HbootClient.Keeps at h
  rw [not_or, not_or, not_not, Bool.not_eq_true, ← ne_eq, Option.ne_none_iff_isSome] at h
  obtain ⟨hmode, hctx, hprompt⟩ := h
  unfold HbootClient.result
  rw [if_pos ⟨hmode, hctx⟩]
  exact exists_of_prompt hr hprompt

/-- The data of a reply decide. -/
theorem keeps_reply_iff (t : CmdType) (e : ErrorCode) (data : List Byte) :
    H.Keeps d (t.code :: e.code :: data) ↔ H.Keeps d data := by
  unfold HbootClient.Keeps
  rw [prompt_reply_iff]

/-- A status without data is kept. -/
theorem keeps_nil : H.Keeps d [] := Or.inr (Or.inr (by decide))

/-- A context is kept, as no program counter is odd. -/
theorem keeps_context {ctx : Context}
    (h : H.fastbootMode = true ∨ ctx.pc.toNat % 2 = 0) : H.Keeps d ctx.bytes := by
  refine h.imp_right fun hpc => Or.inr ?_
  rintro ⟨start, hstart⟩
  -- the last four characters are the bytes of `pc`
  have hsplit : start ++ [0x68#8, 0x62#8] ++ [0x6f#8, 0x6f#8, 0x74#8, 0x3e#8] =
      ctx.bytes.take 64 ++ wordBytes ctx.pc := by
    rw [List.append_assoc]
    exact hstart.trans (List.take_append_drop 64 ctx.bytes).symm
  have hword := (List.append_inj' hsplit rfl).2
  have hfirst : byteOf ctx.pc 0 = 0x6f#8 := ((List.cons.inj hword).1).symm
  have hlow := congrArg BitVec.toNat hfirst
  have hmod : (byteOf ctx.pc 0).toNat = ctx.pc.toNat % 256 := by
    simp [byteOf]
  rw [hmod] at hlow
  have hodd : ctx.pc.toNat % 256 = 0x6f := hlow
  omega

/-- What the client gets for a status and data that are kept. -/
theorem result_reply {t : CmdType} {e : ErrorCode} {data : List Byte} (h : H.Keeps d data) :
    H.result d (t.code :: e.code :: data) = t.code :: e.code :: data :=
  result_of_keeps ⟨t, _, rfl⟩ ((keeps_reply_iff t e data).mpr h)

/-- **Where the data are not kept**, either the response cannot be unpacked, or its data are too
few. -/
theorem unpack_of_not_keeps {t : CmdType} {e : ErrorCode} {data : List Byte}
    {response : Response} (h : ¬ H.Keeps d data)
    (hunpack : Response.unpack (H.result d (t.code :: e.code :: data)) = some response) :
    response.error = e.code ∧ ∀ data' ∈ response.data, data'.length < data.length := by
  obtain ⟨rest, hrest, he⟩ :=
    exists_of_not_keeps ⟨t, _, rfl⟩ (mt (keeps_reply_iff t e data).mp h)
  generalize H.result d (t.code :: e.code :: data) = r at he hunpack
  match r with
  | [] => cases hunpack
  | [_] => cases hunpack
  | t' :: e' :: data' =>
      rw [List.cons_append, List.cons_append, List.cons.injEq, List.cons.injEq] at he
      obtain ⟨-, rfl, rfl⟩ := he
      obtain rfl := Option.some.inj hunpack
      refine ⟨rfl, fun data'' hdata => ?_⟩
      have hsame : data'' = data' := by
        simp only [Option.mem_def, Option.ite_none_right_eq_some, Option.some.injEq] at hdata
        exact hdata.2.symm
      have hpos := List.length_pos_of_ne_nil hrest
      rw [hsame, List.length_append]
      omega

/-- The bytes sent are those of the new entries of the log. -/
theorem sent_of_append {os : List Out} (h : d'.out = d.out ++ os) :
    sent d d' = (os.filterMap payload).flatten := by
  unfold sent
  rw [h, List.drop_left]

/-- A device in a stop answers a register read with its context. -/
theorem exchange_getRegisters {ctx : Context} (hctx : d.ctx = some ctx) :
    ∃ d', exchange H B d getRegisters = some (d', H.result d
        (CmdType.getRegisters.code :: ErrorCode.success.code :: ctx.bytes)) ∧
      d'.mem = d.mem ∧ d'.ctx = some ctx := by
  obtain ⟨d', hd', hm, hc, hout⟩ := serve_getRegisters (B := B) (d := d) (c := getRegisters)
    (by decide)
  rw [hctx] at hout hc
  refine ⟨d', ?_, hm, hc⟩
  rw [exchange_of_serve hd', sent_of_append hout]
  simp [payload]

/-! ## Examples -/

/-- The client in its default mode. -/
def HbootClient.sample : HbootClient where
  serial := ⟨true, fun _ => 0⟩
  fastbootMode := false
  console _ _ := Decoration.sample

end Hbootdbg.Host
