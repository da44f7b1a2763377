import Hbootdbg.Gdb.Encodings
import Hbootdbg.Gdb.Handlers
import Hbootdbg.Gdb.Loop
import Hbootdbg.Gdb.Requests
import Hbootdbg.Lib.PyInt

/-!
# `gdbproxy.py`: all the handlers, over any device

* `Link` — the other side of the client; `Link.call`, `Link.poll` — a method of `HbootDbg`, and the
  loop that waits for a stop.
* `Phone` — a link that answers every command with a status, and with data where the status is
  success; a phone that is continued stops again.
* `GdbServer` — the object of the server, and its handlers. They raise where Python does, or are
  still polling.
* `call_eq_ok`, `call_returns`, `poll_returns` — what the handlers get from the phone.
-/

namespace Hbootdbg.Gdb

open Hbootdbg.Lib.ByteMem Hbootdbg.Lib.Hex Hbootdbg.Lib.PyInt Hbootdbg.Device Hbootdbg.Host

/-! ## Exceptions -/

/-- A value, or an exception where there is none. -/
def orRaise {α : Type} : Option α → Except Abort α
  | some a => .ok a
  | none => .error .raised

/-- An argument of `struct.pack` or of `__getitem__`: they raise for a negative number. -/
def natural (v : ℤ) : Except Abort ℕ := orRaise v.toNat?

/-! ## The phone -/

/-- The length of the data of a successful response, for the methods that handlers call. -/
def dataLength : Method → Option ℕ
  | .read _ size => some size
  | .getRegisters => some 68
  | .write _ _ _ | .insertBreakpoint _ _ | .removeBreakpoint _ _ => some 0
  | .breakpointContinue | .detach => some 0
  | _ => none

/-- The bytes of `get_registers ()`. -/
def packedGetRegisters : List Byte := [CmdType.getRegisters.code, 0#8]

/-- The bytes of `breakpoint_continue ()`. -/
def packedContinue : List Byte := [CmdType.breakpointContinue.code, 0#8]

/-- A device behind its client. -/
structure Link where
  /-- The states of the device. -/
  State : Type
  /-- A command, and its response: `self._client.hbootdbg (cmd)`. -/
  exchange : State → List Byte → State × List Byte

/-- A device whose responses arrive as they were sent, and that stops again. -/
structure Phone extends Link where
  /-- The response is the type, the error, and the data where there is no error. -/
  wellFormed : ∀ d (m : Method) packed n, m.command.pack = some packed → dataLength m = some n →
    ∃ error data, (exchange d packed).2 = m.command.type.code :: error :: data ∧
      data.length = if error = ErrorCode.success.code then n else 0
  /-- After a continue, some poll finds a stop. -/
  stops : ∀ d, ∃ k, (exchange ((fun d => (exchange d packedGetRegisters).1)^[k]
    (exchange d packedContinue).1) packedGetRegisters).2[1]? ≠ some ErrorCode.noBreakpoint.code

instance : Coe Phone Link := ⟨Phone.toLink⟩

namespace Link

variable (P : Link)

/-- A method: `Command ().unpack (self._client.hbootdbg (cmd.pack ()))`. Source:
`scripts/hbootdbg.py` `HbootDbg` -/
def call (d : P.State) (m : Method) : Except Abort (P.State × Response) := do
  let packed ← orRaise m.command.pack
  let (d, reply) := P.exchange d packed
  let response ← orRaise (Response.unpack reply)
  .ok (d, response)

/-- `while self._dbg.get_registers ().error == ERROR_NO_BREAKPOINT`, for a number of rounds.
Source: `scripts/gdbproxy.py` `handle_continue`, `handle_step` -/
def poll : ℕ → P.State → Except Abort P.State
  | 0, _ => .error .polling
  | fuel + 1, d => do
      let (d, response) ← P.call d .getRegisters
      if response.error = ErrorCode.noBreakpoint.code then poll fuel d else .ok d

/-- The device answers `get_registers ()` with success. -/
def Readable (d : P.State) : Prop :=
  (P.exchange d packedGetRegisters).2[1]? = some ErrorCode.success.code

end Link

/-! ## The handlers -/

/-- The object. Source: `scripts/gdbproxy.py` `GDBServer` -/
structure GdbServer (P : Link) where
  /-- `_r`. -/
  r : ArmRegisters
  /-- The device behind `_dbg`. -/
  dev : P.State

namespace GdbServer

variable {P : Link} (π : Python) (fuel : ℕ) (s : GdbServer P) (group : List Byte)
  (dataList : List (List Byte))

/-- What a handler leaves: the object, and the arguments of its calls of `send`. -/
abbrev Handled (P : Link) := Except Abort (GdbServer P × List (List (List Byte)))

/-- `b'PacketSize=1024'`. -/
def packetSize : List Byte :=
  [0x50#8, 0x61#8, 0x63#8, 0x6b#8, 0x65#8, 0x74#8, 0x53#8, 0x69#8, 0x7a#8, 0x65#8, 0x3d#8, 0x31#8,
    0x30#8, 0x32#8, 0x34#8]

/-- `handle_qsupported`. Source: `scripts/gdbproxy.py` `handle_qsupported` -/
def handleQsupported : Handled P := .ok (s, [[packetSize]])

/-- `handle_qattached`. Source: `scripts/gdbproxy.py` `handle_qattached` -/
def handleQattached : Handled P := .ok (s, [[[0x31#8]]])

/-- `handle_q_current_thread`. Source: `scripts/gdbproxy.py` `handle_q_current_thread` -/
def handleQCurrentThread : Handled P := .ok (s, [[[0x51#8, 0x43#8, 0x30#8]]])

/-- `handle_set_thread`. The empty reply is a `str`, which `pack` takes as well.
Source: `scripts/gdbproxy.py` `handle_set_thread` -/
def handleSetThread : Handled P :=
  if group = [0x63#8] then .ok (s, [[ok]]) else .ok (s, [[[]]])

/-- `handle_get_stop_reason`. Source: `scripts/gdbproxy.py` `handle_get_stop_reason` -/
def handleGetStopReason : Handled P := .ok (s, [[stopReply]])

/-- `handle_get_registers`. Source: `scripts/gdbproxy.py` `handle_get_registers` -/
def handleGetRegisters : Handled P := do
  let (dev, response) ← P.call s.dev .getRegisters
  let data ← orRaise response.data
  let r ← orRaise (ArmRegisters.unpack data)
  .ok (⟨r, dev⟩, [[r.packGdb]])

/-- `handle_get_register`. Source: `scripts/gdbproxy.py` `handle_get_register` -/
def handleGetRegister : Handled P := do
  let regNbr ← natural (← orRaise (π.int16 group))
  let v ← orRaise (s.r.getItem regNbr)
  .ok (s, [[format08x v]])

/-- `handle_continue`. Source: `scripts/gdbproxy.py` `handle_continue` -/
def handleContinue : Handled P := do
  let (dev, _) ← P.call s.dev .breakpointContinue
  let dev ← P.poll fuel dev
  .ok ({ s with dev }, [[stopReply]])

/-- `handle_step`. Source: `scripts/gdbproxy.py` `handle_step` -/
def handleStep : Handled P := do
  let breakPc := (s.r.gpr 15).toNat + 4
  let (dev, _) ← P.call s.dev (.insertBreakpoint breakPc 0)
  let (dev, _) ← P.call dev .breakpointContinue
  let dev ← P.poll fuel dev
  let (dev, _) ← P.call dev (.removeBreakpoint breakPc 0)
  .ok ({ s with dev }, [[stopReply]])

/-- `handle_read_memory`. Source: `scripts/gdbproxy.py` `handle_read_memory` -/
def handleReadMemory : Handled P := do
  let address ← orRaise (π.int16 group)
  let size ← orRaise (dataList[0]?.bind π.int16)
  let (dev, response) ← P.call s.dev (.read (← natural address) (← natural size))
  let data ← orRaise response.data
  .ok ({ s with dev }, [[hexlify data]])

/-- `handle_write_memory`. Source: `scripts/gdbproxy.py` `handle_write_memory` -/
def handleWriteMemory : Handled P := do
  let address ← orRaise (π.int16 group)
  let size ← orRaise (dataList[0]?.bind π.int16)
  let data ← orRaise (dataList[1]?.bind π.int16)
  let (dev, response) ←
    P.call s.dev (.write (← natural address) (← natural size) (← natural data))
  let res ← orRaise response.data
  .ok ({ s with dev }, [[hexlify res]])

/-- A breakpoint request, with the method it calls. -/
def handleBreakpoint (method : ℕ → Method) : Handled P := do
  let address ← orRaise (dataList[0]?.bind π.int16)
  let _type ← orRaise (dataList[1]?.bind π.int10)
  let (dev, _) ← P.call s.dev (method (← natural address))
  .ok ({ s with dev }, [[ok]])

/-- `handle_insert_breakpoint`. Source: `scripts/gdbproxy.py` `handle_insert_breakpoint` -/
def handleInsertBreakpoint : Handled P := handleBreakpoint π s dataList (.insertBreakpoint · 0)

/-- `handle_remove_breakpoint`. Source: `scripts/gdbproxy.py` `handle_remove_breakpoint` -/
def handleRemoveBreakpoint : Handled P := handleBreakpoint π s dataList (.removeBreakpoint · 0)

/-- `handle_detach`, which sends nothing. Source: `scripts/gdbproxy.py` `handle_detach` -/
def handleDetach : Handled P := do
  let (dev, _) ← P.call s.dev .detach
  .ok ({ s with dev }, [])

end GdbServer

/-! ## What the handlers get -/

section spec

variable {α β : Type}

@[simp] theorem ok_bind (a : α) (f : α → Except Abort β) : Except.ok a >>= f = f a := rfl

@[simp] theorem orRaise_some (a : α) : orRaise (some a) = .ok a := rfl

@[simp] theorem natural_natCast (n : ℕ) : natural n = .ok n := rfl

/-- A handler goes on iff the call before has returned. -/
theorem bind_eq_ok {x : Except Abort α} {f : α → Except Abort β} {b : β} :
    x >>= f = .ok b ↔ ∃ a, x = .ok a ∧ f a = .ok b := by
  cases x with
  | error e => exact iff_of_false nofun fun ⟨_, h, _⟩ => nomatch h
  | ok a => exact ⟨fun h => ⟨a, rfl, h⟩, fun ⟨_, h, hf⟩ => Except.ok.inj h ▸ hf⟩

theorem orRaise_eq_ok {o : Option α} {a : α} : orRaise o = .ok a ↔ o = some a := by
  cases o with
  | none => exact iff_of_false nofun nofun
  | some b => rw [orRaise, Except.ok.injEq, Option.some.injEq]

theorem natural_eq_ok {v : ℤ} {n : ℕ} : natural v = .ok n ↔ v = n := by
  rw [natural, orRaise_eq_ok]
  exact Int.mem_toNat?

variable {P : Phone} {d : P.State} {m : Method} {packed : List Byte} {n : ℕ}

/-- The bytes of a poll. -/
theorem pack_getRegisters : Method.getRegisters.command.pack = some packedGetRegisters := rfl

/-- The bytes of a continue. -/
theorem pack_breakpointContinue :
    Method.breakpointContinue.command.pack = some packedContinue := rfl

/-- A method that cannot be packed raises. -/
theorem pack_of_call_eq_ok {e : P.State × Response} (h : P.call d m = .ok e) :
    m.command.pack.isSome := by
  obtain ⟨packed, hpack, -⟩ := bind_eq_ok.mp h
  rw [orRaise_eq_ok.mp hpack]
  rfl

/-- **What a method gets from the phone**: a response with the error, and the data for the methods
that read them. -/
theorem call_eq_ok (hpack : m.command.pack = some packed) (hn : dataLength m = some n) :
    ∃ response, P.call d m = .ok ((P.exchange d packed).1, response) ∧
      (P.exchange d packed).2[1]? = some response.error ∧
      (m.command.type ∈ [.read, .write, .getRegisters] → ∃ data, response.data = some data ∧
        data.length = if response.error = ErrorCode.success.code then n else 0) := by
  obtain ⟨error, data, hreply, hlen⟩ := P.wellFormed d m packed n hpack hn
  refine ⟨_, bind_eq_ok.mpr ⟨packed, orRaise_eq_ok.mpr hpack, bind_eq_ok.mpr
    ⟨_, orRaise_eq_ok.mpr (congrArg Response.unpack hreply), rfl⟩⟩, ?_, ?_⟩
  · rw [hreply]
    rfl
  · intro htype
    refine ⟨data, if_pos ?_, hlen⟩
    have hcode := List.mem_map_of_mem (f := CmdType.code) htype
    simp only [List.map_cons, List.map_nil, List.mem_cons, List.not_mem_nil, or_false] at hcode ⊢
    tauto

/-- The methods of the handlers that take no argument, or whose arguments fit. -/
theorem call_returns (hpack : m.command.pack.isSome) (hn : (dataLength m).isSome) :
    ∃ e, P.call d m = .ok e := by
  obtain ⟨packed, hpacked⟩ := Option.isSome_iff_exists.mp hpack
  obtain ⟨n, hn⟩ := Option.isSome_iff_exists.mp hn
  obtain ⟨response, hcall, -⟩ := call_eq_ok (P := P) (d := d) hpacked hn
  exact ⟨_, hcall⟩

/-- **The poll after a continue ends.** -/
theorem poll_returns (d : P.State) :
    ∃ fuel d', P.poll fuel (P.exchange d packedContinue).1 = .ok d' := by
  obtain ⟨k, hk⟩ := P.stops d
  generalize (P.exchange d packedContinue).1 = d at hk
  induction k generalizing d with
  | zero =>
      obtain ⟨response, hcall, herror, -⟩ := call_eq_ok (P := P) (d := d) pack_getRegisters rfl
      refine ⟨1, _, bind_eq_ok.mpr ⟨_, hcall, if_neg fun he => hk ?_⟩⟩
      rw [Function.iterate_zero_apply, herror, he]
  | succ k ih =>
      obtain ⟨response, hcall, -⟩ := call_eq_ok (P := P) (d := d) pack_getRegisters rfl
      rw [Function.iterate_succ_apply] at hk
      obtain ⟨fuel, d', hpoll⟩ := ih _ hk
      by_cases he : response.error = ErrorCode.noBreakpoint.code
      · exact ⟨fuel + 1, d', bind_eq_ok.mpr ⟨_, hcall, (if_pos he).trans hpoll⟩⟩
      · exact ⟨1, _, bind_eq_ok.mpr ⟨_, hcall, if_neg he⟩⟩

end spec

/-! ## A phone -/

namespace Phone

/-- The responses of a phone that is stopped with registers of zeros and has no memory mapped. -/
def sampleReply (type : Byte) : List Byte :=
  if type = CmdType.read.code then [type, ErrorCode.unmappedMemory.code]
  else if type = CmdType.getRegisters.code then
    type :: ErrorCode.success.code :: List.replicate 68 0#8
  else [type, ErrorCode.success.code]

/-- A command to this phone. -/
def sampleExchange (d : Unit) (packed : List Byte) : Unit × List Byte :=
  (d, sampleReply (packed.headD 0#8))

/-- The responses of the example are well formed. -/
theorem sampleExchange_wellFormed (d : Unit) (m : Method) (packed : List Byte) (n : ℕ)
    (hpack : m.command.pack = some packed) (hn : dataLength m = some n) :
    ∃ error data, (sampleExchange d packed).2 = m.command.type.code :: error :: data ∧
      data.length = if error = ErrorCode.success.code then n else 0 := by
  obtain ⟨rest, rfl⟩ := pack_head hpack
  cases m with
  | read address size => exact ⟨_, [], rfl, rfl⟩
  | getRegisters =>
      obtain rfl := Option.some.inj hn
      exact ⟨_, List.replicate 68 0#8, rfl, List.length_replicate⟩
  | detach => exact ⟨_, [], rfl, Option.some.inj hn⟩
  | write address size data => exact ⟨_, [], rfl, Option.some.inj hn⟩
  | insertBreakpoint address type => exact ⟨_, [], rfl, Option.some.inj hn⟩
  | removeBreakpoint address type => exact ⟨_, [], rfl, Option.some.inj hn⟩
  | breakpointContinue => exact ⟨_, [], rfl, Option.some.inj hn⟩
  | _ => cases hn

/-- The example is always in a stop. -/
theorem sampleExchange_stops (d : Unit) :
    ∃ k, (sampleExchange ((fun d => (sampleExchange d packedGetRegisters).1)^[k]
      (sampleExchange d packedContinue).1) packedGetRegisters).2[1]? ≠
        some ErrorCode.noBreakpoint.code :=
  ⟨0, show some ErrorCode.success.code ≠ some ErrorCode.noBreakpoint.code by decide⟩

/-- The phone. -/
def sample : Phone := ⟨⟨Unit, sampleExchange⟩, sampleExchange_wellFormed, sampleExchange_stops⟩

end Phone

/-- A server for it. -/
def GdbServer.sample : GdbServer Phone.sample := ⟨⟨0#32, fun _ => 0#32⟩, ()⟩

end Hbootdbg.Gdb
