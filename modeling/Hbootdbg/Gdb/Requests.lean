import Hbootdbg.Gdb.Encodings
import Hbootdbg.Gdb.Handlers
import Hbootdbg.Gdb.Step

/-!
# The proxy, request by request

The proxy keeps the registers of the last `g` request in `_r`. The phone runs only in a `c` or an
`s` request, from one stop to the next.

* `Proxy`, `Request`, `Request.handle` — the state, some of the requests and their handlers.
* `step` — one request; nothing is left where a handler raises or never returns.
* `handle_g` — a `g` request refreshes the registers.
* `handle_of_ne_g` — no other request changes them; only `c` and `s` lead to another stop.
-/

namespace Hbootdbg.Gdb

open Hbootdbg.Lib.ByteMem Hbootdbg.Lib.Hex Hbootdbg.Lib.A32Run Hbootdbg.Device Hbootdbg.Session
open Hbootdbg.Host Hbootdbg.Stop

/-- The server, with the phone behind it. Source: `scripts/gdbproxy.py` `GDBServer` -/
structure Proxy where
  /-- `_r`. -/
  r : ArmRegisters
  /-- The phone. -/
  dev : Dev

/-- A request, with what its handler gets: the digits of the command, and the other fields. -/
inductive Request
  | g
  | p (group : List Byte)
  | c
  | s
  | m (group : List Byte) (dataList : List (List Byte))
  | M (group : List Byte) (dataList : List (List Byte))
  | Z0 (dataList : List (List Byte))
  | z0 (dataList : List (List Byte))

/-- `b'S05'`. -/
def stopReply : List Byte := [0x53#8, 0x30#8, 0x35#8]

/-- The end of `handle_continue`, at the stop that the poll finds: it polls on while the answer is
`ERROR_NO_BREAKPOINT`. Source: `scripts/gdbproxy.py` `handle_continue` -/
def poll (H : HbootClient) (B : Board) (d : Dev) : Option Dev := do
  let (d, bytes) ← exchange H B d getRegisters
  let response ← Response.unpack bytes
  if response.error = ErrorCode.noBreakpoint.code then none else some d

/-- `handle_continue`. The polls before the stop have no effect and are left out.
Source: `scripts/gdbproxy.py` `handle_continue` -/
def handleContinue (H : HbootClient) (B : Board) (exec : Exec) (fuel : ℕ) (d : Dev) :
    Option Dev := do
  let (d, _) ← exchange H B d breakpointContinue
  let ctx ← d.ctx
  let (ctx, m, _) ← runToBkpt (processor exec) fuel ctx d.mem
  poll H B (enter B { d with mem := m } ctx)

/-- The handler of a request: the new state, and the data of the reply. -/
def Request.handle (H : HbootClient) (B : Board) (exec : Exec) (fuel : ℕ) (s : Proxy) :
    Request → Option (Proxy × List Byte)
  | .g => (handleGetRegisters H B s.dev).map fun e => (⟨e.2, e.1⟩, e.2.packGdb)
  | .p group => (handleGetRegister s.r group).map fun reply => (s, reply)
  | .c => (handleContinue H B exec fuel s.dev).map fun d => ({ s with dev := d }, stopReply)
  | .s => (handleStep H B exec fuel s.r s.dev).map fun e => ({ s with dev := e.1 }, stopReply)
  | .m group dataList =>
      (handleReadMemory H B s.dev group dataList).map fun e => ({ s with dev := e.1 }, e.2)
  | .M group dataList =>
      (handleWriteMemory H B s.dev group dataList).map fun e => ({ s with dev := e.1 }, e.2)
  | .Z0 dataList =>
      (handleInsertBreakpoint H B s.dev dataList).map fun e => ({ s with dev := e.1 }, e.2)
  | .z0 dataList =>
      (handleRemoveBreakpoint H B s.dev dataList).map fun e => ({ s with dev := e.1 }, e.2)

/-- One request. -/
def step (H : HbootClient) (B : Board) (exec : Exec) (fuel : ℕ) (s : Option Proxy) (q : Request) :
    Option Proxy :=
  s.bind fun s => (q.handle H B exec fuel s).map Prod.fst

variable {H : HbootClient} {B : Board} {exec : Exec} {fuel : ℕ} {d d' : Dev} {s s' : Proxy}
  {q : Request}
  {reply group : List Byte} {dataList : List (List Byte)}

/-! ## The stop, handler by handler -/

/-- A read leaves the stop as it is. -/
theorem handleReadMemory_ctx (h : handleReadMemory H B d group dataList = some (d', reply)) :
    d'.ctx = d.ctx := by
  obtain ⟨address, -, h⟩ := Option.bind_eq_some_iff.mp h
  obtain ⟨size, -, h⟩ := Option.bind_eq_some_iff.mp h
  obtain ⟨⟨d₁, response⟩, hreq, h⟩ := Option.bind_eq_some_iff.mp h
  obtain ⟨data, -, h⟩ := Option.bind_eq_some_iff.mp h
  obtain ⟨rfl, -⟩ := Prod.mk.inj (Option.some.inj h)
  exact request_ctx hreq nofun

/-- A write leaves the stop as it is. -/
theorem handleWriteMemory_ctx (h : handleWriteMemory H B d group dataList = some (d', reply)) :
    d'.ctx = d.ctx := by
  obtain ⟨address, -, h⟩ := Option.bind_eq_some_iff.mp h
  obtain ⟨size, -, h⟩ := Option.bind_eq_some_iff.mp h
  obtain ⟨data, -, h⟩ := Option.bind_eq_some_iff.mp h
  obtain ⟨⟨d₁, response⟩, hreq, h⟩ := Option.bind_eq_some_iff.mp h
  obtain ⟨res, -, h⟩ := Option.bind_eq_some_iff.mp h
  obtain ⟨rfl, -⟩ := Prod.mk.inj (Option.some.inj h)
  exact request_ctx hreq nofun

/-- An insertion leaves the stop as it is. -/
theorem handleInsertBreakpoint_ctx (h : handleInsertBreakpoint H B d dataList = some (d', reply)) :
    d'.ctx = d.ctx := by
  obtain ⟨address, -, h⟩ := Option.bind_eq_some_iff.mp h
  obtain ⟨type, -, h⟩ := Option.bind_eq_some_iff.mp h
  obtain ⟨⟨d₁, response⟩, hreq, h⟩ := Option.bind_eq_some_iff.mp h
  obtain ⟨rfl, -⟩ := Prod.mk.inj (Option.some.inj h)
  exact request_ctx hreq nofun

/-- A removal leaves the stop as it is. -/
theorem handleRemoveBreakpoint_ctx (h : handleRemoveBreakpoint H B d dataList = some (d', reply)) :
    d'.ctx = d.ctx := by
  obtain ⟨address, -, h⟩ := Option.bind_eq_some_iff.mp h
  obtain ⟨type, -, h⟩ := Option.bind_eq_some_iff.mp h
  obtain ⟨⟨d₁, response⟩, hreq, h⟩ := Option.bind_eq_some_iff.mp h
  obtain ⟨rfl, -⟩ := Prod.mk.inj (Option.some.inj h)
  exact request_ctx hreq nofun

/-- A poll leaves the stop as it is. -/
theorem poll_ctx {c : Context} (h : poll H B d = some d') (hctx : d.ctx = some c) :
    d'.ctx = some c := by
  obtain ⟨d₁, hexch, -, hctx₁⟩ := exchange_getRegisters (H := H) (B := B) hctx
  rw [poll, hexch] at h
  simp only [Option.bind_eq_bind, Option.bind_some] at h
  obtain ⟨response, -, h⟩ := Option.bind_eq_some_iff.mp h
  split at h
  · cases h
  · obtain rfl := Option.some.inj h
    exact hctx₁

/-- A continue that is handled ends at a stop. -/
theorem handleContinue_ctx (h : handleContinue H B exec fuel d = some d') :
    ∃ c, d'.ctx = some c := by
  rw [handleContinue] at h
  simp only [Option.bind_eq_bind] at h
  obtain ⟨⟨d₁, bytes⟩, -, h⟩ := Option.bind_eq_some_iff.mp h
  obtain ⟨ctx, -, h⟩ := Option.bind_eq_some_iff.mp h
  obtain ⟨⟨ctx', m, pcs⟩, -, h⟩ := Option.bind_eq_some_iff.mp h
  exact ⟨ctx', poll_ctx h rfl⟩

/-! ## The requests -/

/-- **A `g` request that is handled refreshes the registers**, and leaves the stop as it is. -/
theorem handle_g {c : Context} (hctx : s.dev.ctx = some c)
    (h : Request.g.handle H B exec fuel s = some (s', reply)) :
    s'.r = .ofContext c ∧ s'.dev.ctx = some c := by
  obtain ⟨⟨d', r⟩, hd', he⟩ := Option.map_eq_some_iff.mp h
  obtain ⟨rfl, -⟩ := Prod.mk.inj he
  exact handleGetRegisters_eq_some hctx hd'

/-- The request makes the phone run. -/
def Request.Resumes : Request → Prop
  | .c | .s => True
  | _ => False

/-- **No other request changes the registers.** The stop is the same, but for a request that makes
the phone run: that one ends at another stop. -/
theorem handle_of_ne_g (h : q.handle H B exec fuel s = some (s', reply)) (hq : q ≠ .g) :
    s'.r = s.r ∧ (s'.dev.ctx = s.dev.ctx ∨ q.Resumes ∧ ∃ c, s'.dev.ctx = some c) := by
  cases q with
  | g => exact absurd rfl hq
  | p group =>
      obtain ⟨_, -, he⟩ := Option.map_eq_some_iff.mp h
      obtain ⟨rfl, -⟩ := Prod.mk.inj he
      exact ⟨rfl, Or.inl rfl⟩
  | c =>
      obtain ⟨d', hd', he⟩ := Option.map_eq_some_iff.mp h
      obtain ⟨rfl, -⟩ := Prod.mk.inj he
      exact ⟨rfl, Or.inr ⟨trivial, handleContinue_ctx hd'⟩⟩
  | s =>
      obtain ⟨⟨d', stepped⟩, hd', he⟩ := Option.map_eq_some_iff.mp h
      obtain ⟨rfl, -⟩ := Prod.mk.inj he
      obtain ⟨_, ctx, _, _, -, -, -, hctx⟩ := handleStep_eq_some hd' rfl
      exact ⟨rfl, Or.inr ⟨trivial, ctx, hctx⟩⟩
  | m group dataList =>
      obtain ⟨⟨d', _⟩, hd', he⟩ := Option.map_eq_some_iff.mp h
      obtain ⟨rfl, -⟩ := Prod.mk.inj he
      exact ⟨rfl, Or.inl (handleReadMemory_ctx hd')⟩
  | M group dataList =>
      obtain ⟨⟨d', _⟩, hd', he⟩ := Option.map_eq_some_iff.mp h
      obtain ⟨rfl, -⟩ := Prod.mk.inj he
      exact ⟨rfl, Or.inl (handleWriteMemory_ctx hd')⟩
  | Z0 dataList =>
      obtain ⟨⟨d', _⟩, hd', he⟩ := Option.map_eq_some_iff.mp h
      obtain ⟨rfl, -⟩ := Prod.mk.inj he
      exact ⟨rfl, Or.inl (handleInsertBreakpoint_ctx hd')⟩
  | z0 dataList =>
      obtain ⟨⟨d', _⟩, hd', he⟩ := Option.map_eq_some_iff.mp h
      obtain ⟨rfl, -⟩ := Prod.mk.inj he
      exact ⟨rfl, Or.inl (handleRemoveBreakpoint_ctx hd')⟩

end Hbootdbg.Gdb
