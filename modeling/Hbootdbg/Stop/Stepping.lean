import Hbootdbg.Lib.A32Run
import Hbootdbg.Host.Proxy
import Hbootdbg.Stop.Resume

/-!
# Single stepping through the proxy

`handle_step` of the proxy inserts a breakpoint after the instruction of the stop, continues, waits
for the next stop and removes the breakpoint. The device resumes through the slot of the breakpoint
it stopped at, and the next request allocates that same slot for the next breakpoint.

* `processor` — contexts as the registers of the processor; what the words of the program do is a
  parameter.
* `instructionAt` — the instruction of the program that an executed word belongs to: the words of a
  slot stand for the instruction at the address of the slot.
* `handleGetRegisters`, `handleStep`, `stepRequest`, `stepRequests` — the handlers of the proxy, and
  a run of `s` requests, each after a `g` request.
* `StraightLine` — the program around the stop.
* `SteppingExact` — the stops are at the following instructions, in order, and each request
  executes exactly the instruction it stepped over.
* `stepRequest_eq` — a request as one run of the processor; `leads_to_next` — the run up to the
  instruction after the stop.
* `steppingExact_iff` — stepping is exact for one request with room in the table, and for no run
  of two requests or more.
-/

namespace Hbootdbg.Stop

open Hbootdbg.Lib.ByteMem Hbootdbg.Lib.A32Branch Hbootdbg.Lib.A32Run Hbootdbg.Device
open Hbootdbg.Table Hbootdbg.Session Hbootdbg.Host

/-- The effect of the words of the program. -/
abbrev Exec := Word → Context → Memory → Context × Memory

/-- The processor of the phone, over saved contexts. -/
def processor (exec : Exec) : Processor Context where
  pc := Context.pc
  setPc := Context.setPc
  exec := exec
  pc_setPc := Context.pc_setPc
  setPc_setPc := by
    intro r p q
    simp [Context.setPc]

/-- The instructions of the program that the word executed at `pc` stands for: that of a slot for
the first word of its trampoline, none for the branch back from it. A second word that does not
branch back belongs to no instruction, and counts like any other word. -/
def instructionAt (B : Board) (m : Memory) (pc : Word) : List Word :=
  match (List.range dbgNbrPoints).find? fun i => originalAt B i 0 == pc with
  | some i => [bpAddress B m i]
  | none =>
      if ((List.range dbgNbrPoints).any fun i => originalAt B i 1 == pc && decide (SlotOk B m i))
      then [] else [pc]

/-! ## The proxy -/

/-- What one `s` request did: where the device stopped, and the instructions executed on the
way. -/
structure Stepped where
  /-- The `pc` of the stop. -/
  pc : Word
  /-- The instructions of the program, in order. -/
  executed : List Word

/-- `handle_get_registers`. Source: `scripts/gdbproxy.py` `handle_get_registers` -/
def handleGetRegisters (H : HbootClient) (B : Board) (d : Dev) : Option (Dev × ArmRegisters) := do
  let (d, bytes) ← exchange H B d getRegisters
  let response ← Response.unpack bytes
  let data ← response.data
  let r ← ArmRegisters.unpack data
  some (d, r)

/-- The end of `handle_step`, at the stop that the poll finds: it polls on while the answer is
`ERROR_NO_BREAKPOINT`. Source: `scripts/gdbproxy.py` `handle_step` -/
def pollAndRemove (H : HbootClient) (B : Board) (d : Dev) (breakPc : Word) : Option Dev := do
  let (d, bytes) ← exchange H B d getRegisters
  let response ← Response.unpack bytes
  if response.error = ErrorCode.noBreakpoint.code then none
  else
    let (d, _) ← exchange H B d (Host.removeBreakpoint breakPc)
    some d

/-- `handle_step`. The polls before the stop have no effect and are left out; `struct.pack` raises
for an address of more than 32 bits. Source: `scripts/gdbproxy.py` `handle_step` -/
def handleStep (H : HbootClient) (B : Board) (exec : Exec) (fuel : ℕ) (r : ArmRegisters)
    (d : Dev) : Option (Dev × Stepped) :=
  if 2 ^ 32 ≤ (r.gpr 15).toNat + 4 then none
  else do
    let breakPc := r.gpr 15 + 4#32
    let (d, _) ← exchange H B d (Host.insertBreakpoint breakPc)
    let (d, _) ← exchange H B d breakpointContinue
    let ctx ← d.ctx
    let (ctx, m, pcs) ← runToBkpt (processor exec) fuel ctx d.mem
    let d' ← pollAndRemove H B (enter B { d with mem := m } ctx) breakPc
    some (d', ⟨ctx.pc, pcs.flatMap (instructionAt B d.mem)⟩)

/-- A `g` request and an `s` request. -/
def stepRequest (H : HbootClient) (B : Board) (exec : Exec) (fuel : ℕ) (d : Dev) :
    Option (Dev × Stepped) := do
  let (d, r) ← handleGetRegisters H B d
  handleStep H B exec fuel r d

/-- A run of such requests. -/
def stepRequests (H : HbootClient) (B : Board) (exec : Exec) (fuel : ℕ) :
    ℕ → Dev → Option (Dev × List Stepped)
  | 0, d => some (d, [])
  | n + 1, d => do
      let (d, s) ← stepRequest H B exec fuel d
      let (d, ss) ← stepRequests H B exec fuel n d
      some (d, s :: ss)

/-! ## The program -/

/-- The bytes that a step from `a` relies on: the object of the debugger, and the word after the
instruction at `a`. -/
def Relied (B : Board) (a x : Word) : Prop := InStatus B x ∨ InSpan (off a 4) 4 x

/-- The memory in which a step from `a` executes: the breakpoint after the instruction at `a` is
inserted. -/
def stepMemory (B : Board) (m : Memory) (a : Word) : Memory :=
  (Device.insertBreakpoint B m (off a 4) 0#8).1

/-- The program around a stop with the context `ctx`, at `a`, in the memory `m`, for `N` requests:
the instructions up to `a + 4 N` are outside the object, in branch range, and without breakpoints
but for `a`; those that are to be executed neither read nor write the program counter. They may
store what they like and where they like, with one exception: the instruction at `a`, as this stop
resumes with it, does not overwrite the table that the stop is resumed through, nor the word after
it. -/
structure StraightLine (B : Board) (exec : Exec) (m : Memory) (ctx : Context) (a : Word) (N : ℕ) :
    Prop where
  fits : a.toNat + 4 * N + 4 ≤ 2 ^ 32
  ok : ∀ k ≤ N, AddressOk B (off a (4 * k)) ∧ InBranchRange B (off a (4 * k))
  free : ∀ k, 0 < k → k ≤ N → ¬ Active B m (off a (4 * k))
  plain : ∀ k < N, (k = 0 → Active B m a) →
    Plain (processor exec) (load32 (restored B m) (off a (4 * k)))
  keeps : 0 < N → Active B m a → ∀ x, Relied B a x →
    (exec (load32 (restored B m) a) ctx (stepMemory B m a)).2 x = stepMemory B m a x

/-- What the first request of a run should execute: the instruction at `a`, or nothing from a
hard-coded breakpoint. -/
def firstExecuted (B : Board) (m : Memory) (a : Word) : List Word :=
  if Active B m a then [a] else []

/-- What exact stepping does: request `k` stops at `a + 4 (k + 1)` and executes the instruction at
`a + 4 k` alone. -/
def expected (B : Board) (m : Memory) (a : Word) (N : ℕ) : List Stepped :=
  (List.range N).map fun k =>
    ⟨off a (4 * (k + 1)), if k = 0 then firstExecuted B m a else [off a (4 * k)]⟩

/-- The requests end, and do what they should. -/
def SteppingExact (H : HbootClient) (B : Board) (exec : Exec) (m : Memory) (a : Word) (d : Dev)
    (N : ℕ) : Prop :=
  ∃ fuel d', stepRequests H B exec fuel N d = some (d', expected B m a N)

variable {H : HbootClient} {B : Board} {exec : Exec} {m m₁ : Memory} {a : Word} {d d' : Dev}
  {N fuel i : ℕ}

/-! ## The instructions of executed words -/

/-- The first word of a slot stands for the instruction at its address. -/
theorem instructionAt_first (hi : i < dbgNbrPoints) :
    instructionAt B m (originalAt B i 0) = [bpAddress B m i] := by
  have hfind : ((List.range dbgNbrPoints).find? fun j => originalAt B j 0 == originalAt B i 0) =
      some i := by
    rw [List.find?_range_eq_some]
    refine ⟨by simp, by simpa using hi, fun j hj => ?_⟩
    have hne : originalAt B j 0 ≠ originalAt B i 0 := fun he => by
      unfold dbgNbrPoints at hi
      unfold originalAt bpOffset sizeofBreakpoint at he
      have := off_injective B.status (by omega) (by omega) he
      omega
    simpa using hne
  unfold instructionAt
  rw [hfind]

/-- The second word of a slot is not the first word of any. -/
theorem find_originalAt_one (hi : i < dbgNbrPoints) :
    ((List.range dbgNbrPoints).find? fun j => originalAt B j 0 == originalAt B i 1) = none := by
  rw [List.find?_eq_none]
  intro j hj he
  have hj := List.mem_range.mp hj
  unfold dbgNbrPoints at hi hj
  simp only [beq_iff_eq] at he
  unfold originalAt bpOffset sizeofBreakpoint at he
  have := off_injective B.status (by omega) (by omega) he
  omega

/-- A second word that branches back stands for no instruction. -/
theorem instructionAt_second (hi : i < dbgNbrPoints) (hslot : SlotOk B m i) :
    instructionAt B m (originalAt B i 1) = [] := by
  have hany : ((List.range dbgNbrPoints).any fun j =>
      originalAt B j 1 == originalAt B i 1 && decide (SlotOk B m j)) = true := by
    rw [List.any_eq_true]
    exact ⟨i, List.mem_range.mpr hi, by simp [hslot]⟩
  unfold instructionAt
  rw [find_originalAt_one hi]
  simp only [hany, if_true]

/-- A second word that does not branch back stands for itself. -/
theorem instructionAt_second_of_not (hi : i < dbgNbrPoints) (hslot : ¬ SlotOk B m i) :
    instructionAt B m (originalAt B i 1) = [originalAt B i 1] := by
  have hany : ((List.range dbgNbrPoints).any fun j =>
      originalAt B j 1 == originalAt B i 1 && decide (SlotOk B m j)) = false := by
    rw [List.any_eq_false]
    intro j hj hc
    have hj := List.mem_range.mp hj
    simp only [Bool.and_eq_true, beq_iff_eq, decide_eq_true_eq] at hc
    obtain ⟨he, hok⟩ := hc
    have hji : j = i := by
      unfold dbgNbrPoints at hi hj
      unfold originalAt bpOffset sizeofBreakpoint at he
      have := off_injective B.status (by omega) (by omega) he
      omega
    exact hslot (hji ▸ hok)
  unfold instructionAt
  rw [find_originalAt_one hi]
  simp only [hany, Bool.false_eq_true, if_false]

/-- An instruction outside the object stands for itself. -/
theorem instructionAt_outside {pc : Word} (h : ¬ InStatus B pc) : instructionAt B m pc = [pc] := by
  have hne : ∀ i < dbgNbrPoints, ∀ k < 2, originalAt B i k ≠ pc := by
    rintro i hi k hk rfl
    refine h ?_
    unfold dbgNbrPoints at hi
    unfold InStatus InSpan sizeofStatus
    rw [originalAt, toNat_off_sub] <;> unfold bpOffset sizeofBreakpoint <;> omega
  have hfind : ((List.range dbgNbrPoints).find? fun j => originalAt B j 0 == pc) = none := by
    rw [List.find?_eq_none]
    intro j hj
    simpa using hne j (List.mem_range.mp hj) 0 (by omega)
  have hany : ((List.range dbgNbrPoints).any fun j =>
      originalAt B j 1 == pc && decide (SlotOk B m j)) = false := by
    rw [List.any_eq_false]
    intro j hj
    have hj1 := hne j (List.mem_range.mp hj) 1 (by omega)
    simp [hj1]
  unfold instructionAt
  rw [hfind]
  simp only [hany, Bool.false_eq_true, if_false]

/-! ## A request as one run of the processor -/

/-- An insertion, exchanged. -/
theorem exchange_insert (H : HbootClient) (B : Board) (d : Dev) (b : Word) :
    ∃ d' bytes, exchange H B d (Host.insertBreakpoint b) = some (d', bytes) ∧
      d'.mem = (Device.insertBreakpoint B d.mem b 0#8).1 ∧ d'.ctx = d.ctx := by
  have hk : kind (Host.insertBreakpoint b) = some .insertBreakpoint := by
    rw [kind, type_insertBreakpoint]
    rfl
  obtain ⟨d', hd', hm, hc, -⟩ := serve_insert (B := B) (d := d) hk
  rw [addr_insertBreakpoint, bpType_insertBreakpoint] at hm
  exact ⟨d', _, exchange_of_serve hd', hm, hc⟩

/-- A removal, exchanged. -/
theorem exchange_remove (H : HbootClient) (B : Board) (d : Dev) (b : Word) :
    ∃ d' bytes, exchange H B d (Host.removeBreakpoint b) = some (d', bytes) ∧
      d'.mem = (Device.removeBreakpoint B d.mem b 0#8).1 ∧ d'.ctx = d.ctx := by
  have hk : kind (Host.removeBreakpoint b) = some .removeBreakpoint := by
    rw [kind, type_removeBreakpoint]
    rfl
  obtain ⟨d', hd', hm, hc, -⟩ := serve_remove (B := B) (d := d) hk
  rw [addr_removeBreakpoint, bpType_removeBreakpoint] at hm
  exact ⟨d', _, exchange_of_serve hd', hm, hc⟩

/-- A continue, exchanged: the context goes on at the continue address. -/
theorem exchange_continue {ctx : Context} (hctx : d.ctx = some ctx) :
    ∃ d' bytes, exchange H B d breakpointContinue = some (d', bytes) ∧ d'.mem = d.mem ∧
      d'.ctx = some (ctx.setPc (continueAddress B d.mem)) := by
  obtain ⟨d', hd', hm, hc, -⟩ := serve_continue (B := B) (c := breakpointContinue) rfl hctx
  exact ⟨d', _, exchange_of_serve hd', hm, hc⟩

/-- The proxy's `r[15]` is the `pc` of the stop. -/
theorem handleGetRegisters_eq {ctx : Context} (hctx : d.ctx = some ctx)
    (hpc : H.fastbootMode = true ∨ ctx.pc.toNat % 2 = 0) :
    ∃ d' r, handleGetRegisters H B d = some (d', r) ∧ d'.mem = d.mem ∧ d'.ctx = some ctx ∧
      r.gpr 15 = ctx.pc := by
  obtain ⟨d', hd', hm, hc⟩ := exchange_getRegisters (H := H) (B := B) hctx
  obtain ⟨r, hr, hgpr⟩ := unpack_bytes ctx
  rw [result_reply (keeps_context hpc)] at hd'
  refine ⟨d', r, ?_, hm, hc, ?_⟩
  · unfold handleGetRegisters
    rw [hd']
    simp [Response.unpack, hr]
  · rw [hgpr]
    exact Function.update_of_ne (by decide) _ _

/-- At a stop, a poll that is answered is followed by the removal. -/
theorem pollAndRemove_eq_some {c : Context} {b : Word} (hctx : d.ctx = some c)
    (h : pollAndRemove H B d b = some d') :
    d'.ctx = some c ∧ d'.mem = (Device.removeBreakpoint B d.mem b 0#8).1 := by
  obtain ⟨d₁, hpoll, hmem₁, hctx₁⟩ := exchange_getRegisters (H := H) (B := B) hctx
  obtain ⟨d₂, bytes, hrem, hmem₂, hctx₂⟩ := exchange_remove H B d₁ b
  unfold pollAndRemove at h
  rw [hpoll] at h
  simp only [Option.bind_eq_bind, Option.bind_some, hrem] at h
  obtain ⟨response, -, h⟩ := Option.bind_eq_some_iff.mp h
  obtain ⟨-, h⟩ := Option.ite_none_left_eq_some.mp h
  obtain rfl := Option.some.inj h
  exact ⟨hctx₂.trans hctx₁, hmem₁ ▸ hmem₂⟩

/-- The poll is answered, unless the context is taken for one with a prompt. -/
theorem pollAndRemove_isSome {c : Context} (hctx : d.ctx = some c)
    (hpc : H.fastbootMode = true ∨ c.pc.toNat % 2 = 0) (b : Word) :
    ∃ d', pollAndRemove H B d b = some d' := by
  obtain ⟨d₁, hpoll, -, -⟩ := exchange_getRegisters (H := H) (B := B) hctx
  obtain ⟨d₂, bytes, hrem, -, -⟩ := exchange_remove H B d₁ b
  rw [result_reply (keeps_context hpc)] at hpoll
  have hne : ErrorCode.success.code ≠ ErrorCode.noBreakpoint.code := by decide
  refine ⟨d₂, ?_⟩
  unfold pollAndRemove
  rw [hpoll]
  simp [Response.unpack, hrem, hne]

/-- The requests of a step at a stop: what is left is the run, the poll and the removal. -/
theorem handleStep_eq (exec : Exec) (fuel : ℕ) {d₁ d₂ : Dev} {bytes₁ bytes₂ : List Byte}
    {r : ArmRegisters} {c : Context}
    (hfit : ¬ 2 ^ 32 ≤ (r.gpr 15).toNat + 4)
    (hins : exchange H B d (Host.insertBreakpoint (r.gpr 15 + 4#32)) = some (d₁, bytes₁))
    (hcont : exchange H B d₁ breakpointContinue = some (d₂, bytes₂)) (hctx : d₂.ctx = some c) :
    handleStep H B exec fuel r d = (runToBkpt (processor exec) fuel c d₂.mem).bind fun e =>
      (pollAndRemove H B (enter B { d₂ with mem := e.2.1 } e.1) (r.gpr 15 + 4#32)).bind fun d' =>
        some (d', ⟨e.1.pc, e.2.2.flatMap (instructionAt B d₂.mem)⟩) := by
  rw [handleStep, if_neg hfit]
  simp only [Option.bind_eq_bind]
  rw [hins, Option.bind_some, hcont, Option.bind_some, hctx, Option.bind_some]

/-- Outside a stop, nothing is continued. -/
theorem handleStep_eq_none (exec : Exec) (fuel : ℕ) {d₁ d₂ : Dev} {bytes₁ bytes₂ : List Byte}
    {r : ArmRegisters}
    (hfit : ¬ 2 ^ 32 ≤ (r.gpr 15).toNat + 4)
    (hins : exchange H B d (Host.insertBreakpoint (r.gpr 15 + 4#32)) = some (d₁, bytes₁))
    (hcont : exchange H B d₁ breakpointContinue = some (d₂, bytes₂)) (hctx : d₂.ctx = none) :
    handleStep H B exec fuel r d = none := by
  rw [handleStep, if_neg hfit]
  simp only [Option.bind_eq_bind]
  rw [hins, Option.bind_some, hcont, Option.bind_some, hctx, Option.bind_none]

/-- **A request is one run of the processor**, from the continue address to the next breakpoint,
between an insertion and a removal; the last poll is answered unless the context of the stop is
taken for one with a prompt. -/
theorem stepRequest_eq {ctx : Context} (H : HbootClient) (exec : Exec) (fuel : ℕ)
    (hctx : d.ctx = some ctx) (hpc : H.fastbootMode = true ∨ ctx.pc.toNat % 2 = 0)
    (hfit : ctx.pc.toNat + 4 < 2 ^ 32)
    (hm₁ : m₁ = (Device.insertBreakpoint B d.mem (ctx.pc + 4#32) 0#8).1) :
    ∃ tail : Context × Memory × List Word → Option Dev,
      (stepRequest H B exec fuel d =
        (runToBkpt (processor exec) fuel (ctx.setPc (continueAddress B m₁)) m₁).bind fun e =>
          (tail e).bind fun d' => some (d', ⟨e.1.pc, e.2.2.flatMap (instructionAt B m₁)⟩)) ∧
      ∀ e, ((H.fastbootMode = true ∨ e.1.pc.toNat % 2 = 0) → ∃ d', tail e = some d') ∧
        ∀ d', tail e = some d' → d'.ctx = some e.1 ∧
          d'.mem =
            (Device.removeBreakpoint B (enterStop B e.2.1 e.1.pc) (ctx.pc + 4#32) 0#8).1 := by
  obtain ⟨d₁, r, hg, hmem₁, hctx₁, hr⟩ := handleGetRegisters_eq (B := B) hctx hpc
  obtain ⟨d₂, bytes₂, hins, hmem₂, hctx₂⟩ := exchange_insert H B d₁ (ctx.pc + 4#32)
  rw [hmem₁, ← hm₁] at hmem₂
  obtain ⟨d₃, bytes₃, hcont, hmem₃, hctx₃⟩ :=
    exchange_continue (H := H) (B := B) (hctx₂.trans hctx₁)
  rw [hmem₂] at hmem₃ hctx₃
  have hfit' : ¬ 2 ^ 32 ≤ (r.gpr 15).toNat + 4 := by
    rw [hr]
    omega
  rw [← hr] at hins
  have hstep := handleStep_eq exec fuel hfit' hins hcont hctx₃
  rw [hr, hmem₃] at hstep
  refine ⟨fun e => pollAndRemove H B (enter B { d₃ with mem := e.2.1 } e.1) (ctx.pc + 4#32), ?_,
    fun e => ⟨fun he => pollAndRemove_isSome rfl he _, fun d' hd' => ?_⟩⟩
  · unfold stepRequest
    rw [hg]
    simp only [Option.bind_eq_bind, Option.bind_some]
    exact hstep
  · obtain ⟨hctx', hmem'⟩ := pollAndRemove_eq_some
      (d := enter B { d₃ with mem := e.2.1 } e.1) (c := e.1) rfl hd'
    exact ⟨hctx', hmem'⟩

/-! ## The run to the next instruction -/

/-- The insertion of a step keeps the slots that are in use, and the continue address. -/
theorem insert_keeps {b : Word} (hb : OutsideStatus B b)
    (hsize : (bpSize B m).toNat ≤ dbgNbrPoints)
    (hm₁ : m₁ = (Device.insertBreakpoint B m b 0#8).1) :
    (∀ i < (bpSize B m).toNat, entryAt B m₁ i = entryAt B m i) ∧
      continueAddress B m₁ = continueAddress B m := by
  rcases insertBreakpoint_cases (m := m) hb 0#8 with ⟨-, he⟩ | ⟨-, -, he⟩ | ⟨-, hins⟩
  · rw [hm₁, he]
    exact ⟨fun i _ => rfl, rfl⟩
  · rw [hm₁, he]
    exact ⟨fun i _ => rfl, rfl⟩
  · rw [← hm₁] at hins
    exact ⟨fun i hi => hins.other i (by omega) hi.ne, hins.continues⟩

/-- **From a stop at a breakpoint, the processor executes the instruction at `a`** in the first
word of the slot, and arrives at the second. -/
theorem executes_slot {ctx : Context} (hr : Reachable B m)
    (hline : StraightLine B exec m ctx a N) (hN : 0 < N) (hfound : getBreakpoint B m a = some i)
    (hm₁ : stepMemory B m a = m₁)
    (hent : ∀ i < (bpSize B m).toNat, entryAt B m₁ i = entryAt B m i)
    (hcont : continueAddress B m₁ = resumeAddress B m a) :
    ∃ (c₂ : Context) (m₂ : Memory),
      Executes (processor exec) (ctx.setPc (continueAddress B m₁)) m₁ [originalAt B i 0]
          (c₂.setPc (originalAt B i 1)) m₂ ∧
        instructionAt B m₁ (originalAt B i 0) = [a] ∧ ∀ x, Relied B a x → m₂ x = m₁ x := by
  have hok := hr.tableOk
  obtain ⟨hi, hmem, hia⟩ := found_of_getBreakpoint hfound
  have hact : Active B m a := ⟨_, hmem, hia⟩
  have hei := hent i hi
  have hres : resumeAddress B m a = originalAt B i 0 := resumeAddress_of_found hfound
  have hword : load32 (restored B m) a = (entryAt B m i).original := by
    rw [← hia]
    exact (hok.tracks.saved _ hmem).symm
  have hplain := hline.plain 0 hN fun _ => hact
  rw [Nat.mul_zero, off_zero] at hplain
  have hkeeps := hline.keeps hN hact
  rw [hword] at hplain hkeeps
  rw [hm₁] at hkeeps
  generalize hw : (entryAt B m i).original = w at hplain hkeeps
  have hfirst : load32 m₁ (originalAt B i 0) = w := (congrArg Entry.original hei).trans hw
  refine ⟨(exec w ctx m₁).1, (exec w ctx m₁).2, ?_, ?_, hkeeps⟩
  · rw [hcont, hres, originalAt_one]
    exact .plain hfirst hplain (.refl _ _)
  · have haddr : bpAddress B m₁ i = a := (congrArg Entry.address hei).trans hia
    rw [instructionAt_first (hi.trans_le hok.size), haddr]

/-- **From a stop at `a`, the processor executes the instruction at `a`**, or nothing if the stop
is at a hard-coded breakpoint, and arrives at `a + 4` if the slot branches back. -/
theorem executes_to_next {ctx : Context} (hr : Reachable B m)
    (hline : StraightLine B exec m ctx a N) (hN : 0 < N)
    (hslot : ∀ i, getBreakpoint B m a = some i → SlotOk B m i) (hm₁ : stepMemory B m a = m₁)
    (hent : ∀ i < (bpSize B m).toNat, entryAt B m₁ i = entryAt B m i)
    (hcont : continueAddress B m₁ = resumeAddress B m a) :
    ∃ (c₂ : Context) (m₂ : Memory) (pcs : List Word),
      Executes (processor exec) (ctx.setPc (continueAddress B m₁)) m₁ pcs
          (c₂.setPc (off a 4)) m₂ ∧
        pcs.flatMap (instructionAt B m₁) = firstExecuted B m a ∧
        ∀ x, Relied B a x → m₂ x = m₁ x := by
  cases hfound : getBreakpoint B m a with
  | none =>
      have hact : ¬ Active B m a := getBreakpoint_eq_none_iff.mp hfound
      have hres : resumeAddress B m a = off a 4 := resumeAddress_of_not_active hact
      rw [hcont, hres]
      exact ⟨ctx, m₁, [], .refl _ _, (if_neg hact).symm, fun _ _ => rfl⟩
  | some i =>
      obtain ⟨hi, hmem, hia⟩ := found_of_getBreakpoint hfound
      have hi64 : i < dbgNbrPoints := hi.trans_le hr.tableOk.size
      have hact : Active B m a := ⟨_, hmem, hia⟩
      obtain ⟨c₂, m₂, hexe, hfirst, hkeep⟩ :=
        executes_slot hr hline hN hfound hm₁ hent hcont
      have hei₁ := hent i hi
      -- the branch back is in the object, where the instruction does not write
      have hei₂ : entryAt B m₂ i = entryAt B m i :=
        (entryAt_congr (fun x hx => hkeep x (Or.inl hx)) hi64).trans hei₁
      have hbranch : branchTarget (originalAt B i 1) (load32 m₂ (originalAt B i 1)) =
          some (off a 4) := by
        have hb := (hslot i hfound).congr hei₂
        unfold SlotOk at hb
        refine hb.trans ?_
        rw [hei₂, hia]
        rfl
      refine ⟨c₂, m₂, _, hexe.trans (.branch hbranch (.refl _ _)), ?_, hkeep⟩
      have hsecond := instructionAt_second hi64 ((hslot i hfound).congr hei₁)
      simp [hfirst, hsecond, hact, firstExecuted]

/-! ## One request -/

/-- A stop at `ctx.pc`, before any command that changes the table. -/
structure AtStop (B : Board) (d : Dev) (ctx : Context) : Prop where
  reachable : Reachable B d.mem
  ctx_eq : d.ctx = some ctx
  continues : continueAddress B d.mem = resumeAddress B d.mem ctx.pc

/-- A word-aligned address is not odd. -/
theorem even_of_addressOk (h : AddressOk B a) : a.toNat % 2 = 0 := by
  have haligned := h.1
  omega

/-- The stop is at an address that no program counter rules out. -/
theorem StraightLine.even {ctx : Context} (h : StraightLine B exec m ctx ctx.pc N) :
    H.fastbootMode = true ∨ ctx.pc.toNat % 2 = 0 := by
  have hok := (h.ok 0 (Nat.zero_le _)).1
  rw [Nat.mul_zero, off_zero] at hok
  exact Or.inr (even_of_addressOk hok)

/-- An entered stop is one. -/
theorem atStop_enter {ctx : Context} (hr : Reachable B d.mem) : AtStop B (enter B d ctx) ctx := by
  have hsize := hr.tableOk.size
  refine ⟨.stop hr ctx.pc, rfl, ?_⟩
  rw [enter_mem, continueAddress_enterStop]
  unfold resumeAddress
  rw [getBreakpoint_enterStop hsize]

/-- **How a request ends**, once it is known what the processor executes up to an address `p`: at a
breakpoint there, or after executing the word at `p` too. -/
theorem stepRequest_of_executes {ctx c₂ : Context} {m₂ : Memory} {pcs : List Word} {p : Word}
    (hctx : d.ctx = some ctx) (hpc : H.fastbootMode = true ∨ ctx.pc.toNat % 2 = 0)
    (hfit : ctx.pc.toNat + 4 < 2 ^ 32)
    (hm₁ : m₁ = (Device.insertBreakpoint B d.mem (ctx.pc + 4#32) 0#8).1)
    (hexe : Executes (processor exec) (ctx.setPc (continueAddress B m₁)) m₁ pcs (c₂.setPc p) m₂) :
    (isBkpt (load32 m₂ p) = true →
      (p.toNat % 2 = 0 → ∃ fuel d',
        stepRequest H B exec fuel d = some (d', ⟨p, pcs.flatMap (instructionAt B m₁)⟩)) ∧
        ∀ fuel d' s, stepRequest H B exec fuel d = some (d', s) →
          s = ⟨p, pcs.flatMap (instructionAt B m₁)⟩ ∧ d'.ctx = some (c₂.setPc p) ∧
            d'.mem = (Device.removeBreakpoint B (enterStop B m₂ p) (ctx.pc + 4#32) 0#8).1) ∧
    (isBkpt (load32 m₂ p) = false →
      ∀ fuel d' s, stepRequest H B exec fuel d = some (d', s) →
        ∃ rest, s.executed =
          pcs.flatMap (instructionAt B m₁) ++ (instructionAt B m₁ p ++ rest)) := by
  have hp : (processor exec).pc (c₂.setPc p) = p := Context.pc_setPc c₂ p
  -- a request that ends is a run that ends, with the words already executed at its beginning
  have hended : ∀ fuel d' s, stepRequest H B exec fuel d = some (d', s) →
      ∃ n r m' rest, runToBkpt (processor exec) n (c₂.setPc p) m₂ = some (r, m', rest) ∧
        s = ⟨r.pc, (pcs ++ rest).flatMap (instructionAt B m₁)⟩ ∧ d'.ctx = some r ∧
          d'.mem = (Device.removeBreakpoint B (enterStop B m' r.pc) (ctx.pc + 4#32) 0#8).1 := by
    intro fuel d' s hs
    obtain ⟨tail, hreq, htail⟩ := stepRequest_eq H exec fuel hctx hpc hfit hm₁
    rw [hreq] at hs
    obtain ⟨⟨r, m', qs⟩, hrun, hs⟩ := Option.bind_eq_some_iff.mp hs
    obtain ⟨d₁, hd₁, hs⟩ := Option.bind_eq_some_iff.mp hs
    obtain ⟨rfl, rfl⟩ := Prod.mk.inj (Option.some.inj hs)
    obtain ⟨n, rest, rfl, hrest⟩ := hexe.of_run hrun
    obtain ⟨h1, h2⟩ := (htail (r, m', pcs ++ rest)).2 d₁ hd₁
    exact ⟨n, r, m', rest, hrest, rfl, h1, h2⟩
  refine ⟨fun hb => ⟨fun heven => ?_, fun fuel d' s hs => ?_⟩, fun hb fuel d' s hs => ?_⟩
  · obtain ⟨tail, hreq, htail⟩ := stepRequest_eq H exec (1 + pcs.length) hctx hpc hfit hm₁
    obtain ⟨d', hd'⟩ := (htail (c₂.setPc p, m₂, pcs)).1
      (Or.inr (by rwa [Context.pc_setPc]))
    refine ⟨1 + pcs.length, d', ?_⟩
    rw [hreq, hexe.run, runToBkpt_bkpt (by rwa [hp])]
    simp [hd']
  · obtain ⟨n, r, m', rest, hrest, rfl, h1, h2⟩ := hended fuel d' s hs
    rcases runToBkpt_cases hrest with ⟨-, rfl, rfl, rfl⟩ | ⟨hb', -⟩
    · rw [Context.pc_setPc] at h2
      exact ⟨by simp, h1, h2⟩
    · rw [hp, hb] at hb'
      cases hb'
  · obtain ⟨n, r, m', rest, hrest, rfl, -, -⟩ := hended fuel d' s hs
    rcases runToBkpt_cases hrest with ⟨hb', -⟩ | ⟨-, -, rest', rfl, -⟩
    · rw [hp, hb] at hb'
      cases hb'
    · rw [hp]
      exact ⟨rest'.flatMap (instructionAt B m₁), by simp⟩

/-- **With room in the table, a request stops at the next instruction** and executes the one of the
stop. Afterwards the continue address is the first free slot. -/
theorem stepRequest_room {ctx : Context} (h : AtStop B d ctx)
    (hline : StraightLine B exec d.mem ctx ctx.pc N) (hN : 0 < N)
    (hslot : ∀ i, getBreakpoint B d.mem ctx.pc = some i → SlotOk B d.mem i)
    (hroom : (bpSize B d.mem).toNat < dbgNbrPoints) :
    (∃ fuel d', stepRequest H B exec fuel d =
        some (d', ⟨off ctx.pc 4, firstExecuted B d.mem ctx.pc⟩)) ∧
      ∀ fuel d' s, stepRequest H B exec fuel d = some (d', s) →
        ∃ ctx', d'.ctx = some ctx' ∧ ctx'.pc = off ctx.pc 4 ∧ Reachable B d'.mem ∧
          (bpSize B d'.mem).toNat = (bpSize B d.mem).toNat ∧
          continueAddress B d'.mem = originalAt B (bpSize B d.mem).toNat 0 ∧
          ∀ b, Active B d'.mem b → Active B d.mem b := by
  have haddr : AddressOk B (off ctx.pc 4) := (hline.ok 1 hN).1
  have hfree : ¬ Active B d.mem (off ctx.pc 4) := hline.free 1 (by omega) hN
  have hfits := hline.fits
  generalize hm₁ : stepMemory B d.mem ctx.pc = m₁
  have hins : Inserted B d.mem (off ctx.pc 4) m₁ := by
    rw [← hm₁]
    exact inserted_of_room haddr.outside hfree hroom
  have hr₁ : Reachable B m₁ := by
    rw [← hm₁]
    exact h.reachable.call (.insert (off ctx.pc 4) 0#8) haddr
  obtain ⟨c₂, m₂, pcs, hexe, hexecuted, hkeep⟩ := executes_to_next h.reachable hline
    hN hslot hm₁ (fun i hi => hins.other i (by omega) hi.ne)
    (hins.continues.trans h.continues)
  have hbkpt : isBkpt (load32 m₂ (off ctx.pc 4)) = true := by
    rw [load32_congr (by decide) fun x hx => hkeep x (Or.inr hx), hins.planted]
    decide
  obtain ⟨hends, hafter⟩ := (stepRequest_of_executes (H := H) h.ctx_eq hline.even
    (by omega) hm₁.symm hexe).1 hbkpt
  rw [hexecuted] at hends
  refine ⟨hends (even_of_addressOk haddr), fun fuel d' s hs => ?_⟩
  obtain ⟨-, hctx', hmem'⟩ := hafter fuel d' s hs
  -- the stop at the next instruction, and the removal of its breakpoint
  have hkeepS : ∀ x, InStatus B x → m₂ x = m₁ x := fun x hx => hkeep x (Or.inl hx)
  have hr₃ : Reachable B (enterStop B m₂ (off ctx.pc 4)) := .stop (.outside hr₁ hkeepS) _
  have hsize₁ := hr₁.tableOk.size
  have hsize₂ : bpSize B m₂ = bpSize B m₁ := bpSize_congr hkeepS
  have hent₂ : entries B m₂ = entries B m₁ := entries_congr hkeepS hsize₁
  have hent₃ : entries B (enterStop B m₂ (off ctx.pc 4)) = entries B m₁ :=
    (entries_enterStop (hsize₂ ▸ hsize₁)).trans hent₂
  have hnew : (entryAt B m₁ (bpSize B d.mem).toNat).address = off ctx.pc 4 := by rw [hins.new]
  have hfound : getBreakpoint B m₂ (off ctx.pc 4) = some (bpSize B d.mem).toNat := by
    rw [getBreakpoint_congr hkeepS hsize₁]
    exact hr₁.tableOk.tracks.getBreakpoint_of_address (by rw [hins.size]; omega) hnew
  have hfound₃ : getBreakpoint B (enterStop B m₂ (off ctx.pc 4)) (off ctx.pc 4) =
      some (bpSize B d.mem).toNat := by
    rw [getBreakpoint_enterStop (hsize₂ ▸ hsize₁), hfound]
  obtain ⟨-, hrem⟩ := removed_of_getBreakpoint (t := 0#8) haddr.outside hr₃.tableOk.size hfound₃
  refine ⟨_, hctx', Context.pc_setPc _ _, ?_, ?_, ?_, fun b hb => ?_⟩
  · rw [hmem']
    exact hr₃.call (.remove (off ctx.pc 4) 0#8) haddr
  · rw [hmem']
    refine hrem.size.trans ?_
    rw [bpSize_enterStop, hsize₂, hins.size, Nat.add_sub_cancel]
  · rw [hmem']
    exact hrem.continues.trans (continueAddress_enterStop.trans (resumeAddress_of_found hfound))
  · rw [hmem'] at hb
    obtain ⟨hb, hne⟩ := (hr₃.tableOk.tracks.active_removed hrem).mp hb
    have hb₁ : Active B m₁ b := by
      unfold Active at hb ⊢
      rwa [hent₃] at hb
    exact ((active_inserted hins).mp hb₁).resolve_left hne

/-- **With a full table, a request does the same** if there is a breakpoint instruction at the next
address anyway; otherwise it executes more than the instruction of the stop. -/
theorem stepRequest_full {ctx : Context} (h : AtStop B d ctx)
    (hline : StraightLine B exec d.mem ctx ctx.pc N) (hN : 0 < N)
    (hslot : ∀ i, getBreakpoint B d.mem ctx.pc = some i → SlotOk B d.mem i)
    (hfull : dbgNbrPoints ≤ (bpSize B d.mem).toNat) :
    (isBkpt (load32 d.mem (off ctx.pc 4)) = true → ∃ fuel d', stepRequest H B exec fuel d =
        some (d', ⟨off ctx.pc 4, firstExecuted B d.mem ctx.pc⟩)) ∧
      (isBkpt (load32 d.mem (off ctx.pc 4)) = false →
        ∀ fuel d' s, stepRequest H B exec fuel d = some (d', s) →
          s.executed ≠ firstExecuted B d.mem ctx.pc) := by
  have haddr : AddressOk B (off ctx.pc 4) := (hline.ok 1 hN).1
  have hfree : ¬ Active B d.mem (off ctx.pc 4) := hline.free 1 (by omega) hN
  have hfits := hline.fits
  have hm₁ : stepMemory B d.mem ctx.pc = d.mem := by
    rw [stepMemory, Device.insertBreakpoint, if_neg (by rwa [getBreakpoint_isSome_iff]),
      allocBreakpoint, if_pos hfull]
  obtain ⟨c₂, m₂, pcs, hexe, hexecuted, hkeep⟩ := executes_to_next h.reachable hline
    hN hslot hm₁ (fun _ _ => rfl) h.continues
  have hword : load32 m₂ (off ctx.pc 4) = load32 d.mem (off ctx.pc 4) :=
    load32_congr (by decide) fun x hx => hkeep x (Or.inr hx)
  obtain ⟨hends, hmore⟩ := stepRequest_of_executes (H := H) h.ctx_eq hline.even (by omega)
    hm₁.symm hexe
  rw [hword, hexecuted] at hends hmore
  refine ⟨fun hb => (hends hb).1 (even_of_addressOk haddr), fun hb fuel d' s hs he => ?_⟩
  obtain ⟨rest, hrest⟩ := hmore hb fuel d' s hs
  rw [he, instructionAt_outside haddr.2] at hrest
  have := congrArg List.length hrest
  simp at this

/-- **With a trampoline that does not branch back, a request does something else.** -/
theorem stepRequest_slot {ctx : Context} (h : AtStop B d ctx)
    (hline : StraightLine B exec d.mem ctx ctx.pc N) (hN : 0 < N)
    (hfound : getBreakpoint B d.mem ctx.pc = some i) (hslot : ¬ SlotOk B d.mem i) {s : Stepped}
    (hs : stepRequest H B exec fuel d = some (d', s)) :
    s ≠ ⟨off ctx.pc 4, firstExecuted B d.mem ctx.pc⟩ := by
  have haddr : AddressOk B (off ctx.pc 4) := (hline.ok 1 hN).1
  have hfits := hline.fits
  have hsize := h.reachable.tableOk.size
  obtain ⟨hi, hmem, hia⟩ := found_of_getBreakpoint hfound
  have hi64 : i < dbgNbrPoints := hi.trans_le hsize
  have hact : Active B d.mem ctx.pc := ⟨_, hmem, hia⟩
  generalize hm₁ : stepMemory B d.mem ctx.pc = m₁
  obtain ⟨hent, hcont⟩ := insert_keeps haddr.outside hsize hm₁.symm
  obtain ⟨c₂, m₂, hexe, hfirst, -⟩ := executes_slot h.reachable hline hN hfound hm₁ hent
    (hcont.trans h.continues)
  have hsecond := instructionAt_second_of_not hi64 fun hc => hslot (hc.congr (hent i hi).symm)
  obtain ⟨hstops, hmore⟩ := stepRequest_of_executes (H := H) h.ctx_eq hline.even (by omega)
    hm₁.symm hexe
  cases hb : isBkpt (load32 m₂ (originalAt B i 1)) with
  | true =>
      -- a stop in the object
      obtain ⟨rfl, -⟩ := (hstops hb).2 fuel d' s hs
      intro he
      refine haddr.2 ?_
      rw [← (Stepped.mk.inj he).1]
      unfold dbgNbrPoints at hi64
      unfold InStatus InSpan sizeofStatus
      rw [originalAt, toNat_off_sub] <;> unfold bpOffset sizeofBreakpoint <;> omega
  | false =>
      obtain ⟨rest, hrest⟩ := hmore hb fuel d' s hs
      rintro rfl
      rw [List.flatMap_singleton, hfirst, hsecond, firstExecuted, if_pos hact] at hrest
      have := congrArg List.length hrest
      simp at this

/-- **The next request executes something else.** The device resumes through the slot that the
request has just filled with the breakpoint of the instruction after. -/
theorem stepRequest_next {ctx : Context} (hctx : d.ctx = some ctx) (heven : ctx.pc.toNat % 2 = 0)
    (hcont : continueAddress B d.mem = originalAt B (bpSize B d.mem).toNat 0)
    (hroom : (bpSize B d.mem).toNat < dbgNbrPoints) (haddr : AddressOk B (off ctx.pc 4))
    (hfree : ¬ Active B d.mem (off ctx.pc 4)) (hfit : ctx.pc.toNat + 4 < 2 ^ 32) {s : Stepped}
    (hs : stepRequest H B exec fuel d = some (d', s)) : s.executed ≠ [ctx.pc] := by
  generalize hm₁ : (Device.insertBreakpoint B d.mem (off ctx.pc 4) 0#8).1 = m₁
  have hins : Inserted B d.mem (off ctx.pc 4) m₁ := by
    rw [← hm₁]
    exact inserted_of_room haddr.outside hfree hroom
  have hnew : bpAddress B m₁ (bpSize B d.mem).toNat = off ctx.pc 4 :=
    congrArg Entry.address hins.new
  have hexe : Executes (processor exec) (ctx.setPc (continueAddress B m₁)) m₁ []
      (ctx.setPc (continueAddress B m₁)) m₁ := .refl _ _
  obtain ⟨hends, hmore⟩ := stepRequest_of_executes hctx (Or.inr heven) hfit hm₁.symm hexe
  cases hb : isBkpt (load32 m₁ (continueAddress B m₁)) with
  | true =>
      obtain ⟨rfl, -⟩ := (hends hb).2 fuel d' s hs
      simp
  | false =>
      obtain ⟨rest, hrest⟩ := hmore hb fuel d' s hs
      rw [hins.continues, hcont, instructionAt_first hroom, hnew] at hrest
      intro he
      rw [he] at hrest
      have hpc : ctx.pc = off ctx.pc 4 := by simpa using congrArg List.head? hrest
      unfold off at hpc
      bv_omega

/-! ## Runs of requests -/

/-- The first request of a run, and the others. -/
theorem stepRequests_succ {n : ℕ} {ss : List Stepped}
    (h : stepRequests H B exec fuel (n + 1) d = some (d', ss)) :
    ∃ d₁ s ss', stepRequest H B exec fuel d = some (d₁, s) ∧
      stepRequests H B exec fuel n d₁ = some (d', ss') ∧ ss = s :: ss' := by
  unfold stepRequests at h
  obtain ⟨⟨d₁, s⟩, hs, h⟩ := Option.bind_eq_some_iff.mp h
  obtain ⟨⟨d₂, ss'⟩, hss, he⟩ := Option.bind_eq_some_iff.mp h
  cases he
  exact ⟨d₁, s, ss', hs, hss, rfl⟩

/-- What is expected of the first two requests. -/
theorem expected_succ (n : ℕ) : ∃ ss,
    expected B m a (n + 1) = ⟨off a 4, firstExecuted B m a⟩ :: ss ∧
      ∀ s ∈ ss.head?, s = ⟨off a 8, [off a 4]⟩ := by
  unfold expected
  rw [List.range_succ_eq_map, List.map_cons]
  refine ⟨_, rfl, ?_⟩
  cases n with
  | zero => simp
  | succ n =>
      rw [List.range_succ_eq_map]
      simp

/-- **What the first request of an exact run needs.** -/
theorem SteppingExact.first {ctx : Context} (h : AtStop B d ctx)
    (hline : StraightLine B exec d.mem ctx ctx.pc (N + 1))
    (hexact : SteppingExact H B exec d.mem ctx.pc d (N + 1)) :
    (∀ i, getBreakpoint B d.mem ctx.pc = some i → SlotOk B d.mem i) ∧
      ((bpSize B d.mem).toNat < dbgNbrPoints ∨ isBkpt (load32 d.mem (off ctx.pc 4)) = true) := by
  obtain ⟨fuel, d', hrun⟩ := hexact
  obtain ⟨d₁, s, ss, hs, -, he⟩ := stepRequests_succ hrun
  obtain ⟨ss', hexp, -⟩ := expected_succ (B := B) (m := d.mem) (a := ctx.pc) N
  obtain ⟨rfl, rfl⟩ := List.cons.inj (hexp.symm.trans he)
  have hslot : ∀ i, getBreakpoint B d.mem ctx.pc = some i → SlotOk B d.mem i := by
    intro i hi
    by_contra hbad
    exact stepRequest_slot h hline (by omega) hi hbad hs rfl
  refine ⟨hslot, ?_⟩
  by_contra hc
  obtain ⟨hfull, hb⟩ := not_or.mp hc
  exact (stepRequest_full h hline (by omega) hslot (by omega)).2 (by simpa using hb)
    fuel d₁ _ hs rfl

/-- **No run of two requests or more is exact.** -/
theorem not_steppingExact {ctx : Context} (h : AtStop B d ctx)
    (hline : StraightLine B exec d.mem ctx ctx.pc (N + 2)) :
    ¬ SteppingExact H B exec d.mem ctx.pc d (N + 2) := by
  intro hexact
  obtain ⟨hslot, hnext⟩ := hexact.first h hline
  obtain ⟨fuel, d', hrun⟩ := hexact
  obtain ⟨d₁, s, ss, hs, hss, he⟩ := stepRequests_succ hrun
  obtain ⟨ss', hexp, hhead⟩ := expected_succ (B := B) (m := d.mem) (a := ctx.pc) (N + 1)
  obtain ⟨rfl, rfl⟩ := List.cons.inj (hexp.symm.trans he)
  -- the next instruction is plain, so the breakpoint of the first step found room
  have hact : ¬ Active B d.mem (off ctx.pc 4) := hline.free 1 (by omega) (by omega)
  have hplain : isBkpt (load32 (restored B d.mem) (off ctx.pc 4)) = false :=
    (hline.plain 1 (by omega) fun h0 => absurd h0 (by decide)).not_bkpt
  rw [h.reachable.tableOk.load32_restored (hline.ok 1 (by omega)).1 hact] at hplain
  have hroom := hnext.resolve_right (by simp [hplain])
  obtain ⟨ctx₁, hctx₁, hpc₁, -, hsize₁, hcont₁, hact₁⟩ :=
    (stepRequest_room h hline (by omega) hslot hroom).2 fuel d₁ _ hs
  -- the second request
  obtain ⟨d₂, s₂, ss₂, hs₂, -, rfl⟩ := stepRequests_succ hss
  have hs₂eq := hhead s₂ rfl
  have hfits := hline.fits
  have hnat : (off ctx.pc 4).toNat = ctx.pc.toNat + 4 := by
    unfold off
    bv_omega
  refine stepRequest_next hctx₁ ?_ (by rw [hsize₁]; exact hcont₁) (by omega) ?_ ?_ ?_ hs₂ ?_
  · rw [hpc₁]
    exact even_of_addressOk (hline.ok 1 (by omega)).1
  · rw [hpc₁, off_off]
    exact (hline.ok 2 (by omega)).1
  · rw [hpc₁, off_off]
    exact fun hc => hline.free 2 (by omega) (by omega) (hact₁ _ hc)
  · rw [hpc₁, hnat]
    omega
  · rw [hs₂eq, hpc₁]

/-- **Stepping is exact for one request, and for no longer run.** One request does what it should
if the trampoline of the stop branches back and the breakpoint of the step finds room in the table,
or a breakpoint instruction is there already. The second request of a run resumes through a slot
that the proxy has freed, and that its own insertion has filled again. -/
theorem steppingExact_iff (H : HbootClient) (B : Board) (exec : Exec) (d : Dev) (ctx : Context)
    (N : ℕ) (h : AtStop B d ctx) (hline : StraightLine B exec d.mem ctx ctx.pc N) :
    SteppingExact H B exec d.mem ctx.pc d N ↔
      N = 0 ∨ (N = 1 ∧ (∀ i, getBreakpoint B d.mem ctx.pc = some i → SlotOk B d.mem i) ∧
        ((bpSize B d.mem).toNat < dbgNbrPoints ∨
          isBkpt (load32 d.mem (off ctx.pc 4)) = true)) := by
  constructor
  · intro hexact
    match N with
    | 0 => exact Or.inl rfl
    | 1 => exact Or.inr ⟨rfl, hexact.first h hline⟩
    | N + 2 => exact absurd hexact (not_steppingExact h hline)
  · rintro (rfl | ⟨rfl, hslot, hnext⟩)
    · exact ⟨0, d, rfl⟩
    · have hends : ∃ fuel d', stepRequest H B exec fuel d =
          some (d', ⟨off ctx.pc 4, firstExecuted B d.mem ctx.pc⟩) := by
        by_cases hroom : (bpSize B d.mem).toNat < dbgNbrPoints
        · exact (stepRequest_room h hline (by omega) hslot hroom).1
        · exact (stepRequest_full h hline (by omega) hslot (by omega)).1
            (hnext.resolve_left hroom)
      obtain ⟨fuel, d', hs⟩ := hends
      refine ⟨fuel, d', ?_⟩
      simp [stepRequests, hs, expected]

/-! ## Examples -/

/-- The effect of `mov r0, r0`. -/
def nop : Exec := fun _ c m => (c.setPc (c.pc + 4#32), m)

theorem nop_memory (w : Word) (c : Context) (m : Memory) : (nop w c m).2 = m := rfl

/-- A device with a breakpoint at `0x8D001000`, in a memory full of `mov r0, r0`. -/
def nopSample : Dev :=
  { Dev.sample with
    mem := applyOp Board.sample
      (dbgInit Board.sample fun x => byteOf 0xe1a00000#32 (x.toNat % 4))
      (.insert 0x8D001000#32 0#8) }

theorem plain_nop {w : Word} (hb : isBkpt w = false) (hbr : w >>> 24 ≠ 0xEA#32) :
    Plain (processor nop) w := by
  refine ⟨hb, hbr, fun r p m => ?_⟩
  simp [processor, nop, Context.setPc, Context.pc]

theorem reachable_nopSample : Reachable Board.sample nopSample.mem := by
  dsimp only [nopSample]
  exact .call (.init _) _ (by decide)

theorem straightLine_nopSample (hN : N ≤ 2) :
    StraightLine Board.sample nop (enter Board.sample nopSample contextSample).mem
      contextSample contextSample.pc N := by
  have hok : ∀ k ≤ 2, AddressOk Board.sample (off contextSample.pc (4 * k)) ∧
      InBranchRange Board.sample (off contextSample.pc (4 * k)) := by decide +kernel
  have hfree : ∀ k ≤ 2, 0 < k →
      ¬ Active Board.sample (enter Board.sample nopSample contextSample).mem
        (off contextSample.pc (4 * k)) := by decide +kernel
  have hword : ∀ k < 2, load32
      (restored Board.sample (enter Board.sample nopSample contextSample).mem)
        (off contextSample.pc (4 * k)) = 0xe1a00000#32 := by decide +kernel
  refine ⟨?_, fun k hk => hok k (hk.trans hN), fun k h0 hk => hfree k (hk.trans hN) h0,
    fun k hk _ => ?_, fun _ _ _ _ => congrFun (nop_memory _ _ _) _⟩
  · have hpc : contextSample.pc.toNat = 0x8D001000 := by decide
    omega
  · rw [hword k (by omega)]
    exact plain_nop (by decide) (by decide)

/-- Two requests in a row: the second one executes the instruction at `0x8D001008` in place of the
one at `0x8D001004`. -/
theorem stepping_skips :
    AtStop Board.sample (enter Board.sample nopSample contextSample) contextSample ∧
      StraightLine Board.sample nop (enter Board.sample nopSample contextSample).mem
        contextSample contextSample.pc 2 ∧
      ¬ SteppingExact .sample Board.sample nop (enter Board.sample nopSample contextSample).mem
        contextSample.pc (enter Board.sample nopSample contextSample) 2 :=
  ⟨atStop_enter reachable_nopSample, straightLine_nopSample le_rfl,
    not_steppingExact (atStop_enter reachable_nopSample) (straightLine_nopSample le_rfl)⟩

/-- One request is exact. -/
theorem steppingExact_sample :
    SteppingExact .sample Board.sample nop (enter Board.sample nopSample contextSample).mem
      contextSample.pc (enter Board.sample nopSample contextSample) 1 := by
  refine (steppingExact_iff .sample Board.sample nop (enter Board.sample nopSample contextSample)
    contextSample 1 (atStop_enter reachable_nopSample)
    (straightLine_nopSample (by decide))).mpr (Or.inr ⟨rfl, fun i hi => ?_, Or.inl ?_⟩)
  · have hfound : getBreakpoint Board.sample (enter Board.sample nopSample contextSample).mem
        contextSample.pc = some 0 := by decide +kernel
    obtain rfl : 0 = i := Option.some.inj (hfound.symm.trans hi)
    decide +kernel
  · decide +kernel

end Hbootdbg.Stop
