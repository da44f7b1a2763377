import Hbootdbg.Lib.A32Run
import Hbootdbg.Stop.Resume

/-!
# The two exits of a stop

The loop of `breakpoint_handler` is left after `CMD_BREAKPOINT_CONTINUE` and after `CMD_DETACH`
("also if the debugger is detaching"). Only the handler of the first one writes the resume address
into the context.

* `exitType` — the command after which the handler has left its loop.
* `waiting_ctx` — while it is in its loop, the context is that of the stop.
* `GoesOnAlike` — the two exits leave the same context, and the processor is not back at the `BKPT`
  of the stop.
* `detach_never_goes_on` — no stop has this property, whatever its commands.
-/

namespace Hbootdbg.Stop

open Hbootdbg.Lib.ByteMem Hbootdbg.Lib.A32Run Hbootdbg.Lib.Run Hbootdbg.Device Hbootdbg.Table
open Hbootdbg.Session

/-- The type of the command after which the loop was left. -/
def exitType : Outcome → Option Byte
  | .returned s => some s.dev.cmd.type
  | _ => none

/-- The `BKPT` at `a` is executed again once the context is restored. -/
def Reexecutes (a : Word) (d : Dev) : Prop :=
  ∃ ctx, d.ctx = some ctx ∧ ctx.pc = a ∧ isBkpt (load32 d.mem a) = true

/-- A stop at `a` that ends with a detach is left with the context with which a continue leaves
it, and does not execute its `BKPT` again. -/
def GoesOnAlike (a : Word) (detached continued : Outcome) : Prop :=
  ∃ d c, detached = .returned d ∧ continued = .returned c ∧ d.dev.ctx = c.dev.ctx ∧
    ¬ Reexecutes a d.dev

/-- The commands of a stop left the table and the continue address unchanged. -/
def TableKept (B : Board) (m m' : Memory) : Prop :=
  entries B m' = entries B m ∧ continueAddress B m' = continueAddress B m

variable {B : Board} {s w e f : Stopped} {ctx : Context} {p q : List Byte}

/-! ## One iteration -/

/-- An iteration serves a command, or does not come to its end. -/
theorem handlerStep_cases (B : Board) (s : Stopped) (p : List Byte) :
    handlerStep B (.waiting s) p = .waiting s ∨ handlerStep B (.waiting s) p = .hangs ∨
      handlerStep B (.waiting s) p = .outOfBounds ∨
      ∃ c, handlerStep B (.waiting s) p =
        afterCommand (usbRecv p s.buf) (serve B (some s.dev) c) := by
  cases p with
  | nil => exact Or.inl rfl
  | cons b p =>
      right
      rw [handlerStep]
      unfold handlerIteration
      simp only
      by_cases hin : HandlerInBounds (usbRecv (b :: p) s.buf) s.dev.cmd
      · rw [if_pos hin]
        cases hdec : base64Decode (payload (usbRecv (b :: p) s.buf)) s.dev.cmd with
        | none => exact Or.inl rfl
        | some r => exact Or.inr (Or.inr ⟨r.plaintext, rfl⟩)
      · rw [if_neg hin]
        exact Or.inr (Or.inl rfl)
      · exact List.cons_ne_nil _ _

/-- A command after which the loop goes on leaves the context alone. -/
theorem ctx_of_waiting (h : handlerStep B (.waiting s) p = .waiting w) : w.dev.ctx = s.dev.ctx := by
  rcases handlerStep_cases B s p with he | he | he | ⟨c, he⟩
  · rw [he] at h
    cases h
    rfl
  · rw [he] at h
    cases h
  · rw [he] at h
    cases h
  · rw [he] at h
    cases hs : serve B (some s.dev) c with
    | none =>
        rw [hs, afterCommand] at h
        cases h
    | some d =>
        rw [hs, afterCommand] at h
        by_cases hl : leavesLoop d.cmd.type = true
        · rw [if_pos hl] at h
          cases h
        · rw [if_neg hl] at h
          cases h
          refine serve_ctx hs fun hc => hl ?_
          have htype : d.cmd.type = c 0 := serve_cmd hs (by decide)
          rw [htype, hc]
          decide

/-- The command after which the loop is left was served by the stop. -/
theorem served_of_exit {t : Byte} (h : exitType (handlerStep B (.waiting s) p) = some t) :
    ∃ c e, handlerStep B (.waiting s) p = .returned e ∧ serve B (some s.dev) c = some e.dev ∧
      c 0 = t := by
  rcases handlerStep_cases B s p with he | he | he | ⟨c, he⟩
  · rw [he] at h
    cases h
  · rw [he] at h
    cases h
  · rw [he] at h
    cases h
  · rw [he] at h
    cases hs : serve B (some s.dev) c with
    | none =>
        rw [hs, afterCommand] at h
        cases h
    | some d =>
        rw [hs, afterCommand] at h he
        by_cases hl : leavesLoop d.cmd.type = true
        · rw [if_pos hl] at h he
          have htype : d.cmd.type = c 0 := serve_cmd hs (by decide)
          refine ⟨c, _, he, hs, ?_⟩
          rw [← htype]
          exact Option.some.inj h
        · rw [if_neg hl] at h
          cases h

/-! ## The stop -/

/-- **While the handler is in its loop, the context is that of the stop.** -/
theorem waiting_ctx {ps : List (List Byte)} (h : breakpointHandler B s ctx ps = .waiting w) :
    w.dev.ctx = some ctx := by
  unfold breakpointHandler at h
  have hkeep : ∀ (qs : List (List Byte)) (o : Outcome), run (handlerStep B) o qs = .waiting w →
      ∃ v, o = .waiting v ∧ w.dev.ctx = v.dev.ctx := by
    intro qs
    induction qs with
    | nil => exact fun o ho => ⟨w, ho, rfl⟩
    | cons q qs ih =>
        intro o ho
        obtain ⟨v, hv, hctx⟩ := ih _ ho
        cases o with
        | waiting u => exact ⟨u, rfl, hctx.trans (ctx_of_waiting hv)⟩
        | returned u => cases hv
        | hangs => cases hv
        | outOfBounds => cases hv
  obtain ⟨v, hv, hctx⟩ := hkeep ps _ h
  cases hv
  exact hctx

theorem breakpointHandler_concat (ps : List (List Byte)) (p : List Byte)
    (h : breakpointHandler B s ctx ps = .waiting w) :
    breakpointHandler B s ctx (ps ++ [p]) = handlerStep B (.waiting w) p := by
  unfold breakpointHandler at h ⊢
  rw [run_append, h]
  rfl

/-- A detach leaves memory and the context as they are. -/
theorem detach_exit (h : exitType (handlerStep B (.waiting w) p) = some CmdType.detach.code) :
    ∃ e, handlerStep B (.waiting w) p = .returned e ∧ e.dev.mem = w.dev.mem ∧
      e.dev.ctx = w.dev.ctx := by
  obtain ⟨c, e, he, hs, hc⟩ := served_of_exit h
  have hkind : kind c = some .detach := by
    unfold kind CmdBytes.type
    rw [hc]
    decide
  obtain ⟨d, hd, hmem, hctx, -⟩ := serve_detach (B := B) (d := w.dev) hkind
  obtain rfl : e.dev = d := Option.some.inj (hs.symm.trans hd)
  exact ⟨e, he, hmem, hctx⟩

/-- A continue writes the continue address into the context. -/
theorem continue_exit (hw : w.dev.ctx = some ctx)
    (h : exitType (handlerStep B (.waiting w) p) = some CmdType.breakpointContinue.code) :
    ∃ e, handlerStep B (.waiting w) p = .returned e ∧
      e.dev.ctx = some (ctx.setPc (continueAddress B w.dev.mem)) := by
  obtain ⟨c, e, he, hs, hc⟩ := served_of_exit h
  have hkind : kind c = some .breakpointContinue := by
    unfold kind CmdBytes.type
    rw [hc]
    decide
  obtain ⟨d, hd, -, hctx, -⟩ := serve_continue (B := B) hkind hw
  obtain rfl : e.dev = d := Option.some.inj (hs.symm.trans hd)
  exact ⟨e, he, hctx⟩

/-- Equal tables have equal slots. -/
theorem entryAt_of_entries {m m' : Memory} (h : entries B m' = entries B m) {i : ℕ}
    (hi : i < (bpSize B m).toNat) : entryAt B m' i = entryAt B m i := by
  have hlen : i < (entries B m).length := by rwa [length_entries]
  have hlen' : i < (entries B m').length := h ▸ hlen
  rw [← getElem_entries hlen', ← getElem_entries hlen]
  exact List.getElem_of_eq h hlen'

/-- Where the resume address of a stop is its own `pc`, the word there is one of the table. -/
theorem load32_of_resumeAddress_eq {m m' : Memory} {a : Word}
    (hsize : (bpSize B m).toNat ≤ dbgNbrPoints) (h : resumeAddress B m a = a)
    (hkeep : entries B m' = entries B (enterStop B m a)) : load32 m' a = load32 m a := by
  unfold resumeAddress at h
  cases hfound : getBreakpoint B m a with
  | none =>
      rw [hfound] at h
      simp only at h
      bv_omega
  | some i =>
      rw [hfound] at h
      simp only at h
      obtain ⟨hi, -, -⟩ := getBreakpoint_eq_some_iff.mp hfound
      rw [entries_enterStop hsize] at hkeep
      have horiginal := congrArg Entry.original (entryAt_of_entries hkeep hi)
      rw [← h]
      exact horiginal

/-- **The two exits of a stop**, after the same commands: a detach leaves memory and the context of
the stop, a continue the resume address of the stop in the context. -/
theorem exits_eq (ps : List (List Byte)) (hw : breakpointHandler B s ctx ps = .waiting w)
    (hkeep : TableKept B (enter B s.dev ctx).mem w.dev.mem)
    (hp : exitType (breakpointHandler B s ctx (ps ++ [p])) = some CmdType.detach.code)
    (hq : exitType (breakpointHandler B s ctx (ps ++ [q])) =
      some CmdType.breakpointContinue.code) :
    ∃ e f, breakpointHandler B s ctx (ps ++ [p]) = .returned e ∧
      breakpointHandler B s ctx (ps ++ [q]) = .returned f ∧
        e.dev.mem = w.dev.mem ∧ e.dev.ctx = some ctx ∧
          f.dev.ctx = some (ctx.setPc (resumeAddress B s.dev.mem ctx.pc)) := by
  have hctx := waiting_ctx hw
  rw [breakpointHandler_concat ps p hw] at hp ⊢
  rw [breakpointHandler_concat ps q hw] at hq ⊢
  obtain ⟨e, he, hmem, hectx⟩ := detach_exit hp
  obtain ⟨f, hf, hfctx⟩ := continue_exit hctx hq
  rw [hkeep.2, enter_mem, continueAddress_enterStop] at hfctx
  exact ⟨e, f, he, hf, hmem, hectx.trans hctx, hfctx⟩

/-- Exits with two addresses in the context are not alike. -/
theorem not_goesOnAlike {a b : Word} (he : e.dev.ctx = some ctx)
    (hf : f.dev.ctx = some (ctx.setPc b)) (hne : b ≠ ctx.pc) :
    ¬ GoesOnAlike a (.returned e) (.returned f) := by
  rintro ⟨d, c, hd, hc, hsame, -⟩
  cases hd
  cases hc
  have h := congrArg Context.pc (Option.some.inj (he.symm.trans (hsame.trans hf)))
  rw [Context.pc_setPc] at h
  exact hne h.symm

/-- **A stop that ends with a detach is never left as a continue leaves it**, at a breakpoint of the
debugger or at one of the program, whatever its immediate: the handler of `CMD_DETACH` does not
write the resume address. Where the two contexts agree all the same, the resume address is that of
the `BKPT`, and the processor is back there. -/
theorem detach_never_goes_on (B : Board) (s w : Stopped) (ctx : Context) (ps : List (List Byte))
    (p q : List Byte) (hsize : (bpSize B s.dev.mem).toNat ≤ dbgNbrPoints)
    (hbkpt : isBkpt (load32 s.dev.mem ctx.pc) = true)
    (hw : breakpointHandler B s ctx ps = .waiting w)
    (hkeep : TableKept B (enter B s.dev ctx).mem w.dev.mem)
    (hp : exitType (breakpointHandler B s ctx (ps ++ [p])) = some CmdType.detach.code)
    (hq : exitType (breakpointHandler B s ctx (ps ++ [q])) =
      some CmdType.breakpointContinue.code) :
    ¬ GoesOnAlike ctx.pc (breakpointHandler B s ctx (ps ++ [p]))
      (breakpointHandler B s ctx (ps ++ [q])) := by
  obtain ⟨e, f, he, hf, hmem, hectx, hfctx⟩ := exits_eq ps hw hkeep hp hq
  rw [he, hf]
  by_cases hpc : resumeAddress B s.dev.mem ctx.pc = ctx.pc
  · rintro ⟨d, c, hd, -, -, hno⟩
    cases hd
    refine hno ⟨ctx, hectx, rfl, ?_⟩
    rw [hmem, load32_of_resumeAddress_eq hsize hpc hkeep.1, hbkpt]
  · exact not_goesOnAlike hectx hfctx hpc

/-- `"oem AgA="`: a `CMD_DETACH`. -/
def detachPacket : List Byte :=
  [0x6f#8, 0x65#8, 0x6d#8, 0x20#8, 0x41#8, 0x67#8, 0x41#8, 0x3d#8, 0x00#8]

/-- `"oem BwA="`: a `CMD_BREAKPOINT_CONTINUE`. -/
def continuePacket : List Byte :=
  [0x6f#8, 0x65#8, 0x6d#8, 0x20#8, 0x42#8, 0x77#8, 0x41#8, 0x3d#8, 0x00#8]

/-- A device stopped at the breakpoint `0x8D001000`, before it enters its handler. -/
def atBreakpoint : Stopped := ⟨stoppedSample, fun _ => 0#8⟩

/-- How a stop at that breakpoint ends that gets one packet only. -/
def oneCommand (packet : List Byte) : Outcome :=
  breakpointHandler Board.sample atBreakpoint contextSample [packet]

theorem exitType_samples :
    (bpSize Board.sample atBreakpoint.dev.mem).toNat ≤ dbgNbrPoints ∧
      isBkpt (load32 atBreakpoint.dev.mem contextSample.pc) = true ∧
      exitType (oneCommand detachPacket) = some CmdType.detach.code ∧
      exitType (oneCommand continuePacket) = some CmdType.breakpointContinue.code := by
  refine ⟨?_, ?_, ?_, ?_⟩
  · decide +kernel
  · decide +kernel
  · decide +kernel
  · decide +kernel

/-- A stop that is detached from at once: the continue would have left the address of the slot in
the context. -/
theorem detach_reexecutes :
    ¬ GoesOnAlike contextSample.pc (oneCommand detachPacket) (oneCommand continuePacket) := by
  obtain ⟨-, -, hd, hc⟩ := exitType_samples
  obtain ⟨e, f, he, hf, -, hectx, hfctx⟩ :=
    @exits_eq Board.sample atBreakpoint _ contextSample detachPacket continuePacket [] rfl
      ⟨rfl, rfl⟩ hd hc
  have hresume : resumeAddress Board.sample atBreakpoint.dev.mem contextSample.pc ≠
      contextSample.pc := by decide +kernel
  unfold oneCommand
  rw [List.nil_append] at he hf
  rw [he, hf]
  exact not_goesOnAlike hectx hfctx hresume

/-- That stop, as an instance of the general statement. -/
theorem detach_never_goes_on_sample :
    exitType (oneCommand detachPacket) = some CmdType.detach.code ∧
      ¬ GoesOnAlike contextSample.pc (oneCommand detachPacket) (oneCommand continuePacket) := by
  obtain ⟨hsize, hbkpt, hd, hc⟩ := exitType_samples
  exact ⟨hd, detach_never_goes_on Board.sample atBreakpoint
    ⟨enter Board.sample atBreakpoint.dev contextSample, atBreakpoint.buf⟩ contextSample []
    detachPacket continuePacket hsize hbkpt rfl ⟨rfl, rfl⟩ hd hc⟩

end Hbootdbg.Stop
