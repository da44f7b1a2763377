import Hbootdbg.Device.Int

/-!
# A stop keeps the interrupted program

From the prefetch abort to `dbg_event_handler`, and from its return back to the program.

* `Interrupted`, `Aborted`, `Called`, `Returned`, `Resumed` — the five states of a stop.
* `parked`, `pushedUpper`, `unparked`, `pushedLower`, `left` — `save_context`, cut where it
  changes the mode.
* `mem_saved` — what it has pushed on the two stacks is the frame, and `r0` and `r1`.
* `Holds`, `poppedLower`, `restored` — what `restore_context` finds, and what it makes of it.
* `run_calling`, `run_resumed` — the two halves of a stop.
* `stop_keeps_program` — both of them, and any number of stops.

The frame and the words on the abort stack must not meet: `save_context` takes its return address
from the abort stack after the frame is pushed.
-/

namespace Hbootdbg.Stop.SavedContext

open Hbootdbg.Lib.ByteMem Hbootdbg.Lib.WordBlock Hbootdbg.Lib.A32Cpu Hbootdbg.Device
  Hbootdbg.Device.Int
open Function (update)

/-! ## What is interrupted, and what is called -/

/-- Where the 17 words of the frame are: below the interrupted stack pointer. -/
def frameAddr (m : Cpu) (M : Mode) : Word := down (m.regs (.sp M)) 68

/-- Where the three words are that `prefetch_abort_handler` and `save_context` use of the abort
stack. -/
def scratchAddr (m : Cpu) : Word := down (m.regs (.sp .abt)) 12

/-- A program in ARM state, interrupted in a privileged mode other than abort. Blocks are
transferred to word-aligned stacks only, and the frame is not where the abort stack is in use. -/
structure Interrupted (m : Cpu) (M : Mode) : Prop where
  mode : modeOf m.cpsr = some M
  ne_abt : M ≠ .abt
  arm : IsArm m.cpsr
  sp_aligned : (m.regs (.sp M)).toNat % 4 = 0
  abt_aligned : (m.regs (.sp .abt)).toNat % 4 = 0
  apart : Apart (frameAddr m M) 68 (scratchAddr m) 12

/-- The prefetch abort at `m.pc` has been taken, and the vector has led to its handler. -/
structure Aborted (R : Routines) (m e : Cpu) : Prop where
  pc : e.pc = R.prefetchAbortHandler
  mode : modeOf e.cpsr = some .abt
  regs : e.regs = update m.regs (.lr .abt) (m.pc + 4#32)
  spsr : e.spsr .abt = m.cpsr
  mem : e.mem = m.mem

/-- The context of the interrupted program. -/
def contextOf (m : Cpu) (M : Mode) : Context where
  cpsr := m.cpsr
  r i :=
    if h : i.val < 13 then m.regs (phys M (.r ⟨i, h⟩))
    else if i = 13 then m.regs (.sp M)
    else if i = 14 then m.regs (.lr M)
    else m.pc

/-- The register has a name in the mode. -/
def Visible (M : Mode) (x : Phys) : Prop := ∃ y, phys M y = x

/-- `dbg_event_handler` is called with the context of the interrupted program. -/
structure Called (R : Routines) (m : Cpu) (M : Mode) (c : Cpu) : Prop where
  pc : c.pc = R.dbgEventHandler
  cpsr : c.cpsr = m.cpsr
  event : c.regs (phys M (.r 0)) = eventBreakpoint
  ctx : c.regs (phys M (.r 1)) = frameAddr m M
  sp : c.regs (.sp M) = frameAddr m M
  lr : c.regs (.lr M) = R.prefetchAbortHandler + 20#32
  context : contextAt c.mem (frameAddr m M) = contextOf m M
  sp_abt : c.regs (.sp .abt) = m.regs (.sp .abt)
  hidden : ∀ x, ¬ Visible M x → x ≠ .lr .abt → c.regs x = m.regs x
  mem : ∀ a, ¬ InSpan (frameAddr m M) 68 a → ¬ InSpan (scratchAddr m) 12 a → c.mem a = m.mem a

/-- The registers that a call may change. -/
def callClobbered (M : Mode) : List Phys :=
  [.r 0, .r 1, .r 2, .r 3, .r 12, .lr].map (phys M)

/-- `dbg_event_handler` has returned as the calling convention says, to ARM code in the mode it was
called in, and has set the `pc` of the context to `Q`. -/
structure Returned (M : Mode) (c c' : Cpu) (Q : Word) : Prop where
  pc : c'.pc = c.regs (.lr M)
  mode : modeOf c'.cpsr = modeOf c.cpsr
  arm : IsArm c'.cpsr
  regs : ∀ x, x ∉ callClobbered M → c'.regs x = c.regs x
  context : contextAt c'.mem (c.regs (.sp M)) = (contextAt c.mem (c.regs (.sp M))).setPc Q

/-- The interrupted program goes on at `Q`, with its registers, its flags and its control bits. -/
structure Resumed (m : Cpu) (Q : Word) (m' : Cpu) : Prop where
  pc : m'.pc = Q
  arm : IsArm m'.cpsr
  regs : ∀ x, x ≠ .lr .abt → m'.regs x = m.regs x
  flags : m'.cpsr >>> 27 = m.cpsr >>> 27
  control : m'.cpsr.setWidth 8 = m.cpsr.setWidth 8

/-! ## The parts of `save_context` -/

section parts

variable (M : Mode) (f g : Word) (c : Cpu)

/-- `r0` and `r1` on the abort stack, the fault address and the interrupted status register in
`r0` and `lr`. -/
def parked : Cpu :=
  { c with
    regs := update (update (update c.regs (.sp .abt) g) (.gpr false 0) (c.regs (.lr .abt) - 4#32))
      (.lr .abt) (c.spsr .abt)
    cpsr := merge c.cpsr (c.spsr .abt) controlMask
    pc := c.pc + 16#32
    mem := storeWords c.mem g [c.regs (.gpr false 0), c.regs (.gpr false 1)] }

/-- The frame from `r2` up, on the interrupted stack. -/
def pushedUpper : Cpu :=
  { c with
    regs := update (update c.regs (.gpr false 1) (off f 68)) (.sp M) (off f 12)
    cpsr := merge c.cpsr abortMode controlMask
    pc := c.pc + 24#32
    mem := storeWords c.mem (off f 12)
      ([.r 2, .r 3, .r 4, .r 5, .r 6, .r 7, .r 8, .r 9, .r 10, .r 11, .r 12].map
          (fun x => c.regs (phys M x)) ++
        [off f 68, c.regs (.lr M), c.regs (.gpr false 0)]) }

/-- `r0` and `r1` taken back, and the interrupted status register in `r2`. -/
def unparked (x0 x1 : Word) : Cpu :=
  { c with
    regs := update (update (update (update c.regs (.gpr false 1) x1) (.gpr false 0) x0)
      (.sp .abt) (off g 8)) (.gpr false 2) (c.spsr .abt)
    cpsr := merge c.cpsr (c.regs (.lr .abt)) controlMask
    pc := c.pc + 12#32 }

/-- The rest of the frame, on the interrupted stack. -/
def pushedLower : Cpu :=
  { c with
    regs := update c.regs (.sp M) f
    cpsr := merge c.cpsr abortMode controlMask
    pc := c.pc + 12#32
    mem := storeWords c.mem f
      [c.regs (.gpr false 2), c.regs (.gpr false 0), c.regs (.gpr false 1)] }

/-- Back in `prefetch_abort_handler`, and in the interrupted mode. -/
def left (ret : Word) : Cpu :=
  { c with
    regs := update (update c.regs (.lr .abt) ret) (.sp .abt) (off g 12)
    cpsr := c.spsr .abt
    pc := ret }

variable {M f g c}

/-- `save_context` parks `r0` and `r1` on the stack of the abort mode. -/
theorem execAll_parked (hM : modeOf c.cpsr = some .abt) (hs : c.regs (.sp .abt) = off g 8)
    (hg : g.toNat % 4 = 0) :
    execAll [.stm [.r 0, .r 1] false, .sub (.r 0) .lr 4#32, .mrs .lr, .msrC .lr] c =
      some (parked g c) := by
  have h8 : (off g 8).toNat % 4 = 0 := aligned_off hg rfl
  simp [parked, execAll, exec, effect, hM, hs, phys, down_off, h8, BitVec.add_assoc]

/-- On the interrupted stack, it pushes the frame from `r2` up. -/
theorem execAll_pushedUpper (hM : modeOf c.cpsr = some M) (hs : c.regs (.sp M) = off f 68)
    (hf : f.toNat % 4 = 0) :
    execAll
      [.mov (.r 1) .sp, .stm [.r 0] false, .stm [.lr] false, .stm [.r 1] false,
        .stm [.r 2, .r 3, .r 4, .r 5, .r 6, .r 7, .r 8, .r 9, .r 10, .r 11, .r 12] false,
        .msrCImm abortMode] c = some (pushedUpper M f c) := by
  have h68 : (off f 68).toNat % 4 = 0 := aligned_off hf rfl
  have h64 : (off f 64).toNat % 4 = 0 := aligned_off hf rfl
  have h60 : (off f 60).toNat % 4 = 0 := aligned_off hf rfl
  have h56 : (off f 56).toNat % 4 = 0 := aligned_off hf rfl
  simp [pushedUpper, execAll, exec, effect, hM, hs, phys, down_off, h68, h64, h60, h56,
    storeWords_storeWords, BitVec.add_assoc]

/-- Back in the abort mode, it takes `r0` and `r1` from its stack. -/
theorem execAll_unparked (hM : modeOf c.cpsr = some .abt) (hs : c.regs (.sp .abt) = g)
    (hg : g.toNat % 4 = 0) {x0 x1 : Word} (hload : loadWords c.mem g 2 = [x0, x1]) :
    execAll [.ldm [.r 0, .r 1] false, .mrs (.r 2), .msrC .lr] c = some (unparked g c x0 x1) := by
  simp [unparked, execAll, exec, effect, hM, hs, phys, hg, hload, assign, BitVec.add_assoc]

/-- On the interrupted stack, it pushes the rest of the frame. -/
theorem execAll_pushedLower (hM : modeOf c.cpsr = some M) (hs : c.regs (.sp M) = off f 12)
    (hf : f.toNat % 4 = 0) :
    execAll [.stm [.r 0, .r 1] false, .stm [.r 2] false, .msrCImm abortMode] c =
      some (pushedLower M f c) := by
  have h12 : (off f 12).toNat % 4 = 0 := aligned_off hf rfl
  have h4 : (off f 4).toNat % 4 = 0 := aligned_off hf rfl
  simp [pushedLower, execAll, exec, effect, hM, hs, phys, down_off, h12, h4, storeWords_front,
    BitVec.add_assoc]

/-- It returns and leaves the abort mode in one instruction. -/
theorem execAll_left (hM : modeOf c.cpsr = some .abt) (hs : c.regs (.sp .abt) = off g 8)
    (hg : g.toNat % 4 = 0) (harm : IsArm (c.spsr .abt)) {ret : Word} (hret : ret.toNat % 4 = 0)
    (hload : loadWords c.mem (off g 8) 1 = [ret]) :
    execAll [.ldm [.lr] false, .subsPc 0#32] c = some (left g c ret) := by
  have h8 : (off g 8).toNat % 4 = 0 := aligned_off hg rfl
  simp [left, execAll, exec, effect, hM, hs, phys, h8, hload, harm, hret, assign]

end parts

/-! ## `save_context` -/

section save

variable {R : Routines} {m e c : Cpu} {M : Mode}

/-- The words of the frame, from `cpsr` to `pc`. -/
def frameWords (m : Cpu) (M : Mode) : List Word :=
  m.cpsr ::
    ([.r 0, .r 1, .r 2, .r 3, .r 4, .r 5, .r 6, .r 7, .r 8, .r 9, .r 10, .r 11, .r 12].map
        (fun x => m.regs (phys M x)) ++
      [m.regs (.sp M), m.regs (.lr M), m.pc])

/-- They are the interrupted context. -/
theorem contextAt_frameWords (mem : Memory) (a : Word) :
    contextAt (storeWords mem a (frameWords m M)) a = contextOf m M := by
  have hword (i : ℕ) (hi : i < 17) : load32 (storeWords mem a (frameWords m M)) (off a (4 * i)) =
      (frameWords m M).getD i 0#32 :=
    load32_storeWords (by decide) hi (by norm_num [frameWords])
  unfold contextAt contextOf
  congr 1
  · have h0 := hword 0 (by decide)
    rwa [Nat.mul_zero, off_zero] at h0
  · funext i
    rw [show 4 + 4 * i.val = 4 * (i.val + 1) by ring, hword _ (by omega)]
    fin_cases i <;> rfl

/-- The state that `save_context` leaves to `prefetch_abort_handler`. -/
def saved (m : Cpu) (M : Mode) (c : Cpu) (ret : Word) : Cpu :=
  left (scratchAddr m)
    (pushedLower M (frameAddr m M)
      (unparked (scratchAddr m)
        (pushedUpper M (frameAddr m M) (parked (scratchAddr m) c))
        (m.regs (.gpr false 0)) (m.regs (.gpr false 1)))) ret

/-- What the interrupted mode does not name comes out of `save_context` as it was, but for the
link register of the abort mode. -/
theorem regs_saved_hidden
    (hregs : c.regs = update (update m.regs (.lr .abt) (m.pc + 4#32)) (.sp .abt)
      (off (scratchAddr m) 8)) (ret : Word) {x : Phys} (hx : ¬ Visible M x) (hlr : x ≠ .lr .abt) :
    (saved m M c ret).regs x = m.regs x := by
  have habt : m.regs (.sp .abt) = off (scratchAddr m) 12 := (off_down _ _).symm
  have h0 : x ≠ .gpr false 0 := fun h => hx ⟨.r 0, by simp [phys, h]⟩
  have h1 : x ≠ .gpr false 1 := fun h => hx ⟨.r 1, by simp [phys, h]⟩
  have h2 : x ≠ .gpr false 2 := fun h => hx ⟨.r 2, by simp [phys, h]⟩
  have hspM : x ≠ .sp M := fun h => hx ⟨.sp, h.symm⟩
  by_cases hsp : x = .sp .abt
  · simp [saved, left, hsp, habt]
  · simp [saved, left, pushedLower, unparked, pushedUpper, parked, hregs, h0, h1, h2, hspM, hsp,
      hlr]

section

variable (hm : Interrupted m M)
  (hregs : c.regs = update (update m.regs (.lr .abt) (m.pc + 4#32)) (.sp .abt)
    (off (scratchAddr m) 8))
  (hspsr : c.spsr .abt = m.cpsr)
include hm

/-- The frame is word-aligned. -/
theorem frameAddr_aligned : (frameAddr m M).toNat % 4 = 0 := by
  have := hm.sp_aligned
  unfold frameAddr down
  bv_omega

/-- The words below the stack of the abort mode are word-aligned. -/
theorem scratchAddr_aligned : (scratchAddr m).toNat % 4 = 0 := by
  have := hm.abt_aligned
  unfold scratchAddr down
  bv_omega

/-- What is pushed on the interrupted stack leaves the words on the abort stack. -/
theorem load32_scratch {mem : Memory} {ws : List Word} {o k : ℕ} (hws : ws ≠ [])
    (ho : o + 4 * ws.length ≤ 68) (hk : k + 4 ≤ 12) :
    load32 (storeWords mem (off (frameAddr m M) o) ws) (off (scratchAddr m) k) =
      load32 mem (off (scratchAddr m) k) := by
  have hpos : 0 < ws.length := List.length_pos_iff.mpr hws
  apply load32_storeWords_of_apart (by decide)
  have hword : Apart (frameAddr m M) 68 (off (scratchAddr m) k) 4 :=
    hm.apart.off_right (by decide) (by decide) hk (by decide)
  exact hword.symm.off_right (by decide) (by omega) ho (by decide)

include hregs hspsr

/-- What `save_context` leaves in memory: `r0` and `r1` on the abort stack, and the frame. -/
theorem mem_saved (ret : Word) : (saved m M c ret).mem =
    storeWords (storeWords c.mem (scratchAddr m) [m.regs (.gpr false 0), m.regs (.gpr false 1)])
      (frameAddr m M) (frameWords m M) := by
  have hsp : m.regs (.sp M) = off (frameAddr m M) 68 := (off_down _ _).symm
  have hne : M ≠ .abt := hm.ne_abt
  simp [saved, left, pushedLower, unparked, pushedUpper, parked, frameWords, hregs, hspsr, hsp,
    storeWords_front, phys, Function.update_apply, hne]

/-- `save_context`, called by `prefetch_abort_handler` with its return address on the stack. -/
theorem execAll_saveContext (hmode : modeOf c.cpsr = some .abt) {ret : Word}
    (hret : ret.toNat % 4 = 0) (hload : load32 c.mem (off (scratchAddr m) 8) = ret) :
    execAll saveContextCode c = some (saved m M c ret) := by
  have hsp : m.regs (.sp M) = off (frameAddr m M) 68 := (off_down _ _).symm
  have hf := frameAddr_aligned hm
  have hg := scratchAddr_aligned hm
  have hne : M ≠ .abt := hm.ne_abt
  have hmodeM (psr : Word) : modeOf (merge psr m.cpsr controlMask) = some M :=
    (modeOf_merge (by decide)).trans hm.mode
  have hmodeAbt (psr : Word) : modeOf (merge psr abortMode controlMask) = some .abt :=
    (modeOf_merge (by decide)).trans (by decide)
  let c1 := parked (scratchAddr m) c
  let c2 := pushedUpper M (frameAddr m M) c1
  let c3 := unparked (scratchAddr m) c2 (m.regs (.gpr false 0)) (m.regs (.gpr false 1))
  let c4 := pushedLower M (frameAddr m M) c3
  have h1 : execAll _ c = some c1 :=
    execAll_parked hmode (by rw [hregs, Function.update_self]) hg
  have h2 : execAll _ c1 = some c2 :=
    execAll_pushedUpper (by simp [c1, parked, hspsr, hmodeM])
      (by simp [c1, parked, hregs, hsp, hne]) hf
  -- the frame has not touched what is parked on the abort stack
  have hparked (i : ℕ) (hi : i < 2) : load32 c2.mem (off (scratchAddr m) (4 * i)) =
      [c.regs (.gpr false 0), c.regs (.gpr false 1)].getD i 0#32 :=
    (load32_scratch hm (by simp) (by simp) (by omega)).trans
      (load32_storeWords (by decide) hi (by norm_num))
  have hload2 : loadWords c2.mem (scratchAddr m) 2 =
      [m.regs (.gpr false 0), m.regs (.gpr false 1)] := by
    change [load32 c2.mem (off _ (4 * 0)), load32 c2.mem (off _ (4 * 1))] = _
    rw [hparked 0 (by decide), hparked 1 (by decide), hregs]
    simp
  have h3 : execAll _ c2 = some c3 :=
    execAll_unparked (by simp [c2, pushedUpper, hmodeAbt])
      (by simp [c2, c1, pushedUpper, parked, hne.symm, Function.update_apply]) hg hload2
  have h4 : execAll _ c3 = some c4 :=
    execAll_pushedLower
      (by simp [c3, c2, c1, unparked, pushedUpper, parked, hspsr, hmodeM, hne,
        Function.update_apply])
      (by simp [c3, c2, unparked, pushedUpper, hne]) hf
  -- nor what `prefetch_abort_handler` has left there
  have hload4 : loadWords c4.mem (off (scratchAddr m) 8) 1 = [ret] := by
    have happart : Apart (off (scratchAddr m) 8) 4 (scratchAddr m) 8 := by
      have h := apart_off (scratchAddr m) (o := 8) (p := 0) (n := 4) (k := 8)
      rw [off_zero] at h
      exact h (by decide) (by decide) (by decide) (by decide) (by decide)
    have hframe : load32 (storeWords (storeWords c.mem (scratchAddr m)
        [m.regs (.gpr false 0), m.regs (.gpr false 1)]) (off (frameAddr m M) 0) (frameWords m M))
        (off (scratchAddr m) 8) = _ :=
      load32_scratch hm (by simp [frameWords]) (by simp [frameWords]) (by decide)
    rw [off_zero, ← mem_saved hm hregs hspsr ret, load32_storeWords_of_apart (by decide) happart,
      hload] at hframe
    change [load32 c4.mem (off (off (scratchAddr m) 8) 0)] = [ret]
    rw [off_zero]
    exact congrArg (fun x => [x]) hframe
  have h5 : execAll _ c4 = some (saved m M c ret) :=
    execAll_left (by simp [c4, pushedLower, hmodeAbt])
      (by simp [c4, c3, pushedLower, unparked, hne.symm]) hg
      (by simpa [c4, c3, c2, c1, pushedLower, unparked, pushedUpper, parked, hspsr] using hm.arm)
      hret hload4
  exact (execAll_append h1).trans ((execAll_append h2).trans ((execAll_append h3).trans
    ((execAll_append h4).trans h5)))

end

end save

/-! ## Up to the debugger -/

section called

variable {R : Routines} {m e c c' : Cpu} {M : Mode} {Q : Word}

/-- The three pieces of `prefetch_abort_handler`. -/
theorem handler_at_pieces (R : Routines) :
    At R.fetch R.prefetchAbortHandler [.stm [] true, .b R.saveContext] ∧
      At R.fetch (off R.prefetchAbortHandler 8)
        [.movImm (.r 0) eventBreakpoint, .mov (.r 1) .sp, .bl R.dbgEventHandler] ∧
      At R.fetch (off R.prefetchAbortHandler 20) [.bl R.restoreContext] := by
  have hcode : prefetchAbortHandlerCode R.saveContext R.dbgEventHandler R.restoreContext =
      [.stm [] true, .b R.saveContext] ++
        ([.movImm (.r 0) eventBreakpoint, .mov (.r 1) .sp, .bl R.dbgEventHandler] ++
          [.bl R.restoreContext]) := rfl
  obtain ⟨hat1, hat⟩ := at_append.mp (hcode ▸ R.handler_at)
  obtain ⟨hat2, hat3⟩ := at_append.mp hat
  rw [off_off] at hat3
  exact ⟨hat1, hat2, hat3⟩

/-- At the start of `save_context`, with the return address on the abort stack. -/
def entered (R : Routines) (m e : Cpu) : Cpu :=
  { e with
    regs := update e.regs (.sp .abt) (off (scratchAddr m) 8)
    mem := storeWords e.mem (off (scratchAddr m) 8) [off R.prefetchAbortHandler 8]
    pc := R.saveContext }

/-- At the start of `dbg_event_handler`. -/
def calling (R : Routines) (m : Cpu) (M : Mode) (e : Cpu) : Cpu :=
  let s := saved m M (entered R m e) (off R.prefetchAbortHandler 8)
  { s with
    regs := update (update (update s.regs (.gpr false 0) eventBreakpoint)
      (.gpr false 1) (frameAddr m M)) (.lr M) (off R.prefetchAbortHandler 20)
    pc := R.dbgEventHandler }

section

variable (hm : Interrupted m M) (he : Aborted R m e)
include he

/-- At the entry, two banked registers of the abort mode have changed. -/
theorem regs_entered : (entered R m e).regs =
    update (update m.regs (.lr .abt) (m.pc + 4#32)) (.sp .abt) (off (scratchAddr m) 8) := by
  unfold entered
  rw [he.regs]

include hm

/-- The first two instructions of the handler. -/
theorem run_entered : run R.fetch 2 e = some (entered R m e) := by
  have habt : e.regs (.sp .abt) = off (scratchAddr m) 12 := by
    rw [he.regs, Function.update_of_ne (by decide)]
    exact (off_down _ _).symm
  have h12 : (off (scratchAddr m) 12).toNat % 4 = 0 := aligned_off (scratchAddr_aligned hm) rfl
  have hoff : R.prefetchAbortHandler + 8#32 = off R.prefetchAbortHandler 8 := rfl
  refine (run_of_at (he.pc.symm ▸ (handler_at_pieces R).1) (by simp [Instr.straight])).trans ?_
  simp [entered, execAll, exec, effect, he.mode, habt, h12, he.pc, down_off, hoff]

/-- `save_context`, from the call to the return. -/
theorem run_saved : run R.fetch 18 (entered R m e) =
    some (saved m M (entered R m e) (off R.prefetchAbortHandler 8)) := by
  have hload : load32 (entered R m e).mem (off (scratchAddr m) 8) =
      off R.prefetchAbortHandler 8 := by
    unfold entered
    rw [storeWords_singleton, load32_store32 _ _ _ (by decide)]
  refine (run_of_at (c := entered R m e) R.save_at (by decide)).trans ?_
  exact execAll_saveContext hm (regs_entered he) he.spsr he.mode (aligned_off R.aligned rfl) hload

/-- **From the abort to the call of the debugger.** -/
theorem run_calling : run R.fetch 23 e = some (calling R m M e) := by
  let s := saved m M (entered R m e) (off R.prefetchAbortHandler 8)
  have hmode : modeOf s.cpsr = some M := (congrArg modeOf he.spsr).trans hm.mode
  have hsp : s.regs (.sp M) = frameAddr m M := by
    simp [s, saved, left, pushedLower, hm.ne_abt]
  have hpc : s.pc = off R.prefetchAbortHandler 8 := rfl
  have hcalling : calling R m M e =
      { s with
        regs := update (update (update s.regs (.gpr false 0) eventBreakpoint)
          (.gpr false 1) (frameAddr m M)) (.lr M) (off R.prefetchAbortHandler 20)
        pc := R.dbgEventHandler } := rfl
  have hcall : run R.fetch 3 s = some (calling R m M e) := by
    refine (run_of_at (c := s) (handler_at_pieces R).2.1 (by simp [Instr.straight])).trans ?_
    rw [hcalling]
    clear_value s
    simp [execAll, exec, effect, hmode, hsp, phys, hpc, off, BitVec.add_assoc]
  rw [show 23 = 2 + (18 + 3) from rfl, run_add (run_entered hm he), run_add (run_saved hm he),
    hcall]

/-- What the debugger is called with. -/
theorem called_calling : Called R m M (calling R m M e) := by
  have hregs := regs_entered he
  have hmem : (calling R m M e).mem = storeWords (storeWords (entered R m e).mem (scratchAddr m)
      [m.regs (.gpr false 0), m.regs (.gpr false 1)]) (frameAddr m M) (frameWords m M) :=
    mem_saved hm hregs he.spsr (off R.prefetchAbortHandler 8)
  constructor
  case pc => rfl
  case cpsr => exact he.spsr
  case event => simp [calling, phys]
  case ctx => simp [calling, phys]
  case sp => simp [calling, saved, left, pushedLower, hm.ne_abt]
  case lr => simp [calling, off]
  case context => rw [hmem, contextAt_frameWords]
  case sp_abt =>
    simp only [calling, saved, left]
    rw [Function.update_of_ne (by simp), Function.update_of_ne (by simp),
      Function.update_of_ne (by simp), Function.update_self]
    exact off_down _ _
  case hidden =>
    intro x hx hlr
    have h0 : x ≠ .gpr false 0 := fun h => hx ⟨.r 0, by simp [phys, h]⟩
    have h1 : x ≠ .gpr false 1 := fun h => hx ⟨.r 1, by simp [phys, h]⟩
    have hlrM : x ≠ .lr M := fun h => hx ⟨.lr, h.symm⟩
    simp only [calling, Function.update_of_ne hlrM, Function.update_of_ne h1,
      Function.update_of_ne h0]
    exact regs_saved_hidden hregs _ hx hlr
  case mem =>
    intro a hframe hscratch
    have hparked : ¬ InSpan (scratchAddr m) 8 a := by
      unfold InSpan at *
      omega
    have hreturn : ¬ InSpan (off (scratchAddr m) 8) 4 a := by
      intro h
      exact hscratch (h.of_off (by decide) (by decide))
    rw [hmem, storeWords_of_not_inSpan hframe, storeWords_of_not_inSpan hparked]
    change storeWords e.mem _ _ a = m.mem a
    rw [storeWords_of_not_inSpan hreturn, he.mem]

end

end called

/-! ## And back -/

section resumed

variable {R : Routines} {m c c' : Cpu} {M : Mode} {Q : Word}

/-- `r0` to `r12`. -/
def gprNames : List Reg :=
  [.r 0, .r 1, .r 2, .r 3, .r 4, .r 5, .r 6, .r 7, .r 8, .r 9, .r 10, .r 11, .r 12]

/-- The names there are in a mode. -/
theorem visible_cases {x : Phys} (h : Visible M x) :
    x = .sp M ∨ x = .lr M ∨ x ∈ gprNames.map (phys M) := by
  obtain ⟨y, rfl⟩ := h
  cases y with
  | sp => exact Or.inl rfl
  | lr => exact Or.inr (Or.inl rfl)
  | r i =>
      have hi : Reg.r i ∈ gprNames := by
        revert i
        decide
      exact Or.inr (Or.inr (List.mem_map_of_mem hi))

/-- The mode is in the control bits. -/
theorem modeOf_congr {psr psr' : Word} (h : psr.setWidth 8 = psr'.setWidth 8) :
    modeOf psr = modeOf psr' := by
  have hlow : psr.setWidth 5 = psr'.setWidth 5 := by
    rw [← BitVec.setWidth_setWidth_of_le psr (show 5 ≤ 8 by decide), h,
      BitVec.setWidth_setWidth_of_le psr' (by decide)]
  unfold modeOf
  rw [hlow]

/-- What `restore_context` pops from a context in memory. -/
structure Holds (m : Cpu) (M : Mode) (Q : Word) (mem : Memory) (f : Word) : Prop where
  cpsr : load32 mem f = m.cpsr
  gprs : loadWords mem (off f 4) 13 = gprNames.map fun y => m.regs (phys M y)
  sp : load32 mem (off f 56) = m.regs (.sp M)
  lr : load32 mem (off f 60) = m.regs (.lr M)
  pc : load32 mem (off f 64) = Q

/-- A frame with the context, word by word. -/
theorem holds_of_contextAt {mem : Memory} {f : Word}
    (hctx : contextAt mem f = (contextOf m M).setPc Q) : Holds m M Q mem f := by
  have hr (i : Fin 16) : load32 mem (off f (4 + 4 * i.val)) = ((contextOf m M).setPc Q).r i :=
    congrFun (congrArg Context.r hctx) i
  have hreg (i : Fin 13) : load32 mem (off f (4 + 4 * i.val)) = m.regs (phys M (.r i)) := by
    have hne : i.castLE (by decide) ≠ (15 : Fin 16) := by
      revert i
      decide
    refine (hr (i.castLE (by decide))).trans ((Function.update_of_ne hne _ _).trans ?_)
    exact dif_pos i.isLt
  constructor
  case cpsr => exact congrArg Context.cpsr hctx
  case gprs =>
    have hrange : List.range 13 = (List.finRange 13).map Fin.val := by decide
    have hnames : gprNames = (List.finRange 13).map .r := by decide
    unfold loadWords
    rw [hrange, hnames, List.map_map, List.map_map]
    apply List.map_congr_left
    intro i _
    simp only [Function.comp_apply, off_off]
    exact hreg i
  case sp => exact hr 13
  case lr => exact hr 14
  case pc => exact hr 15

/-- The state that `restore_context` makes of `c`, whose stack has the context of `m` at `f`. -/
def restored (m : Cpu) (M : Mode) (f Q : Word) (c : Cpu) : Cpu :=
  { c with
    regs := update (update (fun x => if x ∈ gprNames.map (phys M) then m.regs x else c.regs x)
      (.lr M) (m.regs (.lr M))) (.sp M) (off f 68)
    cpsr := merge c.cpsr m.cpsr (flagsMask ||| controlMask)
    pc := Q }

/-- The status register and `r0` to `r12` taken back. -/
def poppedLower (m : Cpu) (M : Mode) (f : Word) (c : Cpu) : Cpu :=
  { c with
    regs := update (fun x => if x ∈ gprNames.map (phys M) then m.regs x else c.regs x)
      (.sp M) (off f 56)
    cpsr := merge c.cpsr m.cpsr (flagsMask ||| controlMask)
    pc := c.pc + 12#32 }

/-- `restore_context` takes the status register and `r0` to `r12` from the frame. -/
theorem execAll_poppedLower {f : Word} (hM : modeOf c.cpsr = some M)
    (hmode : modeOf m.cpsr = some M) (hs : c.regs (.sp M) = f) (hf : f.toNat % 4 = 0)
    (h : Holds m M Q c.mem f) :
    execAll [.ldm [.r 12] false, .msr (.r 12), .ldm gprNames false] c =
      some (poppedLower m M f c) := by
  let c1 : Cpu :=
    { c with
      regs := update (fun x => if x ∈ [.r 12].map (phys M) then m.cpsr else c.regs x)
        (.sp M) (off f 4)
      pc := c.pc + 4#32 }
  let c2 : Cpu :=
    { c1 with
      cpsr := merge c.cpsr m.cpsr (flagsMask ||| controlMask)
      pc := c.pc + 8#32 }
  have hM2 : modeOf c2.cpsr = some M := (modeOf_merge (by decide)).trans hmode
  have h4 : (off f 4).toNat % 4 = 0 := aligned_off hf rfl
  have e1 : exec (.ldm [.r 12] false) c = some c1 := by
    have hldm := exec_ldm (g := fun _ => m.cpsr) hM (hs.symm ▸ hf) (show loadWords c.mem
      (c.regs (.sp M)) [Reg.r 12].length = _ by simp [loadWords, hs, h.cpsr])
    rw [hs] at hldm
    exact hldm
  have e2 : exec (.msr (.r 12)) c1 = some c2 := by
    simp [exec, effect, c1, c2, hM, BitVec.add_assoc, phys]
  have e3 : exec (.ldm gprNames false) c2 = some (poppedLower m M f c) := by
    have hsp : c2.regs (.sp M) = off f 4 := by simp [c2, c1]
    have hload : loadWords c2.mem (c2.regs (.sp M)) gprNames.length =
        gprNames.map fun y => m.regs (phys M y) := by
      rw [hsp]
      exact h.gprs
    -- `r12`, which held the status register, is loaded again
    have hregs : update (fun x => if x ∈ gprNames.map (phys M) then m.regs x else c2.regs x)
        (.sp M) (off f 56) = (poppedLower m M f c).regs := by
      funext x
      by_cases hx : x = .sp M
      · simp only [poppedLower, hx, Function.update_self]
      · by_cases hg : x ∈ gprNames.map (phys M)
        · simp only [poppedLower, Function.update_of_ne hx, if_pos hg]
        · have h12 : x ∉ [Reg.r 12].map (phys M) := by
            intro h
            exact hg (List.map_subset _ (by decide) h)
          simp only [poppedLower, c2, c1, Function.update_of_ne hx, if_neg hg, if_neg h12]
    rw [exec_ldm hM2 (hsp.symm ▸ h4) hload, hsp, off_off]
    change some { c2 with regs := update _ _ (off f 56), pc := _ } = _
    rw [hregs]
    simp [poppedLower, c2, c1, BitVec.add_assoc]
  simp only [execAll, e1, e2, e3, Option.bind_some]

/-- Then it takes `lr` and `pc`, and the stack pointer is back at its place. -/
theorem execAll_poppedUpper {f : Word} (hM : modeOf c.cpsr = some M)
    (hs : c.regs (.sp M) = off f 56) (hf : f.toNat % 4 = 0) (hQ : Q.toNat % 4 = 0)
    (h : Holds m M Q c.mem f) :
    execAll [.ldm [.lr] false, .ldm [.lr] true] c = some
      { c with
        regs := update (update c.regs (.lr M) (m.regs (.lr M))) (.sp M) (off f 68)
        pc := Q } := by
  have h56 : (off f 56).toNat % 4 = 0 := aligned_off hf rfl
  have h60 : (off f 60).toNat % 4 = 0 := aligned_off hf rfl
  have hregs : update (update (update (update c.regs (.lr M) (m.regs (.sp M))) (.sp M) (off f 60))
      (.lr M) (m.regs (.lr M))) (.sp M) (off f 68) =
        update (update c.regs (.lr M) (m.regs (.lr M))) (.sp M) (off f 68) := by
    funext x
    by_cases hx : x = .sp M
    · rw [hx, Function.update_self, Function.update_self]
    · by_cases hl : x = .lr M
      · rw [Function.update_of_ne hx, Function.update_of_ne hx, hl, Function.update_self,
          Function.update_self]
      · simp only [Function.update_of_ne hx, Function.update_of_ne hl]
  simp [execAll, exec, effect, hM, hs, h56, h60, loadWords, assign, phys, h.sp, h.lr, h.pc, hQ,
    hregs]

/-- `restore_context` from a stack that has a context of the interrupted program on it. -/
theorem execAll_restoreContext {f : Word} (hM : modeOf c.cpsr = some M)
    (hmode : modeOf m.cpsr = some M) (hs : c.regs (.sp M) = f) (hf : f.toNat % 4 = 0)
    (hQ : Q.toNat % 4 = 0) (h : Holds m M Q c.mem f) :
    execAll restoreContextCode c = some (restored m M f Q c) := by
  have hlower := execAll_poppedLower hM hmode hs hf h
  have hM' : modeOf (poppedLower m M f c).cpsr = some M := (modeOf_merge (by decide)).trans hmode
  have hs' : (poppedLower m M f c).regs (.sp M) = off f 56 := Function.update_self _ _ _
  refine (execAll_append hlower).trans ((execAll_poppedUpper hM' hs' hf hQ h).trans ?_)
  have hregs : update (update (poppedLower m M f c).regs (.lr M) (m.regs (.lr M))) (.sp M)
      (off f 68) = (restored m M f Q c).regs := by
    funext x
    by_cases hx : x = .sp M
    · simp only [restored, hx, Function.update_self]
    · by_cases hl : x = .lr M
      · rw [hl]
        simp [restored]
      · simp only [restored, poppedLower, Function.update_of_ne hx, Function.update_of_ne hl]
  rw [hregs]
  rfl

/-- The registers come out of `restore_context` as they were, when those without a name in the
mode have been left alone. -/
theorem regs_restored {x : Phys} (hx : Visible M x ∨ c.regs x = m.regs x) :
    (restored m M (frameAddr m M) Q c).regs x = m.regs x := by
  unfold restored
  simp only
  by_cases hs : x = .sp M
  · rw [hs, Function.update_self]
    exact off_down _ _
  · by_cases hl : x = .lr M
    · rw [hl, Function.update_of_ne (by simp), Function.update_self]
    · rw [Function.update_of_ne hs, Function.update_of_ne hl]
      split_ifs with hg
      · rfl
      · rcases hx with hx | hx
        · rcases visible_cases hx with h | h | h
          · exact absurd h hs
          · exact absurd h hl
          · exact absurd h hg
        · exact hx

/-- `restore_context` writes the flags and the control bits, and leaves ARM state. -/
theorem resumed_cpsr {psr psr' : Word} (h : IsArm psr) (h' : IsArm psr') :
    IsArm (merge psr' psr (flagsMask ||| controlMask)) ∧
      merge psr' psr (flagsMask ||| controlMask) >>> 27 = psr >>> 27 ∧
      (merge psr' psr (flagsMask ||| controlMask)).setWidth 8 = psr.setWidth 8 := by
  refine ⟨⟨?_, ?_⟩, ?_, ?_⟩
  · rw [getLsbD_merge, if_neg (by decide), h'.1]
  · rw [getLsbD_merge, if_neg (by decide), h'.2]
  · apply BitVec.eq_of_getLsbD_eq
    intro i _
    rw [BitVec.getLsbD_ushiftRight, BitVec.getLsbD_ushiftRight, getLsbD_merge]
    by_cases hi : i < 5
    · rw [if_pos]
      revert i
      decide
    · rw [BitVec.getLsbD_of_ge psr _ (by omega), BitVec.getLsbD_of_ge psr' _ (by omega), ite_self]
  · apply BitVec.eq_of_getLsbD_eq
    intro i hi
    rw [BitVec.getLsbD_setWidth, BitVec.getLsbD_setWidth, getLsbD_merge]
    by_cases h5 : i = 5
    · rw [h5, if_neg (by decide), h.1, h'.1]
    · rw [if_pos]
      revert i
      decide

/-- **The interrupted program goes on** where the debugger has set its `pc`. -/
theorem run_resumed (hm : Interrupted m M) (hc : Called R m M c) (hr : Returned M c c' Q)
    (hQ : Q.toNat % 4 = 0) :
    ∃ m', run R.fetch 6 c' = some m' ∧ Resumed m Q m' ∧ m'.mem = c'.mem := by
  have hM : modeOf c'.cpsr = some M := by
    rw [hr.mode, hc.cpsr, hm.mode]
  have hsp : c'.regs (.sp M) = frameAddr m M := by
    rw [hr.regs _ (by simp [callClobbered, phys]), hc.sp]
  have hctx : contextAt c'.mem (frameAddr m M) = (contextOf m M).setPc Q := by
    rw [← hc.context, ← hc.sp]
    exact hr.context
  have hpc : c'.pc = off R.prefetchAbortHandler 20 := by
    rw [hr.pc, hc.lr]
    rfl
  let b : Cpu :=
    { c' with
      regs := update c'.regs (.lr M) (c'.pc + 4#32)
      pc := R.restoreContext }
  let m' := restored m M (frameAddr m M) Q b
  have hspb : b.regs (.sp M) = frameAddr m M := by
    simp only [b]
    rw [Function.update_of_ne (by simp), hsp]
  have hbl : run R.fetch 1 c' = some b := by
    refine (run_of_at (hpc.symm ▸ (handler_at_pieces R).2.2) (by simp)).trans ?_
    simp [execAll, exec, effect, hM, b]
  have hrun : run R.fetch 6 c' = some m' := by
    rw [show 6 = 1 + 5 from rfl, run_add hbl]
    refine (run_of_at (c := b) R.restore_at (by decide)).trans ?_
    exact execAll_restoreContext hM hm.mode hspb (frameAddr_aligned hm) hQ
      (holds_of_contextAt hctx)
  have hregs (x : Phys) (hx : x ≠ .lr .abt) : m'.regs x = m.regs x := by
    apply regs_restored
    by_cases hv : Visible M x
    · exact Or.inl hv
    · have hl : x ≠ .lr M := fun h => hv ⟨.lr, h.symm⟩
      have hkept : x ∉ callClobbered M := by
        intro h
        obtain ⟨y, -, hy⟩ := List.mem_map.mp h
        exact hv ⟨y, hy⟩
      right
      simp only [b]
      rw [Function.update_of_ne hl, hr.regs x hkept, hc.hidden x hv hx]
  obtain ⟨harm, hflags, hcontrol⟩ := resumed_cpsr hm.arm hr.arm
  exact ⟨m', hrun, ⟨rfl, harm, hregs, hflags, hcontrol⟩, rfl⟩

/-- What goes on can be interrupted again. -/
theorem Resumed.interrupted {m' : Cpu} (h : Resumed m Q m') (hm : Interrupted m M) :
    Interrupted m' M := by
  have hspM : m'.regs (.sp M) = m.regs (.sp M) := h.regs _ (by simp)
  have hsp : m'.regs (.sp .abt) = m.regs (.sp .abt) := h.regs _ (by simp)
  constructor
  case mode => rw [modeOf_congr h.control, hm.mode]
  case ne_abt => exact hm.ne_abt
  case arm => exact h.arm
  case sp_aligned => rw [hspM, hm.sp_aligned]
  case abt_aligned => rw [hsp, hm.abt_aligned]
  case apart =>
    unfold frameAddr scratchAddr
    rw [hspM, hsp]
    exact hm.apart

end resumed

/-! ## Stop after stop -/

/-- A stop: the abort, the call of the debugger, its return, and the way back. -/
def StopStep (R : Routines) (M : Mode) (m m' : Cpu) : Prop :=
  ∃ e c c' Q, Aborted R m e ∧ run R.fetch 23 e = some c ∧ Returned M c c' Q ∧ Q.toNat % 4 = 0 ∧
    run R.fetch 6 c' = some m'

/-- The program from `m` on, with a stop wherever it can be interrupted, and with steps of its own
in between, of any kind. `Run R own x m d m'` counts in `d` what its own steps add to register
`x`. -/
inductive Run (R : Routines) (own : Cpu → Cpu → Prop) (x : Phys) (m : Cpu) : Word → Cpu → Prop
  | start : Run R own x m 0#32 m
  | stop {d : Word} {m' m'' : Cpu} {M : Mode} : Run R own x m d m' → Interrupted m' M →
      StopStep R M m' m'' → Run R own x m d m''
  | own {d : Word} {m' m'' : Cpu} : Run R own x m d m' → own m' m'' →
      Run R own x m (d + (m''.regs x - m'.regs x)) m''

section runs

variable {R : Routines} {m m' e : Cpu} {M : Mode} {own : Cpu → Cpu → Prop} {x : Phys} {d : Word}

/-- A stop keeps the registers. -/
theorem regs_of_stopStep (hm : Interrupted m M) (h : StopStep R M m m') (hx : x ≠ .lr .abt) :
    m'.regs x = m.regs x := by
  obtain ⟨e, c, c', Q, he, hrun, hr, hQ, hback⟩ := h
  have hc : Called R m M c := by
    rw [run_calling hm he] at hrun
    rw [← Option.some.inj hrun]
    exact called_calling hm he
  obtain ⟨m₁, hback', hres, -⟩ := run_resumed hm hc hr hQ
  rw [hback'] at hback
  rw [← Option.some.inj hback, hres.regs x hx]

/-- Along a run, a register is changed by the program itself only. -/
theorem regs_of_run (h : Run R own x m d m') (hx : x ≠ .lr .abt) :
    m'.regs x = m.regs x + d := by
  induction h with
  | start => rw [BitVec.add_zero]
  | stop _ hm hstop ih => rw [regs_of_stopStep hm hstop hx, ih]
  | own _ _ ih =>
      rw [← BitVec.add_assoc, ← ih, BitVec.add_comm, BitVec.sub_add_cancel]

/-- **A stop keeps the interrupted program.** The debugger gets its context, on its own stack, and
the program goes on from there; the routines write nothing but the frame and the three words on
the abort stack, and however many stops there are, both stack pointers are where the program has
put them. -/
theorem stop_keeps_program (hm : Interrupted m M) (he : Aborted R m e) :
    (∃ c, run R.fetch 23 e = some c ∧ Called R m M c ∧
      ∀ c' Q, Returned M c c' Q → Q.toNat % 4 = 0 →
        ∃ m', run R.fetch 6 c' = some m' ∧ Resumed m Q m' ∧ Interrupted m' M ∧
          m'.mem = c'.mem) ∧
    ∀ own x d m', x ≠ .lr .abt → Run R own x m d m' → m'.regs x = m.regs x + d := by
  have hc : Called R m M (calling R m M e) := called_calling hm he
  refine ⟨⟨calling R m M e, run_calling hm he, hc, ?_⟩, ?_⟩
  · intro c' Q hr hQ
    obtain ⟨m', hrun, hres, hmem⟩ := run_resumed hm hc hr hQ
    exact ⟨m', hrun, hres, hres.interrupted hm, hmem⟩
  · intro own x d m' hx h
    exact regs_of_run h hx

end runs

/-! ## A program in supervisor mode -/

/-- The routines, one after the other. -/
def sampleCode : List Instr :=
  prefetchAbortHandlerCode 0x8d000018#32 0x8d000100#32 0x8d000060#32 ++ saveContextCode ++
    restoreContextCode

/-- The routines at `0x8d000000`. -/
def sampleRoutines : Routines where
  fetch a :=
    if (a - 0x8d000000#32).toNat % 4 = 0 then sampleCode[(a - 0x8d000000#32).toNat / 4]? else none
  prefetchAbortHandler := 0x8d000000#32
  saveContext := 0x8d000018#32
  restoreContext := 0x8d000060#32
  dbgEventHandler := 0x8d000100#32
  aligned := by decide
  handler_at := by decide
  save_at := by decide
  restore_at := by decide

/-- A program in supervisor mode, with its stack pointer and that of the abort mode. -/
def sampleCpu (sp spAbt : Word) : Cpu where
  regs x := if x = .sp .svc then sp else if x = .sp .abt then spAbt else 0#32
  spsr _ := 0#32
  pc := 0x8d001000#32
  cpsr := 0x13#32
  mem _ := 0

/-- The prefetch abort is taken. -/
def abort (R : Routines) (m : Cpu) : Cpu :=
  { m with
    regs := update m.regs (.lr .abt) (m.pc + 4#32)
    spsr := update m.spsr .abt m.cpsr
    cpsr := abortMode
    pc := R.prefetchAbortHandler }

/-- A prefetch abort does what the specification says. -/
theorem aborted_abort (R : Routines) (m : Cpu) : Aborted R m (abort R m) where
  pc := rfl
  mode := (by decide : modeOf abortMode = some .abt)
  regs := rfl
  spsr := by simp [abort]
  mem := rfl

/-- The debugger sets the `pc` of the context and returns. -/
def returning (M : Mode) (c : Cpu) (Q : Word) : Cpu :=
  { c with
    pc := c.regs (.lr M)
    mem := store32 c.mem (off (c.regs (.sp M)) 64) Q }

/-- A call of the debugger that keeps the registers it has to keep. -/
theorem returned_returning {M : Mode} {c : Cpu} (h : IsArm c.cpsr) (Q : Word) :
    Returned M c (returning M c Q) Q where
  pc := rfl
  mode := rfl
  arm := h
  regs _ _ := rfl
  context := contextAt_store_pc _ _ _

theorem interrupted_sampleCpu : Interrupted (sampleCpu 0x8d0dff00#32 0x8d0e0000#32) .svc where
  mode := by decide
  ne_abt := by decide
  arm := by decide
  sp_aligned := by decide
  abt_aligned := by decide
  apart := by decide

theorem stop_keeps_sample : ∃ c m', run sampleRoutines.fetch 23
      (abort sampleRoutines (sampleCpu 0x8d0dff00#32 0x8d0e0000#32)) = some c ∧
    run sampleRoutines.fetch 6 (returning .svc c 0x8d001004#32) = some m' ∧
    Resumed (sampleCpu 0x8d0dff00#32 0x8d0e0000#32) 0x8d001004#32 m' := by
  obtain ⟨⟨c, hrun, hc, hback⟩, -⟩ :=
    stop_keeps_program interrupted_sampleCpu (aborted_abort sampleRoutines _)
  have harm : IsArm c.cpsr := by
    rw [hc.cpsr]
    decide
  obtain ⟨m', hrun', hres, -⟩ := hback _ _ (returned_returning harm 0x8d001004#32) (by decide)
  exact ⟨c, m', hrun, hrun', hres⟩

/-- The three words on the abort stack may be above the interrupted stack pointer. With one stack
for both modes, `save_context` returns to the breakpoint instead of its caller. From a stack
pointer that is not aligned, nothing is pushed. -/
theorem stop_needs_stacks :
    (((run sampleRoutines.fetch 23
        (abort sampleRoutines (sampleCpu 0x8d0dff00#32 0x8d0e0000#32))).bind
          fun c => run sampleRoutines.fetch 6 (returning .svc c 0x8d001004#32)).map
            fun m' => m'.mem 0x8d0dfffc#32) = some 8#8 ∧
      (sampleCpu 0x8d0dff00#32 0x8d0e0000#32).mem 0x8d0dfffc#32 = 0#8 ∧
      (run sampleRoutines.fetch 20
        (abort sampleRoutines (sampleCpu 0x8d0e0000#32 0x8d0e0000#32))).map Cpu.pc =
          some (sampleCpu 0x8d0e0000#32 0x8d0e0000#32).pc ∧
      (run sampleRoutines.fetch 23
        (abort sampleRoutines (sampleCpu 0x8d0dff02#32 0x8d0e0000#32))).isNone = true ∧
      (run sampleRoutines.fetch 23
        (abort sampleRoutines (sampleCpu 0x8d0dff00#32 0x8d0e0002#32))).isNone = true := by
  decide +kernel

end Hbootdbg.Stop.SavedContext
