import Hbootdbg.Stop.Stepping

/-!
# The debugged program is the program

A program runs on the device while a host plants breakpoints, is told of the stops, reads memory and
registers, plants and removes breakpoints in them and continues. What the program does is what it
does by itself.

* `programStep` — the program by itself; `deviceStep` — the device with a host attached, a whole
  stop at a time.
* `Ignores`, `Undisturbed` — the program does not use the debugger's bytes as data.
* `Harmless`, `StopAllowed` — what the host may do in a stop.
* `Sound` — the invariant of memory; `Sound.served` and `Sound.executed` are its step lemmas, for a
  command and for an instruction.
* `Stands`, `Mirrors` — where the device is in the program: at the instruction itself, or at one of
  the two words of a trampoline.
* `Moves` — what a step can be; `Mirrors.moves` — that it is so; `debugged_simulates` — over runs.
-/

namespace Hbootdbg.Stop

open Hbootdbg.Lib.ByteMem Hbootdbg.Lib.A32Branch Hbootdbg.Lib.A32Run Hbootdbg.Lib.Run
open Hbootdbg.Device Hbootdbg.Table Hbootdbg.Session Hbootdbg.Host

/-! ## The two machines -/

/-- One instruction of the program by itself. A breakpoint instruction of its own is passed over, as
a stop at it is. -/
def programStep (exec : Exec) (s : Context × Memory) : Context × Memory :=
  if isBkpt (load32 s.2 s.1.pc) then (s.1.setPc (s.1.pc + 4#32), s.2)
  else next (processor exec) s.1 s.2

/-- One instruction of the device, or a whole stop: the host sends the commands `cs` and continues.
Source: `dbg.c` `breakpoint_handler` -/
def deviceStep (B : Board) (exec : Exec) (s : Option Dev) (cs : List CmdBytes) : Option Dev := do
  let d ← s
  let r ← d.ctx
  if isBkpt (load32 d.mem r.pc) then
    run (serve B) (some (enter B d r)) (cs ++ [breakpointContinue])
  else
    let e := next (processor exec) r d.mem
    some { d with mem := e.2, ctx := some e.1 }

/-- With the registers `r`, in memories that agree with `L` outside `C`, the word neither depends on
the bytes in `C` nor changes them. -/
structure Ignores (exec : Exec) (C : Set Word) (w : Word) (r : Context) (L : Memory) : Prop where
  registers : ∀ M, Set.EqOn M L Cᶜ → (exec w r M).1 = (exec w r L).1
  memory : ∀ M, Set.EqOn M L Cᶜ → Set.EqOn (exec w r M).2 (exec w r L).2 Cᶜ
  keeps : ∀ M, Set.EqOn M L Cᶜ → Set.EqOn (exec w r M).2 M C

/-- The program is at a word-aligned address outside the object, and does not use the bytes in `C`
as data. -/
structure Undisturbed (B : Board) (exec : Exec) (C : Set Word) (s : Context × Memory) : Prop where
  address : AddressOk B s.1.pc
  ignores : isBkpt (load32 s.2 s.1.pc) = false →
    branchTarget s.1.pc (load32 s.2 s.1.pc) = none →
      Ignores exec C (load32 s.2 s.1.pc) s.1 s.2

/-- A breakpoint can be planted at `a`: its word is in `C`, in range of the trampolines, and neither
reads nor writes the program counter. -/
structure Plantable (B : Board) (exec : Exec) (C : Set Word) (m : Memory) (a : Word) : Prop where
  address : AddressOk B a
  range : InBranchRange B a
  plain : Plain (processor exec) (load32 m a)
  covered : ∀ x, InSpan a 4 x → x ∈ C

/-- A command that is harmless in the memory `m`: a read, an insertion at an address that is active
or plantable, a removal that moves no slot. -/
structure Harmless (B : Board) (exec : Exec) (C : Set Word) (m : Memory) (c : CmdBytes) : Prop where
  cmd : StopCmd c
  notAttach : kind c ≠ some .attach
  insert : kind c = some .insertBreakpoint → Active B m c.addr ∨ Plantable B exec C m c.addr
  remove : kind c = some .removeBreakpoint → RemovesLast B m (.remove c.addr c.bpType)

/-- In a stop, every command is harmless, and leaves the slot of the breakpoint that the device
stopped at as it is. -/
def StopAllowed (B : Board) (exec : Exec) (C : Set Word) (s : Option Dev) (cs : List CmdBytes) :
    Prop :=
  ∀ d ∈ s, ∀ r ∈ d.ctx, isBkpt (load32 d.mem r.pc) = true →
    Guarded (serve B)
      (fun s' c => (∀ d' ∈ s', Harmless B exec C d'.mem c) ∧
        ∀ i ∈ getBreakpoint B d.mem r.pc, KeepsSlot B i r.pc s' c)
      (some (enter B d r)) cs

/-! ## The invariant of memory -/

/-- The memory `m` is `L` with breakpoints in place of words of `C` that run anywhere. -/
structure Sound (B : Board) (exec : Exec) (C : Set Word) (L m : Memory) : Prop where
  tracks : Tracks B L m
  planted : Planted B m
  trampolines : TrampolineOk B m
  address : ∀ e ∈ entries B m, AddressOk B e.address
  range : ∀ e ∈ entries B m, InBranchRange B e.address
  plain : ∀ e ∈ entries B m, Plain (processor exec) e.original
  covered : ∀ e ∈ entries B m, ∀ x, InSpan e.address 4 x → x ∈ C

variable {B : Board} {exec : Exec} {C : Set Word} {L m m' : Memory} {a : Word} {w : Word}
  {d d' : Dev} {r : Context} {c : CmdBytes} {i n : ℕ}

theorem Context.setPc_self (r : Context) : r.setPc r.pc = r := by
  simp [Context.setPc, Context.pc]

theorem setPc_setPc (r : Context) (p q : Word) : (r.setPc p).setPc q = r.setPc q :=
  (processor nop).setPc_setPc r p q

/-- The empty table is sound. -/
theorem sound_dbgInit : Sound B exec C m (dbgInit B m) :=
  ⟨tracks_dbgInit, planted_dbgInit, trampolineOk_dbgInit, by simp, by simp, by simp, by simp⟩

/-- Planting a breakpoint is sound. -/
theorem Sound.inserted (h : Sound B exec C L m) (ha : Plantable B exec C m a)
    (hins : Inserted B m a m') : Sound B exec C L m' := by
  have hap : ∀ e ∈ entries B m, Apart e.address 4 a 4 := fun e he =>
    apart_of_aligned (h.address e he).1 ha.address.1 fun hea => hins.inactive ⟨e, he, hea⟩
  have hall : ∀ {P : Entry → Prop}, (∀ e ∈ entries B m, P e) →
      P ⟨a, load32 m a, cpuGetBranch (originalAt B (bpSize B m).toNat 1) (a + 4#32)⟩ →
        ∀ e ∈ entries B m', P e := fun hold hnew e he => by
    rcases (mem_entries_inserted hins).mp he with he | rfl
    · exact hold e he
    · exact hnew
  exact ⟨h.tracks.inserted ha.address.outside hap hins, h.planted.inserted h.tracks hap hins,
    h.trampolines.inserted ha.address.1 ha.range hins, hall h.address ha.address,
    hall h.range ha.range, hall h.plain ha.plain, hall h.covered ha.covered⟩

/-- Removing the last breakpoint of the table is sound. -/
theorem Sound.removed (h : Sound B exec C L m) (hrem : Removed B m a i m')
    (hlast : i = (bpSize B m).toNat - 1) : Sound B exec C L m' := by
  have hsub : ∀ e ∈ entries B m', e ∈ entries B m := fun e he =>
    ((h.tracks.mem_entries_removed hrem).mp he).1
  exact ⟨h.tracks.removed hrem, h.planted.removed h.tracks hrem,
    (trampolineOk_removed_iff h.trampolines h.tracks.size hrem).mpr hlast,
    fun e he => h.address e (hsub e he), fun e he => h.range e (hsub e he),
    fun e he => h.plain e (hsub e he), fun e he => h.covered e (hsub e he)⟩

/-- A memory with the same table, and the same bytes where the breakpoints are, is as sound. -/
theorem Sound.congr {L' : Memory} (h : Sound B exec C L m) (ht : Tracks B L' m')
    (hent : entries B m' = entries B m)
    (hword : ∀ e ∈ entries B m, load32 m' e.address = load32 m e.address) :
    Sound B exec C L' m' := by
  have hsize : (bpSize B m').toNat = (bpSize B m).toNat := by
    rw [← length_entries, hent, length_entries]
  have hslot : ∀ i < (bpSize B m).toNat, entryAt B m' i = entryAt B m i := fun i hi => by
    have hi' : i < (entries B m').length := by rwa [length_entries, hsize]
    have hi'' : i < (entries B m).length := by rwa [length_entries]
    rw [← getElem_entries hi', ← getElem_entries hi'']
    simp only [hent]
  refine ⟨ht, fun e he => ?_, fun i hi => ?_, hent ▸ h.address, hent ▸ h.range, hent ▸ h.plain,
    hent ▸ h.covered⟩
  · rw [hent] at he
    rw [hword e he]
    exact h.planted e he
  · rw [hsize] at hi
    exact (h.trampolines i hi).congr (hslot i hi)

/-- Entering a stop is sound. -/
theorem Sound.enterStop {p : Word} (h : Sound B exec C L m) :
    Sound B exec C L (enterStop B m p) := by
  refine h.congr h.tracks.enterStop (entries_enterStop h.tracks.size) fun e he => ?_
  exact load32_congr (by decide) fun x hx =>
    enterStop_of_not_inStatus ((h.address e he).outside.not_inSpan hx)

/-- **A harmless command is sound**, and keeps the context and the continue address. -/
theorem Sound.served (h : Sound B exec C L d.mem) (hc : Harmless B exec C d.mem c) :
    ∃ d', serve B (some d) c = some d' ∧ Sound B exec C L d'.mem ∧ d'.ctx = d.ctx ∧
      continueAddress B d'.mem = continueAddress B d.mem := by
  rcases hc.cmd with ⟨hk | hk, -⟩ | hk | hk | hk
  · obtain ⟨d', hd', hm, hctx, -⟩ := serve_insert (B := B) (d := d) hk
    refine ⟨d', hd', ?_⟩
    rw [hm]
    rcases hc.insert hk with hact | hplant
    · have he : (Device.insertBreakpoint B d.mem c.addr c.bpType).1 = d.mem := by
        rw [Device.insertBreakpoint, if_pos (getBreakpoint_isSome_iff.mpr hact)]
      rw [he]
      exact ⟨h, hctx, rfl⟩
    · rcases insertBreakpoint_cases (m := d.mem) hplant.address.outside c.bpType with
        ⟨-, he⟩ | ⟨-, -, he⟩ | ⟨-, hins⟩
      · rw [he]
        exact ⟨h, hctx, rfl⟩
      · rw [he]
        exact ⟨h, hctx, rfl⟩
      · exact ⟨h.inserted hplant hins, hctx, hins.continues⟩
  · obtain ⟨d', hd', hm, hctx, -⟩ := serve_remove (B := B) (d := d) hk
    refine ⟨d', hd', ?_⟩
    rw [hm]
    rcases h.tracks.removeBreakpoint_cases c.addr c.bpType with he | ⟨-, j, hrem⟩
    · rw [he]
      exact ⟨h, hctx, rfl⟩
    · have hact : Active B d.mem c.addr := ⟨_, hrem.mem_entries, hrem.address_eq⟩
      have hlast := (hc.remove hk).resolve_left (not_not_intro hact)
      rw [hrem.found, Option.some.injEq] at hlast
      exact ⟨h.removed hrem hlast, hctx, hrem.continues⟩
  · obtain ⟨d', hd', hm, hctx, -⟩ := serve_read (B := B) (d := d) hk
    rw [← hm] at h ⊢
    exact ⟨d', hd', h, hctx, rfl⟩
  · obtain ⟨d', hd', hm, hctx, -⟩ := serve_getRegisters (B := B) (d := d) hk
    rw [← hm] at h ⊢
    exact ⟨d', hd', h, hctx, rfl⟩
  · exact absurd hk hc.notAttach

/-- Outside `C`, the device's memory is the program's. -/
theorem Sound.eqOn (h : Sound B exec C L m) (hC : ∀ x, InStatus B x → x ∈ C) :
    Set.EqOn m L Cᶜ := fun x hx =>
  h.tracks.frame x (fun hs => hx (hC x hs)) fun e he hin => hx (h.covered e he x hin)

/-- An instruction that ignores `C` leaves the table alone. -/
theorem Sound.entries_executed (h : Sound B exec C L m) (hC : ∀ x, InStatus B x → x ∈ C)
    (hig : Ignores exec C w r L) : entries B (exec w r m).2 = entries B m :=
  entries_congr (fun x hx => hig.keeps m (h.eqOn hC) (hC x hx)) h.tracks.size

/-- **An instruction that ignores `C` is sound.** -/
theorem Sound.executed (h : Sound B exec C L m) (hC : ∀ x, InStatus B x → x ∈ C)
    (hig : Ignores exec C w r L) : Sound B exec C (exec w r L).2 (exec w r m).2 := by
  have hm := hig.keeps m (h.eqOn hC)
  have hL := hig.keeps L (Set.eqOn_refl L _)
  have hent := h.entries_executed hC hig
  have hsize : bpSize B (exec w r m).2 = bpSize B m := bpSize_congr fun x hx => hm (hC x hx)
  refine h.congr ⟨hsize ▸ h.tracks.size, hent ▸ h.tracks.apart, hent ▸ h.tracks.outside,
    fun e he => ?_, fun x hx hall => ?_⟩ hent fun e he =>
      load32_congr (by decide) fun x hx => hm (h.covered e he x hx)
  · rw [hent] at he
    rw [h.tracks.saved e he]
    exact (load32_congr (by decide) fun x hx => hL (h.covered e he x hx)).symm
  · rw [hent] at hall
    by_cases hxC : x ∈ C
    · rw [hm hxC, hL hxC]
      exact h.tracks.frame x hx hall
    · exact hig.memory m (h.eqOn hC) hxC

/-- Without a breakpoint at `a`, the device fetches the word of the program. -/
theorem Sound.load32_eq (h : Sound B exec C L m) (ha : AddressOk B a) (hact : ¬ Active B m a) :
    load32 m a = load32 L a :=
  load32_congr (by decide) fun x hx => h.tracks.frame x (ha.outside.not_inSpan hx) fun e he =>
    (apart_of_aligned ha.1 (h.address e he).1 fun hae => hact ⟨e, he, hae.symm⟩).not_inSpan hx

/-- A device that is not at a breakpoint instruction is not at a breakpoint. -/
theorem Sound.not_active (h : Sound B exec C L m) (hb : isBkpt (load32 m a) = false) :
    ¬ Active B m a := by
  rintro ⟨e, he, rfl⟩
  rw [h.planted e he] at hb
  exact absurd hb (by decide)

/-! ## Where the device is in the program -/

/-- With the program at `a`, the device is at `p`: at the instruction itself, at the first word of a
trampoline, which is the instruction and is followed by a branch to `a + 4`, or at the second one,
which branches to `a`. The number bounds the steps that the device takes before the program takes
its next. -/
inductive Stands (B : Board) (exec : Exec) (L m : Memory) : ℕ → Word → Word → Prop
  /-- At the instruction, in the first word of a trampoline. -/
  | first {i : ℕ} {a : Word} (hi : i < dbgNbrPoints)
      (hw : load32 m (originalAt B i 0) = load32 L a) (hp : Plain (processor exec) (load32 L a))
      (hb : branchTarget (originalAt B i 1) (load32 m (originalAt B i 1)) = some (a + 4#32)) :
      Stands B exec L m 0 (originalAt B i 0) a
  /-- In the program. -/
  | direct (a : Word) : Stands B exec L m 1 a a
  /-- At the branch back to the program. -/
  | second {i : ℕ} {a : Word} (hi : i < dbgNbrPoints)
      (hb : branchTarget (originalAt B i 1) (load32 m (originalAt B i 1)) = some a) :
      Stands B exec L m 2 (originalAt B i 1) a

/-- The device is where the program is: its memory is sound, its program counter stands for that of
the program, and the other registers are the same. -/
structure Mirrors (B : Board) (exec : Exec) (C : Set Word) (n : ℕ) (d : Dev) (r : Context)
    (t : Context × Memory) : Prop where
  ctx : d.ctx = some r
  sound : Sound B exec C t.2 d.mem
  stands : Stands B exec t.2 d.mem n r.pc t.1.pc
  registers : r.setPc t.1.pc = t.1

/-- The table is as before, and nothing has been sent. -/
structure Kept (B : Board) (d d' : Dev) : Prop where
  entries : entries B d'.mem = entries B d.mem
  out : d'.out = d.out

/-- What a step of the device, from where the program is at `t`, can be. -/
inductive Moves (B : Board) (exec : Exec) (C : Set Word) (d : Dev) (t : Context × Memory) :
    ℕ → Dev → Context → Prop
  /-- A stop at a breakpoint, which the device leaves through the trampoline. -/
  | stop {d' : Dev} {r' : Context} (hctx : d.ctx = some t.1)
      (hb : isBkpt (load32 d.mem t.1.pc) = true) (hact : Active B d.mem t.1.pc)
      (h : Mirrors B exec C 0 d' r' t) : Moves B exec C d t 1 d' r'
  /-- A stop at a breakpoint instruction of the program. -/
  | pass {d' : Dev} {r' : Context} (hctx : d.ctx = some t.1)
      (hb : isBkpt (load32 d.mem t.1.pc) = true) (hact : ¬ Active B d.mem t.1.pc)
      (h : Mirrors B exec C 1 d' r' (programStep exec t)) : Moves B exec C d t 1 d' r'
  /-- An instruction of the program. -/
  | direct {d' : Dev} {r' : Context} (hb : isBkpt (load32 d.mem t.1.pc) = false)
      (hkept : Kept B d d') (h : Mirrors B exec C 1 d' r' (programStep exec t)) :
      Moves B exec C d t 1 d' r'
  /-- An instruction of the program, in a trampoline. -/
  | first {d' : Dev} {r' : Context} (hkept : Kept B d d')
      (h : Mirrors B exec C 2 d' r' (programStep exec t)) : Moves B exec C d t 0 d' r'
  /-- The branch back to the program. -/
  | second {d' : Dev} {r' : Context} (hkept : Kept B d d') (h : Mirrors B exec C 1 d' r' t) :
      Moves B exec C d t 2 d' r'

variable {t : Context × Memory} {cs : List CmdBytes}

/-- In the program, all registers are the same. -/
theorem Mirrors.eq_of_pc_eq (h : Mirrors B exec C n d r t) (hpc : r.pc = t.1.pc) : r = t.1 := by
  have hr := h.registers
  rwa [← hpc, Context.setPc_self] at hr

/-- A step of the device at an instruction. -/
theorem deviceStep_instruction (hctx : d.ctx = some r) (hb : isBkpt (load32 d.mem r.pc) = false) :
    deviceStep B exec (some d) cs = some { d with
      mem := (next (processor exec) r d.mem).2
      ctx := some (next (processor exec) r d.mem).1 } := by
  unfold deviceStep
  simp [hctx, hb]

/-- A step of the device at a breakpoint instruction. -/
theorem deviceStep_stop (hctx : d.ctx = some r) (hb : isBkpt (load32 d.mem r.pc) = true) :
    deviceStep B exec (some d) cs =
      serve B (run (serve B) (some (enter B d r)) cs) breakpointContinue := by
  unfold deviceStep
  simp [hctx, hb, run_append]

/-! ## Stops -/

/-- **The commands of a stop are sound**, and the device stays stopped with the same continue
address. -/
theorem Sound.stop (h : Sound B exec C L d.mem)
    (hok : Guarded (serve B) (fun s c => ∀ d' ∈ s, Harmless B exec C d'.mem c)
      (some (enter B d r)) cs) :
    ∃ d', run (serve B) (some (enter B d r)) cs = some d' ∧ Sound B exec C L d'.mem ∧
      d'.ctx = some r ∧ continueAddress B d'.mem = resumeAddress B d.mem r.pc := by
  have hcont : continueAddress B (enter B d r).mem = resumeAddress B d.mem r.pc := by
    rw [enter_mem, continueAddress_enterStop]
  have hfirst : ∃ d', some (enter B d r) = some d' ∧ Sound B exec C L d'.mem ∧
      d'.ctx = some r ∧ continueAddress B d'.mem = resumeAddress B d.mem r.pc :=
    ⟨enter B d r, rfl, h.enterStop, rfl, hcont⟩
  refine hok.run_invariant (P := fun s => ∃ d', s = some d' ∧ Sound B exec C L d'.mem ∧
    d'.ctx = some r ∧ continueAddress B d'.mem = resumeAddress B d.mem r.pc) ?_ hfirst
  rintro s c ⟨d', rfl, hs, hctx, hcont⟩ hc
  obtain ⟨d'', hd'', hs', hctx', hcont'⟩ := hs.served (hc d' rfl)
  exact ⟨d'', hd'', hs', hctx'.trans hctx, hcont'.trans hcont⟩

/-- A stop at a breakpoint is armed. -/
theorem Sound.armed (h : Sound B exec C L d.mem) (hi : getBreakpoint B d.mem r.pc = some i) :
    Armed B L i (load32 L r.pc) r.pc r (enter B d r) := by
  obtain ⟨hlt, hmem, hia⟩ := found_of_getBreakpoint hi
  have hi64 : i < dbgNbrPoints := hlt.trans_le h.tracks.size
  have hslot : entryAt B (enter B d r).mem i = entryAt B d.mem i := entryAt_enterStop hi64
  refine ⟨h.tracks.enterStop, h.enterStop.address, rfl, hi64, ?_, ?_, ?_, rfl⟩
  · rw [hslot, h.tracks.saved _ hmem, hia]
  · rw [hslot, ← hia]
    exact h.trampolines i hlt
  · rw [enter_mem, continueAddress_enterStop, resumeAddress_of_found hi]

/-- What a breakpoint replaced is plain, and in reach of its trampoline. -/
theorem Sound.found (h : Sound B exec C L m) (hi : getBreakpoint B m a = some i) :
    Plain (processor exec) (load32 L a) ∧ InBranchRange B a ∧ ∀ x, InSpan a 4 x → x ∈ C := by
  obtain ⟨-, hmem, hia⟩ := found_of_getBreakpoint hi
  refine ⟨?_, hia ▸ h.range _ hmem, hia ▸ h.covered _ hmem⟩
  rw [← hia, ← h.tracks.saved _ hmem]
  exact h.plain _ hmem

/-- **A stop at a breakpoint ends in its trampoline.** -/
theorem Mirrors.stop (h : Mirrors B exec C n d r t) (hpc : r.pc = t.1.pc)
    (hi : getBreakpoint B d.mem r.pc = some i) (hb : isBkpt (load32 d.mem r.pc) = true)
    (hok : StopAllowed B exec C (some d) cs) :
    ∃ d' r', deviceStep B exec (some d) cs = some d' ∧ Mirrors B exec C 0 d' r' t := by
  obtain ⟨hplain, hreach, -⟩ := h.sound.found hi
  -- the run of the commands keeps both invariants
  have hrun : ∃ d₁, run (serve B) (some (enter B d r)) cs = some d₁ ∧
      Sound B exec C t.2 d₁.mem ∧ Armed B t.2 i (load32 t.2 r.pc) r.pc r d₁ := by
    refine (hok d rfl r h.ctx hb).run_invariant (P := fun s => ∃ d₁, s = some d₁ ∧
      Sound B exec C t.2 d₁.mem ∧ Armed B t.2 i (load32 t.2 r.pc) r.pc r d₁) ?_
      ⟨_, rfl, h.sound.enterStop, h.sound.armed hi⟩
    rintro s c ⟨d₁, rfl, hs, harmed⟩ ⟨hc, hkeeps⟩
    obtain ⟨d₂, hd₂, hs₂, -⟩ := hs.served (hc d₁ rfl)
    obtain ⟨d₃, hd₃, harmed₃⟩ := harmed.step hreach (hc d₁ rfl).cmd (hkeeps i hi)
    obtain rfl : d₂ = d₃ := Option.some.inj (hd₂.symm.trans hd₃)
    exact ⟨d₂, hd₂, hs₂, harmed₃⟩
  obtain ⟨d₁, hd₁, hs₁, harmed⟩ := hrun
  obtain ⟨d₂, hd₂, hm₂, hctx₂, -⟩ :=
    serve_continue (B := B) (c := breakpointContinue) rfl harmed.ctx
  refine ⟨d₂, r.setPc (originalAt B i 0), ?_, ?_⟩
  · rw [deviceStep_stop h.ctx hb, hd₁, hd₂]
  · refine ⟨by rw [hctx₂, harmed.continues], hm₂ ▸ hs₁, ?_, ?_⟩
    · rw [Context.pc_setPc, ← hpc, hm₂]
      exact .first harmed.lt harmed.original hplain harmed.branch
    · rw [setPc_setPc]
      exact h.registers

/-- **A stop at a breakpoint instruction of the program goes on after it.** -/
theorem Mirrors.pass (h : Mirrors B exec C n d r t) (hpc : r.pc = t.1.pc)
    (hact : ¬ Active B d.mem r.pc) (haddr : AddressOk B t.1.pc)
    (hb : isBkpt (load32 d.mem r.pc) = true) (hok : StopAllowed B exec C (some d) cs) :
    ∃ d' r', deviceStep B exec (some d) cs = some d' ∧
      Mirrors B exec C 1 d' r' (programStep exec t) := by
  have hguard := (hok d rfl r h.ctx hb).mono fun s c hc => hc.1
  obtain ⟨d₁, hd₁, hs₁, hctx₁, hcont₁⟩ := h.sound.stop hguard
  obtain ⟨d₂, hd₂, hm₂, hctx₂, -⟩ := serve_continue (B := B) (c := breakpointContinue) rfl hctx₁
  have hresume : resumeAddress B d.mem r.pc = r.pc + 4#32 := resumeAddress_of_not_active hact
  have hword : load32 d.mem r.pc = load32 t.2 t.1.pc := by
    rw [hpc] at hact ⊢
    exact h.sound.load32_eq haddr hact
  have hstep : programStep exec t = (t.1.setPc (t.1.pc + 4#32), t.2) := by
    unfold programStep
    rw [if_pos (hword ▸ hb)]
  refine ⟨d₂, r.setPc (r.pc + 4#32), ?_, ?_⟩
  · rw [deviceStep_stop h.ctx hb, hd₁, hd₂]
  · rw [hstep, h.eq_of_pc_eq hpc]
    rw [hcont₁, hresume, h.eq_of_pc_eq hpc] at hctx₂
    exact ⟨hctx₂, hm₂ ▸ hs₁, .direct _, Context.setPc_self _⟩

/-! ## One step -/

theorem next_of_branchTarget_none {m : Memory} (hbr : branchTarget r.pc (load32 m r.pc) = none) :
    next (processor exec) r m = exec (load32 m r.pc) r m := by
  unfold next
  simp only [processor, hbr]

theorem next_of_branchTarget {m : Memory} {a : Word}
    (hbr : branchTarget r.pc (load32 m r.pc) = some a) :
    next (processor exec) r m = (r.setPc a, m) := by
  unfold next
  simp only [processor, hbr]

/-- A plain word leaves the program counter at the next word. -/
theorem plain_pc (hp : Plain (processor exec) w) (r : Context) (m : Memory) :
    (exec w r m).1 = ((exec w r m).1).setPc (r.pc + 4#32) := by
  have he := hp.exec r r.pc m
  simp only [processor] at he
  rw [Context.setPc_self] at he
  exact congrArg Prod.fst he

/-- **In the program**, where there is no breakpoint, the device does what the program does. -/
theorem Mirrors.step_direct (hC : ∀ x, InStatus B x → x ∈ C) (h : Mirrors B exec C n d r t)
    (hpc : r.pc = t.1.pc) (hu : Undisturbed B exec C t) (hb : isBkpt (load32 d.mem r.pc) = false) :
    ∃ d' r', deviceStep B exec (some d) cs = some d' ∧ Kept B d d' ∧
      Mirrors B exec C 1 d' r' (programStep exec t) := by
  obtain rfl := h.eq_of_pc_eq hpc
  have hword : load32 d.mem t.1.pc = load32 t.2 t.1.pc :=
    h.sound.load32_eq hu.address (h.sound.not_active hb)
  have hb' : isBkpt (load32 t.2 t.1.pc) = false := hword ▸ hb
  have hprog : programStep exec t = next (processor exec) t.1 t.2 := by
    unfold programStep
    simp [hb']
  refine ⟨_, (next (processor exec) t.1 d.mem).1, deviceStep_instruction h.ctx hb, ?_⟩
  rw [hprog]
  cases hbr : branchTarget t.1.pc (load32 t.2 t.1.pc) with
  | some a =>
      have hbrd : branchTarget t.1.pc (load32 d.mem t.1.pc) = some a := by rw [hword, hbr]
      rw [next_of_branchTarget hbr, next_of_branchTarget hbrd]
      exact ⟨⟨rfl, rfl⟩, rfl, h.sound, .direct _, Context.setPc_self _⟩
  | none =>
      have hbrd : branchTarget t.1.pc (load32 d.mem t.1.pc) = none := by rw [hword, hbr]
      have hig := hu.ignores hb' hbr
      rw [next_of_branchTarget_none hbr, next_of_branchTarget_none hbrd, hword,
        hig.registers _ (h.sound.eqOn hC)]
      exact ⟨⟨h.sound.entries_executed hC hig, rfl⟩, rfl, h.sound.executed hC hig, .direct _,
        Context.setPc_self _⟩

/-- **In the first word of a trampoline**, the device does what the program does, and goes on at the
second. -/
theorem Mirrors.step_first (hC : ∀ x, InStatus B x → x ∈ C) (h : Mirrors B exec C n d r t)
    (hpc : r.pc = originalAt B i 0) (hi : i < dbgNbrPoints)
    (hw : load32 d.mem (originalAt B i 0) = load32 t.2 t.1.pc)
    (hp : Plain (processor exec) (load32 t.2 t.1.pc))
    (hbr : branchTarget (originalAt B i 1) (load32 d.mem (originalAt B i 1)) =
      some (t.1.pc + 4#32)) (hu : Undisturbed B exec C t) :
    ∃ d' r', deviceStep B exec (some d) cs = some d' ∧ Kept B d d' ∧
      Mirrors B exec C 2 d' r' (programStep exec t) := by
  have hwr : load32 d.mem r.pc = load32 t.2 t.1.pc := by rw [hpc, hw]
  have hb : isBkpt (load32 d.mem r.pc) = false := by rw [hwr, hp.not_bkpt]
  have hnone : ∀ p, branchTarget p (load32 t.2 t.1.pc) = none := fun p => if_neg hp.not_branch
  have hig := hu.ignores hp.not_bkpt (hnone _)
  have hprog : programStep exec t = exec (load32 t.2 t.1.pc) t.1 t.2 := by
    unfold programStep
    rw [if_neg (by simp [hp.not_bkpt]), next_of_branchTarget_none (hnone _)]
  -- the instruction does the same in the slot, but for the program counter
  have hr : r = t.1.setPc r.pc := by
    rw [← h.registers, setPc_setPc, Context.setPc_self]
  have hexec : exec (load32 t.2 t.1.pc) r d.mem =
      ((exec (load32 t.2 t.1.pc) t.1 t.2).1.setPc (originalAt B i 1),
        (exec (load32 t.2 t.1.pc) t.1 d.mem).2) := by
    have he := hp.exec t.1 r.pc d.mem
    simp only [processor] at he
    rw [← hr, hig.registers _ (h.sound.eqOn hC), hpc, ← originalAt_one] at he
    exact he
  have hdev : next (processor exec) r d.mem = exec (load32 t.2 t.1.pc) r d.mem := by
    rw [next_of_branchTarget_none (by rw [hwr, hnone]), hwr]
  -- the branch back is not written
  have hback : load32 (exec (load32 t.2 t.1.pc) t.1 d.mem).2 (originalAt B i 1) =
      load32 d.mem (originalAt B i 1) :=
    load32_congr (by decide) fun x hx =>
      hig.keeps _ (h.sound.eqOn hC) (hC x (inStatus_of_trampoline hi (by decide) hx))
  have hpc' : (exec (load32 t.2 t.1.pc) t.1 t.2).1.pc = t.1.pc + 4#32 := by
    rw [plain_pc hp, Context.pc_setPc]
  refine ⟨_, (exec (load32 t.2 t.1.pc) t.1 t.2).1.setPc (originalAt B i 1),
    deviceStep_instruction h.ctx hb, ?_⟩
  rw [hdev, hexec, hprog]
  refine ⟨⟨h.sound.entries_executed hC hig, rfl⟩, rfl, h.sound.executed hC hig, ?_, ?_⟩
  · rw [Context.pc_setPc, hpc']
    refine .second hi ?_
    rw [hback, hbr]
  · rw [setPc_setPc, Context.setPc_self]

/-- **At the branch back**, the device returns to the program. -/
theorem Mirrors.step_second (h : Mirrors B exec C n d r t) (hpc : r.pc = originalAt B i 1)
    (hbr : branchTarget (originalAt B i 1) (load32 d.mem (originalAt B i 1)) = some t.1.pc) :
    ∃ d' r', deviceStep B exec (some d) cs = some d' ∧ Kept B d d' ∧
      Mirrors B exec C 1 d' r' t := by
  rw [← hpc] at hbr
  refine ⟨_, r.setPc t.1.pc, deviceStep_instruction h.ctx (not_isBkpt_of_branch hbr), ?_⟩
  rw [next_of_branchTarget hbr, h.registers]
  exact ⟨⟨rfl, rfl⟩, rfl, h.sound, .direct _, Context.setPc_self _⟩

/-- **One step of the device.** -/
theorem Mirrors.moves (hC : ∀ x, InStatus B x → x ∈ C) (h : Mirrors B exec C n d r t)
    (hu : Undisturbed B exec C t) (hok : StopAllowed B exec C (some d) cs) :
    ∃ d' r', deviceStep B exec (some d) cs = some d' ∧ Moves B exec C d t n d' r' := by
  have hstands := h.stands
  generalize hp : r.pc = p at hstands
  generalize ha : t.1.pc = a at hstands
  cases hstands with
  | first hi hw hpl hbr =>
      obtain ⟨d', r', hd', hkept, h'⟩ :=
        h.step_first hC hp hi (ha ▸ hw) (ha ▸ hpl) (ha ▸ hbr) hu
      exact ⟨d', r', hd', .first hkept h'⟩
  | second hi hbr =>
      obtain ⟨d', r', hd', hkept, h'⟩ := h.step_second hp (ha ▸ hbr)
      exact ⟨d', r', hd', .second hkept h'⟩
  | direct =>
      have hpc : r.pc = t.1.pc := hp.trans ha.symm
      obtain rfl := h.eq_of_pc_eq hpc
      cases hb : isBkpt (load32 d.mem t.1.pc) with
      | false =>
          obtain ⟨d', r', hd', hkept, h'⟩ := h.step_direct hC hpc hu hb
          exact ⟨d', r', hd', .direct hb hkept h'⟩
      | true =>
          cases hi : getBreakpoint B d.mem t.1.pc with
          | some i =>
              obtain ⟨d', r', hd', h'⟩ := h.stop hpc hi hb hok
              exact ⟨d', r', hd', .stop h.ctx hb (active_of_getBreakpoint hi) h'⟩
          | none =>
              have hact := getBreakpoint_eq_none_iff.mp hi
              obtain ⟨d', r', hd', h'⟩ := h.pass hpc hact hu.address hb hok
              exact ⟨d', r', hd', .pass h.ctx hb hact h'⟩

/-- A step of the device is a step of the program, or brings one nearer. -/
theorem Moves.progress {d' : Dev} {r' : Context} (h : Moves B exec C d t n d' r') :
    (∃ k ≤ 2, Mirrors B exec C k d' r' (programStep exec t)) ∨
      ∃ k < n, Mirrors B exec C k d' r' t := by
  cases h with
  | stop _ _ _ h => exact Or.inr ⟨0, by decide, h⟩
  | pass _ _ _ h => exact Or.inl ⟨1, by decide, h⟩
  | direct _ _ h => exact Or.inl ⟨1, by decide, h⟩
  | first _ h => exact Or.inl ⟨2, le_rfl, h⟩
  | second _ h => exact Or.inr ⟨1, by decide, h⟩

/-! ## Runs -/

/-- **The debugged program is the program.** However many stops there are and whatever harmless
commands the host sends in them, the device is always where the program by itself is after some
number of instructions: with the same registers, but for a program counter that stands for the
program's, and with the same memory outside the object and the active words. At most two of three
steps of the device are the debugger's. -/
theorem debugged_simulates (B : Board) (exec : Exec) (C : Set Word) (L : Memory) (d : Dev)
    (r : Context) (css : List (List CmdBytes)) (hC : ∀ x, InStatus B x → x ∈ C)
    (hctx : d.ctx = some r) (hsound : Sound B exec C L d.mem)
    (hprog : ∀ j < css.length, Undisturbed B exec C ((programStep exec)^[j] (r, L)))
    (hok : Guarded (deviceStep B exec) (StopAllowed B exec C) (some d) css) :
    ∃ d' r' t j, run (deviceStep B exec) (some d) css = some d' ∧ d'.ctx = some r' ∧
      t = (programStep exec)^[j] (r, L) ∧ r'.setPc t.1.pc = t.1 ∧
      (∃ k, Stands B exec t.2 d'.mem k r'.pc t.1.pc ∧ css.length + k ≤ 3 * j + 1) ∧
      j ≤ css.length ∧
      ∀ x, ¬ InStatus B x → (∀ e ∈ entries B d'.mem, ¬ InSpan e.address 4 x) →
        d'.mem x = t.2 x := by
  have hstart : ∃ d' r', some d = some d' ∧ Mirrors B exec C 1 d' r' (r, L) :=
    ⟨d, r, rfl, hctx, hsound, .direct _, Context.setPc_self r⟩
  have hrun := hok.stutter (programStep exec)
    (fun n s t => ∃ d' r', s = some d' ∧ Mirrors B exec C n d' r' t) (Undisturbed B exec C) 2 ?_
    hstart hprog
  · obtain ⟨k, j, ⟨d', r', hd', h'⟩, hj, hle⟩ := hrun
    exact ⟨d', r', _, j, hd', h'.ctx, rfl, h'.registers, ⟨k, h'.stands, by omega⟩, hj,
      h'.sound.tracks.frame⟩
  · rintro n s t cs ⟨d', r', rfl, h⟩ hu hcs
    obtain ⟨d'', r'', hd'', hmoves⟩ := h.moves hC hu hcs
    rcases hmoves.progress with ⟨k, hk, h'⟩ | ⟨k, hk, h'⟩
    · exact Or.inl ⟨k, hk, d'', r'', hd'', h'⟩
    · exact Or.inr ⟨k, hk, d'', r'', hd'', h'⟩

/-! ## Examples -/

/-- A memory full of `mov r0, r0`. -/
def nopMemory : Memory := fun x => byteOf 0xe1a00000#32 (x.toNat % 4)

/-- The object, and the instructions at `0x8D001000` and `0x8D001004`. -/
def codeSample : Set Word :=
  {x | InStatus Board.sample x ∨ InSpan 0x8D001000#32 4 x ∨ InSpan 0x8D001004#32 4 x}

/-- The device that is about to execute its breakpoint. -/
def runningSample : Dev := { nopSample with ctx := some contextSample }

theorem sound_runningSample :
    Sound Board.sample nop codeSample nopMemory runningSample.mem := by
  have hempty : Sound Board.sample nop codeSample nopMemory (dbgInit Board.sample nopMemory) :=
    sound_dbgInit
  have hword : load32 (dbgInit Board.sample nopMemory) 0x8D001000#32 = 0xe1a00000#32 := by
    decide +kernel
  dsimp only [runningSample, nopSample, applyOp]
  refine hempty.inserted ⟨by decide, by decide +kernel, ?_, fun x hx => Or.inr (Or.inl hx)⟩
    (inserted_of_room (t := 0#8) (AddressOk.outside (by decide)) not_active_dbgInit
      (by decide +kernel))
  rw [hword]
  exact plain_nop (by decide) (by decide)

/-- In the first of four steps, a stop, the host plants the breakpoint of the next stop. -/
theorem stopAllowed_sample : Guarded (deviceStep Board.sample nop)
    (StopAllowed Board.sample nop codeSample) (some runningSample)
    [[Host.insertBreakpoint 0x8D001004#32], [], [], []] := by
  have hnil : ∀ s, StopAllowed Board.sample nop codeSample s [] := fun s d _ r _ _ => trivial
  refine ⟨?_, hnil _, hnil _, hnil _, trivial⟩
  rintro d hd r hr -
  obtain rfl : runningSample = d := Option.some.inj hd
  obtain rfl : contextSample = r := Option.some.inj hr
  have hkeeps : ∀ i ∈ getBreakpoint Board.sample runningSample.mem contextSample.pc,
      KeepsSlot Board.sample i contextSample.pc
        (some (enter Board.sample runningSample contextSample))
        (Host.insertBreakpoint 0x8D001004#32) := by decide +kernel
  have hword : load32 (enter Board.sample runningSample contextSample).mem 0x8D001004#32 =
      0xe1a00000#32 := by decide +kernel
  refine ⟨⟨?_, hkeeps⟩, trivial⟩
  rintro d' hd'
  obtain rfl : enter Board.sample runningSample contextSample = d' := Option.some.inj hd'
  refine ⟨by decide, by decide, fun _ => Or.inr ?_, fun hk => absurd hk (by decide)⟩
  rw [addr_insertBreakpoint]
  refine ⟨by decide, by decide +kernel, ?_, fun x hx => Or.inr (Or.inr hx)⟩
  rw [hword]
  exact plain_nop (by decide) (by decide)

/-- After a stop, the two words of the trampoline and the next stop, one instruction of the program
has been executed. -/
theorem debugged_simulates_sample :
    ∃ d' r' t j, run (deviceStep Board.sample nop) (some runningSample)
        [[Host.insertBreakpoint 0x8D001004#32], [], [], []] = some d' ∧ d'.ctx = some r' ∧
      t = (programStep nop)^[j] (contextSample, nopMemory) ∧ r'.setPc t.1.pc = t.1 ∧
      (∃ k, Stands Board.sample nop t.2 d'.mem k r'.pc t.1.pc ∧ 4 + k ≤ 3 * j + 1) ∧ j ≤ 4 ∧
      ∀ x, ¬ InStatus Board.sample x →
        (∀ e ∈ entries Board.sample d'.mem, ¬ InSpan e.address 4 x) → d'.mem x = t.2 x := by
  have haddr : ∀ j < 4, AddressOk Board.sample
      ((programStep nop)^[j] (contextSample, nopMemory)).1.pc := by decide +kernel
  exact debugged_simulates Board.sample nop codeSample nopMemory runningSample contextSample
    [[Host.insertBreakpoint 0x8D001004#32], [], [], []] (fun x hx => Or.inl hx) rfl
    sound_runningSample
    (fun j hj => ⟨haddr j hj, fun _ _ => ⟨fun _ _ => rfl, fun _ h => h, fun _ _ _ _ => rfl⟩⟩)
    stopAllowed_sample

end Hbootdbg.Stop
