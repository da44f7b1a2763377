import Hbootdbg.Stop.Resume

/-!
# Stops inside stops

`breakpoint_handler` is entered again while it serves a stop, when `CMD_CALL` runs code with a
breakpoint or `CMD_BREAKPOINT` runs its own `bkpt`. The resume address of a stop is in the one
global `status.continue_address`, which every entry overwrites.

* `Site` — where a stop was entered: its `pc`, and the slot that `get_breakpoint` found for it.
  `Site.resume` is the continue address of the stop, as `breakpoint_handler` computes it.
* `Frame`, `Machine`, `Event` — the stops being served, innermost first, and what can happen: a
  stop is entered, the innermost one serves a command, code runs, the code under a stop returns.
* `step` — the transition; `none` where an event cannot happen.
* `ContinuesOwn` — continuing the innermost stop now resumes at the address computed when that
  stop was entered.
* `LastIsTop` — the guard: a stop that is served again after code ran under it has the same site
  as the stop entered last, and no command changes the continue address.
* `Consistent` — the invariant: the continue address is the one of the stop entered last, and code
  runs under every stop but the innermost.
* `continuesOwn_throughout` — over runs of any nesting depth, in both directions. No assumption on
  the table is made: where it does not change, the same site is the same `pc`
  (`Site.eq_of_pc_eq`).
-/

namespace Hbootdbg.Stop

open Hbootdbg.Lib.ByteMem Hbootdbg.Lib.Run Hbootdbg.Device Hbootdbg.Table Hbootdbg.Session

/-- Where a stop was entered. -/
structure Site where
  /-- The `pc` of the context. -/
  pc : Word
  /-- `get_breakpoint (pc)`. -/
  slot : Option ℕ
  deriving DecidableEq

/-- The site of a stop at `pc`. -/
def Site.of (B : Board) (m : Memory) (pc : Word) : Site := ⟨pc, getBreakpoint B m pc⟩

/-- The continue address of a stop: the trampoline of its own breakpoint, or its `pc` plus four.
Source: `dbg.c` `breakpoint_handler` -/
def Site.resume (B : Board) (t : Site) : Word :=
  match t.slot with
  | none => t.pc + 4#32
  | some i => originalAt B i 0

/-- Two sites that share their trampoline, or their `pc` where there is none. -/
def Site.Same (t u : Site) : Prop := t.slot = u.slot ∧ (t.slot = none → t.pc = u.pc)

instance (t u : Site) : Decidable (t.Same u) := inferInstanceAs (Decidable (_ ∧ (_ → _)))

/-- A stop that is being served. -/
structure Frame where
  /-- Its context. -/
  ctx : Context
  /-- Where it was entered. -/
  site : Site
  /-- Code runs under it: a `CMD_CALL` or a `CMD_BREAKPOINT` has not returned. -/
  running : Bool

/-- The device, with its stops. -/
structure Machine where
  /-- Memory. -/
  mem : Memory
  /-- What left the device. -/
  out : List Out
  /-- The stops being served, innermost first. -/
  stack : List Frame
  /-- Where the last stop was entered. -/
  last : Site

/-- What can happen to a device. -/
inductive Event
  /-- A `bkpt` is executed: a stop is entered. -/
  | enter (ctx : Context)
  /-- The innermost stop serves a command. -/
  | command (c : CmdBytes)
  /-- Running code leaves this memory. -/
  | code (m : Memory)
  /-- The code that runs under the innermost stop returns to its handler. -/
  | ret

/-- Code is running: there is no stop, or code runs under the innermost one. -/
def Machine.running (s : Machine) : Bool := s.stack.head?.all Frame.running

/-- A command, served by the stop `f` under which no code runs. `CMD_CALL` starts code, whose
effects are the events that follow; `__fastboot_reboot` does not return.
Source: `dbg.c` `breakpoint_handler`, `cmd_dispatcher` -/
def Machine.command (B : Board) (s : Machine) (f : Frame) (rest : List Frame) (c : CmdBytes) :
    Option Machine :=
  match kind c with
  | some .call =>
      some { s with
        stack := { f with running := true } :: rest
        out := s.out ++ [.call c.addr (c.arg 0) (c.arg 1) (c.arg 2) (c.arg 3)] }
  | some .fastbootReboot => none
  | k =>
      (serve B (some ⟨s.mem, c, some f.ctx, s.out⟩) c).map fun d =>
        { s with
          mem := d.mem
          out := d.out
          stack :=
            if k = some .breakpointContinue ∨ k = some .detach then rest
            else if k = some .breakpoint then { f with running := true } :: rest
            else f :: rest }

/-- One event. -/
def step (B : Board) (s : Option Machine) (e : Event) : Option Machine :=
  s.bind fun s =>
    match e, s.stack with
    | .enter ctx, stack =>
        if s.running then
          some { s with
            mem := enterStop B s.mem ctx.pc
            stack := ⟨ctx, .of B s.mem ctx.pc, false⟩ :: stack
            last := .of B s.mem ctx.pc }
        else none
    | .command c, f :: rest => if f.running then none else s.command B f rest c
    | .command _, [] => none
    | .code m, _ => if s.running then some { s with mem := m } else none
    | .ret, f :: rest =>
        if f.running then some { s with stack := { f with running := false } :: rest } else none
    | .ret, [] => none

/-- Continuing the innermost stop now, if it is waiting for a command, resumes at its own continue
address. -/
def ContinuesOwn (B : Board) (s : Option Machine) : Prop :=
  ∃ m, s = some m ∧ ∀ f rest, m.stack = f :: rest → f.running = false →
    ∀ c, kind c = some .breakpointContinue →
      ∃ d ctx, serve B (some ⟨m.mem, c, some f.ctx, m.out⟩) c = some d ∧ d.ctx = some ctx ∧
        ctx.pc = f.site.resume B

/-- The bytes of the object `status` are the same. -/
def StatusKept (B : Board) (m m' : Memory) : Prop :=
  ∀ o < sizeofStatus, m' (off B.status o) = m (off B.status o)

/-- Running code leaves the object `status` alone. -/
def Keeps (B : Board) (m m' : Memory) : Event → Prop
  | .code _ => StatusKept B m m'
  | .command _ | .enter _ | .ret => True

instance (B : Board) (m m' : Memory) : DecidablePred (Keeps B m m')
  | .code _ => inferInstanceAs (Decidable (∀ o < sizeofStatus, _))
  | .command _ | .enter _ | .ret => inferInstanceAs (Decidable True)

/-- The event can happen, and running code leaves the object alone. -/
def Permitted (B : Board) (s : Option Machine) (e : Event) : Prop :=
  (step B s e).isSome ∧ ∀ m ∈ s, ∀ m' ∈ step B s e, Keeps B m.mem m'.mem e

instance (B : Board) (s : Option Machine) : DecidablePred (Permitted B s) := fun e =>
  inferInstanceAs (Decidable (_ ∧ ∀ m ∈ s, ∀ m' ∈ step B s e, _))

/-- For an event that takes `s` to `o`: a stop that is served again has the site of the stop
entered last, and a command leaves the continue address unchanged. -/
def Allows (B : Board) (s : Machine) (o : Option Machine) : Event → Prop
  | .ret => ∀ f ∈ s.stack.head?, s.last.Same f.site
  | .command _ => ∀ s' ∈ o, continueAddress B s'.mem = continueAddress B s.mem
  | .enter _ | .code _ => True

instance (B : Board) (s : Machine) (o : Option Machine) : DecidablePred (Allows B s o)
  | .ret => inferInstanceAs (Decidable (∀ f ∈ s.stack.head?, _))
  | .command _ => inferInstanceAs (Decidable (∀ s' ∈ o, _))
  | .enter _ | .code _ => inferInstanceAs (Decidable True)

/-- The guard on an event. -/
def LastIsTop (B : Board) (s : Option Machine) (e : Event) : Prop :=
  ∀ m ∈ s, Allows B m (step B s e) e

instance (B : Board) (s : Option Machine) : DecidablePred (LastIsTop B s) := fun _ =>
  inferInstanceAs (Decidable (∀ m ∈ s, _))

/-! ## Sites -/

variable {B : Board} {m m' : Memory} {s s' : Machine}

/-- The same site has the same continue address. -/
theorem Site.Same.resume_eq {t u : Site} (h : t.Same u) : t.resume B = u.resume B := by
  obtain ⟨hslot, hpc⟩ := h
  unfold Site.resume
  cases ht : t.slot with
  | none => simp only [← hslot, ht, hpc ht]
  | some i => simp only [← hslot, ht]

/-- While the table does not change, the same `pc` is the same site. -/
theorem Site.eq_of_pc_eq (hsize : bpSize B m' = bpSize B m) (hent : entries B m' = entries B m)
    (pc : Word) : Site.of B m' pc = Site.of B m pc := by
  have haddr : ∀ i < (bpSize B m).toNat, bpAddress B m' i = bpAddress B m i := by
    intro i hi
    have h1 : i < (entries B m').length := by
      rw [length_entries, hsize]
      exact hi
    have h2 : i < (entries B m).length := by rwa [length_entries]
    have he : (entries B m')[i] = (entries B m)[i] := by simp only [hent]
    rw [getElem_entries, getElem_entries] at he
    exact congrArg Entry.address he
  unfold Site.of getBreakpoint
  rw [hsize]
  congr 1
  refine List.find?_congr fun i hi => ?_
  rw [haddr i (List.mem_range.mp hi)]

/-- A site whose slot is in the table and whose `pc` is not in the object. -/
def Site.Outside (B : Board) (t : Site) : Prop :=
  ¬ InStatus B t.pc ∧ ∀ i, t.slot = some i → i < dbgNbrPoints

/-- `pc + 4` is the address of a trampoline only if `pc` is a field of the table. -/
theorem inStatus_of_add_four {pc : Word} {i : ℕ} (hi : i < dbgNbrPoints)
    (h : pc + 4#32 = originalAt B i 0) : InStatus B pc := by
  have hpc : pc = addressAt B i := by
    have h4 : originalAt B i 0 = addressAt B i + 4#32 := by
      unfold originalAt addressAt off
      rw [BitVec.add_assoc, ← BitVec.ofNat_add]
    rw [h4] at h
    exact (BitVec.add_left_inj 4#32).mp h
  unfold dbgNbrPoints at hi
  unfold InStatus InSpan sizeofStatus
  rw [hpc, addressAt, toNat_off_sub] <;> unfold bpOffset sizeofBreakpoint <;> omega

/-- Two slots have different trampolines. -/
theorem slot_eq_of_originalAt_eq {i j : ℕ} (hi : i < dbgNbrPoints) (hj : j < dbgNbrPoints)
    (h : originalAt B i 0 = originalAt B j 0) : i = j := by
  unfold dbgNbrPoints at hi hj
  have hoff := off_injective B.status (by unfold bpOffset sizeofBreakpoint; omega)
    (by unfold bpOffset sizeofBreakpoint; omega) h
  unfold bpOffset sizeofBreakpoint at hoff
  omega

/-- **Stops outside the object with the same continue address have the same site.** -/
theorem Site.same_of_resume_eq {t u : Site} (ht : t.Outside B) (hu : u.Outside B)
    (h : t.resume B = u.resume B) : t.Same u := by
  unfold Site.resume at h
  unfold Site.Same
  cases hts : t.slot with
  | none =>
      cases hus : u.slot with
      | none =>
          simp only [hts, hus] at h
          exact ⟨rfl, fun _ => (BitVec.add_left_inj 4#32).mp h⟩
      | some j =>
          simp only [hts, hus] at h
          exact absurd (inStatus_of_add_four (hu.2 j hus) h) ht.1
  | some i =>
      cases hus : u.slot with
      | none =>
          simp only [hts, hus] at h
          exact absurd (inStatus_of_add_four (ht.2 i hts) h.symm) hu.1
      | some j =>
          simp only [hts, hus] at h
          obtain rfl := slot_eq_of_originalAt_eq (ht.2 i hts) (hu.2 j hus) h
          exact ⟨rfl, fun hc => by cases hc⟩

/-! ## What an event can do -/

/-- **How a command can end**: the stop is left, or code runs under it, or it waits for the next
command. In the first two cases memory is as it was. -/
theorem command_cases {f : Frame} {rest : List Frame} {c : CmdBytes}
    (h : s.command B f rest c = some s') :
    s'.last = s.last ∧
      ((s'.mem = s.mem ∧ (s'.stack = rest ∨ s'.stack = { f with running := true } :: rest)) ∨
        s'.stack = f :: rest) := by
  unfold Machine.command at h
  split at h
  · cases h
    exact ⟨rfl, Or.inl ⟨rfl, Or.inr rfl⟩⟩
  · cases h
  · obtain ⟨d, hd, rfl⟩ := Option.map_eq_some_iff.mp h
    refine ⟨rfl, ?_⟩
    by_cases hexit : kind c = some .breakpointContinue ∨ kind c = some .detach
    · left
      refine ⟨?_, Or.inl (if_pos hexit)⟩
      rcases hexit with hk | hk
      · obtain ⟨d', hd', hm, -⟩ := serve_continue (B := B)
          (d := ⟨s.mem, c, some f.ctx, s.out⟩) hk rfl
        obtain rfl := Option.some.inj (hd.symm.trans hd')
        exact hm
      · obtain ⟨d', hd', hm, -⟩ := serve_detach (B := B) (d := ⟨s.mem, c, some f.ctx, s.out⟩) hk
        obtain rfl := Option.some.inj (hd.symm.trans hd')
        exact hm
    · by_cases hk : kind c = some .breakpoint
      · left
        refine ⟨?_, Or.inr ((if_neg hexit).trans (if_pos hk))⟩
        obtain ⟨d', hd', hm, -⟩ := serve_breakpoint (B := B)
          (d := ⟨s.mem, c, some f.ctx, s.out⟩) hk
        obtain rfl := Option.some.inj (hd.symm.trans hd')
        exact hm
      · exact Or.inr ((if_neg hexit).trans (if_neg hk))

/-- A command is served by the innermost stop, under which no code runs. -/
theorem step_command {c : CmdBytes} (h : step B (some s) (.command c) = some s') :
    ∃ f rest, s.stack = f :: rest ∧ f.running = false ∧ s.command B f rest c = some s' := by
  cases hst : s.stack with
  | nil => simp [step, hst] at h
  | cons f rest =>
      simp only [step, Option.bind_some, hst] at h
      split_ifs at h with hf
      exact ⟨f, rest, rfl, by simpa using hf, h⟩

/-- Code returns to the innermost stop. -/
theorem step_ret (h : step B (some s) .ret = some s') :
    ∃ f rest, s.stack = f :: rest ∧ f.running = true ∧
      s' = { s with stack := { f with running := false } :: rest } := by
  cases hst : s.stack with
  | nil => simp [step, hst] at h
  | cons f rest =>
      simp only [step, Option.bind_some, hst] at h
      split_ifs at h with hf
      exact ⟨f, rest, rfl, hf, (Option.some.inj h).symm⟩

/-- A stop is entered by running code. -/
theorem step_enter {ctx : Context} (h : step B (some s) (.enter ctx) = some s') :
    s.running = true ∧ s' = { s with
      mem := enterStop B s.mem ctx.pc
      stack := ⟨ctx, .of B s.mem ctx.pc, false⟩ :: s.stack
      last := .of B s.mem ctx.pc } := by
  simp only [step, Option.bind_some] at h
  split_ifs at h with hr
  exact ⟨hr, (Option.some.inj h).symm⟩

/-- Running code changes memory. -/
theorem step_code (h : step B (some s) (.code m) = some s') :
    s.running = true ∧ s' = { s with mem := m } := by
  simp only [step, Option.bind_some] at h
  split_ifs at h with hr
  exact ⟨hr, (Option.some.inj h).symm⟩

theorem StatusKept.eq (h : StatusKept B m m') {x : Word} (hx : InStatus B x) : m' x = m x := by
  have := h _ hx
  rwa [off_sub_self] at this

/-- A permitted event leads somewhere. -/
theorem Permitted.next {e : Event} (h : Permitted B (some s) e) :
    ∃ s', step B (some s) e = some s' ∧ Keeps B s.mem s'.mem e := by
  obtain ⟨s', hs'⟩ := Option.isSome_iff_exists.mp h.1
  exact ⟨s', hs', h.2 s rfl s' hs'⟩

/-! ## The invariant -/

/-- What holds of the stops of a device, whether they continue right or not. -/
structure Consistent (B : Board) (s : Machine) : Prop where
  below : ∀ f ∈ s.stack.tail, f.running = true
  last : s.stack ≠ [] → continueAddress B s.mem = s.last.resume B

/-- A stop that waits for a command has its continue address in the global. -/
def Own (B : Board) (s : Machine) : Prop :=
  ∀ f rest, s.stack = f :: rest → f.running = false → continueAddress B s.mem = f.site.resume B

/-- Continuing right, in terms of the global. -/
theorem continuesOwn_iff : ContinuesOwn B (some s) ↔ Own B s := by
  constructor
  · rintro ⟨m, hm, h⟩ f rest hs hf
    obtain rfl := Option.some.inj hm
    obtain ⟨d, ctx, hd, hctx, hpc⟩ := h f rest hs hf Host.breakpointContinue (by decide)
    obtain ⟨d', hd', -, hctx', -⟩ := serve_continue (B := B) (d := ⟨s.mem, _, some f.ctx, s.out⟩)
      (show kind Host.breakpointContinue = some .breakpointContinue by decide) rfl
    obtain rfl := Option.some.inj (hd.symm.trans hd')
    rw [hctx, Option.some.injEq] at hctx'
    rw [← hpc, hctx', Context.pc_setPc]
  · intro h
    refine ⟨s, rfl, fun f rest hs hf c hk => ?_⟩
    obtain ⟨d, hd, -, hctx, -⟩ := serve_continue (B := B)
      (d := ⟨s.mem, c, some f.ctx, s.out⟩) hk rfl
    exact ⟨d, _, hd, hctx, (Context.pc_setPc _ _).trans (h f rest hs hf)⟩

/-- Where code is running, it runs under every stop. -/
theorem Consistent.all_running (h : Consistent B s) (hr : s.running = true) :
    ∀ f ∈ s.stack, f.running = true := by
  have hbelow := h.below
  unfold Machine.running at hr
  cases hs : s.stack with
  | nil => simp
  | cons g rest =>
      rw [hs] at hr hbelow
      intro f hf
      rcases List.mem_cons.mp hf with rfl | hf
      · simpa using hr
      · exact hbelow f hf

/-- Where code is running, no stop waits for a command. -/
theorem Consistent.own_of_running (h : Consistent B s) (hr : s.running = true) : Own B s := by
  intro f rest hs hf
  have := h.all_running hr f (by rw [hs]; exact List.mem_cons_self)
  rw [hf] at this
  cases this

/-! ## Steps -/

/-- **Entering a stop** keeps the invariant, and the new stop continues right. -/
theorem Consistent.enter (h : Consistent B s) {ctx : Context}
    (hs : step B (some s) (.enter ctx) = some s') : Consistent B s' ∧ Own B s' := by
  obtain ⟨hr, rfl⟩ := step_enter hs
  refine ⟨⟨h.all_running hr, fun _ => continueAddress_enterStop⟩, fun f rest hf _ => ?_⟩
  obtain ⟨rfl, -⟩ := List.cons.inj hf
  exact continueAddress_enterStop

/-- **Running code** keeps the invariant, if it leaves the object alone. -/
theorem Consistent.code (h : Consistent B s) (hs : step B (some s) (.code m) = some s')
    (hm : ∀ x, InStatus B x → m x = s.mem x) : Consistent B s' ∧ Own B s' := by
  obtain ⟨hr, rfl⟩ := step_code hs
  have hc : Consistent B { s with mem := m } :=
    ⟨h.below, fun hne => (continueAddress_congr hm).trans (h.last hne)⟩
  exact ⟨hc, hc.own_of_running hr⟩

/-- **A command** keeps continuing right iff it leaves the continue address unchanged, and then it
keeps the invariant. -/
theorem Consistent.command (h : Consistent B s) (hown : Own B s) {c : CmdBytes}
    (hs : step B (some s) (.command c) = some s') :
    (Own B s' ↔ continueAddress B s'.mem = continueAddress B s.mem) ∧
      (continueAddress B s'.mem = continueAddress B s.mem → Consistent B s') := by
  obtain ⟨f, rest, hst, hf, hcmd⟩ := step_command hs
  obtain ⟨hlast, hcases⟩ := command_cases hcmd
  have hbelow : ∀ g ∈ rest, g.running = true := by
    have := h.below
    rwa [hst, List.tail_cons] at this
  have hcont := hown f rest hst hf
  refine ⟨⟨fun hown' => ?_, fun hc => ?_⟩, fun hc => ⟨?_, fun _ => ?_⟩⟩
  · rcases hcases with ⟨hm, -⟩ | hst'
    · rw [hm]
    · rw [hcont]
      exact hown' f rest hst' hf
  · intro g rest' hg hgr
    rcases hcases with ⟨-, hst' | hst'⟩ | hst'
    · have hrun := hbelow g (by rw [← hst', hg]; exact List.mem_cons_self)
      rw [hgr] at hrun
      cases hrun
    · obtain ⟨rfl, -⟩ := List.cons.inj (hst'.symm.trans hg)
      cases hgr
    · obtain ⟨rfl, -⟩ := List.cons.inj (hst'.symm.trans hg)
      rw [hc, hcont]
  · rcases hcases with ⟨-, hst' | hst'⟩ | hst' <;> rw [hst']
    · exact fun g hg => hbelow g (List.mem_of_mem_tail hg)
    · exact hbelow
    · exact hbelow
  · rw [hc, hlast]
    exact h.last (by rw [hst]; exact List.cons_ne_nil _ _)

/-- **A return** to a stop lets it continue right iff it has the continue address of the stop
entered last. -/
theorem Consistent.ret (h : Consistent B s) (hs : step B (some s) .ret = some s') :
    Consistent B s' ∧
      (Own B s' ↔ ∀ f ∈ s.stack.head?, s.last.resume B = f.site.resume B) := by
  obtain ⟨f, rest, hst, hf, rfl⟩ := step_ret hs
  have hlast := h.last (by rw [hst]; exact List.cons_ne_nil _ _)
  refine ⟨⟨?_, fun _ => hlast⟩, ?_⟩
  · have := h.below
    rwa [hst] at this
  · rw [hst, List.head?_cons]
    constructor
    · rintro hown g hg
      obtain rfl := Option.some.inj hg
      rw [← hlast]
      exact hown { f with running := false } rest rfl rfl
    · intro hres g rest' hg _
      obtain ⟨rfl, -⟩ := List.cons.inj hg
      exact hlast.trans (hres f rfl)

/-! ## Runs -/

/-- A machine that is consistent and continues right. -/
def Good (B : Board) (s : Option Machine) : Prop := ∃ m, s = some m ∧ Consistent B m ∧ Own B m

theorem continuesOwn_of_good {o : Option Machine} (h : Good B o) : ContinuesOwn B o := by
  obtain ⟨s, rfl, -, hown⟩ := h
  exact continuesOwn_iff.mpr hown

/-- **A permitted event that meets the guard** keeps the machine good. -/
theorem Good.step {o : Option Machine} {e : Event} (h : Good B o) (hD : Permitted B o e)
    (hok : LastIsTop B o e) : Good B (step B o e) := by
  obtain ⟨s, rfl, hc, hown⟩ := h
  obtain ⟨s', hs', hkeep⟩ := hD.next
  refine ⟨s', hs', ?_⟩
  cases e with
  | enter ctx => exact hc.enter hs'
  | code m =>
      obtain ⟨-, rfl⟩ := step_code hs'
      exact hc.code hs' fun x => hkeep.eq
  | command c =>
      have hcont := hok s rfl s' hs'
      obtain ⟨hiff, hinv⟩ := hc.command hown hs'
      exact ⟨hinv hcont, hiff.mpr hcont⟩
  | ret =>
      obtain ⟨hc', hiff⟩ := hc.ret hs'
      exact ⟨hc', hiff.mpr fun f hf => (hok s rfl f hf).resume_eq⟩

/-- The sites of a machine are outside the object. -/
def SitesOutside (B : Board) (s : Option Machine) : Prop :=
  ∀ m, s = some m →
    (∀ f ∈ m.stack, f.site.Outside B) ∧ (m.stack ≠ [] → m.last.Outside B)

/-- A stop is entered outside the object, with a table that is no larger than it can be. -/
def EntersOutside (B : Board) (s : Option Machine) : Event → Prop
  | .enter ctx => ¬ InStatus B ctx.pc ∧ ∀ m ∈ s, (bpSize B m.mem).toNat ≤ dbgNbrPoints
  | .command _ | .code _ | .ret => True

/-- Stops outside the object stay outside. -/
theorem SitesOutside.step {o : Option Machine} {e : Event} (h : SitesOutside B o)
    (he : EntersOutside B o e) : SitesOutside B (step B o e) := by
  intro s' hs'
  cases o with
  | none => cases hs'
  | some s =>
      obtain ⟨hsites, hlast⟩ := h s rfl
      cases e with
      | enter ctx =>
          obtain ⟨-, rfl⟩ := step_enter hs'
          have hnew : (Site.of B s.mem ctx.pc).Outside B := by
            refine ⟨he.1, fun i hi => ?_⟩
            exact (getBreakpoint_eq_some_iff.mp hi).1.trans_le (he.2 s rfl)
          refine ⟨fun f hf => ?_, fun _ => hnew⟩
          rcases List.mem_cons.mp hf with rfl | hf
          · exact hnew
          · exact hsites f hf
      | code m =>
          obtain ⟨-, rfl⟩ := step_code hs'
          exact ⟨hsites, hlast⟩
      | command c =>
          obtain ⟨f, rest, hst, -, hcmd⟩ := step_command hs'
          obtain ⟨hl, hcases⟩ := command_cases hcmd
          rw [hst] at hsites
          have hlast' : s'.last.Outside B := by
            rw [hl]
            exact hlast (by rw [hst]; exact List.cons_ne_nil _ _)
          refine ⟨fun g hg => ?_, fun _ => hlast'⟩
          rcases hcases with ⟨-, hst' | hst'⟩ | hst' <;> rw [hst'] at hg
          · exact hsites g (List.mem_cons_of_mem _ hg)
          · rcases List.mem_cons.mp hg with rfl | hg
            · exact hsites f List.mem_cons_self
            · exact hsites g (List.mem_cons_of_mem _ hg)
          · exact hsites g hg
      | ret =>
          obtain ⟨f, rest, hst, -, rfl⟩ := step_ret hs'
          rw [hst] at hsites hlast
          refine ⟨fun g hg => ?_, fun _ => hlast (List.cons_ne_nil _ _)⟩
          rcases List.mem_cons.mp hg with rfl | hg
          · exact hsites f List.mem_cons_self
          · exact hsites g (List.mem_cons_of_mem _ hg)

/-- **Where stops are outside the object, only an event that meets the guard** leaves a good
machine continuing right. -/
theorem Good.lastIsTop {o : Option Machine} {e : Event} (h : Good B o) (hsites : SitesOutside B o)
    (hD : Permitted B o e) (hnext : ContinuesOwn B (Stop.step B o e)) : LastIsTop B o e := by
  obtain ⟨s, rfl, hc, hown⟩ := h
  obtain ⟨s', hs', -⟩ := hD.next
  rw [hs'] at hnext
  have hown' : Own B s' := continuesOwn_iff.mp hnext
  intro s₂ hs₂
  obtain rfl := Option.some.inj hs₂
  cases e with
  | enter ctx => trivial
  | code m => trivial
  | command c =>
      intro s₃ hs₃
      obtain rfl := Option.some.inj (hs'.symm.trans hs₃)
      exact (hc.command hown hs').1.mp hown'
  | ret =>
      intro f hf
      obtain ⟨hall, hlast⟩ := hsites s rfl
      have hmem : f ∈ s.stack := List.mem_of_mem_head? hf
      exact Site.same_of_resume_eq (hlast (List.ne_nil_of_mem hmem)) (hall f hmem)
        ((hc.ret hs').2.mp hown' f hf)

/-- **Nested stops resume independently, exactly when no stop at another site was entered
meanwhile.** In a run from a device without stops: if every stop that is served again has the site
of the stop entered last, and no command changes the continue address, then whenever a stop waits
for a command, continuing it resumes at its own address; and, for stops outside the object
`status`, only then. -/
theorem continuesOwn_throughout (B : Board) (s : Machine) (es : List Event) (hnil : s.stack = [])
    (hD : Guarded (step B) (Permitted B) (some s) es) :
    (Guarded (step B) (LastIsTop B) (some s) es →
        Throughout (step B) (ContinuesOwn B) (some s) es) ∧
      (Guarded (step B) (EntersOutside B) (some s) es →
        Throughout (step B) (ContinuesOwn B) (some s) es →
        Guarded (step B) (LastIsTop B) (some s) es) := by
  have hgood : Good B (some s) := by
    refine ⟨s, rfl, ⟨?_, fun hne => absurd hnil hne⟩, ?_⟩
    · simp [hnil]
    · intro f rest hs
      simp [hnil] at hs
  constructor
  · intro hok
    refine ((hD.and hok).throughout ?_ hgood).mono fun o => continuesOwn_of_good
    rintro o e h ⟨hD, hok⟩
    exact h.step hD hok
  · intro hout
    refine (throughout_iff_guarded (I := fun o => Good B o ∧ SitesOutside B o)
      (D := fun o e => Permitted B o e ∧ EntersOutside B o e) ?_ ?_ ⟨hgood, ?_⟩
      (continuesOwn_of_good hgood) (hD.and hout)).mp
    · rintro o e ⟨hg, hp⟩ - ⟨hperm, he⟩ hok
      exact ⟨hg.step hperm hok, hp.step he⟩
    · rintro o e ⟨hg, hp⟩ - ⟨hperm, -⟩
      exact ⟨hg.lastIsTop hp hperm, fun hok => continuesOwn_of_good (hg.step hperm hok)⟩
    · rintro m hm
      obtain rfl := Option.some.inj hm
      exact ⟨by simp [hnil], fun hne => absurd hnil hne⟩

/-! ## Examples -/

/-- A device with breakpoints at `0x8D001000` and `0x8D002000`, outside any stop. -/
def twoBreakpoints : Machine where
  mem := applyOp Board.sample (applyOp Board.sample (dbgInit Board.sample fun _ => 0#8)
    (.insert 0x8D001000#32 0#8)) (.insert 0x8D002000#32 0#8)
  out := []
  stack := []
  last := ⟨0#32, none⟩

/-- A stop at the first breakpoint whose `CMD_CALL` runs into the one at `pc`, which the host
continues before the call returns. -/
def nestedAt (pc : Word) : List Event :=
  [.enter ⟨0#32, fun _ => 0x8D001000#32⟩, .command { type := .call : Host.Command }.bytes,
    .enter ⟨0#32, fun _ => pc⟩, .command Host.breakpointContinue, .ret]

/-- After an inner stop at the second breakpoint, the outer stop would continue at the trampoline
of the second one. -/
theorem continues_foreign :
    Guarded (step Board.sample) (Permitted Board.sample) (some twoBreakpoints)
        (nestedAt 0x8D002000#32) ∧
      ¬ ContinuesOwn Board.sample
        (run (step Board.sample) (some twoBreakpoints) (nestedAt 0x8D002000#32)) := by
  refine ⟨by decide +kernel, fun h => ?_⟩
  have hrun : ((run (step Board.sample) (some twoBreakpoints) (nestedAt 0x8D002000#32)).map
      fun s => (s.stack.map fun f => (f.running, f.site.resume Board.sample),
        continueAddress Board.sample s.mem)) =
      some ([(false, originalAt Board.sample 0 0)], originalAt Board.sample 1 0) := by
    decide +kernel
  obtain ⟨s, hs, hs'⟩ := Option.map_eq_some_iff.mp hrun
  rw [hs, continuesOwn_iff] at h
  obtain ⟨hstack, hcont⟩ := Prod.mk.inj hs'
  obtain ⟨f, rest, hst, hf, -⟩ := List.map_eq_cons_iff.mp hstack
  obtain ⟨hrun, hres⟩ := Prod.mk.inj hf
  have := (hcont.symm.trans (h f rest hst hrun)).trans hres
  revert this
  decide

/-- An inner stop at the same breakpoint does no harm. -/
theorem continuesOwn_throughout_sample :
    Throughout (step Board.sample) (ContinuesOwn Board.sample) (some twoBreakpoints)
      (nestedAt 0x8D001000#32) :=
  (continuesOwn_throughout Board.sample twoBreakpoints _ rfl (by decide +kernel)).1
    (by decide +kernel)

end Hbootdbg.Stop
