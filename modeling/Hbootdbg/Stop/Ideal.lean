import Hbootdbg.Stop.Debugged
import Hbootdbg.Session.Transparency

/-!
# The debugger that there should be

What the host sees of a debugged program, without a table, trampolines, a saved context or words
that are replaced: the program executes one instruction after the other, and before an instruction
with a breakpoint the host reads and changes what it likes.

* `Ideal` — the program, the set of breakpoints, and what the host has received.
* `Ideal.serve`, `Ideal.attended`, `Ideal.step` — a command, a stop, an instruction.
* `CommandPermitted`, `StopPermitted` — what the host may do.
* `Shows` — the device looks to the host as the ideal debugger does; `Shows.served` is the step
  lemma of a command, `Shows.attends` and `Attends.continued` are a stop.
* `Follows` — where the device is; in a trampoline, it has stopped already and the program has not
  gone on. `Follows.step` — one step; `debugged_refines` — over runs.
-/

namespace Hbootdbg.Stop

open Hbootdbg.Lib.ByteMem Hbootdbg.Lib.A32Branch Hbootdbg.Lib.A32Run Hbootdbg.Lib.Run
open Hbootdbg.Device Hbootdbg.Table Hbootdbg.Session Hbootdbg.Host

/-! ## The ideal debugger -/

/-- What a debugger consists of, for the host. -/
structure Ideal where
  /-- The program, in its own memory. -/
  prog : Context × Memory
  /-- The addresses that it stops at. -/
  points : BreakpointSet
  /-- What the host has received. -/
  sent : List Byte

namespace Ideal

variable (B : Board) (exec : Exec) (host : List Byte → List CmdBytes) (s : Ideal) (c : CmdBytes)

/-- Memory, as the host sees it. -/
def view : Memory := overlay s.prog.2 s.points.active

/-- The reply to a command. -/
def reply : List Byte :=
  c.type :: match kind c with
    | some .insertBreakpoint => [(s.points.reply (.insert c.addr c.bpType)).code]
    | some .removeBreakpoint => [(s.points.reply (.remove c.addr c.bpType)).code]
    | some .read =>
        if mmuProbeRead B s.view c.addr c.size then
          ErrorCode.success.code :: bytes s.view c.addr c.size.toNat
        else [ErrorCode.unmappedMemory.code]
    | some .write =>
        if mmuProbeRead B s.view c.addr c.size then [ErrorCode.success.code]
        else [ErrorCode.unmappedMemory.code]
    | some .getRegisters => ErrorCode.success.code :: s.prog.1.bytes
    | _ => [ErrorCode.unknownCmd.code]

/-- The memory of the program after a command. -/
def memory : Memory :=
  match kind c with
  | some .write =>
      if mmuProbeRead B s.view c.addr c.size then patch s.prog.2 c.addr c.size.toNat c.data
      else s.prog.2
  | _ => s.prog.2

/-- The breakpoints after a command. -/
def pointsAfter : BreakpointSet :=
  match kind c with
  | some .insertBreakpoint => s.points.apply (.insert c.addr c.bpType)
  | some .removeBreakpoint => s.points.apply (.remove c.addr c.bpType)
  | _ => s.points

/-- A command. -/
def serve : Ideal where
  prog := (s.prog.1, s.memory B c)
  points := s.pointsAfter c
  sent := s.sent ++ s.reply B c

/-- A stop: the host sends its commands, and continues. -/
def stop (cs : List CmdBytes) : Ideal :=
  let s' := run (serve B) s cs
  { s' with sent := s'.sent ++ [CmdType.breakpointContinue.code, ErrorCode.success.code] }

/-- The program is at a breakpoint. -/
def AtPoint : Prop := s.prog.1.pc ∈ s.points.active

instance : Decidable s.AtPoint := inferInstanceAs (Decidable (_ ∈ _))

/-- The program is at a breakpoint instruction of its own. -/
def AtBkpt : Prop := ¬ s.AtPoint ∧ isBkpt (load32 s.prog.2 s.prog.1.pc) = true

instance : Decidable s.AtBkpt := inferInstanceAs (Decidable (_ ∧ _))

/-- After the stop, if there is one before the next instruction. What the host sends depends on what
it has received. -/
def attended : Ideal := if s.AtPoint ∨ s.AtBkpt then s.stop B (host s.sent) else s

/-- The next instruction, with the stop before it. A breakpoint instruction of the program is passed
over. -/
def step : Ideal :=
  let s' := s.attended B host
  if s.AtBkpt then { s' with prog := (s'.prog.1.setPc (s'.prog.1.pc + 4#32), s'.prog.2) }
  else { s' with prog := programStep exec s'.prog }

end Ideal

/-! ## What the host may do -/

/-- The object is neither in the range of a command nor among the descriptors that its check looks
at. -/
structure Visible (B : Board) (c : CmdBytes) : Prop where
  range : ∀ x, InSpan c.addr c.size.toNat x → ¬ InStatus B x
  table : ∀ i < (sectionsNr c.addr c.size).toNat,
    OutsideStatus B (mmuGetTranslationTable B + 4#32 * ((c.addr >>> 20) + BitVec.ofNat 32 i))

/-- A write to none of the bytes in `C`, whose cache loops end. -/
structure WritesData (B : Board) (C : Set Word) (c : CmdBytes) : Prop where
  kind : kind c = some .write
  visible : Visible B c
  data : ∀ x, InSpan c.addr c.size.toNat x → x ∉ C
  ends : mmuInvalidateCacheRange B c.addr c.size ≠ none

/-- A command that the host may send: a harmless one that shows nothing of the object, or a write to
the program's data. -/
def CommandPermitted (B : Board) (exec : Exec) (C : Set Word) (m : Memory) (c : CmdBytes) : Prop :=
  (Harmless B exec C m c ∧ (kind c = some .read → Visible B c)) ∨ WritesData B C c

/-- In a stop, every command is permitted, and leaves the slot of the breakpoint that the device
stopped at as it is. -/
def StopPermitted (B : Board) (exec : Exec) (C : Set Word) (s : Option Dev) (cs : List CmdBytes) :
    Prop :=
  ∀ d ∈ s, ∀ r ∈ d.ctx, isBkpt (load32 d.mem r.pc) = true →
    Guarded (serve B)
      (fun s' c => (∀ d' ∈ s', CommandPermitted B exec C d'.mem c) ∧
        ∀ i ∈ getBreakpoint B d.mem r.pc, KeepsSlot B i r.pc s' c)
      (some (enter B d r)) cs

/-! ## What the host sees -/

/-- What the host has received of the device. -/
def transcript (d : Dev) : List Byte := (d.out.filterMap Host.payload).flatten

/-- The device looks to the host as the ideal debugger does. -/
structure Shows (B : Board) (exec : Exec) (C : Set Word) (d : Dev) (s : Ideal) : Prop where
  sound : Sound B exec C s.prog.2 d.mem
  active_iff : ∀ a, Active B d.mem a ↔ a ∈ s.points.active
  transcript_eq : transcript d = s.sent

variable {B : Board} {exec : Exec} {C : Set Word} {d d' : Dev} {s s' : Ideal} {c : CmdBytes}
  {r r' : Context} {i n : ℕ} {host : List Byte → List CmdBytes} {cs : List CmdBytes}

theorem transcript_of_append {os : List Out} (h : d'.out = d.out ++ os) :
    transcript d' = transcript d ++ (os.filterMap Host.payload).flatten := by
  unfold transcript
  rw [h, List.filterMap_append, List.flatten_append]

theorem Shows.refines (h : Shows B exec C d s) : Refines B s.prog.2 d.mem s.points := by
  refine ⟨h.sound.tracks, h.sound.planted, h.active_iff, fun a ha => ?_⟩
  obtain ⟨e, he, rfl⟩ := (h.active_iff a).mpr ha
  exact (h.sound.address e he).1

/-- The memory of the device, outside the object. -/
theorem Shows.mem_eq (h : Shows B exec C d s) {x : Word} (hx : ¬ InStatus B x) :
    d.mem x = s.view x :=
  h.refines.eq_overlay hx

theorem mmuProbeRead_congr {m m' : Memory} {addr length : Word}
    (h : ∀ i < (sectionsNr addr length).toNat,
      sectionDesc B m ((addr >>> 20) + BitVec.ofNat 32 i) =
        sectionDesc B m' ((addr >>> 20) + BitVec.ofNat 32 i)) :
    mmuProbeRead B m addr length = mmuProbeRead B m' addr length := by
  unfold mmuProbeRead
  rw [Bool.eq_iff_iff, List.all_eq_true, List.all_eq_true]
  refine forall₂_congr fun i hi => ?_
  rw [h i (List.mem_range.mp hi)]

/-- The check of a range says the same of the memory that the host sees. -/
theorem Shows.probe_eq (h : Shows B exec C d s) (hv : Visible B c) :
    mmuProbeRead B d.mem c.addr c.size = mmuProbeRead B s.view c.addr c.size :=
  mmuProbeRead_congr fun i hi =>
    load32_congr (by decide) fun _ hx => h.mem_eq ((hv.table i hi).not_inSpan hx)

theorem Shows.bytes_eq (h : Shows B exec C d s) (hv : Visible B c) :
    bytes d.mem c.addr c.size.toNat = bytes s.view c.addr c.size.toNat :=
  bytes_congr c.size.isLt.le fun x hx => h.mem_eq (hv.range x hx)

/-! ## Commands -/

/-- A command whose reply, table and memory are those of the ideal debugger. -/
theorem Shows.of_sent {os : List Out} (h : Shows B exec C d s) (hout : d'.out = d.out ++ os)
    (hreply : (os.filterMap Host.payload).flatten = s.reply B c)
    (hactive : ∀ a, Active B d'.mem a ↔ a ∈ (s.pointsAfter c).active)
    (hsound : Sound B exec C (s.memory B c) d'.mem) : Shows B exec C d' (s.serve B c) := by
  refine ⟨hsound, hactive, ?_⟩
  rw [transcript_of_append hout, hreply, h.transcript_eq]
  rfl

theorem type_eq_code {t : CmdType} (hk : kind c = some t) : c.type = t.code := type_of_kind hk

/-- An insertion. -/
theorem Shows.insert (h : Shows B exec C d s) (hk : kind c = some .insertBreakpoint)
    (hc : Harmless B exec C d.mem c) :
    ∃ d', serve B (some d) c = some d' ∧ Shows B exec C d' (s.serve B c) := by
  obtain ⟨d', hd', hm, -, hout⟩ := serve_insert (B := B) (d := d) hk
  obtain ⟨d₁, hd₁, hsound, -⟩ := h.sound.served hc
  obtain rfl : d₁ = d' := Option.some.inj (hd₁.symm.trans hd')
  have haddr : AddressOk B c.addr := by
    rcases hc.insert hk with ⟨e, he, hea⟩ | hplant
    · exact hea ▸ h.sound.address e he
    · exact hplant.address
  obtain ⟨hreply, hrefines, -⟩ := h.refines.insert haddr c.bpType
  refine ⟨d₁, hd', h.of_sent hout ?_ ?_ ?_⟩
  · simp [Host.payload, Ideal.reply, hk, type_eq_code hk, hreply]
  · simpa only [Ideal.pointsAfter, hk, hm] using hrefines.active_iff
  · simpa only [Ideal.memory, hk] using hsound

/-- A removal. -/
theorem Shows.remove (h : Shows B exec C d s) (hk : kind c = some .removeBreakpoint)
    (hc : Harmless B exec C d.mem c) :
    ∃ d', serve B (some d) c = some d' ∧ Shows B exec C d' (s.serve B c) := by
  obtain ⟨d', hd', hm, -, hout⟩ := serve_remove (B := B) (d := d) hk
  obtain ⟨d₁, hd₁, hsound, -⟩ := h.sound.served hc
  obtain rfl : d₁ = d' := Option.some.inj (hd₁.symm.trans hd')
  have hrefines : (Device.removeBreakpoint B d.mem c.addr c.bpType).2 =
        s.points.reply (.remove c.addr c.bpType) ∧
      ∀ a, Active B (Device.removeBreakpoint B d.mem c.addr c.bpType).1 a ↔
        a ∈ (s.points.apply (.remove c.addr c.bpType)).active := by
    by_cases hact : Active B d.mem c.addr
    · have haddr : AddressOk B c.addr := by
        obtain ⟨e, he, hea⟩ := hact
        exact hea ▸ h.sound.address e he
      obtain ⟨hreply, hrefines, -⟩ := h.refines.remove haddr c.bpType
      exact ⟨hreply, hrefines.active_iff⟩
    · -- the table is as it is, wherever the address may be
      have hA : c.addr ∉ s.points.active := fun hmem => hact ((h.active_iff _).mpr hmem)
      have he : Device.removeBreakpoint B d.mem c.addr c.bpType = (d.mem, .noBreakpoint) := by
        unfold Device.removeBreakpoint
        rw [getBreakpoint_eq_none_iff.mpr hact]
      rw [he]
      refine ⟨(if_neg hA).symm, fun a => ?_⟩
      rw [h.active_iff]
      exact (Finset.erase_eq_of_notMem hA).symm ▸ Iff.rfl
  refine ⟨d₁, hd', h.of_sent hout ?_ ?_ ?_⟩
  · simp [Host.payload, Ideal.reply, hk, type_eq_code hk, hrefines.1]
  · simpa only [Ideal.pointsAfter, hk, hm] using hrefines.2
  · simpa only [Ideal.memory, hk] using hsound

/-- A read. -/
theorem Shows.read (h : Shows B exec C d s) (hk : kind c = some .read) (hv : Visible B c) :
    ∃ d', serve B (some d) c = some d' ∧ Shows B exec C d' (s.serve B c) := by
  obtain ⟨d', hd', hm, -, hout⟩ := serve_read (B := B) (d := d) hk
  refine ⟨d', hd', h.of_sent hout ?_ ?_ ?_⟩
  · rw [h.probe_eq hv]
    simp only [Ideal.reply, hk, type_eq_code hk]
    split_ifs with hmap
    · rw [List.filterMap_cons, List.filterMap_map]
      have hsome : (readPackets d.mem c.size.toNat c.addr c.size.toNat).filterMap
          (Host.payload ∘ Out.usbSend) = readPackets d.mem c.size.toNat c.addr c.size.toNat :=
        List.filterMap_some
      rw [hsome, ← h.bytes_eq hv, ← readPackets_flatten d.mem le_rfl]
      rfl
    · rfl
  · simpa only [Ideal.pointsAfter, hk, hm] using h.active_iff
  · simpa only [Ideal.memory, hk, hm] using h.sound

/-- The registers. -/
theorem Shows.getRegisters (h : Shows B exec C d s) (hctx : d.ctx = some s.prog.1)
    (hk : kind c = some .getRegisters) :
    ∃ d', serve B (some d) c = some d' ∧ Shows B exec C d' (s.serve B c) := by
  obtain ⟨d', hd', hm, -, hout⟩ := serve_getRegisters (B := B) (d := d) hk
  rw [hctx] at hout
  refine ⟨d', hd', h.of_sent hout ?_ ?_ ?_⟩
  · simp [Host.payload, Ideal.reply, hk, type_eq_code hk]
  · simpa only [Ideal.pointsAfter, hk, hm] using h.active_iff
  · simpa only [Ideal.memory, hk, hm] using h.sound

/-- Data that is written outside `C` reaches the program's memory alike. -/
theorem Sound.written {L m : Memory} {a : Word} {k : ℕ} {v : ℕ → Byte}
    (hC : ∀ x, InStatus B x → x ∈ C) (h : Sound B exec C L m)
    (hout : ∀ x, InSpan a k x → x ∉ C) :
    Sound B exec C (patch L a k v) (patch m a k v) ∧
      entries B (patch m a k v) = entries B m := by
  have hkeep : ∀ m' : Memory, ∀ x ∈ C, patch m' a k v x = m' x := fun m' x hx =>
    patch_of_not_inSpan fun hin => hout x hin hx
  have hent : entries B (patch m a k v) = entries B m :=
    entries_congr (fun x hx => hkeep m x (hC x hx)) h.tracks.size
  have hsize : bpSize B (patch m a k v) = bpSize B m :=
    bpSize_congr fun x hx => hkeep m x (hC x hx)
  refine ⟨h.congr ⟨hsize ▸ h.tracks.size, hent ▸ h.tracks.apart, hent ▸ h.tracks.outside,
    fun e he => ?_, fun x hx hall => ?_⟩ hent fun e he =>
      load32_congr (by decide) fun x hx => hkeep m x (h.covered e he x hx), hent⟩
  · rw [hent] at he
    rw [h.tracks.saved e he]
    exact (load32_congr (by decide) fun x hx => hkeep L x (h.covered e he x hx)).symm
  · rw [hent] at hall
    have hx' := h.tracks.frame x hx hall
    unfold patch
    rw [hx']

/-- A write. -/
theorem Shows.write (hC : ∀ x, InStatus B x → x ∈ C) (h : Shows B exec C d s)
    (hc : WritesData B C c) :
    ∃ d', serve B (some d) c = some d' ∧ Shows B exec C d' (s.serve B c) ∧ d'.ctx = d.ctx ∧
      (∀ x ∈ C, d'.mem x = d.mem x) := by
  have hk := hc.kind
  have hprobe := h.probe_eq hc.visible
  rcases serve_write (B := B) (d := d) hk with
    ⟨hmap, ⟨hloop, -⟩ | ⟨d', hd', hm, hctx, hout⟩⟩ | ⟨hmap, d', hd', hm, hctx, hout⟩
  · exact absurd hloop hc.ends
  · obtain ⟨hsound, hent⟩ := h.sound.written hC hc.data
    rw [← hm] at hent
    refine ⟨d', hd', h.of_sent hout ?_ ?_ ?_, hctx, fun x hx => ?_⟩
    · simp [Host.payload, Ideal.reply, hk, type_eq_code hk, ← hprobe, hmap]
    · intro a
      simp only [Ideal.pointsAfter, hk, ← h.active_iff, Active, hent]
    · simp only [Ideal.memory, hk, ← hprobe, hmap, hm]
      exact hsound
    · rw [hm]
      exact patch_of_not_inSpan fun hin => hc.data x hin hx
  · refine ⟨d', hd', h.of_sent hout ?_ ?_ ?_, hctx, fun x hx => by rw [hm]⟩
    · simp [Host.payload, Ideal.reply, hk, type_eq_code hk, ← hprobe, hmap]
    · simpa only [Ideal.pointsAfter, hk, hm] using h.active_iff
    · simpa [Ideal.memory, hk, ← hprobe, hmap, hm] using h.sound

/-- **A permitted command** has the reply and the effect of the ideal debugger, and keeps the
context and the continue address. -/
theorem Shows.served (hC : ∀ x, InStatus B x → x ∈ C) (h : Shows B exec C d s)
    (hctx : d.ctx = some s.prog.1) (hc : CommandPermitted B exec C d.mem c) :
    ∃ d', serve B (some d) c = some d' ∧ Shows B exec C d' (s.serve B c) ∧ d'.ctx = d.ctx ∧
      continueAddress B d'.mem = continueAddress B d.mem := by
  rcases hc with ⟨hc, hread⟩ | hc
  · obtain ⟨d₁, hd₁, -, hctx₁, hcont⟩ := h.sound.served hc
    have hshows : ∃ d', serve B (some d) c = some d' ∧ Shows B exec C d' (s.serve B c) := by
      rcases hc.cmd with ⟨hk | hk, -⟩ | hk | hk | hk
      · exact h.insert hk hc
      · exact h.remove hk hc
      · exact h.read hk (hread hk)
      · exact h.getRegisters hctx hk
      · exact absurd hk hc.notAttach
    obtain ⟨d', hd', hshows⟩ := hshows
    obtain rfl : d₁ = d' := Option.some.inj (hd₁.symm.trans hd')
    exact ⟨d₁, hd', hshows, hctx₁, hcont⟩
  · obtain ⟨d', hd', hshows, hctx', hkeep⟩ := h.write hC hc
    exact ⟨d', hd', hshows, hctx', continueAddress_congr fun x hx => hkeep x (hC x hx)⟩

/-! ## Stops -/

/-- A device in a stop that began at `s₀`, with the continue address `p`. The slot `i` of a
breakpoint that it stopped at holds its trampoline. -/
structure Attends (B : Board) (exec : Exec) (C : Set Word) (s₀ : Ideal) (p : Word) (o : Option ℕ)
    (d : Dev) (s : Ideal) : Prop where
  shows : Shows B exec C d s
  registers : s.prog.1 = s₀.prog.1
  ctx : d.ctx = some s₀.prog.1
  continues : continueAddress B d.mem = p
  armed : ∀ i ∈ o, Armed B s.prog.2 i (load32 s₀.prog.2 s₀.prog.1.pc) s₀.prog.1.pc s₀.prog.1 d

/-- A write to the program's data leaves a stop armed. -/
theorem Armed.write {L L' : Memory} {w a : Word} (hC : ∀ x, InStatus B x → x ∈ C)
    (h : Armed B L i w a r d) (ht : Tracks B L' d'.mem) (hctx : d'.ctx = d.ctx)
    (hkeep : ∀ x ∈ C, d'.mem x = d.mem x) (hword : load32 L' a = load32 L a) :
    Armed B L' i w a r d' := by
  have hstatus : ∀ x, InStatus B x → d'.mem x = d.mem x := fun x hx => hkeep x (hC x hx)
  have hent : entries B d'.mem = entries B d.mem := entries_congr hstatus h.tracks.size
  have hslot : entryAt B d'.mem i = entryAt B d.mem i := entryAt_congr hstatus h.lt
  exact ⟨ht, hent ▸ h.address, hword.trans h.word, h.lt, hslot ▸ h.original, hslot ▸ h.branch,
    (continueAddress_congr hstatus).trans h.continues, hctx.trans h.ctx⟩

theorem memory_of_stopCmd (hc : StopCmd c) : s.memory B c = s.prog.2 := by
  unfold Ideal.memory
  rcases hc with ⟨hk | hk, -⟩ | hk | hk | hk <;> simp only [hk]

/-- Only writes change the program's memory, and only outside `C`. -/
theorem memory_eq (hc : CommandPermitted B exec C d.mem c) {x : Word} (hx : x ∈ C) :
    s.memory B c x = s.prog.2 x := by
  rcases hc with ⟨hc, -⟩ | hc
  · rw [memory_of_stopCmd hc.cmd]
  · simp only [Ideal.memory, hc.kind]
    split_ifs with hmap
    · exact patch_of_not_inSpan fun hin => hc.data x hin hx
    · rfl

/-- **A permitted command in a stop.** -/
theorem Attends.served {s₀ : Ideal} {p : Word} {o : Option ℕ} (hC : ∀ x, InStatus B x → x ∈ C)
    (h : Attends B exec C s₀ p o d s) (hreach : ∀ i ∈ o, InBranchRange B s₀.prog.1.pc ∧
      ∀ x, InSpan s₀.prog.1.pc 4 x → x ∈ C) (hc : CommandPermitted B exec C d.mem c)
    (hkeeps : ∀ i ∈ o, KeepsSlot B i s₀.prog.1.pc (some d) c) :
    ∃ d', serve B (some d) c = some d' ∧ Attends B exec C s₀ p o d' (s.serve B c) := by
  obtain ⟨d', hd', hshows, hctx, hcont⟩ := h.shows.served hC (h.registers ▸ h.ctx) hc
  refine ⟨d', hd', hshows, h.registers, hctx.trans h.ctx, hcont.trans h.continues, fun i hi => ?_⟩
  obtain ⟨hrange, hin⟩ := hreach i hi
  have hmemory : load32 (s.memory B c) s₀.prog.1.pc = load32 s.prog.2 s₀.prog.1.pc :=
    load32_congr (by decide) fun x hx => memory_eq hc (hin x hx)
  rcases hc with ⟨hc, hread⟩ | hc
  · obtain ⟨d₁, hd₁, harmed⟩ := (h.armed i hi).step hrange hc.cmd (hkeeps i hi)
    obtain rfl : d₁ = d' := Option.some.inj (hd₁.symm.trans hd')
    show Armed B (s.memory B c) i _ _ _ d₁
    rw [memory_of_stopCmd hc.cmd]
    exact harmed
  · obtain ⟨d₁, hd₁, -, -, hkeep⟩ := h.shows.write hC hc
    obtain rfl : d₁ = d' := Option.some.inj (hd₁.symm.trans hd')
    exact (h.armed i hi).write hC hshows.sound.tracks hctx hkeep hmemory

/-- Entering a stop shows nothing. -/
theorem Shows.entered (h : Shows B exec C d s) : Shows B exec C (enter B d r) s := by
  refine ⟨h.sound.enterStop, fun a => ?_, h.transcript_eq⟩
  have hent : entries B (enter B d r).mem = entries B d.mem :=
    entries_enterStop h.sound.tracks.size
  rw [← h.active_iff]
  unfold Active
  rw [hent]

/-- **A stop.** -/
theorem Shows.attends (hC : ∀ x, InStatus B x → x ∈ C) (h : Shows B exec C d s)
    (hctx : d.ctx = some s.prog.1) (hb : isBkpt (load32 d.mem s.prog.1.pc) = true)
    (hok : StopPermitted B exec C (some d) cs) :
    ∃ d', run (serve B) (some (enter B d s.prog.1)) cs = some d' ∧
      Attends B exec C s (resumeAddress B d.mem s.prog.1.pc) (getBreakpoint B d.mem s.prog.1.pc) d'
        (run (Ideal.serve B) s cs) := by
  have hreach : ∀ i ∈ getBreakpoint B d.mem s.prog.1.pc, InBranchRange B s.prog.1.pc ∧
      ∀ x, InSpan s.prog.1.pc 4 x → x ∈ C := by
    intro i hi
    obtain ⟨-, hrange, hcovered⟩ := h.sound.found hi
    exact ⟨hrange, hcovered⟩
  have hcont : continueAddress B (enter B d s.prog.1).mem =
      resumeAddress B d.mem s.prog.1.pc := by
    rw [enter_mem, continueAddress_enterStop]
  have hstart : ∃ d', some (enter B d s.prog.1) = some d' ∧
      Attends B exec C s (resumeAddress B d.mem s.prog.1.pc)
        (getBreakpoint B d.mem s.prog.1.pc) d' s :=
    ⟨_, rfl, h.entered, rfl, rfl, hcont, fun i hi => h.sound.armed hi⟩
  refine (hok d rfl _ hctx hb).run_related (R := fun s' t => ∃ d', s' = some d' ∧ Attends B exec C s
    (resumeAddress B d.mem s.prog.1.pc) (getBreakpoint B d.mem s.prog.1.pc) d' t) ?_ hstart
  rintro s' t c ⟨d₁, rfl, ha⟩ ⟨hc, hkeeps⟩
  exact ha.served hC hreach (hc d₁ rfl) hkeeps

/-- **The end of a stop.** -/
theorem Attends.continued {s₀ : Ideal} {p : Word} {o : Option ℕ}
    (h : Attends B exec C s₀ p o d s) :
    ∃ d', serve B (some d) breakpointContinue = some d' ∧ d'.mem = d.mem ∧
      d'.ctx = some (s₀.prog.1.setPc p) ∧
      Shows B exec C d' { s with
        sent := s.sent ++ [CmdType.breakpointContinue.code, ErrorCode.success.code] } := by
  obtain ⟨d', hd', hm, hctx, hout⟩ := serve_continue (B := B) (c := breakpointContinue) rfl h.ctx
  refine ⟨d', hd', hm, by rw [hctx, h.continues], hm ▸ h.shows.sound, hm ▸ h.shows.active_iff, ?_⟩
  rw [transcript_of_append hout, h.shows.transcript_eq]
  rfl

/-! ## Where the device is -/

/-- What the device shows, with at most `n` steps to take before the next instruction: with none,
it is in a trampoline, and the stop is over. -/
def Ideal.seen (B : Board) (host : List Byte → List CmdBytes) (n : ℕ) (s : Ideal) : Ideal :=
  if n = 0 then s.attended B host else s

/-- The device follows the ideal debugger. -/
structure Follows (B : Board) (exec : Exec) (C : Set Word) (host : List Byte → List CmdBytes)
    (n : ℕ) (d : Dev) (r : Context) (s : Ideal) : Prop where
  mirrors : Mirrors B exec C n d r (s.seen B host n).prog
  shows : Shows B exec C d (s.seen B host n)
  atPoint : n = 0 → s.AtPoint

/-- An instruction shows nothing. -/
theorem Shows.kept {t : Context × Memory} (h : Shows B exec C d s) (hkept : Kept B d d')
    (hsound : Sound B exec C t.2 d'.mem) : Shows B exec C d' { s with prog := t } := by
  refine ⟨hsound, fun a => ?_, ?_⟩
  · rw [← h.active_iff]
    unfold Active
    rw [hkept.entries]
  · rw [← h.transcript_eq]
    unfold transcript
    rw [hkept.out]

/-- A stop leaves the registers alone. -/
theorem registers_run (cs : List CmdBytes) :
    (run (Ideal.serve B) s cs).prog.1 = s.prog.1 := by
  induction cs generalizing s with
  | nil => rfl
  | cons c cs ih => exact ih

theorem attended_of_stop (hs : s.AtPoint ∨ s.AtBkpt) :
    s.attended B host = s.stop B (host s.sent) := if_pos hs

theorem attended_of_not (hs : ¬ (s.AtPoint ∨ s.AtBkpt)) : s.attended B host = s := if_neg hs

theorem attended_registers : (s.attended B host).prog.1 = s.prog.1 := by
  unfold Ideal.attended
  split_ifs
  · exact registers_run _
  · rfl

theorem step_of_atBkpt (hs : s.AtBkpt) : s.step B exec host =
    { s.stop B (host s.sent) with
      prog := (s.prog.1.setPc (s.prog.1.pc + 4#32), (s.stop B (host s.sent)).prog.2) } := by
  unfold Ideal.step
  rw [attended_of_stop (Or.inr hs)]
  simp only [if_pos hs]
  rw [show (s.stop B (host s.sent)).prog.1 = s.prog.1 from registers_run _]

theorem step_of_not_atBkpt (hs : ¬ s.AtBkpt) : s.step B exec host =
    { s.attended B host with prog := programStep exec (s.attended B host).prog } := if_neg hs

/-- **In a trampoline**, where the stop is over. -/
theorem Follows.first (hC : ∀ x, InStatus B x → x ∈ C) (h : Follows B exec C host 0 d r s)
    (hpc : r.pc = originalAt B i 0) (hi : i < dbgNbrPoints)
    (hw : load32 d.mem (originalAt B i 0) =
      load32 (s.attended B host).prog.2 (s.attended B host).prog.1.pc)
    (hp : Plain (processor exec) (load32 (s.attended B host).prog.2 (s.attended B host).prog.1.pc))
    (hbr : branchTarget (originalAt B i 1) (load32 d.mem (originalAt B i 1)) =
      some ((s.attended B host).prog.1.pc + 4#32))
    (hu : Undisturbed B exec C (s.attended B host).prog) :
    ∃ d' r', deviceStep B exec (some d) cs = some d' ∧
      Follows B exec C host 2 d' r' (s.step B exec host) := by
  have hbkpt : ¬ s.AtBkpt := fun hb => hb.1 (h.atPoint rfl)
  obtain ⟨d', r', hd', hkept, h'⟩ := h.mirrors.step_first hC hpc hi hw hp hbr hu
  have hshows := h.shows.kept hkept h'.sound
  refine ⟨d', r', hd', ?_⟩
  rw [step_of_not_atBkpt hbkpt]
  exact ⟨h', hshows, nofun⟩

/-- **A stop at a breakpoint**, which ends in the trampoline. -/
theorem Follows.stopped (hC : ∀ x, InStatus B x → x ∈ C) (h : Follows B exec C host 1 d s.prog.1 s)
    (hi : getBreakpoint B d.mem s.prog.1.pc = some i)
    (hb : isBkpt (load32 d.mem s.prog.1.pc) = true)
    (hok : StopPermitted B exec C (some d) (host s.sent)) :
    ∃ d' r', deviceStep B exec (some d) (host s.sent) = some d' ∧
      Follows B exec C host 0 d' r' s := by
  have hshows : Shows B exec C d s := h.shows
  have hctx : d.ctx = some s.prog.1 := h.mirrors.ctx
  have hpoint : s.AtPoint :=
    (hshows.active_iff _).mp (active_of_getBreakpoint hi)
  obtain ⟨hplain, -, -⟩ := hshows.sound.found hi
  obtain ⟨d₁, hd₁, hat⟩ := hshows.attends hC hctx hb hok
  have harmed := hat.armed i hi
  obtain ⟨d₂, hd₂, hm₂, hctx₂, hshows₂⟩ := hat.continued
  have hseen : s.seen B host 0 = s.stop B (host s.sent) := attended_of_stop (Or.inl hpoint)
  have hregs : (s.stop B (host s.sent)).prog.1 = s.prog.1 := registers_run _
  rw [resumeAddress_of_found hi] at hctx₂
  refine ⟨d₂, s.prog.1.setPc (originalAt B i 0), ?_, ?_, hseen ▸ hshows₂, fun _ => hpoint⟩
  · rw [deviceStep_stop hctx hb, hd₁, hd₂]
  · rw [hseen]
    refine ⟨hctx₂, hshows₂.sound, ?_, ?_⟩
    · rw [Context.pc_setPc, hregs, hm₂]
      have hword : load32 (s.stop B (host s.sent)).prog.2 s.prog.1.pc =
          load32 s.prog.2 s.prog.1.pc := harmed.word
      rw [← hword] at hplain
      exact .first harmed.lt (harmed.original.trans hword.symm) hplain harmed.branch
    · rw [setPc_setPc, hregs, Context.setPc_self]

/-- **A stop at a breakpoint instruction of the program**, which ends after it. -/
theorem Follows.passed (hC : ∀ x, InStatus B x → x ∈ C) (h : Follows B exec C host 1 d s.prog.1 s)
    (hact : ¬ Active B d.mem s.prog.1.pc) (haddr : AddressOk B s.prog.1.pc)
    (hb : isBkpt (load32 d.mem s.prog.1.pc) = true)
    (hok : StopPermitted B exec C (some d) (host s.sent)) :
    ∃ d' r', deviceStep B exec (some d) (host s.sent) = some d' ∧
      Follows B exec C host 1 d' r' (s.step B exec host) := by
  have hshows : Shows B exec C d s := h.shows
  have hctx : d.ctx = some s.prog.1 := h.mirrors.ctx
  have hword : load32 d.mem s.prog.1.pc = load32 s.prog.2 s.prog.1.pc :=
    hshows.sound.load32_eq haddr hact
  have hbkpt : s.AtBkpt := ⟨fun hp => hact ((hshows.active_iff _).mpr hp), hword ▸ hb⟩
  obtain ⟨d₁, hd₁, hat⟩ := hshows.attends hC hctx hb hok
  obtain ⟨d₂, hd₂, -, hctx₂, hshows₂⟩ := hat.continued
  rw [resumeAddress_of_not_active hact] at hctx₂
  refine ⟨d₂, s.prog.1.setPc (s.prog.1.pc + 4#32), ?_, ?_⟩
  · rw [deviceStep_stop hctx hb, hd₁, hd₂]
  · rw [step_of_atBkpt hbkpt]
    exact ⟨⟨hctx₂, hshows₂.sound, .direct _, Context.setPc_self _⟩,
      ⟨hshows₂.sound, hshows₂.active_iff, hshows₂.transcript_eq⟩, nofun⟩

/-- **One step of the device** is a step of the ideal debugger, or brings one nearer. -/
theorem Follows.step (hC : ∀ x, InStatus B x → x ∈ C) (h : Follows B exec C host n d r s)
    (hu : Undisturbed B exec C (s.attended B host).prog)
    (hok : StopPermitted B exec C (some d) cs) (hcs : cs = host (transcript d)) :
    ∃ d' r', deviceStep B exec (some d) cs = some d' ∧
      ((∃ k ≤ 2, Follows B exec C host k d' r' (s.step B exec host)) ∨
        ∃ k < n, Follows B exec C host k d' r' s) := by
  have hstands := h.mirrors.stands
  generalize hp : r.pc = p at hstands
  generalize ha : (s.seen B host n).prog.1.pc = a at hstands
  cases hstands with
  | first hi hw hpl hbr =>
      obtain ⟨d', r', hd', h'⟩ := h.first hC hp hi (ha ▸ hw) (ha ▸ hpl) (ha ▸ hbr) hu
      exact ⟨d', r', hd', Or.inl ⟨2, le_rfl, h'⟩⟩
  | second hi hbr =>
      obtain ⟨d', r', hd', hkept, h'⟩ := h.mirrors.step_second hp (ha ▸ hbr)
      exact ⟨d', r', hd', Or.inr ⟨1, by decide, h', h.shows.kept hkept h'.sound, nofun⟩⟩
  | direct =>
      have hpc : r.pc = s.prog.1.pc := hp.trans ha.symm
      obtain rfl := h.mirrors.eq_of_pc_eq hpc
      have hshows : Shows B exec C d s := h.shows
      rw [hshows.transcript_eq] at hcs
      have haddr : AddressOk B s.prog.1.pc := attended_registers (s := s) ▸ hu.address
      cases hb : isBkpt (load32 d.mem s.prog.1.pc) with
      | false =>
          have hact := hshows.sound.not_active hb
          have hpoint : ¬ s.AtPoint := fun hp => hact ((hshows.active_iff _).mpr hp)
          have hbkpt : ¬ s.AtBkpt := by
            rintro ⟨-, hown⟩
            rw [← hshows.sound.load32_eq haddr hact, hb] at hown
            cases hown
          have hatt : s.attended B host = s := attended_of_not (not_or.mpr ⟨hpoint, hbkpt⟩)
          rw [hatt] at hu
          obtain ⟨d', r', hd', hkept, h'⟩ := h.mirrors.step_direct hC rfl hu hb
          refine ⟨d', r', hd', Or.inl ⟨1, by decide, ?_⟩⟩
          rw [step_of_not_atBkpt hbkpt, hatt]
          exact ⟨h', hshows.kept hkept h'.sound, nofun⟩
      | true =>
          subst hcs
          cases hi : getBreakpoint B d.mem s.prog.1.pc with
          | some i =>
              obtain ⟨d', r', hd', h'⟩ := h.stopped hC hi hb hok
              exact ⟨d', r', hd', Or.inr ⟨0, by decide, h'⟩⟩
          | none =>
              have hact := getBreakpoint_eq_none_iff.mp hi
              obtain ⟨d', r', hd', h'⟩ := h.passed hC hact haddr hb hok
              exact ⟨d', r', hd', Or.inl ⟨1, by decide, h'⟩⟩

/-! ## Runs -/

/-- **The host sees the ideal debugger.** Over any run of the device, with any host that sends
permitted commands in the stops, chosen by what it has received, and any program that does not use
the bytes of the debugger as data: the device is where the ideal debugger is after some number of
instructions (in a trampoline, with the stop before the next one over). The host has received the
same bytes, no stop is missed and none is added; the registers, the breakpoints and the memory that
it can see are the same. At most two of three steps of the device are the debugger's. -/
theorem debugged_refines (B : Board) (exec : Exec) (C : Set Word)
    (host : List Byte → List CmdBytes) (s₀ : Ideal) (d : Dev) (css : List (List CmdBytes))
    (hC : ∀ x, InStatus B x → x ∈ C) (hctx : d.ctx = some s₀.prog.1)
    (hshows : Shows B exec C d s₀)
    (hprog : ∀ j < css.length,
      Undisturbed B exec C (((Ideal.step B exec host)^[j] s₀).attended B host).prog)
    (hok : Guarded (deviceStep B exec)
      (fun s cs => StopPermitted B exec C s cs ∧ ∀ d ∈ s, cs = host (transcript d)) (some d) css) :
    ∃ d' r' s s' j, run (deviceStep B exec) (some d) css = some d' ∧ d'.ctx = some r' ∧
      s = (Ideal.step B exec host)^[j] s₀ ∧ j ≤ css.length ∧ css.length ≤ 3 * j + 1 ∧
      (s' = s ∨ s.AtPoint ∧ s' = s.attended B host) ∧
      transcript d' = s'.sent ∧ r'.setPc s'.prog.1.pc = s'.prog.1 ∧
      (∀ a, Active B d'.mem a ↔ a ∈ s'.points.active) ∧
      ∀ x, ¬ InStatus B x → d'.mem x = s'.view x := by
  have hfirst : Follows B exec C host 1 d s₀.prog.1 s₀ :=
    ⟨⟨hctx, hshows.sound, .direct _, Context.setPc_self _⟩, hshows, nofun⟩
  have hstart : ∃ d' r', some d = some d' ∧ Follows B exec C host 1 d' r' s₀ :=
    ⟨d, _, rfl, hfirst⟩
  have hrun := hok.stutter (Ideal.step B exec host)
    (fun n s t => ∃ d' r', s = some d' ∧ Follows B exec C host n d' r' t)
    (fun t => Undisturbed B exec C (t.attended B host).prog) 2 ?_ hstart hprog
  · obtain ⟨k, j, ⟨d', r', hd', h⟩, hj, hle⟩ := hrun
    refine ⟨d', r', _, _, j, hd', h.mirrors.ctx, rfl, hj, by omega, ?_, h.shows.transcript_eq,
      h.mirrors.registers, h.shows.active_iff, fun x hx => h.shows.mem_eq hx⟩
    by_cases hk : k = 0
    · exact Or.inr ⟨h.atPoint hk, if_pos hk⟩
    · exact Or.inl (if_neg hk)
  · rintro n s t cs ⟨d', r', rfl, h⟩ hu ⟨hcs, hhost⟩
    obtain ⟨d'', r'', hd'', hstep⟩ := h.step hC hu hcs (hhost d' rfl)
    rcases hstep with ⟨k, hk, h'⟩ | ⟨k, hk, h'⟩
    · exact Or.inl ⟨k, hk, d'', r'', hd'', h'⟩
    · exact Or.inr ⟨k, hk, d'', r'', hd'', h'⟩

/-! ## Examples -/

/-- A host that asks for the registers and plants the breakpoint of the next stop in the first stop,
and nothing afterwards. -/
def hostSample (received : List Byte) : List CmdBytes :=
  if received = [] then [Host.getRegisters, Host.insertBreakpoint 0x8D001004#32] else []

/-- The program before its first instruction, with the breakpoint on it. -/
def idealSample : Ideal := ⟨(contextSample, nopMemory), ⟨{0x8D001000#32}, by decide⟩, []⟩

theorem shows_idealSample :
    Shows Board.sample nop codeSample runningSample idealSample := by
  refine ⟨sound_runningSample, fun a => ?_, by decide +kernel⟩
  have hentries : (entries Board.sample runningSample.mem).map Entry.address =
      [0x8D001000#32] := by decide +kernel
  have hactive : Active Board.sample runningSample.mem a ↔
      a ∈ (entries Board.sample runningSample.mem).map Entry.address := List.mem_map.symm
  rw [hactive, hentries]
  simp [idealSample]

/-- What the host sends in the first stop of the sample. -/
theorem stopPermitted_sample : StopPermitted Board.sample nop codeSample (some runningSample)
    [Host.getRegisters, Host.insertBreakpoint 0x8D001004#32] := by
  rintro d hd r hr -
  obtain rfl : runningSample = d := Option.some.inj hd
  obtain rfl : contextSample = r := Option.some.inj hr
  have hkeeps : ∀ i ∈ getBreakpoint Board.sample runningSample.mem contextSample.pc,
      KeepsSlot Board.sample i contextSample.pc
          (some (enter Board.sample runningSample contextSample)) Host.getRegisters ∧
        KeepsSlot Board.sample i contextSample.pc
          (serve Board.sample (some (enter Board.sample runningSample contextSample))
            Host.getRegisters) (Host.insertBreakpoint 0x8D001004#32) := by decide +kernel
  have hregisters (m : Memory) :
      CommandPermitted Board.sample nop codeSample m Host.getRegisters :=
    Or.inl ⟨⟨by decide, by decide, fun hk => absurd hk (by decide),
      fun hk => absurd hk (by decide)⟩, fun hk => absurd hk (by decide)⟩
  refine ⟨⟨fun d' _ => hregisters _, fun i hi => (hkeeps i hi).1⟩,
    ⟨fun d' hd' => ?_, fun i hi => (hkeeps i hi).2⟩, trivial⟩
  have hword : ∀ d' ∈ serve Board.sample
      (some (enter Board.sample runningSample contextSample)) Host.getRegisters,
      load32 d'.mem 0x8D001004#32 = 0xe1a00000#32 := by decide +kernel
  refine Or.inl ⟨⟨by decide, by decide, fun _ => Or.inr ?_, fun hk => absurd hk (by decide)⟩,
    fun hk => absurd hk (by decide)⟩
  rw [addr_insertBreakpoint]
  refine ⟨by decide, by decide +kernel, ?_, fun x hx => Or.inr (Or.inr hx)⟩
  rw [hword d' hd']
  exact plain_nop (by decide) (by decide)

/-- After the first stop, the host sends nothing. -/
theorem host_sample {o : Option Dev} (h : ∀ d ∈ o, transcript d ≠ []) :
    ∀ d ∈ o, [] = hostSample (transcript d) := fun d hd => (if_neg (h d hd)).symm

theorem guarded_sample : Guarded (deviceStep Board.sample nop)
    (fun s cs => StopPermitted Board.sample nop codeSample s cs ∧
      ∀ d ∈ s, cs = hostSample (transcript d)) (some runningSample)
    [hostSample [], [], [], []] := by
  have hnone : ∀ s, StopPermitted Board.sample nop codeSample s [] := fun _ _ _ _ _ _ => trivial
  refine ⟨⟨stopPermitted_sample, ?_⟩, ⟨hnone _, host_sample ?_⟩, ⟨hnone _, host_sample ?_⟩,
    ⟨hnone _, host_sample ?_⟩, trivial⟩
  · rintro d hd
    obtain rfl : runningSample = d := Option.some.inj hd
    have hsilent : transcript runningSample = [] := by decide +kernel
    rw [hsilent]
  · decide +kernel
  · decide +kernel
  · decide +kernel

/-- The stop, the two words of the trampoline, and the next stop. -/
theorem debugged_refines_sample :
    ∃ d' r' s s' j, run (deviceStep Board.sample nop) (some runningSample)
        [hostSample [], [], [], []] = some d' ∧ d'.ctx = some r' ∧
      s = (Ideal.step Board.sample nop hostSample)^[j] idealSample ∧ j ≤ 4 ∧ 4 ≤ 3 * j + 1 ∧
      (s' = s ∨ s.AtPoint ∧ s' = s.attended Board.sample hostSample) ∧
      transcript d' = s'.sent ∧ r'.setPc s'.prog.1.pc = s'.prog.1 ∧
      (∀ a, Active Board.sample d'.mem a ↔ a ∈ s'.points.active) ∧
      ∀ x, ¬ InStatus Board.sample x → d'.mem x = s'.view x := by
  have haddr : ∀ j < 4, AddressOk Board.sample
      ((Ideal.step Board.sample nop hostSample)^[j] idealSample).prog.1.pc := by decide +kernel
  have hprog : ∀ j < 4, Undisturbed Board.sample nop codeSample
      (((Ideal.step Board.sample nop hostSample)^[j] idealSample).attended Board.sample
        hostSample).prog := by
    intro j hj
    refine ⟨?_, fun _ _ => ⟨fun _ _ => rfl, fun _ h => h, fun _ _ _ _ => rfl⟩⟩
    rw [attended_registers]
    exact haddr j hj
  exact debugged_refines Board.sample nop codeSample hostSample idealSample runningSample
    [hostSample [], [], [], []] (fun x hx => Or.inl hx) rfl shows_idealSample hprog guarded_sample

end Hbootdbg.Stop
