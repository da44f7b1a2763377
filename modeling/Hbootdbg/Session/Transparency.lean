import Hbootdbg.Session.Serve
import Hbootdbg.Host.Command

/-!
# Breakpoints and the memory commands

`cmd_read` and `cmd_write` work on real memory and know nothing of the table: a read shows the
breakpoint instructions, and a byte written into an active word is lost when `remove_breakpoint`
puts the saved word back.

* `Shadow` — a device with three ghost memories: the *logical* one, to which every acknowledged
  write is applied; the *retained* one, to which only the bytes outside the active words are; and
  the *shown* one, which has what stands in the active words.
* `shadowStep` — one command, and what it does to them.
* `Shadowed` — the invariant: real memory is the shown one in the active words and the retained
  one elsewhere, and each slot saves the retained word. `Shadowed.step` is its step lemma.
* `memory_commands` — over runs: what a read returns, what memory is once the breakpoints are
  removed, and when the retained memory is the logical one.
-/

namespace Hbootdbg.Session

open Hbootdbg.Lib.ByteMem Hbootdbg.Lib.Run Hbootdbg.Device Hbootdbg.Table

/-! ## What a read sends -/

/-- The bytes of a range depend on that range only. -/
theorem bytes_congr {m m' : Memory} {a : Word} {n : ℕ} (hn : n ≤ 2 ^ 32)
    (h : ∀ x, InSpan a n x → m x = m' x) : bytes m a n = bytes m' a n := by
  refine List.map_congr_left fun i hi => h _ ?_
  have hi' := List.mem_range.mp hi
  unfold InSpan
  rwa [toNat_off_sub a (by omega)]

/-! ## The ghost memories -/

/-- A device, with the ghost memories. -/
structure Shadow where
  /-- The device; `none` when a command does not return. -/
  dev : Option Dev
  /-- Every acknowledged write applied. -/
  logical : Memory
  /-- Every acknowledged write applied, outside the words active at the time. -/
  retained : Memory
  /-- What was planted or written last in the words active at the time. -/
  shown : Memory

/-- `x` is a byte of an active word. -/
def Covered (B : Board) (m : Memory) (x : Word) : Prop := ∃ e ∈ entries B m, InSpan e.address 4 x

instance (B : Board) (m : Memory) (x : Word) : Decidable (Covered B m x) :=
  inferInstanceAs (Decidable (∃ e ∈ entries B m, _))

/-- What the memory commands work on: the shown byte in an active word, else the retained one. -/
def Shadow.view (B : Board) (s : Shadow) (m : Memory) : Memory := fun x =>
  if Covered B m x then s.shown x else s.retained x

/-- The device acknowledged its last command, of the given type. -/
def Acknowledged (t : CmdType) (d' : Dev) : Prop :=
  d'.out.getLast? = some (.usbSend [t.code, ErrorCode.success.code])

instance (t : CmdType) (d' : Dev) : Decidable (Acknowledged t d') :=
  inferInstanceAs (Decidable (_ = _))

/-- What a command that took the device from `d` to `d'` does to the ghost memories. -/
def Shadow.after (B : Board) (s : Shadow) (d d' : Dev) (c : CmdBytes) : Shadow :=
  match kind c with
  | some .write =>
      if Acknowledged .write d' then
        { dev := some d'
          logical := patch s.logical c.addr c.size.toNat c.data
          retained := fun x =>
            if Covered B d.mem x then s.retained x
            else patch s.retained c.addr c.size.toNat c.data x
          shown := patch s.shown c.addr c.size.toNat c.data }
      else { s with dev := some d' }
  | some .insertBreakpoint =>
      if Acknowledged .insertBreakpoint d' then
        { s with dev := some d', shown := store32 s.shown c.addr armBkpt }
      else { s with dev := some d' }
  | _ => { s with dev := some d' }

/-- One command. -/
def shadowStep (B : Board) (s : Shadow) (c : CmdBytes) : Shadow :=
  match s.dev, serve B s.dev c with
  | some d, some d' => s.after B d d' c
  | _, _ => { s with dev := none }

/-- A device with an empty table, before its first command. -/
def Shadow.start (B : Board) (d : Dev) : Shadow where
  dev := some { d with mem := dbgInit B d.mem }
  logical := d.mem
  retained := d.mem
  shown := d.mem

/-- The range of a memory command shares no byte with the object. -/
def RangeOutside (B : Board) (c : CmdBytes) : Prop :=
  c.size = 0#32 ∨ Apart c.addr c.size.toNat B.status sizeofStatus

instance (B : Board) (c : CmdBytes) : Decidable (RangeOutside B c) :=
  inferInstanceAs (Decidable (_ ∨ _))

/-- The breakpoint commands at word-aligned addresses and the memory commands, all outside the
object. -/
def MemoryCmd (B : Board) (c : CmdBytes) : Prop :=
  ((kind c = some .insertBreakpoint ∨ kind c = some .removeBreakpoint) ∧ AddressOk B c.addr) ∨
    ((kind c = some .read ∨ kind c = some .write) ∧ RangeOutside B c)

instance (B : Board) (c : CmdBytes) : Decidable (MemoryCmd B c) :=
  inferInstanceAs (Decidable (_ ∨ _))

/-- A write that shares no byte with an active word. -/
def WritesUncovered (B : Board) (s : Shadow) (c : CmdBytes) : Prop :=
  kind c = some .write → ∀ d ∈ s.dev, ∀ x, InSpan c.addr c.size.toNat x → ¬ Covered B d.mem x

/-! ## The invariant -/

/-- Real memory, as the ghost memories describe it. -/
structure Shadowed (B : Board) (s : Shadow) (d : Dev) : Prop where
  dev : s.dev = some d
  tracks : Tracks B s.retained d.mem
  aligned : ∀ e ∈ entries B d.mem, e.address.toNat % 4 = 0
  shown : ∀ x, Covered B d.mem x → d.mem x = s.shown x

variable {B : Board} {s : Shadow} {d d' : Dev} {c : CmdBytes}

theorem RangeOutside.not_inStatus (h : RangeOutside B c) {x : Word}
    (hx : InSpan c.addr c.size.toNat x) : ¬ InStatus B x := by
  rcases h with hz | hap
  · unfold InSpan at hx
    simp [hz] at hx
  · exact hap.not_inSpan hx

/-- **Outside the object, real memory is the view.** -/
theorem Shadowed.eq_view (h : Shadowed B s d) {x : Word} (hx : ¬ InStatus B x) :
    d.mem x = s.view B d.mem x := by
  unfold Shadow.view
  split_ifs with hcov
  · exact h.shown x hcov
  · exact h.tracks.frame x hx fun e he hin => hcov ⟨e, he, hin⟩

theorem shadowed_start (B : Board) (d : Dev) :
    Shadowed B (.start B d) { d with mem := dbgInit B d.mem } := by
  constructor
  · rfl
  · dsimp only [Shadow.start]
    exact tracks_dbgInit
  · simp
  · simp [Covered]

/-- A command that changes nothing that the invariant reads. -/
theorem Shadowed.of_mem_eq (h : Shadowed B s d) (hm : d'.mem = d.mem) :
    Shadowed B { s with dev := some d' } d' :=
  ⟨rfl, hm ▸ h.tracks, hm ▸ h.aligned, hm ▸ h.shown⟩

/-- A word-aligned address that is not active is apart from the active words. -/
theorem Shadowed.apart (h : Shadowed B s d) {a : Word} (ha : a.toNat % 4 = 0)
    (hnew : ¬ Active B d.mem a) : ∀ e ∈ entries B d.mem, Apart e.address 4 a 4 := fun e he =>
  apart_of_aligned (h.aligned e he) ha fun hea => hnew ⟨e, he, hea⟩

theorem Shadowed.insert (h : Shadowed B s d) (hk : kind c = some .insertBreakpoint)
    (hc : AddressOk B c.addr) : ∃ d', Shadowed B (shadowStep B s c) d' := by
  obtain ⟨d', hd', hm, -, hout⟩ := serve_insert (B := B) (d := d) hk
  have hack : Acknowledged .insertBreakpoint d' ↔
      (insertBreakpoint B d.mem c.addr c.bpType).2 = .success := by
    unfold Acknowledged
    rw [hout, List.getLast?_concat]
    cases (insertBreakpoint B d.mem c.addr c.bpType).2 <;> decide
  have hstep : shadowStep B s c = s.after B d d' c := by simp only [shadowStep, h.dev, hd']
  refine ⟨d', ?_⟩
  rw [hstep]
  simp only [Shadow.after, hk, hack]
  rcases insertBreakpoint_cases (m := d.mem) hc.outside c.bpType with
    ⟨-, he⟩ | ⟨-, -, he⟩ | ⟨hs, hins⟩
  · rw [he, if_neg (by simp)]
    exact h.of_mem_eq (by rw [hm, he])
  · rw [he, if_neg (by simp)]
    exact h.of_mem_eq (by rw [hm, he])
  · rw [if_pos hs]
    have hap := h.apart hc.1 hins.inactive
    rw [← hm] at hins
    refine ⟨rfl, h.tracks.inserted hc.outside hap hins, fun e he => ?_, ?_⟩
    · rcases (mem_entries_inserted hins).mp he with he | rfl
      · exact h.aligned e he
      · exact hc.1
    · rintro x ⟨e, he, hin⟩
      rcases (mem_entries_inserted hins).mp he with he | rfl
      · have hxa : ¬ InSpan c.addr 4 x := (hap e he).not_inSpan hin
        rw [hins.frame x ((h.tracks.outside e he).not_inSpan hin) hxa, h.shown x ⟨e, he, hin⟩]
        exact (patch_of_not_inSpan hxa).symm
      · exact eq_of_load32_eq (hins.planted.trans (load32_store32 _ _ _ (by decide)).symm) hin

theorem Shadowed.remove (h : Shadowed B s d) (hk : kind c = some .removeBreakpoint)
    (hc : AddressOk B c.addr) : ∃ d', Shadowed B (shadowStep B s c) d' := by
  obtain ⟨d', hd', hm, -, -⟩ := serve_remove (B := B) (d := d) hk
  have hstep : shadowStep B s c = s.after B d d' c := by simp only [shadowStep, h.dev, hd']
  refine ⟨d', ?_⟩
  rw [hstep]
  simp only [Shadow.after, hk]
  rcases removeBreakpoint_cases hc.outside h.tracks.size c.bpType with ⟨-, he⟩ | ⟨-, i, hrem⟩
  · exact h.of_mem_eq (by rw [hm, he])
  · rw [← hm] at hrem
    have hmem := fun e => h.tracks.mem_entries_removed hrem (e := e)
    refine ⟨rfl, h.tracks.removed hrem, fun e he => h.aligned e ((hmem e).mp he).1, ?_⟩
    rintro x ⟨e, he, hin⟩
    obtain ⟨he, hne⟩ := (hmem e).mp he
    have hxa : ¬ InSpan c.addr 4 x :=
      (apart_of_aligned (h.aligned e he) hc.1 hne).not_inSpan hin
    rw [hrem.frame x ((h.tracks.outside e he).not_inSpan hin) hxa]
    exact h.shown x ⟨e, he, hin⟩

/-- An acknowledged write, on the ghost memories and on the real one. -/
theorem Shadowed.written (h : Shadowed B s d) (hc : RangeOutside B c)
    (hm : d'.mem = patch d.mem c.addr c.size.toNat c.data) :
    Shadowed B
      { dev := some d'
        logical := patch s.logical c.addr c.size.toNat c.data
        retained := fun x =>
          if Covered B d.mem x then s.retained x
          else patch s.retained c.addr c.size.toNat c.data x
        shown := patch s.shown c.addr c.size.toNat c.data } d' := by
  have hkeep : ∀ x, InStatus B x → d'.mem x = d.mem x := fun x hx => by
    rw [hm]
    exact patch_of_not_inSpan fun hin => hc.not_inStatus hin hx
  have hent := entries_congr hkeep h.tracks.size
  have hcov : ∀ x, Covered B d'.mem x ↔ Covered B d.mem x := fun x => by unfold Covered; rw [hent]
  constructor
  · rfl
  · constructor
    · rw [bpSize_congr hkeep]
      exact h.tracks.size
    · rw [hent]
      exact h.tracks.apart
    · rw [hent]
      exact h.tracks.outside
    · rw [hent]
      intro e he
      rw [h.tracks.saved e he]
      exact load32_congr (by decide) fun x hx => (if_pos ⟨e, he, hx⟩).symm
    · intro x hx hall
      have hnot : ¬ Covered B d.mem x := fun hc => by
        obtain ⟨e, he, hin⟩ := (hcov x).mpr hc
        exact hall e he hin
      simp only [hm, if_neg hnot, patch]
      rw [h.tracks.frame x hx fun e he hin => hnot ⟨e, he, hin⟩]
  · rw [hent]
    exact h.aligned
  · intro x hx
    rw [hm]
    unfold patch
    rw [h.shown x ((hcov x).mp hx)]

/-- **A command that returns keeps the invariant.** -/
theorem Shadowed.step (h : Shadowed B s d) (hc : MemoryCmd B c) :
    (shadowStep B s c).dev = none ∨ ∃ d', Shadowed B (shadowStep B s c) d' := by
  rcases hc with ⟨hk | hk, hc⟩ | ⟨hk | hk, hc⟩
  · exact Or.inr (h.insert hk hc)
  · exact Or.inr (h.remove hk hc)
  · obtain ⟨d', hd', hm, -, -⟩ := serve_read (B := B) (d := d) hk
    refine Or.inr ⟨d', ?_⟩
    have hstep : shadowStep B s c = s.after B d d' c := by simp only [shadowStep, h.dev, hd']
    rw [hstep]
    simp only [Shadow.after, hk]
    exact h.of_mem_eq hm
  · rcases serve_write (B := B) (d := d) hk with
      ⟨-, ⟨-, hnone⟩ | ⟨d', hd', hm, -, hout⟩⟩ | ⟨-, d', hd', hm, -, hout⟩
    · exact Or.inl (by simp only [shadowStep, h.dev, hnone])
    · refine Or.inr ⟨d', ?_⟩
      have hstep : shadowStep B s c = s.after B d d' c := by simp only [shadowStep, h.dev, hd']
      have hack : Acknowledged .write d' := by
        unfold Acknowledged
        rw [hout, List.getLast?_concat]
      rw [hstep]
      simp only [Shadow.after, hk, if_pos hack]
      exact h.written hc hm
    · refine Or.inr ⟨d', ?_⟩
      have hstep : shadowStep B s c = s.after B d d' c := by simp only [shadowStep, h.dev, hd']
      have hack : ¬ Acknowledged .write d' := by
        unfold Acknowledged
        rw [hout, List.getLast?_concat]
        decide
      rw [hstep]
      simp only [Shadow.after, hk, if_neg hack]
      exact h.of_mem_eq hm

/-! ## Runs -/

/-- After a run, there is no device, or the invariant holds. -/
theorem shadowed_run (B : Board) (d : Dev) (cs : List CmdBytes) (hcs : ∀ c ∈ cs, MemoryCmd B c)
    {d' : Dev} (hd' : (run (shadowStep B) (.start B d) cs).dev = some d') :
    Shadowed B (run (shadowStep B) (.start B d) cs) d' := by
  have hstep : ∀ s c, (s.dev = none ∨ ∃ d, Shadowed B s d) → MemoryCmd B c →
      ((shadowStep B s c).dev = none ∨ ∃ d, Shadowed B (shadowStep B s c) d) := by
    rintro s c (hnone | ⟨d, h⟩) hc
    · left
      simp only [shadowStep, hnone]
    · exact h.step hc
  have hok : Guarded (shadowStep B) (fun _ c => MemoryCmd B c) (.start B d) cs :=
    guarded_of_forall fun c hc _ => hcs c hc
  rcases hok.run_invariant hstep (Or.inr ⟨_, shadowed_start B d⟩) with hnone | ⟨d₁, h⟩
  · rw [hnone] at hd'
    cases hd'
  · obtain rfl : d₁ = d' := Option.some.inj (h.dev.symm.trans hd')
    exact h

/-- A write outside the active words reaches both ghost memories alike. -/
theorem retained_eq_logical_step (h : s.retained = s.logical) (hc : WritesUncovered B s c) :
    (shadowStep B s c).retained = (shadowStep B s c).logical := by
  unfold shadowStep
  split
  · next d d' hd _ =>
    unfold Shadow.after
    split
    · next hk =>
      split_ifs
      · funext x
        simp only
        split_ifs with hcov
        · rw [h]
          exact (patch_of_not_inSpan fun hin => hc hk d hd x hin hcov).symm
        · rw [h]
      · exact h
    · split_ifs <;> exact h
    · exact h
  · exact h

/-- **What the memory commands do over a run.** After any run from an empty table: a read of a
mapped range sends the view of it, which is the retained memory outside the active words and what
was planted or written last in them; once no breakpoint is left, memory is the retained memory;
and where no write of the run shared a byte with an active word, the retained memory is the
logical one. -/
theorem memory_commands (B : Board) (d : Dev) (cs : List CmdBytes)
    (hcs : ∀ c ∈ cs, MemoryCmd B c) :
    let s := run (shadowStep B) (.start B d) cs
    (∀ d', s.dev = some d' →
      (∀ c, kind c = some .read → RangeOutside B c →
        mmuProbeRead B d'.mem c.addr c.size = true →
        ∃ d'' : Dev, ∃ packets : List (List Byte), serve B s.dev c = some d'' ∧
          d''.out = d'.out ++ .usbSend [CmdType.read.code, ErrorCode.success.code] ::
            packets.map .usbSend ∧
          packets.flatten = bytes (s.view B d'.mem) c.addr c.size.toNat) ∧
      (entries B d'.mem = [] → ∀ x, ¬ InStatus B x → d'.mem x = s.retained x)) ∧
    (Guarded (shadowStep B) (WritesUncovered B) (.start B d) cs → s.retained = s.logical) := by
  intro s
  refine ⟨fun d' hd' => ?_, fun hg => ?_⟩
  · have h : Shadowed B s d' := shadowed_run B d cs hcs hd'
    refine ⟨fun c hk hc hmap => ?_, fun hnil x hx => h.tracks.eq_of_entries_nil hnil hx⟩
    obtain ⟨d'', hd'', -, -, hout⟩ := serve_read (B := B) (d := d') hk
    rw [if_pos hmap] at hout
    refine ⟨d'', _, hd' ▸ hd'', hout, ?_⟩
    rw [readPackets_flatten _ le_rfl]
    exact bytes_congr c.size.isLt.le fun x hx => h.eq_view (hc.not_inStatus hx)
  · exact hg.run_invariant (P := fun s => s.retained = s.logical)
      (fun s c h hc => retained_eq_logical_step h hc) rfl

/-- A device at rest, with memory all ones: every section is mapped. -/
def mappedSample : Dev := { Dev.sample with mem := fun _ => 0xff#8 }

/-- A read shows the breakpoint, and a write into an active word is lost when the breakpoint is
removed. -/
theorem breakpoints_not_transparent :
    (∀ c ∈ [Host.insertBreakpoint 0x8D001000#32, Host.write 0x8D001000#32 4#32 0x12345678#32,
        Host.removeBreakpoint 0x8D001000#32], MemoryCmd Board.sample c) ∧
      (let s := run (shadowStep Board.sample) (.start Board.sample mappedSample)
          [Host.insertBreakpoint 0x8D001000#32];
        ((serve Board.sample s.dev (Host.read 0x8D001000#32 4#32)).bind fun d => d.out.getLast?) =
            some (.usbSend [0x70#8, 0x00#8, 0x20#8, 0xe1#8]) ∧
          bytes s.logical 0x8D001000#32 4 = [0xff#8, 0xff#8, 0xff#8, 0xff#8]) ∧
      (let s := run (shadowStep Board.sample) (.start Board.sample mappedSample)
          [Host.insertBreakpoint 0x8D001000#32, Host.write 0x8D001000#32 4#32 0x12345678#32,
            Host.removeBreakpoint 0x8D001000#32];
        (s.dev.map fun d => (bpSize Board.sample d.mem, bytes d.mem 0x8D001000#32 4)) =
            some (0#32, [0xff#8, 0xff#8, 0xff#8, 0xff#8]) ∧
          bytes s.logical 0x8D001000#32 4 = [0x12#8, 0x34#8, 0x56#8, 0x78#8]) := by
  decide +kernel

/-- A write next to a breakpoint is not lost. -/
theorem memory_commands_sample :
    ((run (shadowStep Board.sample) (.start Board.sample mappedSample)
        [Host.insertBreakpoint 0x8D001000#32, Host.write 0x8D001004#32 4#32 0x12345678#32,
          Host.removeBreakpoint 0x8D001000#32]).dev.map fun d => d.mem 0x8D001004#32) =
      some 0x12#8 := by
  have h := (memory_commands Board.sample mappedSample
    [Host.insertBreakpoint 0x8D001000#32, Host.write 0x8D001004#32 4#32 0x12345678#32,
      Host.removeBreakpoint 0x8D001000#32] (by decide +kernel)).1
  have hsize : ((run (shadowStep Board.sample) (.start Board.sample mappedSample)
      [Host.insertBreakpoint 0x8D001000#32, Host.write 0x8D001004#32 4#32 0x12345678#32,
        Host.removeBreakpoint 0x8D001000#32]).dev.map fun d => bpSize Board.sample d.mem) =
      some 0#32 := by decide +kernel
  obtain ⟨d', hd', h0⟩ := Option.map_eq_some_iff.mp hsize
  have hnil : entries Board.sample d'.mem = [] := by
    unfold entries
    rw [h0]
    rfl
  rw [hd', Option.map_some, (h d' hd').2 hnil 0x8D001004#32 (by decide)]
  decide +kernel

end Hbootdbg.Session
