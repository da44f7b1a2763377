import Hbootdbg.Session.Serve
import Hbootdbg.Host.Command

/-!
# Words left replaced by a re-attach

`CMD_ATTACH` runs `dbg_init`, which clears the table and leaves the patched words as they are; the
field `initialized` that could tell a first attach from a later one is never read.

* `AuditState` — a device with a ledger of the words the debugger replaced and did not restore.
* `step` — one command, and the entry it makes in the ledger.
* `Accounted` — every word of the ledger has a slot that holds it, so that a removal restores it.
* `AttachesEmpty` — the guard: an attach finds an empty table.
* `Ledger.step`, `Ledger.attachesEmpty` — one command, in both directions.
* `accounted_throughout_iff` — over runs, after a first attach: every replaced word is accounted
  for throughout iff every later attach finds an empty table.
-/

namespace Hbootdbg.Session

open Hbootdbg.Lib.ByteMem Hbootdbg.Lib.Run Hbootdbg.Device Hbootdbg.Table

/-- A device, with the words that the debugger replaced by `ARM_BKPT` and did not restore. -/
structure AuditState where
  /-- The device; `none` when a command does not return. -/
  dev : Option Dev
  /-- The word that was replaced at an address. -/
  replaced : Word → Option Word

/-- The entry of one command in the ledger: a successful insertion replaces the word at its
address, unless it is one that the debugger had replaced already; a successful removal restores
it. -/
def record (B : Board) (m : Memory) (replaced : Word → Option Word) (c : CmdBytes) :
    Word → Option Word :=
  match kind c with
  | some .insertBreakpoint =>
      if (insertBreakpoint B m c.addr c.bpType).2 = .success then
        Function.update replaced c.addr (some ((replaced c.addr).getD (load32 m c.addr)))
      else replaced
  | some .removeBreakpoint =>
      if (removeBreakpoint B m c.addr c.bpType).2 = .success then
        Function.update replaced c.addr none
      else replaced
  | _ => replaced

/-- One command of a session. -/
def step (B : Board) (s : AuditState) (c : CmdBytes) : AuditState where
  dev := serve B s.dev c
  replaced :=
    match s.dev with
    | none => s.replaced
    | some d => record B d.mem s.replaced c

/-- Every replaced word has an active entry that holds it, and removing its breakpoint succeeds
and restores it. -/
def Accounted (B : Board) (s : AuditState) : Prop :=
  ∃ d, s.dev = some d ∧ ∀ a w, s.replaced a = some w →
    (∃ e ∈ entries B d.mem, e.address = a ∧ e.original = w) ∧
      ∀ t, (removeBreakpoint B d.mem a t).2 = .success ∧
        load32 (removeBreakpoint B d.mem a t).1 a = w

/-- An attach that finds an empty table. -/
def AttachesEmpty (B : Board) (s : AuditState) (c : CmdBytes) : Prop :=
  kind c = some .attach → ∀ d ∈ s.dev, (bpSize B d.mem).toNat = 0

instance (B : Board) (s : AuditState) : DecidablePred (AttachesEmpty B s) := fun _ =>
  inferInstanceAs (Decidable (_ → ∀ d ∈ s.dev, _))

/-- The session and breakpoint commands, at word-aligned addresses outside the object. -/
def SessionCmd (B : Board) (c : CmdBytes) : Prop :=
  kind c = some .attach ∨ kind c = some .detach ∨
    ((kind c = some .insertBreakpoint ∨ kind c = some .removeBreakpoint) ∧ AddressOk B c.addr)

instance (B : Board) (c : CmdBytes) : Decidable (SessionCmd B c) :=
  inferInstanceAs (Decidable (_ ∨ _ ∨ _))

/-! ## The invariant -/

/-- The ledger is the table: what `step` keeps as long as attaches find the table empty. -/
structure Ledger (B : Board) (s : AuditState) (d : Dev) : Prop where
  dev : s.dev = some d
  refines : ∃ L A, Refines B L d.mem A
  iff : ∀ a w, s.replaced a = some w ↔ ∃ e ∈ entries B d.mem, e.address = a ∧ e.original = w

variable {B : Board} {s : AuditState} {d : Dev} {c : CmdBytes}

/-- Where the ledger is the table, every replaced word is accounted for. -/
theorem Ledger.accounted (h : Ledger B s d) : Accounted B s := by
  obtain ⟨L, A, hA⟩ := h.refines
  refine ⟨d, h.dev, fun a w haw => ?_⟩
  obtain ⟨e, he, rfl, rfl⟩ := (h.iff a w).mp haw
  refine ⟨⟨e, he, rfl, rfl⟩, fun t => ?_⟩
  rcases removeBreakpoint_cases (hA.tracks.outside e he) hA.tracks.size t with
    ⟨hno, -⟩ | ⟨hs, i, hrem⟩
  · exact absurd ⟨e, he, rfl⟩ hno
  · refine ⟨hs, ?_⟩
    rw [hrem.restored, hA.tracks.saved _ hrem.mem_entries, hA.tracks.saved e he, hrem.address_eq]

/-- An attach leaves an empty table. -/
theorem refines_attach (m : Memory) :
    Refines B (intInstallExceptionHandlers B (dbgInit B m))
      (intInstallExceptionHandlers B (dbgInit B m)) .empty ∧
      entries B (intInstallExceptionHandlers B (dbgInit B m)) = [] := by
  have hkeep : ∀ x, InStatus B x →
      intInstallExceptionHandlers B (dbgInit B m) x = dbgInit B m x := fun x hx =>
    store32_apply_inStatus outsideStatus_vector hx
  have hsize : bpSize B (intInstallExceptionHandlers B (dbgInit B m)) = 0#32 :=
    (bpSize_congr hkeep).trans (load32_dbgInit (by decide))
  have hnil : entries B (intInstallExceptionHandlers B (dbgInit B m)) = [] := by
    unfold entries
    rw [hsize]
    rfl
  refine ⟨⟨?_, by simp [Planted, hnil], fun a => ?_, ?_⟩, hnil⟩
  · constructor
    · rw [hsize]
      exact Nat.zero_le _
    · simp [hnil]
    · simp [hnil]
    · simp [hnil]
    · exact fun _ _ _ => rfl
  · simp [Active, hnil, BreakpointSet.empty]
  · simp [BreakpointSet.empty]

/-- After an attach that found an empty ledger, the ledger is the table. -/
theorem ledger_attach (hs : s.dev = some d) (hnil : ∀ a, s.replaced a = none)
    (hk : kind c = some .attach) : ∃ d', Ledger B (step B s c) d' := by
  obtain ⟨d', hd', hm, -, -⟩ := serve_attach (B := B) (d := d) hk
  obtain ⟨href, hent⟩ := refines_attach (B := B) d.mem
  refine ⟨d', ?_, ⟨_, _, hm ▸ href⟩, fun a w => ?_⟩
  · simp [step, hs, hd']
  · rw [hm, hent]
    simp [step, hs, record, hk, hnil]

/-! ## Steps -/

/-- A command that changes neither the table nor the ledger keeps them together. -/
theorem Ledger.of_mem_eq (h : Ledger B s d) {s' : AuditState} {d' : Dev} (hdev : s'.dev = some d')
    (hrep : s'.replaced = s.replaced) (hm : d'.mem = d.mem) : Ledger B s' d' :=
  ⟨hdev, hm ▸ h.refines, by rw [hrep, hm]; exact h.iff⟩

theorem Ledger.insert (h : Ledger B s d) (hk : kind c = some .insertBreakpoint)
    (hc : AddressOk B c.addr) : ∃ d', Ledger B (step B s c) d' := by
  obtain ⟨L, A, hA⟩ := h.refines
  obtain ⟨d', hd', hm, -, -⟩ := serve_insert (B := B) (d := d) hk
  have hdev : (step B s c).dev = some d' := by simp [step, h.dev, hd']
  have hrec : (step B s c).replaced = record B d.mem s.replaced c := by simp [step, h.dev]
  refine ⟨d', ?_⟩
  rcases insertBreakpoint_cases (m := d.mem) hc.outside c.bpType with
    ⟨-, he⟩ | ⟨-, -, he⟩ | ⟨hs, hins⟩
  · exact h.of_mem_eq hdev (by simp [hrec, record, hk, he]) (by rw [hm, he])
  · exact h.of_mem_eq hdev (by simp [hrec, record, hk, he]) (by rw [hm, he])
  · refine ⟨hdev, ⟨L, _, hm ▸ (hA.insert hc c.bpType).2.1⟩, fun a w => ?_⟩
    have hnone : s.replaced c.addr = none := by
      by_contra hne
      obtain ⟨v, hv⟩ := Option.ne_none_iff_exists'.mp hne
      obtain ⟨e, he, hea, -⟩ := (h.iff _ _).mp hv
      exact hins.inactive ⟨e, he, hea⟩
    rw [hrec, hm]
    simp only [record, hk, hs, if_true, mem_entries_inserted hins, hnone, Option.getD_none]
    by_cases ha : a = c.addr
    · subst ha
      rw [Function.update_self, Option.some.injEq]
      constructor
      · rintro rfl
        exact ⟨_, Or.inr rfl, rfl, rfl⟩
      · rintro ⟨e, he | rfl, hea, rfl⟩
        · exact absurd ⟨e, he, hea⟩ hins.inactive
        · rfl
    · rw [Function.update_of_ne ha, h.iff]
      constructor
      · rintro ⟨e, he, hea, hew⟩
        exact ⟨e, Or.inl he, hea, hew⟩
      · rintro ⟨e, he | rfl, hea, hew⟩
        · exact ⟨e, he, hea, hew⟩
        · exact absurd hea.symm ha

theorem Ledger.remove (h : Ledger B s d) (hk : kind c = some .removeBreakpoint)
    (hc : AddressOk B c.addr) : ∃ d', Ledger B (step B s c) d' := by
  obtain ⟨L, A, hA⟩ := h.refines
  obtain ⟨d', hd', hm, -, -⟩ := serve_remove (B := B) (d := d) hk
  have hdev : (step B s c).dev = some d' := by simp [step, h.dev, hd']
  have hrec : (step B s c).replaced = record B d.mem s.replaced c := by simp [step, h.dev]
  refine ⟨d', ?_⟩
  rcases removeBreakpoint_cases hc.outside hA.tracks.size c.bpType with ⟨-, he⟩ | ⟨hs, i, hrem⟩
  · exact h.of_mem_eq hdev (by simp [hrec, record, hk, he]) (by rw [hm, he])
  · refine ⟨hdev, ⟨L, _, hm ▸ (hA.remove hc c.bpType).2.1⟩, fun a w => ?_⟩
    rw [hrec, hm]
    simp only [record, hk, hs, if_true, hA.tracks.mem_entries_removed hrem]
    by_cases ha : a = c.addr
    · subst ha
      rw [Function.update_self]
      constructor
      · intro hc
        cases hc
      · rintro ⟨e, ⟨-, hne⟩, hea, -⟩
        exact absurd hea hne
    · rw [Function.update_of_ne ha, h.iff]
      constructor
      · rintro ⟨e, he, rfl, hew⟩
        exact ⟨e, ⟨he, ha⟩, rfl, hew⟩
      · rintro ⟨e, ⟨he, -⟩, hea, hew⟩
        exact ⟨e, he, hea, hew⟩

/-- **A command keeps the ledger and the table together**, unless it is an attach over active
breakpoints. -/
theorem Ledger.step (h : Ledger B s d) (hc : SessionCmd B c) (hok : AttachesEmpty B s c) :
    ∃ d', Ledger B (step B s c) d' := by
  rcases hc with hk | hk | ⟨hk | hk, hc⟩
  · refine ledger_attach h.dev (fun a => ?_) hk
    by_contra hne
    obtain ⟨w, hw⟩ := Option.ne_none_iff_exists'.mp hne
    obtain ⟨e, he, -⟩ := (h.iff a w).mp hw
    have hlen : (entries B d.mem).length = 0 := by rw [length_entries, hok hk d h.dev]
    rw [List.length_eq_zero_iff.mp hlen] at he
    cases he
  · obtain ⟨d', hd', hm, -, -⟩ := serve_detach (B := B) (d := d) hk
    exact ⟨d', h.of_mem_eq (by simp [Session.step, h.dev, hd'])
      (by simp [Session.step, h.dev, record, hk]) hm⟩
  · exact h.insert hk hc
  · exact h.remove hk hc

/-- **An attach over active breakpoints orphans them.** -/
theorem Ledger.attachesEmpty (h : Ledger B s d) (hacc : Accounted B (Session.step B s c)) :
    AttachesEmpty B s c := by
  intro hk d₁ hd₁
  obtain rfl : d = d₁ := Option.some.inj (h.dev.symm.trans hd₁)
  obtain ⟨d', hd', hm, -, -⟩ := serve_attach (B := B) (d := d) hk
  obtain ⟨d₂, hd₂, hall⟩ := hacc
  have hd : d' = d₂ := by
    simp only [Session.step, h.dev, hd', Option.some.injEq] at hd₂
    exact hd₂
  by_contra hpos
  have h0 : entryAt B d.mem 0 ∈ entries B d.mem := mem_entries_iff.mpr ⟨0, by omega, rfl⟩
  have hrep : (Session.step B s c).replaced (entryAt B d.mem 0).address =
      some (entryAt B d.mem 0).original := by
    simp only [Session.step, h.dev, record, hk]
    exact (h.iff _ _).mpr ⟨_, h0, rfl, rfl⟩
  obtain ⟨⟨e, he, -⟩, -⟩ := hall _ _ hrep
  rw [← hd, hm, (refines_attach d.mem).2] at he
  cases he

/-! ## Runs -/

/-- **No orphaned breakpoint, exactly**: in a session that starts with an attach, every replaced
word is accounted for in every later state iff every later attach finds the table empty. -/
theorem accounted_throughout_iff (B : Board) (d : Dev) (c₀ : CmdBytes) (cs : List CmdBytes)
    (hc₀ : kind c₀ = some .attach) (hcs : ∀ c ∈ cs, SessionCmd B c) :
    Throughout (step B) (Accounted B) (step B ⟨some d, fun _ => none⟩ c₀) cs ↔
      Guarded (step B) (AttachesEmpty B) (step B ⟨some d, fun _ => none⟩ c₀) cs := by
  have h0 : ∃ d', Ledger B (step B ⟨some d, fun _ => none⟩ c₀) d' :=
    ledger_attach rfl (fun _ => rfl) hc₀
  refine throughout_iff_guarded (I := fun s => ∃ d, Ledger B s d) (D := fun _ => SessionCmd B)
    ?_ ?_ h0
    (h0.elim fun _ h => h.accounted) (guarded_of_forall fun c hc _ => hcs c hc)
  · rintro s c ⟨d, h⟩ - hc hok
    exact h.step hc hok
  · rintro s c ⟨d, h⟩ - hc
    refine ⟨h.attachesEmpty, fun hok => ?_⟩
    obtain ⟨d', h'⟩ := h.step hc hok
    exact h'.accounted

/-- Attach, insert, attach: the word at the inserted address is replaced, and no slot knows it. -/
theorem orphaned_by_attach :
    (∀ c ∈ [Host.insertBreakpoint 0x8D001000#32, Host.attach], SessionCmd Board.sample c) ∧
      ¬ Accounted Board.sample
        (run (step Board.sample) (step Board.sample ⟨some Dev.sample, fun _ => none⟩ Host.attach)
          [Host.insertBreakpoint 0x8D001000#32, Host.attach]) := by
  refine ⟨by decide +kernel, ?_⟩
  generalize hs : run (step Board.sample) _ _ = s
  rintro ⟨d, hd, hall⟩
  have hrep : s.replaced 0x8D001000#32 = some 0#32 := by
    rw [← hs]
    decide +kernel
  have hsize : (s.dev.map fun d => bpSize Board.sample d.mem) = some 0#32 := by
    rw [← hs]
    decide +kernel
  rw [hd, Option.map_some, Option.some.injEq] at hsize
  obtain ⟨⟨e, he, -⟩, -⟩ := hall _ _ hrep
  rw [entries, hsize] at he
  cases he

/-- A session that removes its breakpoint before it attaches again. -/
theorem accounted_throughout_sample :
    Throughout (step Board.sample) (Accounted Board.sample)
      (step Board.sample ⟨some Dev.sample, fun _ => none⟩ Host.attach)
      [Host.insertBreakpoint 0x8D001000#32, Host.removeBreakpoint 0x8D001000#32, Host.attach] :=
  (accounted_throughout_iff Board.sample Dev.sample Host.attach _ (by decide +kernel)
    (by decide +kernel)).mpr (by decide +kernel)

end Hbootdbg.Session
