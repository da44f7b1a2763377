import Hbootdbg.Host.Proxy

/-!
# One status reply for each command

The host frames what the device sends by the status packet that comes first
(`Command.unpack`).

* `sentPackets` — the packets a command sends, in order.
* `RepliesOnce` — the command returns (or arrives at its `bkpt`), one packet of type and error comes
  first, and further data only on success: as many bytes as a read asked for, the context, nothing
  else.
* `repliesOnce_of_sent` — the form that the handlers have in common: a status and nothing else.
* `repliesOnce_write`, `not_repliesOnce_call`, `repliesOnce_of_ne` — the commands.
* `repliesOnce_of_serve` — a command that returns has replied.
* `repliesOnce_iff` — every command but `CMD_CALL` replies so, if its cache loops end.
-/

namespace Hbootdbg.Session

open Hbootdbg.Lib.ByteMem Hbootdbg.Device Hbootdbg.Host

/-- The packets sent between two states. -/
def sentPackets (d d' : Dev) : List (List Byte) := (d'.out.drop d.out.length).filterMap Host.payload

/-- The data that may follow a status of success. -/
def DataFits (c : CmdBytes) (d : Dev) (data : List Byte) : Prop :=
  match kind c with
  | some .read => data.length = c.size.toNat
  | some .getRegisters => d.ctx.map Context.bytes = some data
  | _ => data = []

/-- The command runs to its end and sends one status packet, before any data. Loads and stores never
fault here: on the phone, an insertion at an address that is not mapped ends in a data abort and not
in a reply. -/
def RepliesOnce (B : Board) (d : Dev) (c : CmdBytes) : Prop :=
  ∃ d', serve B (some d) c = some d' ∧ ∃ (e : ErrorCode) (packets : List (List Byte)),
    sentPackets d d' = [c.type, e.code] :: packets ∧
      (e = .success → DataFits c d packets.flatten) ∧ (e ≠ .success → packets = [])

variable {B : Board} {d d' : Dev} {c : CmdBytes}

theorem sentPackets_of_append {os : List Out} (h : d'.out = d.out ++ os) :
    sentPackets d d' = os.filterMap Host.payload := by
  unfold sentPackets
  rw [h, List.drop_left]

/-- A status, and nothing after it but calls out of the debugger. -/
theorem repliesOnce_of_sent {t : CmdType} {e : ErrorCode} {os : List Out} (hk : kind c = some t)
    (ht : t ≠ .read ∧ t ≠ .getRegisters) (hd' : serve B (some d) c = some d')
    (hout : d'.out = d.out ++ .usbSend [t.code, e.code] :: os)
    (hos : os.filterMap Host.payload = []) : RepliesOnce B d c := by
  refine ⟨d', hd', e, [], ?_, fun _ => ?_, fun _ => rfl⟩
  · have hsent : sentPackets d d' = [[t.code, e.code]] := by
      rw [sentPackets_of_append hout, List.filterMap_cons, hos]
      rfl
    rw [hsent, CmdType.code_of_ofCode hk]
  · unfold DataFits
    rw [hk]
    cases t <;> first | rfl | exact absurd rfl ht.1 | exact absurd rfl ht.2

/-- A status other than success, and nothing after it. -/
theorem repliesOnce_of_error {e : ErrorCode} (he : e ≠ .success)
    (hd' : serve B (some d) c = some d') (hout : d'.out = d.out ++ [.usbSend [c.type, e.code]]) :
    RepliesOnce B d c :=
  ⟨d', hd', e, [], sentPackets_of_append hout, fun h => absurd h he, fun _ => rfl⟩

theorem repliesOnce_read (hk : kind c = some .read) : RepliesOnce B d c := by
  obtain ⟨d', hd', -, -, hout⟩ := serve_read (B := B) (d := d) hk
  have htype : c.type = CmdType.read.code := type_of_kind hk
  by_cases hmap : mmuProbeRead B d.mem c.addr c.size = true
  · rw [if_pos hmap] at hout
    refine ⟨d', hd', .success, readPackets d.mem c.size.toNat c.addr c.size.toNat, ?_,
      fun _ => ?_, fun hne => absurd rfl hne⟩
    · rw [sentPackets_of_append hout, List.filterMap_cons, List.filterMap_map, htype]
      refine congrArg (_ :: ·) ?_
      exact List.filterMap_some
    · unfold DataFits
      rw [hk, readPackets_flatten _ le_rfl]
      simp [bytes]
  · rw [if_neg hmap] at hout
    rw [← htype] at hout
    exact repliesOnce_of_error (by decide) hd' hout

theorem repliesOnce_getRegisters (hk : kind c = some .getRegisters) : RepliesOnce B d c := by
  obtain ⟨d', hd', -, -, hout⟩ := serve_getRegisters (B := B) (d := d) hk
  have htype : c.type = CmdType.getRegisters.code := type_of_kind hk
  cases hctx : d.ctx with
  | none =>
      rw [hctx, ← htype] at hout
      exact repliesOnce_of_error (by decide) hd' hout
  | some ctx =>
      rw [hctx] at hout
      refine ⟨d', hd', .success, [ctx.bytes], ?_, fun _ => ?_, fun hne => absurd rfl hne⟩
      · rw [sentPackets_of_append hout, htype]
        rfl
      · unfold DataFits
        rw [hk, hctx]
        simp

/-- A write to a mapped range never returns if a cache loop does not end, and replies otherwise. -/
theorem repliesOnce_write (hk : kind c = some .write) :
    RepliesOnce B d c ↔
      (mmuProbeRead B d.mem c.addr c.size = true →
        mmuInvalidateCacheRange B c.addr c.size ≠ none) := by
  have ht : CmdType.write ≠ .read ∧ CmdType.write ≠ .getRegisters := by decide
  rcases serve_write (B := B) (d := d) hk with
    ⟨hmap, ⟨hloop, hnone⟩ | ⟨d', hd', -, -, hout⟩⟩ | ⟨hmap, d', hd', -, -, hout⟩
  · constructor
    · rintro ⟨d', hd', -⟩
      rw [hnone] at hd'
      cases hd'
    · intro h
      exact absurd hloop (h hmap)
  · refine iff_of_true (repliesOnce_of_sent hk ht hd' hout rfl) fun _ hloop => ?_
    rw [serve_eq_cmdWrite hk, cmdWrite] at hd'
    simp [hmap, hloop] at hd'
  · refine iff_of_true (repliesOnce_of_sent hk ht hd' hout rfl) fun h => ?_
    rw [hmap] at h
    cases h

/-- **`CMD_CALL` sends no status.** -/
theorem not_repliesOnce_call (hk : kind c = some .call) : ¬ RepliesOnce B d c := by
  rintro ⟨d', hd', e, packets, hsent, -⟩
  obtain ⟨d₁, hd₁, -, -, hout⟩ := serve_call (B := B) (d := d) hk
  obtain rfl : d₁ = d' := Option.some.inj (hd₁.symm.trans hd')
  rw [sentPackets_of_append hout] at hsent
  cases hsent

/-- The other commands always reply once. -/
theorem repliesOnce_of_ne (hcall : kind c ≠ some .call) (hwrite : kind c ≠ some .write)
    (hreboot : kind c ≠ some .fastbootReboot) : RepliesOnce B d c := by
  cases hk : kind c with
  | none =>
      obtain ⟨d', hd', -, -, hout⟩ := serve_unknown (B := B) (d := d) hk
      exact repliesOnce_of_error (by decide) hd' hout
  | some t =>
      cases t with
      | undefined => exact absurd hk kind_ne_undefined
      | attach =>
          obtain ⟨d', hd', -, -, hout⟩ := serve_attach (B := B) (d := d) hk
          exact repliesOnce_of_sent hk (by decide) hd' hout rfl
      | detach =>
          obtain ⟨d', hd', -, -, hout⟩ := serve_detach (B := B) (d := d) hk
          exact repliesOnce_of_sent hk (by decide) hd' hout rfl
      | read => exact repliesOnce_read hk
      | write => exact absurd hk hwrite
      | insertBreakpoint =>
          obtain ⟨d', hd', -, -, hout⟩ := serve_insert (B := B) (d := d) hk
          exact repliesOnce_of_sent hk (by decide) hd' hout rfl
      | removeBreakpoint =>
          obtain ⟨d', hd', -, -, hout⟩ := serve_remove (B := B) (d := d) hk
          exact repliesOnce_of_sent hk (by decide) hd' hout rfl
      | breakpointContinue =>
          cases hctx : d.ctx with
          | none =>
              obtain ⟨d', hd', -, -, hout⟩ := serve_continue_null (B := B) hk hctx
              exact repliesOnce_of_sent hk (by decide) hd' hout rfl
          | some ctx =>
              obtain ⟨d', hd', -, -, hout⟩ := serve_continue (B := B) hk hctx
              exact repliesOnce_of_sent hk (by decide) hd' hout rfl
      | getRegisters => exact repliesOnce_getRegisters hk
      | call => exact absurd hk hcall
      | fastbootReboot => exact absurd hk hreboot
      | breakpoint =>
          obtain ⟨d', hd', -, -, hout⟩ := serve_breakpoint (B := B) (d := d) hk
          exact repliesOnce_of_sent hk (by decide) hd' hout rfl
      | flashlight =>
          obtain ⟨d', hd', -, -, hout⟩ := serve_flashlight (B := B) (d := d) hk
          exact repliesOnce_of_sent hk (by decide) hd' hout rfl

/-- A command that has returned has replied once. -/
theorem repliesOnce_of_serve (hcall : kind c ≠ some .call) (hreboot : kind c ≠ some .fastbootReboot)
    (hd' : serve B (some d) c = some d') : RepliesOnce B d c := by
  by_cases hwrite : kind c = some .write
  · refine (repliesOnce_write hwrite).mpr fun hmap hloop => ?_
    rw [serve_eq_cmdWrite hwrite, cmdWrite] at hd'
    simp [hmap, hloop] at hd'
  · exact repliesOnce_of_ne hcall hwrite hreboot

/-- **Every command but `CMD_FASTBOOT_REBOOT` gets exactly one status reply** iff it is not a
`CMD_CALL`, and not a write to a mapped range that a cache loop of it never ends on. -/
theorem repliesOnce_iff (B : Board) (d : Dev) (c : CmdBytes)
    (h : kind c ≠ some .fastbootReboot) :
    RepliesOnce B d c ↔ kind c ≠ some .call ∧
      (kind c = some .write → mmuProbeRead B d.mem c.addr c.size = true →
        mmuInvalidateCacheRange B c.addr c.size ≠ none) := by
  by_cases hcall : kind c = some .call
  · exact iff_of_false (not_repliesOnce_call hcall) fun hne => hne.1 hcall
  · by_cases hwrite : kind c = some .write
    · rw [repliesOnce_write hwrite]
      exact ⟨fun hloop => ⟨hcall, fun _ => hloop⟩, fun hloop => hloop.2 hwrite⟩
    · refine iff_of_true (repliesOnce_of_ne hcall hwrite h) ⟨hcall, ?_⟩
      intro hw
      exact absurd hw hwrite

/-! ## Examples -/

/-- A `call` of the function at `0x8D001000`: the host waits for a status that is never sent. -/
theorem call_without_reply :
    kind { type := .call, address := 0x8D001000 : Host.Command }.bytes ≠ some .fastbootReboot ∧
      ¬ RepliesOnce Board.sample Dev.sample
        { type := .call, address := 0x8D001000 : Host.Command }.bytes :=
  ⟨by decide +kernel, not_repliesOnce_call (by decide +kernel)⟩

/-- An attach gets its reply. -/
theorem repliesOnce_sample : RepliesOnce Board.sample Dev.sample Host.attach :=
  (repliesOnce_iff Board.sample Dev.sample Host.attach (by decide +kernel)).mpr
    ⟨by decide +kernel, fun h => absurd h (by decide +kernel)⟩

end Hbootdbg.Session
