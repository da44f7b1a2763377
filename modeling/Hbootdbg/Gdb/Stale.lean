import Hbootdbg.Gdb.Requests

/-!
# Which stop the registers are from

`handle_get_register` and `handle_step` use the registers of the last `g` request, whatever has
happened since.

* `UsesCurrent` — a request that uses registers uses those of the current stop.
* `AsksStop` — a `p` request for a register that the proxy takes from the stop.
* `refresh`, `Refreshed` — the machine with one bit that says whether there was a `g` request since
  the phone has last run, and what it demands of a request.
* `Kept` — the relation between the two machines.
* `usesCurrent_of_refreshed` — in a run in which every `p` and `s` request comes after a `g` request
  of the same stop, all registers are current. `pc_after_continue` is a run in which one is not.
-/

namespace Hbootdbg.Gdb

open Hbootdbg.Lib.ByteMem Hbootdbg.Lib.Hex Hbootdbg.Lib.Run Hbootdbg.Device Hbootdbg.Host
open Hbootdbg.Stop

/-- The registers that the proxy would keep of the current stop. -/
def currentRegisters (d : Dev) : Option ArmRegisters :=
  d.ctx.bind fun c => ArmRegisters.unpack c.bytes

/-- The request uses the registers of the current stop: the answer to `p` is the one that the
registers of the stop give, and `s` counts from the `pc` of the stop. The override of `r11` is
deliberate. -/
def UsesCurrent (s : Proxy) : Request → Prop
  | .p group => ofHex group ≠ some 11 →
      handleGetRegister s.r group = (currentRegisters s.dev).bind (handleGetRegister · group)
  | .s => some (s.r.gpr 15) = s.dev.ctx.map Context.pc
  | _ => True

instance (s : Proxy) (q : Request) : Decidable (UsesCurrent s q) :=
  match q with
  | .p _ => inferInstanceAs (Decidable (_ → _))
  | .s => inferInstanceAs (Decidable (some _ = _))
  | .g | .c | .m _ _ | .M _ _ | .Z0 _ | .z0 _ => inferInstanceAs (Decidable True)

/-- The proxy acts on the registers of the current stop, if it is still running. -/
def ActsOnCurrent (s : Option Proxy) (q : Request) : Prop := ∀ p ∈ s, UsesCurrent p q

instance (s : Option Proxy) : DecidablePred (ActsOnCurrent s) := fun _ =>
  inferInstanceAs (Decidable (∀ p ∈ s, _))

/-! ## The machine with one bit -/

/-- Whether the registers are those of the current stop, after a request. -/
def refresh (fresh : Bool) : Request → Bool
  | .g => true
  | .c | .s => false
  | _ => fresh

/-- The digits of `p` are those of a register that the proxy holds, and that it takes from the
stop: it raises for the others, and `r11` is always the same. -/
def AsksStop (group : List Byte) : Prop := ∃ n ∈ ofHex group, n ≠ 11 ∧ (n ≤ 15 ∨ n = 25)

instance (group : List Byte) : Decidable (AsksStop group) :=
  inferInstanceAs (Decidable (∃ n ∈ ofHex group, _))

/-- The requests that use registers need fresh ones. -/
def Refreshed (fresh : Bool) : Request → Prop
  | .p group => AsksStop group → fresh = true
  | .s => fresh = true
  | _ => True

instance (fresh : Bool) : DecidablePred (Refreshed fresh) := fun q =>
  match q with
  | .p _ => inferInstanceAs (Decidable (_ → _))
  | .s => inferInstanceAs (Decidable (fresh = true))
  | .g | .c | .m _ _ | .M _ _ | .Z0 _ | .z0 _ => inferInstanceAs (Decidable True)

/-- The phone is stopped, and fresh registers are those of the stop. -/
def Kept (fresh : Bool) (s : Option Proxy) : Prop :=
  ∀ p ∈ s, ∃ c, p.dev.ctx = some c ∧ (fresh = true → p.r = .ofContext c)

variable {H : HbootClient} {B : Board} {exec : Exec} {fuel : ℕ} {fresh : Bool} {s : Option Proxy}
  {q : Request}

/-- A request that leaves the bit alone neither runs the phone nor is a `g` request. -/
theorem refresh_eq (hq : q ≠ .g) (hr : ¬ q.Resumes) : refresh fresh q = fresh := by
  cases q with
  | g => exact absurd rfl hq
  | c | s => exact absurd trivial hr
  | p | m | M | Z0 | z0 => rfl

theorem refresh_resumes (hr : q.Resumes) : refresh fresh q = false := by
  cases q with
  | c | s => rfl
  | g | p | m | M | Z0 | z0 => exact hr.elim

/-- **One request** keeps the bit true to the registers. -/
theorem Kept.step (h : Kept fresh s) (q : Request) :
    Kept (refresh fresh q) (step H B exec fuel s q) := by
  intro p' hp'
  obtain ⟨p, rfl, hp'⟩ := Option.bind_eq_some_iff.mp hp'
  obtain ⟨⟨p'', reply⟩, hhandle, rfl⟩ := Option.map_eq_some_iff.mp hp'
  obtain ⟨c, hctx, hr⟩ := h p rfl
  by_cases hg : q = .g
  · subst hg
    obtain ⟨hfresh, hctx'⟩ := handle_g hctx hhandle
    exact ⟨c, hctx', fun _ => hfresh⟩
  · obtain ⟨hkeep, hstop⟩ := handle_of_ne_g hhandle hg
    by_cases hres : q.Resumes
    · -- at another stop, or at the same one, the bit says nothing
      rw [refresh_resumes hres]
      rcases hstop with hsame | ⟨-, c', hc'⟩
      · exact ⟨c, hsame.trans hctx, fun hf => by cases hf⟩
      · exact ⟨c', hc', fun hf => by cases hf⟩
    · rw [refresh_eq hg hres]
      rcases hstop with hsame | ⟨hres', -⟩
      · exact ⟨c, hsame.trans hctx, fun hf => hkeep.trans (hr hf)⟩
      · exact absurd hres' hres

/-- For a register that is not of the stop, `p` raises, whatever the registers are. -/
theorem handleGetRegister_eq_none {group : List Byte} (h : ¬ AsksStop group)
    (h11 : ofHex group ≠ some 11) (r : ArmRegisters) : handleGetRegister r group = none := by
  unfold handleGetRegister
  cases hn : ofHex group with
  | none => rfl
  | some n =>
      have hne : n ≠ 11 := fun he => h11 (he ▸ hn)
      have hno : ¬ (n ≤ 15 ∨ n = 25) := fun hle => h ⟨n, hn, hne, hle⟩
      have hitem : r.getItem n = none := by
        rwa [← Option.not_isSome_iff_eq_none, r.isSome_getItem]
      simp [hitem]

/-- Fresh registers are all that a request needs. -/
theorem Kept.actsOnCurrent (h : Kept fresh s) (hq : Refreshed fresh q) : ActsOnCurrent s q := by
  intro p hp
  obtain ⟨c, hctx, hr⟩ := h p hp
  cases q with
  | p group =>
      intro h11
      rw [currentRegisters, hctx, Option.bind_some, unpack_context, Option.bind_some]
      by_cases hasks : AsksStop group
      · rw [hr (hq hasks)]
      · rw [handleGetRegister_eq_none hasks h11, handleGetRegister_eq_none hasks h11]
  | s =>
      rw [UsesCurrent, hr hq, hctx, Option.map_some, Context.pc,
        ArmRegisters.ofContext_gpr c (by decide)]
  | g | c | m | M | Z0 | z0 => trivial

/-- **A run in which every `s` request, and every `p` request for a register of the stop, follows a
`g` request of the same stop** never acts on the registers of an earlier one. -/
theorem usesCurrent_of_refreshed (H : HbootClient) (B : Board) (exec : Exec) (fuel : ℕ) (s : Proxy)
    (c : Context) (qs : List Request) (hctx : s.dev.ctx = some c)
    (h : Guarded refresh Refreshed false qs) :
    Guarded (step H B exec fuel) ActsOnCurrent (some s) qs := by
  refine h.of_related (R := Kept) (fun f s q hk => hk.step q)
    (fun f s q hk hq => hk.actsOnCurrent hq) ?_
  intro p hp
  obtain rfl := Option.some.inj hp
  exact ⟨c, hctx, fun hf => by cases hf⟩

/-! ## Examples -/

/-- The proxy at its start, with a phone stopped at the first of two adjacent breakpoints. -/
def proxySample : Proxy := ⟨⟨0#32, fun _ => 0#32⟩, enter Board.sample adjacentSample contextSample⟩

/-- After a continue to the second breakpoint, `pf` still answers with the first. -/
theorem pc_after_continue :
    ¬ Guarded (step .sample Board.sample nop 4) ActsOnCurrent (some proxySample)
      [.g, .c, .p [0x66#8]] := by
  decide +kernel

/-- With a `g` request in between, it does not. -/
theorem usesCurrent_sample :
    Guarded (step .sample Board.sample nop 4) ActsOnCurrent (some proxySample)
      [.g, .c, .g, .p [0x66#8], .s] :=
  usesCurrent_of_refreshed .sample Board.sample nop 4 proxySample contextSample _ rfl (by decide)

end Hbootdbg.Gdb
