import Hbootdbg.Host.Registers
import Hbootdbg.Stop.Stepping

/-!
# The two encodings of a register

GDB expects the bytes of a register in the order of the target's memory. `pack_gdb` sends them so
for the general registers, but `unpack` has read `cpsr` in the other order. `handle_get_register`
sends the number, most significant byte first.

* `deviceBytes` — the bytes of a register, as the device has sent them.
* `EncodingsAgree` — after a `g` request, its field for the register and the answer to `p` are both
  the text of these bytes.
* `encodingsAgree_iff` — they are iff the bytes read the same in both directions: for a general
  register the answer to `p` is wrong otherwise, for `cpsr` the field of `g`.
  `pc_reversed` is a `pc`.
-/

namespace Hbootdbg.Gdb

open Hbootdbg.Lib.ByteMem Hbootdbg.Lib.Hex Hbootdbg.Device Hbootdbg.Host Hbootdbg.Stop

/-- `handle_get_register`. Source: `scripts/gdbproxy.py` `handle_get_register` -/
def handleGetRegister (r : ArmRegisters) (group : List Byte) : Option (List Byte) := do
  let regNbr ← ofHex group
  let v ← r.getItem regNbr
  some (format08x v)

/-- The word of register `n` in a context as it is sent; `cpsr`, GDB's register 25, comes first. -/
def deviceBytes (c : Context) (n : ℕ) : List Byte := field 4 (if n = 25 then 0 else n + 1) c.bytes

/-- After a `g` request at a stop with the context `c`, its field for register `n` and the answer
to `p` with the digits `text` are the text of the bytes that the device has sent. -/
def EncodingsAgree (H : HbootClient) (B : Board) (d : Dev) (c : Context) (n : ℕ)
    (text : List Byte) : Prop :=
  ∃ d' r, handleGetRegisters H B d = some (d', r) ∧
    field 8 n r.packGdb = hexlify (deviceBytes c n) ∧
    handleGetRegister r text = some (hexlify (deviceBytes c n))

variable {H : HbootClient} {B : Board} {d d' : Dev} {c : Context} {n : ℕ} {text : List Byte}

theorem bytes_eq_flatMap (c : Context) : c.bytes = (c.cpsr :: List.ofFn c.r).flatMap wordBytes :=
  rfl

theorem deviceBytes_gpr (c : Context) (i : Fin 16) : deviceBytes c i = wordBytes (c.r i) := by
  have hi : (i : ℕ) ≠ 25 := by omega
  have hlt : (i : ℕ) + 1 < (c.cpsr :: List.ofFn c.r).length := by
    rw [List.length_cons, List.length_ofFn]
    omega
  rw [deviceBytes, if_neg hi, bytes_eq_flatMap, field_flatMap (f := wordBytes) (fun _ => rfl) hlt,
    List.getElem_cons_succ, List.getElem_ofFn]

theorem deviceBytes_cpsr (c : Context) : deviceBytes c 25 = wordBytes c.cpsr := rfl

/-- After a `g` request, the proxy has the registers of the context. -/
theorem handleGetRegisters_context (hctx : d.ctx = some c)
    (hpc : H.fastbootMode = true ∨ c.pc.toNat % 2 = 0) :
    ∃ d', handleGetRegisters H B d = some (d', .ofContext c) ∧ d'.mem = d.mem ∧
      d'.ctx = some c := by
  obtain ⟨d', hd', hmem, hctx'⟩ := exchange_getRegisters (H := H) (B := B) hctx
  rw [result_reply (keeps_context hpc)] at hd'
  refine ⟨d', ?_, hmem, hctx'⟩
  unfold handleGetRegisters
  rw [hd']
  simp [Response.unpack, unpack_context]

/-- It has no other registers: what is left of a context that is taken for one with a prompt cannot
be unpacked. -/
theorem handleGetRegisters_eq_some {r : ArmRegisters} (hctx : d.ctx = some c)
    (h : handleGetRegisters H B d = some (d', r)) : r = .ofContext c ∧ d'.ctx = some c := by
  obtain ⟨d₁, hexch, -, hctx₁⟩ := exchange_getRegisters (H := H) (B := B) hctx
  unfold handleGetRegisters at h
  rw [hexch] at h
  simp only [Option.bind_eq_bind, Option.bind_some] at h
  obtain ⟨response, hunpack, h⟩ := Option.bind_eq_some_iff.mp h
  obtain ⟨data, hdata, h⟩ := Option.bind_eq_some_iff.mp h
  obtain ⟨r', hr', he⟩ := Option.bind_eq_some_iff.mp h
  obtain ⟨rfl, rfl⟩ := Prod.mk.inj (Option.some.inj he)
  refine ⟨?_, hctx₁⟩
  by_cases hkeeps : H.Keeps d c.bytes
  · rw [result_reply hkeeps] at hunpack
    obtain rfl := Option.some.inj hunpack
    obtain rfl := Option.some.inj hdata
    exact Option.some.inj (hr'.symm.trans (unpack_context c))
  · have hshort := (unpack_of_not_keeps hkeeps hunpack).2 data hdata
    rw [length_bytes] at hshort
    rw [ArmRegisters.unpack, if_pos hshort] at hr'
    cases hr'

/-- The proxy is determined after the `g` request. -/
theorem encodingsAgree_iff_context (hctx : d.ctx = some c)
    (hpc : H.fastbootMode = true ∨ c.pc.toNat % 2 = 0) :
    EncodingsAgree H B d c n text ↔
      field 8 n (ArmRegisters.ofContext c).packGdb = hexlify (deviceBytes c n) ∧
        handleGetRegister (.ofContext c) text = some (hexlify (deviceBytes c n)) := by
  obtain ⟨d₁, hg, -, -⟩ := handleGetRegisters_context (H := H) (B := B) hctx hpc
  constructor
  · rintro ⟨d', r, hd', h⟩
    obtain ⟨-, rfl⟩ := Prod.mk.inj (Option.some.inj (hg.symm.trans hd'))
    exact h
  · intro h
    exact ⟨d₁, _, hg, h⟩

/-- A general register: `g` is right, and `p` sends the bytes in the other order. -/
theorem encodingsAgree_gpr_iff {i : Fin 16} (hctx : d.ctx = some c)
    (hpc : H.fastbootMode = true ∨ c.pc.toNat % 2 = 0) (hi : i ≠ 11)
    (htext : ofHex text = some (i : ℕ)) :
    EncodingsAgree H B d c i text ↔ (deviceBytes c i).reverse = deviceBytes c i := by
  have hgpr : (ArmRegisters.ofContext c).gpr i = c.r i :=
    ArmRegisters.ofContext_gpr c hi
  have hle : (i : ℕ) ≤ 15 := by omega
  have hitem : (ArmRegisters.ofContext c).getItem i = some (c.r i) := by
    rw [ArmRegisters.getItem, if_pos hle, Fin.ofNat_val_eq_self, hgpr]
  have hp : handleGetRegister (.ofContext c) text =
      some (hexlify (wordBytes (c.r i)).reverse) := by
    simp [handleGetRegister, htext, hitem, format08x_eq]
  rw [encodingsAgree_iff_context hctx hpc, deviceBytes_gpr, ArmRegisters.field_packGdb_gpr, hgpr,
    hp, Option.some_inj, hexlify_reverse_eq_iff]
  exact and_iff_right rfl

/-- `cpsr`: `p` is right, and the field of `g` has the bytes in the other order. -/
theorem encodingsAgree_cpsr_iff (hctx : d.ctx = some c)
    (hpc : H.fastbootMode = true ∨ c.pc.toNat % 2 = 0) (htext : ofHex text = some 25) :
    EncodingsAgree H B d c 25 text ↔ (deviceBytes c 25).reverse = deviceBytes c 25 := by
  have hcpsr : (ArmRegisters.ofContext c).cpsr = swapped c.cpsr := rfl
  have hitem : (ArmRegisters.ofContext c).getItem 25 = some (swapped c.cpsr) := rfl
  have hp : handleGetRegister (.ofContext c) text = some (hexlify (wordBytes c.cpsr)) := by
    simp [handleGetRegister, htext, hitem, format08x_swapped]
  rw [encodingsAgree_iff_context hctx hpc, deviceBytes_cpsr, ArmRegisters.field_packGdb_cpsr, hcpsr,
    wordBytes_swapped, hp, hexlify_reverse_eq_iff]
  exact and_iff_left rfl

/-- **The encodings of a register agree iff its four bytes read the same in both directions.** Only
an odd program counter, which no stop has, can make the end of a context look like a prompt. -/
theorem encodingsAgree_iff (H : HbootClient) (B : Board) (d : Dev) (c : Context) (n : ℕ)
    (text : List Byte) (hctx : d.ctx = some c)
    (hpc : H.fastbootMode = true ∨ c.pc.toNat % 2 = 0) (hn : n ≤ 15 ∧ n ≠ 11 ∨ n = 25)
    (htext : ofHex text = some n) :
    EncodingsAgree H B d c n text ↔ (deviceBytes c n).reverse = deviceBytes c n := by
  rcases hn with ⟨hle, hne⟩ | rfl
  · obtain ⟨i, rfl⟩ : ∃ i : Fin 16, n = i := ⟨⟨n, by omega⟩, rfl⟩
    exact encodingsAgree_gpr_iff hctx hpc (fun h => hne (congrArg Fin.val h)) htext
  · exact encodingsAgree_cpsr_iff hctx hpc htext

/-- A device that is stopped with `c`. -/
def stoppedAt (c : Context) : Dev := { Dev.sample with ctx := some c }

/-- `pf` at `0x8D001000`: `g` sends `0010008d`, and `p` sends `8d001000`. -/
theorem pc_reversed :
    ¬ EncodingsAgree .sample Board.sample (stoppedAt contextSample) contextSample 15 [0x66#8] := by
  intro h
  have hpal := (encodingsAgree_gpr_iff (i := 15) rfl (by decide) (by decide) (by decide)).mp h
  revert hpal
  decide

/-- A palindrome: `pf` at `0x10000010`. -/
theorem encodingsAgree_sample :
    EncodingsAgree .sample Board.sample (stoppedAt ⟨0#32, fun _ => 0x10000010#32⟩)
      ⟨0#32, fun _ => 0x10000010#32⟩ 15 [0x66#8] :=
  (encodingsAgree_iff _ _ _ _ 15 _ rfl (by decide) (by decide) (by decide)).mpr (by decide)

end Hbootdbg.Gdb
