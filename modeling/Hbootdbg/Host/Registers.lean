import Hbootdbg.Host.Proxy

/-!
# `gdbproxy.py`: the text of registers

* `ArmRegisters.getItem`, `ArmRegisters.packGdb` — the methods of `ARMRegisters` that read the
  registers.
* `format08x`, `swapped` — the two steps from a register to its text: the number in hexadecimal,
  and the number with its bytes in the other order.
* `unpack_context` — all the registers that the proxy keeps of a context.
* `format08x_eq`, `format08x_swapped` — the texts of a word, as texts of its bytes.
* `field_packGdb_gpr`, `field_packGdb_cpsr` — the fields of the answer to `g`.
-/

namespace Hbootdbg.Host

open Hbootdbg.Lib.ByteMem Hbootdbg.Lib.Hex Hbootdbg.Device

/-- `'{:08x}'.format (w)`. -/
def format08x (w : Word) : List Byte :=
  (List.range 8).map fun i => hexDigit (w.toNat / 16 ^ (7 - i) % 16)

/-- `struct.unpack ('>I', struct.pack ('<I', w))[0]`. -/
def swapped (w : Word) : Word := unpackBig (wordBytes w) 0

namespace ArmRegisters

variable (r : ArmRegisters)

/-- `_fpr`, which nothing changes. Source: `scripts/gdbproxy.py` `ARMRegisters.__init__` -/
def fpr : List Word := List.replicate 8 0#32

/-- `__getitem__`, `none` where it raises: `_fpr` has no index from 16.
Source: `scripts/gdbproxy.py` `ARMRegisters.__getitem__` -/
def getItem (i : ℕ) : Option Word :=
  if i ≤ 15 then some (r.gpr (Fin.ofNat 16 i))
  else if 16 ≤ i ∧ i ≤ 23 then fpr[i]?
  else if i = 25 then some r.cpsr
  else none

/-- `pack_gdb`. Source: `scripts/gdbproxy.py` `ARMRegisters.pack_gdb` -/
def packGdb : List Byte :=
  (List.ofFn r.gpr).flatMap (fun v => format08x (swapped v)) ++
    fpr.flatMap (fun v => format08x (swapped v)) ++
    format08x 0#32 ++ format08x (swapped r.cpsr)

/-- The registers that the proxy has. -/
theorem isSome_getItem (n : ℕ) : (r.getItem n).isSome ↔ n ≤ 15 ∨ n = 25 := by
  unfold getItem
  by_cases h15 : n ≤ 15
  · rw [if_pos h15]
    exact iff_of_true rfl (Or.inl h15)
  · rw [if_neg h15]
    by_cases h23 : 16 ≤ n ∧ n ≤ 23
    · have hfpr : ArmRegisters.fpr.length ≤ n := by
        rw [ArmRegisters.fpr, List.length_replicate]
        omega
      rw [if_pos h23, List.getElem?_eq_none hfpr]
      exact iff_of_false Bool.noConfusion (by omega)
    · rw [if_neg h23]
      by_cases h25 : n = 25
      · rw [if_pos h25]
        exact iff_of_true rfl (Or.inr h25)
      · rw [if_neg h25]
        exact iff_of_false Bool.noConfusion (by omega)

end ArmRegisters

/-- What `unpack` makes of a context. -/
def ArmRegisters.ofContext (ctx : Context) : ArmRegisters where
  cpsr := swapped ctx.cpsr
  gpr := Function.update ctx.r 11 0x8d05e8c0#32

/-- All general registers but `r11` are those of the context. -/
theorem ArmRegisters.ofContext_gpr (ctx : Context) {i : Fin 16} (h : i ≠ 11) :
    (ofContext ctx).gpr i = ctx.r i := Function.update_of_ne h _ _

/-- The bytes of a context are unpacked into its registers. -/
theorem unpack_context (ctx : Context) :
    ArmRegisters.unpack ctx.bytes = some (.ofContext ctx) := by
  obtain ⟨r, hr, hgpr⟩ := unpack_bytes ctx
  have hcpsr : r.cpsr = swapped ctx.cpsr := by
    rw [ArmRegisters.unpack, if_neg (by rw [length_bytes]; decide)] at hr
    obtain rfl := Option.some.inj hr
    rfl
  rw [hr]
  cases r
  cases hgpr
  cases hcpsr
  rfl

/-! ## Texts of words -/

/-- The digits of a byte of a word are two of the digits of the word. -/
theorem hexPair_byteOf (w : Word) (i : ℕ) :
    hexPair (byteOf w i) =
      [hexDigit (w.toNat / 16 ^ (2 * i + 1) % 16), hexDigit (w.toNat / 16 ^ (2 * i) % 16)] := by
  have hbyte : (byteOf w i).toNat = w.toNat / 16 ^ (2 * i) % 256 := by
    have hpow : 2 ^ (8 * i) = 16 ^ (2 * i) := by
      rw [show 16 = 2 ^ 4 from rfl, ← pow_mul]
      congr 1
      omega
    rw [byteOf, BitVec.toNat_setWidth, BitVec.toNat_ushiftRight, Nat.shiftRight_eq_div_pow, hpow]
  have hhi : w.toNat / 16 ^ (2 * i) % 256 / 16 = w.toNat / 16 ^ (2 * i + 1) % 16 := by
    rw [pow_succ, ← Nat.div_div_eq_div_mul]
    omega
  have hlo : w.toNat / 16 ^ (2 * i) % 256 % 16 = w.toNat / 16 ^ (2 * i) % 16 := by omega
  rw [hexPair, hbyte, hhi, hlo]

/-- **The number of a word has its bytes from the most significant one on.** -/
theorem format08x_eq (w : Word) : format08x w = hexlify (wordBytes w).reverse := by
  have htext : hexlify (wordBytes w).reverse = hexPair (byteOf w 3) ++ (hexPair (byteOf w 2) ++
      (hexPair (byteOf w 1) ++ (hexPair (byteOf w 0) ++ []))) := rfl
  rw [htext]
  simp only [hexPair_byteOf]
  rfl

/-- The bytes of the other number. -/
theorem wordBytes_swapped (w : Word) : wordBytes (swapped w) = (wordBytes w).reverse := by
  have hswap : swapped w = byteOf w 0 ++ byteOf w 1 ++ byteOf w 2 ++ byteOf w 3 := rfl
  have hbytes := reverse_wordBytes (byteOf w 0) (byteOf w 1) (byteOf w 2) (byteOf w 3)
  rw [← hswap] at hbytes
  rw [← List.reverse_reverse (wordBytes (swapped w)), hbytes]
  rfl

/-- The number with its bytes in the other order has the bytes of the word in memory order. -/
theorem format08x_swapped (w : Word) : format08x (swapped w) = hexlify (wordBytes w) := by
  rw [format08x_eq, wordBytes_swapped, List.reverse_reverse]

/-- The texts of a word agree iff its bytes read the same in both directions. -/
theorem hexlify_reverse_eq_iff (s : List Byte) : hexlify s.reverse = hexlify s ↔ s.reverse = s :=
  hexlify_injective.eq_iff

/-! ## The answer to `g` -/

namespace ArmRegisters

variable (r : ArmRegisters)

/-- The words of the answer, in order. -/
def words : List Word := List.ofFn r.gpr ++ (fpr ++ [0#32, r.cpsr])

/-- The reply to `g` is the text of its words, one after the other. -/
theorem packGdb_eq : r.packGdb = r.words.flatMap fun v => hexlify (wordBytes v) := by
  have hzero : format08x 0#32 = format08x (swapped 0#32) := rfl
  unfold packGdb words
  rw [hzero]
  simp only [format08x_swapped, List.flatMap_append, List.flatMap_cons, List.flatMap_nil,
    List.append_assoc, List.append_nil]

/-- Every register has a field of eight digits. -/
theorem field_packGdb {n : ℕ} {v : Word} (hn : r.words[n]? = some v) :
    field 8 n r.packGdb = hexlify (wordBytes v) := by
  obtain ⟨hlt, rfl⟩ := List.getElem?_eq_some_iff.mp hn
  rw [packGdb_eq]
  exact field_flatMap (fun v => length_hexlify (wordBytes v)) hlt

/-- The field of a general register in the reply to `g`. -/
theorem field_packGdb_gpr (i : Fin 16) : field 8 i r.packGdb = hexlify (wordBytes (r.gpr i)) := by
  apply field_packGdb
  rw [words, List.getElem?_append_left (by simp), List.getElem?_ofFn]
  simp

/-- The field of `cpsr` in the reply to `g`. -/
theorem field_packGdb_cpsr : field 8 25 r.packGdb = hexlify (wordBytes r.cpsr) :=
  r.field_packGdb rfl

end ArmRegisters

end Hbootdbg.Host
