import Hbootdbg.Gdb.Handlers

/-!
# Writing memory through the proxy

`handle_write_memory` reads the digits of the data as one number, the command carries that number as
four bytes, and the device copies as many bytes as the size says, from the first of the four on.

* `packed_bytes` — the bytes of a number as the last four bytes of the data, with zeros before them.
* `WritesExactly` — the packet is handled, and memory holds the data and is otherwise unchanged.
* `writesExactly_iff` — four bytes are written exactly, fewer only if they are zero, more never.
  `short_write_zeroes` is one byte.
-/

namespace Hbootdbg.Gdb

open Hbootdbg.Lib.ByteMem Hbootdbg.Lib.Hex Hbootdbg.Device Hbootdbg.Host

/-- The packet `M a,n:data` is handled, the range `[a, a + n)` holds the data, and no other byte has
changed. -/
def WritesExactly (H : HbootClient) (B : Board) (d : Dev) (a n : HexWord) (data : List Byte) :
    Prop :=
  ∃ d' reply, handleWriteMemory H B d a.text [n.text, hexlify data] = some (d', reply) ∧
    (∀ i < data.length, d'.mem (off a.value i) = data.getD i 0#8) ∧
    ∀ x, ¬ InSpan a.value data.length x → d'.mem x = d.mem x

/-! ## The four bytes of the command -/

/-- The data, with four zeros before them. -/
def padded (data : List Byte) (j : ℕ) : Byte := (List.replicate 4 0#8 ++ data).getD j 0#8

theorem padded_add_four (data : List Byte) (i : ℕ) : padded data (4 + i) = data.getD i 0#8 := by
  unfold padded
  rw [List.getD_append_right _ _ _ _ (by simp), List.length_replicate, Nat.add_sub_cancel_left]

theorem padded_of_lt {data : List Byte} {j : ℕ} (hj : j < 4) : padded data j = 0#8 := by
  unfold padded
  rw [List.getD_append _ _ _ _ (by simpa using hj)]
  interval_cases j <;> rfl

/-- **A number that fits a word is packed as the last four bytes of its data**, and the data have
zeros before these. -/
theorem packed_bytes {data : List Byte} {w : Word} (hw : bigEndian 0 data = w.toNat) :
    (∀ i < 4, (wordBytes w).reverse.getD i 0#8 = padded data (data.length + i)) ∧
      ∀ j < data.length, padded data j = 0#8 := by
  obtain ⟨pre, b0, b1, b2, b3, hsplit, hpre⟩ : ∃ (pre : List Byte) (b0 b1 b2 b3 : Byte),
      List.replicate 4 0#8 ++ data = pre ++ [b0, b1, b2, b3] ∧ pre.length = data.length := by
    have hfull : (List.replicate 4 0#8 ++ data).length = 4 + data.length := by
      rw [List.length_append, List.length_replicate]
    have hlen : ((List.replicate 4 0#8 ++ data).drop data.length).length = 4 := by
      rw [List.length_drop, hfull]
      omega
    obtain ⟨b0, b1, b2, b3, hlast⟩ := List.length_eq_four.mp hlen
    refine ⟨(List.replicate 4 0#8 ++ data).take data.length, b0, b1, b2, b3, ?_, ?_⟩
    · rw [← hlast, List.take_append_drop]
    · rw [List.length_take, hfull]
      omega
  have hzero : bigEndian 0 (List.replicate 4 0#8) = 0 := rfl
  have hvalue : bigEndian 0 data = 2 ^ 32 * bigEndian 0 pre + (b0 ++ b1 ++ b2 ++ b3).toNat := by
    rw [← bigEndian_four, ← bigEndian_append, ← hsplit, bigEndian_append, hzero]
  have hlt := w.isLt
  have hpre0 : bigEndian 0 pre = 0 := by omega
  have hword : w = b0 ++ b1 ++ b2 ++ b3 := BitVec.eq_of_toNat_eq (by omega)
  unfold padded
  rw [hsplit]
  constructor
  · intro i hi
    rw [hword, reverse_wordBytes, List.getD_append_right _ _ _ _ (by omega), hpre,
      Nat.add_sub_cancel_left]
  · intro j hj
    rw [List.getD_append _ _ _ _ (by omega), List.getD_eq_getElem _ _ (by omega)]
    exact (bigEndian_eq_zero_iff pre).mp hpre0 _ (List.getElem_mem _)

/-! ## When the shifted data are the data -/

/-- A sequence that starts with zeros and then repeats what was a few places before is zero. -/
theorem eq_zero_of_shift {f : ℕ → Byte} {p q N : ℕ} (hpq : p < q) (h0 : ∀ j < q, f j = 0#8)
    (hs : ∀ i < N, f (q + i) = f (p + i)) : ∀ j < q + N, f j = 0#8 := by
  intro j
  induction j using Nat.strong_induction_on with
  | _ j ih =>
      intro hj
      by_cases hq : j < q
      · exact h0 j hq
      · obtain ⟨i, rfl⟩ := Nat.exists_eq_add_of_le (Nat.le_of_not_lt hq)
        rw [hs i (by omega)]
        exact ih (p + i) (by omega) (by omega)

/-- **What the device copies is what GDB sent** iff there are four bytes, or fewer and all zero. A
fifth byte comes from the padding of the packet. -/
theorem copied_iff {data : List Byte} {w : Word} {copied : ℕ → Byte}
    (hw : bigEndian 0 data = w.toNat)
    (hcopied : ∀ i < 4, copied i = (wordBytes w).reverse.getD i 0#8)
    (hpad : copied 4 = 0x3e#8) :
    (∀ i < data.length, copied i = data.getD i 0#8) ↔
      data.length = 4 ∨ data.length < 4 ∧ ∀ b ∈ data, b = 0#8 := by
  obtain ⟨hlast, hzero⟩ := packed_bytes hw
  have hfour : ∀ i < 4, copied i = padded data (data.length + i) := fun i hi =>
    (hcopied i hi).trans (hlast i hi)
  constructor
  · intro h
    rcases Nat.lt_trichotomy data.length 4 with hlt | heq | hgt
    · refine Or.inr ⟨hlt, ?_⟩
      -- the bytes repeat those before them, from the zeros in front on
      have hall := eq_zero_of_shift (N := data.length) hlt (fun j hj => padded_of_lt hj)
        fun i hi => by rw [padded_add_four, ← h i hi, hfour i (by omega)]
      intro b hb
      obtain ⟨i, hi, rfl⟩ := List.getElem_of_mem hb
      have := hall (4 + i) (by omega)
      rwa [padded_add_four, List.getD_eq_getElem _ _ hi] at this
    · exact Or.inl heq
    · exfalso
      have hall := eq_zero_of_shift (N := 4) hgt hzero
        fun i hi => by rw [← hfour i hi, h i (by omega), padded_add_four]
      have h4 := hall (4 + 4) (by omega)
      rw [padded_add_four, ← h 4 hgt, hpad] at h4
      revert h4
      decide
  · rintro (heq | ⟨hlt, hz⟩)
    · intro i hi
      rw [hfour i (by omega), heq, padded_add_four]
    · intro i hi
      rw [hfour i (by omega), List.getD_eq_getElem _ _ hi, hz _ (List.getElem_mem _)]
      by_cases hj : data.length + i < 4
      · exact padded_of_lt hj
      · obtain ⟨k, hk⟩ := Nat.exists_eq_add_of_le (Nat.le_of_not_lt hj)
        rw [hk, padded_add_four, List.getD_eq_getElem _ _ (by omega)]
        exact hz _ (List.getElem_mem _)

/-! ## The packet -/

/-- Four bytes fit. -/
theorem bigEndian_lt_of_length {data : List Byte} (h : data.length = 4) :
    bigEndian 0 data < 2 ^ 32 := by
  obtain ⟨b0, b1, b2, b3, rfl⟩ := List.length_eq_four.mp h
  rw [bigEndian_four, Nat.mul_zero, Nat.zero_add]
  exact (b0 ++ b1 ++ b2 ++ b3).isLt

/-- Data that do not fit the word of the command are too long, or not zero. -/
theorem not_exact_of_too_large {data : List Byte} (h : 2 ^ 32 ≤ bigEndian 0 data) :
    ¬ (data.length = 4 ∨ data.length < 4 ∧ ∀ b ∈ data, b = 0#8) := by
  rintro (h4 | ⟨-, hz⟩)
  · exact absurd (bigEndian_lt_of_length h4) (Nat.not_lt.mpr h)
  · rw [(bigEndian_eq_zero_iff data).mpr hz] at h
    exact absurd h (by norm_num)

/-- A write that has been handled is exact iff the device has copied the data. -/
theorem writesExactly_iff_of_handle {H : HbootClient} {B : Board} {d d' : Dev} {a n : HexWord}
    {data reply : List Byte} {copied : ℕ → Byte} (hlen : data.length = n.value.toNat)
    (hhandle : handleWriteMemory H B d a.text [n.text, hexlify data] = some (d', reply))
    (hmem : d'.mem = patch d.mem a.value n.value.toNat copied) :
    WritesExactly H B d a n data ↔ ∀ i < data.length, copied i = data.getD i 0#8 := by
  have hn : n.value.toNat ≤ 2 ^ 32 := n.value.isLt.le
  have hbyte : ∀ i < data.length, d'.mem (off a.value i) = copied i := by
    intro i hi
    rw [hmem]
    exact patch_off (hlen ▸ hi) hn
  have hother : ∀ x, ¬ InSpan a.value data.length x → d'.mem x = d.mem x := by
    intro x hx
    rw [hmem]
    exact patch_of_not_inSpan (hlen ▸ hx)
  constructor
  · rintro ⟨d₁, reply₁, hd₁, hdata₁, -⟩ i hi
    have he : d' = d₁ := congrArg Prod.fst (Option.some.inj (hhandle.symm.trans hd₁))
    rw [← hbyte i hi, he]
    exact hdata₁ i hi
  · intro h
    exact ⟨d', reply, hhandle, fun i hi => (hbyte i hi).trans (h i hi), hother⟩

/-- A write whose handler raises, or never returns, is not exact. -/
theorem not_writesExactly_of_none {H : HbootClient} {B : Board} {d : Dev} {a n : HexWord}
    {data : List Byte}
    (hhandle : handleWriteMemory H B d a.text [n.text, hexlify data] = none) :
    ¬ WritesExactly H B d a n data := by
  rintro ⟨d', reply, hd', -⟩
  rw [hhandle] at hd'
  cases hd'

/-- **A memory write of GDB is exact iff it is of four bytes, or of fewer that are all zero**, and
the cache loops of the device end. -/
theorem writesExactly_iff (H : HbootClient) (B : Board) (d : Dev) (a n : HexWord) (data : List Byte)
    (hpos : 0 < data.length) (hlen : data.length = n.value.toNat)
    (hmap : mmuProbeRead B d.mem a.value n.value = true) :
    WritesExactly H B d a n data ↔
      (data.length = 4 ∨ data.length < 4 ∧ ∀ b ∈ data, b = 0#8) ∧
        mmuInvalidateCacheRange B a.value n.value ≠ none := by
  have hdata : data ≠ [] := List.ne_nil_of_length_pos hpos
  by_cases hfit : bigEndian 0 data < 2 ^ 32
  · obtain ⟨w, hw⟩ : ∃ w : Word, bigEndian 0 data = w.toNat :=
      ⟨BitVec.ofNat 32 (bigEndian 0 data), by rw [BitVec.toNat_ofNat, Nat.mod_eq_of_lt hfit]⟩
    have hhandle := handleWriteMemory_eq (H := H) (B := B) (d := d) (a := a) (n := n) hdata
    obtain ⟨copied, hcopied, hpad, hreq⟩ := request_write H B d a.value n.value w
    rw [← hw] at hreq
    rcases hreq with ⟨-, ⟨hloop, hnone⟩ | ⟨hloop, d', hmem, -, hd'⟩⟩ | ⟨hunmapped, -⟩
    · -- the device never returns
      rw [hnone, Option.bind_none] at hhandle
      exact iff_of_false (not_writesExactly_of_none hhandle) fun h => h.2 hloop
    · rw [hd'] at hhandle
      rw [and_iff_left hloop, ← copied_iff hw hcopied hpad]
      exact writesExactly_iff_of_handle hlen hhandle hmem
    · rw [hmap] at hunmapped
      cases hunmapped
  · -- `struct.pack` raises
    have hlarge := Nat.le_of_not_lt hfit
    refine iff_of_false (not_writesExactly_of_none (handleWriteMemory_raises hdata hlarge)) ?_
    exact fun h => not_exact_of_too_large hlarge h.1

/-! ## Examples -/

/-- A device in whose translation table every section is accessible. -/
def mappedSample : Dev := { Dev.sample with mem := fun _ => 0xff#8 }

/-- `1` to `4`, as sizes. -/
def sizeSample (n : Fin 4) : HexWord where
  text := [BitVec.ofNat 8 (0x31 + n)]
  value := BitVec.ofNat 32 (n + 1)
  spells := by
    revert n
    decide

/-- One byte `0x12`: the device writes the first of the four bytes `00 00 00 12`. -/
theorem short_write_zeroes :
    mmuProbeRead Board.sample mappedSample.mem addressSample.value (sizeSample 0).value = true ∧
      [0x12#8].length = (sizeSample 0).value.toNat ∧
      ¬ WritesExactly .sample Board.sample mappedSample addressSample (sizeSample 0) [0x12#8] := by
  refine ⟨by decide +kernel, by decide, ?_⟩
  rintro ⟨d', reply, hd', hdata, -⟩
  have hbyte : (handleWriteMemory .sample Board.sample mappedSample addressSample.text
      [(sizeSample 0).text, hexlify [0x12#8]]).map (fun r => r.1.mem 0x8D001000#32) =
        some 0x00#8 := by decide +kernel
  rw [hd', Option.map_some] at hbyte
  have hzero := Option.some.inj hbyte
  have htwelve := hdata 0 (by decide)
  rw [off_zero] at htwelve
  exact absurd (hzero.symm.trans htwelve) (by decide)

/-- Four bytes are written exactly. -/
theorem writesExactly_sample :
    WritesExactly .sample Board.sample mappedSample addressSample (sizeSample 3)
      [0x12#8, 0x34#8, 0x56#8, 0x78#8] :=
  (writesExactly_iff .sample Board.sample mappedSample addressSample (sizeSample 3)
    [0x12#8, 0x34#8, 0x56#8, 0x78#8] (by decide) (by decide) (by decide +kernel)).mpr
    ⟨Or.inl rfl, by decide +kernel⟩

end Hbootdbg.Gdb
