import Hbootdbg.Gdb.Packets

/-!
# What `unpack` accepts

`unpack` tests that the two digits, in lower case, are between `0` and `f`, and then leaves it to
`int` to parse them. There are characters between `9` and `f` that `int` does not parse.

* `hexValue_lower`, `ofHex_lower` — lower-casing does not change the value of digits.
* `InGap` — the characters that pass the test and are no digits (`inRange_lower_iff`).
* `unpack_of_digitsRight`, `unpack_of_gapDigits`, `unpack_of_wrong` — the three outcomes.
* `ValidatesExactly` — no exception, and a list iff the digits are right.
* `validates_exactly_iff` — that is so unless a character in the gap is among the two digits.
-/

namespace Hbootdbg.Gdb

open Hbootdbg.Lib.ByteMem Hbootdbg.Lib.Hex

/-! ## Characters -/

/-- The test of `unpack` on a digit in lower case.
Source: `scripts/gdbproxy.py` `GDBServer.unpack` -/
def InRange (c : Byte) : Prop := 0x30#8 ≤ c ∧ c ≤ 0x66#8

instance (c : Byte) : Decidable (InRange c) := inferInstanceAs (Decidable (_ ∧ _))

/-- `:` to `@`, and `[` to the backquote. -/
def InGap (c : Byte) : Prop :=
  (0x3a ≤ c.toNat ∧ c.toNat ≤ 0x40) ∨ (0x5b ≤ c.toNat ∧ c.toNat ≤ 0x60)

instance (c : Byte) : Decidable (InGap c) := inferInstanceAs (Decidable (_ ∨ _))

theorem toNat_lower (c : Byte) :
    (lower c).toNat = if 0x41 ≤ c.toNat ∧ c.toNat ≤ 0x5a then c.toNat + 0x20 else c.toNat := by
  unfold lower
  by_cases h : 0x41#8 ≤ c ∧ c ≤ 0x5a#8
  · have h' : 0x41 ≤ c.toNat ∧ c.toNat ≤ 0x5a := h
    rw [if_pos h, if_pos h', BitVec.toNat_add, show (0x20#8).toNat = 0x20 from rfl]
    omega
  · have h' : ¬ (0x41 ≤ c.toNat ∧ c.toNat ≤ 0x5a) := h
    rw [if_neg h, if_neg h']

/-- Lower-casing does not change the value of a digit, and makes no digits. -/
theorem hexValue_lower (c : Byte) : hexValue (lower c) = hexValue c := by
  unfold hexValue
  rw [toNat_lower]
  split_ifs <;> first | omega | (rw [Option.some.injEq]; omega) | rfl

theorem ofDigits_lower (v : ℕ) (digits : List Byte) :
    ofDigits 16 hexValue v (digits.map lower) = ofDigits 16 hexValue v digits := by
  induction digits generalizing v with
  | nil => rfl
  | cons c digits ih =>
      rw [List.map_cons, ofDigits, ofDigits, hexValue_lower]
      simp only [ih]

theorem ofHex_lower (digits : List Byte) : ofHex (digits.map lower) = ofHex digits := by
  unfold ofHex
  rw [ofDigits_lower]
  simp only [List.map_eq_nil_iff]

theorem hexValue_of_inGap {c : Byte} (h : InGap c) : hexValue c = none := by
  unfold InGap at h
  unfold hexValue
  rw [if_neg (by omega), if_neg (by omega), if_neg (by omega)]

/-- **The characters that pass the test are the digits and those in the gap.** -/
theorem inRange_lower_iff (c : Byte) : InRange (lower c) ↔ (hexValue c).isSome ∨ InGap c := by
  have hrange : InRange (lower c) ↔ 0x30 ≤ (lower c).toNat ∧ (lower c).toNat ≤ 0x66 := Iff.rfl
  rw [hrange, toNat_lower]
  unfold InGap hexValue
  split_ifs <;> simp <;> omega

/-! ## Sums -/

theorem toNat_foldl_add (data : List Byte) (c : Byte) :
    (data.foldl (· + ·) c).toNat = (c.toNat + (data.map BitVec.toNat).sum) % 256 := by
  induction data generalizing c with
  | nil => exact (Nat.mod_eq_of_lt c.isLt).symm
  | cons b data ih =>
      rw [List.foldl_cons, ih, BitVec.toNat_add, List.map_cons, List.sum_cons]
      omega

/-- The checksum is the sum of the data modulo 256. -/
theorem toNat_checksum (data : List Byte) :
    (checksum data).toNat = (data.map BitVec.toNat).sum % 256 := by
  rw [checksum, toNat_foldl_add]
  simp

/-! ## Validation -/

/-- The digits are two hexadecimal digits of either case that sum up the data modulo 256. -/
def DigitsRight (data digits : List Byte) : Prop :=
  digits.length = 2 ∧ ofHex digits = some ((data.map BitVec.toNat).sum % 256)

/-- `unpack` raises no exception, and returns a list iff the digits are right. -/
def ValidatesExactly (data digits : List Byte) : Prop :=
  ∃ r, unpack data digits = some r ∧ (r.isSome ↔ DigitsRight data digits)

/-- Two characters that pass the range test, not both of them digits. -/
def GapDigits (digits : List Byte) : Prop :=
  digits.length = 2 ∧ (∀ c ∈ digits, (hexValue c).isSome ∨ InGap c) ∧ ∃ c ∈ digits, InGap c

/-- What `unpack` computes, without the detour over lower case. -/
theorem unpack_eq (data digits : List Byte) :
    unpack data digits =
      if digits.length = 2 ∧ ∀ c ∈ digits, (hexValue c).isSome ∨ InGap c then
        (ofHex digits).map fun v =>
          if (checksum data).toNat ≠ v then none else some (unpackFields data)
      else some none := by
  have hrange : (∀ c ∈ digits.map lower, 0x30#8 ≤ c ∧ c ≤ 0x66#8) ↔
      ∀ c ∈ digits, (hexValue c).isSome ∨ InGap c := by
    rw [List.forall_mem_map]
    exact forall₂_congr fun c _ => inRange_lower_iff c
  unfold unpack
  simp only [List.length_map, ofHex_lower, hrange]
  by_cases h : digits.length = 2 ∧ ∀ c ∈ digits, (hexValue c).isSome ∨ InGap c
  · rw [if_pos h, if_neg (not_or.mpr ⟨not_not_intro h.1, not_not_intro h.2⟩)]
  · rw [if_neg h, if_pos (not_and_or.mp h)]

/-- Digits that are right have no character in the gap. -/
theorem DigitsRight.not_gapDigits {data digits : List Byte} (h : DigitsRight data digits) :
    ¬ GapDigits digits := by
  rintro ⟨-, -, c, hc, hgap⟩
  have hsome := (isSome_of_ofHex h.2).2 c hc
  rw [hexValue_of_inGap hgap] at hsome
  cases hsome

/-- Digits that are right are accepted. -/
theorem unpack_of_digitsRight {data digits : List Byte} (h : DigitsRight data digits) :
    unpack data digits = some (some (unpackFields data)) := by
  have hdigits : ∀ c ∈ digits, (hexValue c).isSome ∨ InGap c := fun c hc =>
    Or.inl ((isSome_of_ofHex h.2).2 c hc)
  rw [unpack_eq, if_pos ⟨h.1, hdigits⟩, h.2, Option.map_some, toNat_checksum]
  exact congrArg some (if_neg (not_not_intro rfl))

/-- A character in the gap makes `int` raise. -/
theorem unpack_of_gapDigits {data digits : List Byte} (h : GapDigits digits) :
    unpack data digits = none := by
  obtain ⟨hlen, hall, c, hc, hgap⟩ := h
  have hnone := (ofHex_eq_none_iff (List.ne_nil_of_mem hc)).mpr ⟨c, hc, hexValue_of_inGap hgap⟩
  rw [unpack_eq, if_pos ⟨hlen, hall⟩, hnone, Option.map_none]

/-- All other digits are refused. -/
theorem unpack_of_wrong {data digits : List Byte} (hgap : ¬ GapDigits digits)
    (hwrong : ¬ DigitsRight data digits) : unpack data digits = some none := by
  rw [unpack_eq]
  by_cases h : digits.length = 2 ∧ ∀ c ∈ digits, (hexValue c).isSome ∨ InGap c
  · have hne : digits ≠ [] := List.ne_nil_of_length_pos (by omega)
    rw [if_pos h]
    cases hv : ofHex digits with
    | none =>
        -- `int` would raise: one of the characters would be in the gap
        obtain ⟨c, hc, hnone⟩ := (ofHex_eq_none_iff hne).mp hv
        have hin : InGap c := (h.2 c hc).resolve_left (by rw [hnone]; exact Bool.noConfusion)
        exact absurd ⟨h.1, h.2, c, hc, hin⟩ hgap
    | some v =>
        have hsum : (checksum data).toNat ≠ v := by
          rintro rfl
          exact hwrong ⟨h.1, by rw [hv, toNat_checksum]⟩
        rw [Option.map_some, if_pos hsum]
  · rw [if_neg h]

/-- **Packet validation is exact unless one of the two characters of the checksum is in the gap**;
then `unpack` raises an exception. -/
theorem validates_exactly_iff (data digits : List Byte) :
    ValidatesExactly data digits ↔ ¬ GapDigits digits := by
  unfold ValidatesExactly
  by_cases hgap : GapDigits digits
  · refine iff_of_false ?_ (not_not_intro hgap)
    rintro ⟨r, hr, -⟩
    rw [unpack_of_gapDigits hgap] at hr
    cases hr
  · refine iff_of_true ?_ hgap
    by_cases hright : DigitsRight data digits
    · exact ⟨_, unpack_of_digitsRight hright, iff_of_true rfl hright⟩
    · exact ⟨none, unpack_of_wrong hgap hright, iff_of_false Bool.noConfusion hright⟩

/-- The empty packet `$#:0`. -/
theorem colon_raises : ¬ ValidatesExactly [] [0x3a#8, 0x30#8] := by
  rintro ⟨r, hr, -⟩
  have hraises : unpack [] [0x3a#8, 0x30#8] = none := by decide
  rw [hraises] at hr
  cases hr

end Hbootdbg.Gdb
