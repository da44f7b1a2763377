import Hbootdbg.Lib.ByteMem

/-!
# Base64

* `digit` — the character for six bits.
* `encode` — the padded encoding: four characters for every three bytes, begun or complete.
* `length_encode`, `ne_zero_of_mem_encode` — the length of the text, and that it holds no NUL.
* `byte_zero_of_sextets`, `byte_one_of_sextets`, `byte_two_of_sextets` — the bytes of a group, out
  of its neighbouring sextets: what any decoder has to compute.
-/

namespace Hbootdbg.Lib.Base64

open Hbootdbg.Lib.ByteMem

/-- `A`–`Z`, `a`–`z`, `0`–`9`, `+` and `/`. -/
def alphabet : List Byte :=
  ((List.range 26).map fun i => BitVec.ofNat 8 (0x41 + i)) ++
    ((List.range 26).map fun i => BitVec.ofNat 8 (0x61 + i)) ++
    ((List.range 10).map fun i => BitVec.ofNat 8 (0x30 + i)) ++ [0x2b#8, 0x2f#8]

/-- The character for six bits. -/
def digit (v : BitVec 6) : Byte := alphabet.getD v.toNat 0#8

/-- `=`. -/
def pad : Byte := 0x3d#8

/-- Six of the 24 bits of a group of three bytes, the leading six first. -/
def sextetOf (a b c : Byte) : ℕ → BitVec 6
  | 0 => (a >>> 2).setWidth 6
  | 1 => (a <<< 4 ||| b >>> 4).setWidth 6
  | 2 => (b <<< 2 ||| c >>> 6).setWidth 6
  | _ => c.setWidth 6

/-- The padded encoding of a byte string. -/
def encode : List Byte → List Byte
  | [] => []
  | [a] => [digit (sextetOf a 0#8 0#8 0), digit (sextetOf a 0#8 0#8 1), pad, pad]
  | [a, b] => [digit (sextetOf a b 0#8 0), digit (sextetOf a b 0#8 1),
      digit (sextetOf a b 0#8 2), pad]
  | a :: b :: c :: rest =>
      digit (sextetOf a b c 0) :: digit (sextetOf a b c 1) :: digit (sextetOf a b c 2) ::
        digit (sextetOf a b c 3) :: encode rest

/-- No digit is a NUL. -/
theorem digit_ne_zero (v : BitVec 6) : digit v ≠ 0#8 := by
  revert v
  decide +kernel

/-- Four digits for three bytes, the last ones padded. -/
theorem length_encode (x : List Byte) : (encode x).length = 4 * ((x.length + 2) / 3) := by
  induction x using encode.induct with
  | case1 => rfl
  | case2 a => simp [encode]
  | case3 a b => simp [encode]
  | case4 a b c rest ih =>
      simp only [encode, List.length_cons, ih]
      omega

/-- The text holds no NUL. -/
theorem ne_zero_of_mem_encode {x : List Byte} : ∀ t ∈ encode x, t ≠ 0#8 := by
  have hpad : pad ≠ 0#8 := by decide
  induction x using encode.induct with
  | case1 =>
      intro t ht
      cases ht
  | case2 a =>
      intro t ht
      simp only [encode, List.mem_cons, List.not_mem_nil, or_false] at ht
      rcases ht with rfl | rfl | rfl | rfl
      · exact digit_ne_zero _
      · exact digit_ne_zero _
      · exact hpad
      · exact hpad
  | case3 a b =>
      intro t ht
      simp only [encode, List.mem_cons, List.not_mem_nil, or_false] at ht
      rcases ht with rfl | rfl | rfl | rfl
      · exact digit_ne_zero _
      · exact digit_ne_zero _
      · exact digit_ne_zero _
      · exact hpad
  | case4 a b c rest ih =>
      intro t ht
      simp only [encode, List.mem_cons] at ht
      rcases ht with rfl | rfl | rfl | rfl | ht
      · exact digit_ne_zero _
      · exact digit_ne_zero _
      · exact digit_ne_zero _
      · exact digit_ne_zero _
      · exact ih t ht

/-! ## The bytes of a group -/

section group

variable (a b c : Byte)

theorem byte_zero_of_sextets :
    (sextetOf a b c 0).setWidth 8 <<< 2 ||| (sextetOf a b c 1).setWidth 8 >>> 4 = a := by
  apply BitVec.eq_of_getLsbD_eq
  intro i hi
  interval_cases i <;> simp [sextetOf]

theorem byte_one_of_sextets :
    (sextetOf a b c 1).setWidth 8 <<< 4 ||| (sextetOf a b c 2).setWidth 8 >>> 2 = b := by
  apply BitVec.eq_of_getLsbD_eq
  intro i hi
  interval_cases i <;> simp [sextetOf]

theorem byte_two_of_sextets :
    (sextetOf a b c 2).setWidth 8 <<< 6 ||| (sextetOf a b c 3).setWidth 8 >>> 0 = c := by
  apply BitVec.eq_of_getLsbD_eq
  intro i hi
  interval_cases i <;> simp [sextetOf]

end group

end Hbootdbg.Lib.Base64
