import Hbootdbg.Lib.Hex

/-!
# `int` of Python on byte strings

White space around the number, a sign, the prefix `0x` in base 16 and, in newer versions, single
underscores between digits are allowed.

* `Python` — what the versions of Python 3 differ in.
* `strip`, `sign`, `Python.dropPrefix`, `Python.joined` — the parts of the syntax.
* `Python.int16`, `Python.int10` — `int (s, 16)` and `int (s)`, `none` where they raise.
* `int16_of_ofHex`, `int10_of_ofDecimal` — on digits alone, they are the value of the digits.
-/

namespace Hbootdbg.Lib.PyInt

open Hbootdbg.Lib.ByteMem Hbootdbg.Lib.Hex

/-! ## Syntax -/

/-- A version of Python 3. -/
structure Python where
  /-- Digits may be grouped by underscores. -/
  underscores : Bool
  /-- The most digits of a decimal number; 0 where there is no such bound. -/
  maxStrDigits : ℕ

/-- Python 3.11, as it is installed. -/
def Python.sample : Python := ⟨true, 4300⟩

/-- Tabulators, line breaks and the blank. -/
def isSpace (c : Byte) : Bool := (0x09 ≤ c.toNat ∧ c.toNat ≤ 0x0d) ∨ c.toNat = 0x20

/-- `s.strip ()`. -/
def strip (s : List Byte) : List Byte := (s.dropWhile isSpace).rdropWhile isSpace

/-- Whether there is a minus, and what follows the sign. -/
def sign : List Byte → Bool × List Byte
  | [] => (false, [])
  | c :: s => if c = 0x2d#8 then (true, s) else if c = 0x2b#8 then (false, s) else (false, c :: s)

/-- The value with its sign. -/
def signed (negative : Bool) (v : ℕ) : ℤ := if negative then -v else v

/-- `_`. -/
def underscore : Byte := 0x5f#8

variable (π : Python)

/-- What follows `0x` or `0X`, and an underscore behind it; anything else is left as it is. -/
def Python.dropPrefix : List Byte → List Byte
  | c :: x :: s =>
      if c = 0x30#8 ∧ (x = 0x78#8 ∨ x = 0x58#8) then
        if π.underscores ∧ s.head? = some underscore then s.tail else s
      else c :: x :: s
  | s => s

/-- The digits without the underscores between them. -/
def Python.joined (s : List Byte) : Option (List Byte) :=
  if π.underscores then
    if [] ∈ s.splitOn underscore then none else some (s.filter (· ≠ underscore))
  else some s

/-- `int (s, 16)`. -/
def Python.int16 (s : List Byte) : Option ℤ :=
  let (negative, s) := sign (strip s)
  (π.joined (π.dropPrefix s)).bind fun digits => (ofHex digits).map (signed negative)

/-- `int (s)`. -/
def Python.int10 (s : List Byte) : Option ℤ :=
  let (negative, s) := sign (strip s)
  (π.joined s).bind fun digits =>
    if π.maxStrDigits ≠ 0 ∧ π.maxStrDigits < digits.length then none
    else (ofDecimal digits).map (signed negative)

variable {π} {s : List Byte}

/-! ## Digits alone -/

/-- The characters of a number without any syntax. -/
def Plain (s : List Byte) : Prop := ∀ c ∈ s, (hexValue c).isSome

instance (s : List Byte) : Decidable (Plain s) := inferInstanceAs (Decidable (∀ c ∈ s, _))

/-- The digits of a hexadecimal number. -/
theorem isSome_hexValue_iff (c : Byte) :
    (hexValue c).isSome ↔ (0x30 ≤ c.toNat ∧ c.toNat ≤ 0x39) ∨ (0x41 ≤ c.toNat ∧ c.toNat ≤ 0x46) ∨
      (0x61 ≤ c.toNat ∧ c.toNat ≤ 0x66) := by
  unfold hexValue
  split_ifs <;> simp <;> omega

/-- A character that is no digit. -/
theorem Plain.ne {c b : Byte} (h : Plain s) (hc : c ∈ s) (hb : hexValue b = none) : c ≠ b := by
  rintro rfl
  have hsome := h c hc
  rw [hb] at hsome
  cases hsome

/-- Digits are no blanks. -/
theorem Plain.isSpace {c : Byte} (h : Plain s) (hc : c ∈ s) : isSpace c = false := by
  have hdigit := (isSome_hexValue_iff c).mp (h c hc)
  refine decide_eq_false ?_
  omega

/-- Nothing is stripped off plain digits. -/
theorem Plain.strip (h : Plain s) : strip s = s := by
  have hhead : s.dropWhile PyInt.isSpace = s := by
    cases s with
    | nil => rfl
    | cons c s => rw [List.dropWhile_cons, h.isSpace List.mem_cons_self, if_neg (by decide)]
  rw [PyInt.strip, hhead, List.rdropWhile_eq_self_iff]
  intro hne hspace
  rw [h.isSpace (List.getLast_mem hne)] at hspace
  cases hspace

/-- Plain digits have no sign. -/
theorem Plain.sign (h : Plain s) : sign s = (false, s) := by
  cases s with
  | nil => rfl
  | cons c s =>
      have hminus : c ≠ 0x2d#8 := h.ne List.mem_cons_self rfl
      have hplus : c ≠ 0x2b#8 := h.ne List.mem_cons_self rfl
      rw [PyInt.sign, if_neg hminus, if_neg hplus]

/-- Plain digits have no prefix. -/
theorem Plain.dropPrefix (h : Plain s) : π.dropPrefix s = s := by
  rcases s with - | ⟨c, - | ⟨x, s⟩⟩
  · rfl
  · rfl
  · have hmem : x ∈ c :: x :: s := List.mem_cons_of_mem _ List.mem_cons_self
    have hlower : x ≠ 0x78#8 := h.ne hmem rfl
    have hupper : x ≠ 0x58#8 := h.ne hmem rfl
    exact if_neg fun hx => hx.2.elim hlower hupper

/-- Plain digits have no underscores. -/
theorem Plain.joined (h : Plain s) (hne : s ≠ []) : π.joined s = some s := by
  have hnot : underscore ∉ s := fun hmem => h.ne hmem rfl rfl
  have hsplit : s.splitOn underscore = [s] := List.splitOn_eq_singleton hnot
  have hfilter : s.filter (· ≠ underscore) = s :=
    List.filter_eq_self.mpr fun c hc => decide_eq_true (h.ne hc rfl)
  unfold Python.joined
  rw [hsplit, hfilter, if_neg fun hmem => hne (List.mem_singleton.mp hmem).symm]
  exact ite_self _

/-- On hexadecimal digits, `int (s, 16)` is their value. -/
theorem int16_of_ofHex {n : ℕ} (h : ofHex s = some n) : π.int16 s = some (n : ℤ) := by
  obtain ⟨hne, hplain⟩ := isSome_of_ofHex h
  replace hplain : Plain s := hplain
  unfold Python.int16
  rw [hplain.strip, hplain.sign]
  simp only [hplain.dropPrefix, hplain.joined hne, Option.bind_some, h]
  rfl

/-- Decimal digits are hexadecimal digits. -/
theorem isSome_hexValue_of_decimal {c : Byte} (h : (decimalValue c).isSome) :
    (hexValue c).isSome := by
  rw [isSome_hexValue_iff]
  left
  by_contra hrange
  rw [decimalValue, if_neg hrange] at h
  cases h

/-- On decimal digits that are not too many, `int (s)` is their value. -/
theorem int10_of_ofDecimal {n : ℕ} (h : ofDecimal s = some n)
    (hlen : π.maxStrDigits = 0 ∨ s.length ≤ π.maxStrDigits) : π.int10 s = some (n : ℤ) := by
  obtain ⟨hne, hdecimal⟩ := isSome_of_ofDecimal h
  have hplain : Plain s := fun c hc => isSome_hexValue_of_decimal (hdecimal c hc)
  have hfew : ¬ (π.maxStrDigits ≠ 0 ∧ π.maxStrDigits < s.length) := by omega
  unfold Python.int10
  rw [hplain.strip, hplain.sign]
  simp only [hplain.joined hne, Option.bind_some, if_neg hfew, h]
  rfl

end Hbootdbg.Lib.PyInt
