import Hbootdbg.Lib.ByteMem

/-!
# Hexadecimal text and big-endian numbers

* `hexDigit`, `hexlify` — digits, and the text of a byte string; `hexlify_injective`.
* `field` — one of the fields of equal length that a text is made of.
* `hexValue`, `ofHex` — the value of a digit of either case, and of a number; `ofDecimal` is the
  value of a decimal number. `ofHex_eq_none_iff`, `isSome_of_ofHex` — what is a number.
* `bigEndian` — the number that a byte string stands for; `ofHex_hexlify` says that its text has
  the same value, and `bigEndian_eq_zero_iff`, `bigEndian_four` take it apart.
-/

namespace Hbootdbg.Lib.Hex

open Hbootdbg.Lib.ByteMem

/-! ## Text -/

/-- The digit for a value below 16, in lower case. -/
def hexDigit (v : ℕ) : Byte := BitVec.ofNat 8 (if v < 10 then 0x30 + v else 0x57 + v)

/-- The two digits of a byte. -/
def hexPair (b : Byte) : List Byte := [hexDigit (b.toNat / 16), hexDigit (b.toNat % 16)]

/-- The text of a byte string. -/
def hexlify (data : List Byte) : List Byte := data.flatMap hexPair

/-- The value of a digit of either case. -/
def hexValue (c : Byte) : Option ℕ :=
  if 0x30 ≤ c.toNat ∧ c.toNat ≤ 0x39 then some (c.toNat - 0x30)
  else if 0x41 ≤ c.toNat ∧ c.toNat ≤ 0x46 then some (c.toNat - 0x37)
  else if 0x61 ≤ c.toNat ∧ c.toNat ≤ 0x66 then some (c.toNat - 0x57)
  else none

/-- The value of a decimal digit. -/
def decimalValue (c : Byte) : Option ℕ :=
  if 0x30 ≤ c.toNat ∧ c.toNat ≤ 0x39 then some (c.toNat - 0x30) else none

/-- The value of digits that follow a number. -/
def ofDigits (base : ℕ) (value : Byte → Option ℕ) (v : ℕ) : List Byte → Option ℕ
  | [] => some v
  | c :: cs => (value c).bind fun x => ofDigits base value (base * v + x) cs

/-- The value of a non-empty string of hexadecimal digits. -/
def ofHex (s : List Byte) : Option ℕ := if s = [] then none else ofDigits 16 hexValue 0 s

/-- The value of a non-empty string of decimal digits. -/
def ofDecimal (s : List Byte) : Option ℕ := if s = [] then none else ofDigits 10 decimalValue 0 s

/-- The number of a byte string that follows another, most significant byte first. -/
def bigEndian (v : ℕ) : List Byte → ℕ
  | [] => v
  | b :: bs => bigEndian (256 * v + b.toNat) bs

/-- `int` fails on digits iff it fails on one of them. -/
theorem ofDigits_eq_none_iff {base : ℕ} {value : Byte → Option ℕ} {v : ℕ} {digits : List Byte} :
    ofDigits base value v digits = none ↔ ∃ c ∈ digits, value c = none := by
  induction digits generalizing v with
  | nil => simp [ofDigits]
  | cons c digits ih =>
      rw [ofDigits]
      cases hc : value c with
      | none => simp [hc]
      | some x => simp [hc, ih]

/-- What is not a hexadecimal number has a character that is no digit. -/
theorem ofHex_eq_none_iff {digits : List Byte} (h : digits ≠ []) :
    ofHex digits = none ↔ ∃ c ∈ digits, hexValue c = none := by
  rw [ofHex, if_neg h, ofDigits_eq_none_iff]

/-- A number has digits only. -/
theorem isSome_of_ofDigits {base v n : ℕ} {value : Byte → Option ℕ} {digits : List Byte}
    (h : ofDigits base value v digits = some n) : ∀ c ∈ digits, (value c).isSome := by
  intro c hc
  by_contra hnone
  have hall : ofDigits base value v digits = none :=
    ofDigits_eq_none_iff.mpr ⟨c, hc, Option.not_isSome_iff_eq_none.mp hnone⟩
  rw [h] at hall
  cases hall

/-- A hexadecimal number has digits, and nothing else. -/
theorem isSome_of_ofHex {digits : List Byte} {n : ℕ} (h : ofHex digits = some n) :
    digits ≠ [] ∧ ∀ c ∈ digits, (hexValue c).isSome := by
  obtain ⟨hne, hdigits⟩ := Option.ite_none_left_eq_some.mp h
  exact ⟨hne, isSome_of_ofDigits hdigits⟩

/-- A decimal number has digits, and nothing else. -/
theorem isSome_of_ofDecimal {digits : List Byte} {n : ℕ} (h : ofDecimal digits = some n) :
    digits ≠ [] ∧ ∀ c ∈ digits, (decimalValue c).isSome := by
  obtain ⟨hne, hdigits⟩ := Option.ite_none_left_eq_some.mp h
  exact ⟨hne, isSome_of_ofDigits hdigits⟩

/-- The value of a digit. -/
theorem hexValue_hexDigit {v : ℕ} (h : v < 16) : hexValue (hexDigit v) = some v := by
  interval_cases v <;> rfl

/-- Two digits for each byte. -/
theorem length_hexlify (data : List Byte) : (hexlify data).length = 2 * data.length := by
  induction data with
  | nil => rfl
  | cons b data ih =>
      rw [hexlify, List.flatMap_cons, List.length_append, ← hexlify, ih, List.length_cons, hexPair]
      simp only [List.length_cons, List.length_nil]
      omega

/-- **Text has the value of the bytes it was made from.** -/
theorem ofDigits_hexlify (data : List Byte) (v : ℕ) :
    ofDigits 16 hexValue v (hexlify data) = some (bigEndian v data) := by
  induction data generalizing v with
  | nil => rfl
  | cons b data ih =>
      have hb := b.isLt
      have hvalue : 16 * (16 * v + b.toNat / 16) + b.toNat % 16 = 256 * v + b.toNat := by omega
      rw [hexlify, List.flatMap_cons, ← hexlify]
      simp only [hexPair, List.cons_append, List.nil_append, ofDigits]
      rw [hexValue_hexDigit (by omega), hexValue_hexDigit (by omega), Option.bind_some,
        Option.bind_some, hvalue, ih]
      rfl

/-- The text of some bytes is the number that they are, most significant byte first. -/
theorem ofHex_hexlify {data : List Byte} (h : data ≠ []) :
    ofHex (hexlify data) = some (bigEndian 0 data) := by
  have hne : hexlify data ≠ [] := by
    intro he
    have hlen := length_hexlify data
    rw [he, List.length_nil] at hlen
    exact h (List.length_eq_zero_iff.mp (by omega))
  rw [ofHex, if_neg hne, ofDigits_hexlify]

theorem hexDigit_injective {v w : ℕ} (hv : v < 16) (hw : w < 16) (h : hexDigit v = hexDigit w) :
    v = w := by
  have hvalue := congrArg hexValue h
  rw [hexValue_hexDigit hv, hexValue_hexDigit hw] at hvalue
  exact Option.some.inj hvalue

/-- A byte can be told from its two digits. -/
theorem hexPair_injective : Function.Injective hexPair := by
  intro b c h
  obtain ⟨hhi, hlo⟩ := List.cons.inj h
  have hb := b.isLt
  have hc := c.isLt
  have hdiv := hexDigit_injective (by omega) (by omega) hhi
  have hmod := hexDigit_injective (by omega) (by omega) (List.cons.inj hlo).1
  apply BitVec.eq_of_toNat_eq
  omega

/-- **Different byte strings have different texts.** -/
theorem hexlify_injective : Function.Injective hexlify := by
  intro s
  induction s with
  | nil =>
      intro t h
      have hlen := congrArg List.length h
      rw [length_hexlify, length_hexlify, List.length_nil] at hlen
      exact (List.length_eq_zero_iff.mp (by omega)).symm
  | cons b s ih =>
      intro t h
      cases t with
      | nil =>
          have hlen := congrArg List.length h
          rw [length_hexlify, length_hexlify, List.length_cons, List.length_nil] at hlen
          omega
      | cons c t =>
          rw [hexlify, hexlify, List.flatMap_cons, List.flatMap_cons] at h
          obtain ⟨hpair, hrest⟩ := List.append_inj h rfl
          rw [hexPair_injective hpair, ih hrest]

/-- Field `n` of a text that is made of fields of `k` characters. -/
def field (k n : ℕ) (text : List Byte) : List Byte := (text.drop (k * n)).take k

/-- **The fields of a text** are the texts of the items it was made from. -/
theorem field_flatMap {α : Type*} {f : α → List Byte} {k : ℕ} (hf : ∀ a, (f a).length = k)
    {items : List α} {n : ℕ} (hn : n < items.length) : field k n (items.flatMap f) = f items[n] := by
  unfold field
  induction items generalizing n with
  | nil => exact absurd hn (Nat.not_lt_zero n)
  | cons a items ih =>
      rw [List.flatMap_cons]
      cases n with
      | zero =>
          rw [Nat.mul_zero, List.drop_zero, ← hf a, List.take_left, List.getElem_cons_zero]
      | succ n =>
          have hk : k * (n + 1) = (f a).length + k * n := by
            rw [hf a]
            ring
          rw [hk, List.drop_length_add_append, List.getElem_cons_succ]
          exact ih (Nat.lt_of_succ_lt_succ hn)

/-! ## Numbers -/

/-- A number is read in two parts. -/
theorem bigEndian_append (v : ℕ) (s t : List Byte) :
    bigEndian v (s ++ t) = bigEndian (bigEndian v s) t := by
  induction s generalizing v with
  | nil => rfl
  | cons b s ih => exact ih _

/-- Reading on makes a number no smaller. -/
theorem le_bigEndian (v : ℕ) (s : List Byte) : v ≤ bigEndian v s := by
  induction s generalizing v with
  | nil => exact le_rfl
  | cons b s ih =>
      have := ih (256 * v + b.toNat)
      rw [bigEndian]
      omega

/-- Only zeros stand for zero. -/
theorem bigEndian_eq_zero_iff (s : List Byte) : bigEndian 0 s = 0 ↔ ∀ b ∈ s, b = 0#8 := by
  induction s with
  | nil => simp [bigEndian]
  | cons b s ih =>
      rw [bigEndian, List.forall_mem_cons, ← ih, Nat.mul_zero, Nat.zero_add]
      constructor
      · intro h
        have hle := le_bigEndian b.toNat s
        have hb : b = 0#8 := BitVec.eq_of_toNat_eq (by rw [BitVec.toNat_zero]; omega)
        rw [hb] at h
        exact ⟨hb, h⟩
      · rintro ⟨rfl, h⟩
        exact h

/-- One more byte. -/
theorem toNat_append_byte {k : ℕ} (v : BitVec k) (b : Byte) :
    (v ++ b).toNat = 256 * v.toNat + b.toNat := by
  rw [BitVec.toNat_append, ← Nat.shiftLeft_add_eq_or_of_lt b.isLt, Nat.shiftLeft_eq, Nat.mul_comm]

/-- Four more bytes are one more word. -/
theorem bigEndian_four (v : ℕ) (b0 b1 b2 b3 : Byte) :
    bigEndian v [b0, b1, b2, b3] = 2 ^ 32 * v + (b0 ++ b1 ++ b2 ++ b3).toNat := by
  simp only [bigEndian, toNat_append_byte]
  omega

end Hbootdbg.Lib.Hex
