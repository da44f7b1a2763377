import Hbootdbg.Device.Hbootlib

/-!
# `base64.c`: the decoder of commands

The Makefile compiles for `arm-none-eabi`, where plain `char` is unsigned: `fragment < 0` never
holds, and every character is consumed, those outside the alphabet included.

* `base64DecodeValue`, `Decoder`, `decodeChar`, `base64DecodeBlock`, `base64Decode` — the functions
  of the source. A `Decoder` also keeps the indices that were read and written.
* `decodedByte` — what decoding means: byte `i` of the result, from two neighbouring sextets.
* `Progress` — the invariant of the decoding loop, with its step lemma `Progress.step`.
* `base64Decode_spec` — a string of `n` characters decodes to `3 * n / 4` bytes and a NUL, and
  nothing is written beyond them.
-/

namespace Hbootdbg.Device

open Hbootdbg.Lib.ByteMem

/-! ## The source -/

/-- `decoding`, whose entries are plain `char`s. Source: `base64.c` `base64_decode_value` -/
def decoding : List Byte :=
  [62, -1, -1, -1, 63, 52, 53, 54, 55, 56, 57, 58, 59, 60, 61, -1, -1, -1,
    -2, -1, -1, -1, 0, 1, 2, 3, 4, 5, 6, 7, 8, 9, 10, 11, 12, 13, 14, 15,
    16, 17, 18, 19, 20, 21, 22, 23, 24, 25, -1, -1, -1, -1, -1, -1, 26, 27,
    28, 29, 30, 31, 32, 33, 34, 35, 36, 37, 38, 39, 40, 41, 42, 43, 44, 45,
    46, 47, 48, 49, 50, 51]

/-- `(char) base64_decode_value (value_in)`. Source: `base64.c` `base64_decode_value` -/
def base64DecodeValue (valueIn : Byte) : Byte :=
  if decoding.length ≤ (valueIn - 43#8).toNat then -1
  else decoding.getD (valueIn - 43#8).toNat 0

/-- `base64_decodestep`. Source: `base64.c` -/
inductive Base64Decodestep
  | stepA
  | stepB
  | stepC
  | stepD
  deriving DecidableEq, Repr

/-- The variables of `base64_decode_block`. Source: `base64.c` `base64_decode_block` -/
structure Decoder where
  /-- The `case` to go on at. -/
  step : Base64Decodestep
  /-- `codechar - code_in`. -/
  codechar : ℕ
  /-- `plainchar - plaintext_out`. -/
  plainchar : ℕ
  /-- The object at `plaintext_out`. -/
  plaintext : ℕ → Byte
  /-- The indices of `code_in` that were read, oldest first. -/
  reads : List ℕ
  /-- The indices of `plaintext_out` that were written, oldest first. -/
  writes : List ℕ

/-- `*plainchar`. -/
def Decoder.plain (d : Decoder) : Byte := d.plaintext d.plainchar

/-- `*plainchar = v`. -/
def Decoder.store (d : Decoder) (v : Byte) : Decoder :=
  { d with
    plaintext := Function.update d.plaintext d.plainchar v
    writes := d.writes ++ [d.plainchar] }

/-- `plainchar++`. -/
def Decoder.advance (d : Decoder) : Decoder := { d with plainchar := d.plainchar + 1 }

/-- The read of `*codechar++`. -/
def Decoder.fetch (d : Decoder) : Decoder :=
  { d with codechar := d.codechar + 1, reads := d.reads ++ [d.codechar] }

/-- Falling into the `case` of the next step. -/
def Decoder.goto (d : Decoder) (step : Base64Decodestep) : Decoder := { d with step }

/-- One character: `fragment = (char) base64_decode_value (*codechar++)`, and the statements up to
the next such read. Source: `base64.c` `base64_decode_block` -/
def decodeChar (codeIn : ℕ → Byte) (d : Decoder) : Decoder :=
  let fragment := base64DecodeValue (codeIn d.codechar)
  let d := d.fetch
  match d.step with
  | .stepA => (d.store ((fragment &&& 0x3f#8) <<< 2)).goto .stepB
  | .stepB =>
      let d := (d.store (d.plain ||| ((fragment &&& 0x30#8) >>> 4))).advance
      (d.store ((fragment &&& 0x0f#8) <<< 4)).goto .stepC
  | .stepC =>
      let d := (d.store (d.plain ||| ((fragment &&& 0x3c#8) >>> 2))).advance
      (d.store ((fragment &&& 0x03#8) <<< 6)).goto .stepD
  | .stepD => (d.store (d.plain ||| (fragment &&& 0x3f#8))).advance.goto .stepA

/-- The loop of `base64_decode_block`, for the given number of remaining characters.
Source: `base64.c` `base64_decode_block` -/
def decodeChars (codeIn : ℕ → Byte) : ℕ → Decoder → Decoder
  | 0, d => d
  | n + 1, d => decodeChars codeIn n (decodeChar codeIn d)

/-- `base64_decode_block (code_in, length_in, plaintext_out, state_in)`, for a state at `step` with
the given `plainchar`. It returns the `plainchar` of the result.
Source: `base64.c` `base64_decode_block` -/
def base64DecodeBlock (codeIn : ℕ → Byte) (lengthIn : ℕ) (plaintextOut : ℕ → Byte)
    (step : Base64Decodestep) (plainchar : Byte) : Decoder :=
  let d : Decoder := ⟨step, 0, 0, plaintextOut, [], []⟩
  decodeChars codeIn lengthIn (d.store plainchar)

/-- `base64_decode (input, output)`, `none` when `strlen` never returns.
Source: `base64.c` `base64_decode`, `base64_init_decodestate` -/
def base64Decode (input output : ℕ → Byte) : Option Decoder :=
  (strlen input).map fun len => (base64DecodeBlock input len output .stepA 0#8).store 0#8

/-! ## What decoding means -/

/-- The six bits a character stands for. -/
def sextet (c : Byte) : Byte := base64DecodeValue c &&& 0x3f#8

/-- Byte `i` of the decoding of `code`: eight bits from the sextets `i + i / 3` and the next. -/
def decodedByte (code : ℕ → Byte) (i : ℕ) : Byte :=
  (sextet (code (i + i / 3)) <<< (2 + 2 * (i % 3))) |||
    (sextet (code (i + i / 3 + 1)) >>> (4 - 2 * (i % 3)))

/-- The number of bytes that `n` characters stand for. -/
def decodedLength (n : ℕ) : ℕ := 3 * n / 4

/-- The position of a step in its group of four characters. -/
def Base64Decodestep.index : Base64Decodestep → ℕ
  | stepA => 0
  | stepB => 1
  | stepC => 2
  | stepD => 3

/-- The object at `plaintext_out` holds `L` finished bytes of the decoding of `code`, then the byte
that is being worked on, then what was there before. -/
structure Holds (code out : ℕ → Byte) (L : ℕ) (d : Decoder) : Prop where
  plainchar : d.plainchar = L
  done : ∀ i < L, d.plaintext i = decodedByte code i
  untouched : ∀ i, L < i → d.plaintext i = out i
  writes : ∀ i ∈ d.writes, i ≤ L

/-- The decoder has consumed `n` characters of `code`, into an object that held `out`. -/
structure Progress (code out : ℕ → Byte) (n : ℕ) (d : Decoder) : Prop where
  step : d.step.index = n % 4
  codechar : d.codechar = n
  reads : d.reads = List.range n
  holds : Holds code out (decodedLength n) d
  begun : n % 4 ≠ 0 → d.plain = sextet (code (n - 1)) <<< (2 * (n % 4))

variable {code out : ℕ → Byte} {n L : ℕ} {d : Decoder} {v : Byte}

@[simp] theorem Decoder.plain_goto {s : Base64Decodestep} : (d.goto s).plain = d.plain := rfl

@[simp] theorem Decoder.plain_store : (d.store v).plain = v := by
  unfold Decoder.plain Decoder.store
  exact Function.update_self ..

theorem Holds.goto (h : Holds code out L d) (s : Base64Decodestep) : Holds code out L (d.goto s) :=
  ⟨h.plainchar, h.done, h.untouched, h.writes⟩

/-- A store goes to the byte that is being worked on. -/
theorem Holds.store (h : Holds code out L d) (v : Byte) : Holds code out L (d.store v) := by
  refine ⟨h.plainchar, fun i hi => ?_, fun i hi => ?_, fun i hi => ?_⟩
  · rw [← h.done i hi]
    exact Function.update_of_ne (h.plainchar ▸ hi.ne) _ _
  · rw [← h.untouched i hi]
    exact Function.update_of_ne (h.plainchar ▸ hi.ne') _ _
  · rcases List.mem_append.mp hi with hi | hi
    · exact h.writes i hi
    · rw [List.mem_singleton.mp hi, h.plainchar]

/-- The byte is finished. -/
theorem Holds.advance (h : Holds code out L d) (hd : d.plain = decodedByte code L) :
    Holds code out (L + 1) d.advance := by
  refine ⟨congrArg (· + 1) h.plainchar, fun i hi => ?_, fun i hi => h.untouched i (by omega),
    fun i hi => (h.writes i hi).trans (by omega)⟩
  rcases (Nat.lt_succ_iff_lt_or_eq.mp hi) with hi | rfl
  · exact h.done i hi
  · rw [← hd, Decoder.plain, h.plainchar]
    rfl

/-! ### The masks of the steps -/

theorem shiftRight_four_sextet (f : Byte) : (f &&& 0x30#8) >>> 4 = (f &&& 0x3f#8) >>> 4 := by
  revert f
  decide +kernel

theorem shiftLeft_four_sextet (f : Byte) : (f &&& 0x0f#8) <<< 4 = (f &&& 0x3f#8) <<< 4 := by
  revert f
  decide +kernel

theorem shiftRight_two_sextet (f : Byte) : (f &&& 0x3c#8) >>> 2 = (f &&& 0x3f#8) >>> 2 := by
  revert f
  decide +kernel

theorem shiftLeft_six_sextet (f : Byte) : (f &&& 0x03#8) <<< 6 = (f &&& 0x3f#8) <<< 6 := by
  revert f
  decide +kernel

/-! ### The loop -/

/-- How many bytes are complete after `n` digits. -/
theorem decodedLength_eq (n : ℕ) : decodedLength n = 3 * (n / 4) + (n % 4 - 1) := by
  have hlt := Nat.mod_lt n (show 0 < 4 by decide)
  have hdiv := Nat.div_add_mod n 4
  unfold decodedLength
  generalize n % 4 = r at hlt hdiv ⊢
  generalize n / 4 = k at hdiv ⊢
  interval_cases r <;> omega

/-- The first digit of four completes no byte. -/
theorem decodedLength_succ_of_eq (h : n % 4 = 0) : decodedLength (n + 1) = decodedLength n := by
  rw [decodedLength_eq, decodedLength_eq]
  omega

/-- Each other digit of four completes one. -/
theorem decodedLength_succ_of_ne (h : n % 4 ≠ 0) : decodedLength (n + 1) = decodedLength n + 1 := by
  rw [decodedLength_eq, decodedLength_eq]
  omega

/-- The byte that is being worked on, in terms of the last character and the next one. -/
theorem decodedByte_decodedLength (h : n % 4 ≠ 0) :
    decodedByte code (decodedLength n) =
      (sextet (code (n - 1)) <<< (2 * (n % 4))) ||| (sextet (code n) >>> (6 - 2 * (n % 4))) := by
  have h1 : decodedLength n + decodedLength n / 3 = n - 1 := by
    rw [decodedLength_eq]
    omega
  have h2 : decodedLength n % 3 = n % 4 - 1 := by
    rw [decodedLength_eq]
    omega
  unfold decodedByte
  rw [h1, h2, show n - 1 + 1 = n by omega, show 2 + 2 * (n % 4 - 1) = 2 * (n % 4) by omega,
    show 4 - 2 * (n % 4 - 1) = 6 - 2 * (n % 4) by omega]

/-- The finished bytes come from the characters so far. -/
theorem decodedByte_congr {code' : ℕ → Byte} (h : ∀ j < n, code j = code' j) {i : ℕ}
    (hi : i < decodedLength n) : decodedByte code i = decodedByte code' i := by
  rw [decodedLength_eq] at hi
  unfold decodedByte
  rw [h _ (by omega), h _ (by omega)]

/-- Before the first character. -/
theorem progress_init :
    Progress code out 0 (Decoder.store ⟨.stepA, 0, 0, out, [], []⟩ 0#8) := by
  have hholds : Holds code out 0 ⟨.stepA, 0, 0, out, [], []⟩ :=
    ⟨rfl, fun i hi => absurd hi (Nat.not_lt_zero i), fun i _ => rfl, fun i hi => by cases hi⟩
  exact ⟨rfl, rfl, rfl, hholds.store 0#8, fun h => absurd rfl h⟩

/-- **One character takes the decoder one character further.** -/
theorem Progress.succ (h : Progress code out n d) :
    Progress code out (n + 1) (decodeChar code d) := by
  have hstep : d.fetch.step.index = n % 4 := h.step
  have hcode : d.fetch.codechar = n + 1 := congrArg (· + 1) h.codechar
  have hread : d.fetch.reads = List.range (n + 1) := by
    rw [List.range_succ, ← h.reads, ← h.codechar]
    rfl
  have hholds : Holds code out (decodedLength n) d.fetch :=
    ⟨h.holds.plainchar, h.holds.done, h.holds.untouched, h.holds.writes⟩
  have hbegun : n % 4 ≠ 0 → d.fetch.plain = sextet (code (n - 1)) <<< (2 * (n % 4)) := h.begun
  unfold decodeChar
  simp only [h.codechar]
  generalize d.fetch = e at hstep hcode hread hholds hbegun ⊢
  cases hs : e.step with
  | stepA =>
      have hn : n % 4 = 0 := by rw [← hstep, hs]; rfl
      have hn' : (n + 1) % 4 = 1 := by omega
      have hout := hholds.store ((base64DecodeValue (code n) &&& 0x3f#8) <<< 2)
      rw [← decodedLength_succ_of_eq hn] at hout
      refine ⟨hn'.symm, hcode, hread, hout.goto _, fun _ => ?_⟩
      rw [hn']
      simp [sextet]
  | stepB =>
      have hn : n % 4 = 1 := by rw [← hstep, hs]; rfl
      have hn' : (n + 1) % 4 = 2 := by omega
      have hbyte : e.plain ||| ((base64DecodeValue (code n) &&& 0x30#8) >>> 4) =
          decodedByte code (decodedLength n) := by
        rw [decodedByte_decodedLength (by omega), hbegun (by omega), hn, shiftRight_four_sextet]
        rfl
      have hout := ((hholds.store _).advance (Decoder.plain_store.trans hbyte)).store
        ((base64DecodeValue (code n) &&& 0x0f#8) <<< 4)
      rw [← decodedLength_succ_of_ne (by omega)] at hout
      refine ⟨hn'.symm, hcode, hread, hout.goto _, fun _ => ?_⟩
      rw [hn']
      simp [sextet, shiftLeft_four_sextet]
  | stepC =>
      have hn : n % 4 = 2 := by rw [← hstep, hs]; rfl
      have hn' : (n + 1) % 4 = 3 := by omega
      have hbyte : e.plain ||| ((base64DecodeValue (code n) &&& 0x3c#8) >>> 2) =
          decodedByte code (decodedLength n) := by
        rw [decodedByte_decodedLength (by omega), hbegun (by omega), hn, shiftRight_two_sextet]
        rfl
      have hout := ((hholds.store _).advance (Decoder.plain_store.trans hbyte)).store
        ((base64DecodeValue (code n) &&& 0x03#8) <<< 6)
      rw [← decodedLength_succ_of_ne (by omega)] at hout
      refine ⟨hn'.symm, hcode, hread, hout.goto _, fun _ => ?_⟩
      rw [hn']
      simp [sextet, shiftLeft_six_sextet]
  | stepD =>
      have hn : n % 4 = 3 := by rw [← hstep, hs]; rfl
      have hn' : (n + 1) % 4 = 0 := by omega
      have hbyte : e.plain ||| (base64DecodeValue (code n) &&& 0x3f#8) =
          decodedByte code (decodedLength n) := by
        rw [decodedByte_decodedLength (by omega), hbegun (by omega), hn, Nat.sub_self,
          BitVec.ushiftRight_zero]
        rfl
      have hout := (hholds.store _).advance (Decoder.plain_store.trans hbyte)
      rw [← decodedLength_succ_of_ne (by omega)] at hout
      refine ⟨hn'.symm, hcode, hread, hout.goto _, fun hne => ?_⟩
      exact absurd hn' hne

/-- **The whole loop.** -/
theorem Progress.decodeChars (h : Progress code out n d) (k : ℕ) :
    Progress code out (n + k) (decodeChars code k d) := by
  induction k generalizing n d with
  | zero => exact h
  | succ k ih =>
      have := ih h.succ
      rwa [Nat.add_right_comm, Nat.add_assoc] at this

/-- The result of decoding a string of `n` characters: its bytes and a NUL, and no access beyond the
string and the NUL. -/
structure Decoded (code out : ℕ → Byte) (n : ℕ) (d : Decoder) : Prop where
  reads : d.reads = List.range n
  holds : Holds code out (decodedLength n) d
  terminated : d.plaintext (decodedLength n) = 0#8
  last : decodedLength n ∈ d.writes

/-- **What `base64_decode` does with a string of `n` characters.** -/
theorem base64Decode_spec (out : ℕ → Byte) (hn : strlen code = some n) :
    ∃ d, base64Decode code out = some d ∧ Decoded code out n d := by
  have h0 : Progress code out 0 (Decoder.store ⟨.stepA, 0, 0, out, [], []⟩ 0#8) := progress_init
  have h := h0.decodeChars n
  rw [Nat.zero_add] at h
  have hend := h.holds.store 0#8
  refine ⟨(base64DecodeBlock code n out .stepA 0#8).store 0#8, ?_, h.reads, hend, ?_, ?_⟩
  · rw [base64Decode, hn]
    rfl
  · rw [← hend.plainchar]
    exact Decoder.plain_store
  · rw [← h.holds.plainchar]
    exact List.mem_append_right _ (List.mem_singleton_self _)

/-- Decoding returns only on strings. -/
theorem base64Decode_eq_some (hd : base64Decode code out = some d) :
    ∃ n, strlen code = some n ∧ Decoded code out n d := by
  obtain ⟨n, hn, -⟩ := Option.map_eq_some_iff.mp hd
  obtain ⟨d', hd', hspec⟩ := base64Decode_spec out hn
  rw [hd'] at hd
  exact ⟨n, hn, Option.some.inj hd ▸ hspec⟩

end Hbootdbg.Device
