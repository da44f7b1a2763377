import Hbootdbg.Lib.ByteMem

/-!
# Blocks of words in memory

The store and the load of several words at once, and full descending stacks made of them.

* `down s n` — the address `n` bytes below `s`.
* `storeWords m a ws`, `loadWords m a n` — the words at `a` and up.
* `storeWords_storeWords` — two blocks that meet are one: what is pushed later lies in front.
* `load32_storeWords`, `load32_storeWords_of_apart` — what is read back from a block, and outside.
-/

namespace Hbootdbg.Lib.WordBlock

open Hbootdbg.Lib.ByteMem

variable {w : ℕ}

/-- The address `n` bytes below `s`. -/
def down (s : BitVec w) (n : ℕ) : BitVec w := s - BitVec.ofNat w n

/-- Up again from below. -/
@[simp] theorem off_down (s : BitVec w) (n : ℕ) : off (down s n) n = s := by
  unfold off down
  rw [BitVec.sub_add_cancel]

/-- Down from further up. -/
theorem down_off (s : BitVec w) {o n : ℕ} (h : n ≤ o) : down (off s o) n = off s (o - n) := by
  unfold down
  rw [← Nat.sub_add_cancel h, ← off_off, Nat.add_sub_cancel, off, BitVec.add_sub_cancel]

/-! ## Blocks -/

/-- Byte `i` of a list of words, each with its little end first. -/
def wordsByte (ws : List (BitVec 32)) (i : ℕ) : Byte := byteOf (ws.getD (i / 4) 0#32) (i % 4)

/-- Store words at `a` and up. -/
def storeWords (m : Mem w) (a : BitVec w) (ws : List (BitVec 32)) : Mem w :=
  patch m a (4 * ws.length) (wordsByte ws)

/-- The `n` words at `a` and up. -/
def loadWords (m : Mem w) (a : BitVec w) (n : ℕ) : List (BitVec 32) :=
  (List.range n).map fun i => load32 m (off a (4 * i))

variable {m m' : Mem w} {a b x : BitVec w} {xs ys ws : List (BitVec 32)} {n k : ℕ}

/-- A block changes nothing outside. -/
theorem storeWords_of_not_inSpan (h : ¬ InSpan a (4 * ws.length) x) : storeWords m a ws x = m x :=
  patch_of_not_inSpan h

/-- One word is a block. -/
theorem storeWords_singleton (v : BitVec 32) : storeWords m a [v] = store32 m a v := by
  unfold storeWords store32
  apply patch_congr
  intro i hi
  change i < 4 at hi
  rw [wordsByte, Nat.div_eq_of_lt hi, Nat.mod_eq_of_lt hi]
  rfl

/-- The bytes of two lists of words. -/
theorem wordsByte_append (i : ℕ) : wordsByte (xs ++ ys) i =
    if i < 4 * xs.length then wordsByte xs i else wordsByte ys (i - 4 * xs.length) := by
  unfold wordsByte
  split_ifs with hi
  · rw [List.getD_append _ _ _ _ (by omega)]
  · rw [List.getD_append_right _ _ _ _ (by omega), show i / 4 - xs.length =
      (i - 4 * xs.length) / 4 by omega, show (i - 4 * xs.length) % 4 = i % 4 by omega]

/-- **A block in front of another one** makes one block. -/
theorem storeWords_storeWords {o p : ℕ} (h : o + 4 * xs.length = p)
    (hlen : 4 * (xs.length + ys.length) ≤ 2 ^ w) :
    storeWords (storeWords m (off a p) ys) (off a o) xs = storeWords m (off a o) (xs ++ ys) := by
  subst h
  unfold storeWords
  rw [← off_off, patch_patch (by omega), List.length_append, Nat.mul_add]
  apply patch_congr
  intro i _
  exact (wordsByte_append i).symm

/-- The same, at the front of the second block. -/
theorem storeWords_front {p : ℕ} (h : 4 * xs.length = p)
    (hlen : 4 * (xs.length + ys.length) ≤ 2 ^ w) :
    storeWords (storeWords m (off a p) ys) a xs = storeWords m a (xs ++ ys) := by
  have hjoin := storeWords_storeWords (m := m) (a := a) (o := 0) ((Nat.zero_add _).trans h) hlen
  rwa [off_zero] at hjoin

/-! ## Reading back -/

/-- A word of a block. -/
theorem load32_storeWords (hw : 2 ≤ w) {i : ℕ} (hi : i < ws.length)
    (hlen : 4 * ws.length ≤ 2 ^ w) :
    load32 (storeWords m a ws) (off a (4 * i)) = ws.getD i 0#32 := by
  have h4 : 2 ^ 2 ≤ 2 ^ w := Nat.pow_le_pow_right (by omega) hw
  rw [← load32_store32 m (off a (4 * i)) (ws.getD i 0#32) hw]
  apply load32_congr hw
  intro x hx
  unfold InSpan at hx
  have hoff : x = off a (4 * i + (x - off a (4 * i)).toNat) := by rw [← off_off, off_sub_self]
  unfold storeWords store32
  rw [patch_of_inSpan hx]
  generalize (x - off a (4 * i)).toNat = j at hx hoff
  rw [hoff, patch_off (by omega) hlen, wordsByte, show (4 * i + j) / 4 = i by omega,
    show (4 * i + j) % 4 = j by omega]

/-- A word outside a block. -/
theorem load32_storeWords_of_apart (hw : 2 ≤ w) (h : Apart a 4 b (4 * ws.length)) :
    load32 (storeWords m b ws) a = load32 m a :=
  load32_patch_of_apart hw h

end Hbootdbg.Lib.WordBlock
