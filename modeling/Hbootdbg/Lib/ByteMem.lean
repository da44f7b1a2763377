import Mathlib

/-!
# Byte-addressed memory with wrap-around addresses

A memory is a total function from `w`-bit addresses to bytes. All address arithmetic is modulo
`2 ^ w`, as it is on the machine, so a *span* `[a, a + n)` may run past the top of the address
space and go on at zero.

* `InSpan a n x`, `Apart a n b k` — membership in a span, and disjointness of two spans, both
  stated through differences of addresses so that no bound on `a + n` is needed.
* `off s o` — the address `o` bytes into the object at `s`; `apart_off` and `Apart.off_right` are
  the two geometry facts every frame argument below uses.
* `patch m a n f` — `m` with the bytes of one span replaced. Every store of a program is a
  `patch`: `store8`, `store32` (little-endian), `fill` and `copy` are the instances.
* `load32 m a` — the little-endian word at `a`, with its read-over-write rules
  (`load32_store32`, `load32_patch_of_apart`, `load32_copy`).
-/

namespace Hbootdbg.Lib.ByteMem

/-- A byte. -/
abbrev Byte := BitVec 8

instance lawfulBEqByte : LawfulBEq Byte := inferInstance

/-- A memory with `w`-bit addresses. -/
abbrev Mem (w : ℕ) := BitVec w → Byte

variable {w : ℕ}

/-! ## Addresses, spans and disjointness -/

/-- The address `o` bytes into the object that starts at `s`. -/
def off (s : BitVec w) (o : ℕ) : BitVec w := s + BitVec.ofNat w o

/-- `x` lies in the span of `n` bytes that starts at `a`. -/
def InSpan (a : BitVec w) (n : ℕ) (x : BitVec w) : Prop := (x - a).toNat < n

instance (a : BitVec w) (n : ℕ) (x : BitVec w) : Decidable (InSpan a n x) :=
  inferInstanceAs (Decidable ((x - a).toNat < n))

/-- The spans `[a, a + n)` and `[b, b + k)` share no address. -/
def Apart (a : BitVec w) (n : ℕ) (b : BitVec w) (k : ℕ) : Prop :=
  n ≤ (b - a).toNat ∧ k ≤ (a - b).toNat

instance (a : BitVec w) (n : ℕ) (b : BitVec w) (k : ℕ) : Decidable (Apart a n b k) :=
  inferInstanceAs (Decidable (n ≤ (b - a).toNat ∧ k ≤ (a - b).toNat))

@[simp] theorem off_zero (s : BitVec w) : off s 0 = s := by simp [off]

/-- Offsets add up. -/
@[simp] theorem off_off (s : BitVec w) (o p : ℕ) : off (off s o) p = off s (o + p) := by
  unfold off
  rw [BitVec.add_assoc, BitVec.ofNat_add]

/-- Every address is at some offset from every other. -/
theorem off_sub_self (s x : BitVec w) : off s (x - s).toNat = x := by
  unfold off
  rw [BitVec.ofNat_toNat, BitVec.setWidth_eq, BitVec.add_comm, BitVec.sub_add_cancel]

theorem toNat_off_sub (s : BitVec w) {o : ℕ} (h : o < 2 ^ w) : (off s o - s).toNat = o := by
  unfold off
  rw [BitVec.add_comm, BitVec.add_sub_cancel, BitVec.toNat_ofNat, Nat.mod_eq_of_lt h]

theorem eq_off_iff (s x : BitVec w) {o : ℕ} (h : o < 2 ^ w) : x = off s o ↔ (x - s).toNat = o :=
  ⟨fun he => by rw [he, toNat_off_sub s h], fun he => by rw [← he, off_sub_self]⟩

/-- The distance from a lower field to a higher one. -/
theorem off_sub_off (s : BitVec w) {o p : ℕ} (h : p ≤ o) (ho : o < 2 ^ w) :
    (off s o - off s p).toNat = o - p := by
  obtain ⟨d, rfl⟩ := Nat.exists_eq_add_of_le h
  rw [← off_off, toNat_off_sub _ (by omega)]
  omega

/-- The distance from a higher field to a lower one goes once around the address space. -/
theorem off_sub_off_of_lt (s : BitVec w) {o p : ℕ} (h : o < p) (hp : p < 2 ^ w) :
    (off s o - off s p).toNat = 2 ^ w - (p - o) := by
  have h1 : off s o - off s p = 0#w - (off s p - off s o) := by simp
  rw [h1, BitVec.toNat_sub, off_sub_off s h.le hp, BitVec.toNat_zero, Nat.add_zero,
    Nat.mod_eq_of_lt (by omega)]

theorem off_injective (s : BitVec w) {o p : ℕ} (ho : o < 2 ^ w) (hp : p < 2 ^ w)
    (h : off s o = off s p) : o = p := by
  rw [← toNat_off_sub s ho, ← toNat_off_sub s hp, h]

theorem Apart.symm {a b : BitVec w} {n k : ℕ} (h : Apart a n b k) : Apart b k a n := ⟨h.2, h.1⟩

theorem Apart.mono {a b : BitVec w} {n k n' k' : ℕ} (h : Apart a n b k) (hn : n' ≤ n)
    (hk : k' ≤ k) : Apart a n' b k' := ⟨hn.trans h.1, hk.trans h.2⟩

/-- Disjoint spans have no common address. -/
theorem Apart.not_inSpan {a b x : BitVec w} {n k : ℕ} (h : Apart a n b k)
    (hx : InSpan a n x) : ¬ InSpan b k x := by
  unfold Apart InSpan at *
  have h1 : x - b = (x - a) - (b - a) := by
    rw [BitVec.sub_sub, BitVec.add_comm, BitVec.sub_add_cancel]
  have h2 : a - b = 0#w - (b - a) := by simp
  rw [h1]
  rw [h2] at h
  generalize x - a = p at *
  generalize b - a = q at *
  have hp := p.isLt
  have hq := q.isLt
  rw [BitVec.toNat_sub] at *
  rw [Nat.mod_eq_of_lt (by omega)]
  rw [BitVec.toNat_zero, Nat.add_zero, Nat.mod_eq_of_lt (by omega)] at h
  omega

/-- Two non-empty spans with no common address are apart. -/
theorem apart_of_forall {a b : BitVec w} {n k : ℕ} (hn : 0 < n) (hk : 0 < k)
    (h : ∀ x, InSpan a n x → ¬ InSpan b k x) : Apart a n b k := by
  constructor
  · by_contra hc
    exact h b (by unfold InSpan; omega) (by simpa [InSpan] using hk)
  · by_contra hc
    exact h a (by simpa [InSpan] using hn) (by unfold InSpan; omega)

/-- A byte of a field is a byte of the object. -/
theorem InSpan.of_off {s x : BitVec w} {o k len : ℕ} (h : InSpan (off s o) k x)
    (ho : o + k ≤ len) (hlen : len ≤ 2 ^ w) : InSpan s len x := by
  unfold InSpan at *
  have hx : x = off s (o + (x - off s o).toNat) := by rw [← off_off, off_sub_self]
  rw [hx, toNat_off_sub _ (lt_of_lt_of_le (by omega) hlen)]
  omega

/-- A span that is apart from an object is apart from each of its fields. -/
theorem Apart.off_right {a s : BitVec w} {n len o k : ℕ} (h : Apart a n s len) (hn : 0 < n)
    (hk : 0 < k) (ho : o + k ≤ len) (hlen : len ≤ 2 ^ w) : Apart a n (off s o) k :=
  apart_of_forall hn hk fun _ hx hf => h.not_inSpan hx (hf.of_off ho hlen)

/-- Two fields of one object that do not overlap are apart. -/
theorem apart_off (s : BitVec w) {o p n k : ℕ} (hn : 0 < n) (hk : 0 < k)
    (h : o + n ≤ p ∨ p + k ≤ o) (ho : o + n ≤ 2 ^ w) (hp : p + k ≤ 2 ^ w) :
    Apart (off s o) n (off s p) k := by
  unfold Apart
  rcases h with h | h
  · rw [off_sub_off s (by omega) (by omega), off_sub_off_of_lt s (by omega) (by omega)]
    omega
  · rw [off_sub_off_of_lt s (by omega) (by omega), off_sub_off s (by omega) (by omega)]
    omega

/-! ## Replacing one span -/

/-- `m` with byte `i` of the span `[a, a + n)` replaced by `f i`. -/
def patch (m : Mem w) (a : BitVec w) (n : ℕ) (f : ℕ → Byte) : Mem w := fun x =>
  if (x - a).toNat < n then f (x - a).toNat else m x

/-- A `patch` changes nothing outside its span. -/
theorem patch_of_not_inSpan {m : Mem w} {a x : BitVec w} {n : ℕ} {f : ℕ → Byte}
    (h : ¬ InSpan a n x) : patch m a n f x = m x := if_neg h

theorem patch_of_inSpan {m : Mem w} {a x : BitVec w} {n : ℕ} {f : ℕ → Byte}
    (h : InSpan a n x) : patch m a n f x = f (x - a).toNat := if_pos h

/-- A `patch` seen through the offset of an address in its span. -/
theorem patch_off {m : Mem w} {a : BitVec w} {n i : ℕ} {f : ℕ → Byte} (hi : i < n)
    (hn : n ≤ 2 ^ w) : patch m a n f (off a i) = f i := by
  have h := toNat_off_sub a (show i < 2 ^ w by omega)
  rw [patch_of_inSpan (by unfold InSpan; omega), h]

/-- Only the bytes of the span matter. -/
theorem patch_congr {m : Mem w} {a : BitVec w} {n : ℕ} {f g : ℕ → Byte}
    (h : ∀ i < n, f i = g i) : patch m a n f = patch m a n g := by
  funext x
  unfold patch
  split_ifs with hx
  · exact h _ hx
  · rfl

/-- Two spans that meet are one. -/
theorem patch_patch {m : Mem w} {a : BitVec w} {n k : ℕ} {f g : ℕ → Byte} (h : n + k ≤ 2 ^ w) :
    patch (patch m (off a n) k g) a n f =
      patch m a (n + k) fun i => if i < n then f i else g (i - n) := by
  funext x
  by_cases hlow : (x - a).toNat < n
  · have hin : InSpan a (n + k) x := show (x - a).toNat < n + k by omega
    rw [patch_of_inSpan hlow, patch_of_inSpan hin]
    exact (if_pos hlow).symm
  · have hdiff : (x - off a n).toNat = (x - a).toNat - n := by
      rw [← off_sub_off a (by omega) (x - a).isLt, off_sub_self]
    rw [patch_of_not_inSpan hlow]
    unfold patch
    rw [hdiff]
    by_cases hhigh : (x - a).toNat < n + k
    · rw [if_pos (by omega), if_pos hhigh]
      exact (if_neg hlow).symm
    · rw [if_neg (by omega), if_neg hhigh]

/-- Byte `i` of a word, little end first. -/
def byteOf {k : ℕ} (v : BitVec k) (i : ℕ) : Byte := (v >>> (8 * i)).setWidth 8

/-- Store one byte. -/
def store8 (m : Mem w) (a : BitVec w) (v : Byte) : Mem w := patch m a 1 fun _ => v

/-- Store a 32-bit word, little end first. -/
def store32 (m : Mem w) (a : BitVec w) (v : BitVec 32) : Mem w := patch m a 4 (byteOf v)

/-- Set `n` bytes to one value. -/
def fill (m : Mem w) (a : BitVec w) (n : ℕ) (v : Byte) : Mem w := patch m a n fun _ => v

/-- Copy `n` bytes, all read before any is written. -/
def copy (m : Mem w) (dst src : BitVec w) (n : ℕ) : Mem w :=
  patch m dst n fun i => m (off src i)

/-- Load a 32-bit word, little end first. -/
def load32 (m : Mem w) (a : BitVec w) : BitVec 32 :=
  m (off a 3) ++ m (off a 2) ++ m (off a 1) ++ m a

/-- The bytes of the span `[a, a + n)`, in order. -/
def bytes (m : Mem w) (a : BitVec w) (n : ℕ) : List Byte := (List.range n).map fun i => m (off a i)

/-! ## Byte loops -/

theorem store8_apply (m : Mem w) (a x : BitVec w) (v : Byte) :
    store8 m a v x = if x = a then v else m x := by
  unfold store8 patch
  by_cases h : x = a
  · rw [if_pos h, if_pos (by simp [h])]
  · rw [if_neg h, if_neg]
    intro h1
    have := off_sub_self a x
    rw [show (x - a).toNat = 0 by omega, off_zero] at this
    exact h this.symm

/-- Writing the byte after a span extends the span upwards. -/
theorem store8_patch (m : Mem w) (a : BitVec w) (f : ℕ → Byte) {n : ℕ} (hn : n < 2 ^ w) :
    store8 (patch m a n f) (off a n) (f n) = patch m a (n + 1) f := by
  funext x
  simp only [store8_apply, eq_off_iff a x hn, patch]
  split_ifs with h1 h2 h3 <;> first | rfl | omega | rw [h1]

/-- Writing the last byte of a span first makes no difference. -/
theorem patch_store8 (m : Mem w) (a : BitVec w) (f : ℕ → Byte) {n : ℕ} (hn : n < 2 ^ w) :
    patch (store8 m (off a n) (f n)) a n f = patch m a (n + 1) f := by
  funext x
  simp only [patch, store8_apply, eq_off_iff a x hn]
  split_ifs with h1 h2 h3 h4 <;> first | rfl | omega | rw [h3]

theorem patch_zero (m : Mem w) (a : BitVec w) (f : ℕ → Byte) : patch m a 0 f = m := by
  funext x
  simp [patch]

/-! ## Words -/

/-- A word is determined by the bytes of its span. -/
theorem load32_congr {m m' : Mem w} {a : BitVec w} (hw : 2 ≤ w)
    (h : ∀ x, InSpan a 4 x → m x = m' x) : load32 m a = load32 m' a := by
  have h4 : 2 ^ 2 ≤ 2 ^ w := Nat.pow_le_pow_right (by omega) hw
  have hb : ∀ i < 4, m (off a i) = m' (off a i) := fun i hi =>
    h _ (by unfold InSpan; rw [toNat_off_sub a (by omega)]; exact hi)
  have h0 := hb 0 (by omega)
  rw [off_zero] at h0
  unfold load32
  rw [hb 3 (by omega), hb 2 (by omega), hb 1 (by omega), h0]

/-- Two memories with the same word at `a` have the same bytes there. -/
theorem eq_of_load32_eq {m m' : Mem w} {a x : BitVec w} (h : load32 m a = load32 m' a)
    (hx : InSpan a 4 x) : m x = m' x := by
  have hbyte : ∀ n : Mem w, ∀ i < 4, n (off a i) = byteOf (load32 n a) i := by
    intro n i hi
    unfold byteOf load32
    ext j hj
    simp only [BitVec.getElem_setWidth, BitVec.getLsbD_ushiftRight, BitVec.getLsbD_append]
    interval_cases i <;> simp [BitVec.getLsbD_eq_getElem, hj] <;> grind
  have := hbyte m (x - a).toNat hx
  rw [h, ← hbyte m' (x - a).toNat hx, off_sub_self] at this
  exact this

theorem byteOf_append (v : BitVec 32) :
    byteOf v 3 ++ byteOf v 2 ++ byteOf v 1 ++ byteOf v 0 = v := by
  unfold byteOf
  ext i hi
  simp
  grind

/-- A word reads back as it was stored. -/
@[simp] theorem load32_store32 (m : Mem w) (a : BitVec w) (v : BitVec 32) (hw : 2 ≤ w) :
    load32 (store32 m a v) a = v := by
  have h4 : 2 ^ 2 ≤ 2 ^ w := Nat.pow_le_pow_right (by omega) hw
  have hb : ∀ i < 4, store32 m a v (off a i) = byteOf v i := fun i hi => patch_off hi h4
  have h0 := hb 0 (by omega)
  rw [off_zero] at h0
  unfold load32
  rw [hb 3 (by omega), hb 2 (by omega), hb 1 (by omega), h0, byteOf_append]

/-- A `patch` elsewhere does not change a word. -/
theorem load32_patch_of_apart {m : Mem w} {a b : BitVec w} {n : ℕ} {f : ℕ → Byte} (hw : 2 ≤ w)
    (h : Apart a 4 b n) : load32 (patch m b n f) a = load32 m a :=
  load32_congr hw fun _ hx => patch_of_not_inSpan (h.not_inSpan hx)

/-- A store elsewhere does not change a word. -/
theorem load32_store32_of_apart {m : Mem w} {a b : BitVec w} {v : BitVec 32} (hw : 2 ≤ w)
    (h : Apart a 4 b 4) : load32 (store32 m b v) a = load32 m a := load32_patch_of_apart hw h

/-- A word in the destination of a copy is the word in the source. -/
theorem load32_copy {m : Mem w} {dst src : BitVec w} {n o : ℕ} (ho : o + 4 ≤ n)
    (hn : n ≤ 2 ^ w) : load32 (copy m dst src n) (off dst o) = load32 m (off src o) := by
  have hb : ∀ i < 4, copy m dst src n (off dst (o + i)) = m (off src (o + i)) := fun i hi =>
    patch_off (by omega) hn
  have h0 := hb 0 (by omega)
  unfold load32
  simp only [off_off]
  rw [hb 3 (by omega), hb 2 (by omega), hb 1 (by omega)]
  rw [Nat.add_zero] at h0
  rw [h0]

/-- Copying leaves the words outside the destination. -/
theorem load32_copy_of_apart {m : Mem w} {a dst src : BitVec w} {n : ℕ} (hw : 2 ≤ w)
    (h : Apart a 4 dst n) : load32 (copy m dst src n) a = load32 m a :=
  load32_patch_of_apart hw h

/-! ## Fields of one object -/

section fields

variable {m : Mem w} {s : BitVec w} {o p n : ℕ}

/-- A field is not changed by a store to another one. -/
theorem load32_store32_off {v : BitVec 32} (hw : 2 ≤ w) (h : o + 4 ≤ p ∨ p + 4 ≤ o)
    (ho : o + 4 ≤ 2 ^ w) (hp : p + 4 ≤ 2 ^ w) :
    load32 (store32 m (off s p) v) (off s o) = load32 m (off s o) :=
  load32_patch_of_apart hw (apart_off s (by omega) (by omega) h ho hp)

/-- A field is not changed by a byte store to another one. -/
theorem load32_store8_off {v : Byte} (hw : 2 ≤ w) (h : o + 4 ≤ p ∨ p + 1 ≤ o)
    (ho : o + 4 ≤ 2 ^ w) (hp : p + 1 ≤ 2 ^ w) :
    load32 (store8 m (off s p) v) (off s o) = load32 m (off s o) :=
  load32_patch_of_apart hw (apart_off s (by omega) (by omega) h ho hp)

/-- A field is not changed by a copy over other ones. -/
theorem load32_copy_off {src : BitVec w} (hw : 2 ≤ w) (hn : 0 < n) (h : o + 4 ≤ p ∨ p + n ≤ o)
    (ho : o + 4 ≤ 2 ^ w) (hp : p + n ≤ 2 ^ w) :
    load32 (copy m (off s p) src n) (off s o) = load32 m (off s o) :=
  load32_patch_of_apart hw (apart_off s (by omega) hn h ho hp)

/-- A field of a copied element is that field of the source element. -/
theorem load32_copy_field {q k : ℕ} (hk : k + 4 ≤ n) (hn : n ≤ 2 ^ w) :
    load32 (copy m (off s p) (off s q) n) (off s (p + k)) = load32 m (off s (q + k)) := by
  rw [← off_off, load32_copy hk hn, off_off]

/-- A store into an object does not change the bytes outside it. -/
theorem patch_off_outside {x : BitVec w} {l : ℕ} {f : ℕ → Byte} (hx : ¬ InSpan s l x)
    (h : p + n ≤ l) (hlen : l ≤ 2 ^ w) : patch m (off s p) n f x = m x :=
  patch_of_not_inSpan fun hin => hx (hin.of_off h hlen)

end fields

end Hbootdbg.Lib.ByteMem
