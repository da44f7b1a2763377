import Hbootdbg.Device.Board
import Hbootdbg.Lib.A32Branch

/-!
# `hbootlib.c` and `cpu.c`

The Makefile does not define `REUSE_EXTERNAL_STRING_FUNCS`, so the string functions are the ones
of the `#else` branch of `hbootlib.c`.

* `memset`, `memcpyIn` — the byte loops, with `memset_eq_fill` and `memcpyIn_eq_patch` giving
  their effect in closed form. `memcpyIn` is `memcpy` from an object of the handler's own frame,
  which never overlaps the destination; then both loops of `memmove` have the same effect.
* `memmove`, `memcpy` — with the source in memory; `memmove_eq_copy` says that the direction of the
  loop makes up for any overlap.
* `strlen`, `strlenReads` — the search for the terminating NUL, and the indices it reads.
* `cpuGetBranch` — the branch encoder; `cpuGetBranch_eq` identifies it with the A32 encoding, and
  `cpuGetBranch_exact_iff` says which branches it can encode.
-/

namespace Hbootdbg.Device

open Hbootdbg.Lib.ByteMem Hbootdbg.Lib.A32Branch

/-! ## Byte loops -/

/-- `memset (s, c, n)`: `while (n--) s[n] = c`.
Source: `hbootlib.c` `memset` -/
def memset (m : Memory) (s : Word) (c : Byte) : ℕ → Memory
  | 0 => m
  | n + 1 => memset (store8 m (off s n) c) s c n

/-- `memset` sets the span and nothing else. -/
theorem memset_eq_fill (m : Memory) (s : Word) (c : Byte) {n : ℕ} (hn : n ≤ 2 ^ 32) :
    memset m s c n = fill m s n c := by
  induction n generalizing m with
  | zero => exact (patch_zero m s _).symm
  | succ n ih =>
      rw [memset, ih _ (by omega)]
      exact patch_store8 m s (fun _ => c) hn

/-- `memcpy (dest, src, n)` for a source outside `m`: `for (i = 0; i < n; ++i) dest[i] = src[i]`.
Source: `hbootlib.c` `memcpy`, `memmove` -/
def memcpyIn (m : Memory) (dest : Word) (src : ℕ → Byte) : ℕ → Memory
  | 0 => m
  | n + 1 => store8 (memcpyIn m dest src n) (off dest n) (src n)

/-- `memcpyIn` replaces the destination span and nothing else. -/
theorem memcpyIn_eq_patch (m : Memory) (dest : Word) (src : ℕ → Byte) {n : ℕ} (hn : n ≤ 2 ^ 32) :
    memcpyIn m dest src n = patch m dest n src := by
  induction n with
  | zero => exact (patch_zero m dest src).symm
  | succ n ih =>
      rw [memcpyIn, ih (by omega)]
      exact store8_patch m dest src hn

/-! ## Moves -/

/-- `for (i = 0; i < n; ++i) dest[i] = src[i]`. Source: `hbootlib.c` `memmove` -/
def moveUp (m : Memory) (dest src : Word) : ℕ → Memory
  | 0 => m
  | n + 1 => store8 (moveUp m dest src n) (off dest n) (moveUp m dest src n (off src n))

/-- `for (i = n; i > 0; --i) dest[i - 1] = src[i - 1]`. Source: `hbootlib.c` `memmove` -/
def moveDown (m : Memory) (dest src : Word) : ℕ → Memory
  | 0 => m
  | n + 1 => moveDown (store8 m (off dest n) (m (off src n))) dest src n

/-- `memmove (dest, src, n)`. Source: `hbootlib.c` `memmove` -/
def memmove (m : Memory) (dest src n : Word) : Memory :=
  if dest < src then moveUp m dest src n.toNat
  else if src < dest then moveDown m dest src n.toNat
  else m

/-- `memcpy (dest, src, n)`. Source: `hbootlib.c` `memcpy` -/
def memcpy (m : Memory) (dest src n : Word) : Memory := memmove m dest src n

/-- Towards lower addresses, the bytes that are still to be read are above those written. -/
theorem moveUp_eq_copy (m : Memory) {dest src : Word} {n : ℕ} (hlt : dest < src)
    (hsrc : src.toNat + n ≤ 2 ^ 32) : moveUp m dest src n = copy m dest src n := by
  rw [BitVec.lt_def] at hlt
  induction n with
  | zero => exact (patch_zero m dest _).symm
  | succ n ih =>
      have hunread : ¬ InSpan dest n (off src n) := by
        unfold InSpan off
        bv_omega
      have hbyte : copy m dest src n (off src n) = m (off src n) := patch_of_not_inSpan hunread
      rw [moveUp, ih (by omega), hbyte]
      exact store8_patch m dest (fun i => m (off src i)) (by omega)

/-- Towards higher addresses, the bytes that are still to be read are below those written. -/
theorem moveDown_eq_copy (m : Memory) {dest src : Word} {n : ℕ} (hlt : src < dest)
    (hdest : dest.toNat + n ≤ 2 ^ 32) : moveDown m dest src n = copy m dest src n := by
  rw [BitVec.lt_def] at hlt
  induction n generalizing m with
  | zero => exact (patch_zero m dest _).symm
  | succ n ih =>
      have hunread : ∀ i < n, store8 m (off dest n) (m (off src n)) (off src i) =
          m (off src i) := by
        intro i hi
        rw [store8_apply, if_neg]
        unfold off
        bv_omega
      have hcopy : copy (store8 m (off dest n) (m (off src n))) dest src n =
          patch (store8 m (off dest n) (m (off src n))) dest n fun i => m (off src i) := by
        funext x
        unfold copy patch
        split_ifs with hx
        · exact hunread _ hx
        · rfl
      rw [moveDown, ih _ (by omega), hcopy]
      exact patch_store8 m dest (fun i => m (off src i)) (by omega)

/-- **`memmove` copies as if all bytes were read before any is written.** -/
theorem memmove_eq_copy (m : Memory) {dest src n : Word} (hdest : dest.toNat + n.toNat ≤ 2 ^ 32)
    (hsrc : src.toNat + n.toNat ≤ 2 ^ 32) : memmove m dest src n = copy m dest src n.toNat := by
  unfold memmove
  split_ifs with hup hdown
  · exact moveUp_eq_copy m hup hsrc
  · exact moveDown_eq_copy m hdown hdest
  · obtain rfl : dest = src := by
      rw [BitVec.lt_def] at hup hdown
      exact BitVec.eq_of_toNat_eq (by omega)
    funext x
    unfold copy patch
    split_ifs
    · exact (congrArg m (off_sub_self dest x)).symm
    · rfl

/-- The copy of the bytes of an object is the copy of that object. -/
theorem copy_eq_memcpyIn (m : Memory) {dest src : Word} {data : ℕ → Byte} {n : ℕ}
    (hn : n ≤ 2 ^ 32) (hdata : ∀ i < n, m (off src i) = data i) :
    copy m dest src n = memcpyIn m dest data n := by
  rw [memcpyIn_eq_patch m dest data hn]
  funext x
  unfold copy patch
  split_ifs with hx
  · exact hdata _ hx
  · rfl

/-- **`memmove` and `memcpy` are correct under any overlap**: the destination holds what the source
held, and nothing else changes. The copy of `cmd_write` is such a `memcpy`, wherever its object
lies. -/
theorem memmove_correct (m : Memory) (dest src n : Word) (hdest : dest.toNat + n.toNat ≤ 2 ^ 32)
    (hsrc : src.toNat + n.toNat ≤ 2 ^ 32) :
    (bytes (memmove m dest src n) dest n.toNat = bytes m src n.toNat ∧
        ∀ x, ¬ InSpan dest n.toNat x → memmove m dest src n x = m x) ∧
      memcpy m dest src n = memmove m dest src n ∧
      ∀ data : ℕ → Byte, (∀ i < n.toNat, m (off src i) = data i) →
        memcpyIn m dest data n.toNat = memcpy m dest src n := by
  have hcopy := memmove_eq_copy m hdest hsrc
  refine ⟨⟨?_, fun x hx => ?_⟩, rfl, fun data hdata => ?_⟩
  · rw [hcopy]
    refine List.map_congr_left fun i hi => ?_
    exact patch_off (List.mem_range.mp hi) n.isLt.le
  · rw [hcopy]
    exact patch_of_not_inSpan hx
  · rw [memcpy, hcopy, copy_eq_memcpyIn m n.isLt.le hdata]

/-- Sixteen bytes, four bytes up: the last byte is moved first. -/
theorem memmove_overlapping :
    bytes (memmove (fun x => x.setWidth 8) 0x1004#32 0x1000#32 16#32) 0x1004#32 16 =
      bytes (fun x : Word => x.setWidth 8) 0x1000#32 16 :=
  (memmove_correct _ 0x1004#32 0x1000#32 16#32 (by decide) (by decide)).1.1

/-! ## Strings -/

/-- The loop of `strlen` from index `c` on: the index of the first NUL, if the search ends within
`fuel` steps. Source: `hbootlib.c` `strlen` -/
def strlenFrom (s : ℕ → Byte) : ℕ → ℕ → Option ℕ
  | 0, _ => none
  | fuel + 1, c => if s c = 0 then some c else strlenFrom s fuel (c + 1)

/-- `strlen (s)`. The search passes over every address once at most: after `2 ^ 32` bytes without
a NUL it has wrapped around and never ends (`none`).
Source: `hbootlib.c` `strlen` -/
def strlen (s : ℕ → Byte) : Option ℕ := strlenFrom s (2 ^ 32) 0

/-- The indices that the loop of `strlen` reads from index `c` on.
Source: `hbootlib.c` `strlen` -/
def strlenReadsFrom (s : ℕ → Byte) : ℕ → ℕ → List ℕ
  | 0, _ => []
  | fuel + 1, c => c :: if s c = 0 then [] else strlenReadsFrom s fuel (c + 1)

/-- The indices that `strlen (s)` reads. Source: `hbootlib.c` `strlen` -/
def strlenReads (s : ℕ → Byte) : List ℕ := strlenReadsFrom s (2 ^ 32) 0

theorem strlenFrom_eq_some_iff {s : ℕ → Byte} {fuel c len : ℕ} :
    strlenFrom s fuel c = some len ↔
      c ≤ len ∧ len < c + fuel ∧ s len = 0 ∧ ∀ i, c ≤ i → i < len → s i ≠ 0 := by
  induction fuel generalizing c with
  | zero =>
      simp only [strlenFrom, Nat.add_zero, reduceCtorEq, false_iff]
      rintro ⟨h1, h2, -⟩
      omega
  | succ fuel ih =>
      unfold strlenFrom
      split_ifs with hc
      · constructor
        · intro h
          cases h
          exact ⟨le_rfl, by omega, hc, fun i h1 h2 => by omega⟩
        · rintro ⟨h1, -, -, h4⟩
          rcases h1.eq_or_lt with rfl | h1
          · rfl
          · exact absurd hc (h4 c le_rfl h1)
      · rw [ih]
        constructor
        · rintro ⟨h1, h2, h3, h4⟩
          refine ⟨by omega, by omega, h3, fun i hi1 hi2 => ?_⟩
          rcases hi1.eq_or_lt with rfl | hi1
          · exact hc
          · exact h4 i hi1 hi2
        · rintro ⟨h1, h2, h3, h4⟩
          have hne : c ≠ len := fun he => hc (he ▸ h3)
          exact ⟨by omega, by omega, h3, fun i hi1 hi2 => h4 i (by omega) hi2⟩

/-- `strlen` finds the first NUL. -/
theorem strlen_eq_some_iff {s : ℕ → Byte} {len : ℕ} :
    strlen s = some len ↔ len < 2 ^ 32 ∧ s len = 0 ∧ ∀ i < len, s i ≠ 0 := by
  unfold strlen
  rw [strlenFrom_eq_some_iff]
  constructor
  · rintro ⟨-, h2, h3, h4⟩
    exact ⟨by omega, h3, fun i hi => h4 i (by omega) hi⟩
  · rintro ⟨h2, h3, h4⟩
    exact ⟨by omega, by omega, h3, fun i _ hi => h4 i hi⟩

/-- `strlen` reads on until it has read a NUL. -/
theorem mem_strlenReadsFrom {s : ℕ → Byte} {fuel c i : ℕ} :
    i ∈ strlenReadsFrom s fuel c ↔ c ≤ i ∧ i < c + fuel ∧ ∀ j, c ≤ j → j < i → s j ≠ 0 := by
  induction fuel generalizing c with
  | zero =>
      simp only [strlenReadsFrom, List.not_mem_nil, Nat.add_zero, false_iff]
      rintro ⟨h1, h2, -⟩
      omega
  | succ fuel ih =>
      unfold strlenReadsFrom
      rw [List.mem_cons]
      by_cases hc : s c = 0
      · rw [if_pos hc]
        constructor
        · rintro (rfl | h)
          · exact ⟨le_rfl, by omega, fun j h1 h2 => by omega⟩
          · cases h
        · rintro ⟨h1, -, h3⟩
          rcases h1.eq_or_lt with rfl | h1
          · exact Or.inl rfl
          · exact absurd hc (h3 c le_rfl h1)
      · rw [if_neg hc, ih]
        constructor
        · rintro (rfl | ⟨h1, h2, h3⟩)
          · exact ⟨le_rfl, by omega, fun j h1 h2 => by omega⟩
          · refine ⟨by omega, by omega, fun j hj1 hj2 => ?_⟩
            rcases hj1.eq_or_lt with rfl | hj1
            · exact hc
            · exact h3 j hj1 hj2
        · rintro ⟨h1, h2, h3⟩
          rcases h1.eq_or_lt with rfl | h1
          · exact Or.inl rfl
          · exact Or.inr ⟨h1, by omega, fun j hj1 hj2 => h3 j (by omega) hj2⟩

theorem mem_strlenReads {s : ℕ → Byte} {i : ℕ} :
    i ∈ strlenReads s ↔ i < 2 ^ 32 ∧ ∀ j < i, s j ≠ 0 := by
  unfold strlenReads
  rw [mem_strlenReadsFrom]
  constructor
  · rintro ⟨-, h2, h3⟩
    exact ⟨by omega, fun j hj => h3 j (by omega) hj⟩
  · rintro ⟨h2, h3⟩
    exact ⟨by omega, by omega, fun j _ hj => h3 j hj⟩

/-- A NUL ends the search. -/
theorem exists_strlen {s : ℕ → Byte} {n : ℕ} (hn : n < 2 ^ 32) (h : s n = 0) :
    ∃ len ≤ n, strlen s = some len := by
  have hex : ∃ j, s j = 0 := ⟨n, h⟩
  have hle : Nat.find hex ≤ n := Nat.find_min' hex h
  refine ⟨Nat.find hex, hle, strlen_eq_some_iff.mpr ⟨by omega, Nat.find_spec hex, ?_⟩⟩
  exact fun i hi => Nat.find_min hex hi

/-- **The reads of `strlen` stay below a bound iff there is a NUL below it.** -/
theorem strlenReads_lt_iff {s : ℕ → Byte} {n : ℕ} (hn : n < 2 ^ 32) :
    (∀ i ∈ strlenReads s, i < n) ↔ ∃ i < n, s i = 0 := by
  constructor
  · intro h
    by_contra hc
    refine (h n (mem_strlenReads.mpr ⟨hn, fun j hj h0 => hc ⟨j, hj, h0⟩⟩)).false
  · rintro ⟨j, hj, h0⟩ i hi
    by_contra hge
    exact (mem_strlenReads.mp hi).2 j (by omega) h0

/-! ## Branches -/

/-- `cpu_get_branch (from, to)`. Source: `cpu.c` `cpu_get_branch` -/
def cpuGetBranch (src dst : Word) : Word :=
  0xea000000#32 ||| (((dst - src - 8#32) >>> 2) &&& 0x00ffffff#32)

/-- The word that `cpu_get_branch` returns, fetched at its first argument, branches to the second. -/
def BranchesTo (src dst : Word) : Prop := branchTarget src (cpuGetBranch src dst) = some dst

theorem cpuGetBranch_eq (src dst : Word) : cpuGetBranch src dst = branchWord src dst := rfl

/-- Between word-aligned addresses in reach of each other, `cpu_get_branch` branches. -/
theorem branchTarget_cpuGetBranch {src dst : Word} (hs : src.toNat % 4 = 0)
    (hd : dst.toNat % 4 = 0) (h : InReach src dst) :
    branchTarget src (cpuGetBranch src dst) = some dst := by
  rw [cpuGetBranch_eq]
  exact (branchTarget_branchWord_iff hs hd).mpr h

/-- **Branch encoding is exact on its range**: the signed displacement from `from + 8` is from
`-2 ^ 25` to `2 ^ 25 - 4`. -/
theorem cpuGetBranch_exact_iff (src dst : Word) (hs : src.toNat % 4 = 0)
    (hd : dst.toNat % 4 = 0) :
    BranchesTo src dst ↔
      -2 ^ 25 ≤ (dst - src - 8#32).toInt ∧ (dst - src - 8#32).toInt ≤ 2 ^ 25 - 4 := by
  unfold BranchesTo
  rw [cpuGetBranch_eq]
  exact branchTarget_branchWord_iff hs hd

/-- The vector of the prefetch abort and the handler: the displacement is negative, and in reach
across address 0. -/
theorem cpuGetBranch_exact_wrap :
    BranchesTo 0xC#32 0xFF000000#32 ↔
      -2 ^ 25 ≤ (0xFF000000#32 - 0xC#32 - 8#32).toInt ∧
        (0xFF000000#32 - 0xC#32 - 8#32).toInt ≤ 2 ^ 25 - 4 :=
  cpuGetBranch_exact_iff 0xC#32 0xFF000000#32 (by decide) (by decide)

end Hbootdbg.Device
