import Hbootdbg.Gdb.Packets

/-!
# Packets of one's own

`pack` escapes `$`, `#` and `}`, and `unpack` compares an `int` with a `bytes` object to find the
escapes, which never succeeds: what was escaped stays so.

* `RoundTrips` — `run` reads the packet of a list back as that list.
* `run_pack` — it reads the list of the escaped strings.
* `packet_roundTrips_iff` — strings without separators survive iff they contain no `$`, `#` or `}`.
  `brace_doubled` is a string that does not.
-/

namespace Hbootdbg.Gdb

open Hbootdbg.Lib.ByteMem Hbootdbg.Lib.Hex

/-- All that is left of the stream has arrived. -/
def whole : Segmentation := ⟨.tcp, id⟩

/-- The packet for `dataList` is read as one packet, with these fields. -/
def RoundTrips (dataList : List (List Byte)) : Prop :=
  ∃ data digits, run whole (pack dataList) = [.packet data digits (some (some dataList))]

variable {s data : List Byte} {dataList : List (List Byte)} {c : Byte}

/-! ## Escapes -/

theorem isSpecial_iff : isSpecial c = true ↔ c = dollar ∨ c = hash ∨ c = brace := by
  simp [isSpecial, or_assoc]

/-- A byte is sent as it is, or as `}` and one of three others. -/
theorem escapeByte_cases (c : Byte) :
    (isSpecial c = false ∧ escapeByte c = [c]) ∨
      (isSpecial c = true ∧ ∃ x ∈ [0x04#8, 0x03#8, 0x5d#8], escapeByte c = [brace, x]) := by
  by_cases hc : isSpecial c = true
  · refine Or.inr ⟨hc, ?_⟩
    rcases isSpecial_iff.mp hc with rfl | rfl | rfl
    · exact ⟨0x04#8, by simp, rfl⟩
    · exact ⟨0x03#8, by simp, rfl⟩
    · exact ⟨0x5d#8, by simp, rfl⟩
  · exact Or.inl ⟨Bool.eq_false_of_not_eq_true hc, if_neg hc⟩

/-- Escaped data contain no `#`. -/
theorem hash_not_mem_escape (s : List Byte) : hash ∉ escape s := by
  intro h
  obtain ⟨c, -, hc⟩ := List.mem_flatMap.mp h
  rcases escapeByte_cases c with ⟨hplain, he⟩ | ⟨-, x, hx, he⟩
  · rw [he, List.mem_singleton] at hc
    subst hc
    cases hplain
  · rw [he] at hc
    have hall : ∀ x ∈ [0x04#8, 0x03#8, 0x5d#8], hash ∉ [brace, x] := by decide
    exact hall x hx hc

/-- Escaping adds no separator. -/
theorem isSeparator_escape (h : ∀ c ∈ s, isSeparator c = false) :
    ∀ x ∈ escape s, isSeparator x = false := by
  intro y hy
  obtain ⟨c, hmem, hy⟩ := List.mem_flatMap.mp hy
  rcases escapeByte_cases c with ⟨-, he⟩ | ⟨-, x, hx, he⟩
  · rw [he, List.mem_singleton] at hy
    exact hy ▸ h c hmem
  · rw [he] at hy
    have hall : ∀ x ∈ [0x04#8, 0x03#8, 0x5d#8], ∀ y ∈ [brace, x], isSeparator y = false := by
      decide
    exact hall x hx y hy

theorem length_le_escape (s : List Byte) : s.length ≤ (escape s).length := by
  induction s with
  | nil => exact le_rfl
  | cons c s ih =>
      have hpos : 1 ≤ (escapeByte c).length := by
        unfold escapeByte
        split <;> simp
      rw [escape, List.flatMap_cons, List.length_append, ← escape, List.length_cons]
      omega

/-- **A string is not changed iff it has nothing to escape.** -/
theorem escape_eq_self_iff (s : List Byte) : escape s = s ↔ ∀ c ∈ s, isSpecial c = false := by
  induction s with
  | nil => simp [escape]
  | cons c s ih =>
      rw [escape, List.flatMap_cons, ← escape, List.forall_mem_cons, ← ih, escapeByte]
      by_cases hc : isSpecial c = true
      · rw [if_pos hc]
        refine iff_of_false (fun h => ?_) fun h => ?_
        · -- an escaped string is longer
          have hlen := congrArg List.length h
          have hle := length_le_escape s
          simp at hlen
          omega
        · rw [hc] at h
          cases h.1
      · rw [if_neg hc, List.singleton_append, List.cons_eq_cons]
        exact and_congr_left' (iff_of_true rfl (Bool.eq_false_of_not_eq_true hc))

/-! ## The packet -/

/-- What is joined with a separator is split at it. -/
theorem splitOnP_intercalate {α : Type*} {p : α → Bool} {sep : α} (hsep : p sep = true)
    {ls : List (List α)} (hne : ls ≠ []) (h : ∀ l ∈ ls, ∀ x ∈ l, p x = false) :
    ([sep].intercalate ls).splitOnP p = ls := by
  induction ls with
  | nil => exact absurd rfl hne
  | cons l ls ih =>
      obtain ⟨hl, hls⟩ := List.forall_mem_cons.mp h
      cases ls with
      | nil => rw [List.intercalate_singleton, List.splitOnP_eq_singleton hl]
      | cons l' ls =>
          rw [List.intercalate_cons_cons, List.append_assoc, List.singleton_append,
            List.splitOnP_append_cons_of_forall_mem hl sep hsep,
            ih (List.cons_ne_nil l' ls) hls]

theorem hash_not_mem_packedData (dataList : List (List Byte)) : hash ∉ packedData dataList := by
  have hls : ∀ l ∈ dataList.map escape, hash ∉ l := by
    intro l hl
    obtain ⟨s, -, rfl⟩ := List.mem_map.mp hl
    exact hash_not_mem_escape s
  unfold packedData
  generalize dataList.map escape = ls at hls
  induction ls with
  | nil => exact List.not_mem_nil
  | cons l ls ih =>
      obtain ⟨hl, hls⟩ := List.forall_mem_cons.mp hls
      cases ls with
      | nil => rwa [List.intercalate_singleton]
      | cons l' ls =>
          rw [List.intercalate_cons_cons, List.mem_append, List.mem_append, List.mem_singleton]
          rintro ((hmem | hmem) | hmem)
          · exact hl hmem
          · exact absurd hmem (by decide)
          · exact ih hls hmem

/-- `unpack` takes the digits that `pack` writes as they are. -/
theorem hexDigit_accepted {v : ℕ} (h : v < 16) :
    lower (hexDigit v) = hexDigit v ∧ 0x30#8 ≤ hexDigit v ∧ hexDigit v ≤ 0x66#8 := by
  interval_cases v <;> decide

/-- The digits of the sum are accepted. -/
theorem unpack_hexPair (data : List Byte) :
    unpack data (hexPair (checksum data)) = some (some (unpackFields data)) := by
  have hlt := (checksum data).isLt
  obtain ⟨hhi, hhirange⟩ := hexDigit_accepted (v := (checksum data).toNat / 16) (by omega)
  obtain ⟨hlo, hlorange⟩ := hexDigit_accepted (v := (checksum data).toNat % 16) (by omega)
  have hlower : (hexPair (checksum data)).map lower = hexPair (checksum data) := by
    simp [hexPair, hhi, hlo]
  have hrange : ¬ ((hexPair (checksum data)).length ≠ 2 ∨
      ¬ ∀ c ∈ hexPair (checksum data), 0x30#8 ≤ c ∧ c ≤ 0x66#8) := by
    rintro (hlen | hout)
    · exact hlen rfl
    · refine hout fun c hc => ?_
      rcases List.mem_pair.mp hc with rfl | rfl
      · exact hhirange
      · exact hlorange
  have hvalue : ofHex (hexPair (checksum data)) = some (checksum data).toNat := by
    have htext := ofHex_hexlify (List.cons_ne_nil (checksum data) [])
    simpa [hexlify, bigEndian] using htext
  unfold unpack
  simp only [hlower, hvalue]
  rw [if_neg hrange, Option.map_some, if_neg (not_not_intro rfl)]

/-- **The server reads the list of the escaped strings.** -/
theorem run_pack (hne : dataList ≠ []) (hsep : ∀ s ∈ dataList, ∀ c ∈ s, isSeparator c = false) :
    run whole (pack dataList) = [.packet (packedData dataList)
      (hexPair (checksum (packedData dataList))) (some (some (dataList.map escape)))] := by
  have hfields : unpackFields (packedData dataList) = dataList.map escape := by
    rw [unpackFields_eq, packedData]
    refine splitOnP_intercalate rfl (by simpa using hne) fun l hl => ?_
    obtain ⟨s, hs, rfl⟩ := List.mem_map.mp hl
    exact isSeparator_escape (hsep s hs)
  have hrecv : ∀ b : Byte, whole.recv 2 (hexPair b) = (hexPair b, []) := fun _ => rfl
  rw [pack, run_packet (hash_not_mem_packedData dataList), hrecv]
  simp only [unpack_hexPair, hfields]
  simp

/-- **A list of strings without separators makes the round trip iff there is nothing to escape.** -/
theorem packet_roundTrips_iff (dataList : List (List Byte)) (hne : dataList ≠ [])
    (hsep : ∀ s ∈ dataList, ∀ c ∈ s, isSeparator c = false) :
    RoundTrips dataList ↔ ∀ s ∈ dataList, ∀ c ∈ s, isSpecial c = false := by
  have hmap : dataList.map escape = dataList ↔ ∀ s ∈ dataList, escape s = s := by
    have hinj := List.map_inj_left (l := dataList) (f := escape) (g := id)
    rwa [List.map_id] at hinj
  simp only [← escape_eq_self_iff]
  rw [← hmap]
  constructor
  · rintro ⟨data, digits, h⟩
    rw [run_pack hne hsep] at h
    obtain ⟨-, -, hresult⟩ := Event.packet.inj (List.cons.inj h).1
    exact Option.some.inj (Option.some.inj hresult)
  · intro h
    have hrun := run_pack hne hsep
    rw [h] at hrun
    exact ⟨_, _, hrun⟩

/-- `}` is read as `}]`. -/
theorem brace_doubled : ¬ RoundTrips [[brace]] := by
  rintro ⟨data, digits, h⟩
  have hrun := run_pack (List.cons_ne_nil [brace] []) (by decide)
  rw [h] at hrun
  obtain ⟨-, -, hresult⟩ := Event.packet.inj (List.cons.inj hrun).1
  revert hresult
  decide

/-- `OK,1`. -/
theorem packet_roundTrips_sample : RoundTrips [[0x4f#8, 0x4b#8], [0x31#8]] :=
  (packet_roundTrips_iff _ (by decide) (by decide)).mpr (by decide)

end Hbootdbg.Gdb
