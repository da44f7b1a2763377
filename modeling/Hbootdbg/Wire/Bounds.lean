import Hbootdbg.Device.Handler

/-!
# The accesses of the decoding

`__usb_recv` puts no NUL after a packet, and `base64_decode` knows the size of neither buffer.

* `handlerInBounds_iff` — in a stop, the accesses are inside the buffers iff `buf` holds a NUL after
  the prefix.
* `writesInBounds_iff` — a string is decoded inside `decoded_buf` iff it has at most 1365
  characters.
* `decoding_inBounds_iff` — both entries. `decoding_outOfBounds` is a failing packet and a failing
  string.
-/

namespace Hbootdbg.Wire

open Hbootdbg.Lib.ByteMem Hbootdbg.Device

variable {input buf decodedBuf : ℕ → Byte} {len : ℕ}

/-- **A string fits iff it has at most 1365 characters.** The NUL after the decoded bytes is the
last one written. -/
theorem writesInBounds_iff (hlen : strlen input = some len) :
    WritesInBounds input decodedBuf ↔ len ≤ 1365 := by
  obtain ⟨r, hr, hspec⟩ := base64Decode_spec decodedBuf hlen
  have hlast : decodedLength len < sizeofBuf ↔ len ≤ 1365 := by
    unfold decodedLength sizeofBuf
    omega
  unfold WritesInBounds
  rw [hr]
  constructor
  · intro h
    exact hlast.mp (h r rfl _ hspec.last)
  · rintro h r' ⟨⟩ i hi
    exact (hspec.holds.writes i hi).trans_lt (hlast.mpr h)

/-- **In a stop, the accesses are inside the buffers iff there is a NUL to stop at.** -/
theorem handlerInBounds_iff (buf decodedBuf : ℕ → Byte) :
    HandlerInBounds buf decodedBuf ↔
      ∃ i, payloadOffset (buf 0) ≤ i ∧ i < sizeofBuf ∧ buf i = 0#8 := by
  have hoff : payloadOffset (buf 0) ≤ 8 := by
    unfold payloadOffset
    split_ifs <;> decide
  constructor
  · rintro ⟨hreads, -⟩
    have hlt : ∀ i ∈ strlenReads (payload buf), i < sizeofBuf - payloadOffset (buf 0) := by
      intro i hi
      have := hreads i hi
      omega
    obtain ⟨i, hi, h0⟩ := (strlenReads_lt_iff (by unfold sizeofBuf; omega)).mp hlt
    exact ⟨payloadOffset (buf 0) + i, by omega, by omega, h0⟩
  · rintro ⟨i, hle, hlt, h0⟩
    obtain ⟨j, rfl⟩ := Nat.exists_eq_add_of_le hle
    unfold sizeofBuf at hlt
    obtain ⟨len, hlen, hs⟩ := exists_strlen (s := payload buf) (by omega) h0
    refine ⟨fun i hi => ?_, fun r hr i hi => ?_, (writesInBounds_iff hs).mpr (by omega)⟩
    · have hstop := (mem_strlenReads.mp hi).2
      by_contra hge
      unfold sizeofBuf at hge
      exact hstop j (by omega) h0
    · obtain ⟨n, hn, hspec⟩ := base64Decode_eq_some hr
      obtain rfl : len = n := Option.some.inj (hs.symm.trans hn)
      rw [hspec.reads, List.mem_range] at hi
      unfold sizeofBuf
      omega

/-- **Where command decoding stays inside its buffers**: in a stop, iff the buffer holds a NUL after
the prefix once the packet is in it; in the command hook, iff the string has at most 1365
characters. -/
theorem decoding_inBounds_iff (decodedBuf : ℕ → Byte) :
    (∀ (packet : List Byte) (buf : ℕ → Byte),
      HandlerInBounds (usbRecv packet buf) decodedBuf ↔
        ∃ i, payloadOffset (usbRecv packet buf 0) ≤ i ∧ i < sizeofBuf ∧
          usbRecv packet buf i = 0#8) ∧
    ∀ (m : Memory) (cmd argv : Word) (len : ℕ),
      strlen (stringAt m (hbootdbgString m cmd argv)) = some len →
        (WritesInBounds (stringAt m (hbootdbgString m cmd argv)) decodedBuf ↔ len ≤ 1365) :=
  ⟨fun _ _ => handlerInBounds_iff _ decodedBuf, fun _ _ _ _ hlen => writesInBounds_iff hlen⟩

/-! ## Examples -/

/-- A memory with a string of 1366 characters at `0x1000`. -/
def longString : Memory := fun x => if (x - 0x1000#32).toNat < 1366 then 0x41#8 else 0#8

theorem strlen_longString :
    strlen (stringAt longString (hbootdbgString longString 0x1000#32 0#32)) = some 1366 := by
  have hcmd : hbootdbgString longString 0x1000#32 0#32 = 0x1000#32 := if_neg (by decide)
  rw [hcmd, strlen_eq_some_iff]
  have hsub : ∀ i ≤ 1366, (off 0x1000#32 i - 0x1000#32).toNat = i := fun i hi =>
    toNat_off_sub _ (by omega)
  refine ⟨by decide, ?_, fun i hi => ?_⟩
  · unfold stringAt longString
    rw [hsub 1366 le_rfl]
    rfl
  · unfold stringAt longString
    rw [hsub i hi.le, if_pos hi]
    decide

/-- A packet of 1024 bytes without a NUL makes `strlen` read past `buf`; a string of 1366 characters
makes the hook write past `decoded_buf`. -/
theorem decoding_outOfBounds :
    ¬ HandlerInBounds (usbRecv (List.replicate 1024 0x41#8) fun _ => 0#8) (fun _ => 0#8) ∧
      strlen (stringAt longString (hbootdbgString longString 0x1000#32 0#32)) = some 1366 ∧
      ¬ WritesInBounds (stringAt longString (hbootdbgString longString 0x1000#32 0#32))
        (fun _ => 0#8) := by
  refine ⟨?_, strlen_longString, ?_⟩
  · rw [handlerInBounds_iff]
    rintro ⟨i, -, hi, h0⟩
    have hlt : i < (List.replicate 1024 0x41#8).length := by rwa [List.length_replicate]
    rw [usbRecv, List.getD_eq_getElem _ _ hlt, List.getElem_replicate] at h0
    revert h0
    decide
  · rw [writesInBounds_iff strlen_longString]
    decide

/-- `"oem AwA="` and a NUL. -/
def shortPacket : List Byte :=
  [0x6f#8, 0x65#8, 0x6d#8, 0x20#8, 0x41#8, 0x77#8, 0x41#8, 0x3d#8, 0x00#8]

/-- A packet that ends with a NUL, and an empty string. -/
theorem decoding_inBounds_sample :
    HandlerInBounds (usbRecv shortPacket fun _ => 0x41#8) (fun _ => 0#8) ∧
      WritesInBounds (stringAt (fun _ => 0#8) (hbootdbgString (fun _ => 0#8) 0x1000#32 0#32))
        (fun _ => 0#8) :=
  ⟨((decoding_inBounds_iff fun _ => 0#8).1 shortPacket fun _ => 0x41#8).mpr
      ⟨8, by decide, by decide, by decide⟩,
    ((decoding_inBounds_iff fun _ => 0#8).2 (fun _ => 0#8) 0x1000#32 0#32 0
      (strlen_eq_some_iff.mpr ⟨by decide, rfl, fun i hi => absurd hi (Nat.not_lt_zero i)⟩)).mpr
      (by decide)⟩

end Hbootdbg.Wire
