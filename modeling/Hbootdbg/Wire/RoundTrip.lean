import Hbootdbg.Device.Handler
import Hbootdbg.Host.Command
import Hbootdbg.Host.Hboot

/-!
# The encoding of commands, there and back

`base64.c` marks the padding with a negative table entry and skips negative entries, but plain
`char` is unsigned for the compiler of the Makefile: `=` is decoded like any other character.

* `HoldsString`, `holdsString_packet` — a string with its NUL, and where the device finds it.
* `RoundTrips` — the device gets the bytes the host sent, and their number.
* `decodedByte_encode` — the bytes of the command are right; the padding adds others.
* `received` — what the object holds once the text of a command has been decoded into it;
  `received_of_lt` and `received_pad` say what is there, and what the padding adds.
* `roundTrips_iff` — a command comes back iff it needs no padding. `padding_decoded` is one byte,
  which comes back as three.
-/

namespace Hbootdbg.Wire

open Hbootdbg.Lib.ByteMem Hbootdbg.Lib.Base64 Hbootdbg.Device Hbootdbg.Host

/-- A NUL-terminated string. -/
def HoldsString (code : ℕ → Byte) (text : List Byte) : Prop :=
  (∀ i < text.length, code i = text.getD i 0#8) ∧ code text.length = 0#8

/-- `base64_decode` writes the bytes of `x` and a NUL, nothing else, and returns their number. -/
def RoundTrips (x : List Byte) (code out : ℕ → Byte) : Prop :=
  ∃ d, base64Decode code out = some d ∧ d.plainchar = x.length ∧
    (∀ i < x.length, d.plaintext i = x.getD i 0#8) ∧ ∀ i, x.length < i → d.plaintext i = out i

/-- What the host sends in fastboot mode, followed by a NUL, is where the device looks for it. -/
theorem holdsString_packet (x : List Byte) (buf : ℕ → Byte) :
    HoldsString (Device.payload (usbRecv (hbootdbgPacket true x ++ [0#8]) buf)) (base64Text x) := by
  have hpacket : hbootdbgPacket true x ++ [0#8] = oem ++ (base64Text x ++ [0#8]) :=
    List.append_assoc _ _ _
  have hget : ∀ i ≤ (base64Text x).length,
      Device.payload (usbRecv (hbootdbgPacket true x ++ [0#8]) buf) i =
        (base64Text x ++ [0#8]).getD i 0#8 := by
    intro i hi
    have hlt : i < (base64Text x ++ [0#8]).length := by
      rw [List.length_append, List.length_singleton]
      omega
    have hoff : payloadOffset (usbRecv (hbootdbgPacket true x ++ [0#8]) buf 0) = oem.length := by
      rw [hpacket]
      rfl
    unfold Device.payload
    rw [hoff, usbRecv, hpacket, List.getD_append_right _ _ _ _ (Nat.le_add_right _ _),
      Nat.add_sub_cancel_left, List.getD_eq_getElem _ _ hlt, List.getD_eq_getElem _ _ hlt]
  constructor
  · intro i hi
    rw [hget i hi.le, List.getD_append _ _ _ _ hi]
  · rw [hget _ le_rfl, List.getD_append_right _ _ _ _ le_rfl, Nat.sub_self]
    rfl

/-! ## Decoding what was encoded -/

theorem sextet_digit (v : BitVec 6) : sextet (digit v) = v.setWidth 8 := by
  revert v
  decide +kernel

/-- The decoder is four characters further three bytes later. -/
theorem decodedByte_add_three (code : ℕ → Byte) (i : ℕ) :
    decodedByte code (i + 3) = decodedByte (fun j => code (j + 4)) i := by
  unfold decodedByte
  have hdiv : i + 3 + (i + 3) / 3 = i + i / 3 + 4 := by omega
  have hmod : (i + 3) % 3 = i % 3 := by omega
  rw [hdiv, hmod, Nat.add_right_comm _ 4 1]

/-- **Every byte is decoded as it was**, whatever is behind the last one. The induction follows the
groups. -/
theorem decodedByte_encode (x : List Byte) :
    ∀ i < x.length, decodedByte (fun j => (encode x).getD j 0#8) i = x.getD i 0#8 := by
  have hgroup : ∀ (a : Byte) (k : ℕ) (u v : BitVec 6),
      u.setWidth 8 <<< (2 + 2 * k) ||| v.setWidth 8 >>> (4 - 2 * k) = a →
        sextet (digit u) <<< (2 + 2 * k) ||| sextet (digit v) >>> (4 - 2 * k) = a := by
    intro a k u v h
    rw [sextet_digit, sextet_digit, h]
  induction x using encode.induct with
  | case1 =>
      intro i hi
      cases hi
  | case2 a =>
      intro i hi
      obtain rfl : i = 0 := by simpa using hi
      exact hgroup a 0 _ _ (byte_zero_of_sextets a 0#8 0#8)
  | case3 a b =>
      intro i hi
      rcases i with _ | _ | i
      · exact hgroup a 0 _ _ (byte_zero_of_sextets a b 0#8)
      · exact hgroup b 1 _ _ (byte_one_of_sextets a b 0#8)
      · simp at hi
  | case4 a b c rest ih =>
      intro i hi
      rcases i with _ | _ | _ | i
      · exact hgroup a 0 _ _ (byte_zero_of_sextets a b c)
      · exact hgroup b 1 _ _ (byte_one_of_sextets a b c)
      · exact hgroup c 2 _ _ (byte_two_of_sextets a b c)
      · rw [decodedByte_add_three]
        exact ih i (by simpa using hi)

/-! ## What the device gets -/

/-- The object once the text of `x` has been decoded into it: the bytes of the groups begun, then
what a NUL, the text behind it or the object put there. -/
def received (x : List Byte) (obj : CmdBytes) : CmdBytes := fun i =>
  if i < decodedLength (base64Text x).length then
    decodedByte (fun j => (base64Text x).getD j 0#8) i
  else obj i

/-- The number of bytes the device finds: that of the groups begun. -/
theorem decodedLength_base64Text (x : List Byte) :
    decodedLength (base64Text x).length = 3 * ((x.length + 2) / 3) := by
  rw [base64Text_eq_encode, length_encode, decodedLength]
  omega

variable {x : List Byte} {obj : CmdBytes}

/-- The device gets the bytes of the command. -/
theorem received_of_lt {i : ℕ} (hi : i < x.length) : received x obj i = x.getD i 0#8 := by
  have hlt : i < decodedLength (base64Text x).length := by
    rw [decodedLength_base64Text]
    omega
  unfold received
  rw [if_pos hlt, base64Text_eq_encode, decodedByte_encode x i hi]

/-- The bytes of the command are over what `received` says is behind them. -/
theorem received_eq_overlay (x : List Byte) (obj : CmdBytes) :
    received x obj = overlay x (received x obj) := by
  funext i
  unfold overlay
  by_cases hi : i < x.length
  · rw [received_of_lt hi, List.getD_eq_getElem _ _ hi, List.getD_eq_getElem _ _ hi]
  · rw [List.getD_eq_default _ _ (by omega)]

/-- **Behind a command with one character of padding, the device finds what `=` is decoded to.** -/
theorem decodedByte_pad (h : x.length % 3 = 2) :
    decodedByte (fun j => (encode x).getD j 0#8) x.length = 0x3e#8 := by
  induction x using encode.induct with
  | case1 => cases h
  | case2 a => cases h
  | case3 a b =>
      have hlow : ∀ b : Byte, (sextetOf 0#8 b 0#8 2).setWidth 8 <<< (2 + 2 * 2) |||
          sextet pad >>> (4 - 2 * 2) = 0x3e#8 := by decide +kernel
      have hb := hlow b
      rw [← sextet_digit] at hb
      have hs : sextetOf a b 0#8 2 = sextetOf 0#8 b 0#8 2 := rfl
      have hlen : [a, b].length = 2 := rfl
      rw [← hs] at hb
      rw [hlen]
      exact hb
  | case4 a b c rest ih =>
      have hrest : rest.length % 3 = 2 := by
        simp only [List.length_cons] at h
        omega
      rw [List.length_cons, List.length_cons, List.length_cons, decodedByte_add_three]
      exact ih hrest

theorem received_pad (obj : CmdBytes) (h : x.length % 3 = 2) : received x obj x.length = 0x3e#8 := by
  have hlt : x.length < decodedLength (base64Text x).length := by
    rw [decodedLength_base64Text]
    omega
  unfold received
  rw [if_pos hlt, base64Text_eq_encode, decodedByte_pad h]

/-! ## The round trip -/

variable {code : ℕ → Byte}

/-- The text ends at its NUL. -/
theorem strlen_of_holdsString (h : HoldsString code (base64Text x))
    (hlen : (base64Text x).length < 2 ^ 32) : strlen code = some (base64Text x).length := by
  refine strlen_eq_some_iff.mpr ⟨hlen, h.2, fun i hi => ?_⟩
  rw [h.1 i hi, List.getD_eq_getElem _ _ hi]
  apply ne_zero_of_mem_encode (x := x)
  rw [← base64Text_eq_encode]
  exact List.getElem_mem hi

/-- **A command comes back iff it needs no padding.** -/
theorem roundTrips_iff (x : List Byte) (code out : ℕ → Byte) (h : HoldsString code (base64Text x))
    (hlen : (base64Text x).length < 2 ^ 32) : RoundTrips x code out ↔ 3 ∣ x.length := by
  obtain ⟨d, hd, hspec⟩ := base64Decode_spec out (strlen_of_holdsString h hlen)
  have hcount : d.plainchar = 3 * ((x.length + 2) / 3) :=
    hspec.holds.plainchar.trans (decodedLength_base64Text x)
  constructor
  · rintro ⟨d', hd', hcount', -⟩
    obtain rfl : d = d' := Option.some.inj (hd.symm.trans hd')
    exact ⟨_, hcount'.symm.trans hcount⟩
  · intro hx
    have hn : decodedLength (base64Text x).length = x.length := by
      rw [decodedLength_base64Text]
      omega
    refine ⟨d, hd, by rw [hcount]; omega, fun i hi => ?_, fun i hi => ?_⟩
    · rw [hspec.holds.done i (by rwa [hn]), ← decodedByte_encode x i hi, ← base64Text_eq_encode]
      exact decodedByte_congr h.1 (by rwa [hn])
    · exact hspec.holds.untouched i (by rwa [hn])

/-! ## Examples -/

/-- The type and error of an attach, in a packet of their own: the device decodes three bytes. -/
theorem padding_decoded :
    HoldsString (Device.payload (usbRecv (hbootdbgPacket true [0x01#8, 0x00#8] ++ [0#8]) fun _ => 0#8))
        (base64Text [0x01#8, 0x00#8]) ∧
      ¬ RoundTrips [0x01#8, 0x00#8]
        (Device.payload (usbRecv (hbootdbgPacket true [0x01#8, 0x00#8] ++ [0#8]) fun _ => 0#8))
        (fun _ => 0#8) := by
  have h := holdsString_packet [0x01#8, 0x00#8] fun _ => 0#8
  refine ⟨h, ?_⟩
  rintro ⟨d, hd, hcount, -⟩
  obtain ⟨d', hd', hspec⟩ := base64Decode_spec (fun _ => 0#8)
    (strlen_of_holdsString h (by decide +kernel))
  obtain rfl : d = d' := Option.some.inj (hd.symm.trans hd')
  have htwo : decodedLength (base64Text [0x01#8, 0x00#8]).length = 2 :=
    hspec.holds.plainchar.symm.trans hcount
  revert htwo
  decide +kernel

/-- A command of three bytes comes back. -/
theorem roundTrips_sample :
    RoundTrips [0x01#8, 0x00#8, 0x00#8]
        (Device.payload (usbRecv (hbootdbgPacket true [0x01#8, 0x00#8, 0x00#8] ++ [0#8]) fun _ => 0#8))
        (fun _ => 0#8) :=
  (roundTrips_iff _ _ _ (holdsString_packet _ _) (by decide +kernel)).mpr ⟨1, rfl⟩

end Hbootdbg.Wire
