import Hbootdbg.Lib.Base64
import Hbootdbg.Lib.SplitPair

/-!
# `hboot.py`: what a command and its response look like on the line

* `b2aBase64`, `base64Text` — `binascii.b2a_base64 (cmd)`, and without its final newline.
* `hbootdbgPacket` — what `HbootClient.hbootdbg` writes.
* `SerialClient`, `receive` — the reads of the response; `receive_eq` says that they get all of it.
* `stripDecoration`, `hbootdbg` — the response without the echo and the prompt of the phone.
-/

namespace Hbootdbg.Host

open Hbootdbg.Lib.ByteMem Hbootdbg.Lib.Base64 Hbootdbg.Lib.SplitPair

/-! ## Commands -/

/-- `binascii.b2a_base64 (cmd)`: the padded encoding and a newline. -/
def b2aBase64 (cmd : List Byte) : List Byte := encode cmd ++ [0x0a#8]

/-- `binascii.b2a_base64 (cmd)[:-1]`. Source: `scripts/hboot.py` `HbootClient.hbootdbg` -/
def base64Text (cmd : List Byte) : List Byte := (b2aBase64 cmd).dropLast

/-- `b'oem '`. -/
def oem : List Byte := [0x6f#8, 0x65#8, 0x6d#8, 0x20#8]

/-- `b'keytest '`. -/
def keytest : List Byte :=
  [0x6b#8, 0x65#8, 0x79#8, 0x74#8, 0x65#8, 0x73#8, 0x74#8, 0x20#8]

/-- What `hbootdbg (cmd)` writes, with the flag `_fastboot_mode`.
Source: `scripts/hboot.py` `HbootClient.hbootdbg` -/
def hbootdbgPacket (fastbootMode : Bool) (cmd : List Byte) : List Byte :=
  if fastbootMode then oem ++ base64Text cmd else keytest ++ base64Text cmd ++ [0x0a#8]

theorem base64Text_eq_encode (cmd : List Byte) : base64Text cmd = encode cmd := by
  unfold base64Text b2aBase64
  rw [List.dropLast_append_of_ne_nil (List.cons_ne_nil _ _), List.dropLast_singleton,
    List.append_nil]

/-! ## Responses -/

/-- A client, and the number of bytes that arrive in time, at each number of bytes of the response
that are still to be read: what `read` finds before its timeout, or `inWaiting` after the first byte.
Source: `scripts/hboot.py` `SerialClient` -/
structure SerialClient where
  /-- `_blocking_io`. -/
  blockingIo : Bool
  /-- The bytes that arrive. -/
  pending : ℕ → ℕ

/-- The number of bytes that `read (size)` returns while the response lasts.
Source: `scripts/hboot.py` `SerialClient.read` -/
def SerialClient.count (c : SerialClient) (size left : ℕ) : ℕ :=
  if c.blockingIo then min size (max 1 (c.pending left))
  else
    let n := c.pending left
    if size > 1 ∧ n > 0 then 1 + min size n else 1

/-- `read (size)`: what is read, and what remains; nothing is read after the end of the response.
Source: `scripts/hboot.py` `SerialClient.read` -/
def SerialClient.read (c : SerialClient) (size : ℕ) (line : List Byte) : List Byte × List Byte :=
  line.splitAt (c.count size line.length)

/-- `while True: tmp = self.read (1024)`, with what has been read before, for a number of rounds.
Source: `scripts/hboot.py` `HbootClient.hbootdbg` -/
def SerialClient.receive (c : SerialClient) : ℕ → List Byte → List Byte → Option (List Byte)
  | 0, _, _ => none
  | fuel + 1, data, line =>
      let (tmp, line) := c.read 1024 line
      if tmp = [] then some data else receive c fuel (data ++ tmp) line

/-- `b'keytest'`, the start of an echo. -/
def keytestEcho : List Byte := [0x6b#8, 0x65#8, 0x79#8, 0x74#8, 0x65#8, 0x73#8, 0x74#8]

/-- `b'hboot>'`, the end of a prompt. -/
def hbootPrompt : List Byte := [0x68#8, 0x62#8, 0x6f#8, 0x6f#8, 0x74#8, 0x3e#8]

/-- Carriage return. -/
def cr : Byte := 0x0d#8

/-- Line feed. -/
def lf : Byte := 0x0a#8

/-- `b'\r\n'.join (data[1 if … else None:-1 if … else None])`, for `data.split (b'\r\n')`.
Source: `scripts/hboot.py` `HbootClient.hbootdbg` -/
def stripDecoration (data : List Byte) : List Byte :=
  let lines := splitPair cr lf data
  let start := if keytestEcho.isPrefixOf (lines.headD []) then 1 else 0
  let stop :=
    if hbootPrompt.isSuffixOf (lines.getLastD []) then lines.length - 1 else lines.length
  [cr, lf].intercalate ((lines.take stop).drop start)

/-- `hbootdbg (cmd)`, from what the device sends to the result. Every read but the last gets a byte.
Source: `scripts/hboot.py` `HbootClient.hbootdbg` -/
def hbootdbg (c : SerialClient) (fastbootMode : Bool) (line : List Byte) : Option (List Byte) :=
  (c.receive (line.length + 1) [] line).map fun data =>
    if fastbootMode then data else stripDecoration data

/-- A read gets a byte while there is one. -/
theorem SerialClient.count_pos (c : SerialClient) {size : ℕ} (h : 0 < size) (left : ℕ) :
    0 < c.count size left := by
  unfold count
  simp only
  split_ifs <;> omega

/-- **The reads get the whole response**, however it arrives. -/
theorem SerialClient.receive_eq (c : SerialClient) {fuel : ℕ} {data line : List Byte}
    (h : line.length < fuel) : c.receive fuel data line = some (data ++ line) := by
  induction fuel generalizing data line with
  | zero => omega
  | succ fuel ih =>
      unfold receive read
      rw [List.splitAt_eq]
      have hpos := c.count_pos (show 0 < 1024 by decide) line.length
      cases line with
      | nil => simp
      | cons x rest =>
          have htake : (x :: rest).take (c.count 1024 (x :: rest).length) ≠ [] := by
            rw [Ne, List.take_eq_nil_iff]
            rintro (h0 | h0)
            · omega
            · cases h0
          simp only
          rw [if_neg htake, ih, List.append_assoc, List.take_append_drop]
          rw [List.length_drop]
          simp only [List.length_cons] at *
          omega

theorem hbootdbg_eq (c : SerialClient) (fastbootMode : Bool) (line : List Byte) :
    hbootdbg c fastbootMode line = some (if fastbootMode then line else stripDecoration line) := by
  rw [hbootdbg, c.receive_eq (Nat.lt_succ_self _), Option.map_some, List.nil_append]

end Hbootdbg.Host
