import Hbootdbg.Device.Preloader
import Hbootdbg.Host.Command

/-!
# `dbgupload.py`: the requests that install the debugger

* `Offsets`, `vision` — where things are on a phone; the other phones of the table have no
  `payload`.
* `writeRequest` — the command of `dbg_write_memory`; `myFbCmdOemDbg_writeRequest` says what the
  preloader does for it.
* `patchBytes` — the patch for the two hooks.
* `script` — the writes of `copy_hbootdbg` and `patch_cmds`, in order.
-/

namespace Hbootdbg.Host

open Hbootdbg.Lib.ByteMem Hbootdbg.Device

/-- An entry of `DEVICE_OFFSETS`. Source: `scripts/dbgupload.py` -/
structure Offsets where
  /-- `'fb_oem_hook'`. -/
  fbOemHook : Word
  /-- `'hb_keytest_hook'`. -/
  hbKeytestHook : Word
  /-- `'preloader'`: where the phone puts a download. -/
  preloader : Word
  /-- `'payload'`: where the debugger is uploaded. -/
  payload : Word

/-- `DEVICE_OFFSETS['vision_0.85.0015']`. Source: `scripts/dbgupload.py` -/
def vision : Offsets where
  fbOemHook := 0x8D0020C8#32
  hbKeytestHook := 0x8D010DF0#32
  preloader := 0x058D3000#32
  payload := 0x8D0E2000#32

/-- `WRITE_MEM`. Source: `scripts/dbgupload.py` -/
def writeMem : ℕ := 8

/-- `struct.pack ('=BII', WRITE_MEM, dest, len (data))`.
Source: `scripts/dbgupload.py` `dbg_write_memory` -/
def writeRequest (dest : Word) (data : List Byte) : Option (List Byte) :=
  concat [packB writeMem, packI dest.toNat, packI data.length]

/-- The patch: a function that calls the payload. Source: `scripts/dbgupload.py` `patch_cmds` -/
def patchBytes (offsets : Offsets) : List Byte :=
  [0x10#8, 0x40#8, 0x2D#8, 0xE9#8] ++ [0x0F#8, 0xE0#8, 0xA0#8, 0xE1#8] ++
    [0x00#8, 0xF0#8, 0x1F#8, 0xE5#8] ++ [0x10#8, 0x80#8, 0xBD#8, 0xE8#8] ++
    wordBytes offsets.payload

/-- The destinations and the data of the calls of `dbg_write_memory`.
Source: `scripts/dbgupload.py` `copy_hbootdbg`, `patch_cmds` -/
def script (offsets : Offsets) (hbootdbgBin : List Byte) : List (Word × List Byte) :=
  [(offsets.payload, hbootdbgBin), (offsets.hbKeytestHook, patchBytes offsets),
    (offsets.fbOemHook, patchBytes offsets)]

variable {dest : Word} {data packet : List Byte} {p : Preloader.RequestPacket}

theorem writeRequest_eq (h : writeRequest dest data = some packet) :
    data.length < 2 ^ 32 ∧ packet =
      Preloader.cmdWriteMem :: (wordBytes dest ++ wordBytes (BitVec.ofNat 32 data.length)) := by
  have hlen : data.length < 2 ^ 32 := by
    by_contra hge
    have hnone : packI data.length = none := if_neg hge
    rw [writeRequest, concat, concat, concat, hnone] at h
    simp at h
  refine ⟨hlen, ?_⟩
  have hsize : packI data.length = some (wordBytes (BitVec.ofNat 32 data.length)) := if_pos hlen
  rw [writeRequest, concat, concat, concat, hsize, packI_toNat] at h
  exact (Option.some.inj h).symm

/-- The preloader finds the fields of the request. -/
theorem fields_writeRequest (h : writeRequest dest data = some packet)
    (hp : ∀ i < packet.length, p i = packet.getD i 0#8) :
    p 0 = Preloader.cmdWriteMem ∧ p.base = dest ∧ p.size = BitVec.ofNat 32 data.length := by
  obtain ⟨-, rfl⟩ := writeRequest_eq h
  have hlen : (Preloader.cmdWriteMem ::
      (wordBytes dest ++ wordBytes (BitVec.ofNat 32 data.length))).length = 9 := rfl
  have hbyte := fun (i : ℕ) (hi : i < 9) => hp i (hlen ▸ hi)
  refine ⟨hbyte 0 (by decide), ?_, ?_⟩
  · unfold Preloader.RequestPacket.base CmdBytes.word
    rw [hbyte 4 (by decide), hbyte 3 (by decide), hbyte 2 (by decide), hbyte 1 (by decide)]
    exact word_wordBytes dest
  · unfold Preloader.RequestPacket.size CmdBytes.word
    rw [hbyte 8 (by decide), hbyte 7 (by decide), hbyte 6 (by decide), hbyte 5 (by decide)]
    exact word_wordBytes _

/-- **The preloader copies the download**, and says so. -/
theorem myFbCmdOemDbg_writeRequest {memcpy : Memory → Word → Word → Word → Memory}
    {s : Preloader.State} (h : writeRequest dest data = some packet)
    (hp : ∀ i < packet.length, p i = packet.getD i 0#8) :
    Preloader.myFbCmdOemDbg memcpy s p = some
      { mem := memcpy s.mem dest 0x058D3000#32 (BitVec.ofNat 32 data.length)
        out := s.out ++ [Preloader.responsePacket Preloader.cmdWriteMem Preloader.errorSuccess] } := by
  obtain ⟨htype, hbase, hsize⟩ := fields_writeRequest h hp
  unfold Preloader.myFbCmdOemDbg
  rw [htype, if_neg (by decide), if_pos rfl, hbase, hsize]
  rfl

end Hbootdbg.Host
