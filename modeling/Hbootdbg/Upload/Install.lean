import Hbootdbg.Host.Dbgupload
import Hbootdbg.Lib.A32Code

/-!
# Installing the debugger

The preloader has put a veneer in place of `fb_cmd_oem`, which calls its handler for writes. The
writes of `dbgupload.py` go through that veneer, and the last of them replaces it while it is in
use.

* `Servable` — a call with which the compiled handler can do what its source says.
* `Bootloader` — what the phone brings along: its memory, its `memcpy`, and the compiled handler.
* `Entry`, `oem` — the bootloader calls the function for `oem`; the whole call, to its return.
* `Uploads` — a run of `dbg_write_memory` calls.
* `oem_write` — one write: the data are in place, and the bootloader goes on.
* `upload_installs` — the script: each of its writes returns, the last one too, and then both hooks
  call the debugger.
-/

namespace Hbootdbg.Upload

open Hbootdbg.Lib.ByteMem Hbootdbg.Lib.WordBlock Hbootdbg.Lib.A32Code Hbootdbg.Device Hbootdbg.Host

/-! ## The phone -/

/-- `PRELOAD_OEM_HANDLER_ADDR`. Source: `entrypoint.c` -/
def handlerAddr : Word := 0x8D0E0000#32

/-- `SIZEOF_FUNCTION`. Source: `entrypoint.c` -/
def sizeofFunction : ℕ := 0x1000

/-- The code that replaces `fb_cmd_oem`. Source: `entrypoint.c` `my_fb_cmd_oem` -/
def myFbCmdOem : List Word := veneer handlerAddr

/-- The argument register. -/
def r0 : Reg := ⟨0, by decide⟩

/-- A call of a function that ends with the memory `m`, but for what the phone uses for itself: it
returns, with the stack as it was, and leaves alone the words on top of it. -/
structure Handled (scratch : Set Word) (c c' : Cpu) (m : Memory) : Prop where
  returns : c'.r pc = c.r lr
  stack : c'.r sp = c.r sp
  mem : ∀ x, x ∉ scratch ∨ InSpan (c.r sp) 8 x → c'.mem x = m x

/-- A write that the compiled handler can serve, with `frame` bytes of stack and the result `m`: its
code is in place, its frame is the bootloader's and holds neither the argument nor the download, and
the write reaches neither the memory of the bootloader nor the handler itself. -/
structure Servable (scratch : Set Word) (frame : ℕ) (code : Word → Byte) (c : Cpu) (m : Memory) :
    Prop where
  called : c.r pc = handlerAddr
  code_in_place : ∀ x, InSpan handlerAddr sizeofFunction x → c.mem x = code x
  stack : ∀ x, InSpan (down (c.r sp) frame) frame x → x ∈ scratch
  write : c.mem (off (c.r r0) 0) = Preloader.cmdWriteMem
  argument : ∀ i < 9, ¬ InSpan (down (c.r sp) frame) frame (off (c.r r0) i)
  download : ∀ x, InSpan vision.preloader
    (Preloader.RequestPacket.size fun i => c.mem (off (c.r r0) i)).toNat x → x ∉ scratch
  keeps : ∀ x, x ∈ scratch ∨ InSpan handlerAddr sizeofFunction x → m x = c.mem x

/-- What the phone brings along. -/
structure Bootloader where
  /-- The memory that the bootloader uses for itself: stacks, buffers and data. -/
  scratch : Set Word
  /-- `__memcpy`. -/
  memcpy : Memory → Word → Word → Word → Memory
  /-- It copies between disjoint ranges. -/
  memcpy_eq : ∀ m dst src (n : Word), Apart dst n.toNat src n.toNat →
    memcpy m dst src n = copy m dst src n.toNat
  /-- The compiled code of `my_fb_cmd_oem_dbg`. -/
  code : Word → Byte
  /-- The bytes of stack that it uses. -/
  frame : ℕ
  /-- A call of it, with what it sends. -/
  call : Cpu → Cpu × List (List Byte)
  /-- Where it can, the code does what its source says. -/
  call_spec : ∀ c s, Servable scratch frame code c s.mem →
    Preloader.myFbCmdOemDbg memcpy ⟨c.mem, []⟩ (fun i => c.mem (off (c.r r0) i)) = some s →
    Handled scratch c (call c).1 s.mem ∧ (call c).2 = s.out

variable (L : Bootloader)

/-- A download of `data` has been received, and the bootloader is at the first instruction of the
function for `oem`, with a pointer to the argument and with room on its stack for the veneer and the
handler. Of the memory `m`, only what it uses for itself has changed. -/
structure Entry (m : Memory) (data packet : List Byte) (c : Cpu) : Prop where
  called : c.r pc = vision.fbOemHook
  sp_aligned : (c.r sp).toNat % 4 = 0
  lr_aligned : (c.r lr).toNat % 4 = 0
  stack : ∀ x, InSpan (down (c.r sp) 8) 8 x → x ∈ L.scratch
  room : ∀ x, InSpan (down (down (c.r sp) 8) L.frame) L.frame x → x ∈ L.scratch
  argument : ∀ i < packet.length, c.mem (off (c.r r0) i) = packet.getD i 0#8 ∧
    ¬ InSpan (down (c.r sp) 8) 8 (off (c.r r0) i) ∧
    ¬ InSpan (down (down (c.r sp) 8) L.frame) L.frame (off (c.r r0) i)
  downloaded : ∀ i < data.length, c.mem (off vision.preloader i) = data.getD i 0#8
  frame : ∀ x, x ∉ L.scratch → ¬ InSpan vision.preloader data.length x → c.mem x = m x

/-- The call of the function for `oem`, up to its return into the bootloader; `none` where it does
not get to the handler of the preloader, or not back. Source: `entrypoint.c` `my_fb_cmd_oem` -/
def oem (c : Cpu) : Option (Cpu × List (List Byte)) :=
  (run 3 c).bind fun c₁ =>
    if c₁.r pc = handlerAddr then (step (L.call c₁).1).map fun c' => (c', (L.call c₁).2) else none

/-- A run of `dbg_write_memory` calls, with the memory that the last of them leaves.
Source: `scripts/dbgupload.py` `dbg_write_memory` -/
inductive Uploads : Memory → List (Word × List Byte) → Memory → Prop
  | nil (m : Memory) : Uploads m [] m
  | cons {m m' : Memory} {dest : Word} {data packet : List Byte} {ws : List (Word × List Byte)}
      {c c' : Cpu} {out : List (List Byte)} (hreq : writeRequest dest data = some packet)
      (he : Entry L m data packet c) (hoem : oem L c = some (c', out))
      (h : Uploads c'.mem ws m') : Uploads m ((dest, data) :: ws) m'

/-- The preloader is in place. -/
structure Ready (m : Memory) : Prop where
  stub : Holds m vision.fbOemHook myFbCmdOem
  code : ∀ x, InSpan handlerAddr sizeofFunction x → m x = L.code x

/-- Downloads of `n` bytes and what the bootloader uses for itself do not meet the preloader, nor
each other. -/
structure Clear (n : ℕ) : Prop where
  stub : ∀ x, InSpan vision.fbOemHook 20 x → x ∉ L.scratch ∧ ¬ InSpan vision.preloader n x
  code : ∀ x, InSpan handlerAddr sizeofFunction x → x ∉ L.scratch ∧ ¬ InSpan vision.preloader n x
  download : ∀ x, InSpan vision.preloader n x → x ∉ L.scratch

/-- A write that leaves the preloader alone, or replaces its veneer with the patch. -/
structure Safe (n : ℕ) (dest : Word) (data : List Byte) : Prop where
  length : data.length ≤ n
  scratch : ∀ x, InSpan dest data.length x → x ∉ L.scratch
  download : Apart dest data.length vision.preloader n
  code : Apart handlerAddr sizeofFunction dest data.length
  stub : Apart vision.fbOemHook 20 dest data.length ∨
    dest = vision.fbOemHook ∧ data = patchBytes vision

/-- The memory with some bytes replaced. -/
abbrev written (m : Memory) (dest : Word) (data : List Byte) : Memory :=
  patch m dest data.length fun i => data.getD i 0#8

variable {L} {m m' : Memory} {dest : Word} {data packet : List Byte} {c c' : Cpu} {n : ℕ}
  {ws : List (Word × List Byte)}

/-! ## The preloader starts -/

/-- `entrypoint_preloader ()`, for the addresses of the string `"HACK"`, of `my_fb_cmd_oem_dbg` and
of `my_fb_cmd_oem` in the image of the preloader.
Source: `entrypoint.c` `entrypoint_preloader`, `replace_version`, `copy_preloader_functions`,
`hook_fb_cmd_oem` -/
def entrypointPreloader (L : Bootloader) (m : Memory) (version handler stub : Word) : Memory :=
  let m := L.memcpy m 0x8D000004#32 version 5#32
  let m := L.memcpy m handlerAddr handler (BitVec.ofNat 32 sizeofFunction)
  L.memcpy m vision.fbOemHook stub 72#32

/-- The three copies read nothing that they write. -/
structure Linked (version handler stub : Word) : Prop where
  version_copy : Apart 0x8D000004#32 5 version 5
  handler_copy : Apart handlerAddr sizeofFunction handler sizeofFunction
  handler_version : Apart handler sizeofFunction 0x8D000004#32 5
  stub_copy : Apart vision.fbOemHook 72 stub 72
  stub_version : Apart stub 72 0x8D000004#32 5
  stub_handler : Apart stub 72 handlerAddr sizeofFunction

theorem copy_of_not_inSpan {dst src x : Word} {k : ℕ} (hx : ¬ InSpan dst k x) :
    copy m dst src k x = m x := patch_of_not_inSpan hx

/-- A copied byte. -/
theorem copy_of_inSpan {dst src x : Word} {k : ℕ} (hx : InSpan dst k x) :
    copy m dst src k x = m (off src (x - dst).toNat) := patch_of_inSpan hx

theorem inSpan_off {a x b : Word} {k : ℕ} (hx : InSpan a k x) :
    InSpan b k (off b (x - a).toNat) := by
  unfold InSpan
  rwa [toNat_off_sub _ (x - a).isLt]

/-- **The preloader puts itself in place.** -/
theorem ready_entrypointPreloader {version handler stub : Word}
    (hlinked : Linked version handler stub) (hstub : Holds m stub myFbCmdOem)
    (hcode : ∀ x, InSpan handlerAddr sizeofFunction x →
      m (off handler (x - handlerAddr).toNat) = L.code x) :
    Ready L (entrypointPreloader L m version handler stub) := by
  have hcopies : entrypointPreloader L m version handler stub =
      copy (copy (copy m 0x8D000004#32 version 5) handlerAddr handler sizeofFunction)
        vision.fbOemHook stub 72 := by
    have hversion : ∀ m, L.memcpy m 0x8D000004#32 version 5#32 = copy m 0x8D000004#32 version 5 :=
      fun m => L.memcpy_eq m _ _ 5#32 hlinked.version_copy
    have hhandler : ∀ m, L.memcpy m handlerAddr handler (BitVec.ofNat 32 sizeofFunction) =
        copy m handlerAddr handler sizeofFunction :=
      fun m => L.memcpy_eq m _ _ (BitVec.ofNat 32 sizeofFunction) hlinked.handler_copy
    have hstub : ∀ m, L.memcpy m vision.fbOemHook stub 72#32 = copy m vision.fbOemHook stub 72 :=
      fun m => L.memcpy_eq m _ _ 72#32 hlinked.stub_copy
    simp only [entrypointPreloader, hversion, hhandler, hstub]
  rw [hcopies]
  constructor
  · intro i hi
    have hi' : i < 5 := hi
    have hread : ∀ x, InSpan stub 72 x →
        copy (copy m 0x8D000004#32 version 5) handlerAddr handler sizeofFunction x = m x := by
      intro x hx
      rw [copy_of_not_inSpan (hlinked.stub_handler.not_inSpan hx),
        copy_of_not_inSpan (hlinked.stub_version.not_inSpan hx)]
    rw [load32_copy (by omega) (by decide), ← hstub i hi]
    exact load32_congr (by decide) fun x hx => hread x (hx.of_off (by omega) (by decide))
  · intro x hx
    have hhook : ¬ InSpan vision.fbOemHook 72 x :=
      (show Apart handlerAddr sizeofFunction vision.fbOemHook 72 by decide).not_inSpan hx
    rw [copy_of_not_inSpan hhook, copy_of_inSpan hx,
      copy_of_not_inSpan (hlinked.handler_version.not_inSpan (inSpan_off hx)), hcode x hx]

/-! ## One write -/

theorem InSpan.mono {a x : Word} {k k' : ℕ} (h : InSpan a k x) (hk : k ≤ k') : InSpan a k' x :=
  lt_of_lt_of_le h hk

/-- The patch is a veneer to the payload. -/
theorem written_patchBytes (m : Memory) (a : Word) :
    written m a (patchBytes vision) = storeWords m a (veneer vision.payload) := by
  apply patch_congr
  intro i hi
  have hlen : (patchBytes vision).length = 20 := rfl
  rw [hlen] at hi
  revert i
  decide +kernel

/-- At the call, the preloader is in place. -/
theorem Ready.entry (h : Ready L m) (hclear : Clear L n) (hn : data.length ≤ n)
    (he : Entry L m data packet c) : Ready L c.mem := by
  have hkept : ∀ x, x ∉ L.scratch ∧ ¬ InSpan vision.preloader n x → c.mem x = m x := fun x hx =>
    he.frame x hx.1 fun hin => hx.2 (InSpan.mono hin hn)
  exact ⟨h.stub.congr (fun x hx => hkept x (hclear.stub x hx)) (by decide),
    fun x hx => (hkept x (hclear.code x hx)).trans (h.code x hx)⟩

/-- The frame of the veneer is on the stack of the bootloader. -/
theorem entered_mem (he : Entry L m data packet c) {t x : Word} (hx : x ∉ L.scratch) :
    (entered c t).mem x = c.mem x :=
  storeWords_of_not_inSpan fun hin => hx (he.stack x hin)

/-- The argument is where the handler looks for it. -/
theorem entered_argument (he : Entry L m data packet c) :
    ∀ i < packet.length,
      (entered c handlerAddr).mem (off ((entered c handlerAddr).r r0) i) = packet.getD i 0#8 := by
  intro i hi
  obtain ⟨hbyte, hout, -⟩ := he.argument i hi
  exact (storeWords_of_not_inSpan hout).trans hbyte

/-- **The handler can serve the write.** -/
theorem servable_entered (h : Ready L c.mem) (hclear : Clear L n) (hsafe : Safe L n dest data)
    (hreq : writeRequest dest data = some packet) (he : Entry L m data packet c) :
    Servable L.scratch L.frame L.code (entered c handlerAddr)
      (copy (entered c handlerAddr).mem dest vision.preloader data.length) := by
  obtain ⟨hwrite, -, hsize⟩ := fields_writeRequest
    (p := fun i => (entered c handlerAddr).mem (off ((entered c handlerAddr).r r0) i)) hreq
    (entered_argument he)
  have hlen : packet.length = 9 := by
    rw [(writeRequest_eq hreq).2]
    rfl
  refine ⟨rfl, fun x hx => ?_, he.room, hwrite, fun i hi => ?_, fun x hx => ?_, fun x hx => ?_⟩
  · exact (entered_mem he (hclear.code x hx).1).trans (h.code x hx)
  · exact (he.argument i (hlen.symm ▸ hi)).2.2
  · refine hclear.download x (InSpan.mono hx ?_)
    rw [hsize, BitVec.toNat_ofNat]
    exact (Nat.mod_le _ _).trans hsafe.length
  · refine copy_of_not_inSpan fun hin => ?_
    rcases hx with hx | hx
    · exact hsafe.scratch x hin hx
    · exact hsafe.code.not_inSpan hx hin

/-- **The handler is called with the argument**, and copies the download to its destination. -/
theorem handled_write (h : Ready L c.mem) (hclear : Clear L n) (hsafe : Safe L n dest data)
    (hreq : writeRequest dest data = some packet) (he : Entry L m data packet c) :
    run 3 c = some (entered c handlerAddr) ∧
      Handled L.scratch (entered c handlerAddr) (L.call (entered c handlerAddr)).1
        (copy (entered c handlerAddr).mem dest vision.preloader data.length) ∧
      (L.call (entered c handlerAddr)).2 =
        [Preloader.responsePacket Preloader.cmdWriteMem Preloader.errorSuccess] := by
  have hstack : Apart (c.r pc) 20 (down (c.r sp) 8) 8 := by
    rw [he.called]
    exact apart_of_forall (by decide) (by decide) fun x hx hin =>
      (hclear.stub x hx).1 (he.stack x hin)
  have hlen := (writeRequest_eq hreq).1
  have hsize : (BitVec.ofNat 32 data.length).toNat = data.length := by
    rw [BitVec.toNat_ofNat, Nat.mod_eq_of_lt hlen]
  have hcopy := L.memcpy_eq (entered c handlerAddr).mem dest vision.preloader
    (BitVec.ofNat 32 data.length) (by rw [hsize]; exact hsafe.download.mono le_rfl hsafe.length)
  rw [hsize] at hcopy
  have hserved : Preloader.myFbCmdOemDbg L.memcpy _ _ = some _ :=
    myFbCmdOemDbg_writeRequest (s := ⟨(entered c handlerAddr).mem, []⟩) hreq (entered_argument he)
  obtain ⟨hhandled, hout⟩ := L.call_spec (entered c handlerAddr) _
    (hcopy.symm ▸ servable_entered h hclear hsafe hreq he) hserved
  refine ⟨
    veneer_enter (he.called ▸ h.stub) (he.called ▸ by decide) he.sp_aligned (by decide) hstack,
    hcopy ▸ hhandled, hout⟩

/-- What is copied are the data. -/
theorem copy_eq_written (hclear : Clear L n) (hsafe : Safe L n dest data)
    (he : Entry L m data packet c) {x : Word} (hx : x ∉ L.scratch) :
    copy (entered c handlerAddr).mem dest vision.preloader data.length x =
      written c.mem dest data x := by
  by_cases hin : InSpan dest data.length x
  · have hi : (x - dest).toNat < data.length := hin
    have hdown : InSpan vision.preloader n (off vision.preloader (x - dest).toNat) := by
      unfold InSpan
      rw [toNat_off_sub _ (x - dest).isLt]
      exact hi.trans_le hsafe.length
    rw [copy, patch_of_inSpan hin, written, patch_of_inSpan hin,
      entered_mem he (hclear.download _ hdown)]
    exact he.downloaded _ hi
  · rw [copy, patch_of_not_inSpan hin, written, patch_of_not_inSpan hin, entered_mem he hx]

/-- The veneer can return: its last instruction is where it was, or is the same in the patch. -/
theorem return_in_place (h : Ready L c.mem) (hsafe : Safe L n dest data) :
    load32 (written c.mem dest data) (off vision.fbOemHook 12) = 0xE8BD8010#32 := by
  rcases hsafe.stub with hapart | ⟨rfl, rfl⟩
  · have hheld : Holds (written c.mem dest data) vision.fbOemHook myFbCmdOem :=
      h.stub.congr (fun x hx => patch_of_not_inSpan (hapart.not_inSpan hx)) (by decide)
    exact hheld.word (i := 3) rfl
  · rw [written_patchBytes]
    exact (holds_storeWords (by decide)).word (i := 3) rfl

/-- **One write**: the bootloader gets the response and goes on with what it preserved, and the data
are in place. -/
theorem oem_write (h : Ready L m) (hclear : Clear L n) (hsafe : Safe L n dest data)
    (hreq : writeRequest dest data = some packet) (he : Entry L m data packet c) :
    ∃ c', oem L c = some (c', [Preloader.responsePacket Preloader.cmdWriteMem
        Preloader.errorSuccess]) ∧ c'.r pc = c.r lr ∧ c'.r sp = c.r sp ∧ c'.r r4 = c.r r4 ∧
      ∀ x, x ∉ L.scratch → c'.mem x = written c.mem dest data x := by
  have hready := h.entry hclear hsafe.length he
  obtain ⟨hrun, hhandled, hout⟩ := handled_write hready hclear hsafe hreq he
  generalize hc₂ : (L.call (entered c handlerAddr)).1 = c₂ at hhandled
  have hmem : ∀ x, x ∉ L.scratch → c₂.mem x = written c.mem dest data x := fun x hx =>
    (hhandled.mem x (Or.inl hx)).trans (copy_eq_written hclear hsafe he hx)
  have hpc : c₂.r pc = off (c.r pc) 12 := hhandled.returns
  have hsp : c₂.r sp = down (c.r sp) 8 := hhandled.stack
  have hword : load32 c₂.mem (off (c.r pc) 12) = 0xE8BD8010#32 := by
    rw [he.called, ← return_in_place hready hsafe]
    exact load32_congr (by decide) fun x hx =>
      hmem x (hclear.stub x (hx.of_off (by decide) (by decide))).1
  have hframe : Holds c₂.mem (down (c.r sp) 8) [c.r r4, c.r lr] := by
    refine Holds.congr (holds_storeWords (m := c.mem) (show 8 ≤ 2 ^ 32 by decide))
      (fun x hx => ?_) (show 8 ≤ 2 ^ 32 by decide)
    rw [hhandled.mem x (Or.inr hx)]
    exact patch_of_not_inSpan fun hin => hsafe.scratch x hin (he.stack x hx)
  have hstep := veneer_return hpc hsp hword hframe he.sp_aligned he.lr_aligned
  refine ⟨returned c c₂, ?_, rfl, rfl, rfl, hmem⟩
  rw [oem, hrun, Option.bind_some, if_pos (entered_pc _ _), hc₂, hstep, hout, Option.map_some]

/-! ## Several writes -/

/-- What a write leaves of the memory before it. -/
theorem mem_of_oem (h : Ready L m) (hclear : Clear L n) (hsafe : Safe L n dest data)
    (hreq : writeRequest dest data = some packet) (he : Entry L m data packet c)
    {out : List (List Byte)} (hoem : oem L c = some (c', out)) {x : Word} (hx : x ∉ L.scratch)
    (hdown : ¬ InSpan vision.preloader n x) : c'.mem x = written m dest data x := by
  obtain ⟨d, hd, -, -, -, hmem⟩ := oem_write h hclear hsafe hreq he
  obtain ⟨rfl, -⟩ := Prod.mk.inj (Option.some.inj (hd.symm.trans hoem))
  rw [hmem x hx]
  by_cases hin : InSpan dest data.length x
  · rw [written, patch_of_inSpan hin, written, patch_of_inSpan hin]
  · rw [written, patch_of_not_inSpan hin, written, patch_of_not_inSpan hin]
    exact he.frame x hx fun hin' => hdown (InSpan.mono hin' hsafe.length)

/-- A write elsewhere leaves the preloader in place. -/
theorem Ready.of_write (h : Ready L m) (hclear : Clear L n) (hsafe : Safe L n dest data)
    (hapart : Apart vision.fbOemHook 20 dest data.length)
    (hmem : ∀ x, x ∉ L.scratch → ¬ InSpan vision.preloader n x → m' x = written m dest data x) :
    Ready L m' := by
  refine ⟨h.stub.congr (fun x hx => ?_) (by decide), fun x hx => ?_⟩
  · rw [hmem x (hclear.stub x hx).1 (hclear.stub x hx).2]
    exact patch_of_not_inSpan (hapart.not_inSpan hx)
  · rw [hmem x (hclear.code x hx).1 (hclear.code x hx).2, ← h.code x hx]
    exact patch_of_not_inSpan (hsafe.code.not_inSpan hx)

/-- The memory after some writes. -/
def writtenAll (m : Memory) (ws : List (Word × List Byte)) : Memory :=
  ws.foldl (fun m w => written m w.1 w.2) m

theorem writtenAll_congr (ws : List (Word × List Byte)) {x : Word} (hx : m x = m' x) :
    writtenAll m ws x = writtenAll m' ws x := by
  induction ws generalizing m m' with
  | nil => exact hx
  | cons w ws ih =>
      apply ih
      show written m w.1 w.2 x = written m' w.1 w.2 x
      by_cases hin : InSpan w.1 w.2.length x
      · rw [written, patch_of_inSpan hin, written, patch_of_inSpan hin]
      · rw [written, patch_of_not_inSpan hin, written, patch_of_not_inSpan hin, hx]

/-- **A run of writes** that leaves the preloader in place: it is still there, and the data are. -/
theorem Uploads.ready (h : Uploads L m ws m') (hready : Ready L m) (hclear : Clear L n)
    (hsafe : ∀ w ∈ ws, Safe L n w.1 w.2)
    (hapart : ∀ w ∈ ws, Apart vision.fbOemHook 20 w.1 w.2.length) :
    Ready L m' ∧ ∀ x, x ∉ L.scratch → ¬ InSpan vision.preloader n x →
      m' x = writtenAll m ws x := by
  induction h with
  | nil m => exact ⟨hready, fun _ _ _ => rfl⟩
  | cons hreq he hoem _ ih =>
      obtain ⟨hfirst, hrest⟩ := List.forall_mem_cons.mp hsafe
      obtain ⟨hapart₁, hapart₂⟩ := List.forall_mem_cons.mp hapart
      have hmem := fun x hx hdown => mem_of_oem (x := x) hready hclear hfirst hreq he hoem hx hdown
      obtain ⟨hready', hmem'⟩ :=
        ih (hready.of_write hclear hfirst hapart₁ hmem) hrest hapart₂
      refine ⟨hready', fun x hx hdown => ?_⟩
      rw [hmem' x hx hdown]
      exact writtenAll_congr _ (hmem x hx hdown)

theorem Uploads.append {ws' : List (Word × List Byte)} {m₁ : Memory} (h : Uploads L m ws m₁)
    (h' : Uploads L m₁ ws' m') : Uploads L m (ws ++ ws') m' := by
  induction h with
  | nil m => exact h'
  | cons hreq he hoem _ ih => exact .cons hreq he hoem (ih h')

theorem Uploads.split {ws' : List (Word × List Byte)} (h : Uploads L m (ws ++ ws') m') :
    ∃ m₁, Uploads L m ws m₁ ∧ Uploads L m₁ ws' m' := by
  induction ws generalizing m with
  | nil => exact ⟨m, .nil m, h⟩
  | cons w ws ih =>
      cases h with
      | cons hreq he hoem h =>
          obtain ⟨m₁, h₁, h₂⟩ := ih h
          exact ⟨m₁, .cons hreq he hoem h₁, h₂⟩

/-! ## The script -/

/-- Nothing of the upload is at the address. -/
structure Outside (hbootdbgBin : List Byte) (x : Word) : Prop where
  download : ¬ InSpan vision.preloader (max hbootdbgBin.length 20) x
  code : ¬ InSpan handlerAddr sizeofFunction x
  payload : ¬ InSpan vision.payload hbootdbgBin.length x
  keytest : ¬ InSpan vision.hbKeytestHook 20 x
  stub : ¬ InSpan vision.fbOemHook 20 x

/-- The debugger is in place, both hooks call it, and nothing else has changed but the download and
what the bootloader uses for itself. -/
structure Installed (L : Bootloader) (hbootdbgBin : List Byte) (m m' : Memory) : Prop where
  payload : ∀ i < hbootdbgBin.length, m' (off vision.payload i) = hbootdbgBin.getD i 0#8
  keytest : Holds m' vision.hbKeytestHook (veneer vision.payload)
  stub : Holds m' vision.fbOemHook (veneer vision.payload)
  frame : ∀ x, x ∉ L.scratch → ¬ InSpan vision.preloader (max hbootdbgBin.length 20) x →
    ¬ InSpan vision.payload hbootdbgBin.length x → ¬ InSpan vision.hbKeytestHook 20 x →
    ¬ InSpan vision.fbOemHook 20 x → m' x = m x

variable {hbootdbgBin : List Byte}

/-- The parts of the upload do not overlap. -/
theorem clear_vision (hbin : hbootdbgBin.length ≤ 0x72F1E000)
    (hscratch : ∀ x ∈ L.scratch, Outside hbootdbgBin x) : Clear L (max hbootdbgBin.length 20) := by
  have hstub : Apart vision.fbOemHook 20 vision.preloader (max hbootdbgBin.length 20) :=
    ⟨by decide, (show max hbootdbgBin.length 20 ≤ 0x8772F0C8 by omega).trans (by decide)⟩
  have hcode : Apart handlerAddr sizeofFunction vision.preloader (max hbootdbgBin.length 20) :=
    ⟨by decide, (show max hbootdbgBin.length 20 ≤ 0x8780D000 by omega).trans (by decide)⟩
  exact ⟨fun x hx => ⟨fun hin => (hscratch x hin).stub hx, hstub.not_inSpan hx⟩,
    fun x hx => ⟨fun hin => (hscratch x hin).code hx, hcode.not_inSpan hx⟩,
    fun x hx hin => (hscratch x hin).download hx⟩

theorem safe_payload (hbin : hbootdbgBin.length ≤ 0x72F1E000)
    (hscratch : ∀ x ∈ L.scratch, Outside hbootdbgBin x) :
    Safe L (max hbootdbgBin.length 20) vision.payload hbootdbgBin ∧
      Apart vision.fbOemHook 20 vision.payload hbootdbgBin.length := by
  have hstub : Apart vision.fbOemHook 20 vision.payload hbootdbgBin.length :=
    ⟨by decide, (show hbootdbgBin.length ≤ 0xFFF200C8 by omega).trans (by decide)⟩
  refine ⟨⟨le_max_left _ _, fun x hx hin => (hscratch x hin).payload hx, ?_, ?_, Or.inl hstub⟩,
    hstub⟩
  · exact ⟨hbin.trans (by decide), (show max hbootdbgBin.length 20 ≤ 0x8780F000 by omega).trans
      (by decide)⟩
  · exact ⟨by decide, (show hbootdbgBin.length ≤ 0xFFFFE000 by omega).trans (by decide)⟩

theorem safe_keytest (hscratch : ∀ x ∈ L.scratch, Outside hbootdbgBin x)
    (hbin : hbootdbgBin.length ≤ 0x72F1E000) :
    Safe L (max hbootdbgBin.length 20) vision.hbKeytestHook (patchBytes vision) ∧
      Apart vision.fbOemHook 20 vision.hbKeytestHook (patchBytes vision).length := by
  refine ⟨⟨le_max_right _ _, fun x hx hin => (hscratch x hin).keytest hx, ?_, by decide,
    Or.inl (by decide)⟩, by decide⟩
  exact ⟨by decide, (show max hbootdbgBin.length 20 ≤ 0x8773DDF0 by omega).trans (by decide)⟩

theorem safe_stub (hscratch : ∀ x ∈ L.scratch, Outside hbootdbgBin x)
    (hbin : hbootdbgBin.length ≤ 0x72F1E000) :
    Safe L (max hbootdbgBin.length 20) vision.fbOemHook (patchBytes vision) := by
  refine ⟨le_max_right _ _, fun x hx hin => (hscratch x hin).stub hx, ?_, by decide,
    Or.inr ⟨rfl, rfl⟩⟩
  exact ⟨by decide, (show max hbootdbgBin.length 20 ≤ 0x8772F0C8 by omega).trans (by decide)⟩

theorem storeWords_veneer {a t x : Word} (hx : ¬ InSpan a 20 x) :
    storeWords m a (veneer t) x = m x := storeWords_of_not_inSpan hx

/-- What the three writes leave. -/
theorem installed_of_writtenAll (hbin : hbootdbgBin.length ≤ 0x72F1E000)
    (hscratch : ∀ x ∈ L.scratch, Outside hbootdbgBin x)
    (hmem : ∀ x, x ∉ L.scratch → ¬ InSpan vision.preloader (max hbootdbgBin.length 20) x →
      m' x = writtenAll m (script vision hbootdbgBin) x) : Installed L hbootdbgBin m m' := by
  obtain ⟨hpayload, hsp⟩ := safe_payload hbin hscratch
  have hkeytest := (safe_keytest hscratch hbin).1
  have hstub := safe_stub hscratch hbin
  have hks : Apart vision.hbKeytestHook 20 vision.fbOemHook 20 := by decide
  have hkp : Apart vision.hbKeytestHook 20 vision.payload hbootdbgBin.length :=
    ⟨by decide, (show hbootdbgBin.length ≤ 0xFFF2EDF0 by omega).trans (by decide)⟩
  have hall : writtenAll m (script vision hbootdbgBin) =
      storeWords (storeWords (written m vision.payload hbootdbgBin) vision.hbKeytestHook
        (veneer vision.payload)) vision.fbOemHook (veneer vision.payload) := by
    rw [← written_patchBytes, ← written_patchBytes]
    rfl
  rw [hall] at hmem
  -- an address of a write is neither scratch nor download
  have hwrite : ∀ {dest : Word} {data : List Byte} {x : Word},
      Safe L (max hbootdbgBin.length 20) dest data → InSpan dest data.length x →
      m' x = storeWords (storeWords (written m vision.payload hbootdbgBin) vision.hbKeytestHook
        (veneer vision.payload)) vision.fbOemHook (veneer vision.payload) x := fun hsafe hx =>
    hmem _ (hsafe.scratch _ hx) (hsafe.download.not_inSpan hx)
  refine ⟨fun i hi => ?_, ?_, ?_, fun x hx hd hp hk hs => ?_⟩
  · have hin : InSpan vision.payload hbootdbgBin.length (off vision.payload i) := by
      unfold InSpan
      rwa [toNat_off_sub _ (by omega)]
    rw [hwrite hpayload hin, storeWords_veneer (hsp.symm.not_inSpan hin),
      storeWords_veneer (hkp.symm.not_inSpan hin)]
    exact patch_off hi (by omega)
  · refine Holds.congr (holds_storeWords (m := written m vision.payload hbootdbgBin) (by decide))
      (fun x hx => ?_) (by decide)
    rw [hwrite hkeytest hx, storeWords_veneer (hks.not_inSpan hx)]
  · exact Holds.congr (holds_storeWords (by decide)) (fun x hx => hwrite hstub hx) (by decide)
  · rw [hmem x hx hd, storeWords_veneer hs, storeWords_veneer hk, written, patch_of_not_inSpan hp]

/-- Every write of the script is safe, and all but the last leave the veneer alone. -/
theorem safe_script (hbin : hbootdbgBin.length ≤ 0x72F1E000)
    (hscratch : ∀ x ∈ L.scratch, Outside hbootdbgBin x) :
    (∀ w ∈ script vision hbootdbgBin, Safe L (max hbootdbgBin.length 20) w.1 w.2) ∧
      ∀ w ∈ (script vision hbootdbgBin).dropLast, Apart vision.fbOemHook 20 w.1 w.2.length := by
  have hpayload := safe_payload hbin hscratch
  have hkeytest := safe_keytest hscratch hbin
  refine ⟨fun w hw => ?_, fun w hw => ?_⟩
  · simp only [script, List.mem_cons, List.not_mem_nil, or_false] at hw
    rcases hw with rfl | rfl | rfl
    · exact hpayload.1
    · exact hkeytest.1
    · exact safe_stub hscratch hbin
  · simp only [script, List.dropLast_cons_cons, List.dropLast_singleton, List.mem_cons,
      List.not_mem_nil, or_false] at hw
    rcases hw with rfl | rfl
    · exact hpayload.2
    · exact hkeytest.2

/-- Before a write of the script, the preloader is in place. -/
theorem ready_before {rest : List (Word × List Byte)} {w : Word × List Byte} (h : Ready L m)
    (hbin : hbootdbgBin.length ≤ 0x72F1E000) (hscratch : ∀ x ∈ L.scratch, Outside hbootdbgBin x)
    (hsplit : script vision hbootdbgBin = ws ++ w :: rest) (hrun : Uploads L m ws m') :
    Ready L m' ∧ ∀ x, x ∉ L.scratch → ¬ InSpan vision.preloader (max hbootdbgBin.length 20) x →
      m' x = writtenAll m ws x := by
  obtain ⟨hsafe, hapart⟩ := safe_script hbin hscratch
  refine hrun.ready h (clear_vision hbin hscratch) (fun w' hw' => hsafe w' ?_)
    (fun w' hw' => hapart w' ?_)
  · rw [hsplit]
    exact List.mem_append_left _ hw'
  · rw [hsplit, List.dropLast_append_of_ne_nil (List.cons_ne_nil _ _)]
    exact List.mem_append_left _ hw'

/-- Where the preloader is in place, the upload installs the debugger. -/
theorem installs_of_ready (L : Bootloader) (m : Memory) (hbootdbgBin : List Byte) (h : Ready L m)
    (hbin : hbootdbgBin.length ≤ 0x72F1E000) (hscratch : ∀ x ∈ L.scratch, Outside hbootdbgBin x) :
    (∀ w ∈ script vision hbootdbgBin, (writeRequest w.1 w.2).isSome) ∧
    (∀ ws dest data rest m₁ packet c, script vision hbootdbgBin = ws ++ (dest, data) :: rest →
      Uploads L m ws m₁ → writeRequest dest data = some packet → Entry L m₁ data packet c →
      ∃ c', oem L c = some (c', [Preloader.responsePacket Preloader.cmdWriteMem
          Preloader.errorSuccess]) ∧ c'.r pc = c.r lr ∧ c'.r sp = c.r sp ∧ c'.r r4 = c.r r4) ∧
    ∀ m', Uploads L m (script vision hbootdbgBin) m' →
      Installed L hbootdbgBin m m' ∧
      ∀ c, (c.r pc = vision.fbOemHook ∨ c.r pc = vision.hbKeytestHook) →
        (∀ x, InSpan (c.r pc) 20 x → c.mem x = m' x) → (c.r sp).toNat % 4 = 0 →
        (∀ x, InSpan (down (c.r sp) 8) 8 x → x ∈ L.scratch) →
        run 3 c = some (entered c vision.payload) := by
  have hclear := clear_vision hbin hscratch
  obtain ⟨hsafe, -⟩ := safe_script hbin hscratch
  refine ⟨fun w hw => ?_, ?_, fun m' hrun => ?_⟩
  · have hlen : w.2.length < 2 ^ 32 := lt_of_le_of_lt (hsafe w hw).length (by omega)
    rw [writeRequest, concat, concat, concat, packI_toNat, packI, if_pos hlen]
    rfl
  · intro ws dest data rest m₁ packet c hsplit hrun hreq he
    have hready := (ready_before h hbin hscratch hsplit hrun).1
    have hw : (dest, data) ∈ script vision hbootdbgBin := by
      rw [hsplit]
      exact List.mem_append_right _ List.mem_cons_self
    obtain ⟨c', hc', hpc, hsp, hr4, -⟩ := oem_write hready hclear (hsafe _ hw) hreq he
    exact ⟨c', hc', hpc, hsp, hr4⟩
  · have hsplit : script vision hbootdbgBin =
        [(vision.payload, hbootdbgBin), (vision.hbKeytestHook, patchBytes vision)] ++
          [(vision.fbOemHook, patchBytes vision)] := rfl
    rw [hsplit] at hrun
    obtain ⟨m₁, hrun₁, hrun₂⟩ := hrun.split
    obtain ⟨hready₁, hmem₁⟩ := ready_before h hbin hscratch hsplit hrun₁
    have hinstalled : Installed L hbootdbgBin m m' := by
      refine installed_of_writtenAll hbin hscratch fun x hx hdown => ?_
      cases hrun₂ with
      | cons hreq he hoem hnil =>
          cases hnil with
          | nil =>
              rw [mem_of_oem hready₁ hclear (safe_stub hscratch hbin) hreq he hoem hx hdown]
              exact writtenAll_congr [(vision.fbOemHook, patchBytes vision)]
                (hmem₁ x hx hdown)
    refine ⟨hinstalled, fun c hpc hmem hsp hstack => ?_⟩
    have hapart : ∀ x, InSpan (c.r pc) 20 x → ¬ InSpan (down (c.r sp) 8) 8 x := by
      intro x hx hin
      have hout := hscratch x (hstack x hin)
      rcases hpc with hpc | hpc
      · exact hout.stub (hpc ▸ hx)
      · exact hout.keytest (hpc ▸ hx)
    have hheld : Holds c.mem (c.r pc) (veneer vision.payload) := by
      rcases hpc with hpc | hpc
      · rw [hpc] at hmem ⊢
        exact hinstalled.stub.congr hmem (by decide)
      · rw [hpc] at hmem ⊢
        exact hinstalled.keytest.congr hmem (by decide)
    refine veneer_enter hheld ?_ hsp (by decide) (apart_of_forall (by decide) (by decide) hapart)
    rcases hpc with hpc | hpc
    · rw [hpc]
      decide
    · rw [hpc]
      decide

/-- **The upload installs the debugger**, from the first instruction of the preloader. Every write
of the script can be requested; wherever the run has got to, the bootloader gets the response to the
next write and goes on where it was, even though the last write replaces the function that it is
called through. After the script, the debugger and the two patches are in place, nothing else has
changed, and a call of either function enters the debugger with the registers of the call. -/
theorem upload_installs (L : Bootloader) (m : Memory) (version handler stub : Word)
    (hbootdbgBin : List Byte) (hlinked : Linked version handler stub) (hstub : Holds m stub myFbCmdOem)
    (hcode : ∀ x, InSpan handlerAddr sizeofFunction x →
      m (off handler (x - handlerAddr).toNat) = L.code x)
    (hbin : hbootdbgBin.length ≤ 0x72F1E000) (hscratch : ∀ x ∈ L.scratch, Outside hbootdbgBin x) :
    (∀ w ∈ script vision hbootdbgBin, (writeRequest w.1 w.2).isSome) ∧
    (∀ ws dest data rest m₁ packet c, script vision hbootdbgBin = ws ++ (dest, data) :: rest →
      Uploads L (entrypointPreloader L m version handler stub) ws m₁ →
      writeRequest dest data = some packet → Entry L m₁ data packet c →
      ∃ c', oem L c = some (c', [Preloader.responsePacket Preloader.cmdWriteMem
          Preloader.errorSuccess]) ∧ c'.r pc = c.r lr ∧ c'.r sp = c.r sp ∧ c'.r r4 = c.r r4) ∧
    ∀ m', Uploads L (entrypointPreloader L m version handler stub) (script vision hbootdbgBin) m' →
      Installed L hbootdbgBin (entrypointPreloader L m version handler stub) m' ∧
      ∀ c, (c.r pc = vision.fbOemHook ∨ c.r pc = vision.hbKeytestHook) →
        (∀ x, InSpan (c.r pc) 20 x → c.mem x = m' x) → (c.r sp).toNat % 4 = 0 →
        (∀ x, InSpan (down (c.r sp) 8) 8 x → x ∈ L.scratch) →
        run 3 c = some (entered c vision.payload) :=
  installs_of_ready L _ hbootdbgBin (ready_entrypointPreloader hlinked hstub hcode) hbin hscratch

/-! ## Examples -/

/-- What the bootloader of the example uses for itself: a stack that ends at `0x8D200080`, and the
argument behind it. -/
def scratchSample : Set Word := {x | InSpan 0x8D200000#32 0x100 x}

/-- A bootloader whose copy of the handler is all zeros. -/
def bootloaderSample : Bootloader where
  scratch := scratchSample
  memcpy m dst src n := copy m dst src n.toNat
  memcpy_eq _ _ _ _ _ := rfl
  code _ := 0#8
  frame := 16
  call c :=
    match Preloader.myFbCmdOemDbg (fun m dst src n => copy m dst src n.toNat) ⟨c.mem, []⟩
      (fun i => c.mem (off (c.r r0) i)) with
    | some s => (⟨Function.update c.r pc (c.r lr), s.mem⟩, s.out)
    | none => (c, [])
  call_spec c s _ h := by
    rw [h]
    show Handled scratchSample c ⟨Function.update c.r pc (c.r lr), s.mem⟩ s.mem ∧ s.out = s.out
    have hsp : sp ≠ pc := by decide
    refine ⟨⟨?_, ?_, fun _ _ => rfl⟩, rfl⟩
    · simp only [Function.update_self]
    · simp only [Function.update_of_ne hsp]

/-- The image of a preloader: its veneer is at `0x058D3100`. -/
def imageSample : Memory := storeWords (fun _ => 0#8) 0x058D3100#32 myFbCmdOem

theorem outside_scratchSample :
    ∀ x ∈ scratchSample, Outside [0xfe#8, 0xff#8, 0xff#8, 0xea#8] x := by
  have hapart : ∀ {a x : Word} {k : ℕ}, Apart 0x8D200000#32 0x100 a k → x ∈ scratchSample →
      ¬ InSpan a k x := fun h hx => h.not_inSpan hx
  exact fun x hx => ⟨hapart (by decide) hx, hapart (by decide) hx, hapart (by decide) hx,
    hapart (by decide) hx, hapart (by decide) hx⟩

/-- The registers of the call: the argument and the end of the stack are at `0x8D200080`. -/
def registersSample (i : Reg) : Word :=
  if i = pc then vision.fbOemHook else if i = lr then 0x8D000000#32 else 0x8D200080#32

/-- This bootloader can be at the call of the function for `oem`. -/
theorem exists_entry (m : Memory) {data packet : List Byte} (hdata : data.length ≤ 20)
    (hpacket : packet.length ≤ 16) : ∃ c, Entry bootloaderSample m data packet c := by
  have hargument : ∀ x, InSpan 0x8D200080#32 packet.length x → InSpan 0x8D200080#32 16 x :=
    fun x hx => InSpan.mono hx hpacket
  have hout : ∀ x, x ∉ scratchSample → ¬ InSpan 0x8D200080#32 packet.length x := fun x hx hin =>
    hx (InSpan.of_off (o := 0x80) (s := 0x8D200000#32) (hargument x hin) (by decide) (by decide))
  have hin : ∀ {a : Word} {i k : ℕ}, i < k → k ≤ 20 → InSpan a k (off a i) := by
    intro a i k hi hk
    unfold InSpan
    rwa [toNat_off_sub _ (by omega)]
  have hpc : registersSample pc = vision.fbOemHook := by decide
  have hsp : registersSample sp = 0x8D200080#32 := by decide
  have hlr : (registersSample lr).toNat % 4 = 0 := by decide
  have hr0 : registersSample r0 = 0x8D200080#32 := by decide
  obtain ⟨c, hr, hmem⟩ : ∃ c : Cpu, c.r = registersSample ∧
      c.mem = written (written m vision.preloader data) 0x8D200080#32 packet := ⟨⟨_, _⟩, rfl, rfl⟩
  refine ⟨c, hr ▸ hpc, ?_, hr ▸ hlr, fun x hx => ?_, fun x hx => ?_, fun i hi => ⟨?_, ?_, ?_⟩,
    fun i hi => ?_, fun x hx hdown => ?_⟩
  · rw [hr, hsp]
    decide
  · rw [hr, hsp] at hx
    exact InSpan.of_off (o := 0x78) (s := 0x8D200000#32) hx (by decide) (by decide)
  · rw [hr, hsp] at hx
    exact InSpan.of_off (o := 0x68) (s := 0x8D200000#32) hx (by decide) (by decide)
  · rw [hr, hr0, hmem]
    exact patch_off hi (by omega)
  · rw [hr, hr0, hsp]
    exact (show Apart 0x8D200080#32 16 0x8D200078#32 8 by decide).not_inSpan
      (hargument _ (hin hi (by omega)))
  · rw [hr, hr0, hsp]
    exact (show Apart 0x8D200080#32 16 0x8D200068#32 16 by decide).not_inSpan
      (hargument _ (hin hi (by omega)))
  · have hdownload : off vision.preloader i ∉ scratchSample :=
      (show Apart vision.preloader 20 0x8D200000#32 0x100 by decide).not_inSpan
        (InSpan.mono (hin hi hdata) hdata)
    rw [hmem, written, patch_of_not_inSpan (hout _ hdownload)]
    exact patch_off hi (by omega)
  · rw [hmem, written, patch_of_not_inSpan (hout x hx), written, patch_of_not_inSpan hdown]

/-- The preloader of the example has been started. -/
abbrev preloadedSample : Memory :=
  entrypointPreloader bootloaderSample imageSample 0x058D3080#32 0x058D3400#32 0x058D3100#32

/-- A debugger of one word is installed. -/
theorem upload_installs_sample :
    ∃ m', Uploads bootloaderSample preloadedSample
        (script vision [0xfe#8, 0xff#8, 0xff#8, 0xea#8]) m' ∧
      Installed bootloaderSample [0xfe#8, 0xff#8, 0xff#8, 0xea#8] preloadedSample m' := by
  have hcode : ∀ x, InSpan handlerAddr sizeofFunction x →
      imageSample (off 0x058D3400#32 (x - handlerAddr).toNat) = 0#8 := fun x hx =>
    storeWords_of_not_inSpan ((show Apart 0x058D3400#32 sizeofFunction 0x058D3100#32 20 by
      decide).not_inSpan (inSpan_off hx))
  have hinstalls := upload_installs bootloaderSample imageSample 0x058D3080#32 0x058D3400#32
    0x058D3100#32 [0xfe#8, 0xff#8, 0xff#8, 0xea#8]
    ⟨by decide, by decide, by decide, by decide, by decide, by decide⟩
    (holds_storeWords (by decide)) hcode (by decide) outside_scratchSample
  obtain ⟨hrequests, hwrites, hinstalled⟩ := hinstalls
  -- wherever the run has got to, the next write can be made
  have hnext : ∀ ws w rest m₁,
      script vision [0xfe#8, 0xff#8, 0xff#8, 0xea#8] = ws ++ w :: rest →
      Uploads bootloaderSample preloadedSample ws m₁ → ∃ m₂,
        Uploads bootloaderSample preloadedSample (ws ++ [w]) m₂ := by
    intro ws w rest m₁ hsplit hrun
    have hw : w ∈ script vision [0xfe#8, 0xff#8, 0xff#8, 0xea#8] := by
      rw [hsplit]
      exact List.mem_append_right _ List.mem_cons_self
    have hlen : ∀ w ∈ script vision [0xfe#8, 0xff#8, 0xff#8, 0xea#8], w.2.length ≤ 20 := by decide
    obtain ⟨packet, hreq⟩ := Option.isSome_iff_exists.mp (hrequests w hw)
    have hpacket : packet.length ≤ 16 := by
      rw [(writeRequest_eq hreq).2]
      exact show 9 ≤ 16 by decide
    obtain ⟨c, he⟩ := exists_entry m₁ (hlen w hw) hpacket
    obtain ⟨c', hc', -⟩ := hwrites ws w.1 w.2 rest m₁ packet c hsplit hrun hreq he
    exact ⟨c'.mem, hrun.append (.cons hreq he hc' (.nil _))⟩
  obtain ⟨m₁, h₁⟩ := hnext [] _ _ _ rfl (.nil _)
  obtain ⟨m₂, h₂⟩ := hnext [_] _ _ _ rfl h₁
  obtain ⟨m₃, h₃⟩ := hnext [_, _] _ _ _ rfl h₂
  exact ⟨m₃, h₃, (hinstalled m₃ h₃).1⟩

end Hbootdbg.Upload
