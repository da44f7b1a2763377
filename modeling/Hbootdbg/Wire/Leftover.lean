import Hbootdbg.Wire.Bounds
import Hbootdbg.Session.Serve

/-!
# What is left over from earlier packets

`buf` and `decoded_buf` are not cleared between packets, and neither the length of a packet nor that
of its decoding is looked at again.

* `Packet` — what `__usb_recv` can hand over; `Packet.text`, `Packet.command` — what it carries.
* `bytesNeeded` — the bytes of the command object that the handler of its type reads.
* `SameButLeftovers` — two stops that differ in the contents of the two buffers alone;
  `SameEffect` — two outcomes that do.
* `OwnPacketOnly` — the effect of a packet is its own, and a packet too short for its command is
  rejected.
* `serve_congr` — a command depends on `bytesNeeded` bytes of its object.
* `ownPacketOnly_iff` — a packet is served on its own iff it contains the NUL that ends its text,
  and its command is complete.
-/

namespace Hbootdbg.Wire

open Hbootdbg.Lib.ByteMem Hbootdbg.Lib.Run Hbootdbg.Device Hbootdbg.Session

/-! ## Packets -/

/-- What `__usb_recv (buf, sizeof (buf))` hands over when it returns.
Source: `dbg.c` `breakpoint_handler` -/
structure Packet where
  /-- The bytes. -/
  bytes : List Byte
  /-- The loop polls until there is one. -/
  pos : 0 < bytes.length
  /-- They fit. -/
  le : bytes.length ≤ sizeofBuf

/-- The bytes after `"oem "` or `"keytest "`. -/
def Packet.text (p : Packet) : List Byte := p.bytes.drop (payloadOffset (p.bytes.getD 0 0#8))

/-- The text is a string: a NUL ends it inside the packet. -/
def Packet.Terminated (p : Packet) : Prop := 0#8 ∈ p.text

instance (p : Packet) : Decidable p.Terminated := inferInstanceAs (Decidable (_ ∈ _))

/-- The characters before the NUL, or to the end of the packet. -/
def Packet.textLength (p : Packet) : ℕ := p.text.idxOf 0#8

/-- The number of bytes of a command that the packet carries. -/
def Packet.size (p : Packet) : ℕ := decodedLength p.textLength

/-- These bytes, over zeros. -/
def Packet.command (p : Packet) : CmdBytes := fun i =>
  if i < p.size then decodedByte (fun j => p.text.getD j 0#8) i else 0#8

/-- The bytes that the handler of a command reads: the type, and the fields of its struct.
Source: `dbg.c` `cmd_dispatcher`, `dbg.h` `command` -/
def bytesNeeded (c : CmdBytes) : ℕ :=
  match kind c with
  | some .read => 10
  | some .write => 10 + c.size.toNat
  | some .insertBreakpoint | some .removeBreakpoint => 7
  | some .call => 22
  | some .flashlight => 6
  | some .undefined | none => 0
  | some _ => 1

/-- The packet ends before the command does. -/
def Packet.TooShort (p : Packet) : Prop := p.size < bytesNeeded p.command

/-! ## Effects -/

/-- Everything is the same but the contents of the two buffers. -/
structure SameButLeftovers (s s' : Stopped) : Prop where
  mem : s.dev.mem = s'.dev.mem
  ctx : s.dev.ctx = s'.dev.ctx
  out : s.dev.out = s'.dev.out
  beyondBuf : ∀ i, sizeofBuf ≤ i → s.buf i = s'.buf i
  beyondDecodedBuf : ∀ i, sizeofBuf ≤ i → s.dev.cmd i = s'.dev.cmd i

/-- Two outcomes with the same effect outside the two buffers. An access outside the buffers has no
defined effect. -/
inductive SameEffect : Outcome → Outcome → Prop
  | waiting {s s' : Stopped} (h : SameButLeftovers s s') : SameEffect (.waiting s) (.waiting s')
  | returned {s s' : Stopped} (h : SameButLeftovers s s') : SameEffect (.returned s) (.returned s')
  | hangs : SameEffect .hangs .hangs

/-- The packet was answered with an error, and nothing else happened. -/
def Rejected (s : Stopped) (o : Outcome) : Prop :=
  ∃ s', (o = .waiting s' ∨ o = .returned s') ∧ s'.dev.mem = s.dev.mem ∧ s'.dev.ctx = s.dev.ctx ∧
    ∃ (t : Byte) (e : ErrorCode), e ≠ .success ∧
      s'.dev.out = s.dev.out ++ [.usbSend [t, e.code]]

/-- The effect of the packet does not depend on the contents of the two buffers, and the packet is
rejected if it is too short. -/
def OwnPacketOnly (B : Board) (p : Packet) : Prop :=
  ∀ s s', SameButLeftovers s s' →
    SameEffect (handlerIteration B s p.bytes) (handlerIteration B s' p.bytes) ∧
      (p.TooShort → Rejected s (handlerIteration B s p.bytes))

variable {B : Board} {p : Packet} {d : Dev} {c c' : CmdBytes} {s s' : Stopped} {n : ℕ}

/-! ## What a command depends on -/

theorem word_congr {o : ℕ} (h : ∀ i < n, c i = c' i) (ho : o + 4 ≤ n) :
    CmdBytes.word c o = CmdBytes.word c' o := by
  unfold CmdBytes.word
  rw [h (o + 3) (by omega), h (o + 2) (by omega), h (o + 1) (by omega), h o (by omega)]

theorem memcpyIn_congr {m : Memory} {a : Word} {f g : ℕ → Byte} (h : ∀ i < n, f i = g i) :
    memcpyIn m a f n = memcpyIn m a g n := by
  induction n with
  | zero => rfl
  | succ n ih => rw [memcpyIn, memcpyIn, ih fun i hi => h i (by omega), h n (by omega)]

/-- Two results of a command with the same effect. -/
def SameResult (r r' : Option Dev) : Prop :=
  (r = none ∧ r' = none) ∨ ∃ e e', r = some e ∧ r' = some e' ∧
    e.mem = e'.mem ∧ e.ctx = e'.ctx ∧ e.out = e'.out

theorem sameResult_of_eq {m : Memory} {x : Option Context} {o : List Out} {r r' : Option Dev}
    (h : ∃ e, r = some e ∧ e.mem = m ∧ e.ctx = x ∧ e.out = o)
    (h' : ∃ e, r' = some e ∧ e.mem = m ∧ e.ctx = x ∧ e.out = o) : SameResult r r' := by
  obtain ⟨e, he, hm, hx, ho⟩ := h
  obtain ⟨e', he', hm', hx', ho'⟩ := h'
  exact Or.inr ⟨e, e', he, he', hm.trans hm'.symm, hx.trans hx'.symm, ho.trans ho'.symm⟩

/-- The number of bytes needed is found in these bytes. -/
theorem bytesNeeded_congr (h0 : c 0 = c' 0) (h : ∀ i < bytesNeeded c, c i = c' i) :
    bytesNeeded c' = bytesNeeded c := by
  have hkind : kind c' = kind c := congrArg CmdType.ofCode h0.symm
  by_cases hw : kind c = some .write
  · have hn : bytesNeeded c = 10 + c.size.toNat := by simp [bytesNeeded, hw]
    have hsize : c'.size = c.size := (word_congr h (by omega)).symm
    simp [bytesNeeded, hkind, hw, hsize]
  · unfold bytesNeeded
    rw [hkind]
    cases hk : kind c with
    | none => rfl
    | some t =>
        cases t with
        | write => exact absurd hk hw
        | _ => rfl

/-- A write depends on its address, its size and its data. -/
theorem serve_congr_write (hk : kind c = some .write) (hk' : kind c' = some .write)
    (haddr : c'.addr = c.addr) (hsize : c'.size = c.size)
    (hdata : ∀ i < c.size.toNat, c'.data i = c.data i) :
    SameResult (serve B (some d) c) (serve B (some d) c') := by
  have htype := (type_of_kind hk).trans (type_of_kind hk').symm
  rw [serve_eq_cmdWrite hk, serve_eq_cmdWrite hk']
  unfold cmdWrite
  simp only [haddr, hsize, memcpyIn_congr hdata]
  cases mmuProbeRead B d.mem c.addr c.size with
  | false =>
      simp only [Bool.false_eq_true, if_false]
      exact sameResult_of_eq ⟨_, rfl, rfl, rfl, cmdError_out _ _⟩
        ⟨_, rfl, rfl, rfl, (cmdError_out _ _).trans (by simp only [htype])⟩
  | true =>
      simp only [if_true]
      cases mmuInvalidateCacheRange B c.addr c.size with
      | none => exact Or.inl ⟨rfl, rfl⟩
      | some lines =>
          exact sameResult_of_eq ⟨_, rfl, rfl, rfl, cmdSuccess_out _⟩
            ⟨_, rfl, rfl, rfl, (cmdSuccess_out _).trans (by simp only [htype])⟩

/-- **A command depends on `bytesNeeded` bytes of its object.** -/
theorem serve_congr (h0 : c 0 = c' 0) (h : ∀ i < bytesNeeded c, c i = c' i) :
    SameResult (serve B (some d) c) (serve B (some d) c') := by
  have hkind : kind c' = kind c := congrArg CmdType.ofCode h0.symm
  have hword : ∀ o, o + 4 ≤ bytesNeeded c → CmdBytes.word c' o = CmdBytes.word c o :=
    fun o ho => (word_congr h ho).symm
  have haddr : 6 ≤ bytesNeeded c → c'.addr = c.addr := fun hn => hword 2 hn
  cases hk : kind c with
  | none =>
      have hs := serve_unknown (B := B) (d := d) (hkind.trans hk)
      rw [show c'.type = c.type from h0.symm] at hs
      exact sameResult_of_eq (serve_unknown hk) hs
  | some t =>
      have hk' := hkind.trans hk
      cases t with
      | undefined => exact absurd hk kind_ne_undefined
      | attach => exact sameResult_of_eq (serve_attach hk) (serve_attach hk')
      | detach => exact sameResult_of_eq (serve_detach hk) (serve_detach hk')
      | read =>
          have hn : bytesNeeded c = 10 := by simp [bytesNeeded, hk]
          have hs := serve_read (B := B) (d := d) hk'
          rw [haddr (by omega), show c'.size = c.size from hword 6 (by omega)] at hs
          exact sameResult_of_eq (serve_read hk) hs
      | write =>
          have hn : bytesNeeded c = 10 + c.size.toNat := by simp [bytesNeeded, hk]
          exact serve_congr_write hk hk' (haddr (by omega)) (hword 6 (by omega)) fun i hi =>
            (h (10 + i) (by omega)).symm
      | insertBreakpoint =>
          have hn : bytesNeeded c = 7 := by simp [bytesNeeded, hk]
          have hs := serve_insert (B := B) (d := d) hk'
          rw [haddr (by omega), show c'.bpType = c.bpType from (h 6 (by omega)).symm] at hs
          exact sameResult_of_eq (serve_insert hk) hs
      | removeBreakpoint =>
          have hn : bytesNeeded c = 7 := by simp [bytesNeeded, hk]
          have hs := serve_remove (B := B) (d := d) hk'
          rw [haddr (by omega), show c'.bpType = c.bpType from (h 6 (by omega)).symm] at hs
          exact sameResult_of_eq (serve_remove hk) hs
      | breakpointContinue =>
          cases hctx : d.ctx with
          | none =>
              exact sameResult_of_eq (serve_continue_null hk hctx) (serve_continue_null hk' hctx)
          | some ctx => exact sameResult_of_eq (serve_continue hk hctx) (serve_continue hk' hctx)
      | getRegisters => exact sameResult_of_eq (serve_getRegisters hk) (serve_getRegisters hk')
      | call =>
          have hn : bytesNeeded c = 22 := by simp [bytesNeeded, hk]
          have harg : ∀ i < 4, c'.arg i = c.arg i := fun i hi => hword (6 + 4 * i) (by omega)
          have hs := serve_call (B := B) (d := d) hk'
          rw [haddr (by omega), harg 0 (by omega), harg 1 (by omega), harg 2 (by omega),
            harg 3 (by omega)] at hs
          exact sameResult_of_eq (serve_call hk) hs
      | fastbootReboot =>
          exact sameResult_of_eq (serve_fastbootReboot hk) (serve_fastbootReboot hk')
      | breakpoint => exact sameResult_of_eq (serve_breakpoint hk) (serve_breakpoint hk')
      | flashlight =>
          have hn : bytesNeeded c = 6 := by simp [bytesNeeded, hk]
          have hs := serve_flashlight (B := B) (d := d) hk'
          rw [show c'.time = c.time from hword 2 (by omega)] at hs
          exact sameResult_of_eq (serve_flashlight hk) hs

/-- **Two commands that agree on what is needed leave outcomes with the same effect.** -/
theorem sameEffect_afterCommand (hs : SameButLeftovers s s') (h0 : c 0 = c' 0)
    (h : ∀ i < bytesNeeded c, c i = c' i) (hc : ∀ i, sizeofBuf ≤ i → c i = c' i)
    {buf buf' : ℕ → Byte} (hbuf : ∀ i, sizeofBuf ≤ i → buf i = buf' i) :
    SameEffect (afterCommand buf (serve B (some s.dev) c))
      (afterCommand buf' (serve B (some s'.dev) c')) := by
  have hdev : serve B (some s'.dev) c' = serve B (some s.dev) c' := by
    unfold serve
    simp only [Option.bind_some, hs.mem, hs.ctx, hs.out]
  rw [hdev]
  rcases serve_congr (B := B) (d := s.dev) h0 h with
    ⟨he, he'⟩ | ⟨e, e', he, he', hmem, hctx, hout⟩
  · rw [he, he']
    exact .hangs
  · rw [he, he']
    have hcmd := fun i hi => serve_cmd (i := i) he hi
    have hcmd' := fun i hi => serve_cmd (i := i) he' hi
    have htype : e.cmd.type = e'.cmd.type :=
      (hcmd 0 (by decide)).trans (h0.trans (hcmd' 0 (by decide)).symm)
    have hsame : SameButLeftovers ⟨e, buf⟩ ⟨e', buf'⟩ := by
      refine ⟨hmem, hctx, hout, hbuf, fun i hi => ?_⟩
      have hi1 : i ≠ 1 := by
        unfold sizeofBuf at hi
        omega
      exact (hcmd i hi1).trans ((hc i hi).trans (hcmd' i hi1).symm)
    unfold afterCommand
    simp only [htype]
    split_ifs
    · exact .returned hsame
    · exact .waiting hsame

/-! ## Packets that end their text -/

theorem usbRecv_of_lt {packet : List Byte} {buf : ℕ → Byte} {i : ℕ} (hi : i < packet.length) :
    usbRecv packet buf i = packet.getD i 0#8 := by
  unfold usbRecv
  rw [List.getD_eq_getElem _ _ hi, List.getD_eq_getElem _ _ hi]

theorem usbRecv_of_le {packet : List Byte} {buf : ℕ → Byte} {i : ℕ} (hi : packet.length ≤ i) :
    usbRecv packet buf i = buf i := List.getD_eq_default _ _ hi

/-- The payload is the text of the packet, as far as it goes. -/
theorem payload_usbRecv {buf : ℕ → Byte} {i : ℕ} (hi : i < p.text.length) :
    payload (usbRecv p.bytes buf) i = p.text.getD i 0#8 := by
  unfold Packet.text at hi ⊢
  rw [List.length_drop] at hi
  unfold payload
  rw [usbRecv_of_lt p.pos, usbRecv_of_lt (by omega)]
  simp only [List.getD_eq_getElem?_getD, List.getElem?_drop]

/-- The search for the NUL ends where the text does. -/
theorem strlen_payload (h : p.Terminated) (buf : ℕ → Byte) :
    strlen (payload (usbRecv p.bytes buf)) = some p.textLength := by
  have hlt : p.textLength < p.text.length := List.idxOf_lt_length_iff.mpr h
  have hle : p.text.length ≤ sizeofBuf := by
    have := p.le
    unfold Packet.text
    rw [List.length_drop]
    omega
  rw [strlen_eq_some_iff]
  refine ⟨by unfold sizeofBuf at hle; omega, ?_, fun i hi => ?_⟩
  · rw [payload_usbRecv hlt, List.getD_eq_getElem _ _ hlt]
    exact List.getElem_idxOf hlt
  · rw [payload_usbRecv (hi.trans hlt), List.getD_eq_getElem _ _ (hi.trans hlt)]
    simpa using List.not_of_lt_findIdx (p := (· == 0#8)) hi

/-- **The command of a packet that ends its text is decoded from the packet**; behind it, the object
keeps what it held. -/
theorem handlerIteration_terminated (h : p.Terminated) (s : Stopped) :
    ∃ c, handlerIteration B s p.bytes =
        afterCommand (usbRecv p.bytes s.buf) (serve B (some s.dev) c) ∧
      (∀ i ≤ p.size, c i = p.command i) ∧ ∀ i, p.size < i → c i = s.dev.cmd i := by
  have hlen := strlen_payload h s.buf
  obtain ⟨r, hr, hspec⟩ := base64Decode_spec s.dev.cmd hlen
  have hlt : p.textLength < p.text.length := List.idxOf_lt_length_iff.mpr h
  have hin : HandlerInBounds (usbRecv p.bytes s.buf) s.dev.cmd := by
    rw [handlerInBounds_iff]
    refine ⟨payloadOffset (usbRecv p.bytes s.buf 0) + p.textLength, by omega, ?_,
      (strlen_eq_some_iff.mp hlen).2.1⟩
    have hle := p.le
    unfold Packet.text at hlt
    rw [List.length_drop] at hlt
    rw [usbRecv_of_lt p.pos]
    omega
  refine ⟨r.plaintext, ?_, fun i hi => ?_, hspec.holds.untouched⟩
  · unfold handlerIteration
    simp only [if_pos hin, hr]
    rfl
  · rcases hi.eq_or_lt with rfl | hi
    · have hzero : p.command p.size = 0#8 := if_neg (lt_irrefl _)
      rw [hzero]
      exact hspec.terminated
    · rw [hspec.holds.done i hi, Packet.command, if_pos hi]
      exact decodedByte_congr (fun j hj => payload_usbRecv (hj.trans hlt)) hi

/-- **A complete packet is served on its own.** -/
theorem sameEffect_of_complete (h : p.Terminated) (hneed : bytesNeeded p.command ≤ p.size)
    (hs : SameButLeftovers s s') :
    SameEffect (handlerIteration B s p.bytes) (handlerIteration B s' p.bytes) := by
  obtain ⟨c, he, hown, hrest⟩ := handlerIteration_terminated (B := B) h s
  obtain ⟨c', he', hown', hrest'⟩ := handlerIteration_terminated (B := B) h s'
  have hagree : ∀ i ≤ p.size, c i = c' i := fun i hi => (hown i hi).trans (hown' i hi).symm
  have hneedc : bytesNeeded c = bytesNeeded p.command :=
    bytesNeeded_congr (hown 0 (Nat.zero_le _)).symm fun i hi => (hown i (by omega)).symm
  rw [he, he']
  refine sameEffect_afterCommand hs (hagree 0 (Nat.zero_le _)) (fun i hi => hagree i (by omega))
    (fun i hi => ?_) (fun i hi => ?_)
  · by_cases hle : i ≤ p.size
    · exact hagree i hle
    · rw [hrest i (by omega), hrest' i (by omega)]
      exact hs.beyondDecodedBuf i hi
  · have hle := p.le
    rw [usbRecv_of_le (by omega), usbRecv_of_le (by omega)]
    exact hs.beyondBuf i hi

/-! ## Packets that do not, and short ones -/

/-- Without a NUL in the packet or in the buffer, the search leaves the buffer. -/
theorem handlerIteration_not_terminated (h : ¬ p.Terminated) (hbuf : ∀ i, s.buf i ≠ 0#8) :
    handlerIteration B s p.bytes = .outOfBounds := by
  refine if_neg ?_
  rw [handlerInBounds_iff]
  rintro ⟨i, hle, -, h0⟩
  rw [usbRecv_of_lt p.pos] at hle
  by_cases hi : i < p.bytes.length
  · rw [usbRecv_of_lt hi, List.getD_eq_getElem _ _ hi] at h0
    refine h (List.mem_drop_iff_getElem.mpr ⟨i - payloadOffset (p.bytes.getD 0 0#8), by omega, ?_⟩)
    refine Eq.trans ?_ h0
    congr 1
    omega
  · rw [usbRecv_of_le (by omega)] at h0
    exact hbuf i h0

/-- A packet without a byte of a command has the type `CMD_UNDEFINED`, which needs nothing. -/
theorem Packet.TooShort.one_lt (h : p.TooShort) : 1 < bytesNeeded p.command := by
  by_contra hle
  unfold Packet.TooShort at h
  have hsize : p.size = 0 := by omega
  have hzero : p.command = fun _ => 0#8 := by
    funext i
    exact if_neg (by omega)
  rw [hzero] at h
  exact absurd h (by rw [hsize]; decide)

/-- A success reply is not an error reply. -/
theorem success_ne_error {t t' : Byte} {e : ErrorCode} {os : List Out} (he : e ≠ .success) :
    Out.usbSend [t, ErrorCode.success.code] :: os ≠ [.usbSend [t', e.code]] := by
  intro h
  have hcode : ErrorCode.success.code = e.code := by
    simp only [List.cons.injEq, Out.usbSend.injEq] at h
    exact h.1.2.1
  revert hcode he
  cases e <;> decide

/-- With every section mapped, a read of any range is allowed. -/
theorem mmuProbeRead_mapped (B : Board) (addr length : Word) :
    mmuProbeRead B (fun _ => 0xff#8) addr length = true := by
  have hdesc : ∀ i, sectionDesc B (fun _ => 0xff#8) i = 0xffffffff#32 := fun i =>
    show 0xff#8 ++ 0xff#8 ++ 0xff#8 ++ 0xff#8 = 0xffffffff#32 by decide
  unfold mmuProbeRead
  rw [List.all_eq_true]
  intro i _
  simp only [hdesc]
  rw [Bool.and_eq_true, Bool.or_eq_true]
  exact ⟨by decide, Or.inr (by decide)⟩

/-- In an empty table there is room. -/
theorem insertBreakpoint_empty (B : Board) (addr : Word) (t : Byte) :
    (insertBreakpoint B (fun _ => 0#8) addr t).2 = .success := by
  have hsize : bpSize B (fun _ => 0#8) = 0#32 :=
    show 0#8 ++ 0#8 ++ 0#8 ++ 0#8 = 0#32 by decide
  have hnone : getBreakpoint B (fun _ => 0#8) addr = none := by
    unfold getBreakpoint
    rw [hsize]
    rfl
  have hroom : ¬ dbgNbrPoints ≤ (bpSize B fun _ => 0#8).toNat := by
    rw [hsize]
    decide
  unfold insertBreakpoint allocBreakpoint
  rw [hnone, if_neg (by simp), if_neg hroom]

/-- A breakpoint of the table is removed. -/
theorem exists_removeBreakpoint (B : Board) (addr : Word) (t : Byte) :
    ∃ m, (removeBreakpoint B m addr t).2 = .success := by
  refine ⟨store32 (store32 (fun _ => 0#8) (off B.status bpSizeOffset) 1#32) (addressAt B 0) addr,
    ?_⟩
  generalize hm : store32 (store32 (fun _ => 0#8) (off B.status bpSizeOffset) 1#32) (addressAt B 0)
    addr = m
  have hsize : bpSize B m = 1#32 := by
    rw [← hm]
    exact (load32_store32_off (by decide) (by decide) (by decide) (by decide)).trans
      (load32_store32 _ _ _ (by decide))
  have haddr : bpAddress B m 0 = addr := by
    rw [← hm]
    exact load32_store32 _ _ _ (by decide)
  have hfound : getBreakpoint B m addr = some 0 := by
    unfold getBreakpoint
    rw [hsize, show List.range (1#32).toNat = [0] from rfl, List.find?_cons_of_pos]
    simpa using haddr
  unfold removeBreakpoint
  rw [hfound]

/-- **Every command that needs more than its type is accepted in some state.** -/
theorem exists_accepting (B : Board) (hneed : 1 < bytesNeeded c) :
    ∃ m, ∀ d', serve B (some { Dev.sample with mem := m }) c = some d' →
      ∀ (t : Byte) (e : ErrorCode), e ≠ .success → d'.out ≠ [.usbSend [t, e.code]] := by
  unfold bytesNeeded at hneed
  split at hneed
  case h_1 hk =>
    refine ⟨fun _ => 0xff#8, fun d' hd' t e he => ?_⟩
    obtain ⟨d, hd, -, -, hout⟩ := serve_read (B := B)
      (d := { Dev.sample with mem := fun _ => 0xff#8 }) hk
    rw [mmuProbeRead_mapped, if_pos rfl] at hout
    obtain rfl : d = d' := Option.some.inj (hd.symm.trans hd')
    rw [hout]
    exact success_ne_error he
  case h_2 hk =>
    refine ⟨fun _ => 0xff#8, fun d' hd' t e he => ?_⟩
    rcases serve_write (B := B) (d := { Dev.sample with mem := fun _ => 0xff#8 }) hk with
      ⟨-, ⟨-, hnone⟩ | ⟨d, hd, -, -, hout⟩⟩ | ⟨hmap, -⟩
    · rw [hnone] at hd'
      cases hd'
    · obtain rfl : d = d' := Option.some.inj (hd.symm.trans hd')
      rw [hout]
      exact success_ne_error he
    · rw [mmuProbeRead_mapped] at hmap
      cases hmap
  case h_3 hk =>
    refine ⟨fun _ => 0#8, fun d' hd' t e he => ?_⟩
    obtain ⟨d, hd, -, -, hout⟩ := serve_insert (B := B)
      (d := { Dev.sample with mem := fun _ => 0#8 }) hk
    rw [insertBreakpoint_empty] at hout
    obtain rfl : d = d' := Option.some.inj (hd.symm.trans hd')
    rw [hout]
    exact success_ne_error he
  case h_4 hk =>
    obtain ⟨m, hm⟩ := exists_removeBreakpoint B c.addr c.bpType
    refine ⟨m, fun d' hd' t e he => ?_⟩
    obtain ⟨d, hd, -, -, hout⟩ := serve_remove (B := B) (d := { Dev.sample with mem := m }) hk
    rw [hm] at hout
    obtain rfl : d = d' := Option.some.inj (hd.symm.trans hd')
    rw [hout]
    exact success_ne_error he
  case h_5 hk =>
    refine ⟨fun _ => 0#8, fun d' hd' t e he hc => ?_⟩
    obtain ⟨d, hd, -, -, hout⟩ := serve_call (B := B)
      (d := { Dev.sample with mem := fun _ => 0#8 }) hk
    obtain rfl : d = d' := Option.some.inj (hd.symm.trans hd')
    rw [hout] at hc
    cases hc
  case h_6 hk =>
    refine ⟨fun _ => 0#8, fun d' hd' t e he => ?_⟩
    obtain ⟨d, hd, -, -, hout⟩ := serve_flashlight (B := B)
      (d := { Dev.sample with mem := fun _ => 0#8 }) hk
    obtain rfl : d = d' := Option.some.inj (hd.symm.trans hd')
    rw [hout]
    exact success_ne_error he
  all_goals exact absurd hneed (by decide)

/-- A short packet is not rejected in a state that accepts its command. -/
theorem not_rejected_of_tooShort (B : Board) (h : p.Terminated) (hshort : p.TooShort) :
    ∃ s, ¬ Rejected s (handlerIteration B s p.bytes) := by
  obtain ⟨m, hm⟩ := exists_accepting B hshort.one_lt
  refine ⟨⟨{ Dev.sample with mem := m }, fun _ => 0#8⟩, ?_⟩
  obtain ⟨c, he, hown, hrest⟩ :=
    handlerIteration_terminated (B := B) h ⟨{ Dev.sample with mem := m }, fun _ => 0#8⟩
  have hc : c = p.command := by
    funext i
    by_cases hi : i ≤ p.size
    · exact hown i hi
    · rw [hrest i (by omega), Packet.command, if_neg (by omega)]
      rfl
  rw [he, hc]
  rintro ⟨s', hs', -, -, t, e, hne, hout⟩
  cases hserve : serve B (some { Dev.sample with mem := m }) p.command with
  | none =>
      rw [hserve] at hs'
      rcases hs' with hs' | hs' <;> cases hs'
  | some d' =>
      rw [hserve] at hs'
      have hdev : s'.dev = d' := by
        unfold afterCommand at hs'
        simp only at hs'
        split_ifs at hs'
        · rcases hs' with hs' | hs' <;> cases hs'
          rfl
        · rcases hs' with hs' | hs' <;> cases hs'
          rfl
      refine hm d' hserve t e hne ?_
      rw [← hdev, hout]
      rfl

/-- **When the effect of a packet is its own**: iff the packet contains the NUL that ends its text,
and the text is a command with all the bytes that its handler reads. -/
theorem ownPacketOnly_iff (B : Board) (p : Packet) :
    OwnPacketOnly B p ↔ p.Terminated ∧ bytesNeeded p.command ≤ p.size := by
  constructor
  · intro h
    have hterm : p.Terminated := by
      by_contra hnot
      have hsame : SameButLeftovers ⟨Dev.sample, fun _ => 0x41#8⟩ ⟨Dev.sample, fun _ => 0x41#8⟩ :=
        ⟨rfl, rfl, rfl, fun _ _ => rfl, fun _ _ => rfl⟩
      have heffect := (h _ _ hsame).1
      rw [handlerIteration_not_terminated hnot fun _ => show 0x41#8 ≠ 0#8 by decide] at heffect
      cases heffect
    refine ⟨hterm, ?_⟩
    by_contra hshort
    obtain ⟨s, hs⟩ := not_rejected_of_tooShort B hterm (not_le.mp hshort)
    exact hs ((h s s ⟨rfl, rfl, rfl, fun _ _ => rfl, fun _ _ => rfl⟩).2 (not_le.mp hshort))
  · rintro ⟨hterm, hneed⟩ s s' hs
    exact ⟨sameEffect_of_complete hterm hneed hs, fun hshort => absurd hshort (not_lt.mpr hneed)⟩

/-- The handler is past its loop. -/
def Outcome.isReturned : Outcome → Bool
  | .returned _ => true
  | _ => false

theorem SameEffect.isReturned {o o' : Outcome} (h : SameEffect o o') :
    Outcome.isReturned o = Outcome.isReturned o' := by
  cases h <;> rfl

/-- `"oem "`, without a command. -/
def barePacket : Packet := ⟨[0x6f#8, 0x65#8, 0x6d#8, 0x20#8], by decide, by decide⟩

/-- What `"oem AgA="`, a detach, leaves in `buf`. -/
def detachBuf : ℕ → Byte := fun i =>
  [0x6f#8, 0x65#8, 0x6d#8, 0x20#8, 0x41#8, 0x67#8, 0x41#8, 0x3d#8].getD i 0#8

/-- After a detach that an earlier stop got, a packet without a command detaches again. -/
theorem leftover_detaches : ¬ OwnPacketOnly Board.sample barePacket := by
  intro h
  have hsame : SameButLeftovers ⟨Dev.sample, fun _ => 0#8⟩ ⟨Dev.sample, detachBuf⟩ :=
    ⟨rfl, rfl, rfl, fun i hi => (List.getD_eq_default _ _ (le_trans (by decide) hi)).symm,
      fun _ _ => rfl⟩
  have hends := (h _ _ hsame).1.isReturned
  have hfirst : Outcome.isReturned (handlerIteration Board.sample ⟨Dev.sample, fun _ => 0#8⟩
      barePacket.bytes) = false := by decide +kernel
  have hsecond : Outcome.isReturned (handlerIteration Board.sample ⟨Dev.sample, detachBuf⟩
      barePacket.bytes) = true := by decide +kernel
  exact absurd (hfirst.symm.trans (hends.trans hsecond)) (by decide)

end Hbootdbg.Wire
