import Hbootdbg.Host.Client
import Hbootdbg.Wire.Leftover

/-!
# A stop, from the packets of the client to its commands

The loop of `breakpoint_handler` polls, finds the text of a command in either mode, decodes it over
what is left of the last one and calls the dispatcher, until a command ends the stop.

* `Carries` — a packet with a command of the client; `Polled` — what the polls of a stop hand over.
* `Complete` — a command with all the bytes that its handler reads; `complete_of_pack` says which
  methods of the client have such commands.
* `serveStop` — a stop without packets: the commands alone, up to the one that ends it.
* `handlerIteration_carries` — one iteration; `breakpointHandler_shows` — the loop is `serveStop`.
-/

namespace Hbootdbg.Wire

open Hbootdbg.Lib.ByteMem Hbootdbg.Lib.Base64 Hbootdbg.Lib.Run
open Hbootdbg.Device Hbootdbg.Session Hbootdbg.Host

/-! ## Packets -/

/-- The object of a packed command, over zeros. -/
abbrev commandOf (x : List Byte) : CmdBytes := overlay x fun _ => 0#8

/-- The packed bytes are all that the handler of the command reads. -/
structure Complete (x : List Byte) : Prop where
  pos : 0 < x.length
  needed : bytesNeeded (commandOf x) ≤ x.length

/-- The packet begins with what the client writes for a command, in one of its modes, and there is a
NUL behind it. -/
def Carries (p : Packet) (x : List Byte) : Prop :=
  ∃ fastbootMode rest, p.bytes = hbootdbgPacket fastbootMode x ++ rest ∧ 0#8 ∈ rest

/-- A packet is at most nine characters longer than its text. -/
theorem length_hbootdbgPacket_le (fastbootMode : Bool) (x : List Byte) :
    (hbootdbgPacket fastbootMode x).length ≤ 9 + 4 * ((x.length + 2) / 3) := by
  unfold hbootdbgPacket
  rw [base64Text_eq_encode]
  split_ifs
  · simp only [List.length_append, length_encode, oem, List.length_cons, List.length_nil]
    omega
  · simp only [List.length_append, length_encode, keytest, List.length_cons, List.length_nil]
    omega

/-- The packet of a command that fits: what the client writes, and a NUL. -/
def packetOf (fastbootMode : Bool) (x : List Byte) (h : x.length ≤ 759) : Packet where
  bytes := hbootdbgPacket fastbootMode x ++ [0#8]
  pos := by
    rw [List.length_append]
    exact Nat.lt_add_left _ Nat.one_pos
  le := by
    have hle := length_hbootdbgPacket_le fastbootMode x
    rw [List.length_append, List.length_singleton]
    unfold sizeofBuf
    omega

/-- The packet of a command carries it. -/
theorem carries_packetOf (fastbootMode : Bool) (x : List Byte) (h : x.length ≤ 759) :
    Carries (packetOf fastbootMode x h) x :=
  ⟨fastbootMode, [0#8], rfl, List.mem_singleton_self _⟩

/-- What the calls of `__usb_recv` hand over, and the commands in it: packets, and nothing at all
any number of times in between. -/
inductive Polled : List (List Byte) → List (List Byte) → Prop
  | nil : Polled [] []
  | idle {packets xs : List (List Byte)} (h : Polled packets xs) : Polled ([] :: packets) xs
  | packet {p : Packet} {x : List Byte} {packets xs : List (List Byte)} (hp : Carries p x)
      (hx : Complete x) (h : Polled packets xs) : Polled (p.bytes :: packets) (x :: xs)

/-! ## Stops without packets -/

/-- The commands of a stop, one after the other, to the first that ends it; and whether one did. -/
def serveStop (B : Board) (d : Dev) : List CmdBytes → Option (Dev × Bool)
  | [] => some (d, false)
  | c :: cs => (serve B (some d) c).bind fun d' =>
      if leavesLoop c.type then some (d', true) else serveStop B d' cs

/-- Two devices are the same but for the command object. -/
structure SameButCmd (d d' : Dev) : Prop where
  mem : d.mem = d'.mem
  ctx : d.ctx = d'.ctx
  out : d.out = d'.out

/-- The handler is where the commands alone lead. -/
inductive Shows : Option (Dev × Bool) → Outcome → Prop
  | waiting {d : Dev} {s : Stopped} (h : SameButCmd s.dev d) : Shows (some (d, false)) (.waiting s)
  | returned {d : Dev} {s : Stopped} (h : SameButCmd s.dev d) : Shows (some (d, true)) (.returned s)
  | hangs : Shows none .hangs

variable {B : Board} {p : Packet} {x : List Byte} {d d' : Dev} {s : Stopped} {c : CmdBytes}
  {m : Method} {packets xs : List (List Byte)}

/-! ## What a packet carries -/

/-- What is stripped is what the client puts before the text. -/
theorem Carries.text (h : Carries p x) : ∃ rest, p.text = base64Text x ++ rest ∧ 0#8 ∈ rest := by
  obtain ⟨fastbootMode, rest, hbytes, hzero⟩ := h
  unfold Packet.text
  cases fastbootMode with
  | true =>
      have hoem : p.bytes = oem ++ (base64Text x ++ rest) := by
        rw [hbytes, hbootdbgPacket, if_pos rfl, List.append_assoc]
      have hoff : payloadOffset (p.bytes.getD 0 0#8) = oem.length := by
        rw [hoem]
        rfl
      exact ⟨rest, by rw [hoff, hoem, List.drop_left], hzero⟩
  | false =>
      have hkeytest : p.bytes = keytest ++ (base64Text x ++ ([0x0a#8] ++ rest)) := by
        rw [hbytes, hbootdbgPacket, if_neg (by decide), List.append_assoc, List.append_assoc]
      have hoff : payloadOffset (p.bytes.getD 0 0#8) = keytest.length := by
        rw [hkeytest]
        rfl
      exact ⟨[0x0a#8] ++ rest, by rw [hoff, hkeytest, List.drop_left],
        List.mem_append_right _ hzero⟩

/-- A packet that carries a command is terminated. -/
theorem Carries.terminated (h : Carries p x) : p.Terminated := by
  obtain ⟨rest, htext, hzero⟩ := h.text
  unfold Packet.Terminated
  rw [htext]
  exact List.mem_append_right _ hzero

/-- The text of the command is before the NUL. -/
theorem Carries.length_le (h : Carries p x) : (base64Text x).length ≤ p.textLength := by
  obtain ⟨rest, htext, -⟩ := h.text
  have hzero : 0#8 ∉ base64Text x := by
    rw [base64Text_eq_encode]
    exact fun hmem => ne_zero_of_mem_encode _ hmem rfl
  unfold Packet.textLength
  rw [htext, List.idxOf_append_of_notMem hzero]
  exact Nat.le_add_right _ _

/-- **The command in the packet is what the device receives**, whatever is in the object behind
it. -/
theorem Carries.received (h : Carries p x) (hc : ∀ i ≤ p.size, c i = p.command i) :
    received x c = c := by
  obtain ⟨rest, htext, -⟩ := h.text
  have hagree : ∀ j < (base64Text x).length,
      p.text.getD j 0#8 = (base64Text x).getD j 0#8 := by
    intro j hj
    rw [htext, List.getD_append _ _ _ _ hj]
  have hle := h.length_le
  funext i
  unfold Wire.received
  by_cases hi : i < decodedLength (base64Text x).length
  · have hsize : i < p.size := by
      unfold Packet.size
      unfold decodedLength at hi ⊢
      omega
    rw [if_pos hi, hc i hsize.le, Packet.command, if_pos hsize, decodedByte_congr hagree hi]
  · rw [if_neg hi]

/-! ## The commands of the client -/

theorem length_packB {v : ℕ} : ∀ b ∈ packB v, b.length = 1 := by
  intro b hb
  obtain ⟨-, hb⟩ := Option.ite_none_right_eq_some.mp hb
  obtain rfl := Option.some.inj hb
  rfl

theorem length_packI {v : ℕ} : ∀ b ∈ packI v, b.length = 4 := by
  intro b hb
  obtain ⟨-, hb⟩ := Option.ite_none_right_eq_some.mp hb
  obtain rfl := Option.some.inj hb
  rfl

/-- The parts of a command, one after the other. -/
theorem length_concat {ps : List (Option (List Byte))} {ns : List ℕ}
    (h : List.Forall₂ (fun p n => ∀ b ∈ p, b.length = n) ps ns) (hx : concat ps = some x) :
    x.length = ns.sum := by
  induction h generalizing x with
  | nil =>
      obtain rfl := Option.some.inj hx
      rfl
  | cons hp _ ih =>
      obtain ⟨b, hb, hx⟩ := Option.bind_eq_some_iff.mp hx
      obtain ⟨rest, hrest, rfl⟩ := Option.map_eq_some_iff.mp hx
      rw [List.length_append, List.sum_cons, hp b hb, ih hrest]

/-- The number of bytes of a command: type and error, and words. -/
def words : Method → ℕ
  | .read _ _ | .insertBreakpoint _ _ | .removeBreakpoint _ _ => 2
  | .write _ _ _ => 3
  | .call _ _ => 5
  | .flashlight _ => 1
  | _ => 0

/-- The number of bytes of a packed command. -/
theorem length_pack (hpack : m.command.pack = some x) : x.length = 2 + 4 * words m := by
  have hdata : ∀ v : ℕ, ∀ b ∈ (some v).bind packBigI, b.length = 4 := by
    intro v b hb
    obtain ⟨b', hb', rfl⟩ := Option.map_eq_some_iff.mp hb
    rw [List.length_reverse, length_packI b' hb']
  have hrest : ∀ {ps : List (Option (List Byte))} {ns : List ℕ},
      List.Forall₂ (fun p n => ∀ b ∈ p, b.length = n) ps ns →
      m.command.packs = packB m.command.type.code.toNat :: packB m.command.error :: ps →
      x.length = 2 + ns.sum := by
    intro ps ns hps heq
    rw [Command.pack, heq] at hpack
    have hlen := length_concat (.cons length_packB (.cons length_packB hps)) hpack
    rw [hlen, List.sum_cons, List.sum_cons]
    omega
  cases m with
  | read | insertBreakpoint | removeBreakpoint =>
      exact hrest (.cons length_packI (.cons length_packI .nil)) rfl
  | write =>
      exact hrest (.cons length_packI (.cons length_packI (.cons (hdata _) .nil))) rfl
  | call =>
      exact hrest (.cons length_packI (.cons length_packI (.cons length_packI
        (.cons length_packI (.cons length_packI .nil))))) rfl
  | flashlight => exact hrest (.cons length_packI .nil) rfl
  | _ => exact hrest .nil rfl

/-- **Every command of the client is complete**, but for a write of more than the four bytes that
the client sends. -/
theorem complete_of_pack (hpack : m.command.pack = some x)
    (hwrite : ∀ address size data, m = .write address size data → size ≤ 4) : Complete x := by
  have hlen := length_pack hpack
  have hkind : kind (commandOf x) = some m.command.type := by
    obtain ⟨rest, rfl⟩ := pack_head hpack
    cases m <;> rfl
  refine ⟨by omega, ?_⟩
  unfold bytesNeeded
  rw [hkind, hlen]
  cases m with
  | write address size data =>
      obtain ⟨haddress, hsize, hdata⟩ :=
        (isSome_pack_write address size data).mp (Option.isSome_of_eq_some hpack)
      have hpack' := pack_write (BitVec.ofNat 32 address) (BitVec.ofNat 32 size)
        (BitVec.ofNat 32 data)
      rw [BitVec.toNat_ofNat, BitVec.toNat_ofNat, BitVec.toNat_ofNat, Nat.mod_eq_of_lt haddress,
        Nat.mod_eq_of_lt hsize, Nat.mod_eq_of_lt hdata] at hpack'
      obtain rfl := Option.some.inj (hpack'.symm.trans hpack)
      have hword : (commandOf (CmdType.write.code :: 0#8 :: (wordBytes (BitVec.ofNat 32 address) ++
          (wordBytes (BitVec.ofNat 32 size) ++ (wordBytes (BitVec.ofNat 32 data)).reverse)))).size =
          BitVec.ofNat 32 size := word_wordBytes _
      have hle := hwrite address size data rfl
      simp only [Method.command, words]
      rw [hword, BitVec.toNat_ofNat, Nat.mod_eq_of_lt hsize]
      omega
  | _ => simp [Method.command, words]

/-! ## One iteration -/

/-- A command does not look at the object that it replaces. -/
theorem serve_eq_of_sameButCmd (h : SameButCmd d d') :
    serve B (some d) c = serve B (some d') c := by
  unfold serve
  simp only [Option.bind_some, h.mem, h.ctx, h.out]

/-- One iteration serves what it receives. -/
theorem handlerIteration_received (hp : Carries p x) (s : Stopped) :
    ∃ c, received x c = c ∧ handlerIteration B s p.bytes =
      afterCommand (usbRecv p.bytes s.buf) (serve B (some s.dev) c) := by
  obtain ⟨c, hiter, hown, -⟩ := handlerIteration_terminated (B := B) hp.terminated s
  exact ⟨c, hp.received hown, hiter⟩

/-- What is received begins with the packed bytes. -/
theorem commandOf_eq_of_received (h : received x c = c) {i : ℕ} (hi : i < x.length) :
    commandOf x i = c i := by
  rw [← h, received_of_lt hi]
  exact (List.getD_eq_getElem _ _ hi).trans (List.getD_eq_getElem _ _ hi).symm

/-- **One iteration serves the command of its packet**, whatever is left over of the last one. -/
theorem handlerIteration_carries (hp : Carries p x) (hx : Complete x) (hs : SameButCmd s.dev d) :
    (serve B (some d) (commandOf x) = none ∧ handlerIteration B s p.bytes = .hangs) ∨
      ∃ d' s', serve B (some d) (commandOf x) = some d' ∧ SameButCmd s'.dev d' ∧
        handlerIteration B s p.bytes =
          if leavesLoop (commandOf x).type then .returned s' else .waiting s' := by
  obtain ⟨c, hc, hiter⟩ := handlerIteration_received (B := B) hp s
  have hagree : ∀ i < x.length, commandOf x i = c i := fun i hi => commandOf_eq_of_received hc hi
  have h0 : commandOf x 0 = c 0 := hagree 0 hx.pos
  rw [hiter, serve_eq_of_sameButCmd hs]
  rcases serve_congr (B := B) (d := d) h0 fun i hi => hagree i (hi.trans_le hx.needed) with
    ⟨hnone, hnone'⟩ | ⟨e, e', he, he', hmem, hctx, hout⟩
  · exact Or.inl ⟨hnone, by rw [hnone']; rfl⟩
  · have htype : e'.cmd.type = (commandOf x).type := (serve_cmd he' (by decide)).trans h0.symm
    refine Or.inr ⟨e, ⟨e', usbRecv p.bytes s.buf⟩, he, ⟨hmem.symm, hctx.symm, hout.symm⟩, ?_⟩
    rw [he', ← htype]
    rfl

/-! ## The loop -/

/-- A packet is one iteration of the loop. -/
theorem handlerStep_packet : handlerStep B (.waiting s) p.bytes = handlerIteration B s p.bytes := by
  have hne : p.bytes ≠ [] := List.ne_nil_of_length_pos p.pos
  rw [handlerStep]
  exact hne

/-- Past its loop, and in a command that never returns, the handler polls no more. -/
theorem run_handlerStep_of_ended {o : Outcome} (h : ∀ packet, handlerStep B o packet = o) :
    run (handlerStep B) o packets = o := by
  induction packets with
  | nil => rfl
  | cons packet packets ih => rw [run_cons, h, ih]

/-- Commands with empty polls between them show what the commands show. -/
theorem Polled.shows (h : Polled packets xs) (hs : SameButCmd s.dev d) :
    Shows (serveStop B d (xs.map commandOf)) (run (handlerStep B) (.waiting s) packets) := by
  induction h generalizing s d with
  | nil => exact .waiting hs
  | idle _ ih => exact ih hs
  | @packet p x packets xs hp hx _ ih =>
      rw [run_cons, handlerStep_packet, List.map_cons, serveStop]
      rcases handlerIteration_carries (B := B) hp hx hs with
        ⟨hnone, hiter⟩ | ⟨d', s', hserve, hs', hiter⟩
      · rw [hnone, hiter, run_handlerStep_of_ended fun _ => rfl]
        exact .hangs
      · rw [hserve, hiter, Option.bind_some]
        by_cases hleaves : leavesLoop (commandOf x).type = true
        · rw [if_pos hleaves, if_pos hleaves, run_handlerStep_of_ended fun _ => rfl]
          exact .returned hs'
        · rw [if_neg hleaves, if_neg hleaves]
          exact ih hs'

end Hbootdbg.Wire
