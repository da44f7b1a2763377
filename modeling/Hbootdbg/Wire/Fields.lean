import Hbootdbg.Host.Command

/-!
# The fields of a command, on both sides

The host describes the format by `struct.pack` calls, the device by a packed union.

* `ArgumentsFit` — the arguments fit their fields.
* `ObjectAgrees` — the device finds the arguments of a method in the object.
* `FieldsAgree` — the command can be packed, and the device finds its type, no error and its
  arguments, whatever the object held before.
* `fieldsAgree_iff` — this holds for every method but `flashlight`, whose time is packed as the
  error. `flashlight_time_lost` is a failing call.
-/

namespace Hbootdbg.Wire

open Hbootdbg.Lib.ByteMem Hbootdbg.Device Hbootdbg.Host

/-- Each argument fits its field: words, and the breakpoint types of the host. -/
def ArgumentsFit : Method → Prop
  | .read address size => address < 2 ^ 32 ∧ size < 2 ^ 32
  | .write address size data => address < 2 ^ 32 ∧ size < 2 ^ 32 ∧ data < 2 ^ 32
  | .insertBreakpoint address type | .removeBreakpoint address type =>
      address < 2 ^ 32 ∧ type ≤ 1
  | .call address (a0, a1, a2, a3) =>
      address < 2 ^ 32 ∧ a0 < 2 ^ 32 ∧ a1 < 2 ^ 32 ∧ a2 < 2 ^ 32 ∧ a3 < 2 ^ 32
  | .flashlight time => time < 2 ^ 32
  | _ => True

/-- The type of the object is that of the method, and the member of the union that the type selects
holds the arguments. -/
def ObjectAgrees (c : CmdBytes) : Method → Prop
  | .attach => c.type = CmdType.attach.code
  | .detach => c.type = CmdType.detach.code
  | .read address size =>
      c.type = CmdType.read.code ∧ c.addr.toNat = address ∧ c.size.toNat = size
  | .write address size data =>
      c.type = CmdType.write.code ∧ c.addr.toNat = address ∧ c.size.toNat = size ∧
        (c.data 0 ++ c.data 1 ++ c.data 2 ++ c.data 3).toNat = data
  | .insertBreakpoint address type =>
      c.type = CmdType.insertBreakpoint.code ∧ c.addr.toNat = address ∧ c.bpType.toNat = type
  | .removeBreakpoint address type =>
      c.type = CmdType.removeBreakpoint.code ∧ c.addr.toNat = address ∧ c.bpType.toNat = type
  | .breakpointContinue => c.type = CmdType.breakpointContinue.code
  | .getRegisters => c.type = CmdType.getRegisters.code
  | .call address (a0, a1, a2, a3) =>
      c.type = CmdType.call.code ∧ c.addr.toNat = address ∧ (c.arg 0).toNat = a0 ∧
        (c.arg 1).toNat = a1 ∧ (c.arg 2).toNat = a2 ∧ (c.arg 3).toNat = a3
  | .breakpoint => c.type = CmdType.breakpoint.code
  | .flashlight time => c.type = CmdType.flashlight.code ∧ c.time.toNat = time
  | .fastbootReboot => c.type = CmdType.fastbootReboot.code

/-- The device finds the fields of the method in the object its packed bytes are put into. -/
def FieldsAgree (m : Method) : Prop :=
  ∃ packed, m.command.pack = some packed ∧
    ∀ obj, (overlay packed obj).error = ErrorCode.success.code ∧
      ObjectAgrees (overlay packed obj) m

/-- A value that fits a word is the value of one. -/
theorem exists_word {v : ℕ} (h : v < 2 ^ 32) : ∃ w : Word, w.toNat = v :=
  ⟨BitVec.ofNat 32 v, by rw [BitVec.toNat_ofNat, Nat.mod_eq_of_lt h]⟩

/-- A word at an offset of the object. -/
theorem toNat_word {v w : Word} (h : v = byteOf w 3 ++ byteOf w 2 ++ byteOf w 1 ++ byteOf w 0) :
    v.toNat = w.toNat := by
  rw [h, word_wordBytes]

/-- A breakpoint type is the first byte of its word. -/
theorem toNat_byteOf_zero {w : Word} (h : w.toNat ≤ 1) : (byteOf w 0).toNat = w.toNat := by
  unfold byteOf
  rw [Nat.mul_zero, BitVec.ushiftRight_zero, BitVec.toNat_setWidth]
  omega

/-- **The fields of every method but `flashlight` agree.** -/
theorem fieldsAgree_of_ne {m : Method} (h : ArgumentsFit m) (hm : ∀ t, m ≠ .flashlight t) :
    FieldsAgree m := by
  cases m with
  | attach => exact ⟨_, rfl, fun obj => ⟨rfl, rfl⟩⟩
  | detach => exact ⟨_, rfl, fun obj => ⟨rfl, rfl⟩⟩
  | read address size =>
      obtain ⟨ha, hn⟩ := h
      obtain ⟨a, rfl⟩ := exists_word ha
      obtain ⟨n, rfl⟩ := exists_word hn
      exact ⟨_, pack_read a n, fun obj => ⟨rfl, rfl, toNat_word rfl, toNat_word rfl⟩⟩
  | write address size data =>
      obtain ⟨ha, hn, hv⟩ := h
      obtain ⟨a, rfl⟩ := exists_word ha
      obtain ⟨n, rfl⟩ := exists_word hn
      obtain ⟨v, rfl⟩ := exists_word hv
      exact ⟨_, pack_write a n v,
        fun obj => ⟨rfl, rfl, toNat_word rfl, toNat_word rfl, toNat_word rfl⟩⟩
  | insertBreakpoint address type =>
      obtain ⟨ha, ht⟩ := h
      obtain ⟨a, rfl⟩ := exists_word ha
      obtain ⟨t, rfl⟩ := exists_word (ht.trans_lt (by norm_num))
      exact ⟨_, pack_insertBreakpoint a t,
        fun obj => ⟨rfl, rfl, toNat_word rfl, toNat_byteOf_zero ht⟩⟩
  | removeBreakpoint address type =>
      obtain ⟨ha, ht⟩ := h
      obtain ⟨a, rfl⟩ := exists_word ha
      obtain ⟨t, rfl⟩ := exists_word (ht.trans_lt (by norm_num))
      exact ⟨_, pack_removeBreakpoint a t,
        fun obj => ⟨rfl, rfl, toNat_word rfl, toNat_byteOf_zero ht⟩⟩
  | breakpointContinue => exact ⟨_, rfl, fun obj => ⟨rfl, rfl⟩⟩
  | getRegisters => exact ⟨_, rfl, fun obj => ⟨rfl, rfl⟩⟩
  | call address args =>
      obtain ⟨v0, v1, v2, v3⟩ := args
      obtain ⟨ha, h0, h1, h2, h3⟩ := h
      obtain ⟨a, rfl⟩ := exists_word ha
      obtain ⟨a0, rfl⟩ := exists_word h0
      obtain ⟨a1, rfl⟩ := exists_word h1
      obtain ⟨a2, rfl⟩ := exists_word h2
      obtain ⟨a3, rfl⟩ := exists_word h3
      exact ⟨_, pack_call a a0 a1 a2 a3, fun obj => ⟨rfl, rfl, toNat_word rfl, toNat_word rfl,
        toNat_word rfl, toNat_word rfl, toNat_word rfl⟩⟩
  | breakpoint => exact ⟨_, rfl, fun obj => ⟨rfl, rfl⟩⟩
  | flashlight time => exact absurd rfl (hm time)
  | fastbootReboot => exact ⟨_, rfl, fun obj => ⟨rfl, rfl⟩⟩

/-- **`flashlight` packs its time as the error**, and a time of zero. -/
theorem fieldsAgree_flashlight_iff (time : ℕ) : FieldsAgree (.flashlight time) ↔ time = 0 := by
  constructor
  · rintro ⟨packed, hpack, hagree⟩
    by_contra hne
    by_cases ht : time < 2 ^ 8
    · -- the time is packed, into the wrong field
      have hb : packB time = some [BitVec.ofNat 8 time] := if_pos ht
      have hp : (Method.flashlight time).command.pack =
          some (CmdType.flashlight.code :: BitVec.ofNat 8 time :: wordBytes 0#32) := by
        simp [Command.pack, Command.packs, Method.command, concat, hb]
      obtain rfl := Option.some.inj (hp.symm.trans hpack)
      have herr : BitVec.ofNat 8 time = 0#8 := (hagree fun _ => 0#8).1
      have htime := congrArg BitVec.toNat herr
      rw [BitVec.toNat_ofNat, Nat.mod_eq_of_lt ht] at htime
      exact hne htime
    · -- `struct.pack` raises
      have hb : packB time = none := if_neg ht
      have hp : (Method.flashlight time).command.pack = none := by
        simp [Command.pack, Command.packs, Method.command, concat, hb]
      rw [hp] at hpack
      cases hpack
  · rintro rfl
    exact ⟨_, rfl, fun obj => ⟨rfl, rfl, toNat_word (w := 0#32) rfl⟩⟩

/-- **Host and device agree on the fields of a method**, for all arguments that fit, iff it is not
a `flashlight` with a time. -/
theorem fieldsAgree_iff (m : Method) (h : ArgumentsFit m) :
    FieldsAgree m ↔ ∀ time, m = .flashlight time → time = 0 := by
  constructor
  · rintro hm time rfl
    exact (fieldsAgree_flashlight_iff time).mp hm
  · intro hm
    by_cases hf : ∃ time, m = .flashlight time
    · obtain ⟨time, rfl⟩ := hf
      exact (fieldsAgree_flashlight_iff time).mpr (hm time rfl)
    · exact fieldsAgree_of_ne h fun t ht => hf ⟨t, ht⟩

/-- A time of 5 becomes the error code 5, and the time is 0. -/
theorem flashlight_time_lost :
    ArgumentsFit (.flashlight 5) ∧ ¬ FieldsAgree (.flashlight 5) := by
  refine ⟨by norm_num [ArgumentsFit], fun hm => ?_⟩
  exact absurd ((fieldsAgree_flashlight_iff 5).mp hm) (by decide)

/-- The fields of a `write`. -/
theorem fieldsAgree_sample : FieldsAgree (.write 0x8D001000 4 0xe1a00000) :=
  (fieldsAgree_iff (.write 0x8D001000 4 0xe1a00000) (by norm_num [ArgumentsFit])).mpr
    fun _ ht => by cases ht

end Hbootdbg.Wire
