import Hbootdbg.Gdb.Dispatch
import Hbootdbg.Gdb.Transport

/-!
# Which packets are answered

A packet whose digits are right is acknowledged, and then its handler is on its own: it may miss
arguments, fail to convert or to pack them, get no data from the phone, or send nothing.

* `ValidPacket` — a body without `#`, and its two digits.
* `Answered` — a round of `run` reads the packet, sends `+` and one packet, and is at the head of
  the loop again, with nothing else read.
* `Handler.Answers` — when a handler returns with one reply, for each of them.
* `answers_of_handle`, `handle_of_answers` — the two directions, handler by handler.
* `next_packet_iff` — the round up to the digits.
* `answered_iff` — a packet is answered iff its digits are read together and its handler answers.
  `detach_unanswered` is one that is not.
-/

namespace Hbootdbg.Gdb

open Hbootdbg.Lib.ByteMem Hbootdbg.Lib.Hex Hbootdbg.Lib.PyInt Hbootdbg.Lib.Machine Hbootdbg.Device
open Hbootdbg.Host

/-- A packet, from the peer's side. -/
structure ValidPacket where
  /-- What is between `$` and `#`. -/
  body : List Byte
  /-- What follows `#`. -/
  digits : List Byte
  /-- The first `#` ends the body. -/
  closed : hash ∉ body
  /-- Two digits of either case, with the sum of the body. -/
  right : DigitsRight body digits

namespace ValidPacket

variable (pkt : ValidPacket)

/-- What is sent. -/
def bytes : List Byte := dollar :: (pkt.body ++ hash :: pkt.digits)

/-- The first of the parts that `,`, `:` and `;` separate. -/
def command : List Byte := (pkt.body.splitOnP isSeparator).headD []

/-- The other parts. -/
def dataList : List (List Byte) := (pkt.body.splitOnP isSeparator).tail

end ValidPacket

variable {P : Phone}

/-- One round of `run`, from the head of the loop to the next time there: the packet is read, and
`+` and one packet are sent. The reply to a request without a handler is empty. Source:
`scripts/gdbproxy.py` `GDBServer.run` -/
def Answered (π : Python) (σ : Segmentation) (s : Conn (GdbServer P)) (pkt : ValidPacket)
    (rest : List Byte) : Prop :=
  ∃ fuel w reply, Next (Phase.step σ (dispatch π fuel)) Phase.IsIdle (.idle s (pkt.bytes ++ rest))
      (.idle ⟨w, s.sent ++ [[plus], pack [reply]]⟩ rest) ∧
    ((∀ h : Handler, h.pattern.group1 pkt.command = none) → reply = [])

/-- `struct.pack ('I', v)` does not raise. -/
def Packable (v : ℤ) : Prop := 0 ≤ v ∧ v < 2 ^ 32

/-- The argument is there, can be converted, and fulfills `Q`. -/
def HasArg (dataList : List (List Byte)) (i : ℕ) (convert : List Byte → Option ℤ)
    (Q : ℤ → Prop) : Prop :=
  ∃ v, dataList[i]?.bind convert = some v ∧ Q v

/-- When a handler returns with one reply. -/
def Handler.Answers (π : Python) (s : GdbServer P) (group : List Byte)
    (dataList : List (List Byte)) : Handler → Prop
  | .getRegisters => P.Readable s.dev
  | .getRegister => ∃ n, ofHex group = some n ∧ (n ≤ 15 ∨ n = 25)
  | .step => (s.r.gpr 15).toNat + 4 < 2 ^ 32
  | .readMemory =>
      (∃ a, ofHex group = some a ∧ a < 2 ^ 32) ∧ HasArg dataList 0 π.int16 Packable
  | .writeMemory =>
      (∃ a, ofHex group = some a ∧ a < 2 ^ 32) ∧ HasArg dataList 0 π.int16 Packable ∧
        HasArg dataList 1 π.int16 Packable
  | .insertBreakpoint | .removeBreakpoint =>
      HasArg dataList 0 π.int16 Packable ∧ HasArg dataList 1 π.int10 fun _ => True
  | .detach => False
  | _ => True

/-- The handler of the packet answers. -/
def Answerable (π : Python) (s : GdbServer P) (pkt : ValidPacket) : Prop :=
  ∀ (h : Handler) (group : List Byte), h.pattern.group1 pkt.command = some group →
    h.Answers π s group pkt.dataList

variable {π : Python} {fuel : ℕ} {s s' : GdbServer P} {group command : List Byte}
  {dataList : List (List Byte)} {e : GdbServer P × List (List (List Byte))}

/-! ## Arguments -/

/-- A natural number can be packed iff it fits a word. -/
theorem packable_natCast (n : ℕ) : Packable (n : ℤ) ↔ n < 2 ^ 32 := by
  unfold Packable
  omega

/-- What can be packed is a natural number. -/
theorem exists_of_packable {v : ℤ} (h : Packable v) : ∃ n : ℕ, v = n ∧ n < 2 ^ 32 := by
  obtain ⟨n, rfl⟩ := Int.eq_ofNat_of_zero_le h.1
  exact ⟨n, rfl, (packable_natCast n).mp h⟩

/-- The group of an expression for a number. -/
theorem exists_of_plain (hplain : Plain group) (hne : group ≠ []) :
    ∃ n, ofHex group = some n ∧ π.int16 group = some (n : ℤ) := by
  cases hn : ofHex group with
  | none =>
      obtain ⟨c, hc, hnone⟩ := (ofHex_eq_none_iff hne).mp hn
      have hsome := hplain c hc
      rw [hnone] at hsome
      cases hsome
  | some n => exact ⟨n, rfl, int16_of_ofHex hn⟩

/-- An argument that has been converted and packed. -/
theorem hasArg_packable {i n : ℕ} {v : ℤ} (hv : dataList[i]?.bind π.int16 = some v) (hn : v = n)
    (hlt : n < 2 ^ 32) : HasArg dataList i π.int16 Packable :=
  ⟨v, hv, hn ▸ (packable_natCast n).mpr hlt⟩

/-! ## The handlers, one by one -/

section handlers

/-- The registers can be unpacked iff the phone answers with success. -/
theorem call_getRegisters (d : P.State) : ∃ response data,
    P.call d .getRegisters = .ok ((P.exchange d packedGetRegisters).1, response) ∧
      response.data = some data ∧ ((ArmRegisters.unpack data).isSome ↔ P.Readable d) := by
  obtain ⟨response, hcall, herror, hdata⟩ := call_eq_ok (P := P) (d := d) pack_getRegisters rfl
  obtain ⟨data, hdata, hlen⟩ := hdata (by decide)
  refine ⟨response, data, hcall, hdata, ?_⟩
  rw [Link.Readable, herror, Option.some.injEq, ArmRegisters.unpack]
  by_cases hs : response.error = ErrorCode.success.code
  · rw [if_pos hs] at hlen
    rw [if_neg (by omega)]
    exact iff_of_true rfl hs
  · rw [if_neg hs] at hlen
    rw [if_pos (by omega)]
    exact iff_of_false Bool.noConfusion hs

/-- A handler returns only under a condition, and then it replies. -/
def RepliesIff (x : GdbServer.Handled P) (cond : Prop) : Prop :=
  (∀ e, x = .ok e → cond) ∧ (cond → ∃ w reply, x = .ok (w, [[reply]]))

/-- `g` is answered iff the phone answers the read with registers. -/
theorem handleGetRegisters_replies : RepliesIff s.handleGetRegisters (P.Readable s.dev) := by
  obtain ⟨response, data, hcall, hdata, hiff⟩ := call_getRegisters s.dev
  rw [← hiff]
  constructor
  · intro e h
    obtain ⟨⟨dev, response'⟩, hcall', h⟩ := bind_eq_ok.mp h
    obtain ⟨data', hdata', h⟩ := bind_eq_ok.mp h
    obtain ⟨r, hr, -⟩ := bind_eq_ok.mp h
    obtain ⟨-, rfl⟩ := Prod.mk.inj (Except.ok.inj (hcall.symm.trans hcall'))
    obtain rfl := Option.some.inj (hdata.symm.trans (orRaise_eq_ok.mp hdata'))
    rw [orRaise_eq_ok.mp hr]
    rfl
  · intro h
    obtain ⟨r, hr⟩ := Option.isSome_iff_exists.mp h
    refine ⟨⟨r, (P.exchange s.dev packedGetRegisters).1⟩, r.packGdb, ?_⟩
    simp only [GdbServer.handleGetRegisters, hcall, hdata, hr, orRaise_some, ok_bind]

/-- `p` is answered iff its number is that of a register. -/
theorem handleGetRegister_replies (hplain : Plain group) (hne : group ≠ []) :
    RepliesIff (s.handleGetRegister π group) (∃ n, ofHex group = some n ∧ (n ≤ 15 ∨ n = 25)) := by
  obtain ⟨n, hn, hint⟩ := exists_of_plain (π := π) hplain hne
  constructor
  · intro e h
    obtain ⟨v, hv, h⟩ := bind_eq_ok.mp h
    obtain ⟨regNbr, hnbr, h⟩ := bind_eq_ok.mp h
    obtain ⟨w, hw, -⟩ := bind_eq_ok.mp h
    obtain rfl := Option.some.inj (hint.symm.trans (orRaise_eq_ok.mp hv))
    obtain rfl := Int.ofNat.inj (natural_eq_ok.mp hnbr)
    refine ⟨n, hn, (s.r.isSome_getItem n).mp ?_⟩
    rw [orRaise_eq_ok.mp hw]
    rfl
  · rintro ⟨n', hn', hle⟩
    obtain rfl := Option.some.inj (hn.symm.trans hn')
    obtain ⟨w, hw⟩ := Option.isSome_iff_exists.mp ((s.r.isSome_getItem n).mpr hle)
    refine ⟨s, format08x w, ?_⟩
    simp only [GdbServer.handleGetRegister, hint, hw, orRaise_some, ok_bind, natural_natCast]

/-- `m` is answered iff both of its numbers can be packed. -/
theorem handleReadMemory_replies (hplain : Plain group) (hne : group ≠ []) :
    RepliesIff (s.handleReadMemory π group dataList)
      ((∃ a, ofHex group = some a ∧ a < 2 ^ 32) ∧ HasArg dataList 0 π.int16 Packable) := by
  obtain ⟨a, ha, hint⟩ := exists_of_plain (π := π) hplain hne
  constructor
  · intro e h
    obtain ⟨address, haddress, h⟩ := bind_eq_ok.mp h
    obtain ⟨size, hsize, h⟩ := bind_eq_ok.mp h
    obtain ⟨a', ha', h⟩ := bind_eq_ok.mp h
    obtain ⟨n, hn, h⟩ := bind_eq_ok.mp h
    obtain ⟨e', hcall, -⟩ := bind_eq_ok.mp h
    obtain rfl := Option.some.inj (hint.symm.trans (orRaise_eq_ok.mp haddress))
    obtain rfl := Int.ofNat.inj (natural_eq_ok.mp ha')
    obtain ⟨hlt, hlt'⟩ := (isSome_pack_read a n).mp (pack_of_call_eq_ok hcall)
    exact ⟨⟨a, ha, hlt⟩, hasArg_packable (orRaise_eq_ok.mp hsize) (natural_eq_ok.mp hn) hlt'⟩
  · rintro ⟨⟨a', ha', hlt⟩, size, hsize, hpackable⟩
    obtain rfl := Option.some.inj (ha.symm.trans ha')
    obtain ⟨n, rfl, hlt'⟩ := exists_of_packable hpackable
    obtain ⟨packed, hpack⟩ := Option.isSome_iff_exists.mp ((isSome_pack_read a n).mpr ⟨hlt, hlt'⟩)
    obtain ⟨response, hcall, -, hdata⟩ := call_eq_ok (P := P) (d := s.dev) hpack rfl
    obtain ⟨data, hdata, -⟩ := hdata List.mem_cons_self
    refine ⟨{ s with dev := (P.exchange s.dev packed).1 }, hexlify data, ?_⟩
    simp only [GdbServer.handleReadMemory, hint, hsize, hcall, hdata, orRaise_some, ok_bind,
      natural_natCast]

/-- `M` is answered iff its three numbers can be packed. -/
theorem handleWriteMemory_replies (hplain : Plain group) (hne : group ≠ []) :
    RepliesIff (s.handleWriteMemory π group dataList)
      ((∃ a, ofHex group = some a ∧ a < 2 ^ 32) ∧ HasArg dataList 0 π.int16 Packable ∧
        HasArg dataList 1 π.int16 Packable) := by
  obtain ⟨a, ha, hint⟩ := exists_of_plain (π := π) hplain hne
  constructor
  · intro e h
    obtain ⟨address, haddress, h⟩ := bind_eq_ok.mp h
    obtain ⟨size, hsize, h⟩ := bind_eq_ok.mp h
    obtain ⟨data, hdata, h⟩ := bind_eq_ok.mp h
    obtain ⟨a', ha', h⟩ := bind_eq_ok.mp h
    obtain ⟨n, hn, h⟩ := bind_eq_ok.mp h
    obtain ⟨v, hv, h⟩ := bind_eq_ok.mp h
    obtain ⟨e', hcall, -⟩ := bind_eq_ok.mp h
    obtain rfl := Option.some.inj (hint.symm.trans (orRaise_eq_ok.mp haddress))
    obtain rfl := Int.ofNat.inj (natural_eq_ok.mp ha')
    obtain ⟨hlt, hltn, hltv⟩ := (isSome_pack_write a n v).mp (pack_of_call_eq_ok hcall)
    exact ⟨⟨a, ha, hlt⟩, hasArg_packable (orRaise_eq_ok.mp hsize) (natural_eq_ok.mp hn) hltn,
      hasArg_packable (orRaise_eq_ok.mp hdata) (natural_eq_ok.mp hv) hltv⟩
  · rintro ⟨⟨a', ha', hlt⟩, ⟨size, hsize, hn⟩, data, hdata, hv⟩
    obtain rfl := Option.some.inj (ha.symm.trans ha')
    obtain ⟨n, rfl, hltn⟩ := exists_of_packable hn
    obtain ⟨v, rfl, hltv⟩ := exists_of_packable hv
    obtain ⟨packed, hpack⟩ :=
      Option.isSome_iff_exists.mp ((isSome_pack_write a n v).mpr ⟨hlt, hltn, hltv⟩)
    obtain ⟨response, hcall, -, hres⟩ := call_eq_ok (P := P) (d := s.dev) hpack rfl
    obtain ⟨res, hres, -⟩ := hres (List.mem_cons_of_mem _ List.mem_cons_self)
    refine ⟨{ s with dev := (P.exchange s.dev packed).1 }, hexlify res, ?_⟩
    simp only [GdbServer.handleWriteMemory, hint, hsize, hdata, hcall, hres, orRaise_some, ok_bind,
      natural_natCast]

/-- A breakpoint request, for a method that packs its address. -/
theorem handleBreakpoint_replies {method : ℕ → Method}
    (hpack : ∀ a, (method a).command.pack.isSome ↔ a < 2 ^ 32)
    (hlen : ∀ a, (dataLength (method a)).isSome) :
    RepliesIff (s.handleBreakpoint π dataList method)
      (HasArg dataList 0 π.int16 Packable ∧ HasArg dataList 1 π.int10 fun _ => True) := by
  constructor
  · intro e h
    obtain ⟨address, haddress, h⟩ := bind_eq_ok.mp h
    obtain ⟨type, htype, h⟩ := bind_eq_ok.mp h
    obtain ⟨a, ha, h⟩ := bind_eq_ok.mp h
    obtain ⟨e', hcall, -⟩ := bind_eq_ok.mp h
    have hlt := (hpack a).mp (pack_of_call_eq_ok hcall)
    exact ⟨hasArg_packable (orRaise_eq_ok.mp haddress) (natural_eq_ok.mp ha) hlt, type,
      orRaise_eq_ok.mp htype, trivial⟩
  · rintro ⟨⟨address, haddress, ha⟩, type, htype, -⟩
    obtain ⟨a, rfl, hlt⟩ := exists_of_packable ha
    obtain ⟨⟨dev, response⟩, hcall⟩ :=
      call_returns (P := P) (d := s.dev) ((hpack a).mpr hlt) (hlen a)
    refine ⟨{ s with dev }, ok, ?_⟩
    simp only [GdbServer.handleBreakpoint, haddress, htype, hcall, orRaise_some, ok_bind,
      natural_natCast]

/-- A continue, and the poll that ends at the next stop. -/
theorem continue_returns (d : P.State) : ∃ fuel d' e, P.call d .breakpointContinue = .ok e ∧
    P.poll fuel e.1 = .ok d' := by
  obtain ⟨fuel, d', hpoll⟩ := poll_returns d
  obtain ⟨response, hcall, -⟩ := call_eq_ok (P := P) (d := d) pack_breakpointContinue rfl
  exact ⟨fuel, d', _, hcall, hpoll⟩

/-- `c` is answered at the next stop. -/
theorem handleContinue_replies : ∃ fuel w reply, s.handleContinue fuel = .ok (w, [[reply]]) := by
  obtain ⟨fuel, d', ⟨d₁, response⟩, hcall, hpoll⟩ := continue_returns s.dev
  refine ⟨fuel, { s with dev := d' }, stopReply, ?_⟩
  simp only [GdbServer.handleContinue, hcall, hpoll, ok_bind]

/-- An `s` that is answered has an address for its breakpoint. -/
theorem lt_of_handleStep (h : s.handleStep fuel = .ok e) : (s.r.gpr 15).toNat + 4 < 2 ^ 32 := by
  obtain ⟨e', hcall, -⟩ := bind_eq_ok.mp h
  exact (isSome_pack_insertBreakpoint _).mp (pack_of_call_eq_ok hcall)

/-- An `s` with an address for its breakpoint is answered at the next stop. -/
theorem handleStep_replies (h : (s.r.gpr 15).toNat + 4 < 2 ^ 32) :
    ∃ fuel w reply, s.handleStep fuel = .ok (w, [[reply]]) := by
  obtain ⟨⟨d₁, response₁⟩, hinsert⟩ :=
    call_returns (P := P) (d := s.dev) ((isSome_pack_insertBreakpoint _).mpr h) rfl
  obtain ⟨fuel, d₃, ⟨d₂, response₂⟩, hcontinue, hpoll⟩ := continue_returns d₁
  obtain ⟨⟨d₄, response₄⟩, hremove⟩ :=
    call_returns (P := P) (d := d₃) ((isSome_pack_removeBreakpoint _).mpr h) rfl
  refine ⟨fuel, { s with dev := d₄ }, stopReply, ?_⟩
  simp only [GdbServer.handleStep, hinsert, hcontinue, hpoll, hremove, ok_bind]

/-- `D` gets no reply. -/
theorem not_replies_handleDetach (h : s.handleDetach = .ok e) : e.2 = [] := by
  obtain ⟨e', -, he⟩ := bind_eq_ok.mp h
  rw [← Except.ok.inj he]

end handlers

/-- A handler that returns with one reply answers. -/
theorem answers_of_handle {h : Handler} {w : GdbServer P} {reply : List (List Byte)}
    (hm : h.pattern.group1 command = some group)
    (hh : h.handle π fuel s group dataList = .ok (w, [reply])) : h.Answers π s group dataList := by
  cases h with
  | getRegisters => exact handleGetRegisters_replies.1 _ hh
  | getRegister =>
      obtain ⟨-, hne, hplain⟩ := Pattern.number_matches hm
      exact (handleGetRegister_replies hplain hne).1 _ hh
  | step => exact lt_of_handleStep hh
  | readMemory =>
      obtain ⟨-, hne, hplain⟩ := Pattern.number_matches hm
      exact (handleReadMemory_replies hplain hne).1 _ hh
  | writeMemory =>
      obtain ⟨-, hne, hplain⟩ := Pattern.number_matches hm
      exact (handleWriteMemory_replies hplain hne).1 _ hh
  | insertBreakpoint =>
      exact (handleBreakpoint_replies isSome_pack_insertBreakpoint fun _ => rfl).1 _ hh
  | removeBreakpoint =>
      exact (handleBreakpoint_replies isSome_pack_removeBreakpoint fun _ => rfl).1 _ hh
  | detach => cases not_replies_handleDetach hh
  | _ => trivial

/-- **A handler that answers returns with one reply.** -/
theorem handle_of_answers {h : Handler} (hm : h.pattern.group1 command = some group)
    (ha : h.Answers π s group dataList) :
    ∃ fuel w reply, h.handle π fuel s group dataList = .ok (w, [[reply]]) := by
  cases h with
  | qSupported => exact ⟨0, s, _, rfl⟩
  | qAttached => exact ⟨0, s, _, rfl⟩
  | qCurrentThread => exact ⟨0, s, _, rfl⟩
  | setThread =>
      by_cases hc : group = [0x63#8]
      · exact ⟨0, s, _, if_pos hc⟩
      · exact ⟨0, s, _, if_neg hc⟩
  | getStopReason => exact ⟨0, s, _, rfl⟩
  | getRegisters => exact ⟨0, handleGetRegisters_replies.2 ha⟩
  | getRegister =>
      obtain ⟨-, hne, hplain⟩ := Pattern.number_matches hm
      exact ⟨0, (handleGetRegister_replies hplain hne).2 ha⟩
  | «continue» => exact handleContinue_replies
  | step => exact handleStep_replies ha
  | readMemory =>
      obtain ⟨-, hne, hplain⟩ := Pattern.number_matches hm
      exact ⟨0, (handleReadMemory_replies hplain hne).2 ha⟩
  | writeMemory =>
      obtain ⟨-, hne, hplain⟩ := Pattern.number_matches hm
      exact ⟨0, (handleWriteMemory_replies hplain hne).2 ha⟩
  | insertBreakpoint =>
      exact ⟨0, (handleBreakpoint_replies isSome_pack_insertBreakpoint fun _ => rfl).2 ha⟩
  | removeBreakpoint =>
      exact ⟨0, (handleBreakpoint_replies isSome_pack_removeBreakpoint fun _ => rfl).2 ha⟩
  | detach => exact ha.elim

/-! ## A round of the loop -/

section round

variable {W : Type} {σ : Segmentation} {dispatcher : Dispatcher W} {conn conn' : Conn W}
  {data stream rest : List Byte} {x : Phase W}

/-- What follows the data of a packet is decided behind its `#`. -/
theorem next_inData_iff (h : hash ∉ stream) :
    Next (Phase.step σ dispatcher) Phase.IsIdle (.inData conn data (stream ++ hash :: rest)) x ↔
      Next (Phase.step σ dispatcher) Phase.IsIdle (.closed conn (data ++ stream) rest) x := by
  induction stream generalizing data with
  | nil =>
      rw [List.append_nil]
      exact next_iff_of_not_mem Phase.step_inData_hash id
  | cons c stream ih =>
      obtain ⟨hc, hstream⟩ := List.ne_and_not_mem_of_not_mem_cons h
      rw [List.cons_append, next_iff_of_not_mem (Phase.step_inData_of_ne (Ne.symm hc)) id,
        ih hstream, List.append_assoc, List.singleton_append]

/-- **The round reads the packet up to its digits.** -/
theorem next_packet_iff (pkt : ValidPacket) :
    Next (Phase.step σ dispatcher) Phase.IsIdle (.idle conn (pkt.bytes ++ rest)) x ↔
      Next (Phase.step σ dispatcher) Phase.IsIdle
        (.closed conn pkt.body (pkt.digits ++ rest)) x := by
  have hbytes : pkt.bytes ++ rest = dollar :: (pkt.body ++ hash :: (pkt.digits ++ rest)) := by
    rw [ValidPacket.bytes, List.cons_append, List.append_assoc, List.cons_append]
  rw [hbytes, next_iff_of_not_mem Phase.step_idle_dollar id, next_inData_iff pkt.closed,
    List.nil_append]

/-- A handler that does not return ends the rounds. -/
theorem not_next_aborted {a : Abort} :
    ¬ Next (Phase.step σ dispatcher) Phase.IsIdle (.aborted a) x := by
  refine not_next_of_invariant (I := fun y => y = .aborted a) ?_ ?_ rfl
  · rintro _ rfl
    rfl
  · rintro _ rfl hidle
    exact hidle

/-- The two digits are read as they are, or one character or three are read. -/
theorem recv_digits (pkt : ValidPacket) (hread : (σ.recv 2 (pkt.digits ++ rest)).1 = pkt.digits) :
    σ.recv 2 (pkt.digits ++ rest) = (pkt.digits, rest) := by
  have happend := recv_append σ 2 (pkt.digits ++ rest)
  rw [hread] at happend
  exact Prod.ext hread (List.append_cancel_left happend)

/-- A read that does not return both digits of a packet does not return two bytes. -/
theorem length_recv_ne_two (pkt : ValidPacket)
    (hread : (σ.recv 2 (pkt.digits ++ rest)).1 ≠ pkt.digits) :
    (σ.recv 2 (pkt.digits ++ rest)).1.length ≠ 2 := by
  intro hlen
  have happend := recv_append σ 2 (pkt.digits ++ rest)
  exact hread (List.append_inj_left happend (hlen.trans pkt.right.1.symm))

/-- The fields of a packet. -/
theorem unpackFields_body (pkt : ValidPacket) :
    unpackFields pkt.body = pkt.command :: pkt.dataList := by
  rw [unpackFields_eq, ValidPacket.command, ValidPacket.dataList]
  cases h : pkt.body.splitOnP isSeparator with
  | nil => exact absurd h (List.splitOnP_ne_nil _ _)
  | cons command dataList => rfl

/-- A packet whose digits are read goes to its handler. -/
theorem next_closed_iff (pkt : ValidPacket)
    (hread : (σ.recv 2 (pkt.digits ++ rest)).1 = pkt.digits) :
    Next (Phase.step σ dispatcher) Phase.IsIdle (.closed conn pkt.body (pkt.digits ++ rest))
        (.idle conn' rest) ↔
      conn.answer dispatcher (pkt.command :: pkt.dataList) = .ok conn' := by
  have hright : DigitsRight pkt.body (σ.recv 2 (pkt.digits ++ rest)).1 := by
    rw [hread]
    exact pkt.right
  have hstep : Phase.step σ dispatcher (.closed conn pkt.body (pkt.digits ++ rest)) = _ :=
    Phase.step_closed_of_right hright
  rw [recv_digits pkt hread, unpackFields_body] at hstep
  cases hanswer : conn.answer dispatcher (pkt.command :: pkt.dataList) with
  | ok conn₁ =>
      rw [hanswer] at hstep
      rw [next_iff_of_mem hstep trivial, Phase.idle.injEq, Except.ok.injEq]
      exact ⟨fun h => h.1.symm, fun h => ⟨h.symm, rfl⟩⟩
  | error a =>
      rw [hanswer] at hstep
      rw [next_iff_of_not_mem hstep id]
      exact iff_of_false not_next_aborted nofun

/-- Otherwise it is refused. -/
theorem eq_of_next_closed (pkt : ValidPacket)
    (hread : (σ.recv 2 (pkt.digits ++ rest)).1 ≠ pkt.digits)
    (h : Next (Phase.step σ dispatcher) Phase.IsIdle
      (.closed conn pkt.body (pkt.digits ++ rest)) x) :
    x = .idle (conn.sendRaw [minus]) (σ.recv 2 (pkt.digits ++ rest)).2 := by
  have hlen := length_recv_ne_two pkt hread
  have hstep : Phase.step σ dispatcher (.closed conn pkt.body (pkt.digits ++ rest)) = _ :=
    Phase.step_closed_of_wrong (fun hgap => hlen hgap.1) fun hright => hlen hright.1
  exact (next_iff_of_mem hstep trivial).mp h

end round

/-! ## Packets and their answers -/

variable {σ : Segmentation} {conn : Conn (GdbServer P)} {pkt : ValidPacket} {rest : List Byte}

/-- What a handler leaves, in the loop. -/
theorem answer_of_matches {h : Handler} (hm : h.pattern.group1 command = some group) :
    conn.answer (dispatch π fuel) (command :: dataList) =
      (h.handle π fuel conn.world group dataList).map fun e =>
        ⟨e.1, conn.sent ++ [plus] :: e.2.map pack⟩ := by
  rw [Conn.answer, dispatch_of_matches hm]
  cases h.handle π fuel conn.world group dataList with
  | ok e =>
      have hsent : (conn.sendRaw [plus]).sent ++ e.2.map pack =
          conn.sent ++ [plus] :: e.2.map pack := by
        rw [Conn.sendRaw, List.append_assoc, List.singleton_append]
      exact congrArg (fun sent => Except.ok (Conn.mk e.1 sent)) hsent
  | error a => rfl

/-- The reply to a request without a handler. -/
theorem answer_of_not_matches (hm : ∀ h : Handler, h.pattern.group1 command = none) :
    conn.answer (dispatch π fuel) (command :: dataList) =
      .ok ⟨conn.world, conn.sent ++ [[plus], pack [[]]]⟩ := by
  rw [Conn.answer, dispatch_of_not_matches hm]
  simp [Conn.sendRaw]

/-- The handler of a packet that is answered. -/
theorem answerable_of_answer {w : GdbServer P} {reply : List Byte}
    (h : conn.answer (dispatch π fuel) (pkt.command :: pkt.dataList) =
      .ok ⟨w, conn.sent ++ [[plus], pack [reply]]⟩) : Answerable π conn.world pkt := by
  intro handler group hm
  rw [answer_of_matches hm] at h
  cases hh : handler.handle π fuel conn.world group pkt.dataList with
  | error a =>
      rw [hh] at h
      cases h
  | ok e =>
      rw [hh] at h
      obtain ⟨w', replies⟩ := e
      obtain ⟨-, hsent⟩ := Conn.mk.inj (Except.ok.inj h)
      have hreplies := (List.cons.inj (List.append_cancel_left hsent)).2
      obtain ⟨datas, rfl, -⟩ := List.map_eq_singleton_iff.mp hreplies
      exact answers_of_handle hm hh

/-- A packet whose handler answers is answered. -/
theorem answer_of_answerable (h : Answerable π conn.world pkt) : ∃ fuel w reply,
    conn.answer (dispatch π fuel) (pkt.command :: pkt.dataList) =
        .ok ⟨w, conn.sent ++ [[plus], pack [reply]]⟩ ∧
      ((∀ h : Handler, h.pattern.group1 pkt.command = none) → reply = []) := by
  by_cases hm : ∀ h : Handler, h.pattern.group1 pkt.command = none
  · exact ⟨0, conn.world, [], answer_of_not_matches hm, fun _ => rfl⟩
  · obtain ⟨handler, hsome⟩ := not_forall.mp hm
    obtain ⟨group, hgroup⟩ := Option.ne_none_iff_exists'.mp hsome
    obtain ⟨fuel, w, reply, hh⟩ := handle_of_answers hgroup (h handler group hgroup)
    refine ⟨fuel, w, reply, ?_, fun hnone => absurd hnone hm⟩
    rw [answer_of_matches hgroup, hh]
    rfl

/-- **A packet is answered iff its two digits are read together and its handler answers.** -/
theorem answered_iff (π : Python) (σ : Segmentation) (conn : Conn (GdbServer P))
    (pkt : ValidPacket) (rest : List Byte) :
    Answered π σ conn pkt rest ↔
      (σ.recv 2 (pkt.digits ++ rest)).1 = pkt.digits ∧ Answerable π conn.world pkt := by
  constructor
  · rintro ⟨fuel, w, reply, hnext, -⟩
    rw [next_packet_iff] at hnext
    by_cases hread : (σ.recv 2 (pkt.digits ++ rest)).1 = pkt.digits
    · exact ⟨hread, answerable_of_answer ((next_closed_iff pkt hread).mp hnext)⟩
    · -- a single reply has been sent
      obtain ⟨hconn, -⟩ := Phase.idle.inj (eq_of_next_closed pkt hread hnext)
      have hsent := List.append_cancel_left (congrArg Conn.sent hconn)
      cases hsent
  · rintro ⟨hread, ha⟩
    obtain ⟨fuel, w, reply, hanswer, hreply⟩ := answer_of_answerable ha
    exact ⟨fuel, w, reply, (next_packet_iff pkt).mpr ((next_closed_iff pkt hread).mpr hanswer),
      hreply⟩

/-- `D#44`. -/
def detachPacket : ValidPacket where
  body := [0x44#8]
  digits := [0x34#8, 0x34#8]
  closed := by decide
  right := ⟨rfl, rfl⟩

/-- `$D#44` is acknowledged, and nothing else is sent. -/
theorem detach_unanswered :
    ¬ Answered Python.sample whole ⟨GdbServer.sample, []⟩ detachPacket [] := by
  rintro ⟨fuel, w, reply, hnext, -⟩
  rw [next_packet_iff] at hnext
  have hanswer := (next_closed_iff detachPacket rfl).mp hnext
  exact answerable_of_answer hanswer .detach [] rfl

end Hbootdbg.Gdb
