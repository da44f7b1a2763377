import Hbootdbg.Gdb.Validation
import Hbootdbg.Lib.Machine

/-!
# `gdbproxy.py`: the loops of `run`, step by step

`run` reads packets in a loop, and the data of a packet in a loop of its own. Here they are one
machine, with a phase for each place where `run` reads. It is a machine for any dispatcher, so that
a run can be followed without the handlers.

* `Abort`, `Dispatcher` — what a handler may do instead of returning, and what `dispatch` does.
* `Conn` — the server object, with what it has sent.
* `Phase`, `Phase.step` — the machine. At the end of the stream every read is empty: `run` stops
  there between packets, and goes on reading in the data of a packet.
* `step_idle_nil`, `step_idle_of_ne`, `step_idle_dollar`, `step_inData_of_ne`, `step_inData_hash`,
  `step_inData_nil` — the reads of one byte.
* `step_closed_of_gapDigits`, `step_closed_of_wrong`, `step_closed_of_right` — the end of a packet.
-/

namespace Hbootdbg.Gdb

open Hbootdbg.Lib.ByteMem

/-! ## Handlers -/

/-- Why a handler does not return. -/
inductive Abort
  /-- It has raised an exception. -/
  | raised
  /-- It still polls the device. -/
  | polling
  deriving DecidableEq

/-- `dispatch (command, *data_list)` on a server object: `none` where no regular expression matches,
and otherwise the object that the handler leaves, with the arguments of its calls of `send`.
Source: `scripts/gdbproxy.py` `PatternDispatcher.dispatch` -/
abbrev Dispatcher (W : Type) :=
  W → List Byte → List (List Byte) → Option (Except Abort (W × List (List (List Byte))))

/-! ## The machine -/

/-- `+`. -/
def plus : Byte := 0x2b#8

/-- `-`. -/
def minus : Byte := 0x2d#8

/-- A server object on a connection. -/
structure Conn (W : Type) where
  /-- The object. -/
  world : W
  /-- What has been sent. -/
  sent : List (List Byte)

namespace Conn

variable {W : Type}

/-- `send_raw (data)`. Source: `scripts/gdbproxy.py` `GDBServer.send_raw` -/
def sendRaw (s : Conn W) (data : List Byte) : Conn W := { s with sent := s.sent ++ [data] }

/-- A packet that is accepted: `+`, and what the dispatcher makes of it; a request that it does not
know is answered by an empty packet. Source: `scripts/gdbproxy.py` `GDBServer.run` -/
def answer (dispatcher : Dispatcher W) (s : Conn W) : List (List Byte) → Except Abort (Conn W)
  | [] => .ok (s.sendRaw [plus])
  | command :: dataList =>
      match dispatcher s.world command dataList with
      | none => .ok ((s.sendRaw [plus]).sendRaw (pack [[]]))
      | some (.ok (w, replies)) => .ok ⟨w, (s.sendRaw [plus]).sent ++ replies.map pack⟩
      | some (.error a) => .error a

end Conn

/-- Where `run` is, with the rest of the stream. -/
inductive Phase (W : Type)
  /-- At the head of the loop. -/
  | idle (s : Conn W) (stream : List Byte)
  /-- In the loop that collects the data of a packet. -/
  | inData (s : Conn W) (data stream : List Byte)
  /-- After the `#` of a packet. -/
  | closed (s : Conn W) (data stream : List Byte)
  /-- After the loop: the server is stopped. -/
  | stopped (s : Conn W)
  /-- In a handler that does not return, or out of `run` by an exception. -/
  | aborted (a : Abort)

namespace Phase

variable {W : Type}

/-- `run` has returned. -/
def IsStopped : Phase W → Prop
  | .stopped _ => True
  | _ => False

/-- `run` is at the head of its loop. -/
def IsIdle : Phase W → Prop
  | .idle _ _ => True
  | _ => False

variable (σ : Segmentation) (dispatcher : Dispatcher W)

/-- What follows a `recv`. The types of packets other than `$` differ in what is printed only.
Source: `scripts/gdbproxy.py` `GDBServer.run` -/
def step : Phase W → Phase W
  | .idle s stream =>
      match σ.recv 1 stream with
      | ([], _) => .stopped s
      | (packetType, stream) =>
          if packetType = [dollar] then .inData s [] stream else .idle s stream
  | .inData s data stream =>
      let (byte, stream) := σ.recv 1 stream
      if byte ≠ [hash] then .inData s (data ++ byte) stream else .closed s data stream
  | .closed s data stream =>
      let (checksum, stream) := σ.recv 2 stream
      match unpack data checksum with
      | none => .aborted .raised
      | some none => .idle (s.sendRaw [minus]) stream
      | some (some fields) =>
          match s.answer dispatcher fields with
          | .ok s => .idle s stream
          | .error a => .aborted a
  | phase => phase

variable {σ dispatcher} {s s' : Conn W} {data stream : List Byte} {c : Byte} {a : Abort}

/-! ## The phases, read by read -/

/-- At the head of the loop, one byte is read; without one, the loop ends. -/
theorem step_idle : step σ dispatcher (.idle s stream) =
    match σ.recv 1 stream with
    | ([], _) => .stopped s
    | (packetType, stream) =>
        if packetType = [dollar] then .inData s [] stream else .idle s stream := rfl

/-- In the data of a packet, one byte is read, and an empty read is not noticed. -/
theorem step_inData : step σ dispatcher (.inData s data stream) =
    if (σ.recv 1 stream).1 ≠ [hash] then
      .inData s (data ++ (σ.recv 1 stream).1) (σ.recv 1 stream).2
    else .closed s data (σ.recv 1 stream).2 := rfl

/-- Behind the `#`, two bytes are read and the packet is answered. -/
theorem step_closed : step σ dispatcher (.closed s data stream) =
    match unpack data (σ.recv 2 stream).1 with
    | none => .aborted .raised
    | some none => .idle (s.sendRaw [minus]) (σ.recv 2 stream).2
    | some (some fields) =>
        match s.answer dispatcher fields with
        | .ok s => .idle s (σ.recv 2 stream).2
        | .error a => .aborted a := rfl

/-! ## Reads of one byte -/

/-- Between packets, the end of the stream stops the server. -/
@[simp] theorem step_idle_nil : step σ dispatcher (.idle s []) = .stopped s := by
  rw [step_idle, recv_nil]

/-- A `$` begins a packet. -/
@[simp] theorem step_idle_dollar :
    step σ dispatcher (.idle s (dollar :: stream)) = .inData s [] stream := by
  rw [step_idle, recv_one]
  exact if_pos rfl

/-- Any other byte is passed over. -/
theorem step_idle_of_ne (hc : c ≠ dollar) :
    step σ dispatcher (.idle s (c :: stream)) = .idle s stream := by
  rw [step_idle, recv_one]
  exact if_neg fun h => hc (List.cons.inj h).1

/-- In the data of a packet, the end of the stream changes nothing. -/
@[simp] theorem step_inData_nil : step σ dispatcher (.inData s data []) = .inData s data [] := by
  rw [step_inData, recv_nil]
  simp

/-- A byte of the data is kept. -/
theorem step_inData_of_ne (hc : c ≠ hash) :
    step σ dispatcher (.inData s data (c :: stream)) = .inData s (data ++ [c]) stream := by
  rw [step_inData, recv_one]
  exact if_pos fun h => hc (List.cons.inj h).1

/-- A `#` ends the data. -/
@[simp] theorem step_inData_hash :
    step σ dispatcher (.inData s data (hash :: stream)) = .closed s data stream := by
  rw [step_inData, recv_one]
  exact if_neg (not_not_intro rfl)

/-! ## The end of a packet -/

/-- Digits that `int` cannot read end the server. -/
theorem step_closed_of_gapDigits (h : GapDigits (σ.recv 2 stream).1) :
    step σ dispatcher (.closed s data stream) = .aborted .raised := by
  simp only [step_closed, unpack_of_gapDigits h]

/-- A packet with the wrong digits is refused. -/
theorem step_closed_of_wrong (hgap : ¬ GapDigits (σ.recv 2 stream).1)
    (hwrong : ¬ DigitsRight data (σ.recv 2 stream).1) :
    step σ dispatcher (.closed s data stream) =
      .idle (s.sendRaw [minus]) (σ.recv 2 stream).2 := by
  simp only [step_closed, unpack_of_wrong hgap hwrong]

/-- A packet with the right digits goes to its handler. -/
theorem step_closed_of_right (h : DigitsRight data (σ.recv 2 stream).1) :
    step σ dispatcher (.closed s data stream) =
      match s.answer dispatcher (unpackFields data) with
      | .ok s => .idle s (σ.recv 2 stream).2
      | .error a => .aborted a := by
  simp only [step_closed, unpack_of_digitsRight h]

end Phase

end Hbootdbg.Gdb
