import Hbootdbg.Gdb.Dispatch
import Hbootdbg.Gdb.Framing

/-!
# The end of the stream

`run` leaves its loop by a read at the head that finds nothing. In the data of a packet it does not
look at whether a read has found anything.

* `Stops` — `run` returns, and has stopped the server.
* `Complete` — the streams that lead there: every packet has its `#`, and neither the parsing of its
  digits nor its handler raises.
* `ends_packet` — a packet up to its `#`; `not_ends_inData` — one that has no `#`.
* `complete_packet_iff` — a packet of a complete stream, and the lemmas after it, case by case.
* `stops_iff` — the server stops iff the stream is complete. `cut_packet_runs_on` is a stream that
  is not.
-/

namespace Hbootdbg.Gdb

open Hbootdbg.Lib.ByteMem Hbootdbg.Lib.Machine Hbootdbg.Lib.PyInt

variable {W : Type}

/-- `run` returns. Source: `scripts/gdbproxy.py` `GDBServer.run` -/
def Stops (σ : Segmentation) (dispatcher : Dispatcher W) (s : Conn W) (stream : List Byte) : Prop :=
  Ends (Phase.step σ dispatcher) Phase.IsStopped (.idle s stream)

/-- A stream that ends between packets. A packet whose digits are right goes to its handler, which
returns; the others are refused. -/
inductive Complete (σ : Segmentation) (dispatcher : Dispatcher W) : Conn W → List Byte → Prop
  | nil (s : Conn W) : Complete σ dispatcher s []
  | ignored {s : Conn W} {c : Byte} {stream : List Byte} : c ≠ dollar →
      Complete σ dispatcher s stream → Complete σ dispatcher s (c :: stream)
  | refused {s : Conn W} {data rest : List Byte} : hash ∉ data →
      ¬ GapDigits (σ.recv 2 rest).1 → ¬ DigitsRight data (σ.recv 2 rest).1 →
      Complete σ dispatcher (s.sendRaw [minus]) (σ.recv 2 rest).2 →
      Complete σ dispatcher s (dollar :: (data ++ hash :: rest))
  | handled {s s' : Conn W} {data rest : List Byte} : hash ∉ data →
      DigitsRight data (σ.recv 2 rest).1 → s.answer dispatcher (unpackFields data) = .ok s' →
      Complete σ dispatcher s' (σ.recv 2 rest).2 →
      Complete σ dispatcher s (dollar :: (data ++ hash :: rest))

variable {σ : Segmentation} {dispatcher : Dispatcher W} {s s' : Conn W}
  {data stream rest : List Byte} {c : Byte} {a : Abort} {x : Phase W}

/-! ## The machine -/

/-- A machine that has stopped stays so. -/
theorem stopped_step (x : Phase W) (h : x.IsStopped) : (x.step σ dispatcher).IsStopped := by
  cases x with
  | stopped s => exact h
  | _ => exact h.elim

/-- One step more or less. -/
theorem stops_step_iff :
    Ends (Phase.step σ dispatcher) Phase.IsStopped (x.step σ dispatcher) ↔
      Ends (Phase.step σ dispatcher) Phase.IsStopped x :=
  ends_step_iff stopped_step

/-- The data of a packet are read up to the `#`. -/
theorem ends_inData_iff (h : hash ∉ stream) :
    Ends (Phase.step σ dispatcher) Phase.IsStopped (.inData s data (stream ++ hash :: rest)) ↔
      Ends (Phase.step σ dispatcher) Phase.IsStopped (.closed s (data ++ stream) rest) := by
  induction stream generalizing data with
  | nil => rw [List.nil_append, ← stops_step_iff, Phase.step_inData_hash, List.append_nil]
  | cons c stream ih =>
      obtain ⟨hc, hstream⟩ := List.ne_and_not_mem_of_not_mem_cons h
      rw [List.cons_append, ← stops_step_iff, Phase.step_inData_of_ne (Ne.symm hc), ih hstream,
        List.append_assoc, List.singleton_append]

/-- **Without a `#`, the data of a packet are read for ever.** -/
theorem not_ends_inData (h : hash ∉ stream) :
    ¬ Ends (Phase.step σ dispatcher) Phase.IsStopped (.inData s data stream) := by
  have hstep : ∀ x : Phase W, (∃ data stream, x = .inData s data stream ∧ hash ∉ stream) →
      ∃ data stream, x.step σ dispatcher = .inData s data stream ∧ hash ∉ stream := by
    rintro _ ⟨data, stream, rfl, hstream⟩
    cases stream with
    | nil => exact ⟨data, [], Phase.step_inData_nil, hstream⟩
    | cons c stream =>
        obtain ⟨hc, hrest⟩ := List.ne_and_not_mem_of_not_mem_cons hstream
        exact ⟨data ++ [c], stream, Phase.step_inData_of_ne (Ne.symm hc), hrest⟩
  refine not_ends_of_invariant hstep ?_ ⟨data, stream, rfl, h⟩
  rintro _ ⟨data, stream, rfl, -⟩ hstopped
  exact hstopped

/-- Nothing follows an abort. -/
theorem not_ends_aborted :
    ¬ Ends (Phase.step σ dispatcher) Phase.IsStopped (.aborted a : Phase W) := by
  refine not_ends_of_invariant (I := fun x => x = .aborted a) ?_ ?_ rfl
  · rintro _ rfl
    rfl
  · rintro _ rfl hstopped
    exact hstopped

/-! ## The parts of a stream -/

/-- At the end of the stream, the machine stops. -/
theorem stops_nil : Stops σ dispatcher s [] := by
  rw [Stops, ← stops_step_iff, Phase.step_idle_nil]
  exact .of_mem trivial

/-- A byte that begins no packet does not matter. -/
theorem stops_cons_iff (hc : c ≠ dollar) :
    Stops σ dispatcher s (c :: stream) ↔ Stops σ dispatcher s stream := by
  rw [Stops, ← stops_step_iff, Phase.step_idle_of_ne hc, Stops]

/-- In a packet without an end, the machine does not stop. -/
theorem not_stops_unfinished (h : hash ∉ stream) : ¬ Stops σ dispatcher s (dollar :: stream) := by
  rw [Stops, ← stops_step_iff, Phase.step_idle_dollar]
  exact not_ends_inData h

/-- After a packet, it depends on what follows its `#`. -/
theorem stops_packet_iff (h : hash ∉ data) :
    Stops σ dispatcher s (dollar :: (data ++ hash :: rest)) ↔
      Ends (Phase.step σ dispatcher) Phase.IsStopped
        (Phase.step σ dispatcher (.closed s data rest)) := by
  rw [Stops, ← stops_step_iff, Phase.step_idle_dollar, ends_inData_iff h, List.nil_append,
    stops_step_iff]

/-- A byte that begins no packet does not matter. -/
theorem complete_cons_iff (hc : c ≠ dollar) :
    Complete σ dispatcher s (c :: stream) ↔ Complete σ dispatcher s stream := by
  constructor
  · rintro (- | ⟨-, h⟩ | - | -)
    · exact h
    · exact absurd rfl hc
    · exact absurd rfl hc
  · exact .ignored hc

/-- A packet without an end is not complete. -/
theorem not_complete_unfinished (h : hash ∉ stream) :
    ¬ Complete σ dispatcher s (dollar :: stream) := by
  rintro (- | ⟨hc, -⟩ | - | -)
  · exact hc rfl
  · exact h (List.mem_append_right _ List.mem_cons_self)
  · exact h (List.mem_append_right _ List.mem_cons_self)

/-- A packet of a complete stream. -/
theorem complete_packet_iff (h : hash ∉ data) :
    Complete σ dispatcher s (dollar :: (data ++ hash :: rest)) ↔
      (¬ GapDigits (σ.recv 2 rest).1 ∧ ¬ DigitsRight data (σ.recv 2 rest).1 ∧
        Complete σ dispatcher (s.sendRaw [minus]) (σ.recv 2 rest).2) ∨
      (DigitsRight data (σ.recv 2 rest).1 ∧
        ∃ s', s.answer dispatcher (unpackFields data) = .ok s' ∧
          Complete σ dispatcher s' (σ.recv 2 rest).2) := by
  constructor
  · intro hcomplete
    generalize he : dollar :: (data ++ hash :: rest) = stream at hcomplete
    cases hcomplete with
    | nil => cases he
    | ignored hc => exact absurd (List.cons.inj he).1.symm hc
    | refused hdata hgap hwrong hrest =>
        obtain ⟨rfl, rfl⟩ := append_hash_inj h hdata (List.cons.inj he).2
        exact Or.inl ⟨hgap, hwrong, hrest⟩
    | handled hdata hright hanswer hrest =>
        obtain ⟨rfl, rfl⟩ := append_hash_inj h hdata (List.cons.inj he).2
        exact Or.inr ⟨hright, _, hanswer, hrest⟩
  · rintro (⟨hgap, hwrong, hrest⟩ | ⟨hright, s', hanswer, hrest⟩)
    · exact .refused h hgap hwrong hrest
    · exact .handled h hright hanswer hrest

/-- Digits that make `int` raise. -/
theorem not_complete_of_gapDigits (h : hash ∉ data) (hgap : GapDigits (σ.recv 2 rest).1) :
    ¬ Complete σ dispatcher s (dollar :: (data ++ hash :: rest)) := by
  rw [complete_packet_iff h]
  rintro (⟨hnot, -⟩ | ⟨hright, -⟩)
  · exact hnot hgap
  · exact hright.not_gapDigits hgap

/-- A packet that is refused. -/
theorem complete_refused_iff (h : hash ∉ data) (hgap : ¬ GapDigits (σ.recv 2 rest).1)
    (hwrong : ¬ DigitsRight data (σ.recv 2 rest).1) :
    Complete σ dispatcher s (dollar :: (data ++ hash :: rest)) ↔
      Complete σ dispatcher (s.sendRaw [minus]) (σ.recv 2 rest).2 := by
  rw [complete_packet_iff h]
  constructor
  · rintro (⟨-, -, hrest⟩ | ⟨hright, -⟩)
    · exact hrest
    · exact absurd hright hwrong
  · exact fun hrest => Or.inl ⟨hgap, hwrong, hrest⟩

/-- A packet whose handler returns. -/
theorem complete_handled_iff (h : hash ∉ data) (hright : DigitsRight data (σ.recv 2 rest).1)
    (hanswer : s.answer dispatcher (unpackFields data) = .ok s') :
    Complete σ dispatcher s (dollar :: (data ++ hash :: rest)) ↔
      Complete σ dispatcher s' (σ.recv 2 rest).2 := by
  rw [complete_packet_iff h, hanswer]
  constructor
  · rintro (⟨-, hwrong, -⟩ | ⟨-, s'', hs'', hrest⟩)
    · exact absurd hright hwrong
    · rwa [Except.ok.inj hs'']
  · exact fun hrest => Or.inr ⟨hright, s', rfl, hrest⟩

/-- A packet whose handler does not return. -/
theorem not_complete_of_error (h : hash ∉ data) (hright : DigitsRight data (σ.recv 2 rest).1)
    (hanswer : s.answer dispatcher (unpackFields data) = .error a) :
    ¬ Complete σ dispatcher s (dollar :: (data ++ hash :: rest)) := by
  rw [complete_packet_iff h, hanswer]
  rintro (⟨-, hwrong, -⟩ | ⟨-, s'', hs'', -⟩)
  · exact hwrong hright
  · cases hs''

/-- A packet of a stream that the server stops at the end of. -/
theorem stops_packet_iff_complete (h : hash ∉ data)
    (ih : ∀ s : Conn W, Stops σ dispatcher s (σ.recv 2 rest).2 ↔
      Complete σ dispatcher s (σ.recv 2 rest).2) :
    Stops σ dispatcher s (dollar :: (data ++ hash :: rest)) ↔
      Complete σ dispatcher s (dollar :: (data ++ hash :: rest)) := by
  rw [stops_packet_iff h]
  by_cases hgap : GapDigits (σ.recv 2 rest).1
  · rw [Phase.step_closed_of_gapDigits hgap]
    exact iff_of_false not_ends_aborted (not_complete_of_gapDigits h hgap)
  · by_cases hright : DigitsRight data (σ.recv 2 rest).1
    · rw [Phase.step_closed_of_right hright]
      cases hanswer : s.answer dispatcher (unpackFields data) with
      | ok s' =>
          rw [complete_handled_iff h hright hanswer]
          exact ih s'
      | error a => exact iff_of_false not_ends_aborted (not_complete_of_error h hright hanswer)
    · rw [Phase.step_closed_of_wrong hgap hright, complete_refused_iff h hgap hright]
      exact ih _

/-- **The server stops iff the stream is complete**, for every stream and whatever the handlers
do. -/
theorem stops_iff (σ : Segmentation) (dispatcher : Dispatcher W) (s : Conn W) (stream : List Byte) :
    Stops σ dispatcher s stream ↔ Complete σ dispatcher s stream := by
  induction stream using stream_induction generalizing s with
  | nil => exact iff_of_true stops_nil (.nil s)
  | ignored c stream hc ih => rw [stops_cons_iff hc, complete_cons_iff hc, ih]
  | unfinished stream h => exact iff_of_false (not_stops_unfinished h) (not_complete_unfinished h)
  | packet data rest h ih =>
      exact stops_packet_iff_complete h fun s => ih _ (length_recv_le σ 2 rest) s

/-- `$`, and then the end of the stream: no handler is called, and the server reads for ever. -/
theorem cut_packet_runs_on :
    ¬ Stops whole (dispatch Python.sample 1) ⟨GdbServer.sample, []⟩ [dollar] :=
  not_stops_unfinished List.not_mem_nil

end Hbootdbg.Gdb
