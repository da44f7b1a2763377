import Hbootdbg.Gdb.EndOfStream
import Hbootdbg.Gdb.Transport

/-!
# What becomes of the server

`run` reads bytes; what it does depends on the events of the stream alone. The machine of its loops
refines a fold over the events, and on packets as GDB makes them the fold is that of the dispatcher.

* `Fate`, `fate` — what becomes of the server: over the events, one by one.
* `Phase.fate` — what can be seen of the machine once nothing more happens.
* `settles_fate` — the machine settles at the fate of the events, for any stream, any segmentation
  and any dispatcher.
* `settles_as_whole` — the events are those of the stream as a whole iff each read of two digits
  returns two; then the machine settles where it does for the whole stream.
* `frame`, `session` — the packet for some data, and a stream of packets with other bytes between.
* `answers`, `settles_session` — every packet of a session is acknowledged and answered once, in
  order, however the stream arrives.
-/

namespace Hbootdbg.Gdb

open Hbootdbg.Lib.ByteMem Hbootdbg.Lib.Hex Hbootdbg.Lib.Machine Hbootdbg.Lib.PyInt

variable {W : Type}

/-! ## The fold over the events -/

/-- What becomes of a server object on a connection. -/
inductive Fate (W : Type)
  /-- `run` has returned. -/
  | stopped (s : Conn W)
  /-- `run` reads the data of a packet for ever. -/
  | reading (s : Conn W)
  /-- A handler has not returned, or the digits of a packet have made `int` raise. -/
  | aborted (a : Abort)

/-- What becomes of the server, event by event. -/
def fate (dispatcher : Dispatcher W) (s : Conn W) : List Event → Fate W
  | [] => .stopped s
  | .ignored _ :: es => fate dispatcher s es
  | .unfinished _ :: _ => .reading s
  | .packet _ _ none :: _ => .aborted .raised
  | .packet _ _ (some none) :: es => fate dispatcher (s.sendRaw [minus]) es
  | .packet _ _ (some (some fields)) :: es =>
      match s.answer dispatcher fields with
      | .ok s => fate dispatcher s es
      | .error a => .aborted a

/-- What can be seen of the machine. In the data of a packet, with nothing left to be read, it is
where it stays. -/
def Phase.fate : Phase W → Option (Fate W)
  | .inData s _ [] => some (.reading s)
  | .stopped s => some (.stopped s)
  | .aborted a => some (.aborted a)
  | _ => none

variable {σ : Segmentation} {dispatcher : Dispatcher W} {s : Conn W} {data stream rest : List Byte}
  {a : Abort} {f : Fate W} {noise : List Byte}

/-! ## Where the machine settles -/

theorem settles_stopped :
    Settles (Phase.step σ dispatcher) Phase.fate (.stopped s) (.stopped s) :=
  settles_of_fixed rfl rfl

theorem settles_aborted :
    Settles (Phase.step σ dispatcher) Phase.fate (.aborted a) (.aborted a) :=
  settles_of_fixed rfl rfl

/-- Without a `#`, the machine settles in the data of the packet. -/
theorem settles_reading (h : hash ∉ stream) :
    Settles (Phase.step σ dispatcher) Phase.fate (.inData s data stream) (.reading s) := by
  induction stream generalizing data with
  | nil => exact settles_of_fixed Phase.step_inData_nil rfl
  | cons c stream ih =>
      obtain ⟨hc, hstream⟩ := List.ne_and_not_mem_of_not_mem_cons h
      rw [← settles_step_iff, Phase.step_inData_of_ne (Ne.symm hc)]
      exact ih hstream

/-- The data of a packet are read up to the `#`. -/
theorem settles_inData_iff (h : hash ∉ stream) :
    Settles (Phase.step σ dispatcher) Phase.fate (.inData s data (stream ++ hash :: rest)) f ↔
      Settles (Phase.step σ dispatcher) Phase.fate (.closed s (data ++ stream) rest) f := by
  induction stream generalizing data with
  | nil => rw [List.nil_append, ← settles_step_iff, Phase.step_inData_hash, List.append_nil]
  | cons c stream ih =>
      obtain ⟨hc, hstream⟩ := List.ne_and_not_mem_of_not_mem_cons h
      rw [List.cons_append, ← settles_step_iff, Phase.step_inData_of_ne (Ne.symm hc), ih hstream,
        List.append_assoc, List.singleton_append]

/-- **The machine settles at the fate of the events**, for every stream, however it arrives and
whatever the handlers do. -/
theorem settles_fate (σ : Segmentation) (dispatcher : Dispatcher W) (s : Conn W)
    (stream : List Byte) :
    Settles (Phase.step σ dispatcher) Phase.fate (.idle s stream)
      (fate dispatcher s (run σ stream)) := by
  induction stream using stream_induction generalizing s with
  | nil =>
      rw [← settles_step_iff, Phase.step_idle_nil]
      exact settles_stopped
  | ignored c stream hc ih =>
      rw [← settles_step_iff, Phase.step_idle_of_ne hc, run_cons_of_ne hc]
      exact ih s
  | unfinished stream h =>
      rw [← settles_step_iff, Phase.step_idle_dollar, run_unfinished h]
      exact settles_reading h
  | packet data rest h ih =>
      have hrest := fun s => ih _ (length_recv_le σ 2 rest) s
      rw [← settles_step_iff, Phase.step_idle_dollar, settles_inData_iff h, List.nil_append,
        ← settles_step_iff, run_packet h]
      by_cases hgap : GapDigits (σ.recv 2 rest).1
      · rw [Phase.step_closed_of_gapDigits hgap, unpack_of_gapDigits hgap]
        exact settles_aborted
      · by_cases hright : DigitsRight data (σ.recv 2 rest).1
        · rw [Phase.step_closed_of_right hright, unpack_of_digitsRight hright, if_neg nofun, fate]
          cases s.answer dispatcher (unpackFields data) with
          | ok s' => exact hrest s'
          | error a => exact settles_aborted
        · rw [Phase.step_closed_of_wrong hgap hright, unpack_of_wrong hgap hright, if_neg nofun]
          exact hrest _

/-- **The fate of the events is where the machine settles, and nothing else is.** -/
theorem settles_iff (σ : Segmentation) (dispatcher : Dispatcher W) (s : Conn W)
    (stream : List Byte) (f : Fate W) :
    Settles (Phase.step σ dispatcher) Phase.fate (.idle s stream) f ↔
      f = fate dispatcher s (run σ stream) := by
  have hfate := settles_fate σ dispatcher s stream
  constructor
  · exact fun h => h.unique hfate
  · rintro rfl
    exact hfate

/-- **How a stream is cut matters in one place only.** Whatever the segmentation, the events have
the bytes of the stream in order, and the machine settles at their fate alone. They are the events
of the stream as a whole iff each read of two digits returns two, and then the machine settles where
it does for the stream as a whole. -/
theorem settles_as_whole (σ : Segmentation) (dispatcher : Dispatcher W) (s : Conn W)
    (stream : List Byte) :
    (run σ stream).flatMap Event.bytes <+: stream ∧
      (∀ f, Settles (Phase.step σ dispatcher) Phase.fate (.idle s stream) f ↔
        f = fate dispatcher s (run σ stream)) ∧
      (run σ stream = run whole stream ↔ ReadsDigits σ stream) ∧
      (ReadsDigits σ stream → ∀ f,
        (Settles (Phase.step σ dispatcher) Phase.fate (.idle s stream) f ↔
          Settles (Phase.step whole dispatcher) Phase.fate (.idle s stream) f)) := by
  refine ⟨bytes_run σ stream, settles_iff σ dispatcher s stream, run_eq_whole_iff σ stream, ?_⟩
  intro hσ f
  have hrun : run σ stream = run whole stream := (run_eq_whole_iff σ stream).mpr hσ
  rw [settles_iff, settles_iff, hrun]

/-! ## Sessions -/

/-- The packet for some data, as GDB makes it. -/
def frame (data : List Byte) : List Byte := dollar :: (data ++ hash :: hexPair (checksum data))

/-- A stream of packets, each after some bytes that belong to no packet. -/
def session (packets : List (List Byte × List Byte)) : List Byte :=
  packets.flatMap fun p => p.1 ++ frame p.2

/-- The packets of a session can be told from the bytes between them. -/
def WellFormed (packets : List (List Byte × List Byte)) : Prop :=
  ∀ p ∈ packets, dollar ∉ p.1 ∧ hash ∉ p.2

instance (packets : List (List Byte × List Byte)) : Decidable (WellFormed packets) :=
  inferInstanceAs (Decidable (∀ p ∈ packets, _))

/-- The answers to the packets, one after the other. -/
def answers (dispatcher : Dispatcher W) (s : Conn W) (packets : List (List Byte × List Byte)) :
    Fate W :=
  match packets.foldlM (fun s p => s.answer dispatcher (unpackFields p.2)) s with
  | .ok s => .stopped s
  | .error a => .aborted a

/-- The digits of a frame are taken together. -/
theorem recv_whole_hexPair (b : Byte) (rest : List Byte) :
    whole.recv 2 (hexPair b ++ rest) = (hexPair b, rest) := by
  rw [recv_whole]
  rfl

/-- Bytes outside of packets change nothing. -/
theorem fate_noise (h : dollar ∉ noise) (stream : List Byte) :
    fate dispatcher s (run σ (noise ++ stream)) = fate dispatcher s (run σ stream) := by
  induction noise with
  | nil => rfl
  | cons c noise ih =>
      obtain ⟨hc, hnoise⟩ := List.ne_and_not_mem_of_not_mem_cons h
      rw [List.cons_append, run_cons_of_ne (Ne.symm hc)]
      exact ih hnoise

/-- A frame is answered. -/
theorem fate_frame (h : hash ∉ data) (rest : List Byte) :
    fate dispatcher s (run whole (frame data ++ rest)) =
      match s.answer dispatcher (unpackFields data) with
      | .ok s => fate dispatcher s (run whole rest)
      | .error a => .aborted a := by
  rw [frame, List.cons_append, List.append_assoc, List.cons_append, run_packet h,
    recv_whole_hexPair, unpack_hexPair, if_neg nofun, fate]

theorem fate_session {packets : List (List Byte × List Byte)} (h : WellFormed packets) :
    fate dispatcher s (run whole (session packets)) = answers dispatcher s packets := by
  induction packets generalizing s with
  | nil => rfl
  | cons p packets ih =>
      obtain ⟨⟨hnoise, hdata⟩, hrest⟩ := List.forall_mem_cons.mp h
      rw [session, List.flatMap_cons, ← session, List.append_assoc, fate_noise hnoise,
        fate_frame hdata, answers, List.foldlM_cons]
      cases s.answer dispatcher (unpackFields p.2) with
      | ok s' => exact ih hrest
      | error a => rfl

/-- **Every packet of a session is acknowledged and answered once, in order**, however the stream
arrives: with every read of two digits finding two, the machine settles where the answers lead,
whatever the handlers do. -/
theorem settles_session (σ : Segmentation) (dispatcher : Dispatcher W) (s : Conn W)
    (packets : List (List Byte × List Byte)) (h : WellFormed packets)
    (hσ : ReadsDigits σ (session packets)) :
    Settles (Phase.step σ dispatcher) Phase.fate (.idle s (session packets))
      (answers dispatcher s packets) := by
  have hsettles := settles_fate σ dispatcher s (session packets)
  rwa [(run_eq_whole_iff σ (session packets)).mpr hσ, fate_session h] at hsettles

/-- `+$g#67` and `$?#3f`, two bytes at a time. -/
theorem settles_session_sample :
    Settles (Phase.step ⟨.tcp, fun _ => 2⟩ (dispatch Python.sample 1)) Phase.fate
      (.idle ⟨GdbServer.sample, []⟩ (session [([plus], [0x67#8]), ([], [0x3f#8])]))
      (answers (dispatch Python.sample 1) ⟨GdbServer.sample, []⟩
        [([plus], [0x67#8]), ([], [0x3f#8])]) :=
  settles_session _ _ _ _ (by decide) ((run_eq_whole_iff _ _).mp (by decide +kernel))

end Hbootdbg.Gdb
