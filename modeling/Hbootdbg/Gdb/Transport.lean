import Hbootdbg.Gdb.Framing

/-!
# The stream in pieces

A socket returns what has arrived: one byte for `read (2)`, if the second digit is late. The serial
server reads one byte and then up to two more.

* `ParsesAlike` — two segmentations of a stream are read alike, and as the stream that has arrived
  as a whole.
* `bytes_run` — no byte is lost in any of them: a byte can only be taken for something else.
* `ReadsDigits` — every read of two digits returns two, or what is left; `count_two_iff` says when
  it does.
* `run_eq_whole_iff` — that is when a stream is read as a whole; `parsesAlike_iff` says so for two
  segmentations. `late_digit` is a stream that is not.
-/

namespace Hbootdbg.Gdb

open Hbootdbg.Lib.ByteMem Hbootdbg.Lib.Hex

/-- The server makes the same of both segmentations, with every byte in its place. -/
def ParsesAlike (σ σ' : Segmentation) (stream : List Byte) : Prop :=
  run σ stream = run σ' stream ∧ run σ stream = run whole stream

/-- Each `read (2)` for the digits of a packet returns two bytes, or all that are left; it does not
matter what follows a packet that makes `int` raise. -/
inductive ReadsDigits (σ : Segmentation) : List Byte → Prop
  | nil : ReadsDigits σ []
  | ignored {c : Byte} {s : List Byte} (hc : c ≠ dollar) (h : ReadsDigits σ s) :
      ReadsDigits σ (c :: s)
  | unfinished {s : List Byte} (h : hash ∉ s) : ReadsDigits σ (dollar :: s)
  | packet {data rest : List Byte} (h : hash ∉ data)
      (hcount : min (σ.count 2 rest.length) rest.length = min 2 rest.length)
      (hnext : unpack data (rest.take 2) ≠ none → ReadsDigits σ (rest.drop 2)) :
      ReadsDigits σ (dollar :: (data ++ hash :: rest))

/-- The bytes that belong to an event. -/
def Event.bytes : Event → List Byte
  | .ignored c => [c]
  | .packet data digits _ => dollar :: (data ++ hash :: digits)
  | .unfinished data => dollar :: data

variable {σ σ' : Segmentation} {data rest stream : List Byte}

/-! ## No byte is lost -/

theorem recv_append (σ : Segmentation) (size : ℕ) (stream : List Byte) :
    (σ.recv size stream).1 ++ (σ.recv size stream).2 = stream := by
  rw [Segmentation.recv, List.splitAt_eq, List.take_append_drop]

/-- **The events have the bytes of the stream, in order**, up to a packet that makes `int` raise. -/
theorem bytes_run (σ : Segmentation) (stream : List Byte) :
    (run σ stream).flatMap Event.bytes <+: stream := by
  induction stream using stream_induction with
  | nil => exact List.prefix_rfl
  | ignored c s hc ih =>
      rw [run_cons_of_ne hc, List.flatMap_cons]
      exact (List.prefix_append_right_inj [c]).mpr ih
  | unfinished s hs =>
      rw [run_unfinished hs, List.flatMap_singleton]
      exact List.prefix_rfl
  | packet data rest hdata ih =>
      have hstream : dollar :: (data ++ hash :: rest) =
          dollar :: (data ++ hash :: (σ.recv 2 rest).1) ++ (σ.recv 2 rest).2 := by
        rw [List.cons_append, List.append_assoc, List.cons_append, recv_append]
      rw [run_packet hdata, List.flatMap_cons, hstream]
      refine (List.prefix_append_right_inj _).mpr ?_
      split
      · exact List.nil_prefix
      · exact ih _ (length_recv_le σ 2 rest)

/-! ## Digits -/

theorem recv_eq (σ : Segmentation) (size : ℕ) (stream : List Byte) :
    σ.recv size stream =
      (stream.take (σ.count size stream.length), stream.drop (σ.count size stream.length)) :=
  List.splitAt_eq

/-- All that has arrived gives two digits. -/
theorem recv_whole (rest : List Byte) : whole.recv 2 rest = (rest.take 2, rest.drop 2) := by
  have hcount : min (whole.count 2 rest.length) rest.length = min 2 rest.length := by
    have hdef : whole.count 2 rest.length = min 2 (max 1 rest.length) := rfl
    omega
  rw [recv_eq, List.take_eq_take_iff.mpr hcount, List.drop_eq_drop_iff.mpr hcount]

/-- Two bytes are returned iff both have arrived, or, to the serial server, iff just one is waiting
after the first. -/
theorem count_two_iff (σ : Segmentation) (left : ℕ) :
    σ.count 2 left = 2 ↔
      match σ.server with
      | .tcp => 2 ≤ σ.pending left
      | .serial => σ.pending left = 1 := by
  unfold Segmentation.count
  cases σ.server with
  | tcp =>
      simp only
      omega
  | serial =>
      simp only
      split <;> omega

/-- What is demanded of the first packet, and of what follows it. -/
theorem ReadsDigits.digits (h : ReadsDigits σ stream)
    (hs : stream = dollar :: (data ++ hash :: rest)) (hdata : hash ∉ data) :
    min (σ.count 2 rest.length) rest.length = min 2 rest.length ∧
      (unpack data (rest.take 2) ≠ none → ReadsDigits σ (rest.drop 2)) := by
  cases h with
  | nil => cases hs
  | ignored hc => exact absurd (List.cons.inj hs).1 hc
  | unfinished hmem =>
      obtain ⟨-, rfl⟩ := List.cons.inj hs
      exact absurd (List.mem_append_right _ List.mem_cons_self) hmem
  | @packet data' rest' hdata' hcount hnext =>
      obtain ⟨rfl, rfl⟩ := append_hash_inj hdata' hdata (List.cons.inj hs).2
      exact ⟨hcount, hnext⟩

/-- **A stream is read as a whole iff each read of two digits returns two.** -/
theorem run_eq_whole_iff (σ : Segmentation) (stream : List Byte) :
    run σ stream = run whole stream ↔ ReadsDigits σ stream := by
  induction stream using stream_induction with
  | nil => exact iff_of_true rfl .nil
  | ignored c s hc ih =>
      rw [run_cons_of_ne hc, run_cons_of_ne hc, List.cons_eq_cons, ih]
      constructor
      · rintro ⟨-, h⟩
        exact .ignored hc h
      · intro h
        cases h with
        | ignored _ h => exact ⟨rfl, h⟩
        | unfinished | packet => exact absurd rfl hc
  | unfinished s hs =>
      rw [run_unfinished hs, run_unfinished hs]
      exact iff_of_true rfl (.unfinished hs)
  | packet data rest hdata ih =>
      rw [run_packet hdata, run_packet hdata, recv_whole, recv_eq]
      constructor
      · intro h
        obtain ⟨hhead, htail⟩ := List.cons.inj h
        obtain ⟨-, hdigits, -⟩ := Event.packet.inj hhead
        have hcount := List.take_eq_take_iff.mp hdigits
        refine .packet hdata hcount fun hne => (ih _ (by simp)).mp ?_
        rw [hdigits, if_neg hne, if_neg hne, List.drop_eq_drop_iff.mpr hcount] at htail
        exact htail
      · intro h
        obtain ⟨hcount, hnext⟩ := h.digits rfl hdata
        rw [List.take_eq_take_iff.mpr hcount, List.drop_eq_drop_iff.mpr hcount]
        by_cases hraise : unpack data (rest.take 2) = none
        · rw [if_pos hraise, if_pos hraise]
        · rw [if_neg hraise, if_neg hraise, (ih _ (by simp)).mpr (hnext hraise)]

/-- **Two segmentations of a stream are read alike, with every byte in its place, iff in both each
read of two digits returns two.** -/
theorem parsesAlike_iff (σ σ' : Segmentation) (stream : List Byte) :
    ParsesAlike σ σ' stream ↔ ReadsDigits σ stream ∧ ReadsDigits σ' stream := by
  rw [← run_eq_whole_iff, ← run_eq_whole_iff, ParsesAlike]
  constructor
  · rintro ⟨hsame, hwhole⟩
    exact ⟨hwhole, hsame.symm.trans hwhole⟩
  · rintro ⟨h, h'⟩
    exact ⟨h.trans h'.symm, h⟩

/-- `$g#67`. -/
def requestSample : List Byte := [0x24#8, 0x67#8, 0x23#8, 0x36#8, 0x37#8]

/-- A socket with one byte at a time: the packet is refused, and its second digit is taken for a
byte outside of packets. -/
theorem late_digit : ¬ ParsesAlike ⟨.tcp, fun _ => 1⟩ whole requestSample := by
  rintro ⟨-, h⟩
  revert h
  decide

/-- The serial server with two packets waiting: the `$` of the second one goes to the first, and
both are lost. -/
example : run ⟨.serial, id⟩ (requestSample ++ requestSample) =
    .packet [0x67#8] [0x36#8, 0x37#8, dollar] (some none) ::
      [0x67#8, hash, 0x36#8, 0x37#8].map .ignored := by
  decide

end Hbootdbg.Gdb
