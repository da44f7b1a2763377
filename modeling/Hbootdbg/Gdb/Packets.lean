import Hbootdbg.Lib.Hex

/-!
# `gdbproxy.py`: packets

A packet is `$`, the escaped data, `#` and two digits that sum up the data. `run` reads it byte by
byte up to the `#`, and the digits with one `read (2)`.

* `unpack` — checks the sum and splits the data; `unpackFields_eq` says what the loop computes: the
  data are split at `,`, `:` and `;`, and no escape is undone.
* `pack` — the packet for a list of byte strings.
* `Segmentation`, `recv` — the media, and how many bytes are there to read at each point of a stream.
* `Event`, `run` — what the server makes of a stream: every byte is ignored, or belongs to a packet.
* `run_cons_of_ne`, `run_packet`, `run_unfinished` — the equations of `run`, without the bound;
  `stream_induction` has a case for each of them.
-/

namespace Hbootdbg.Gdb

open Hbootdbg.Lib.ByteMem Hbootdbg.Lib.Hex

/-! ## `unpack` -/

/-- `$`. -/
def dollar : Byte := 0x24#8

/-- `#`. -/
def hash : Byte := 0x23#8

/-- `}`. -/
def brace : Byte := 0x7d#8

/-- `;`. -/
def semicolon : Byte := 0x3b#8

/-- The separators `,`, `:` and `;`. -/
def isSeparator (c : Byte) : Bool := c == 0x2c#8 || c == 0x3a#8 || c == semicolon

/-- `c == b` for an `int` and a `bytes` object, which are never equal. -/
def intEqBytes (_c : Byte) (_b : List Byte) : Bool := false

/-- The variables of the loop of `unpack`. -/
structure Words where
  /-- `result`. -/
  result : List (List Byte)
  /-- `current_word`. -/
  currentWord : List Byte
  /-- `escaped`. -/
  escaped : Bool

/-- The body of the loop. Source: `scripts/gdbproxy.py` `GDBServer.unpack` -/
def Words.step (w : Words) (c : Byte) : Words :=
  if w.escaped then { w with currentWord := w.currentWord ++ [c ^^^ 0x20#8], escaped := false }
  else if intEqBytes c [brace] then { w with escaped := true }
  else if isSeparator c then { w with result := w.result ++ [w.currentWord], currentWord := [] }
  else { w with currentWord := w.currentWord ++ [c] }

/-- The fields of the data. Source: `scripts/gdbproxy.py` `GDBServer.unpack` -/
def unpackFields (data : List Byte) : List (List Byte) :=
  let w := data.foldl Words.step ⟨[], [], false⟩
  w.result ++ [w.currentWord]

/-- `bytes.lower`, byte by byte. -/
def lower (c : Byte) : Byte := if 0x41#8 ≤ c ∧ c ≤ 0x5a#8 then c + 0x20#8 else c

/-- `sum (c for c in data) % 256`. -/
def checksum (data : List Byte) : Byte := data.foldl (· + ·) 0#8

/-- `unpack (data, checksum)`: `none` for `None`, and `none` outside of it where `int` raises.
Source: `scripts/gdbproxy.py` `GDBServer.unpack` -/
def unpack (data digits : List Byte) : Option (Option (List (List Byte))) :=
  let digits := digits.map lower
  if digits.length ≠ 2 ∨ ¬ ∀ c ∈ digits, 0x30#8 ≤ c ∧ c ≤ 0x66#8 then some none
  else (ofHex digits).map fun v =>
    if (checksum data).toNat ≠ v then none else some (unpackFields data)

/-! ## `pack` -/

/-- The bytes that `pack` escapes. -/
def isSpecial (c : Byte) : Bool := c == dollar || c == hash || c == brace

/-- One byte, escaped. Source: `scripts/gdbproxy.py` `GDBServer.pack` -/
def escapeByte (c : Byte) : List Byte := if isSpecial c then [brace, c ^^^ 0x20#8] else [c]

/-- A byte string, escaped. Source: `scripts/gdbproxy.py` `GDBServer.pack` -/
def escape (data : List Byte) : List Byte := data.flatMap escapeByte

/-- `packed_data`. Source: `scripts/gdbproxy.py` `GDBServer.pack` -/
def packedData (dataList : List (List Byte)) : List Byte :=
  [semicolon].intercalate (dataList.map escape)

/-- `pack (data_list)`. Source: `scripts/gdbproxy.py` `GDBServer.pack` -/
def pack (dataList : List (List Byte)) : List Byte :=
  dollar :: (packedData dataList ++ hash :: hexPair (checksum (packedData dataList)))

/-! ## `run` -/

/-- The classes that `run` can read from. -/
inductive Server
  | tcp
  | serial

/-- A server, and the number of bytes that have arrived, at each number of bytes of the stream that
are still to be read: what `recv` finds, or `inWaiting` after the first byte. -/
structure Segmentation where
  /-- `TCPServer` or `SerialServer`. -/
  server : Server
  /-- The bytes that are there. -/
  pending : ℕ → ℕ

/-- The number of bytes that `recv (size)` returns while the stream lasts. `recv` of a socket waits
for a byte. Source: `scripts/gdbproxy.py` `TCPServer.recv`, `SerialServer.recv` -/
def Segmentation.count (σ : Segmentation) (size left : ℕ) : ℕ :=
  match σ.server with
  | .tcp => min size (max 1 (σ.pending left))
  | .serial =>
      let n := σ.pending left
      if size > 1 ∧ n > 0 then 1 + min size n else 1

/-- `recv (size)`: what is read, and what remains; nothing is read at the end of the stream. -/
def Segmentation.recv (σ : Segmentation) (size : ℕ) (stream : List Byte) : List Byte × List Byte :=
  stream.splitAt (σ.count size stream.length)

/-- What a part of the stream is to the server. -/
inductive Event
  /-- A byte outside of packets; `+`, `-` and interruptions are ignored as well. -/
  | ignored (c : Byte)
  /-- A packet: its data, what was read for its digits, and what `unpack` makes of it. It is
  answered by `-` or dispatched, or ends the server. -/
  | packet (data digits : List Byte) (result : Option (Option (List (List Byte))))
  /-- The data of a packet without `#`: the server reads for ever. -/
  | unfinished (data : List Byte)
  deriving DecidableEq

/-- The loop that collects the data of a packet, with reads of one byte (`recv_one`). The result is
the data and the rest of the stream, or `none` where the loop does not end.
Source: `scripts/gdbproxy.py` `GDBServer.run` -/
def readData : List Byte → Option (List Byte × List Byte)
  | [] => none
  | byte :: stream =>
      if byte ≠ hash then (readData stream).map fun r => (byte :: r.1, r.2) else some ([], stream)

/-- The main loop, for a number of rounds. Source: `scripts/gdbproxy.py` `GDBServer.run` -/
def runLoop (σ : Segmentation) : ℕ → List Byte → List Event
  | 0, _ => []
  | _ + 1, [] => []
  | fuel + 1, packetType :: stream =>
      if packetType = dollar then
        match readData stream with
        | none => [.unfinished stream]
        | some (data, stream) =>
            let (digits, stream) := σ.recv 2 stream
            let result := unpack data digits
            .packet data digits result ::
              if result = none then [] else runLoop σ fuel stream
      else .ignored packetType :: runLoop σ fuel stream

/-- What the server makes of a stream. Every round reads a byte.
Source: `scripts/gdbproxy.py` `GDBServer.run` -/
def run (σ : Segmentation) (stream : List Byte) : List Event := runLoop σ stream.length stream

variable {σ : Segmentation} {data rest stream : List Byte} {c : Byte} {fuel : ℕ}

/-! ## The loop of `unpack` -/

/-- **The loop splits the data at the separators**; `escaped` is never set. -/
theorem foldl_step (data : List Byte) (result : List (List Byte)) (word : List Byte) :
    ∃ w, data.foldl Words.step ⟨result, word, false⟩ = w ∧
      w.result ++ [w.currentWord] =
        result ++ (data.splitOnP isSeparator).modifyHead (word ++ ·) := by
  induction data generalizing result word with
  | nil => exact ⟨_, rfl, by simp⟩
  | cons c data ih =>
      rw [List.foldl_cons, List.splitOnP_cons_eq_if_modifyHead]
      by_cases hc : isSeparator c = true
      · obtain ⟨w, hw, hres⟩ := ih (result ++ [word]) []
        refine ⟨w, ?_, ?_⟩
        · rw [← hw]
          simp [Words.step, intEqBytes, hc]
        · rw [hres, if_pos hc]
          cases data.splitOnP isSeparator <;> simp
      · obtain ⟨w, hw, hres⟩ := ih result (word ++ [c])
        refine ⟨w, ?_, ?_⟩
        · rw [← hw]
          simp [Words.step, intEqBytes, hc]
        · rw [hres, if_neg hc, List.modifyHead_modifyHead]
          congr 2
          funext x
          simp

theorem unpackFields_eq (data : List Byte) : unpackFields data = data.splitOnP isSeparator := by
  obtain ⟨w, hw, hres⟩ := foldl_step data [] []
  unfold unpackFields
  simp only [hw, hres]
  cases data.splitOnP isSeparator <;> simp

/-! ## The equations of `run` -/

/-- A read of one byte does not depend on what has arrived. -/
theorem recv_one (σ : Segmentation) (c : Byte) (stream : List Byte) :
    σ.recv 1 (c :: stream) = ([c], stream) := by
  have hcount : σ.count 1 (stream.length + 1) = 1 := by
    unfold Segmentation.count
    cases σ.server with
    | tcp => exact min_eq_left (le_max_left _ _)
    | serial => simp
  simp [Segmentation.recv, hcount]

/-- At the end of the stream nothing is read. -/
theorem recv_nil (σ : Segmentation) (size : ℕ) : σ.recv size [] = ([], []) := by
  rw [Segmentation.recv, List.splitAt_eq, List.take_nil, List.drop_nil]

/-- The data of a packet are what precedes the first `#`. -/
theorem readData_append (h : hash ∉ data) (rest : List Byte) :
    readData (data ++ hash :: rest) = some (data, rest) := by
  induction data with
  | nil => rfl
  | cons c data ih =>
      obtain ⟨hc, hdata⟩ := List.ne_and_not_mem_of_not_mem_cons h
      rw [List.cons_append, readData, if_pos (Ne.symm hc), ih hdata, Option.map_some]

theorem readData_eq_some (h : readData stream = some (data, rest)) :
    stream = data ++ hash :: rest ∧ hash ∉ data := by
  induction stream generalizing data with
  | nil => cases h
  | cons c stream ih =>
      rw [readData] at h
      by_cases hc : c = hash
      · rw [if_neg (not_not_intro hc)] at h
        obtain ⟨rfl, rfl⟩ := Prod.mk.inj (Option.some.inj h)
        exact ⟨by rw [hc, List.nil_append], List.not_mem_nil⟩
      · rw [if_pos hc] at h
        obtain ⟨⟨data', rest'⟩, hread, he⟩ := Option.map_eq_some_iff.mp h
        obtain ⟨rfl, rfl⟩ := Prod.mk.inj he
        obtain ⟨rfl, hmem⟩ := ih hread
        exact ⟨rfl, fun hin => (List.mem_cons.mp hin).elim (fun he => hc he.symm) hmem⟩

/-- A packet determines its data, and what follows it. -/
theorem append_hash_inj {data' rest' : List Byte} (h : hash ∉ data) (h' : hash ∉ data')
    (he : data ++ hash :: rest = data' ++ hash :: rest') : data = data' ∧ rest = rest' := by
  have hread := readData_append h rest
  rw [he, readData_append h' rest'] at hread
  obtain ⟨rfl, rfl⟩ := Prod.mk.inj (Option.some.inj hread)
  exact ⟨rfl, rfl⟩

/-- Without a `#`, the data do not end. -/
theorem readData_eq_none (h : hash ∉ stream) : readData stream = none := by
  cases hread : readData stream with
  | none => rfl
  | some r =>
      obtain ⟨data, rest⟩ := r
      obtain ⟨rfl, -⟩ := readData_eq_some hread
      exact absurd (List.mem_append_right _ List.mem_cons_self) h

theorem length_recv_le (σ : Segmentation) (size : ℕ) (stream : List Byte) :
    (σ.recv size stream).2.length ≤ stream.length := by
  rw [Segmentation.recv, List.splitAt_eq]
  simp

/-- **Enough rounds are enough.** -/
theorem runLoop_eq (h : stream.length ≤ fuel) : runLoop σ fuel stream = run σ stream := by
  induction hn : stream.length using Nat.strong_induction_on generalizing stream fuel with
  | _ n ih =>
      subst hn
      cases stream with
      | nil => cases fuel <;> rfl
      | cons c stream =>
          obtain ⟨k, rfl⟩ : ∃ k, fuel = k + 1 := ⟨fuel - 1, by simp at h; omega⟩
          rw [List.length_cons] at h
          have hrest : ∀ {s : List Byte}, s.length ≤ stream.length →
              runLoop σ k s = runLoop σ stream.length s := by
            intro s hs
            have hlt : s.length < (c :: stream).length := Nat.lt_succ_of_le hs
            have hk : runLoop σ k s = run σ s := ih s.length hlt (by omega) rfl
            exact hk.trans (ih s.length hlt hs rfl).symm
          unfold run
          rw [List.length_cons, runLoop, runLoop, hrest le_rfl]
          cases hread : readData stream with
          | none => rfl
          | some r =>
              obtain ⟨data, rest⟩ := r
              obtain ⟨rfl, -⟩ := readData_eq_some hread
              have hle := length_recv_le σ 2 rest
              have hlen : (σ.recv 2 rest).2.length ≤ (data ++ hash :: rest).length := by
                rw [List.length_append, List.length_cons]
                omega
              simp only [hrest hlen]

@[simp] theorem run_nil : run σ [] = [] := rfl

/-- A byte outside of packets. -/
theorem run_cons_of_ne (hc : c ≠ dollar) (stream : List Byte) :
    run σ (c :: stream) = .ignored c :: run σ stream := by
  rw [run, List.length_cons, runLoop, if_neg hc]
  rfl

/-- A packet that does not end. -/
theorem run_unfinished (h : hash ∉ stream) : run σ (dollar :: stream) = [.unfinished stream] := by
  rw [run, List.length_cons, runLoop, if_pos rfl, readData_eq_none h]

/-- A packet, and what follows it. -/
theorem run_packet (h : hash ∉ data) (rest : List Byte) :
    run σ (dollar :: (data ++ hash :: rest)) =
      .packet data (σ.recv 2 rest).1 (unpack data (σ.recv 2 rest).1) ::
        if unpack data (σ.recv 2 rest).1 = none then [] else run σ (σ.recv 2 rest).2 := by
  have hle := length_recv_le σ 2 rest
  rw [run, List.length_cons, runLoop, if_pos rfl, readData_append h]
  simp only
  rw [runLoop_eq (by simp; omega)]

/-- **Induction over the parts of a stream**: a byte outside of packets, a packet that does not end,
a packet with anything that is not longer than its rest. -/
theorem stream_induction {P : List Byte → Prop} (nil : P [])
    (ignored : ∀ c s, c ≠ dollar → P s → P (c :: s))
    (unfinished : ∀ s, hash ∉ s → P (dollar :: s))
    (packet : ∀ data rest, hash ∉ data → (∀ s : List Byte, s.length ≤ rest.length → P s) →
      P (dollar :: (data ++ hash :: rest)))
    (stream : List Byte) : P stream := by
  induction hn : stream.length using Nat.strong_induction_on generalizing stream with
  | _ n ih =>
      subst hn
      cases stream with
      | nil => exact nil
      | cons c s =>
          by_cases hc : c = dollar
          · subst hc
            by_cases hs : hash ∈ s
            · obtain ⟨data, rest, rfl, hdata⟩ := List.eq_append_cons_of_mem hs
              refine packet data rest hdata fun t ht => ih t.length ?_ t rfl
              simp only [List.length_cons, List.length_append]
              omega
            · exact unfinished s hs
          · exact ignored c s hc (ih s.length (by simp) s rfl)

end Hbootdbg.Gdb
