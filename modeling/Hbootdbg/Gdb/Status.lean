import Hbootdbg.Gdb.Handlers

/-!
# What the proxy tells GDB about a request

The device answers every request with a status, which `Command.unpack` keeps in `error`. None of the
memory and breakpoint handlers looks at it.

* `MemoryRequest` — the requests `m`, `M`, `Z0` and `z0`, with well-formed arguments.
* `MemoryRequest.handle`, `MemoryRequest.method` — the handler of a request, and the method it
  calls.
* `Reports` — the reply is that of success iff the status is, and an error packet otherwise.
* `not_reports_of_not_keeps` — a read whose bytes the client takes for a prompt.
* `reports_iff` — other reads, insertions and removals are reported rightly iff they succeed, writes
  never. `missing_breakpoint_ok` is a removal that fails.
-/

namespace Hbootdbg.Gdb

open Hbootdbg.Lib.ByteMem Hbootdbg.Lib.Hex Hbootdbg.Device Hbootdbg.Host

/-- A decimal argument. -/
structure Decimal where
  /-- The digits in the packet. -/
  text : List Byte
  /-- The number they stand for. -/
  value : ℕ
  /-- The digits are those of the number. -/
  spells : ofDecimal text = some value

/-- A request, with well-formed arguments. -/
inductive MemoryRequest
  /-- `m address,size`. -/
  | m (address size : HexWord)
  /-- `M address,size:data`. -/
  | M (address size : HexWord) (data : List Byte)
  /-- `Z0,address,type`. -/
  | Z0 (address : HexWord) (type : Decimal)
  /-- `z0,address,type`. -/
  | z0 (address : HexWord) (type : Decimal)

/-- The handler that a request is dispatched to. -/
def MemoryRequest.handle (H : HbootClient) (B : Board) (d : Dev) :
    MemoryRequest → Option (Dev × List Byte)
  | .m address size => handleReadMemory H B d address.text [size.text]
  | .M address size data => handleWriteMemory H B d address.text [size.text, hexlify data]
  | .Z0 address type => handleInsertBreakpoint H B d [address.text, type.text]
  | .z0 address type => handleRemoveBreakpoint H B d [address.text, type.text]

/-- The method that the handler calls. -/
def MemoryRequest.method : MemoryRequest → Method
  | .m address size => .read address.value.toNat size.value.toNat
  | .M address size data => .write address.value.toNat size.value.toNat (bigEndian 0 data)
  | .Z0 address _ => .insertBreakpoint address.value.toNat 0
  | .z0 address _ => .removeBreakpoint address.value.toNat 0

/-- The data of a reply of success. -/
def MemoryRequest.IsSuccess (reply : List Byte) : MemoryRequest → Prop
  | .m _ size => ∃ data : List Byte, data.length = size.value.toNat ∧ reply = hexlify data
  | _ => reply = ok

/-- The reply tells the status that the device has returned. -/
def Reports (H : HbootClient) (B : Board) (d : Dev) (r : MemoryRequest) : Prop :=
  ∃ d' reply response, r.handle H B d = some (d', reply) ∧
    request H B d r.method = some (d', response) ∧
    (r.IsSuccess reply ↔ response.error = ErrorCode.success.code) ∧
    (response.error ≠ ErrorCode.success.code → reply.head? = some 0x45#8)

variable {H : HbootClient} {B : Board} {d d' : Dev} {r : MemoryRequest} {response : Response}
  {reply : List Byte}

/-- What has to be shown, once it is known what the handler and its method do. -/
theorem reports_iff_of_handle (hhandle : r.handle H B d = some (d', reply))
    (hreq : request H B d r.method = some (d', response)) :
    Reports H B d r ↔ (r.IsSuccess reply ↔ response.error = ErrorCode.success.code) ∧
      (response.error ≠ ErrorCode.success.code → reply.head? = some 0x45#8) := by
  constructor
  · rintro ⟨d₁, reply₁, response₁, hhandle₁, hreq₁, h⟩
    obtain ⟨-, rfl⟩ := Prod.mk.inj (Option.some.inj (hhandle.symm.trans hhandle₁))
    obtain ⟨-, rfl⟩ := Prod.mk.inj (Option.some.inj (hreq.symm.trans hreq₁))
    exact h
  · intro h
    exact ⟨d', reply, response, hhandle, hreq, h⟩

/-- The handler of a read answers with the data of the response. -/
theorem handle_read (a n : HexWord) : (MemoryRequest.m a n).handle H B d =
    (request H B d (.read a.value.toNat n.value.toNat)).bind fun e =>
      e.2.data.map fun data => (e.1, hexlify data) := by
  simp [MemoryRequest.handle, handleReadMemory, a.spells, n.spells, Option.map_eq_bind]

/-- **A read whose data are taken for a prompt is not reported rightly**: the status is that of
success, and the reply has too few bytes, if there is one. -/
theorem not_reports_of_not_keeps {a n : HexWord}
    (hmap : mmuProbeRead B d.mem a.value n.value = true)
    (hkeeps : ¬ H.Keeps d (bytes d.mem a.value n.value.toNat)) : ¬ Reports H B d (.m a n) := by
  rintro ⟨d', reply, response, hhandle, hreq, hsuccess, -⟩
  obtain ⟨herror, hshort⟩ := request_read_of_not_keeps hmap hkeeps hreq
  rw [MemoryRequest.method] at hreq
  rw [handle_read, hreq, Option.bind_some] at hhandle
  obtain ⟨data, hdata, he⟩ := Option.map_eq_some_iff.mp hhandle
  obtain ⟨-, rfl⟩ := Prod.mk.inj he
  obtain ⟨data', hlen, hsame⟩ := hsuccess.mpr herror
  have hlt := hshort data hdata
  rw [hexlify_injective hsame, hlen] at hlt
  exact absurd hlt (lt_irrefl _)

/-- A read is reported rightly iff the range is mapped and its bytes are not taken for a prompt: the
reply for an unmapped range is empty. -/
theorem reports_read_iff (a n : HexWord) :
    Reports H B d (.m a n) ↔ mmuProbeRead B d.mem a.value n.value = true ∧
      H.Keeps d (bytes d.mem a.value n.value.toNat) := by
  by_cases hlost : mmuProbeRead B d.mem a.value n.value = true ∧
      ¬ H.Keeps d (bytes d.mem a.value n.value.toNat)
  · exact iff_of_false (not_reports_of_not_keeps hlost.1 hlost.2) fun h => hlost.2 h.2
  · have hkeeps : mmuProbeRead B d.mem a.value n.value = true →
        H.Keeps d (bytes d.mem a.value n.value.toNat) := by
      intro hmap
      by_contra hno
      exact hlost ⟨hmap, hno⟩
    obtain ⟨d', -, -, hreq⟩ := request_read H B d a.value n.value hkeeps
    have hhandle := handle_read (H := H) (B := B) (d := d) a n
    by_cases hmap : mmuProbeRead B d.mem a.value n.value = true
    · rw [if_pos hmap] at hreq
      rw [hreq, Option.bind_some, Option.map_some] at hhandle
      rw [reports_iff_of_handle hhandle hreq]
      refine iff_of_true ⟨iff_of_true ⟨_, ?_, rfl⟩ rfl, fun hne => absurd rfl hne⟩
        ⟨hmap, hkeeps hmap⟩
      simp [bytes]
    · rw [if_neg hmap] at hreq
      rw [hreq, Option.bind_some, Option.map_some] at hhandle
      rw [reports_iff_of_handle hhandle hreq]
      refine iff_of_false (fun h => ?_) fun h => hmap h.1
      have hhead := h.2 (by decide)
      cases hhead

/-- **The reply to a write is empty**, whatever the status. -/
theorem not_reports_write (a n : HexWord) (data : List Byte) : ¬ Reports H B d (.M a n data) := by
  rintro ⟨d', reply, response, hhandle, hreq, hsuccess, herror⟩
  rw [MemoryRequest.handle] at hhandle
  have hdata : data ≠ [] := by
    rintro rfl
    simp [handleWriteMemory, hexlify, ofHex] at hhandle
  by_cases hfit : bigEndian 0 data < 2 ^ 32
  · obtain ⟨w, hw⟩ : ∃ w : Word, bigEndian 0 data = w.toNat :=
      ⟨BitVec.ofNat 32 (bigEndian 0 data), by rw [BitVec.toNat_ofNat, Nat.mod_eq_of_lt hfit]⟩
    -- the response has a status, and no data
    have hempty : response.data = some [] := by
      obtain ⟨_, -, -, hcases⟩ := request_write H B d a.value n.value w
      rw [← hw] at hcases
      rcases hcases with ⟨-, ⟨-, hnone⟩ | ⟨-, d₁, -, -, hreq₁⟩⟩ | ⟨-, d₁, -, -, hreq₁⟩
      · rw [MemoryRequest.method, hnone] at hreq
        cases hreq
      · obtain ⟨-, rfl⟩ := Prod.mk.inj (Option.some.inj (hreq₁.symm.trans hreq))
        rfl
      · obtain ⟨-, rfl⟩ := Prod.mk.inj (Option.some.inj (hreq₁.symm.trans hreq))
        rfl
    have hreply : reply = [] := by
      rw [MemoryRequest.method] at hreq
      rw [handleWriteMemory_eq hdata, hreq, Option.bind_some, hempty, Option.bind_some] at hhandle
      exact (Prod.mk.inj (Option.some.inj hhandle)).2.symm
    subst hreply
    by_cases hs : response.error = ErrorCode.success.code
    · have hok := hsuccess.mpr hs
      cases hok
    · have hhead := herror hs
      cases hhead
  · rw [handleWriteMemory_raises hdata (Nat.le_of_not_lt hfit)] at hhandle
    cases hhandle

/-- `OK` is right iff the status is success. -/
theorem reports_ok_iff (hhandle : r.handle H B d = some (d', ok)) (hok : r.IsSuccess ok)
    (hreq : request H B d r.method = some (d', response)) :
    Reports H B d r ↔ response.error = ErrorCode.success.code := by
  rw [reports_iff_of_handle hhandle hreq]
  constructor
  · intro h
    exact h.1.mp hok
  · intro hs
    exact ⟨iff_of_true hok hs, fun hne => absurd hs hne⟩

/-- An insertion succeeds iff there is no such breakpoint yet, and room. -/
theorem insertBreakpoint_success_iff (m : Memory) (a : Word) (type : Byte) :
    (Device.insertBreakpoint B m a type).2.code = ErrorCode.success.code ↔
      getBreakpoint B m a = none ∧ (bpSize B m).toNat < dbgNbrPoints := by
  unfold Device.insertBreakpoint
  cases hfound : getBreakpoint B m a with
  | some i =>
      have herror : ErrorCode.breakpointAlreadyExists.code ≠ ErrorCode.success.code := by decide
      rw [if_pos Option.isSome_some]
      exact iff_of_false herror fun h => by cases h.1
  | none =>
      rw [if_neg (by decide)]
      by_cases hfull : dbgNbrPoints ≤ (bpSize B m).toNat
      · have herror : ErrorCode.noMemoryAvailable.code ≠ ErrorCode.success.code := by decide
        rw [allocBreakpoint, if_pos hfull]
        exact iff_of_false herror fun h => absurd h.2 (Nat.not_lt.mpr hfull)
      · rw [allocBreakpoint, if_neg hfull]
        exact iff_of_true rfl ⟨rfl, Nat.lt_of_not_le hfull⟩

/-- A removal succeeds iff there is such a breakpoint. -/
theorem removeBreakpoint_success_iff (m : Memory) (a : Word) (type : Byte) :
    (Device.removeBreakpoint B m a type).2.code = ErrorCode.success.code ↔
      getBreakpoint B m a ≠ none := by
  unfold Device.removeBreakpoint
  cases hfound : getBreakpoint B m a with
  | some i => exact iff_of_true rfl fun h => by cases h
  | none =>
      have herror : ErrorCode.noBreakpoint.code ≠ ErrorCode.success.code := by decide
      exact iff_of_false herror fun h => h rfl

/-- An insertion is reported rightly iff it succeeds. -/
theorem reports_insert_iff (a : HexWord) (type : Decimal) :
    Reports H B d (.Z0 a type) ↔
      getBreakpoint B d.mem a.value = none ∧ (bpSize B d.mem).toNat < dbgNbrPoints := by
  obtain ⟨d', -, -, hreq⟩ := request_insert H B d a.value
  have hhandle : (MemoryRequest.Z0 a type).handle H B d = some (d', ok) := by
    simp [MemoryRequest.handle, handleInsertBreakpoint, a.spells, type.spells, hreq]
  exact (reports_ok_iff hhandle rfl hreq).trans (insertBreakpoint_success_iff _ _ _)

/-- A removal is reported rightly iff it succeeds. -/
theorem reports_remove_iff (a : HexWord) (type : Decimal) :
    Reports H B d (.z0 a type) ↔ getBreakpoint B d.mem a.value ≠ none := by
  obtain ⟨d', -, -, hreq⟩ := request_remove H B d a.value
  have hhandle : (MemoryRequest.z0 a type).handle H B d = some (d', ok) := by
    simp [MemoryRequest.handle, handleRemoveBreakpoint, a.spells, type.spells, hreq]
  exact (reports_ok_iff hhandle rfl hreq).trans (removeBreakpoint_success_iff _ _ _)

/-- **The proxy reports a request rightly iff it succeeds, is not a write, and does not read bytes
that are taken for a prompt.** A failed read is reported by an empty packet, a failed insertion or
removal by `OK`, and every write by an empty packet; of a read that ends in `hboot>` in a
breakpoint, the client loses the last line in its default mode. -/
theorem reports_iff (H : HbootClient) (B : Board) (d : Dev) (r : MemoryRequest) :
    Reports H B d r ↔
      match r with
      | .m a n => mmuProbeRead B d.mem a.value n.value = true ∧
          (H.fastbootMode = true ∨ d.ctx = none ∨
            ¬ hbootPrompt <:+ bytes d.mem a.value n.value.toNat)
      | .M _ _ _ => False
      | .Z0 a _ => getBreakpoint B d.mem a.value = none ∧ (bpSize B d.mem).toNat < dbgNbrPoints
      | .z0 a _ => getBreakpoint B d.mem a.value ≠ none := by
  cases r with
  | m a n => exact reports_read_iff a n
  | M a n data => exact iff_of_false (not_reports_write a n data) id
  | Z0 a type => exact reports_insert_iff a type
  | z0 a type => exact reports_remove_iff a type

/-- Removing a breakpoint that does not exist: the device answers `ERROR_NO_BREAKPOINT`, the proxy
`OK`. -/
theorem missing_breakpoint_ok :
    ¬ Reports .sample Board.sample Dev.sample (.z0 addressSample ⟨[0x34#8], 4, by decide⟩) := by
  intro hreports
  exact (reports_remove_iff addressSample _).mp hreports (by decide +kernel)

end Hbootdbg.Gdb
