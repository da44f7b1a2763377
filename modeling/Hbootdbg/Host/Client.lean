import Hbootdbg.Host.Proxy
import Hbootdbg.Wire.RoundTrip

/-!
# `hbootdbg.py`: calling a method

* `request` — a method of `HbootDbg`, from the packing of its command to the response.
* `request_ctx` — only a continue changes the context of the stop.
* `request_read`, `request_write`, `request_insert`, `request_remove` — what each does to the
  device, and the response it gets: later results do not unfold the exchange.
* `request_read_of_not_keeps` — what is left of a read that ends like a prompt.
-/

namespace Hbootdbg.Host

open Hbootdbg.Lib.ByteMem Hbootdbg.Device Hbootdbg.Session Hbootdbg.Wire

/-- A call of a method: `Command ().unpack (self._client.hbootdbg (cmd.pack ()))`. The result is
`none` where the host raises, or where the device never returns. Source: `scripts/hbootdbg.py`
`HbootDbg` -/
def request (H : HbootClient) (B : Board) (d : Dev) (m : Method) : Option (Dev × Response) := do
  let packed ← m.command.pack
  let (d', bytes) ← exchange H B d (received packed d.cmd)
  let response ← Response.unpack bytes
  some (d', response)

variable {H : HbootClient} {B : Board} {d d' : Dev} {m : Method} {packed bytes data : List Byte}
  {response : Response} {t : CmdType} {e : ErrorCode}

/-- What a method gets is what the client makes of the bytes sent. -/
theorem request_eq_map (hpack : m.command.pack = some packed)
    (hd' : serve B (some d) (received packed d.cmd) = some d') (hsent : sent d d' = bytes) :
    request H B d m =
      (Response.unpack (H.result d bytes)).map fun response => (d', response) := by
  subst hsent
  unfold request
  rw [hpack, Option.bind_eq_bind, Option.bind_some, exchange_of_serve hd', Option.map_eq_bind]
  rfl

/-- A method whose data are kept gets the response that was sent. -/
theorem request_eq (hpack : m.command.pack = some packed)
    (hd' : serve B (some d) (received packed d.cmd) = some d')
    (hsent : sent d d' = t.code :: e.code :: data) (hkeeps : H.Keeps d data)
    (hunpack : Response.unpack (t.code :: e.code :: data) = some response) :
    request H B d m = some (d', response) := by
  rw [request_eq_map hpack hd' hsent, result_reply hkeeps, hunpack, Option.map_some]

/-- A command that never returns gets no response. -/
theorem request_eq_none (hpack : m.command.pack = some packed)
    (hd' : serve B (some d) (received packed d.cmd) = none) : request H B d m = none := by
  simp [request, exchange, hpack, hd']

/-- The first packed byte is the type. -/
theorem pack_head {c : Command} (h : c.pack = some packed) :
    ∃ rest, packed = c.type.code :: rest := by
  rw [Command.pack, Command.packs, concat, packB_toNat, Option.bind_some] at h
  obtain ⟨rest, -, rfl⟩ := Option.map_eq_some_iff.mp h
  exact ⟨rest, rfl⟩

/-- **No method but `breakpoint_continue` changes the context of the stop.** -/
theorem request_ctx (h : request H B d m = some (d', response))
    (htype : m.command.type ≠ .breakpointContinue) : d'.ctx = d.ctx := by
  have hcode : ∀ t : CmdType, t ≠ .breakpointContinue →
      t.code ≠ CmdType.breakpointContinue.code := by
    intro t
    cases t <;> decide
  obtain ⟨packed, hpack, h⟩ := Option.bind_eq_some_iff.mp h
  obtain ⟨⟨d₁, bytes⟩, hexch, h⟩ := Option.bind_eq_some_iff.mp h
  obtain ⟨response', -, h⟩ := Option.bind_eq_some_iff.mp h
  obtain ⟨rfl, -⟩ := Prod.mk.inj (Option.some.inj h)
  obtain ⟨hserve, -⟩ := serve_of_exchange hexch
  obtain ⟨rest, rfl⟩ := pack_head hpack
  apply serve_ctx hserve
  rw [received_of_lt (by simp)]
  exact hcode _ htype

/-! ## The objects of the methods -/

section objects

variable (a n v : Word) (obj : CmdBytes)

/-- The object of a read. -/
theorem received_read : ∃ c : CmdBytes,
    received (CmdType.read.code :: 0#8 :: (wordBytes a ++ wordBytes n)) obj = c ∧
      kind c = some .read ∧ c.addr = a ∧ c.size = n :=
  ⟨_, received_eq_overlay _ _, rfl, word_wordBytes a, word_wordBytes n⟩

/-- The data of a write: four bytes from the host, what the padding is decoded to, and the rest of
the object. -/
theorem received_write : ∃ c : CmdBytes,
    received (CmdType.write.code :: 0#8 ::
        (wordBytes a ++ (wordBytes n ++ (wordBytes v).reverse))) obj = c ∧
      kind c = some .write ∧ c.addr = a ∧ c.size = n ∧
      (∀ i < 4, c.data i = (wordBytes v).reverse.getD i 0#8) ∧ c.data 4 = 0x3e#8 := by
  refine ⟨_, received_eq_overlay _ _, rfl, word_wordBytes a, word_wordBytes n, fun i hi => ?_, ?_⟩
  · interval_cases i <;> rfl
  · have hlen : (CmdType.write.code :: 0#8 ::
        (wordBytes a ++ (wordBytes n ++ (wordBytes v).reverse))).length = 14 := rfl
    have hpad := received_pad obj (by rw [hlen])
    rwa [hlen] at hpad

/-- The object of an insertion. -/
theorem received_insert : ∃ c : CmdBytes,
    received (CmdType.insertBreakpoint.code :: 0#8 :: (wordBytes a ++ wordBytes 0#32)) obj = c ∧
      kind c = some .insertBreakpoint ∧ c.addr = a ∧ c.bpType = 0#8 :=
  ⟨_, received_eq_overlay _ _, rfl, word_wordBytes a, rfl⟩

/-- The object of a removal. -/
theorem received_remove : ∃ c : CmdBytes,
    received (CmdType.removeBreakpoint.code :: 0#8 :: (wordBytes a ++ wordBytes 0#32)) obj = c ∧
      kind c = some .removeBreakpoint ∧ c.addr = a ∧ c.bpType = 0#8 :=
  ⟨_, received_eq_overlay _ _, rfl, word_wordBytes a, rfl⟩

end objects

/-! ## The methods, one by one -/

/-- What the device sends for a read: the bytes of the range, if the range is mapped. -/
theorem sent_read (B : Board) (d : Dev) (a n : Word) :
    ∃ packed d', (Method.read a.toNat n.toNat).command.pack = some packed ∧
      serve B (some d) (received packed d.cmd) = some d' ∧ d'.mem = d.mem ∧ d'.ctx = d.ctx ∧
      sent d d' = CmdType.read.code ::
        (if mmuProbeRead B d.mem a n then
          ErrorCode.success.code :: Lib.ByteMem.bytes d.mem a n.toNat
        else [ErrorCode.unmappedMemory.code]) := by
  obtain ⟨c, hc, hk, haddr, hsize⟩ := received_read a n d.cmd
  obtain ⟨d', hd', hmem, hctx, hout⟩ := serve_read (B := B) (d := d) hk
  rw [haddr, hsize] at hout
  refine ⟨_, d', pack_read a n, hc ▸ hd', hmem, hctx, ?_⟩
  rw [sent_of_append hout]
  by_cases hmap : mmuProbeRead B d.mem a n = true
  · have hps : (readPackets d.mem n.toNat a n.toNat).filterMap (payload ∘ Out.usbSend) =
        readPackets d.mem n.toNat a n.toNat := List.filterMap_some
    rw [if_pos hmap, if_pos hmap, List.filterMap_cons, List.filterMap_map, hps]
    simp only [payload, List.flatten_cons, readPackets_flatten _ le_rfl]
    rfl
  · rw [if_neg hmap, if_neg hmap]
    rfl

/-- A read gets the bytes of the range, if the range is mapped, and they are kept. -/
theorem request_read (H : HbootClient) (B : Board) (d : Dev) (a n : Word)
    (hkeeps : mmuProbeRead B d.mem a n = true → H.Keeps d (Lib.ByteMem.bytes d.mem a n.toNat)) :
    ∃ d', d'.mem = d.mem ∧ d'.ctx = d.ctx ∧
      request H B d (.read a.toNat n.toNat) = some (d',
        if mmuProbeRead B d.mem a n then
          ⟨CmdType.read.code, ErrorCode.success.code, some (Lib.ByteMem.bytes d.mem a n.toNat)⟩
        else ⟨CmdType.read.code, ErrorCode.unmappedMemory.code, some []⟩) := by
  obtain ⟨packed, d', hpack, hd', hmem, hctx, hsent⟩ := sent_read B d a n
  refine ⟨d', hmem, hctx, ?_⟩
  by_cases hmap : mmuProbeRead B d.mem a n = true
  · rw [if_pos hmap] at hsent ⊢
    exact request_eq hpack hd' hsent (hkeeps hmap) rfl
  · rw [if_neg hmap] at hsent ⊢
    exact request_eq hpack hd' hsent keeps_nil rfl

/-- Of bytes that are not kept, the read gets too few, with the status of success. -/
theorem request_read_of_not_keeps {a n : Word} (hmap : mmuProbeRead B d.mem a n = true)
    (hkeeps : ¬ H.Keeps d (Lib.ByteMem.bytes d.mem a n.toNat))
    (h : request H B d (.read a.toNat n.toNat) = some (d', response)) :
    response.error = ErrorCode.success.code ∧
      ∀ data ∈ response.data, data.length < n.toNat := by
  obtain ⟨packed, d₁, hpack, hd₁, -, -, hsent⟩ := sent_read B d a n
  rw [if_pos hmap] at hsent
  rw [request_eq_map hpack hd₁ hsent] at h
  obtain ⟨response', hunpack, he⟩ := Option.map_eq_some_iff.mp h
  obtain ⟨-, rfl⟩ := Prod.mk.inj he
  have hshort := unpack_of_not_keeps hkeeps hunpack
  have hlen : (Lib.ByteMem.bytes d.mem a n.toNat).length = n.toNat := by simp [Lib.ByteMem.bytes]
  rwa [hlen] at hshort

/-- A write puts the data of its object into the range, if the range is mapped. -/
theorem request_write (H : HbootClient) (B : Board) (d : Dev) (a n v : Word) :
    ∃ data : ℕ → Byte, (∀ i < 4, data i = (wordBytes v).reverse.getD i 0#8) ∧
      data 4 = 0x3e#8 ∧
      ((mmuProbeRead B d.mem a n = true ∧
        ((mmuInvalidateCacheRange B a n = none ∧
            request H B d (.write a.toNat n.toNat v.toNat) = none) ∨
          (mmuInvalidateCacheRange B a n ≠ none ∧
            ∃ d', d'.mem = patch d.mem a n.toNat data ∧ d'.ctx = d.ctx ∧
              request H B d (.write a.toNat n.toNat v.toNat) =
                some (d', ⟨CmdType.write.code, ErrorCode.success.code, some []⟩)))) ∨
      (mmuProbeRead B d.mem a n = false ∧
        ∃ d', d'.mem = d.mem ∧ d'.ctx = d.ctx ∧
          request H B d (.write a.toNat n.toNat v.toNat) =
            some (d', ⟨CmdType.write.code, ErrorCode.unmappedMemory.code, some []⟩))) := by
  obtain ⟨c, hc, hk, haddr, hsize, hdata, hpad⟩ := received_write a n v d.cmd
  refine ⟨c.data, hdata, hpad, ?_⟩
  have hserve := serve_write (B := B) (d := d) hk
  rw [haddr, hsize] at hserve
  rcases hserve with ⟨hmap, ⟨hloop, hnone⟩ | ⟨d', hd', hmem, hctx, hout⟩⟩ |
    ⟨hmap, d', hd', hmem, hctx, hout⟩
  · exact Or.inl ⟨hmap, Or.inl ⟨hloop, request_eq_none (pack_write a n v) (hc ▸ hnone)⟩⟩
  · refine Or.inl ⟨hmap, Or.inr ⟨fun hloop => ?_, d', hmem, hctx,
      request_eq (pack_write a n v) (hc ▸ hd') (sent_of_append hout) keeps_nil rfl⟩⟩
    rw [serve_eq_cmdWrite hk, cmdWrite] at hd'
    simp [haddr, hsize, hmap, hloop] at hd'
  · exact Or.inr ⟨hmap, d', hmem, hctx,
      request_eq (pack_write a n v) (hc ▸ hd') (sent_of_append hout) keeps_nil rfl⟩

/-- The response to an insertion is its result. -/
theorem request_insert (H : HbootClient) (B : Board) (d : Dev) (a : Word) :
    ∃ d', d'.mem = (Device.insertBreakpoint B d.mem a 0#8).1 ∧ d'.ctx = d.ctx ∧
      request H B d (.insertBreakpoint a.toNat 0) = some (d',
        ⟨CmdType.insertBreakpoint.code, (Device.insertBreakpoint B d.mem a 0#8).2.code, none⟩) := by
  obtain ⟨c, hc, hk, haddr, htype⟩ := received_insert a d.cmd
  obtain ⟨d', hd', hmem, hctx, hout⟩ := serve_insert (B := B) (d := d) hk
  rw [haddr, htype] at hmem hout
  exact ⟨d', hmem, hctx,
    request_eq (pack_insertBreakpoint a 0#32) (hc ▸ hd') (sent_of_append hout) keeps_nil rfl⟩

/-- The response to a removal is its result. -/
theorem request_remove (H : HbootClient) (B : Board) (d : Dev) (a : Word) :
    ∃ d', d'.mem = (Device.removeBreakpoint B d.mem a 0#8).1 ∧ d'.ctx = d.ctx ∧
      request H B d (.removeBreakpoint a.toNat 0) = some (d',
        ⟨CmdType.removeBreakpoint.code, (Device.removeBreakpoint B d.mem a 0#8).2.code, none⟩) := by
  obtain ⟨c, hc, hk, haddr, htype⟩ := received_remove a d.cmd
  obtain ⟨d', hd', hmem, hctx, hout⟩ := serve_remove (B := B) (d := d) hk
  rw [haddr, htype] at hmem hout
  exact ⟨d', hmem, hctx,
    request_eq (pack_removeBreakpoint a 0#32) (hc ▸ hd') (sent_of_append hout) keeps_nil rfl⟩

end Hbootdbg.Host
