import Hbootdbg.Gdb.Agreement
import Hbootdbg.Gdb.Dispatch
import Hbootdbg.Gdb.Outcome
import Hbootdbg.Gdb.Requests
import Hbootdbg.Gdb.Status
import Hbootdbg.Wire.Stop

/-!
# A stop, from GDB down to the memory of the device

The requests that GDB sends in a stop go through all layers: the bytes of the stream, packets,
fields, regular expressions, numbers, commands, base64, the dispatcher of the device and back.

* `Query` — the requests, with the fields that GDB sends; `Query.apply` and `Query.reply` say what
  each does to the memory of the device and what GDB gets for it, without any of the layers.
* `Query.Legible` — the client does not take the data of the reply for a prompt.
* `Backs` — the phone answers as the modelled device.
* `answer_query` — one request; `replies`, `settles_queries` — a stop: GDB reads and patches the
  memory of the device.
* `lineExchange`, `stopLink` — the handler of a stop on the line of a client, in either mode;
  `backs_stopLink` says that it answers as the device. In fastboot mode it is a phone: `stopPhone`.
-/

namespace Hbootdbg.Gdb

open Hbootdbg.Lib.ByteMem Hbootdbg.Lib.Hex Hbootdbg.Lib.Machine Hbootdbg.Lib.PyInt
open Hbootdbg.Lib.Run (Guarded)
open Hbootdbg.Device Hbootdbg.Session Hbootdbg.Host Hbootdbg.Wire

/-! ## Requests -/

/-- `,`. -/
def comma : Byte := 0x2c#8

/-- The requests of a stop. -/
inductive Query
  /-- `g`. -/
  | g
  /-- `?`. -/
  | reason
  /-- `m address,size`. -/
  | m (address size : HexWord)
  /-- `Z0,address,type`. -/
  | Z0 (address : HexWord) (type : Decimal)
  /-- `z0,address,type`. -/
  | z0 (address : HexWord) (type : Decimal)

namespace Query

/-- What GDB sends, field by field. -/
def fields : Query → List (List Byte)
  | .g => [[0x67#8]]
  | .reason => [[0x3f#8]]
  | .m address size => [0x6d#8 :: address.text, size.text]
  | .Z0 address type => [[0x5a#8, 0x30#8], address.text, type.text]
  | .z0 address type => [[0x7a#8, 0x30#8], address.text, type.text]

/-- The data of the packet. -/
def text (q : Query) : List Byte := [comma].intercalate q.fields

/-- What the request does to the memory of the device. -/
def apply (B : Board) (m : Memory) : Query → Memory
  | .Z0 address _ => (Device.insertBreakpoint B m address.value 0#8).1
  | .z0 address _ => (Device.removeBreakpoint B m address.value 0#8).1
  | _ => m

/-- What GDB gets: the registers of the stop, a signal, the bytes of a mapped range, `OK`. -/
def reply (B : Board) (ctx : Context) (m : Memory) : Query → List Byte
  | .g => (ArmRegisters.ofContext ctx).packGdb
  | .reason => stopReply
  | .m address size =>
      if mmuProbeRead B m address.value size.value then
        hexlify (Lib.ByteMem.bytes m address.value size.value.toNat)
      else []
  | _ => ok

/-- The client returns the data of the reply as they were sent: it does not look for a prompt, or
the data do not end like one. A context does only with an odd program counter. -/
def Legible (H : HbootClient) (B : Board) (ctx : Context) (m : Memory) : Query → Prop
  | .g => H.fastbootMode = true ∨ ctx.pc.toNat % 2 = 0
  | .m address size => mmuProbeRead B m address.value size.value = true →
      H.fastbootMode = true ∨
        ¬ hbootPrompt <:+ Lib.ByteMem.bytes m address.value size.value.toNat
  | _ => True

instance (H : HbootClient) (B : Board) (ctx : Context) (m : Memory) :
    DecidablePred (Legible H B ctx m)
  | .g => inferInstanceAs (Decidable (_ ∨ _))
  | .m _ _ => inferInstanceAs (Decidable (_ → _))
  | .reason | .Z0 _ _ | .z0 _ _ => inferInstanceAs (Decidable True)

/-- Python takes the decimal number. -/
def Fits (π : Python) : Query → Prop
  | .Z0 _ type | .z0 _ type =>
      π.maxStrDigits = 0 ∨ type.text.length ≤ π.maxStrDigits
  | _ => True

instance (π : Python) : DecidablePred (Fits π)
  | .g | .reason | .m _ _ => inferInstanceAs (Decidable True)
  | .Z0 _ _ | .z0 _ _ => inferInstanceAs (Decidable (_ ∨ _))

end Query

/-- What GDB gets for the requests of a stop, one after the other. -/
def replies (B : Board) (ctx : Context) : Memory → List Query → List (List Byte)
  | _, [] => []
  | m, q :: qs => q.reply B ctx m :: replies B ctx (q.apply B m) qs

/-- The phone answers the client as the modelled device does, in related states, but for writes of
more than the four bytes that the client sends. -/
def Backs (H : HbootClient) (B : Board) (P : Link) (R : P.State → Dev → Prop) : Prop :=
  ∀ p d m d' response, R p d → (∀ address size data, m = .write address size data → size ≤ 4) →
    request H B d m = some (d', response) → ∃ p', P.call p m = .ok (p', response) ∧ R p' d'

variable {H : HbootClient} {B : Board} {P : Link} {R : P.State → Dev → Prop} {π : Python} {fuel : ℕ}
  {s : GdbServer P} {d d' : Dev} {ctx : Context} {q : Query} {out : List (List Byte)}
  {ls : List (List Byte)} {c sep : Byte} {l : List Byte}

/-! ## Fields -/

/-- What is joined consists of separators and parts. -/
theorem mem_intercalate (h : c ∈ [sep].intercalate ls) : c = sep ∨ ∃ l ∈ ls, c ∈ l := by
  induction ls with
  | nil => exact absurd h List.not_mem_nil
  | cons l ls ih =>
      cases ls with
      | nil =>
          rw [List.intercalate_singleton] at h
          exact Or.inr ⟨l, List.mem_singleton_self l, h⟩
      | cons l' ls =>
          rw [List.intercalate_cons_cons, List.mem_append, List.mem_append,
            List.mem_singleton] at h
          rcases h with (h | h) | h
          · exact Or.inr ⟨l, List.mem_cons_self, h⟩
          · exact Or.inl h
          · rcases ih h with h | ⟨l₁, hl₁, hc⟩
            · exact Or.inl h
            · exact Or.inr ⟨l₁, List.mem_cons_of_mem _ hl₁, hc⟩

theorem plain_hexWord (a : HexWord) : Plain a.text := (isSome_of_ofHex a.spells).2

theorem plain_decimal (t : Decimal) : Plain t.text := fun c hc =>
  isSome_hexValue_of_decimal ((isSome_of_ofDecimal t.spells).2 c hc)

/-- A character of a field: neither a separator nor `#`. -/
def IsFieldByte (c : Byte) : Prop := isSeparator c = false ∧ c ≠ hash

/-- Digits can stand in a field. -/
theorem isFieldByte_of_plain (h : Plain l) (hc : c ∈ l) : IsFieldByte c := by
  have hcomma : c ≠ 0x2c#8 := h.ne hc rfl
  have hcolon : c ≠ 0x3a#8 := h.ne hc rfl
  have hsemicolon : c ≠ semicolon := h.ne hc rfl
  exact ⟨by simp [isSeparator, hcomma, hcolon, hsemicolon], h.ne hc rfl⟩

theorem isFieldByte_fields (q : Query) : ∀ l ∈ q.fields, ∀ c ∈ l, IsFieldByte c := by
  have hletter : ∀ c ∈ [0x67#8, 0x3f#8, 0x6d#8, 0x5a#8, 0x7a#8, 0x30#8], IsFieldByte c := by
    unfold IsFieldByte
    decide
  have hhex : ∀ a : HexWord, ∀ c ∈ a.text, IsFieldByte c := fun a _ =>
    isFieldByte_of_plain (plain_hexWord a)
  have hdec : ∀ t : Decimal, ∀ c ∈ t.text, IsFieldByte c := fun t _ =>
    isFieldByte_of_plain (plain_decimal t)
  cases q with
  | g => exact fun l hl c hc => by simp_all [Query.fields]
  | reason => exact fun l hl c hc => by simp_all [Query.fields]
  | m a n =>
      simp only [Query.fields, List.forall_mem_cons, List.not_mem_nil, false_implies,
        implies_true, and_true]
      exact ⟨⟨hletter _ (by decide), hhex a⟩, hhex n⟩
  | Z0 a t =>
      simp only [Query.fields, List.forall_mem_cons, List.not_mem_nil, false_implies,
        implies_true, and_true]
      exact ⟨⟨hletter _ (by decide), hletter _ (by decide)⟩, hhex a, hdec t⟩
  | z0 a t =>
      simp only [Query.fields, List.forall_mem_cons, List.not_mem_nil, false_implies,
        implies_true, and_true]
      exact ⟨⟨hletter _ (by decide), hletter _ (by decide)⟩, hhex a, hdec t⟩

/-- **The server finds the fields.** -/
theorem unpackFields_text (q : Query) : unpackFields q.text = q.fields := by
  have hne : q.fields ≠ [] := by cases q <;> exact List.cons_ne_nil _ _
  rw [unpackFields_eq, Query.text]
  exact splitOnP_intercalate rfl hne fun l hl c hc => (isFieldByte_fields q l hl c hc).1

theorem hash_not_mem_text (q : Query) : hash ∉ q.text := by
  intro h
  rcases mem_intercalate h with he | ⟨l, hl, hc⟩
  · exact absurd he (by decide)
  · exact (isFieldByte_fields q l hl hash hc).2 rfl

/-- A letter and a number are what the expression of `m` matches. -/
theorem group1_number (hne : l ≠ []) (h : Plain l) :
    (Pattern.number c).group1 (c :: l) = some l := by
  have hlast : (c :: l).getLast? ≠ some 0x0a#8 := by
    obtain ⟨x, hx⟩ : ∃ x, l.getLast? = some x := ⟨_, List.getLast?_eq_some_getLast hne⟩
    rw [List.getLast?_cons, hx]
    intro he
    exact h.ne (List.mem_of_getLast? hx) rfl (Option.some.inj he)
  have hchomp : chomp (c :: l) = c :: l := if_neg hlast
  unfold Pattern.group1
  rw [hchomp]
  exact if_pos ⟨rfl, hne, h⟩

/-! ## One request -/

/-- A register read gets the bytes of the context. -/
theorem request_getRegisters (hctx : d.ctx = some ctx)
    (hpc : H.fastbootMode = true ∨ ctx.pc.toNat % 2 = 0) :
    ∃ d', d'.mem = d.mem ∧ d'.ctx = some ctx ∧
      request H B d .getRegisters = some (d',
        ⟨CmdType.getRegisters.code, ErrorCode.success.code, some ctx.bytes⟩) := by
  have hk : kind (received packedGetRegisters d.cmd) = some .getRegisters :=
    kind_received pack_getRegisters d.cmd
  obtain ⟨d', hd', hmem, hctx', hout⟩ := serve_getRegisters (B := B) (d := d) hk
  rw [hctx] at hout hctx'
  refine ⟨d', hmem, hctx', request_eq pack_getRegisters hd' (sent_of_append hout)
    (keeps_context hpc) ?_⟩
  simp [Host.payload, Response.unpack]

/-- A breakpoint request: `OK`, whatever the device answers. -/
theorem handleBreakpoint_eq (method : ℕ → Method) {a : HexWord} {t : Decimal} {dev : P.State}
    {response : Response} (ht : π.maxStrDigits = 0 ∨ t.text.length ≤ π.maxStrDigits)
    (hcall : P.call s.dev (method a.value.toNat) = .ok (dev, response)) :
    s.handleBreakpoint π [a.text, t.text] method = .ok ({ s with dev }, [[ok]]) := by
  simp only [GdbServer.handleBreakpoint, List.getElem?_cons_zero, List.getElem?_cons_succ,
    Option.bind_some, int16_of_ofHex a.spells, int10_of_ofDecimal t.spells ht, orRaise_some,
    ok_bind, natural_natCast, hcall]

/-- A read: the text of the data of the response. -/
theorem handleReadMemory_eq {a n : HexWord} {dev : P.State} {response : Response}
    {data : List Byte}
    (hcall : P.call s.dev (.read a.value.toNat n.value.toNat) = .ok (dev, response))
    (hdata : response.data = some data) :
    s.handleReadMemory π a.text [n.text] = .ok ({ s with dev }, [[hexlify data]]) := by
  simp only [GdbServer.handleReadMemory, List.getElem?_cons_zero, Option.bind_some,
    int16_of_ofHex a.spells, int16_of_ofHex n.spells, hcall, ok_bind, orRaise_some, natural_natCast,
    hdata]

/-- **A request of a stop is dispatched to its handler**, which answers for the device. -/
theorem dispatch_query (fuel : ℕ) (hP : Backs H B P R) (hR : R s.dev d) (hctx : d.ctx = some ctx)
    (hq : q.Fits π) (hlegible : q.Legible H B ctx d.mem) :
    ∃ s' d', dispatch π fuel s (q.fields.headD []) q.fields.tail =
        some (.ok (s', [[q.reply B ctx d.mem]])) ∧
      R s'.dev d' ∧ d'.mem = q.apply B d.mem ∧ d'.ctx = some ctx := by
  cases q with
  | g =>
      obtain ⟨d', hmem, hctx', hreq⟩ := request_getRegisters (B := B) hctx hlegible
      obtain ⟨dev, hcall, hR'⟩ := hP _ _ _ _ _ hR (by rintro _ _ _ ⟨⟩) hreq
      have hmatch : Handler.getRegisters.pattern.group1 [0x67#8] = some [] := by decide
      refine ⟨⟨.ofContext ctx, dev⟩, d', ?_, hR', hmem, hctx'⟩
      simp only [Query.fields, List.headD_cons, List.tail_cons, dispatch_of_matches hmatch,
        Handler.handle, GdbServer.handleGetRegisters, hcall, ok_bind, orRaise_some,
        unpack_context, Query.reply]
  | reason =>
      have hmatch : Handler.getStopReason.pattern.group1 [0x3f#8] = some [] := by decide
      refine ⟨s, d, ?_, hR, rfl, hctx⟩
      simp only [Query.fields, List.headD_cons, List.tail_cons, dispatch_of_matches hmatch,
        Handler.handle, GdbServer.handleGetStopReason, Query.reply]
  | m a n =>
      obtain ⟨d', hmem, hctx', hreq⟩ := request_read H B d a.value n.value fun hmap =>
        (hlegible hmap).imp_right Or.inr
      obtain ⟨dev, hcall, hR'⟩ := hP _ _ _ _ _ hR (by rintro _ _ _ ⟨⟩) hreq
      have hmatch : Handler.readMemory.pattern.group1 (0x6d#8 :: a.text) = some a.text :=
        group1_number (isSome_of_ofHex a.spells).1 (plain_hexWord a)
      refine ⟨{ s with dev }, d', ?_, hR', hmem, hctx'.trans hctx⟩
      simp only [Query.fields, List.headD_cons, List.tail_cons, dispatch_of_matches hmatch,
        Handler.handle, Query.reply]
      by_cases hmap : mmuProbeRead B d.mem a.value n.value = true
      · rw [if_pos hmap] at hcall ⊢
        rw [handleReadMemory_eq hcall rfl]
      · rw [if_neg hmap] at hcall ⊢
        rw [handleReadMemory_eq hcall rfl]
        rfl
  | Z0 a t =>
      obtain ⟨d', hmem, hctx', hreq⟩ := request_insert H B d a.value
      obtain ⟨dev, hcall, hR'⟩ := hP _ _ _ _ _ hR (by rintro _ _ _ ⟨⟩) hreq
      have hmatch : Handler.insertBreakpoint.pattern.group1 [0x5a#8, 0x30#8] = some [] := by decide
      refine ⟨{ s with dev }, d', ?_, hR', hmem, hctx'.trans hctx⟩
      simp only [Query.fields, List.headD_cons, List.tail_cons, dispatch_of_matches hmatch,
        Handler.handle, GdbServer.handleInsertBreakpoint,
        handleBreakpoint_eq (.insertBreakpoint · 0) hq hcall, Query.reply]
  | z0 a t =>
      obtain ⟨d', hmem, hctx', hreq⟩ := request_remove H B d a.value
      obtain ⟨dev, hcall, hR'⟩ := hP _ _ _ _ _ hR (by rintro _ _ _ ⟨⟩) hreq
      have hmatch : Handler.removeBreakpoint.pattern.group1 [0x7a#8, 0x30#8] = some [] := by decide
      refine ⟨{ s with dev }, d', ?_, hR', hmem, hctx'.trans hctx⟩
      simp only [Query.fields, List.headD_cons, List.tail_cons, dispatch_of_matches hmatch,
        Handler.handle, GdbServer.handleRemoveBreakpoint,
        handleBreakpoint_eq (.removeBreakpoint · 0) hq hcall, Query.reply]

/-- **A request is acknowledged and answered for the device.** -/
theorem answer_query (fuel : ℕ) (out : List (List Byte)) (hP : Backs H B P R) (hR : R s.dev d)
    (hctx : d.ctx = some ctx) (hq : q.Fits π) (hlegible : q.Legible H B ctx d.mem) :
    ∃ s' d', Conn.answer (dispatch π fuel) ⟨s, out⟩ (unpackFields q.text) =
        .ok ⟨s', out ++ [[plus], pack [q.reply B ctx d.mem]]⟩ ∧
      R s'.dev d' ∧ d'.mem = q.apply B d.mem ∧ d'.ctx = some ctx := by
  obtain ⟨s', d', hdispatch, hR', hmem, hctx'⟩ := dispatch_query fuel hP hR hctx hq hlegible
  refine ⟨s', d', ?_, hR', hmem, hctx'⟩
  obtain ⟨command, dataList, hfields⟩ : ∃ command dataList, q.fields = command :: dataList := by
    cases q <;> exact ⟨_, _, rfl⟩
  rw [hfields, List.headD_cons, List.tail_cons] at hdispatch
  rw [unpackFields_text, hfields, Conn.answer]
  simp only [hdispatch, Conn.sendRaw, List.map_cons, List.map_nil, List.append_assoc,
    List.cons_append, List.nil_append]

/-! ## A stop -/

/-- The packets of some requests, each after some bytes that belong to no packet. -/
def queryPackets (qs : List (List Byte × Query)) : List (List Byte × List Byte) :=
  qs.map fun q => (q.1, q.2.text)

theorem wellFormed_queryPackets {qs : List (List Byte × Query)} (h : ∀ q ∈ qs, dollar ∉ q.1) :
    WellFormed (queryPackets qs) := by
  intro p hp
  obtain ⟨q, hq, rfl⟩ := List.mem_map.mp hp
  exact ⟨h q hq, hash_not_mem_text q.2⟩

/-- The answers to the requests of a stop. -/
theorem answers_queries {qs : List (List Byte × Query)} (fuel : ℕ) (out : List (List Byte))
    (hP : Backs H B P R) (hR : R s.dev d) (hctx : d.ctx = some ctx)
    (hfits : ∀ q ∈ qs, q.2.Fits π)
    (hlegible : Guarded (Query.apply B) (Query.Legible H B ctx) d.mem (qs.map Prod.snd)) :
    ∃ s' d', answers (dispatch π fuel) ⟨s, out⟩ (queryPackets qs) =
        .stopped ⟨s', out ++ (replies B ctx d.mem (qs.map Prod.snd)).flatMap
          fun r => [[plus], pack [r]]⟩ ∧
      R s'.dev d' ∧ d'.mem = (qs.map Prod.snd).foldl (Query.apply B) d.mem ∧
        d'.ctx = some ctx := by
  induction qs generalizing s d out with
  | nil =>
      refine ⟨s, d, ?_, hR, rfl, hctx⟩
      rw [List.map_nil, replies, List.flatMap_nil, List.append_nil]
      rfl
  | cons q qs ih =>
      obtain ⟨hq, hqs⟩ := List.forall_mem_cons.mp hfits
      obtain ⟨s₁, d₁, hanswer, hR₁, hmem₁, hctx₁⟩ :=
        answer_query fuel out hP hR hctx hq hlegible.1
      obtain ⟨s', d', hanswers, hR', hmem', hctx'⟩ :=
        ih (out ++ [[plus], pack [q.2.reply B ctx d.mem]]) hR₁ hctx₁ hqs
          (hmem₁ ▸ hlegible.2)
      refine ⟨s', d', ?_, hR', ?_, hctx'⟩
      · have hfirst : answers (dispatch π fuel) ⟨s, out⟩ (queryPackets (q :: qs)) =
            answers (dispatch π fuel) ⟨s₁, out ++ [[plus], pack [q.2.reply B ctx d.mem]]⟩
              (queryPackets qs) := by
          rw [answers, queryPackets, List.map_cons, List.foldlM_cons, hanswer]
          rfl
        rw [hfirst, hanswers, hmem₁, List.map_cons, replies, List.flatMap_cons,
          List.append_assoc]
      · rw [hmem', hmem₁, List.map_cons, List.foldl_cons]

/-- **In a stop, GDB reads and patches the memory of the device.** Whatever the requests, whatever
bytes are between their packets and however the stream arrives, as long as both digits of each
packet are read together, and as long as no data end in `hboot>` when the client is in its default
mode: every request is acknowledged and answered once, in order; the replies are those of the
device's memory as the requests before have left it; the stop stays as it is. -/
theorem settles_queries (H : HbootClient) (B : Board) (P : Link) (R : P.State → Dev → Prop)
    (π : Python) (fuel : ℕ) (σ : Segmentation) (s : GdbServer P) (out : List (List Byte)) (d : Dev)
    (ctx : Context) (qs : List (List Byte × Query)) (hP : Backs H B P R) (hR : R s.dev d)
    (hctx : d.ctx = some ctx) (hfits : ∀ q ∈ qs, q.2.Fits π)
    (hlegible : Guarded (Query.apply B) (Query.Legible H B ctx) d.mem (qs.map Prod.snd))
    (hnoise : ∀ q ∈ qs, dollar ∉ q.1)
    (hσ : ReadsDigits σ (session (queryPackets qs))) :
    ∃ s' d', Settles (Phase.step σ (dispatch π fuel)) Phase.fate
        (.idle ⟨s, out⟩ (session (queryPackets qs)))
        (.stopped ⟨s', out ++ (replies B ctx d.mem (qs.map Prod.snd)).flatMap
          fun r => [[plus], pack [r]]⟩) ∧
      R s'.dev d' ∧ d'.mem = (qs.map Prod.snd).foldl (Query.apply B) d.mem ∧
        d'.ctx = some ctx := by
  have hwell := wellFormed_queryPackets hnoise
  obtain ⟨s', d', hanswers, hdevice⟩ :=
    answers_queries fuel out hP hR hctx hfits hlegible
  refine ⟨s', d', ?_, hdevice⟩
  have hsettles := settles_fate σ (dispatch π fuel) ⟨s, out⟩ (session (queryPackets qs))
  rwa [(run_eq_whole_iff σ _).mpr hσ, fate_session hwell, hanswers] at hsettles

/-! ## The handler of a stop as a phone -/

/-- A handler in its loop, in a stop. -/
abbrev StopState := {s : Stopped // s.dev.ctx.isSome}

/-- The handler gets the packet of a command in the mode of the client, and the client reads what is
on the line. A command that never returns is answered with an error, and the stop after a continue
is the same one. Source: `dbg.c` `breakpoint_handler`, `scripts/hboot.py` `HbootClient.hbootdbg` -/
def lineExchange (H : HbootClient) (B : Board) (s : StopState) (packed : List Byte) :
    StopState × List Byte :=
  match handlerIteration B s.1 (hbootdbgPacket H.fastbootMode packed ++ [0#8]) with
  | .waiting s' | .returned s' =>
      if h : s'.dev.ctx.isSome then
        (⟨s', h⟩, (Host.hbootdbg H.serial H.fastbootMode
          (H.line s.1.dev s'.dev.cmd (sent s.1.dev s'.dev))).getD [])
      else (s, [packed.headD 0#8, ErrorCode.unknownCmd.code])
  | _ => (s, [packed.headD 0#8, ErrorCode.unknownCmd.code])

variable {p : StopState} {s' : Stopped} {packed response : List Byte} {m : Method}

/-- A command that returns gets what the client makes of the bytes that the device sends for it. -/
theorem lineExchange_of_ended
    (h : handlerIteration B p.1 (hbootdbgPacket H.fastbootMode packed ++ [0#8]) = .waiting s' ∨
      handlerIteration B p.1 (hbootdbgPacket H.fastbootMode packed ++ [0#8]) = .returned s')
    (hctx : s'.dev.ctx.isSome) :
    lineExchange H B p packed = (⟨s', hctx⟩, H.result p.1.dev (sent p.1.dev s'.dev)) := by
  unfold lineExchange
  rcases h with h | h
  · simp only [h, dif_pos hctx, hbootdbg_line, Option.getD_some]
  · simp only [h, dif_pos hctx, hbootdbg_line, Option.getD_some]

/-- The response of the device to what it receives, or an error. -/
theorem lineExchange_cases (H : HbootClient) (B : Board) (p : StopState)
    (hlen : packed.length ≤ 759) :
    (∃ c d', received packed c = c ∧ serve B (some p.1.dev) c = some d' ∧
        (lineExchange H B p packed).2 = H.result p.1.dev (sent p.1.dev d')) ∨
      (lineExchange H B p packed).2 = [packed.headD 0#8, ErrorCode.unknownCmd.code] := by
  obtain ⟨c, hc, hiter⟩ :=
    handlerIteration_received (B := B) (carries_packetOf H.fastbootMode packed hlen) p.1
  have hbytes : hbootdbgPacket H.fastbootMode packed ++ [0#8] =
      (packetOf H.fastbootMode packed hlen).bytes := rfl
  cases hserve : serve B (some p.1.dev) c with
  | none =>
      rw [hserve] at hiter
      refine Or.inr ?_
      unfold lineExchange
      rw [hbytes, hiter]
      rfl
  | some d' =>
      rw [hserve, afterCommand] at hiter
      by_cases hctx : d'.ctx.isSome
      · refine Or.inl ⟨c, d', hc, hserve, ?_⟩
        refine congrArg Prod.snd (lineExchange_of_ended (H := H) (B := B) ?_
          (show (Stopped.mk d' (usbRecv (packetOf H.fastbootMode packed hlen).bytes
            p.1.buf)).dev.ctx.isSome from hctx))
        split_ifs at hiter
        · exact Or.inr hiter
        · exact Or.inl hiter
      · refine Or.inr ?_
        unfold lineExchange
        rw [hbytes, hiter]
        split_ifs
        · simp only [dif_neg hctx]
        · simp only [dif_neg hctx]

/-- In fastboot mode, the client returns what it gets. -/
theorem result_of_fastboot (hmode : H.fastbootMode = true) (d : Dev) (r : List Byte) :
    H.result d r = r := by
  refine if_neg fun hlook => ?_
  rw [hmode] at hlook
  exact absurd hlook.1 (by decide)

/-- The packets of the methods fit the buffer of the handler. -/
theorem length_pack_le (hpack : m.command.pack = some packed) : packed.length ≤ 759 := by
  rw [length_pack hpack]
  unfold words
  split <;> omega

/-- In fastboot mode, the responses of the handler are well formed. -/
theorem lineExchange_wellFormed (hmode : H.fastbootMode = true) (B : Board) (p : StopState)
    (m : Method) (packed : List Byte) (n : ℕ) (hpack : m.command.pack = some packed)
    (hn : dataLength m = some n) :
    ∃ error data, (lineExchange H B p packed).2 = m.command.type.code :: error :: data ∧
      data.length = if error = ErrorCode.success.code then n else 0 := by
  have hlen := length_pack_le hpack
  rcases lineExchange_cases H B p hlen with ⟨c, d', hc, hserve, hsent⟩ | herror
  · rw [hsent, result_of_fastboot hmode]
    exact sent_wellFormed (B := B) (d := { p.1.dev with cmd := c }) hpack hn (hc.symm ▸ hserve)
  · obtain ⟨rest, rfl⟩ := pack_head hpack
    exact ⟨_, [], herror, rfl⟩

/-- A stopped device stays in a stop. -/
theorem isSome_ctx_of_serve {c : CmdBytes} (h : serve B (some d) c = some d')
    (hctx : d.ctx.isSome) : d'.ctx.isSome := by
  by_cases hk : c 0 = CmdType.breakpointContinue.code
  · have hkind : kind c = some .breakpointContinue := by
      rw [kind, CmdBytes.type, hk]
      rfl
    obtain ⟨ctx, hctx⟩ := Option.isSome_iff_exists.mp hctx
    obtain ⟨d₁, hd₁, -, hctx₁, -⟩ := serve_continue (B := B) hkind hctx
    obtain rfl := Option.some.inj (h.symm.trans hd₁)
    rw [hctx₁]
    rfl
  · rwa [serve_ctx h hk]

/-- **A complete command gets the response of the device**, whatever is left over in the two buffers
of the handler, and in either mode of the client. -/
theorem lineExchange_complete (hx : Wire.Complete packed) (hlen : packed.length ≤ 759)
    (hR : SameButCmd p.1.dev d) (hserve : serve B (some d) (commandOf packed) = some d') :
    ∃ p', lineExchange H B p packed = (p', H.result d (sent d d')) ∧ SameButCmd p'.1.dev d' := by
  rcases handlerIteration_carries (B := B) (carries_packetOf H.fastbootMode packed hlen) hx hR with
    ⟨hnone, -⟩ | ⟨d₁, s', hd₁, hs', hiter⟩
  · rw [hnone] at hserve
    cases hserve
  · obtain rfl := Option.some.inj (hd₁.symm.trans hserve)
    have hctx : s'.dev.ctx.isSome := by
      rw [hs'.ctx]
      exact isSome_ctx_of_serve hserve (hR.ctx ▸ p.2)
    have hresult : H.result p.1.dev (sent p.1.dev s'.dev) = H.result d (sent d d₁) := by
      unfold HbootClient.result sent
      rw [hR.ctx, hR.out, hs'.out]
    refine ⟨⟨s', hctx⟩, ?_, hs'⟩
    rw [← hresult]
    refine lineExchange_of_ended ?_ hctx
    split_ifs at hiter
    · exact Or.inr hiter
    · exact Or.inl hiter

/-- At a stop, a register read succeeds. -/
theorem lineExchange_stops (hmode : H.fastbootMode = true) (B : Board) (p : StopState) :
    ∃ k, (lineExchange H B ((fun p => (lineExchange H B p packedGetRegisters).1)^[k]
      (lineExchange H B p packedContinue).1) packedGetRegisters).2[1]? ≠
        some ErrorCode.noBreakpoint.code := by
  refine ⟨0, ?_⟩
  rw [Function.iterate_zero_apply]
  generalize (lineExchange H B p packedContinue).1 = q
  obtain ⟨ctx, hctx⟩ := Option.isSome_iff_exists.mp q.2
  have hk : kind (commandOf packedGetRegisters) = some .getRegisters := rfl
  obtain ⟨d', hd', -, -, hout⟩ := serve_getRegisters (B := B) (d := q.1.dev) hk
  rw [hctx] at hout
  obtain ⟨p', hp', -⟩ := lineExchange_complete (H := H) (p := q) ⟨by decide, by decide⟩ (by decide)
    ⟨rfl, rfl, rfl⟩ hd'
  rw [hp', result_of_fastboot hmode, sent_of_append hout]
  simp [Host.payload]
  decide

/-- The handler of a stop, behind a client. -/
def stopLink (H : HbootClient) (B : Board) : Link := ⟨StopState, lineExchange H B⟩

/-- Behind a client in fastboot mode, it is a phone. -/
def stopPhone (H : HbootClient) (hmode : H.fastbootMode = true) (B : Board) : Phone :=
  ⟨stopLink H B, lineExchange_wellFormed hmode B, lineExchange_stops hmode B⟩

/-- **The handler of a stop answers as the device**, in either mode of the client. -/
theorem backs_stopLink (H : HbootClient) (B : Board) :
    Backs H B (stopLink H B) fun p d => SameButCmd (p : StopState).1.dev d := by
  intro p d m d' response hR hwrite hreq
  obtain ⟨packed, hpack, h⟩ := Option.bind_eq_some_iff.mp hreq
  obtain ⟨⟨d₁, bytes⟩, hexch, h⟩ := Option.bind_eq_some_iff.mp h
  obtain ⟨response', hunpack, h⟩ := Option.bind_eq_some_iff.mp h
  obtain ⟨rfl, rfl⟩ := Prod.mk.inj (Option.some.inj h)
  obtain ⟨hserve, rfl⟩ := serve_of_exchange hexch
  have hx := complete_of_pack hpack hwrite
  have hlen := length_pack_le hpack
  have hagree : ∀ i < packed.length, commandOf packed i = received packed d.cmd i := fun i hi => by
    rw [received_of_lt hi]
    exact (List.getD_eq_getElem _ _ hi).trans (List.getD_eq_getElem _ _ hi).symm
  rcases serve_congr (B := B) (d := d) (hagree 0 hx.pos) fun i hi =>
      hagree i (hi.trans_le hx.needed) with ⟨-, hnone⟩ | ⟨e, e', he, he', hmem, hctx, hout⟩
  · rw [hnone] at hserve
    cases hserve
  · obtain rfl := Option.some.inj (he'.symm.trans hserve)
    obtain ⟨p', hp', hR'⟩ := lineExchange_complete (H := H) hx hlen hR he
    have hsent : sent d e = sent d e' := by
      unfold sent
      rw [hout]
    refine ⟨p', bind_eq_ok.mpr ⟨packed, orRaise_eq_ok.mpr hpack, ?_⟩,
      ⟨hR'.mem.trans hmem, hR'.ctx.trans hctx, hR'.out.trans hout⟩⟩
    simp only [stopLink, hp', hsent, hunpack, orRaise_some, ok_bind]

/-! ## Examples -/

/-- The registers of a stop at `0x8D001000`. -/
def registersSample : Context := ⟨0#32, fun _ => 0x8D001000#32⟩

/-- A handler in a stop, with leftovers in its buffer. -/
def stopSample : StopState :=
  ⟨⟨{ Dev.sample with ctx := some registersSample }, fun _ => 0x41#8⟩, rfl⟩

/-- GDB plants a breakpoint at `0x8D001000` and reads its word. -/
def queriesSample : List (List Byte × Query) :=
  [([plus], .Z0 addressSample ⟨[0x34#8], 4, by decide⟩),
    ([plus], .m addressSample ⟨[0x34#8], 4#32, by decide⟩)]

/-- The stream arrives two bytes at a time, and the handler of the stop is behind a client in its
default mode. -/
theorem settles_queries_sample :
    ∃ s' d', Settles (Phase.step ⟨.tcp, fun _ => 2⟩ (dispatch Python.sample 1)) Phase.fate
        (.idle (⟨⟨⟨0#32, fun _ => 0#32⟩, stopSample⟩, []⟩ :
            Conn (GdbServer (stopLink .sample Board.sample)))
          (session (queryPackets queriesSample)))
        (.stopped ⟨s', [] ++ (replies Board.sample registersSample Dev.sample.mem
          (queriesSample.map Prod.snd)).flatMap fun r => [[plus], pack [r]]⟩) ∧
      SameButCmd (s'.dev : StopState).1.dev d' ∧
      d'.mem = (queriesSample.map Prod.snd).foldl (Query.apply Board.sample) Dev.sample.mem ∧
        d'.ctx = some registersSample := by
  refine settles_queries .sample Board.sample (stopLink .sample Board.sample)
    (fun p d => SameButCmd (p : StopState).1.dev d) Python.sample 1 ⟨.tcp, fun _ => 2⟩ _ []
    { Dev.sample with ctx := some registersSample } registersSample queriesSample
    (backs_stopLink .sample Board.sample) ⟨rfl, rfl, rfl⟩ rfl (by decide) (by decide +kernel)
    (by decide) ((run_eq_whole_iff _ _).mp (by decide +kernel))

end Hbootdbg.Gdb
