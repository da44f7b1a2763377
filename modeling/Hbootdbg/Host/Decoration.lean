import Hbootdbg.Device.Commands
import Hbootdbg.Host.Hboot

/-!
# The decoration of the console

In keytest mode the phone echoes the command and ends the response with its prompt, but not while it
is stopped in a breakpoint. `hbootdbg` takes a first line for an echo, and a last one for a prompt,
by what they look like.

* `Decorated` — the response between an echo and a prompt; `stripDecoration_decorated` says that the
  two are taken off.
* `exists_of_prompt`, `stripDecoration_of_not_prompt` — a response without them: it loses its last
  line if that ends like a prompt.
* `lossless_iff` — so a response is never changed iff it does not end like a prompt.
-/

namespace Hbootdbg.Host

open Hbootdbg.Lib.ByteMem Hbootdbg.Lib.SplitPair Hbootdbg.Device

/-- What the phone puts around a response: an echo line that begins with `keytest`, and a prompt
line that ends in `hboot>`. -/
structure Decoration where
  /-- The echo. -/
  echo : List Byte
  /-- The prompt. -/
  prompt : List Byte
  /-- The echo begins with `keytest`. -/
  echo_start : keytestEcho <+: echo
  /-- The echo is a line. -/
  echo_line : Unbroken cr lf echo
  /-- The prompt ends in `hboot>`. -/
  prompt_end : hbootPrompt <:+ prompt
  /-- The prompt is a line. -/
  prompt_line : Unbroken cr lf prompt

/-- The response between the two lines. -/
def Decoration.around (w : Decoration) (r : List Byte) : List Byte :=
  w.echo ++ cr :: lf :: (r ++ cr :: lf :: w.prompt)

/-- A reply of the device: it begins with the type of a command. -/
def IsReply (r : List Byte) : Prop := ∃ (t : CmdType) (rest : List Byte), r = t.code :: rest

/-- `hbootdbg` returns the response, with and without decoration, and however it arrives. -/
def Lossless (r : List Byte) : Prop :=
  ∀ c : SerialClient, hbootdbg c false r = some r ∧
    ∀ w : Decoration, hbootdbg c false (w.around r) = some r

variable {r : List Byte}

theorem cr_ne_lf : cr ≠ lf := by decide

/-! ## With decoration -/

/-- **The two lines are taken off**, whatever the response is. -/
theorem stripDecoration_around (w : Decoration) (r : List Byte) :
    stripDecoration (w.around r) = r := by
  have hlines : splitPair cr lf (w.around r) = w.echo :: (splitPair cr lf r ++ [w.prompt]) := by
    rw [Decoration.around, splitPair_append cr_ne_lf, splitPair_append cr_ne_lf,
      splitPair_of_unbroken w.echo_line, splitPair_of_unbroken w.prompt_line,
      List.singleton_append]
  have hfirst : keytestEcho.isPrefixOf w.echo = true := List.isPrefixOf_iff_prefix.mpr w.echo_start
  have hlast : hbootPrompt.isSuffixOf w.prompt = true :=
    List.isSuffixOf_iff_suffix.mpr w.prompt_end
  unfold stripDecoration
  simp only [hlines, List.headD_cons, List.getLastD_cons, List.getLastD_concat, hfirst, hlast,
    if_true]
  rw [List.length_cons, Nat.add_sub_cancel, List.length_append, List.length_singleton,
    List.take_succ_cons, List.take_left, List.drop_succ_cons, List.drop_zero,
    intercalate_splitPair]

/-! ## Without decoration -/

/-- A reply does not begin like an echo. -/
theorem IsReply.not_echo (h : IsReply r) : ¬ keytestEcho <+: r := by
  obtain ⟨t, rest, rfl⟩ := h
  intro hstart
  have hfirst := (List.cons_prefix_cons.mp hstart).1
  cases t <;> exact absurd hfirst (by decide)

/-- The end of the reply decides. -/
theorem stripDecoration_reply (h : IsReply r) : stripDecoration r =
    [cr, lf].intercalate (if hbootPrompt <:+ r then (splitPair cr lf r).dropLast
      else splitPair cr lf r) := by
  have hne := splitPair_ne_nil (a := cr) (b := lf) r
  have hfirst : keytestEcho.isPrefixOf ((splitPair cr lf r).headD []) = false := by
    rw [Bool.eq_false_iff, Ne, List.isPrefixOf_iff_prefix, List.headD_eq_head?_getD,
      List.head?_eq_some_head hne, Option.getD_some]
    exact fun hstart => h.not_echo (hstart.trans (head_splitPair_start r))
  have hlast : hbootPrompt.isSuffixOf ((splitPair cr lf r).getLastD []) = true ↔
      hbootPrompt <:+ r := by
    rw [List.isSuffixOf_iff_suffix, List.getLastD_eq_getLast?, List.getLast?_eq_some_getLast hne,
      Option.getD_some]
    exact suffix_last_iff (by decide) r
  unfold stripDecoration
  simp only [hfirst, hlast, Bool.false_eq_true, if_false, List.drop_zero]
  split_ifs
  · rw [List.dropLast_eq_take]
  · rw [List.take_length]

/-- A reply that does not end like a prompt is returned. -/
theorem stripDecoration_of_not_prompt (h : IsReply r) (hprompt : ¬ hbootPrompt <:+ r) :
    stripDecoration r = r := by
  rw [stripDecoration_reply h, if_neg hprompt, intercalate_splitPair]

/-- **A reply that ends like a prompt loses its last line**, and the separator before it. -/
theorem exists_of_prompt (h : IsReply r) (hprompt : hbootPrompt <:+ r) :
    ∃ rest, rest ≠ [] ∧ stripDecoration r ++ rest = r := by
  rw [stripDecoration_reply h, if_pos hprompt]
  have hne := splitPair_ne_nil (a := cr) (b := lf) r
  have hjoin := intercalate_splitPair (a := cr) (b := lf) r
  have hsplit := List.dropLast_append_getLast hne
  generalize (splitPair cr lf r).dropLast = init at hsplit ⊢
  generalize (splitPair cr lf r).getLast hne = last at hsplit
  rw [← hsplit] at hjoin
  cases init with
  | nil =>
      obtain ⟨t, rest, rfl⟩ := h
      exact ⟨_, List.cons_ne_nil _ _, rfl⟩
  | cons p ps =>
      rw [intercalate_concat (List.cons_ne_nil p ps)] at hjoin
      exact ⟨_, List.cons_ne_nil _ _, hjoin⟩

/-- Such a reply is changed. -/
theorem stripDecoration_of_prompt (h : IsReply r) (hprompt : hbootPrompt <:+ r) :
    stripDecoration r ≠ r := by
  obtain ⟨rest, hrest, he⟩ := exists_of_prompt h hprompt
  intro hsame
  rw [hsame] at he
  exact hrest (List.append_right_eq_self.mp he)

/-- **A reply is never changed iff it does not end like a prompt.** -/
theorem lossless_iff (r : List Byte) (h : IsReply r) : Lossless r ↔ ¬ hbootPrompt <:+ r := by
  unfold Lossless
  simp only [hbootdbg_eq, Bool.false_eq_true, if_false, Option.some.injEq]
  constructor
  · intro hall hprompt
    exact stripDecoration_of_prompt h hprompt (hall ⟨true, fun _ => 0⟩).1
  · intro hprompt _
    exact ⟨stripDecoration_of_not_prompt h hprompt, fun w => stripDecoration_around w r⟩

/-! ## Status and data -/

/-- The data alone decide whether a reply ends like a prompt: neither a type nor an error is one of
its characters. -/
theorem prompt_reply_iff (t : CmdType) (e : ErrorCode) (data : List Byte) :
    hbootPrompt <:+ t.code :: e.code :: data ↔ hbootPrompt <:+ data := by
  rw [List.suffix_cons_iff, List.suffix_cons_iff]
  constructor
  · rintro (h | h | h)
    · have hfirst := (List.cons.inj h).1
      cases t <;> exact absurd hfirst (by decide)
    · have hfirst := (List.cons.inj h).1
      cases e <;> exact absurd hfirst (by decide)
    · exact h
  · exact fun h => Or.inr (Or.inr h)

/-- The echo and the prompt of an idle phone. -/
def Decoration.sample : Decoration where
  echo := keytestEcho
  prompt := hbootPrompt
  echo_start := List.prefix_rfl
  echo_line := by
    unfold Unbroken
    decide
  prompt_end := List.suffix_rfl
  prompt_line := by
    unfold Unbroken
    decide

/-- A stopped device sends a memory range that ends in `hboot>`: nothing of the reply is left. -/
theorem dump_of_prompt_lost :
    IsReply (CmdType.read.code :: ErrorCode.success.code :: hbootPrompt) ∧
      ¬ Lossless (CmdType.read.code :: ErrorCode.success.code :: hbootPrompt) := by
  refine ⟨⟨.read, _, rfl⟩, fun h => ?_⟩
  have hraw := (h ⟨true, fun _ => 0⟩).1
  rw [hbootdbg_eq] at hraw
  exact absurd hraw (by decide)

/-- A reply that says that a breakpoint was inserted. -/
theorem lossless_sample :
    Lossless [CmdType.insertBreakpoint.code, ErrorCode.success.code] ↔
      ¬ hbootPrompt <:+ [CmdType.insertBreakpoint.code, ErrorCode.success.code] :=
  lossless_iff _ ⟨.insertBreakpoint, _, rfl⟩

end Hbootdbg.Host
