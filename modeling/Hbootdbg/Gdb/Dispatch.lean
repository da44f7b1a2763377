import Hbootdbg.Gdb.Server

/-!
# `gdbproxy.py`: the dispatcher

* `Pattern`, `Pattern.group1` — the regular expressions of the handlers, and what they match.
* `Handler` — the handlers, `Handler.registered` in the order in which they are registered, each
  with its `pattern` and what it does (`handle`).
* `dispatch` — the handler that was registered last among those that match.
* `eq_of_matches` — a command matches one handler at most, so the order does not matter:
  `dispatch_of_matches`, `dispatch_of_not_matches`.
-/

namespace Hbootdbg.Gdb

open Hbootdbg.Lib.ByteMem Hbootdbg.Lib.Hex Hbootdbg.Lib.PyInt

/-! ## Regular expressions -/

/-- The regular expressions, between `^` and `$`. -/
inductive Pattern
  /-- A text. -/
  | literal (text : List Byte)
  /-- A letter and `([0-9A-Fa-f]+)`. -/
  | number (letter : Byte)
  /-- `H(m|M|g|G|c|C)(-?\d+)`. -/
  | thread
  deriving DecidableEq

/-- The part of a command that is to be matched: `$` matches before a line break at the end, too. -/
def chomp (command : List Byte) : List Byte :=
  if command.getLast? = some 0x0a#8 then command.dropLast else command

/-- `H`. -/
def letterH : Byte := 0x48#8

/-- `m|M|g|G|c|C`. -/
def threadOperations : List Byte := [0x6d#8, 0x4d#8, 0x67#8, 0x47#8, 0x63#8, 0x43#8]

/-- `-?\d+`. -/
def IsThreadId (text : List Byte) : Prop :=
  let digits := if text.head? = some 0x2d#8 then text.tail else text
  digits ≠ [] ∧ ∀ c ∈ digits, (decimalValue c).isSome

instance (text : List Byte) : Decidable (IsThreadId text) := inferInstanceAs (Decidable (_ ∧ _))

/-- `match` and `group (1)`: `none` where the expression does not match, and nothing where it has no
group. -/
def Pattern.group1 (p : Pattern) (command : List Byte) : Option (List Byte) :=
  match p, chomp command with
  | .literal text, s => if s = text then some [] else none
  | .number letter, c :: digits =>
      if c = letter ∧ digits ≠ [] ∧ Plain digits then some digits else none
  | .thread, c :: op :: text =>
      if c = letterH ∧ op ∈ threadOperations ∧ IsThreadId text then some [op] else none
  | _, _ => none

/-! ## Handlers -/

/-- The handlers. -/
inductive Handler
  | qSupported
  | qAttached
  | qCurrentThread
  | setThread
  | getStopReason
  | getRegisters
  | getRegister
  | continue
  | step
  | readMemory
  | writeMemory
  | insertBreakpoint
  | removeBreakpoint
  | detach
  deriving DecidableEq

namespace Handler

/-- The order of the decorators. Source: `scripts/gdbproxy.py` `GDBServer` -/
def registered : List Handler :=
  [qSupported, qAttached, qCurrentThread, setThread, getStopReason, getRegisters, getRegister,
    .continue, step, readMemory, writeMemory, insertBreakpoint, removeBreakpoint, detach]

/-- The regular expression of the decorator. Source: `scripts/gdbproxy.py` `GDBServer` -/
def pattern : Handler → Pattern
  | qSupported => .literal [0x71#8, 0x53#8, 0x75#8, 0x70#8, 0x70#8, 0x6f#8, 0x72#8, 0x74#8, 0x65#8,
      0x64#8]
  | qAttached => .literal [0x71#8, 0x41#8, 0x74#8, 0x74#8, 0x61#8, 0x63#8, 0x68#8, 0x65#8, 0x64#8]
  | qCurrentThread => .literal [0x71#8, 0x43#8]
  | setThread => .thread
  | getStopReason => .literal [0x3f#8]
  | getRegisters => .literal [0x67#8]
  | getRegister => .number 0x70#8
  | .continue => .literal [0x63#8]
  | step => .literal [0x73#8]
  | readMemory => .number 0x6d#8
  | writeMemory => .number 0x4d#8
  | insertBreakpoint => .literal [0x5a#8, 0x30#8]
  | removeBreakpoint => .literal [0x7a#8, 0x30#8]
  | detach => .literal [0x44#8]

variable {P : Link} (π : Python) (fuel : ℕ) (s : GdbServer P) (group : List Byte)
  (dataList : List (List Byte))

/-- What a handler does. -/
def handle : Handler → GdbServer.Handled P
  | qSupported => s.handleQsupported
  | qAttached => s.handleQattached
  | qCurrentThread => s.handleQCurrentThread
  | setThread => s.handleSetThread group
  | getStopReason => s.handleGetStopReason
  | getRegisters => s.handleGetRegisters
  | getRegister => s.handleGetRegister π group
  | .continue => s.handleContinue fuel
  | step => s.handleStep fuel
  | readMemory => s.handleReadMemory π group dataList
  | writeMemory => s.handleWriteMemory π group dataList
  | insertBreakpoint => s.handleInsertBreakpoint π dataList
  | removeBreakpoint => s.handleRemoveBreakpoint π dataList
  | detach => s.handleDetach

end Handler

/-- `dispatch (command, *data_list)`. Source: `scripts/gdbproxy.py` `PatternDispatcher.dispatch` -/
def dispatch {P : Link} (π : Python) (fuel : ℕ) : Dispatcher (GdbServer P) :=
  fun s command dataList =>
    Handler.registered.reverse.findSome? fun h =>
      (h.pattern.group1 command).map fun group => h.handle π fuel s group dataList

/-! ## One handler at most -/

variable {p q : Pattern} {h h' : Handler} {command group group' : List Byte}

/-- The first character of the commands that match. -/
def Pattern.first : Pattern → Option Byte
  | .literal text => text.head?
  | .number letter => some letter
  | .thread => some letterH

/-- Two expressions that a command may match: they are the same text, or one is not a text and they
begin with the same character. -/
def Pattern.Meets : Pattern → Pattern → Prop
  | .literal text, .literal text' => text = text'
  | p, q => p.first = q.first

instance : DecidableRel Pattern.Meets
  | .literal _, .literal _ => inferInstanceAs (Decidable (_ = _))
  | .literal _, .number _ | .literal _, .thread => inferInstanceAs (Decidable (_ = _))
  | .number _, _ | .thread, _ => inferInstanceAs (Decidable (_ = _))

/-- A literal pattern matches its own text alone. -/
theorem Pattern.literal_matches {text : List Byte}
    (hm : (Pattern.literal text).group1 command = some group) : chomp command = text := by
  by_contra hne
  rw [Pattern.group1, if_neg hne] at hm
  cases hm

/-- A pattern with a number matches the letter and the digits that it captures. -/
theorem Pattern.number_matches {letter : Byte}
    (hm : (Pattern.number letter).group1 command = some group) :
    chomp command = letter :: group ∧ group ≠ [] ∧ Plain group := by
  unfold Pattern.group1 at hm
  cases hc : chomp command with
  | nil => rw [hc] at hm; cases hm
  | cons c digits =>
      rw [hc] at hm
      obtain ⟨⟨rfl, hne, hplain⟩, he⟩ := Option.ite_none_right_eq_some.mp hm
      obtain rfl := Option.some.inj he
      exact ⟨rfl, hne, hplain⟩

/-- The pattern of a thread matches only commands that begin with `H`. -/
theorem Pattern.thread_matches (hm : Pattern.thread.group1 command = some group) :
    (chomp command).head? = some letterH := by
  unfold Pattern.group1 at hm
  rcases hc : chomp command with - | ⟨c, - | ⟨op, text⟩⟩
  · rw [hc] at hm; cases hm
  · rw [hc] at hm; cases hm
  · rw [hc] at hm
    obtain ⟨⟨rfl, -⟩, -⟩ := Option.ite_none_right_eq_some.mp hm
    rfl

/-- A command that is matched begins with the first character of the pattern. -/
theorem Pattern.first_of_matches (hm : p.group1 command = some group) :
    (chomp command).head? = p.first := by
  cases p with
  | literal text => rw [Pattern.literal_matches hm, Pattern.first]
  | number letter => rw [(Pattern.number_matches hm).1, List.head?_cons, Pattern.first]
  | thread => exact Pattern.thread_matches hm

/-- Two patterns that match the same command meet. -/
theorem Pattern.meets_of_matches (hp : p.group1 command = some group)
    (hq : q.group1 command = some group') : p.Meets q := by
  have hfirst : p.first = q.first :=
    (Pattern.first_of_matches hp).symm.trans (Pattern.first_of_matches hq)
  cases p with
  | literal text =>
      cases q with
      | literal text' => exact (Pattern.literal_matches hp).symm.trans (Pattern.literal_matches hq)
      | number letter => exact hfirst
      | thread => exact hfirst
  | number letter => exact hfirst
  | thread => exact hfirst

/-- Every handler is registered. -/
theorem mem_registered (h : Handler) : h ∈ Handler.registered := by
  cases h <;> decide

/-- No two handlers have expressions that meet. -/
theorem eq_of_meets : ∀ h ∈ Handler.registered, ∀ h' ∈ Handler.registered,
    h.pattern.Meets h'.pattern → h = h' := by
  decide

/-- **A command matches one handler at most.** -/
theorem eq_of_matches (hm : h.pattern.group1 command = some group)
    (hm' : h'.pattern.group1 command = some group') : h = h' :=
  eq_of_meets h (mem_registered h) h' (mem_registered h') (Pattern.meets_of_matches hm hm')

section dispatch

variable {P : Link} {π : Python} {fuel : ℕ} {s : GdbServer P} {dataList : List (List Byte)}

/-- A request that matches goes to its handler. -/
theorem dispatch_of_matches (hm : h.pattern.group1 command = some group) :
    dispatch π fuel s command dataList = some (h.handle π fuel s group dataList) := by
  unfold dispatch
  cases hfind : Handler.registered.reverse.findSome? fun h =>
      (h.pattern.group1 command).map fun group => h.handle π fuel s group dataList with
  | none =>
      have hnone := List.findSome?_eq_none_iff.mp hfind h (List.mem_reverse.mpr (mem_registered h))
      rw [hm] at hnone
      cases hnone
  | some handled =>
      obtain ⟨h', -, hh'⟩ := List.exists_of_findSome?_eq_some hfind
      obtain ⟨group', hm', rfl⟩ := Option.map_eq_some_iff.mp hh'
      obtain rfl := eq_of_matches hm hm'
      obtain rfl := Option.some.inj (hm.symm.trans hm')
      rfl

/-- A request that matches no handler. -/
theorem dispatch_of_not_matches (hm : ∀ h : Handler, h.pattern.group1 command = none) :
    dispatch π fuel s command dataList = none := by
  unfold dispatch
  rw [List.findSome?_eq_none_iff]
  intro h _
  rw [hm h, Option.map_none]

end dispatch

end Hbootdbg.Gdb
