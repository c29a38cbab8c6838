import LittleMan.Assembly.Program
import LittleMan.Machine.Clock
import LittleMan.Machine.Step

/-!
# Machines

A machine is a state with a source of numbers, listeners that are told every event, and a journal of
everything that was let out so far. Programs are loaded into it and executed step by step (`step`),
for a number of steps (`runAtMost`), for as long as a condition holds (`runWhile`), for a time
(`runFor`) or until it stops (`run`).
-/

namespace LittleMan

/-- An entry of the journal of a machine. -/
inductive Notice where
  /-- The source of numbers was asked; the pending number before and after. -/
  | asked (before after : Word)
  /-- The sink of output was called with the text just printed and with all that has been
  printed. -/
  | printed (appended output : String)
  /-- A listener was told an event. -/
  | heard (listener : Nat) (event : Event)
  /-- A report was made. -/
  | remark (remark : MachineRemark)
  deriving DecidableEq, Repr, Inhabited

/-- The entries of a signal when there are that many listeners: every listener is told an event, in
the order in which they came. -/
def Signal.notices (listeners : Nat) : Signal → List Notice
  | asked before after => [.asked before after]
  | printed appended output => [.printed appended output]
  | event e => (List.range listeners).map (.heard · e)
  | remark r => [.remark r]

namespace Notice

/-- The text of a call of the sink. -/
def piece? : Notice → Option String
  | printed appended _ => some appended
  | _ => none

/-- The report of an entry, if it is one. -/
def remark? : Notice → Option MachineRemark
  | remark r => some r
  | _ => none

end Notice

/-- The number that a piece of output is, without the line breaks before it. -/
def pieceNumber? (piece : String) : Option Word :=
  (Decimal.toInt? (piece.toList.dropWhile (· == '\n'))).bind Word.ofInt?

/-- A machine whose source of numbers has states of type `σ`. -/
structure Machine (σ : Type) where
  /-- Registers, memory and output. -/
  state : State := {}
  /-- The source of numbers. -/
  source : σ
  /-- How many listeners there are. -/
  listeners : Nat := 0
  /-- Everything that was let out so far. -/
  journal : Array Notice := #[]
  deriving DecidableEq, Repr

namespace Machine

variable {σ : Type}

/-- The machine after it has given signals. -/
def signal (m : Machine σ) (signals : List Signal) : Machine σ :=
  { m with journal := m.journal ++ signals.flatMap (Signal.notices m.listeners) }

@[simp] theorem state_signal (m : Machine σ) (signals : List Signal) :
    (m.signal signals).state = m.state := rfl

@[simp] theorem source_signal (m : Machine σ) (signals : List Signal) :
    (m.signal signals).source = m.source := rfl

@[simp] theorem listeners_signal (m : Machine σ) (signals : List Signal) :
    (m.signal signals).listeners = m.listeners := rfl

/-- The machine with one more listener, which is told every event from now on. -/
def listen (m : Machine σ) : Machine σ := { m with listeners := m.listeners + 1 }

/-- The texts the sink was called with. -/
def pieces (m : Machine σ) : List String := m.journal.toList.filterMap Notice.piece?

/-- The pieces that are numbers. -/
def numbers (m : Machine σ) : List Word := m.pieces.filterMap pieceNumber?

/-- The reports made so far. -/
def remarks (m : Machine σ) : List MachineRemark := m.journal.toList.filterMap Notice.remark?

/-- Clears memory, registers and output. Source, listeners and journal are kept. -/
def reset (m : Machine σ) : Machine σ := { m with state := {} }.signal [.remark .reset]

/-! ### Loading -/

/-- Puts words into the mailboxes from `address` on. If they do not all fit, none is put there. -/
def loadWords (m : Machine σ) (words : Array Word) (address : Nat) :
    Except MachineError Unit × Machine σ :=
  if address + words.size ≤ mailboxCount then
    (.ok (), { m with state := m.state.write address words }.signal
      [.remark (.loaded address words.size)])
  else
    (.error ⟨max address mailboxCount, .noMailbox⟩,
      m.signal [.remark (.doesNotFit address words.size)])

/-- Puts a program into the mailboxes from `address` on, with its label operands moved along. -/
def loadProgram (m : Machine σ) (p : Program) (address : Nat) :
    Except MachineError Unit × Machine σ :=
  if address + p.size ≤ mailboxCount then m.loadWords (p.wordsAt address) address
  else m.loadWords p.words address

/-! ### Executing -/

/-- The answer to a step with that effect, and the machine after it. -/
def after (m : Machine σ) (effect : Effect σ) : Except MachineError Unit × Machine σ :=
  let stepped := { m with state := effect.state, source := effect.source }.signal effect.signals
  match effect.failure with
  | none => (.ok (), stepped)
  | some e => (.error e, stepped)

theorem after_fst (m : Machine σ) (effect : Effect σ) :
    (m.after effect).1 = match effect.failure with
      | none => .ok ()
      | some e => .error e := by
  unfold after
  cases effect.failure <;> rfl

theorem after_snd (m : Machine σ) (effect : Effect σ) :
    (m.after effect).2 =
      { m with state := effect.state, source := effect.source }.signal effect.signals := by
  unfold after
  cases effect.failure <;> rfl

section Execution

variable [NumberSource σ]

/-- Executes the instruction at the pointer. -/
def step (m : Machine σ) : Except MachineError Unit × Machine σ :=
  m.after (m.state.step m.source)

/-- Executes at most that many instructions; answers whether the machine has stopped. -/
def runAtMost (m : Machine σ) : Nat → Except MachineError Bool × Machine σ
  | 0 => (.ok m.state.halted, m)
  | limit + 1 =>
    if m.state.halted then (.ok true, m)
    else match m.step with
      | (.error e, stepped) => (.error e, stepped)
      | (.ok (), stepped) => stepped.runAtMost limit

/-- Executes instructions until the machine stops or `allowed` no longer holds of the number of
instructions executed; answers whether the machine has stopped. There is no answer if neither ever
happens. -/
def runWhile (allowed : Nat → Bool) (m : Machine σ) (executed : Nat) :
    Option (Except MachineError Bool × Machine σ) :=
  if m.state.halted || !allowed executed then some (.ok m.state.halted, m)
  else match m.step with
    | (.error e, stepped) => some (.error e, stepped)
    | (.ok (), stepped) => stepped |>.runWhile allowed (executed + 1)
partial_fixpoint

/-- Executes instructions until the machine stops or the budget has passed; answers whether the
machine has stopped. The instruction that is being executed when the budget has passed is executed
to its end. Before anything else the deadline is calculated, and the program is broken off if there
is no such time. -/
def runFor (m : Machine σ) (clock : Clock) (budget : Nat) :
    Checked (Option (Except MachineError Bool × Machine σ)) := do
  let deadline ← clock.deadline budget
  return m.runWhile (clock.isBefore deadline) 0

/-- Executes instructions until the machine stops. There is no answer if it never does. -/
def run (m : Machine σ) : Option (Except MachineError Unit × Machine σ) :=
  if m.state.halted then some (.ok (), m)
  else match m.step with
    | (.error e, stepped) => some (.error e, stepped)
    | (.ok (), stepped) => stepped |>.run
partial_fixpoint

end Execution

end Machine

end LittleMan
