import LittleMan.Log
import LittleMan.Machine.State

/-!
# Events, remarks and signals

A machine tells its listeners every change of its state as an event, calls its source of numbers and
its sink of output, and reports what it does. All of this is the trace of signals that the machine
leaves behind.
-/

namespace LittleMan

/-- A change of the state of a machine. -/
inductive Event where
  /-- The mailbox holds a new word. -/
  | memory (address : Nat) (data : Word)
  /-- The accumulator holds a new word. -/
  | accumulator (data : Word)
  /-- The instruction at `origin` has set the pointer to `target`. -/
  | jump (origin target : Nat)
  /-- A number has been read. -/
  | input (data : Word)
  /-- A text has been printed. -/
  | output (text : String)
  /-- The machine has stopped. -/
  | halt
  deriving DecidableEq, Repr, Inhabited

/-! ### Reports -/

/-- What a machine reports. -/
inductive MachineRemark where
  /-- The machine is in its first state again. -/
  | reset
  /-- Words have been loaded. -/
  | loaded (address size : Nat)
  /-- Words have not been loaded because there are too many. -/
  | doesNotFit (address size : Nat)
  /-- An instruction is about to be executed. -/
  | executing (address : Nat) (word : Word) (instruction : Instruction)
  /-- The pointer is about to be set. -/
  | jumping (origin target : Nat)
  /-- The machine has been stopped by the instruction at `address`. -/
  | halted (address : Nat)
  /-- The machine has failed. -/
  | failed (error : MachineError)
  deriving DecidableEq, Repr, Inhabited

namespace MachineRemark

/-- The level the remark is logged at. -/
def level : MachineRemark → Log.Level
  | executing .. | jumping .. => .trace
  | doesNotFit .. | failed .. => .warning
  | reset | loaded .. | halted .. => .debug

/-- The message of the remark. -/
def message : MachineRemark → String
  | reset => "reset"
  | loaded .. => "loaded program"
  | doesNotFit .. => "program does not fit into memory"
  | executing .. => "execute"
  | jumping .. => "jump"
  | halted .. => "halted"
  | failed .. => "execution failed"

/-- The values the remark is about. -/
def fields : MachineRemark → List (String × String)
  | reset => []
  | loaded address size | doesNotFit address size =>
    [("address", address.repr), ("size", size.repr)]
  | executing address word ins =>
    [("address", address.repr), ("word", Decimal.ofInt word.toInt), ("instruction", ins.text)]
  | jumping origin target => [("from", origin.repr), ("to", target.repr)]
  | halted address => [("address", address.repr)]
  | failed error => [("address", error.address.repr), ("error", error.message)]

/-- The remark as a record of the execution stage. -/
def record (r : MachineRemark) : Log.Record :=
  ⟨r.level, r.message, ("stage", "execution") :: r.fields⟩

end MachineRemark

/-! ### Signals -/

/-- One thing a machine lets the outside know. -/
inductive Signal where
  /-- The source of numbers was asked; the pending number before and after. -/
  | asked (before after : Word)
  /-- The sink of output was called with the text just printed and with all that has been
  printed. -/
  | printed (appended output : String)
  /-- The listeners were told an event. -/
  | event (event : Event)
  /-- A report was made. -/
  | remark (remark : MachineRemark)
  deriving DecidableEq, Repr, Inhabited

/-- The event of a signal, if it is one. -/
def Signal.event? : Signal → Option Event
  | event e => some e
  | _ => none

/-- The text of a call of the sink. -/
def Signal.piece? : Signal → Option String
  | printed appended _ => some appended
  | _ => none

end LittleMan
