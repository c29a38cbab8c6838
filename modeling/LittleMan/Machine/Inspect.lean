import LittleMan.Machine.Basic
import LittleMan.Text.Quoted

/-!
# Inspecting a machine

The whole state of a machine on one line, for people who look for a mistake.
-/

namespace LittleMan

/-- Named values between braces, after the name of what they belong to. -/
def inspectFields (name : String) (fields : List (String × String)) : String :=
  name ++ " \x7b " ++ ", ".intercalate (fields.map fun (field, value) => field ++ ": " ++ value) ++
    " \x7d"

/-- The state of the machine with all its mailboxes. -/
def State.inspect (s : State) : String :=
  let word (w : Word) := Decimal.ofInt w.toInt
  inspectFields "Context" [
    ("memory", "[" ++ ", ".intercalate (s.memory.toList.map word) ++ "]"),
    ("instruction_pointer", s.pointer.repr),
    ("accumulator", word s.accumulator),
    ("halted", if s.halted then "true" else "false"),
    ("input", word s.pending),
    ("output", Text.quote s.output)]

/-- The state of the machine and the number of its listeners. -/
def Machine.inspect {σ : Type} (m : Machine σ) : String :=
  inspectFields "Machine" [("context", m.state.inspect), ("listeners", m.listeners.repr)]

end LittleMan
