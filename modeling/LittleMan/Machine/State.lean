import LittleMan.Instruction

/-!
# The state of the machine

The mailboxes and registers of the machine, what it has printed, and the ways in which it can go
wrong.
-/

namespace LittleMan

/-- The state of the machine. -/
structure State where
  /-- The mailboxes. -/
  memory : Vector Word mailboxCount := Vector.replicate mailboxCount 0
  /-- The address of the instruction that is executed next. -/
  pointer : Nat := 0
  /-- The register for arithmetic. -/
  accumulator : Word := 0
  /-- Whether the machine has stopped. -/
  halted : Bool := false
  /-- The number supplied last by the source of numbers. -/
  pending : Word := 0
  /-- Everything that has been printed. -/
  output : String := ""
  deriving DecidableEq, Repr, Inhabited

/-- Why the machine fails. -/
inductive MachineError.Cause where
  /-- The word to be executed is no instruction. -/
  | badInstruction (word : Word) (reason : DecodeError)
  /-- The accumulator is to be printed as a character and is none. -/
  | notACharacter (value : Word)
  /-- A mailbox is needed that does not exist. -/
  | noMailbox
  deriving DecidableEq, Repr, Inhabited

/-- A failure of the machine. -/
structure MachineError where
  /-- The address of the instruction that failed or, on loading, of the first mailbox that does not
  exist. -/
  address : Nat
  /-- What went wrong. -/
  cause : MachineError.Cause
  deriving DecidableEq, Repr, Inhabited

/-- The failure in words. -/
def MachineError.message (e : MachineError) : String :=
  match e.cause with
  | .badInstruction word reason =>
    "runtime error at " ++ e.address.repr ++ ": bad instruction " ++ Decimal.ofInt word.toInt ++
      ": " ++ reason.message
  | .notACharacter value =>
    "runtime error at " ++ e.address.repr ++ ": " ++ Decimal.ofInt value.toInt ++
      " is not a character"
  | .noMailbox => "address " ++ e.address.repr ++ " is outside of the memory"

namespace State

/-- The instruction at the pointer, which is not executed. -/
def current (s : State) : Except MachineError Instruction :=
  match s.memory[s.pointer]? with
  | none => .error ⟨s.pointer, .noMailbox⟩
  | some word =>
    match Instruction.decode word with
    | .ok ins => .ok ins
    | .error reason => .error ⟨s.pointer, .badInstruction word reason⟩

/-- The next step reads a number: the machine is running and `INP` is at the pointer. -/
def ReadsNext (s : State) : Prop := s.halted = false ∧ s.current = .ok .inp

instance (s : State) : Decidable s.ReadsNext :=
  decidable_of_iff (s.halted = false ∧ s.current.toOption = some .inp)
    (and_congr_right' (by cases s.current <;> simp [Except.toOption]))

/-- The state with the words in the mailboxes from `address` on; what does not fit is left out. -/
def write (s : State) (address : Nat) (words : Array Word) : State :=
  { s with memory := Vector.ofFn fun i =>
      if address ≤ i.val then (words[i.val - address]?).getD s.memory[i] else s.memory[i] }

end State

end LittleMan
