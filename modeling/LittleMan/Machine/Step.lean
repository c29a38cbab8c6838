import LittleMan.Machine.Event
import LittleMan.Machine.Input

/-!
# One step

What executing the instruction at the pointer does to the state of the machine and to its source of
numbers, which signals it gives, and whether it fails. A failure stops the machine and changes
nothing else but the pointer.
-/

namespace LittleMan

/-- How a step ends. -/
structure Effect (σ : Type) where
  /-- The state after the step. -/
  state : State
  /-- The source of numbers after the step. -/
  source : σ
  /-- The signals given during the step. -/
  signals : List Signal := []
  /-- The failure, if the step failed. -/
  failure : Option MachineError := none
  deriving DecidableEq, Repr

namespace State

variable {σ : Type}

/-! ### What instructions are made of -/

/-- Nothing happens. -/
def rest (s : State) (source : σ) : Effect σ := { state := s, source }

/-- The machine stops because of a failure at `address`. -/
def fail (s : State) (source : σ) (address : Nat) (cause : MachineError.Cause) : Effect σ where
  state := { s with halted := true }
  source
  signals := [.remark (.failed ⟨address, cause⟩), .event .halt]
  failure := some ⟨address, cause⟩

/-- The machine stops because the instruction before the pointer says so. -/
def stop (s : State) (source : σ) : Effect σ where
  state := { s with halted := true }
  source
  signals := [.remark (.halted (s.pointer - 1)), .event .halt]

/-- A word comes into the accumulator. -/
def accumulate (s : State) (source : σ) (data : Word) : Effect σ where
  state := { s with accumulator := data }
  source
  signals := [.event (.accumulator data)]

/-- The instruction at `origin` sets the pointer. -/
def goTo (s : State) (source : σ) (origin target : Nat) : Effect σ where
  state := { s with pointer := target }
  source
  signals := [.remark (.jumping origin target), .event (.jump origin target)]

/-- A text is printed. -/
def print (s : State) (source : σ) (text : String) : Effect σ where
  state := { s with output := s.output ++ text }
  source
  signals := [.printed text (s.output ++ text), .event (.output text)]

/-- The accumulator goes into a mailbox. -/
def store (s : State) (source : σ) (address : Nat) (h : address < mailboxCount) : Effect σ where
  state := { s with memory := s.memory.set address s.accumulator h }
  source
  signals := [.event (.memory address s.accumulator)]

/-- The source is asked for a number, which comes into the accumulator. -/
def readNumber [NumberSource σ] (s : State) (source : σ) : Effect σ :=
  let (data, source) := NumberSource.ask s.pending source
  { state := { s with pending := data, accumulator := data }
    source
    signals := [.asked s.pending data, .event (.input data), .event (.accumulator data)] }

/-- The text a number is printed as: numbers stand on lines of their own, so that a line break goes
before all but the first text. -/
def numberText (s : State) : String :=
  (if s.output.isEmpty then "" else "\n") ++ Decimal.ofInt s.accumulator.toInt

/-- The character a word is the code point of. -/
def charOf? (w : Word) : Option Char :=
  if w.toInt < 0 then none
  else if h : w.toInt.toNat.isValidChar then some (Char.ofNatAux w.toInt.toNat h) else none

theorem charOf?_eq_some_iff {w : Word} {char : Char} :
    charOf? w = some char ↔ (char.toNat : Int) = w.toInt := by
  unfold charOf?
  constructor
  · intro h
    by_cases hneg : w.toInt < 0
    · rw [if_pos hneg] at h
      cases h
    rw [if_neg hneg] at h
    by_cases hvalid : w.toInt.toNat.isValidChar
    · rw [dif_pos hvalid] at h
      obtain rfl := Option.some.inj h
      have hcode : (Char.ofNatAux w.toInt.toNat hvalid).toNat = w.toInt.toNat := rfl
      omega
    · rw [dif_neg hvalid] at h
      cases h
  · intro h
    have hcode : w.toInt.toNat = char.toNat := by omega
    have hvalid : w.toInt.toNat.isValidChar := hcode ▸ char.valid
    rw [if_neg (by omega), dif_pos hvalid]
    exact congrArg some (Char.ext (UInt32.toNat_inj.mp hcode))

/-! ### Instructions -/

/-- What an instruction does that was fetched from `address`; the pointer of `s` is the one behind
it. An operand outside the memory is a failure. -/
def execute [NumberSource σ] (s : State) (source : σ) (address : Nat) : Instruction → Effect σ
  | .hlt => s.stop source
  | .add operand =>
    match s.memory[operand]? with
    | some data => s.accumulate source (Word.wrap (s.accumulator.toInt + data.toInt))
    | none => s.fail source address .noMailbox
  | .sub operand =>
    match s.memory[operand]? with
    | some data => s.accumulate source (Word.wrap (s.accumulator.toInt - data.toInt))
    | none => s.fail source address .noMailbox
  | .sta operand =>
    if h : operand < mailboxCount then s.store source operand h
    else s.fail source address .noMailbox
  | .lda operand =>
    match s.memory[operand]? with
    | some data => s.accumulate source data
    | none => s.fail source address .noMailbox
  | .bra target => s.goTo source address target
  | .brz target => if s.accumulator = 0 then s.goTo source address target else s.rest source
  | .brp target => if 0 ≤ s.accumulator then s.goTo source address target else s.rest source
  | .inp => s.readNumber source
  | .out => s.print source s.numberText
  | .otc =>
    match charOf? s.accumulator with
    | some char => s.print source char.toString
    | none => s.fail source address (.notACharacter s.accumulator)

/-- What the instruction at the pointer does; the pointer moves on first. A machine that has stopped
does nothing. -/
def step [NumberSource σ] (s : State) (source : σ) : Effect σ :=
  if s.halted then s.rest source
  else
    match s.memory[s.pointer]? with
    | none => s.fail source s.pointer .noMailbox
    | some word =>
      let moved := { s with pointer := s.pointer + 1 }
      match Instruction.decode word with
      | .error reason => moved.fail source s.pointer (.badInstruction word reason)
      | .ok ins =>
        let effect := moved.execute source s.pointer ins
        { effect with signals := .remark (.executing s.pointer word ins) :: effect.signals }

end State

end LittleMan
