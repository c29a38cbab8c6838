import LittleMan.Assembly.Assemble
import LittleMan.Command.Options
import LittleMan.Machine.Basic

/-!
# Carrying out a command

What `lmcrun` does with a source: print its listing, print its words, or execute it on a fresh
machine. `plan` decides which of these it is, `start` loads the machine, `failure?` says what the
end of an execution is reported as. `perform` puts them together for an input that is known in
advance. Where it is not, `Limits.allow` says whether there is one more step, and `WantsLine`
whether it takes one more line (`supply`).
-/

namespace LittleMan.Command

/-- Why a command could not be carried out to its end. -/
inductive Failure where
  /-- The value of an option is no number. -/
  | argument (error : BadNumber)
  /-- The source could not be assembled. -/
  | assembly (error : AssemblyError)
  /-- The machine failed, at that line if the failing instruction is one of the program. -/
  | execution (error : MachineError) (line : Option Nat)
  /-- The limit was reached before the machine stopped. -/
  | stopped
  deriving DecidableEq, Repr, Inhabited

/-- What is printed to the standard error about a failure with a source. -/
def Failure.message (source : String) : Failure → String
  | argument e => "Invalid argument: " ++ e.message
  | assembly e => "Assembly error " ++ ((e.report? source).map (·.text)).getD e.message
  | execution e (some line) => "Execution error: " ++ e.message ++ " (line " ++ line.repr ++ ")"
  | execution e none => "Execution error: " ++ e.message
  | stopped => "Execution stopped before the program halted"

/-! ### Plans -/

/-- What is left to do once the source has been read. -/
inductive Plan where
  /-- Print a text. -/
  | print (text : String)
  /-- Execute a program within the limits. -/
  | execute (program : Program) (limits : Limits)

/-- The policy that the options ask for. -/
def Options.policy (o : Options) : LabelPolicy := if o.strictLabels then .unique else .lastWins

/-- Decides what to do with a source. The numbers are looked at first; the listing needs no
assembling and goes before the dump. -/
def plan (o : Options) (source : String) : Except Failure Plan := do
  let limits ← o.limits.mapError .argument
  if o.pretty then
    let listing ← (Listing.parse source).mapError .assembly
    return .print listing.format
  let program ← (Program.assemble source o.policy).mapError .assembly
  if o.dump then return .print program.dump
  return .execute program limits

/-- What the assembler reports while the plan is made: nothing, if the source is not assembled. -/
def planLog (o : Options) (source : String) : List AssemblyRemark :=
  match o.limits with
  | .error _ => []
  | .ok _ => if o.pretty then [] else (Program.assembling source o.policy).log

/-! ### Execution -/

section Execution

variable {σ : Type}

/-- A fresh machine with the program in its memory and the pointer at its first word. -/
def start (input : σ) (program : Program) (address : Nat) : Except Failure (Machine σ) :=
  match ({ source := input } : Machine σ).loadProgram program address with
  | (.error e, _) => .error (.execution e none)
  | (.ok (), machine) =>
    .ok { machine with state := { machine.state with pointer := address } }

/-- Executes the loaded program until it stops or a limit is reached. A limit on the instructions
goes before one on the time, of which `inTime` says whether it has not yet passed after a number of
instructions. -/
def execute [NumberSource σ] (limits : Limits) (inTime : Nat → Bool) (machine : Machine σ) :
    Option (Except MachineError Bool × Machine σ) :=
  match limits.maxCycles, limits.timeout with
  | some cycles, _ => some (machine.runAtMost cycles)
  | none, some _ => machine.runWhile inTime 0
  | none, none => machine.run.map fun (result, machine) => (result.map fun () => true, machine)

/-- Whether the limits allow one more instruction after that many, given whether there is time
left. -/
def Limits.allow (limits : Limits) (inTime : Bool) (executed : Nat) : Bool :=
  match limits.maxCycles, limits.timeout with
  | some cycles, _ => executed < cycles
  | none, some _ => inTime
  | none, none => true

/-- The limit on the time in nanoseconds. -/
def Limits.budget (limits : Limits) : Nat := limits.timeout.getD 0 * 1000000

/-- A line has to be read before the next step: the step reads a number, and the search for one does
not end in the lines that the machine has. -/
def WantsLine (machine : Machine LineInput) : Prop :=
  machine.state.ReadsNext ∧ ∀ line ∈ machine.source.lines, LineInput.ends line = false

instance (machine : Machine LineInput) : Decidable (WantsLine machine) :=
  inferInstanceAs (Decidable (_ ∧ _))

/-- The machine with more lines to read. -/
def supply (machine : Machine LineInput) (lines : List (Option String)) : Machine LineInput :=
  { machine with source := machine.source.push lines }

/-- The failure that the end of an execution means, if it means one. -/
def failure? (source : String) (program : Program) (address : Nat) :
    Except MachineError Bool → Option Failure
  | .ok true => none
  | .ok false => some .stopped
  | .error e =>
    let lines := (program.sourceIndex.relocate address).toLines? source
    some (.execution e (lines.bind fun map => map.line? e.address))

/-- The line break that ends the output, if there was any. -/
def closing (machine : Machine σ) : String := if machine.state.output.isEmpty then "" else "\n"

end Execution

/-- What a command leaves behind. -/
structure Answer where
  /-- The exit code. -/
  code : Nat := 0
  /-- The standard output. -/
  stdout : String := ""
  /-- The standard error, without log. -/
  stderr : String := ""
  deriving DecidableEq, Repr, Inhabited

/-- The answer of a command that printed `stdout` and may have failed. -/
def answer (source stdout : String) (failure : Option Failure) : Answer where
  stdout
  stderr := (failure.map fun f => f.message source ++ "\n").getD ""

/-- Carries a command out. There is no answer if the program runs for ever. -/
def perform (o : Options) (source : String) (input : LineInput) (inTime : Nat → Bool) :
    Option Answer :=
  match plan o source with
  | .error e => some (answer source "" (some e))
  | .ok (.print text) => some (answer source text none)
  | .ok (.execute program limits) =>
    match start input program limits.address with
    | .error e => some (answer source "" (some e))
    | .ok machine =>
      (execute limits inTime machine).map fun (result, machine) =>
        answer source (String.join machine.pieces ++ closing machine)
          (failure? source program limits.address result)

/-! ### Files -/

/-- Why a source file could not be read. -/
inductive FileError where
  /-- There is no such file. -/
  | missing
  /-- The file is no text in UTF-8. -/
  | notText
  deriving DecidableEq, Repr, Inhabited

/-- What is printed to the standard error about a file that could not be read. -/
def FileError.message : FileError → String
  | missing => "IO error: No such file or directory (os error 2)"
  | notText => "IO error: stream did not contain valid UTF-8"

/-- The text of a file, given its bytes if there is one. -/
def readSource (file : Option ByteArray) : Except FileError String :=
  match file with
  | none => .error .missing
  | some bytes =>
    match String.fromUTF8? bytes with
    | some text => .ok text
    | none => .error .notText

/-- The bytes of each line. A line break ends a line; what follows the last one is a line if there
is anything. -/
def byteLines : List UInt8 → List (List UInt8)
  | [] => []
  | b :: bytes =>
    if b = 10 then [] :: byteLines bytes
    else match byteLines bytes with
      | [] => [[b]]
      | line :: lines => (b :: line) :: lines

/-- The lines of the standard input. -/
def inputLines (bytes : ByteArray) : LineInput :=
  ⟨(byteLines bytes.toList).map fun line => String.fromUTF8? ⟨line.toArray⟩⟩

/-- What is printed when the version is asked for. -/
def versionText : String := "lmcrun 0.1.0"

/-- The answer of the whole command, given the bytes of the file and of the standard input. -/
def respond (o : Options) (file : Option ByteArray) (input : ByteArray) (inTime : Nat → Bool) :
    Option Answer :=
  if o.version then some { stdout := versionText ++ "\n" }
  else match readSource file with
    | .error e => some { code := 2, stderr := e.message ++ "\n" }
    | .ok source => perform o source (inputLines input) inTime

end LittleMan.Command
