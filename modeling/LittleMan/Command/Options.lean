import LittleMan.Text.Decimal

/-!
# Command-line options

The arguments of `lmcrun`: a source file, flags, and options that take a value, written
`--name VALUE` or `--name=VALUE`. Values are kept as text; whether they are numbers is looked at when
the command is carried out, so that a missing file is reported first.
-/

namespace LittleMan.Command

/-- What the user has asked for. -/
structure Options where
  /-- The file that holds the source. -/
  file : Option String := none
  /-- Print the version and do nothing else. -/
  version : Bool := false
  /-- Print the log to the standard error. -/
  verbose : Bool := false
  /-- Print the listing instead of executing the program. -/
  pretty : Bool := false
  /-- Print the words of the program instead of executing it. -/
  dump : Bool := false
  /-- Refuse labels that are defined more than once. -/
  strictLabels : Bool := false
  /-- The mailbox the program is loaded at. -/
  address : Option String := none
  /-- After how many instructions to stop. -/
  maxCycles : Option String := none
  /-- After how many milliseconds to stop. -/
  timeout : Option String := none
  deriving DecidableEq, Repr, Inhabited

namespace Options

/-- The options with a flag set, if there is a flag of that name. -/
def setFlag? (o : Options) : String → Option Options
  | "-v" | "--verbose" => some { o with verbose := true }
  | "--pretty" => some { o with pretty := true }
  | "--dump" => some { o with dump := true }
  | "--strict-labels" => some { o with strictLabels := true }
  | "-V" | "--version" => some { o with version := true }
  | _ => none

/-- The options with a value set, if there is an option of that name. -/
def setValue? (o : Options) (name value : String) : Option Options :=
  match name with
  | "--address" => some { o with address := some value }
  | "--max-cycles" => some { o with maxCycles := some value }
  | "--timeout" => some { o with timeout := some value }
  | _ => none

/-- An argument cut at its first equals sign: the name before it and the value behind it. -/
def splitAssignment? (argument : String) : Option (String × String) :=
  match argument.toList.span (· != '=') with
  | (name, '=' :: value) => some (String.ofList name, String.ofList value)
  | _ => none

/-- Takes the arguments one after the other; an argument that is no option names the file. The
error is the argument that makes no sense. -/
def parseFrom (o : Options) : List String → Except String Options
  | [] => .ok o
  | [argument] => parseOne o argument
  | argument :: value :: rest =>
    match o.setValue? argument value with
    | some o => parseFrom o rest
    | none =>
      match parseOne o argument with
      | .ok o => parseFrom o (value :: rest)
      | .error e => .error e
where
  /-- Takes an argument that stands for itself. -/
  parseOne (o : Options) (argument : String) : Except String Options :=
    match o.setFlag? argument with
    | some o => .ok o
    | none =>
      match (splitAssignment? argument).bind fun (name, value) => o.setValue? name value with
      | some o => .ok o
      | none =>
        if argument.startsWith "-" || o.file.isSome then .error argument
        else .ok { o with file := some argument }

/-- Reads the arguments. -/
def parse (arguments : List String) : Except String Options := parseFrom {} arguments

end Options

/-- The numbers that options give. -/
structure Limits where
  /-- The mailbox the program is loaded at. -/
  address : Nat := 0
  /-- After how many instructions to stop. -/
  maxCycles : Option Nat := none
  /-- After how many milliseconds to stop. -/
  timeout : Option Nat := none
  deriving DecidableEq, Repr, Inhabited

/-- An option whose value is not a number of 64 bits. -/
structure BadNumber where
  /-- The name of the option. -/
  name : String
  /-- Its value. -/
  value : String
  deriving DecidableEq, Repr, Inhabited

/-- What is wrong, in words. -/
def BadNumber.message (e : BadNumber) : String :=
  e.value ++ " is not a valid value for --" ++ e.name

/-- The number an option gives, if it is used. -/
def number? (name : String) : Option String → Except BadNumber (Option Nat)
  | none => .ok none
  | some value =>
    match Decimal.toNatBelow? UInt64.size value.toList with
    | some n => .ok (some n)
    | none => .error ⟨name, value⟩

/-- The numbers of all options; the first that is wrong is reported. -/
def Options.limits (o : Options) : Except BadNumber Limits := do
  let address ← number? "address" o.address
  let maxCycles ← number? "max-cycles" o.maxCycles
  let timeout ← number? "timeout" o.timeout
  return { address := address.getD 0, maxCycles, timeout }

end LittleMan.Command
