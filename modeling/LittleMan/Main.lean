import LittleMan.Command.Session

/-!
# The program `lmcrun`

Assembles and executes a source file. Lines are read from the standard input only when the program
wants them, and what it prints is written at once, so that a person can talk to it. This module
reads, writes and looks at the clock; everything else is decided by `LittleMan.Command`.
-/

namespace LittleMan.Command

/-- How the program is called. -/
def usage : String :=
  "usage: lmcrun [-v|--verbose] [--pretty] [--dump] [--strict-labels] [--address ADDRESS] " ++
    "[--max-cycles CYCLES] [--timeout MILLISECONDS] SOURCE"

/-- The bytes of the next line and its line break; there are none at the end of the input. -/
partial def readLineBytes (input : IO.FS.Stream) (line : ByteArray) : IO ByteArray := do
  let byte ← input.read 1
  if byte.isEmpty then return line
  else if byte.get! 0 == 10 then return line ++ byte
  else readLineBytes input (line ++ byte)

/-- Reads lines until the machine wants none, or there are none. -/
partial def readLines (input : IO.FS.Stream) (machine : Machine LineInput) :
    IO (Machine LineInput) := do
  if WantsLine machine then
    let bytes ← readLineBytes input ByteArray.empty
    if bytes.isEmpty then return machine
    else readLines input (supply machine (inputLines bytes).lines)
  else return machine

/-- Writes what the machine let out since the journal was last cleared, and clears it. -/
def report (verbose : Bool) (output : IO.FS.Stream) (machine : Machine LineInput) :
    IO (Machine LineInput) := do
  if verbose then
    for remark in machine.remarks do IO.eprintln remark.record.text
  for piece in machine.pieces do
    output.putStr piece
    output.flush
  return { machine with journal := #[] }

/-- Executes the loaded program step by step, and reads lines before a step that wants them. -/
partial def drive (o : Options) (limits : Limits) (deadline executed : Nat)
    (input output : IO.FS.Stream) (machine : Machine LineInput) :
    IO (Except MachineError Bool × Machine LineInput) := do
  let inTime := (← IO.monoNanosNow) < deadline
  if machine.state.halted || !limits.allow inTime executed then
    return (.ok machine.state.halted, machine)
  let (result, machine) := (← readLines input machine).step
  let machine ← report o.verbose output machine
  match result with
  | .error e => return (.error e, machine)
  | .ok () => drive o limits deadline (executed + 1) input output machine

/-- Executes a program to its end and says how it failed, if it did. -/
def executeProgram (o : Options) (source : String) (program : Program) (limits : Limits) :
    IO (Option Failure) := do
  match start (⟨[]⟩ : LineInput) program limits.address with
  | .error e => return some e
  | .ok machine =>
    let output ← IO.getStdout
    let machine ← report o.verbose output machine
    let deadline := (← IO.monoNanosNow) + limits.budget
    let (result, machine) ← drive o limits deadline 0 (← IO.getStdin) output machine
    output.putStr (closing machine)
    return failure? source program limits.address result

/-- Carries a command out on a source. -/
def runSource (o : Options) (source : String) : IO Unit := do
  if o.verbose then
    for remark in planLog o source do IO.eprintln remark.record.text
  let failure ← match plan o source with
    | .error e => pure (some e)
    | .ok (.print text) => do IO.print text; pure none
    | .ok (.execute program limits) => executeProgram o source program limits
  match failure with
  | some e => IO.eprintln (e.message source)
  | none => pure ()

/-- The bytes of a file, if there is such a file. -/
def readFile? (path : String) : IO (Option ByteArray) := do
  try return some (← IO.FS.readBinFile path)
  catch
    | .noFileOrDirectory .. => return none
    | e => throw e

/-- The command on a file; answers the exit code. -/
def runFile (o : Options) (path : String) : IO UInt32 := do
  match readSource (← readFile? path) with
  | .error e => IO.eprintln e.message; return 2
  | .ok source => runSource o source; return 0

end LittleMan.Command

open LittleMan.Command in
/-- Reads the arguments and carries the command out. -/
def main (arguments : List String) : IO UInt32 := do
  match Options.parse arguments with
  | .error argument => IO.eprintln ("unexpected argument " ++ argument ++ "\n" ++ usage); return 1
  | .ok o =>
    if o.version then IO.println versionText; return 0
    match o.file with
    | none => IO.eprintln usage; return 1
    | some path =>
      try runFile o path
      catch e => IO.eprintln ("IO error: " ++ e.toString); return 2
