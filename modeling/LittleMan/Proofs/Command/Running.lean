import LittleMan.Proofs.Assembly.StatementLines
import LittleMan.Proofs.Command.InputLines
import LittleMan.Proofs.Machine.Relocation

/-!
# What a run of a file prints

Carrying out a file at an address and with a limit on the instructions is the same as loading its
program into a machine of one's own and executing that many instructions, with the numbers on the
lines of the input in a queue (`respond_run`): the standard output is what the machine has printed,
with a line break behind it if there is anything, and the standard error tells how the run has ended.

The input comes in lines, of which the machine reads as many as it takes to find a number
(`LineInput.supplySame`), and the output goes out in pieces (`Machine.output_runAtMost`). What is
told of a failure is its line, which every mailbox of the program has
(`Program.isSome_lineAt?_iff`).
-/

namespace LittleMan.Command

/-- The options of a run that starts at an address and ends after a number of instructions at
most. -/
def runOptions (path : String) (policy : LabelPolicy) (address cycles : Nat) : Options where
  file := some path
  strictLabels := policy = .unique
  address := some address.repr
  maxCycles := some cycles.repr

/-- How a run of a program that has been loaded at an address has ended: nothing is said of a machine
that has stopped as it should. -/
def ending (p : Program) (source : String) (address : Nat) : Except MachineError Bool → String
  | .ok true => ""
  | .ok false => "Execution stopped before the program halted" ++ "\n"
  | .error e =>
    "Execution error: " ++ e.message ++
      ((p.lineAt? source address e.address).elim "" fun line => " (line " ++ line.repr ++ ")") ++ "\n"

/-! ### The parts of a run -/

theorem policy_runOptions (path : String) (policy : LabelPolicy) (address cycles : Nat) :
    (runOptions path policy address cycles).policy = policy := by
  cases policy <;> rfl

theorem limits_runOptions (path : String) (policy : LabelPolicy) {address cycles : Nat}
    (haddress : address < UInt64.size) (hcycles : cycles < UInt64.size) :
    (runOptions path policy address cycles).limits = .ok ⟨address, some cycles, none⟩ := by
  simp only [Options.limits, runOptions, number?, Decimal.toNatBelow?_repr haddress,
    Decimal.toNatBelow?_repr hcycles]
  rfl

variable {source : String} {policy : LabelPolicy} {p : Program}

theorem plan_runOptions (hp : Program.assemble source policy = .ok p) (path : String)
    {address cycles : Nat} (haddress : address < UInt64.size) (hcycles : cycles < UInt64.size) :
    plan (runOptions path policy address cycles) source =
      .ok (.execute p ⟨address, some cycles, none⟩) := by
  rw [plan, limits_runOptions path policy haddress hcycles, policy_runOptions, hp]
  rfl

theorem start_eq {address : Nat} (hfit : address + p.size ≤ mailboxCount) (input : LineInput) :
    start input p address = .ok (p.loadedAt address input 0) := by
  rw [start, Program.loadProgram_of_fits _ hfit, Program.loadedAt, Program.loadProgram_of_fits _ hfit]

theorem message_execution (e : MachineError) (line : Option Nat) :
    (Failure.execution e line).message source = "Execution error: " ++ e.message ++
      line.elim "" fun line => " (line " ++ line.repr ++ ")" := by
  cases line with
  | none =>
    change "Execution error: " ++ e.message = "Execution error: " ++ e.message ++ ""
    rw [String.append_empty]
  | some line =>
    change "Execution error: " ++ e.message ++ " (line " ++ line.repr ++ ")" =
      "Execution error: " ++ e.message ++ (" (line " ++ line.repr ++ ")")
    simp only [String.append_assoc]

theorem message_failure? (hp : Program.assemble source policy = .ok p) (address : Nat)
    (result : Except MachineError Bool) :
    ((failure? source p address result).map fun f => f.message source ++ "\n").getD "" =
      ending p source address result := by
  rcases result with e | _ | _
  · obtain ⟨lines, hlines, hline⟩ := Program.exists_toLines? hp address
    have hfailure : failure? source p address (.error e) =
        some (.execution e (p.lineAt? source address e.address)) := by
      simp only [failure?, hlines, Option.bind_some, hline]
    rw [hfailure, Option.map_some, Option.getD_some, message_execution]
    rfl
  · have hfailure : failure? source p address (.ok false) = some .stopped := rfl
    rw [hfailure]
    rfl
  · have hfailure : failure? source p address (.ok true) = none := rfl
    rw [hfailure]
    rfl

/-! ### The run -/

theorem respond_runOptions (hp : Program.assemble source policy = .ok p) {address : Nat}
    (hfit : address + p.size ≤ mailboxCount) {cycles : Nat} (hcycles : cycles < UInt64.size)
    (path input : String) (inTime : Nat → Bool) :
    let run := (p.loadedAt address (inputLines input.toUTF8) 0).runAtMost cycles
    respond (runOptions path policy address cycles) (some source.toUTF8) input.toUTF8 inTime =
      some (answer source (String.join run.2.pieces ++ closing run.2)
        (failure? source p address run.1)) := by
  have haddress : address < UInt64.size := by
    have hsize : mailboxCount < UInt64.size := by decide
    omega
  have hversion : (runOptions path policy address cycles).version = false := rfl
  rw [respond, hversion, if_neg Bool.false_ne_true, readSource, fromUTF8?_toUTF8]
  simp only [perform, plan_runOptions hp path haddress hcycles, start_eq hfit]
  rfl

/-- Before it executes anything a loaded machine has not printed anything. -/
theorem output_loadedAt {address : Nat} (hfit : address + p.size ≤ mailboxCount)
    (input : LineInput) : (p.loadedAt address input 0).state.output =
      String.join (p.loadedAt address input 0).pieces := by
  rw [Program.loadedAt_of_fits hfit]
  rfl

/-- **A run prints what the machine prints.** Let a source be assembled to a program that fits at an
address. A fresh machine with the program there, the pointer at it and the numbers on the lines of
the input in a queue executes some instructions at most. Then the command, with the same address,
the same limit and the input itself, prints all that the machine has printed, and a line break if
that is anything; and it tells how the execution has ended, of a failure also the line if it
happened at a mailbox of the program. -/
theorem respond_run (hp : Program.assemble source policy = .ok p) {address : Nat}
    (hfit : address + p.size ≤ mailboxCount) {cycles : Nat} (hcycles : cycles < UInt64.size)
    (path input : String) (inTime : Nat → Bool) :
    let numbers := (input.toList.splitOn '\n').filterMap fun line =>
      Word.ofText? (String.ofList line)
    let loading := ({ source := { queue := numbers } } : Machine QueuedInput).loadProgram p address
    let machine := { loading.2 with state := { loading.2.state with pointer := address } }
    let run := machine.runAtMost cycles
    loading.1 = .ok () ∧
    respond (runOptions path policy address cycles) (some source.toUTF8) input.toUTF8 inTime =
      some {
        code := 0
        stdout := run.2.state.output ++ (if run.2.state.output = "" then "" else "\n")
        stderr := ending p source address run.1 } ∧
    ∀ mailbox, (p.lineAt? source address mailbox).isSome ↔
      address ≤ mailbox ∧ mailbox < address + p.size := by
  intro numbers loading machine run
  have hloaded : loading.1 = .ok () := congrArg Prod.fst (Program.loadProgram_of_fits _ hfit)
  -- the machine of the command and this one start alike, but for the source
  have hlines : ∀ line ∈ (inputLines input.toUTF8).lines, line.isSome := by
    rw [inputLines_toUTF8]
    simp
  have hmachine : machine = p.loadedAt address { queue := numbers } 0 := rfl
  have hstart : (p.loadedAt address (inputLines input.toUTF8) 0).SameBut LineInput.Queued
      machine := by
    rw [hmachine, Program.loadedAt_of_fits hfit, Program.loadedAt_of_fits hfit]
    exact ⟨rfl, ⟨hlines, (numbers_inputLines input).symm⟩, rfl, rfl⟩
  obtain ⟨hresult, hsame⟩ := hstart.runAtMost LineInput.supplySame cycles
  have houtput := Machine.output_runAtMost (output_loadedAt hfit (inputLines input.toUTF8)) cycles
  refine ⟨hloaded, ?_, Program.isSome_lineAt?_iff hp address⟩
  rw [respond_runOptions hp hfit hcycles, answer, message_failure? hp, closing, ← houtput,
    ← hsame.state, ← hresult]
  simp only [String.isEmpty_iff]
  rfl

/-- A program adds up the numbers on two lines, between which is one that says no number, and then
fails at its last word, which has been changed. -/
theorem respond_run_of_sum : ∃ p,
    Program.assemble "INP\nSTA n\nINP\nADD n\nOUT\nn DAT" .unique = .ok p ∧
    50 + p.size ≤ mailboxCount ∧ 9 < UInt64.size ∧
    respond (runOptions "sum.lmc" .unique 50 9)
        (some "INP\nSTA n\nINP\nADD n\nOUT\nn DAT".toUTF8) "4\nfour\n 5 \r\n6".toUTF8
        (fun _ => true) = some {
      code := 0
      stdout := "9\n"
      stderr := "Execution error: runtime error at 55: bad instruction 4: " ++
        "HLT takes no operand but found 4 (line 6)\n" } := by
  have hok {x : Except AssemblyError Program} (h : x.toOption.isSome) :
      x = .ok (x.toOption.getD {}) := by
    cases x with
    | ok p => rfl
    | error e => cases h
  let source := "INP\nSTA n\nINP\nADD n\nOUT\nn DAT"
  have hp : Program.assemble source .unique = _ := hok (by decide +kernel)
  have hfit : 50 + ((Program.assemble source .unique).toOption.getD {}).size ≤ mailboxCount := by
    decide +kernel
  have hcycles : 9 < UInt64.size := by decide
  obtain ⟨-, hrun, -⟩ := respond_run hp hfit hcycles "sum.lmc" "4\nfour\n 5 \r\n6" fun _ => true
  refine ⟨_, hp, hfit, hcycles, hrun.trans ?_⟩
  decide +kernel

end LittleMan.Command
