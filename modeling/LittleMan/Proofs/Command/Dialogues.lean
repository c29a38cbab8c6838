import LittleMan.Proofs.Command.InputLines
import LittleMan.Proofs.Machine.Runs

/-!
# Executing while the input is typed

The program does not know its input in advance. It reads lines when the machine wants them, makes a
step, and reports at once what the machine has let out (`Dialogue.drive`). This is as good as having
all lines from the beginning (`Dialogue.map_drive`): a step does not look at lines behind those that
the machine wants, and what has been reported does not matter to it (`Dialogue.step_read`). So what
is written in the course of an execution is what the command answers (`perform_eq_drive`).

The limits of an execution are a condition on the next instruction (`execute_eq_runWhile`), and a
limit on the time is a budget of the machine (`runFor_eq_execute`).
-/

namespace LittleMan.Command

/-! ### Limits -/

section Limits

variable {σ : Type} [NumberSource σ]

/-- **Within its limits a machine runs while it is allowed to.** -/
theorem execute_eq_runWhile (limits : Limits) (inTime : Nat → Bool) (m : Machine σ) :
    execute limits inTime m =
      m.runWhile (fun executed => limits.allow (inTime executed) executed) 0 := by
  obtain ⟨address, maxCycles, timeout⟩ := limits
  cases maxCycles with
  | some cycles =>
    refine (Machine.runWhile_eq_runAtMost ⟨fun i hi => ?_, fun _ => ?_⟩).symm
    · exact decide_eq_true (by omega)
    · exact decide_eq_false (by omega)
  | none =>
    cases timeout with
    | some milliseconds => rfl
    | none => exact m.map_run

/-- A limit on the time is a budget, if it is the only limit and there is such a deadline. -/
theorem runFor_eq_execute {limits : Limits} (hcycles : limits.maxCycles = none)
    (htimeout : limits.timeout.isSome) {clock : Clock}
    (h : clock.reading 0 + limits.budget ≤ clock.latest) (m : Machine σ) :
    m.runFor clock limits.budget =
      .ok (execute limits (clock.isBefore (clock.reading 0 + limits.budget)) m) := by
  obtain ⟨milliseconds, hmilliseconds⟩ := Option.isSome_iff_exists.mp htimeout
  refine Machine.runFor_eq_ok_iff.mpr ⟨h, ?_⟩
  rw [execute, hcycles, hmilliseconds]

end Limits

/-! ### Dialogues -/

/-- An execution of which not all input is known. -/
structure Dialogue where
  /-- The machine, with the lines that have been read for it and what has not been reported. -/
  machine : Machine LineInput
  /-- The lines that have not been read. -/
  unread : List (Option String)
  /-- What has been reported. -/
  told : Array Notice := #[]

namespace Dialogue

/-- The machine as it is if all lines are there and nothing has been reported. -/
def whole (d : Dialogue) : Machine LineInput :=
  { supply d.machine d.unread with journal := d.told ++ d.machine.journal }

@[simp] theorem state_whole (d : Dialogue) : d.whole.state = d.machine.state := rfl

/-- What the machine has let out is reported. -/
def report (d : Dialogue) : Dialogue where
  machine := { d.machine with journal := #[] }
  unread := d.unread
  told := d.told ++ d.machine.journal

@[simp] theorem whole_report (d : Dialogue) : d.report.whole = d.whole := by
  simp [whole, report, supply]

/-- Lines are read until the machine wants none, or there are none. -/
def read (d : Dialogue) : Dialogue :=
  readLines d.machine d.told d.unread
where
  /-- The dialogue after lines have been read, of which there are still those. -/
  readLines (machine : Machine LineInput) (told : Array Notice) : List (Option String) → Dialogue
    | [] => ⟨machine, [], told⟩
    | line :: unread =>
      if WantsLine machine then readLines (supply machine [line]) told unread
      else ⟨machine, line :: unread, told⟩

/-- Executes the program step by step, reads lines before a step that wants them, and reports what
the step has let out. There is no answer if the program runs for ever. -/
def drive (allowed : Nat → Bool) (d : Dialogue) (executed : Nat) :
    Option (Except MachineError Bool × Dialogue) :=
  if d.machine.state.halted || !allowed executed then some (.ok d.machine.state.halted, d)
  else match d.read.machine.step with
    | (.error e, stepped) => some (.error e, { d.read with machine := stepped }.report)
    | (.ok (), stepped) =>
      { d.read with machine := stepped }.report |>.drive allowed (executed + 1)
partial_fixpoint

/-! ### Reading -/

theorem whole_readLines (machine : Machine LineInput) (told : Array Notice)
    (unread : List (Option String)) :
    (read.readLines machine told unread).whole = (⟨machine, unread, told⟩ : Dialogue).whole := by
  induction unread generalizing machine with
  | nil => rfl
  | cons line unread ih =>
    rw [read.readLines]
    split
    · rw [ih]
      simp [whole, supply, LineInput.push]
    · rfl

theorem not_wantsLine_readLines (machine : Machine LineInput) (told : Array Notice)
    (unread : List (Option String)) :
    ¬ WantsLine (read.readLines machine told unread).machine ∨
      (read.readLines machine told unread).unread = [] := by
  induction unread generalizing machine with
  | nil => exact .inr rfl
  | cons line unread ih =>
    rw [read.readLines]
    split
    · exact ih _
    · next h => exact .inl h

/-- What has been let out before a step does not matter to it. -/
theorem step_told {σ : Type} [NumberSource σ] (told : Array Notice) (m : Machine σ) :
    ({ m with journal := told ++ m.journal } : Machine σ).step =
      (m.step.1, { m.step.2 with journal := told ++ m.step.2.journal }) := by
  refine Prod.ext ?_ ?_
  · rw [Machine.step_fst, Machine.step_fst]
  · rw [Machine.step_snd, Machine.step_snd]
    simp only [Machine.signal, Machine.mk.injEq, true_and]
    exact Array.toList_inj.mp (by simp)

/-- A step looks at no lines behind those that the machine wants. -/
theorem step_supply {m : Machine LineInput} {unread : List (Option String)}
    (h : ¬ WantsLine m ∨ unread = []) :
    (supply m unread).step = (m.step.1, supply m.step.2 unread) := by
  have hbefore : m.state.ReadsNext →
      SuppliesBefore (LineInput.push · unread) m.state.pending m.source := by
    intro hreads
    rcases h with hwants | rfl
    · refine LineInput.suppliesBefore_push ?_ unread m.state.pending
      by_contra hends
      refine hwants ⟨hreads, fun line hline => ?_⟩
      exact Bool.eq_false_iff.mpr fun hline' => hends ⟨line, hline, hline'⟩
    · have hsame : (LineInput.push · []) = id := by
        funext source
        simp [LineInput.push]
      rw [hsame]
      rfl
  exact Machine.step_change hbefore

/-- **A step after reading is a step with all the input.** -/
theorem step_read (d : Dialogue) :
    d.whole.step =
      (d.read.machine.step.1, { d.read with machine := d.read.machine.step.2 }.report.whole) := by
  have hwhole : d.read.whole = d.whole := whole_readLines d.machine d.told d.unread
  have hsupply : (supply d.read.machine d.read.unread).step = _ :=
    step_supply (not_wantsLine_readLines d.machine d.told d.unread)
  have htold := step_told d.read.told (supply d.read.machine d.read.unread)
  rw [hsupply] at htold
  rw [whole_report, ← hwhole]
  exact htold

/-! ### Driving -/

variable {allowed : Nat → Bool}

theorem runWhile_of_drive {d : Dialogue} {executed : Nat}
    {r : Except MachineError Bool × Dialogue} (h : d.drive allowed executed = some r) :
    d.whole.runWhile allowed executed = some (r.1, r.2.whole) := by
  refine drive.partial_correctness allowed
    (fun d executed r => d.whole.runWhile allowed executed = some (r.1, r.2.whole))
    (fun recurse ih d executed r hr => ?_) d executed r h
  by_cases hover : (d.machine.state.halted || !allowed executed) = true
  · rw [if_pos hover] at hr
    obtain rfl := Option.some.inj hr
    rw [Machine.runWhile, d.state_whole, if_pos hover]
  · rw [if_neg hover] at hr
    rw [Machine.runWhile, d.state_whole, if_neg hover, d.step_read]
    cases hstep : d.read.machine.step with
    | mk answer stepped =>
      rw [hstep] at hr
      cases answer with
      | error e =>
        obtain rfl := Option.some.inj hr
        rfl
      | ok _ => exact ih _ _ _ hr

theorem exists_drive_of_runWhile {d : Dialogue} {executed : Nat}
    {r : Except MachineError Bool × Machine LineInput}
    (h : d.whole.runWhile allowed executed = some r) : ∃ r, d.drive allowed executed = some r := by
  refine Machine.runWhile.partial_correctness allowed
    (fun m executed _ => ∀ d : Dialogue, d.whole = m → ∃ r, d.drive allowed executed = some r)
    (fun recurse ih m executed r hr d hd => ?_) d.whole executed r h d rfl
  subst hd
  by_cases hover : (d.machine.state.halted || !allowed executed) = true
  · exact ⟨_, by rw [drive, if_pos hover]⟩
  · rw [d.state_whole, if_neg hover, d.step_read] at hr
    rw [drive, if_neg hover]
    cases hstep : d.read.machine.step with
    | mk answer stepped =>
      rw [hstep] at hr
      cases answer with
      | error e => exact ⟨_, rfl⟩
      | ok _ => exact ih _ _ _ hr _ rfl

/-- **A dialogue does what a run with all the input does**, and ends if the run does. -/
theorem map_drive (d : Dialogue) (executed : Nat) :
    (d.drive allowed executed).map (fun (answer, d') => (answer, d'.whole)) =
      d.whole.runWhile allowed executed := by
  cases hdrive : d.drive allowed executed with
  | some r => exact (runWhile_of_drive hdrive).symm
  | none =>
    refine (Option.eq_none_iff_forall_ne_some.mpr fun r hr => ?_).symm
    obtain ⟨r', hsome⟩ := exists_drive_of_runWhile hr
    rw [hdrive] at hsome
    cases hsome

/-- All has been reported when a dialogue has come to its end, if it has when it begins. -/
theorem journal_of_drive {d : Dialogue} (hd : d.machine.journal = #[]) {executed : Nat}
    {r : Except MachineError Bool × Dialogue} (h : d.drive allowed executed = some r) :
    r.2.machine.journal = #[] := by
  refine drive.partial_correctness allowed
    (fun d _ r => d.machine.journal = #[] → r.2.machine.journal = #[])
    (fun recurse ih d executed r hr hd => ?_) d executed r h hd
  split at hr
  · obtain rfl := Option.some.inj hr
    exact hd
  · split at hr
    · obtain rfl := Option.some.inj hr
      rfl
    · exact ih _ _ _ hr rfl

/-- The texts that have been written. -/
def written (d : Dialogue) : List String := d.told.toList.filterMap Notice.piece?

theorem pieces_whole {d : Dialogue} (h : d.machine.journal = #[]) : d.whole.pieces = d.written := by
  rw [Machine.pieces, whole, h, Array.append_empty, written]

end Dialogue

/-! ### The command -/

theorem loadWords_supply (machine : Machine LineInput) (lines : List (Option String))
    (words : Array Word) (address : Nat) : (supply machine lines).loadWords words address =
      ((machine.loadWords words address).1, supply (machine.loadWords words address).2 lines) := by
  unfold Machine.loadWords
  split <;> rfl

theorem loadProgram_supply (machine : Machine LineInput) (lines : List (Option String))
    (program : Program) (address : Nat) : (supply machine lines).loadProgram program address =
      ((machine.loadProgram program address).1,
        supply (machine.loadProgram program address).2 lines) := by
  unfold Machine.loadProgram
  split <;> exact loadWords_supply ..

theorem start_supply (lines : List (Option String)) (program : Program) (address : Nat) :
    start (⟨lines⟩ : LineInput) program address =
      (start (⟨[]⟩ : LineInput) program address).map (supply · lines) := by
  have hload := loadProgram_supply { source := ⟨[]⟩ } lines program address
  have hlines : supply { source := ⟨[]⟩ } lines = { source := ⟨lines⟩ } := rfl
  rw [hlines] at hload
  rw [start, start, hload]
  cases ({ source := ⟨[]⟩ } : Machine LineInput).loadProgram program address with
  | mk answer machine => cases answer <;> rfl

/-- **What is written in the course of an execution is what the command answers.** The program is
loaded while no line has been read, what the machine has let out is reported, and the dialogue is
driven within the limits. -/
theorem perform_eq_drive {o : Options} {source : String} {program : Program} {limits : Limits}
    (hplan : plan o source = .ok (.execute program limits)) {machine : Machine LineInput}
    (hstart : start ⟨[]⟩ program limits.address = .ok machine) (lines : List (Option String))
    (inTime : Nat → Bool) :
    perform o source ⟨lines⟩ inTime =
      (Dialogue.drive (fun executed => limits.allow (inTime executed) executed)
        (Dialogue.report { machine, unread := lines }) 0).map fun (result, d) =>
          answer source (String.join d.written ++ closing d.machine)
            (failure? source program limits.address result) := by
  have hwhole : (Dialogue.report { machine, unread := lines }).whole = supply machine lines := by
    rw [Dialogue.whole_report, Dialogue.whole]
    exact congrArg (fun journal => { supply machine lines with journal }) (Array.empty_append ..)
  rw [perform, hplan]
  dsimp only
  rw [start_supply, hstart]
  dsimp only [Except.map]
  rw [execute_eq_runWhile, ← hwhole, ← Dialogue.map_drive, Option.map_map]
  refine Option.map_congr fun r hr => ?_
  have hjournal : r.2.machine.journal = #[] := Dialogue.journal_of_drive rfl hr
  exact congrArg (answer source · _)
    (congrArg (String.join · ++ closing r.2.machine) (Dialogue.pieces_whole hjournal))

end LittleMan.Command
