import LittleMan.Proofs.Machine.Steps
import Mathlib.Data.Nat.Find

/-!
# Ways of running

A machine is run for a number of instructions (`Machine.runAtMost`), for as long as it is allowed to
(`Machine.runWhile`), or until it stops (`Machine.run`). All of these make steps in a row
(`Machine.runAtMost_snd`) and differ in where they end. A bounded run can be interrupted and taken
up again; a run without a bound, and one with any other condition, is a bounded run with the right
bound (`Machine.run_eq_some_iff`, `Machine.runWhile_eq_some_iff`). `Machine.runs_agree` puts this
together.

A run for a time (`Machine.runFor`) is one with a condition if its deadline is a time that the clock
can show (`Machine.runFor_eq_ok_iff`), and ends if the deadline comes (`Machine.exists_runFor`).

What a machine does next is one of three things (`Machine.next`): it has stopped, it fails, which
stops it, or it goes on. Each way of running has an equation for each of them, and the proofs go by
these cases.
-/

namespace LittleMan

/-! ### What comes next -/

namespace Machine

variable {σ : Type} [NumberSource σ]

/-- A step that fails stops the machine. -/
theorem halted_of_step {m stepped : Machine σ} {e : MachineError}
    (h : m.step = (.error e, stepped)) : stepped.state.halted = true := by
  have hfailure : (m.state.step m.source).failure = some e :=
    step_fst_eq_error_iff.mp (congrArg Prod.fst h)
  have hstate : stepped.state = (m.state.step m.source).state := by rw [← state_step, h]
  rw [State.step_eq] at hfailure
  obtain ⟨hdeed, -⟩ := Deed.failure_eq_some_iff.mp hfailure
  rw [hstate, State.step_eq, hdeed]
  rfl

/-- What a machine does next. -/
inductive Next (m : Machine σ) : Prop where
  /-- It has stopped. -/
  | stopped (h : m.state.halted = true)
  /-- It fails, and has stopped then. -/
  | fails {e : MachineError} {stepped : Machine σ} (h : m.state.halted = false)
    (hstep : m.step = (.error e, stepped)) (hstopped : stepped.state.halted = true)
  /-- It executes an instruction. -/
  | goesOn {stepped : Machine σ} (h : m.state.halted = false) (hstep : m.step = (.ok (), stepped))

theorem next (m : Machine σ) : m.Next := by
  cases h : m.state.halted with
  | true => exact .stopped h
  | false =>
    cases hstep : m.step with
    | mk answer stepped =>
      cases answer with
      | error e => exact .fails h hstep (halted_of_step hstep)
      | ok _ => exact .goesOn h hstep

/-! ### Steps -/

theorem steps_of_halted {m : Machine σ} (h : m.state.halted = true) (n : Nat) :
    (m.steps n).2 = m := by
  induction n with
  | zero => rfl
  | succ n ih => rw [steps, step_stopped h, ih]

theorem steps_add (m : Machine σ) (first second : Nat) :
    (m.steps (first + second)).2 = ((m.steps first).2.steps second).2 := by
  induction first generalizing m with
  | zero => rw [Nat.zero_add]; rfl
  | succ first ih => rw [Nat.succ_add, steps, steps, ih]

theorem steps_succ (m : Machine σ) (n : Nat) : (m.steps (n + 1)).2 = (m.steps n).2.step.2 := by
  rw [steps_add]
  rfl

/-! ### Runs with a bound -/

theorem runAtMost_of_halted {m : Machine σ} (h : m.state.halted = true) (limit : Nat) :
    m.runAtMost limit = (.ok true, m) := by
  cases limit with
  | zero => rw [runAtMost, h]
  | succ limit => rw [runAtMost, if_pos h]

theorem runAtMost_of_error {m stepped : Machine σ} {e : MachineError} (h : m.state.halted = false)
    (hstep : m.step = (.error e, stepped)) (limit : Nat) :
    m.runAtMost (limit + 1) = (.error e, stepped) := by
  rw [runAtMost, if_neg (by simp [h]), hstep]

theorem runAtMost_of_ok {m stepped : Machine σ} (h : m.state.halted = false)
    (hstep : m.step = (.ok (), stepped)) (limit : Nat) :
    m.runAtMost (limit + 1) = stepped.runAtMost limit := by
  rw [runAtMost, if_neg (by simp [h]), hstep]

/-- **A bounded run makes as many steps as it may**: those behind its end change nothing. -/
theorem runAtMost_snd (m : Machine σ) (limit : Nat) :
    (m.runAtMost limit).2 = (m.steps limit).2 := by
  induction limit generalizing m with
  | zero => rfl
  | succ limit ih =>
    cases m.next with
    | stopped h => rw [runAtMost_of_halted h, steps_of_halted h]
    | fails h hstep hstopped =>
      rw [runAtMost_of_error h hstep, steps, hstep, steps_of_halted hstopped]
    | goesOn h hstep => rw [runAtMost_of_ok h hstep, ih, steps, hstep]

/-- The answer is that of the first part if it fails, and else that of the second. -/
theorem runAtMost_add_fst (m : Machine σ) (first second : Nat) :
    (m.runAtMost (first + second)).1 =
      (m.runAtMost first).1.bind fun _ => ((m.runAtMost first).2.runAtMost second).1 := by
  induction first generalizing m with
  | zero => rw [Nat.zero_add]; rfl
  | succ first ih =>
    rw [Nat.succ_add]
    cases m.next with
    | stopped h => simp only [runAtMost_of_halted h, Except.bind]
    | fails h hstep _ => simp only [runAtMost_of_error h hstep, Except.bind]
    | goesOn h hstep => rw [runAtMost_of_ok h hstep, runAtMost_of_ok h hstep, ih]

/-! ### Runs with a condition -/

variable {allowed : Nat → Bool}

theorem runWhile_of_halted {m : Machine σ} (h : m.state.halted = true) (executed : Nat) :
    m.runWhile allowed executed = some (.ok true, m) := by
  rw [runWhile, if_pos (by simp [h]), h]

theorem runWhile_of_not_allowed {m : Machine σ} (h : m.state.halted = false) {executed : Nat}
    (hallowed : allowed executed = false) : m.runWhile allowed executed = some (.ok false, m) := by
  rw [runWhile, if_pos (by simp [hallowed]), h]

theorem runWhile_of_error {m stepped : Machine σ} {e : MachineError} (h : m.state.halted = false)
    (hstep : m.step = (.error e, stepped)) {executed : Nat} (hallowed : allowed executed = true) :
    m.runWhile allowed executed = some (.error e, stepped) := by
  rw [runWhile, if_neg (by simp [h, hallowed]), hstep]

theorem runWhile_of_ok {m stepped : Machine σ} (h : m.state.halted = false)
    (hstep : m.step = (.ok (), stepped)) {executed : Nat} (hallowed : allowed executed = true) :
    m.runWhile allowed executed = stepped.runWhile allowed (executed + 1) := by
  rw [runWhile, if_neg (by simp [h, hallowed]), hstep]

/-- When `executed` instructions have been executed, `limit` more may be, and if the machine has not
stopped then, no more than these. -/
structure EndsAt (allowed : Nat → Bool) (executed limit : Nat) (answer : Except MachineError Bool) :
    Prop where
  /-- The instructions are allowed. -/
  before : ∀ i < limit, allowed (executed + i) = true
  /-- There is a reason to end. -/
  behind : answer = .ok false → allowed (executed + limit) = false

theorem endsAt_zero {executed : Nat} {answer : Except MachineError Bool} :
    EndsAt allowed executed 0 answer ↔ (answer = .ok false → allowed executed = false) :=
  ⟨fun h => h.behind, fun h => ⟨by simp, h⟩⟩

theorem endsAt_succ {executed limit : Nat} {answer : Except MachineError Bool} :
    EndsAt allowed executed (limit + 1) answer ↔
      allowed executed = true ∧ EndsAt allowed (executed + 1) limit answer := by
  have hshift (i : Nat) : executed + 1 + i = executed + (i + 1) := by omega
  constructor
  · rintro ⟨hbefore, hbehind⟩
    refine ⟨hbefore 0 (Nat.succ_pos limit), fun i hi => ?_, fun h => ?_⟩
    · rw [hshift]
      exact hbefore (i + 1) (Nat.succ_lt_succ hi)
    · rw [hshift]
      exact hbehind h
  · rintro ⟨hfirst, hbefore, hbehind⟩
    refine ⟨fun i hi => ?_, fun h => ?_⟩
    · cases i with
      | zero => exact hfirst
      | succ i => exact hshift i ▸ hbefore i (Nat.lt_of_succ_lt_succ hi)
    · exact hshift limit ▸ hbehind h

/-- A run that ends has been a bounded run. -/
theorem exists_runAtMost_of_runWhile {m : Machine σ} {executed : Nat}
    {r : Except MachineError Bool × Machine σ} (h : m.runWhile allowed executed = some r) :
    ∃ limit, m.runAtMost limit = r ∧ EndsAt allowed executed limit r.1 := by
  refine runWhile.partial_correctness allowed
    (fun m executed r => ∃ limit, m.runAtMost limit = r ∧ EndsAt allowed executed limit r.1)
    (fun recurse ih m executed r hr => ?_) m executed r h
  cases hallowed : allowed executed with
  | false =>
    rw [if_pos (by simp [hallowed])] at hr
    obtain rfl := Option.some.inj hr
    exact ⟨0, rfl, endsAt_zero.mpr fun _ => hallowed⟩
  | true =>
    cases m.next with
    | stopped h =>
      rw [if_pos (by simp [h])] at hr
      obtain rfl := Option.some.inj hr
      exact ⟨0, rfl, endsAt_zero.mpr fun hfalse => by simp [h] at hfalse⟩
    | fails h hstep _ =>
      rw [if_neg (by simp [h, hallowed]), hstep] at hr
      obtain rfl := Option.some.inj hr
      exact ⟨1, runAtMost_of_error h hstep 0,
        endsAt_succ.mpr ⟨hallowed, endsAt_zero.mpr fun hfalse => by cases hfalse⟩⟩
    | goesOn h hstep =>
      rw [if_neg (by simp [h, hallowed]), hstep] at hr
      obtain ⟨limit, hlimit, hends⟩ := ih _ _ _ hr
      exact ⟨limit + 1, (runAtMost_of_ok h hstep limit).trans hlimit,
        endsAt_succ.mpr ⟨hallowed, hends⟩⟩

/-- A bounded run that ends with a reason is the run. -/
theorem runWhile_eq_runAtMost {m : Machine σ} {executed limit : Nat}
    (h : EndsAt allowed executed limit (m.runAtMost limit).1) :
    m.runWhile allowed executed = some (m.runAtMost limit) := by
  induction limit generalizing m executed with
  | zero =>
    have hbehind := endsAt_zero.mp h
    rw [runAtMost] at hbehind ⊢
    cases hhalted : m.state.halted with
    | true => exact runWhile_of_halted hhalted executed
    | false => exact runWhile_of_not_allowed hhalted (hbehind (congrArg Except.ok hhalted))
  | succ limit ih =>
    obtain ⟨hallowed, hends⟩ := endsAt_succ.mp h
    cases m.next with
    | stopped hhalted => rw [runWhile_of_halted hhalted, runAtMost_of_halted hhalted]
    | fails hrunning hstep _ =>
      rw [runWhile_of_error hrunning hstep hallowed, runAtMost_of_error hrunning hstep]
    | goesOn hrunning hstep =>
      rw [runAtMost_of_ok hrunning hstep] at hends ⊢
      rw [runWhile_of_ok hrunning hstep hallowed, ih hends]

/-- **A run with a condition is a bounded run** over instructions that are all allowed. If it ends
before the machine has stopped, no more is allowed. -/
theorem runWhile_eq_some_iff {m : Machine σ} {executed : Nat}
    {r : Except MachineError Bool × Machine σ} : m.runWhile allowed executed = some r ↔
      ∃ limit, m.runAtMost limit = r ∧ EndsAt allowed executed limit r.1 := by
  constructor
  · exact exists_runAtMost_of_runWhile
  · rintro ⟨limit, rfl, hends⟩
    exact runWhile_eq_runAtMost hends

/-! ### Runs without a bound -/

theorem run_of_halted {m : Machine σ} (h : m.state.halted = true) : m.run = some (.ok (), m) := by
  rw [run, if_pos h]

theorem run_of_error {m stepped : Machine σ} {e : MachineError} (h : m.state.halted = false)
    (hstep : m.step = (.error e, stepped)) : m.run = some (.error e, stepped) := by
  rw [run, if_neg (by simp [h]), hstep]

theorem run_of_ok {m stepped : Machine σ} (h : m.state.halted = false)
    (hstep : m.step = (.ok (), stepped)) : m.run = stepped.run := by
  rw [run, if_neg (by simp [h]), hstep]

theorem runWhile_of_run {m m' : Machine σ} {answer : Except MachineError Unit}
    (h : m.run = some (answer, m')) (executed : Nat) :
    m.runWhile (fun _ => true) executed = some (answer.map fun _ => true, m') := by
  refine run.partial_correctness
    (fun m r => ∀ executed, m.runWhile (fun _ => true) executed = some (r.1.map fun _ => true, r.2))
    (fun recurse ih m r hr executed => ?_) m (answer, m') h executed
  cases m.next with
  | stopped h =>
    rw [if_pos h] at hr
    obtain rfl := Option.some.inj hr
    exact runWhile_of_halted h executed
  | fails h hstep _ =>
    rw [if_neg (by simp [h]), hstep] at hr
    obtain rfl := Option.some.inj hr
    exact runWhile_of_error h hstep rfl
  | goesOn h hstep =>
    rw [if_neg (by simp [h]), hstep] at hr
    rw [runWhile_of_ok h hstep rfl]
    exact ih _ _ hr (executed + 1)

/-- A bounded run that does not end at its bound is the run without one. -/
theorem run_of_runAtMost {m m' : Machine σ} {answer : Except MachineError Unit} {limit : Nat}
    (h : m.runAtMost limit = (answer.map fun _ => true, m')) : m.run = some (answer, m') := by
  induction limit generalizing m with
  | zero =>
    obtain ⟨hanswer, rfl⟩ := Prod.mk.inj h
    cases answer with
    | error e => cases hanswer
    | ok _ => exact run_of_halted (Except.ok.inj hanswer)
  | succ limit ih =>
    cases m.next with
    | stopped hhalted =>
      rw [runAtMost_of_halted hhalted] at h
      obtain ⟨hanswer, rfl⟩ := Prod.mk.inj h
      cases answer with
      | error e => cases hanswer
      | ok _ => exact run_of_halted hhalted
    | fails hrunning hstep _ =>
      rw [runAtMost_of_error hrunning hstep] at h
      obtain ⟨hanswer, rfl⟩ := Prod.mk.inj h
      cases answer with
      | error e => cases hanswer; exact run_of_error hrunning hstep
      | ok _ => cases hanswer
    | goesOn hrunning hstep =>
      rw [runAtMost_of_ok hrunning hstep] at h
      rw [run_of_ok hrunning hstep, ih h]

/-- **A run without a bound is a bounded run** that does not end at its bound. -/
theorem run_eq_some_iff {m m' : Machine σ} {answer : Except MachineError Unit} :
    m.run = some (answer, m') ↔ ∃ limit, m.runAtMost limit = (answer.map fun _ => true, m') := by
  constructor
  · intro h
    obtain ⟨limit, hlimit, -⟩ := exists_runAtMost_of_runWhile (runWhile_of_run h 0)
    exact ⟨limit, hlimit⟩
  · rintro ⟨limit, h⟩
    exact run_of_runAtMost h

theorem map_run (m : Machine σ) :
    (m.run.map fun (answer, m') => (answer.map fun _ => true, m')) =
      m.runWhile (fun _ => true) 0 := by
  cases hrun : m.run with
  | some r => exact (runWhile_of_run hrun 0).symm
  | none =>
    refine (Option.eq_none_iff_forall_ne_some.mpr fun r hr => ?_).symm
    obtain ⟨limit, hlimit, hends⟩ := exists_runAtMost_of_runWhile hr
    obtain ⟨answer, m'⟩ := r
    have hanswer : ∃ result : Except MachineError Unit, answer = result.map fun _ => true := by
      rcases answer with e | _ | _
      · exact ⟨.error e, rfl⟩
      · cases hends.behind rfl
      · exact ⟨.ok (), rfl⟩
    obtain ⟨result, rfl⟩ := hanswer
    rw [run_of_runAtMost hlimit] at hrun
    cases hrun

/-! ### Runs for a time -/

section Time

variable {m : Machine σ} {clock : Clock} {budget : Nat}

/-- **A run for a time is a run before its deadline**, if there is such a time. -/
theorem runFor_eq_ok_iff {outcome : Option (Except MachineError Bool × Machine σ)} :
    m.runFor clock budget = .ok outcome ↔
      clock.reading 0 + budget ≤ clock.latest ∧
        m.runWhile (clock.isBefore (clock.reading 0 + budget)) 0 = outcome := by
  unfold runFor
  by_cases h : clock.reading 0 + budget ≤ clock.latest
  · rw [Clock.deadline_eq h, Checked.ok_bind, and_iff_right h]
    exact ⟨Except.ok.inj, congrArg Except.ok⟩
  · rw [Clock.deadline_eq_error (Nat.lt_of_not_le h)]
    exact iff_of_false (fun h => by cases h) (fun hboth => h hboth.1)

/-- Without a deadline nothing is executed, whether the machine has stopped or not. -/
theorem runFor_of_overflow (h : clock.latest < clock.reading 0 + budget) (m : Machine σ) :
    m.runFor clock budget = .error (.overflow ↑(clock.reading 0 + budget)) := by
  rw [runFor, Clock.deadline_eq_error h]
  rfl

/-- When there is no time at all, nothing is executed. -/
theorem runFor_zero (m : Machine σ) (clock : Clock) :
    m.runFor clock 0 = .ok (some (.ok m.state.halted, m)) := by
  refine runFor_eq_ok_iff.mpr ⟨clock.reading_le_latest 0, ?_⟩
  rw [runWhile, if_pos (by simp [clock.isBefore_reading_zero])]

/-- **A run for a time ends** if the deadline can be calculated and comes at some time. -/
theorem exists_runFor (h : clock.reading 0 + budget ≤ clock.latest)
    (hcomes : ∃ n, clock.isBefore (clock.reading 0 + budget) n = false) (m : Machine σ) :
    ∃ r, m.runFor clock budget = .ok (some r) := by
  have hends : EndsAt (clock.isBefore (clock.reading 0 + budget)) 0 (Nat.find hcomes)
      (m.runAtMost (Nat.find hcomes)).1 := by
    refine ⟨fun i hi => ?_, fun _ => ?_⟩
    · rw [Nat.zero_add]
      exact eq_true_of_ne_false (Nat.find_min hcomes hi)
    · rw [Nat.zero_add]
      exact Nat.find_spec hcomes
  exact ⟨_, runFor_eq_ok_iff.mpr ⟨h, runWhile_eq_runAtMost hends⟩⟩

end Time

/-! ### All of them -/

/-- **The ways of running agree.** Two bounded runs in a row leave the same machine as one with both
bounds together, which answers what the first answers if that has failed, and else what the second
answers. A run without a bound ends exactly if there is a bound at which the machine has stopped or
failed, with the same machine and the same failure; a run with a condition ends exactly at the bound
that the condition sets. -/
theorem runs_agree (m : Machine σ) :
    (∀ first second : Nat,
      (m.runAtMost (first + second)).2 = ((m.runAtMost first).2.runAtMost second).2 ∧
      (m.runAtMost (first + second)).1 =
        (m.runAtMost first).1.bind fun _ => ((m.runAtMost first).2.runAtMost second).1) ∧
    (∀ (answer : Except MachineError Unit) (m' : Machine σ),
      m.run = some (answer, m') ↔
        ∃ limit, m.runAtMost limit = (answer.map fun _ => true, m')) ∧
    ∀ (allowed : Nat → Bool) (answer : Except MachineError Bool) (m' : Machine σ),
      m.runWhile allowed 0 = some (answer, m') ↔
        ∃ limit, m.runAtMost limit = (answer, m') ∧ EndsAt allowed 0 limit answer := by
  refine ⟨fun first second => ⟨?_, m.runAtMost_add_fst first second⟩,
    fun answer m' => run_eq_some_iff, fun allowed answer m' => runWhile_eq_some_iff⟩
  simp only [runAtMost_snd, steps_add]

end Machine

end LittleMan
