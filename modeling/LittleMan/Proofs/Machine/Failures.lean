import LittleMan.Proofs.Machine.Hosts

/-!
# Failures

A running machine fails for one of two reasons (`State.Fails`): the instruction at the pointer
cannot be read, or it is to print the accumulator as a character and the accumulator is none. The
operand of an instruction is never the reason, since a decoded word names a mailbox that exists.

A step that fails has done no part of its instruction (`Machine.StoppedBy`): memory, accumulator,
pending number and output are as before, the source and the sink have not been called, and all that
the listeners are told is that the machine has stopped. A machine that has stopped answers every
call with success and stays as it is, with one exception: a run for a time calculates its deadline
first, and is broken off if there is no such time (`Machine.callAll_eq_ok_iff`).
`Machine.failures_stop` puts this together.

Only one deed fails (`Deed.failure_eq_some_iff`), so that a failing step is known as a whole: it is
that deed, done where the pointer has moved on to (`State.step_of_failure`).
-/

namespace LittleMan

/-! ### Why steps fail -/

namespace State

variable {s : State} {cause : MachineError.Cause}

/-- A running machine fails for that reason. -/
inductive Fails (s : State) : MachineError.Cause → Prop where
  /-- The instruction at the pointer cannot be read. -/
  | reading {cause : MachineError.Cause} (h : s.current = .error ⟨s.pointer, cause⟩) : s.Fails cause
  /-- The accumulator is to be printed as a character and is none. -/
  | printing (hins : s.current = .ok .otc) (hchar : charOf? s.accumulator = none) :
    s.Fails (.notACharacter s.accumulator)

theorem fails_badInstruction_iff {word : Word} {reason : DecodeError} :
    s.Fails (.badInstruction word reason) ↔
      s.current = .error ⟨s.pointer, .badInstruction word reason⟩ := by
  constructor
  · intro h
    cases h with
    | reading h => exact h
  · exact .reading

theorem pointer_lt_of_current {ins : Instruction} (h : s.current = .ok ins) :
    s.pointer < mailboxCount := by
  obtain ⟨word, hword, -⟩ := exists_word_of_current h
  exact (Vector.getElem?_eq_some_iff.mp hword).choose

/-- An instruction with a mailbox that exists fails only if there is no character to print. -/
theorem deed_eq_fail_iff {ins : Instruction} (h : ∀ a ∈ ins.address?, a < mailboxCount) :
    s.deed ins = .fail cause ↔
      ins = .otc ∧ charOf? s.accumulator = none ∧ cause = .notACharacter s.accumulator := by
  cases ins with
  | add a | sub a | lda a =>
    have ha : a < mailboxCount := h a rfl
    simp [deed, Vector.getElem?_eq_getElem ha]
  | sta a =>
    have ha : a < mailboxCount := h a rfl
    simp [deed, ha]
  | brz a | brp a =>
    simp only [deed]
    split <;> simp
  | otc => cases hchar : charOf? s.accumulator <;> simp [deed, hchar, eq_comm]
  | hlt | bra a | inp | out => simp [deed]

/-- Without a mailbox at the pointer there is no instruction there, and this is the only case in
which a mailbox is missing. -/
theorem current_eq_noMailbox_iff :
    s.current = .error ⟨s.pointer, .noMailbox⟩ ↔ mailboxCount ≤ s.pointer := by
  unfold current
  by_cases hpointer : s.pointer < mailboxCount
  · rw [Vector.getElem?_eq_getElem hpointer]
    refine iff_of_false (fun h => ?_) (Nat.not_le.mpr hpointer)
    dsimp only at h
    split at h <;> cases h
  · have hle := Nat.le_of_not_lt hpointer
    rw [Vector.getElem?_eq_none hle]
    exact iff_of_true rfl hle

/-- What cannot be read in a mailbox is a word that is no instruction. -/
theorem exists_badInstruction_of_current (hpointer : s.pointer < mailboxCount) {e : MachineError}
    (h : s.current = .error e) : ∃ word reason, e.cause = .badInstruction word reason := by
  unfold current at h
  rw [Vector.getElem?_eq_getElem hpointer] at h
  dsimp only at h
  split at h
  · cases h
  · next reason _ =>
    cases h
    exact ⟨_, reason, rfl⟩

/-- **A step does the failure if the machine is running and fails.** -/
theorem stepDeed_eq_fail_iff : s.stepDeed.2 = .fail cause ↔ s.halted = false ∧ s.Fails cause := by
  cases s.turn with
  | stopped hhalted hdeed =>
    rw [hdeed, hhalted]
    exact iff_of_false (fun h => by cases h) (fun h => by cases h.1)
  | @unread cause' hrunning hcurrent hdeed =>
    rw [hdeed, and_iff_right hrunning]
    constructor
    · intro h
      obtain rfl : cause' = cause := by injection h
      exact .reading hcurrent
    · intro h
      cases h with
      | reading h =>
        rw [hcurrent] at h
        cases h
        rfl
      | printing hins hchar =>
        rw [hcurrent] at hins
        cases hins
  | @executes ins hrunning hcurrent hdeed =>
    rw [hdeed, deed_eq_fail_iff (address_lt_of_current hcurrent), accumulator_ahead,
      and_iff_right hrunning]
    constructor
    · rintro ⟨rfl, hchar, rfl⟩
      exact .printing hcurrent hchar
    · intro h
      cases h with
      | reading h =>
        rw [hcurrent] at h
        cases h
      | printing hins hchar =>
        rw [hcurrent] at hins
        exact ⟨Except.ok.inj hins, hchar, rfl⟩

variable {σ : Type} [NumberSource σ] {source : σ} {e : MachineError}

/-- **A step fails where the pointer is**, if the machine is running and fails. -/
theorem failure_step_iff : (s.step source).failure = some e ↔
    s.halted = false ∧ s.Fails e.cause ∧ e.address = s.pointer := by
  rw [step_eq]
  exact Deed.failure_eq_some_iff.trans
    ((and_congr_left' stepDeed_eq_fail_iff).trans and_assoc)

/-! ### What failing steps do -/

/-- A mailbox is missing only for the instruction itself. -/
theorem Fails.eq_noMailbox_iff (h : s.Fails cause) :
    cause = .noMailbox ↔ mailboxCount ≤ s.pointer := by
  cases h with
  | reading h =>
    rw [← current_eq_noMailbox_iff, h]
    simp
  | printing hins hchar =>
    refine iff_of_false (fun h => by cases h) ?_
    exact Nat.not_le.mpr (pointer_lt_of_current hins)

/-- The state after a failure: the machine has stopped, with the pointer behind the word that
failed. If there is no such word, the pointer has not moved. -/
def broken (s : State) (cause : MachineError.Cause) : State :=
  { s with
    halted := true
    pointer := if cause = .noMailbox then s.pointer else s.pointer + 1 }

/-- **A step that fails only stops the machine.** -/
theorem step_of_failure (h : (s.step source).failure = some e) :
    (s.step source).state = s.broken e.cause ∧ (s.step source).source = source ∧
      (s.step source).signals =
        (s.stepDeed.1.map Signal.remark ++ [.remark (.failed e)]) ++ [.event .halt] := by
  obtain ⟨hrunning, hfails, haddress⟩ := failure_step_iff.mp h
  have hdeed := stepDeed_eq_fail_iff.mpr ⟨hrunning, hfails⟩
  have hahead : { s.ahead with halted := true } = s.broken e.cause := by
    unfold ahead broken
    by_cases hcause : e.cause = .noMailbox
    · have hpointer := hfails.eq_noMailbox_iff.mp hcause
      rw [if_pos hcause, if_neg fun h => Nat.not_le.mpr h.2 hpointer]
    · have hpointer := Nat.lt_of_not_le (mt hfails.eq_noMailbox_iff.mpr hcause)
      rw [if_neg hcause, if_pos ⟨hrunning, hpointer⟩]
  rw [step_eq, hdeed, ← haddress, List.append_assoc]
  exact ⟨hahead, rfl, rfl⟩

end State

/-! ### Failing machines -/

namespace Machine

variable {σ : Type}

/-- The machine `m'` is what the failure `e` makes of the machine `m`, of which nothing else has
changed, and nobody has been told anything else. -/
structure StoppedBy (m : Machine σ) (e : MachineError) (m' : Machine σ) : Prop where
  /-- The failure is reported where the pointer stood. -/
  address : e.address = m.state.pointer
  /-- The state is that of a machine that has stopped, -/
  state : m'.state = m.state.broken e.cause
  /-- the source of numbers is the same, -/
  source : m'.source = m.source
  /-- and there are as many listeners. -/
  listeners : m'.listeners = m.listeners
  /-- There are some reports, the last of which is that of the failure, and each listener has been
  told that the machine has stopped; neither the source nor the sink has been called. -/
  journal : ∃ remarks : List MachineRemark, m'.journal.toList = m.journal.toList ++
    (remarks ++ [MachineRemark.failed e]).map Notice.remark ++
      (List.range m.listeners).map (.heard · .halt)

variable {m m' : Machine σ} {e : MachineError}

/-- All that listeners are told of a failure is that the machine has stopped. -/
theorem StoppedBy.heard (h : m.StoppedBy e m') {listener : Nat}
    (hlistener : listener < m.listeners) :
    m'.heard listener = m.heard listener ++ [.halt] := by
  obtain ⟨remarks, hjournal⟩ := h.journal
  have hremarks : ((remarks ++ [MachineRemark.failed e]).map Notice.remark).filterMap
      (Notice.event? listener) = [] := by
    rw [List.filterMap_map]
    exact List.filterMap_eq_nil_iff.mpr fun _ _ => rfl
  have hhalt : ((List.range m.listeners).map (Notice.heard · .halt)).filterMap
      (Notice.event? listener) = [.halt] := by
    rw [List.filterMap_map]
    exact filterMap_range hlistener .halt
  rw [Machine.heard, hjournal, List.filterMap_append, List.filterMap_append, hremarks, hhalt,
    List.append_nil]
  rfl

theorem flatMap_notices_remark (listeners : Nat) (remarks : List MachineRemark) :
    (remarks.map Signal.remark).flatMap (Signal.notices listeners) =
      remarks.map Notice.remark := by
  rw [List.flatMap_map, List.map_eq_flatMap]
  rfl

variable [NumberSource σ]

/-- **A machine that fails is only stopped.** -/
theorem stoppedBy_of_step (h : m.step = (.error e, m')) : m.StoppedBy e m' := by
  have hfailure : (m.state.step m.source).failure = some e := by
    rw [← step_fst_eq_error_iff, h]
  obtain ⟨hstate, hsource, hsignals⟩ := State.step_of_failure hfailure
  have hm' : m' = { m with state := m.state.broken e.cause }.signal
      ((m.state.stepDeed.1 ++ [MachineRemark.failed e]).map Signal.remark ++
        [Signal.event .halt]) := by
    have hstep := m.step_snd
    rw [h, hstate, hsource, hsignals] at hstep
    rw [List.map_append]
    exact hstep
  subst hm'
  refine ⟨(State.failure_step_iff.mp hfailure).2.2, rfl, rfl, rfl, m.state.stepDeed.1, ?_⟩
  rw [signal, Array.toList_appendList, List.flatMap_append, flatMap_notices_remark,
    List.append_assoc]
  simp [Signal.notices]

/-! ### Machines that have stopped -/

/-- A call that makes a machine execute instructions. -/
inductive Call where
  /-- As many steps as are asked for. -/
  | execute (x : Execution)
  /-- Steps until the machine stops. -/
  | run
  /-- Steps until the machine stops or the budget has passed. -/
  | runFor (clock : Clock) (budget : Nat)

/-- Why a call is not answered. -/
inductive Call.Unanswered where
  /-- It never ends. -/
  | endless
  /-- It is broken off. -/
  | trapped (t : Trap)

namespace Call

/-- The answer that says that all is well and that the machine has stopped. -/
def success : Call → Execution.Answer
  | execute x => x.success
  | run => .done (.ok ())
  | runFor _ _ => .stopped (.ok true)

/-- The deadline of a call is a time that its clock can show, if the call has one. -/
def HasTime : Call → Prop
  | execute _ | run => True
  | runFor clock budget => clock.reading 0 + budget ≤ clock.latest

instance : (c : Call) → Decidable c.HasTime
  | execute _ | run => inferInstanceAs (Decidable True)
  | runFor clock budget => inferInstanceAs (Decidable (clock.reading 0 + budget ≤ clock.latest))

end Call

/-- The answer to a call and the machine after it, if the call is answered. -/
def call (m : Machine σ) : Call → Except Call.Unanswered (Execution.Answer × Machine σ)
  | .execute x => .ok (m.execute x)
  | .run =>
    match m.run with
    | none => .error .endless
    | some (answer, m') => .ok (.done answer, m')
  | .runFor clock budget =>
    match m.runFor clock budget with
    | .error t => .error (.trapped t)
    | .ok none => .error .endless
    | .ok (some (answer, m')) => .ok (.stopped answer, m')

/-- The answers to calls, one after the other, and the machine after them. -/
def callAll (m : Machine σ) (calls : List Call) :
    Except Call.Unanswered (List Execution.Answer × Machine σ) := m.askAll call calls

theorem call_of_overflow {clock : Clock} {budget : Nat}
    (h : clock.latest < clock.reading 0 + budget) (m : Machine σ) :
    m.call (.runFor clock budget) =
      .error (.trapped (.overflow ↑(clock.reading 0 + budget))) := by
  rw [call, runFor_of_overflow h]

/-- Whatever the machine does, only a call that has a deadline where it needs one is answered. -/
theorem hasTime_of_call {m : Machine σ} {c : Call} {answered : Execution.Answer × Machine σ}
    (h : m.call c = .ok answered) : c.HasTime := by
  cases c with
  | execute x | run => trivial
  | runFor clock budget =>
    refine Nat.le_of_not_lt fun hlt => ?_
    rw [call_of_overflow hlt] at h
    cases h

/-- A machine that has stopped answers with success and stays as it is. -/
theorem call_of_halted (h : m.state.halted = true) {c : Call} (htime : c.HasTime) :
    m.call c = .ok (c.success, m) := by
  cases c with
  | execute x => exact congrArg Except.ok (execute_of_halted h x)
  | run =>
    rw [call, run_of_halted h]
    rfl
  | runFor clock budget =>
    rw [call, runFor_eq_ok_iff.mpr ⟨htime, runWhile_of_halted h 0⟩]
    rfl

/-- **A machine that has stopped answers calls with success** and stays as it is, exactly if there
is a deadline wherever one is needed. -/
theorem callAll_eq_ok_iff (h : m.state.halted = true) {calls : List Call} :
    m.callAll calls = .ok (calls.map Call.success, m) ↔ ∀ c ∈ calls, c.HasTime := by
  constructor
  · intro hcalls c hc
    obtain ⟨m', answered, hanswered⟩ := exists_of_askAll hcalls c hc
    exact hasTime_of_call hanswered
  · exact fun htime => askAll_of_same fun c hc => call_of_halted h (htime c hc)

end Machine

end LittleMan
