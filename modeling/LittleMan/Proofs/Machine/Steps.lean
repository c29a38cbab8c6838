import LittleMan.Machine.Basic
import LittleMan.Proofs.Machine.Decoding

/-!
# Steps in a row

What an instruction comes to is one of eight deeds, chosen without a look at the source of numbers
(`State.execute_eq`), and so is what a step comes to (`State.step_eq`): what holds of every deed
holds of every step. Which deed that is, is known by what stands at the pointer (`State.turn`).

`Machine.steps` makes a number of steps, also when some of them fail, and collects their answers.
`Machine.heard` is what a listener has been told. A step of a machine is the step of its state, with
the failure as the answer (`Machine.step_fst`) and the signals let out (`Machine.step_snd`), of
which every listener is told the events (`Machine.heard_step`). Whatever else is picked from the
journal comes from the signals in the same way (`Machine.filterMap_signal`).
-/

namespace LittleMan

/-! ### Deeds -/

/-- What executing an instruction comes to. -/
inductive Deed where
  /-- Nothing happens. -/
  | rest
  /-- The machine stops because of a failure. -/
  | fail (cause : MachineError.Cause)
  /-- The machine stops as it is told. -/
  | stop
  /-- A word comes into the accumulator. -/
  | accumulate (data : Word)
  /-- The pointer is set. -/
  | goTo (target : Nat)
  /-- A text is printed. -/
  | print (text : String)
  /-- The accumulator goes into a mailbox. -/
  | store (operand : Nat) (h : operand < mailboxCount)
  /-- The source is asked for a number. -/
  | readNumber

/-- What the deed of an instruction at `address` does. -/
def Deed.effect {σ : Type} [NumberSource σ] (s : State) (source : σ) (address : Nat) :
    Deed → Effect σ
  | rest => s.rest source
  | fail cause => s.fail source address cause
  | stop => s.stop source
  | accumulate data => s.accumulate source data
  | goTo target => s.goTo source address target
  | print text => s.print source text
  | store operand h => s.store source operand h
  | readNumber => s.readNumber source

/-- Only the deed that stands for a failure fails, at the address that it is done for. -/
theorem Deed.failure_eq_some_iff {σ : Type} [NumberSource σ] {s : State} {source : σ}
    {address : Nat} {d : Deed} {e : MachineError} :
    (d.effect s source address).failure = some e ↔ d = .fail e.cause ∧ e.address = address := by
  cases d with
  | fail cause =>
    constructor
    · intro h
      obtain rfl := Option.some.inj h
      exact ⟨rfl, rfl⟩
    · rintro ⟨hcause, rfl⟩
      rw [hcause]
      rfl
  | rest | stop | accumulate data | goTo target | print text | store operand h | readNumber =>
    exact ⟨fun h => (by cases h), fun h => (by cases h.1)⟩

/-- The deed of an instruction. -/
def State.deed (s : State) : Instruction → Deed
  | .hlt => .stop
  | .add operand => (s.memory[operand]?).elim (.fail .noMailbox) fun data =>
    .accumulate (Word.wrap (s.accumulator.toInt + data.toInt))
  | .sub operand => (s.memory[operand]?).elim (.fail .noMailbox) fun data =>
    .accumulate (Word.wrap (s.accumulator.toInt - data.toInt))
  | .sta operand => if h : operand < mailboxCount then .store operand h else .fail .noMailbox
  | .lda operand => (s.memory[operand]?).elim (.fail .noMailbox) .accumulate
  | .bra target => .goTo target
  | .brz target => if s.accumulator = 0 then .goTo target else .rest
  | .brp target => if 0 ≤ s.accumulator then .goTo target else .rest
  | .inp => .readNumber
  | .out => .print s.numberText
  | .otc => (charOf? s.accumulator).elim (.fail (.notACharacter s.accumulator)) fun char =>
    .print char.toString

/-- **An instruction does its deed.** -/
theorem State.execute_eq {σ : Type} [NumberSource σ] (s : State) (source : σ) (address : Nat)
    (ins : Instruction) : s.execute source address ins = (s.deed ins).effect s source address := by
  cases ins with
  | add a | sub a | lda a =>
    simp only [execute, deed]
    cases s.memory[a]? <;> rfl
  | sta a | brz a | brp a =>
    simp only [execute, deed]
    split <;> rfl
  | otc =>
    simp only [execute, deed]
    cases charOf? s.accumulator <;> rfl
  | hlt | bra a | inp | out => rfl

/-! ### The step of a state -/

namespace State

variable {σ : Type} [NumberSource σ]

theorem step_of_halted {s : State} (h : s.halted = true) (source : σ) :
    s.step source = s.rest source := by
  rw [step, if_pos h]

theorem step_of_decode {s : State} (h : s.halted = false) {word : Word}
    (hword : s.memory[s.pointer]? = some word) {ins : Instruction}
    (hins : Instruction.decode word = .ok ins) (source : σ) :
    s.step source =
      let effect := { s with pointer := s.pointer + 1 }.execute source s.pointer ins
      { effect with signals := .remark (.executing s.pointer word ins) :: effect.signals } := by
  rw [step, if_neg (by simp [h]), hword]
  simp only [hins]

theorem step_of_decode_error {s : State} (h : s.halted = false) {word : Word}
    (hword : s.memory[s.pointer]? = some word) {reason : DecodeError}
    (hreason : Instruction.decode word = .error reason) (source : σ) :
    s.step source = { s with pointer := s.pointer + 1 }.fail source s.pointer
      (.badInstruction word reason) := by
  rw [step, if_neg (by simp [h]), hword]
  simp only [hreason]

/-! ### The deed of a step -/

/-- The state in which the deed of a step is done: the pointer has moved on, unless the machine has
stopped or there is no mailbox at the pointer. -/
def ahead (s : State) : State :=
  if s.halted = false ∧ s.pointer < mailboxCount then { s with pointer := s.pointer + 1 } else s

@[simp] theorem output_ahead (s : State) : s.ahead.output = s.output := by
  unfold ahead
  split <;> rfl

@[simp] theorem accumulator_ahead (s : State) : s.ahead.accumulator = s.accumulator := by
  unfold ahead
  split <;> rfl

@[simp] theorem memory_ahead (s : State) : s.ahead.memory = s.memory := by
  unfold ahead
  split <;> rfl

@[simp] theorem pending_ahead (s : State) : s.ahead.pending = s.pending := by
  unfold ahead
  split <;> rfl

/-- What a step reports first, and its deed. -/
def stepDeed (s : State) : List MachineRemark × Deed :=
  if s.halted then ([], .rest)
  else
    match s.memory[s.pointer]? with
    | none => ([], .fail .noMailbox)
    | some word =>
      match Instruction.decode word with
      | .error reason => ([], .fail (.badInstruction word reason))
      | .ok ins => ([.executing s.pointer word ins], s.ahead.deed ins)

/-- **A step does its deed.** -/
theorem step_eq (s : State) (source : σ) :
    s.step source =
      let effect := s.stepDeed.2.effect s.ahead source s.pointer
      { effect with signals := s.stepDeed.1.map Signal.remark ++ effect.signals } := by
  rcases Bool.eq_false_or_eq_true s.halted with hhalted | hhalted
  · have hahead : s.ahead = s := if_neg (by simp [hhalted])
    have hdeed : s.stepDeed = ([], .rest) := if_pos hhalted
    rw [step_of_halted hhalted, hahead, hdeed]
    rfl
  have hrunning : ¬ s.halted = true := by simp [hhalted]
  by_cases hpointer : s.pointer < mailboxCount
  · have hahead : s.ahead = { s with pointer := s.pointer + 1 } := if_pos ⟨hhalted, hpointer⟩
    have hword : s.memory[s.pointer]? = some s.memory[s.pointer] :=
      Vector.getElem?_eq_getElem hpointer
    cases hins : Instruction.decode s.memory[s.pointer] with
    | error reason =>
      have hdeed : s.stepDeed = ([], .fail (.badInstruction s.memory[s.pointer] reason)) := by
        simp only [stepDeed, if_neg hrunning, hword, hins]
      rw [step_of_decode_error hhalted hword hins, hdeed, hahead]
      rfl
    | ok ins =>
      have hdeed : s.stepDeed =
          ([.executing s.pointer s.memory[s.pointer] ins], s.ahead.deed ins) := by
        simp only [stepDeed, if_neg hrunning, hword, hins]
      rw [step_of_decode hhalted hword hins, hdeed, hahead, execute_eq]
      rfl
  · have hahead : s.ahead = s := if_neg fun h => hpointer h.2
    have hnone : s.memory[s.pointer]? = none :=
      Vector.getElem?_eq_none (Nat.le_of_not_lt hpointer)
    have hdeed : s.stepDeed = ([], .fail .noMailbox) := by
      simp only [stepDeed, if_neg hrunning, hnone]
    rw [step, if_neg hrunning, hnone, hdeed, hahead]
    rfl

/-- What is picked from the signals of a step is picked from those of its deed, unless reports are
picked. -/
theorem filterMap_signals_step {α : Type} (s : State) (source : σ) {pick : Signal → Option α}
    (h : ∀ r, pick (.remark r) = none) : (s.step source).signals.filterMap pick =
      (s.stepDeed.2.effect s.ahead source s.pointer).signals.filterMap pick := by
  have hremarks : (s.stepDeed.1.map Signal.remark).filterMap pick = [] := by
    rw [List.filterMap_map]
    exact List.filterMap_eq_nil_iff.mpr fun r _ => h r
  rw [step_eq, List.filterMap_append, hremarks, List.nil_append]

theorem current_of_decode {s : State} {word : Word} (hword : s.memory[s.pointer]? = some word)
    {ins : Instruction} (hins : Instruction.decode word = .ok ins) : s.current = .ok ins := by
  simp only [current, hword, hins]

theorem exists_word_of_current {s : State} {ins : Instruction} (h : s.current = .ok ins) :
    ∃ word, s.memory[s.pointer]? = some word ∧ Instruction.decode word = .ok ins := by
  unfold current at h
  split at h
  · cases h
  · next word hword =>
    split at h
    · next hins =>
      cases h
      exact ⟨word, hword, hins⟩
    · cases h

theorem stepDeed_of_current {s : State} (hrunning : s.halted = false) {ins : Instruction}
    (h : s.current = .ok ins) : s.stepDeed.2 = s.ahead.deed ins := by
  obtain ⟨word, hword, hins⟩ := exists_word_of_current h
  simp only [stepDeed, if_neg (Bool.eq_false_iff.mp hrunning), hword, hins]

theorem address_lt_of_current {s : State} {ins : Instruction} (h : s.current = .ok ins) :
    ∀ a ∈ ins.address?, a < mailboxCount := by
  obtain ⟨word, -, hins⟩ := exists_word_of_current h
  exact (Instruction.toInt_of_decode hins).2

/-- The pointer is where the instruction cannot be read. -/
theorem address_of_current {s : State} {e : MachineError} (h : s.current = .error e) :
    e.address = s.pointer := by
  unfold current at h
  split at h
  · cases h
    rfl
  · split at h
    · cases h
    · cases h
      rfl

theorem stepDeed_of_current_error {s : State} {cause : MachineError.Cause}
    (hrunning : s.halted = false)
    (h : s.current = .error ⟨s.pointer, cause⟩) : s.stepDeed = ([], .fail cause) := by
  have hnot : ¬ s.halted = true := Bool.eq_false_iff.mp hrunning
  cases hword : s.memory[s.pointer]? with
  | none =>
    simp only [current, hword] at h
    cases h
    simp only [stepDeed, if_neg hnot, hword]
  | some word =>
    cases hins : Instruction.decode word with
    | error reason =>
      simp only [current, hword, hins] at h
      cases h
      simp only [stepDeed, if_neg hnot, hword, hins]
    | ok ins =>
      simp only [current, hword, hins] at h
      cases h

/-- What the next step of the state comes to. -/
inductive Turn (s : State) : Prop where
  /-- The machine has stopped. -/
  | stopped (hhalted : s.halted = true) (hdeed : s.stepDeed = ([], .rest))
  /-- The instruction at the pointer cannot be read. -/
  | unread {cause : MachineError.Cause} (hrunning : s.halted = false)
    (hcurrent : s.current = .error ⟨s.pointer, cause⟩) (hdeed : s.stepDeed = ([], .fail cause))
  /-- The instruction at the pointer is executed. -/
  | executes {ins : Instruction} (hrunning : s.halted = false) (hcurrent : s.current = .ok ins)
    (hdeed : s.stepDeed.2 = s.ahead.deed ins)

theorem turn (s : State) : s.Turn := by
  cases hhalted : s.halted with
  | true => exact .stopped hhalted (if_pos hhalted)
  | false =>
    cases hcurrent : s.current with
    | error e =>
      have hread : s.current = .error ⟨s.pointer, e.cause⟩ := by
        rw [hcurrent, ← address_of_current hcurrent]
      exact .unread hhalted hread (stepDeed_of_current_error hhalted hread)
    | ok ins => exact .executes hhalted hcurrent (stepDeed_of_current hhalted hcurrent)

@[simp] theorem output_write (s : State) (address : Nat) (words : Array Word) :
    (s.write address words).output = s.output := by
  rw [write]

/-- What is in a mailbox after words have been put there. -/
theorem getElem?_write (s : State) (address : Nat) (words : Array Word) (i : Nat) :
    (s.write address words).memory[i]? =
      s.memory[i]?.map fun w => if address ≤ i then (words[i - address]?).getD w else w := by
  rw [write, Vector.getElem?_ofFn]
  by_cases hi : i < mailboxCount
  · rw [dif_pos hi, Vector.getElem?_eq_getElem hi]
    rfl
  · rw [dif_neg hi, Vector.getElem?_eq_none (by omega)]
    rfl

end State

/-! ### What listeners hear -/

/-- The event of a journal entry, if it was told to that listener. -/
def Notice.event? (listener : Nat) : Notice → Option Event
  | heard l e => if l = listener then some e else none
  | _ => none

namespace Machine

variable {σ : Type}

/-- What a listener has been told so far, in order. -/
def heard (m : Machine σ) (listener : Nat) : List Event :=
  m.journal.toList.filterMap (Notice.event? listener)

theorem filter_range {listeners listener : Nat} (h : listener < listeners) :
    (List.range listeners).filter (· = listener) = [listener] := by
  induction listeners with
  | zero => cases h
  | succ n ih =>
    rw [List.range_succ, List.filter_append]
    rcases Nat.lt_succ_iff_lt_or_eq.mp h with hlt | rfl
    · have hne : n ≠ listener := Nat.ne_of_gt hlt
      rw [ih hlt]
      simp [hne]
    · have hnone : (List.range listener).filter (· = listener) = [] := by
        rw [List.filter_eq_nil_iff]
        intro l hl
        simpa using Nat.ne_of_lt (List.mem_range.mp hl)
      rw [hnone]
      simp

theorem filterMap_range {listeners listener : Nat} (h : listener < listeners) (e : Event) :
    (List.range listeners).filterMap (fun l => Notice.event? listener (.heard l e)) = [e] := by
  have hone := congrArg (List.filterMap fun _ => some e) (filter_range h)
  rw [List.filterMap_filter] at hone
  simpa [Notice.event?] using hone

theorem filterMap_notices {listeners listener : Nat} (h : listener < listeners) (signal : Signal) :
    (signal.notices listeners).filterMap (Notice.event? listener) = signal.event?.toList := by
  cases signal with
  | event e =>
    rw [Signal.notices, List.filterMap_map]
    exact filterMap_range h e
  | _ => rfl

/-- What is picked from the journal after signals have been let out: if the entries of every signal
are picked in step with it, that of the signals comes behind what was picked before. -/
theorem filterMap_signal {α : Type} (m : Machine σ) {pick : Notice → Option α}
    {pickSignal : Signal → Option α}
    (h : ∀ signal, (signal.notices m.listeners).filterMap pick = (pickSignal signal).toList)
    (signals : List Signal) : (m.signal signals).journal.toList.filterMap pick =
      m.journal.toList.filterMap pick ++ signals.filterMap pickSignal := by
  have hsignals : (signals.flatMap (Signal.notices m.listeners)).filterMap pick =
      signals.filterMap pickSignal := by
    induction signals with
    | nil => rfl
    | cons signal signals ih =>
      rw [List.flatMap_cons, List.filterMap_append, h, ih, List.filterMap_cons]
      cases pickSignal signal <;> rfl
  rw [signal, Array.toList_appendList, List.filterMap_append, hsignals]

/-- Nothing is picked from what listeners are told, unless events are picked. -/
theorem filterMap_heard {α : Type} {pick : Notice → Option α} {e : Event}
    (h : ∀ listener, pick (.heard listener e) = none) (listeners : Nat) :
    (Signal.notices listeners (.event e)).filterMap pick = [] := by
  rw [Signal.notices, List.filterMap_map]
  exact List.filterMap_eq_nil_iff.mpr fun listener _ => h listener

theorem heard_signal (m : Machine σ) {listener : Nat} (h : listener < m.listeners)
    (signals : List Signal) :
    (m.signal signals).heard listener = m.heard listener ++ signals.filterMap Signal.event? :=
  m.filterMap_signal (filterMap_notices h) signals

/-! ### The steps of a machine -/

variable [NumberSource σ]

/-- The answers to that many steps, in order, and the machine after them. -/
def steps (m : Machine σ) : Nat → List (Except MachineError Unit) × Machine σ
  | 0 => ([], m)
  | n + 1 => (m.step.1 :: (m.step.2.steps n).1, (m.step.2.steps n).2)

theorem step_fst (m : Machine σ) :
    m.step.1 = match (m.state.step m.source).failure with
      | none => .ok ()
      | some e => .error e := m.after_fst _

/-- The answer to a step is a failure if the step of the state fails. -/
theorem step_fst_eq_error_iff {m : Machine σ} {e : MachineError} :
    m.step.1 = .error e ↔ (m.state.step m.source).failure = some e := by
  rw [step_fst]
  cases (m.state.step m.source).failure <;> simp

/-- The machine after a step has the state and the source after the step, and has let its signals
out. -/
theorem step_snd (m : Machine σ) :
    m.step.2 = { m with
      state := (m.state.step m.source).state
      source := (m.state.step m.source).source }.signal (m.state.step m.source).signals :=
  m.after_snd _

theorem step_stopped {m : Machine σ} (h : m.state.halted = true) : m.step = (.ok (), m) := by
  refine Prod.ext ?_ ?_
  · rw [step_fst, State.step_of_halted h]
    rfl
  · rw [step_snd, State.step_of_halted h]
    exact congrArg (fun journal => { m with journal }) (Array.append_empty ..)

@[simp] theorem state_step (m : Machine σ) : m.step.2.state = (m.state.step m.source).state := by
  rw [step_snd]
  rfl

@[simp] theorem source_step (m : Machine σ) :
    m.step.2.source = (m.state.step m.source).source := by
  rw [step_snd]
  rfl

@[simp] theorem listeners_step (m : Machine σ) : m.step.2.listeners = m.listeners := by
  rw [step_snd]
  rfl

theorem heard_step (m : Machine σ) {listener : Nat} (h : listener < m.listeners) :
    m.step.2.heard listener =
      m.heard listener ++ (m.state.step m.source).signals.filterMap Signal.event? := by
  rw [step_snd]
  exact heard_signal _ h _

@[simp] theorem listeners_steps (m : Machine σ) (n : Nat) :
    (m.steps n).2.listeners = m.listeners := by
  induction n generalizing m with
  | zero => rfl
  | succ n ih =>
    rw [steps, ih, listeners_step]

end Machine

end LittleMan
