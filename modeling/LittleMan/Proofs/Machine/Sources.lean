import LittleMan.Proofs.Machine.Runs

/-!
# What a run reads and prints

Two machines that differ in their sources of numbers only, which supply the same numbers
(`SupplySame`), do the same (`Machine.SameBut.runAtMost`). So a text that is read line by line is as
good as a queue of the numbers on its lines (`LineInput.supplySame`): reading on to the next number
takes as many lines as there are before it, and one number off the queue.

A machine whose source grows at its end while it runs does the same as if it had grown before
(`Machine.step_change`), as long as no step looks behind the end there was.

The texts that the sink has been called with are, one behind the other, what has been printed
(`Machine.output_runAtMost`).
-/

namespace LittleMan

/-! ### Steps that read -/

namespace State

theorem deed_eq_readNumber_iff {s : State} {ins : Instruction} :
    s.deed ins = .readNumber ↔ ins = .inp := by
  cases ins with
  | add a | sub a | lda a =>
    rw [deed]
    cases s.memory[a]? <;> simp
  | sta a | brz a | brp a =>
    rw [deed]
    split <;> simp
  | otc =>
    rw [deed]
    cases charOf? s.accumulator <;> simp
  | hlt | bra a | inp | out => simp [deed]

/-- **A step reads a number if that is its deed.** -/
theorem stepDeed_eq_readNumber_iff {s : State} : s.stepDeed.2 = .readNumber ↔ s.ReadsNext := by
  unfold ReadsNext
  cases s.turn with
  | stopped hhalted hdeed => simp [hdeed, hhalted]
  | unread _ hcurrent hdeed => simp [hdeed, hcurrent]
  | executes hrunning hcurrent hdeed => simp [hdeed, deed_eq_readNumber_iff, hrunning, hcurrent]

end State

/-! ### Sources that supply the same numbers -/

/-- Sources that `R` relates supply the same number, whatever is pending, and are related again. -/
def SupplySame {σ τ : Type} [NumberSource σ] [NumberSource τ] (R : σ → τ → Prop) : Prop :=
  ∀ source source', R source source' → ∀ pending,
    (NumberSource.ask pending source').1 = (NumberSource.ask pending source).1 ∧
      R (NumberSource.ask pending source).2 (NumberSource.ask pending source').2

section SupplySame

variable {σ τ : Type} {R : σ → τ → Prop}

/-- The effects are the same, but for the sources, which are related. -/
structure Effect.SameBut (R : σ → τ → Prop) (e : Effect σ) (e' : Effect τ) : Prop where
  /-- The states are the same, -/
  state : e'.state = e.state
  /-- the sources are related, -/
  source : R e.source e'.source
  /-- the same signals are given, -/
  signals : e'.signals = e.signals
  /-- and the same goes wrong. -/
  failure : e'.failure = e.failure

/-- The machines are the same, but for the sources, which are related. -/
structure Machine.SameBut (R : σ → τ → Prop) (m : Machine σ) (m' : Machine τ) : Prop where
  /-- The states are the same, -/
  state : m'.state = m.state
  /-- the sources are related, -/
  source : R m.source m'.source
  /-- there are as many listeners, -/
  listeners : m'.listeners = m.listeners
  /-- and the same has been let out. -/
  journal : m'.journal = m.journal

variable [NumberSource σ] [NumberSource τ] {source : σ} {source' : τ}

theorem Deed.sameBut (h : SupplySame R) (hR : R source source') (s : State) (address : Nat)
    (d : Deed) : (d.effect s source address).SameBut R (d.effect s source' address) := by
  cases d with
  | readNumber =>
    obtain ⟨hnumber, hrest⟩ := h source source' hR s.pending
    simp only [effect, State.readNumber]
    exact ⟨by rw [hnumber], hrest, by rw [hnumber], rfl⟩
  | rest | fail cause | stop | accumulate data | goTo target | print text | store operand h =>
    exact ⟨rfl, hR, rfl, rfl⟩

theorem State.sameBut_step (h : SupplySame R) (hR : R source source') (s : State) :
    (s.step source).SameBut R (s.step source') := by
  have hdeed := Deed.sameBut h hR s.ahead s.pointer s.stepDeed.2
  rw [step_eq, step_eq]
  exact ⟨hdeed.state, hdeed.source, congrArg _ hdeed.signals, hdeed.failure⟩

namespace Machine.SameBut

variable {m : Machine σ} {m' : Machine τ}

theorem step (h : SupplySame R) (hm : m.SameBut R m') :
    m'.step.1 = m.step.1 ∧ m.step.2.SameBut R m'.step.2 := by
  have hstep := State.sameBut_step h hm.source m.state
  rw [← hm.state] at hstep
  rw [step_fst, step_fst, step_snd, step_snd, ← hm.state, hstep.failure, hstep.signals]
  refine ⟨rfl, hstep.state, hstep.source, hm.listeners, ?_⟩
  simp only [signal, hm.journal, hm.listeners]

theorem exists_step (h : SupplySame R) (hm : m.SameBut R m') {answer : Except MachineError Unit}
    {stepped : Machine σ} (hstep : m.step = (answer, stepped)) :
    ∃ stepped', m'.step = (answer, stepped') ∧ stepped.SameBut R stepped' := by
  obtain ⟨hanswer, hsame⟩ := hm.step h
  rw [hstep] at hanswer hsame
  exact ⟨m'.step.2, Prod.ext hanswer rfl, hsame⟩

/-- **Runs are the same**, with the same answer. -/
theorem runAtMost (h : SupplySame R) (hm : m.SameBut R m') (limit : Nat) :
    (m'.runAtMost limit).1 = (m.runAtMost limit).1 ∧
      (m.runAtMost limit).2.SameBut R (m'.runAtMost limit).2 := by
  induction limit generalizing m m' with
  | zero => exact ⟨by rw [Machine.runAtMost, Machine.runAtMost, hm.state], hm⟩
  | succ limit ih =>
    have hhalted : m'.state.halted = m.state.halted := by rw [hm.state]
    cases m.next with
    | stopped hstopped =>
      rw [runAtMost_of_halted hstopped, runAtMost_of_halted (hhalted.trans hstopped)]
      exact ⟨rfl, hm⟩
    | fails hrunning hstep _ =>
      obtain ⟨stepped', hstep', hsame⟩ := hm.exists_step h hstep
      rw [runAtMost_of_error hrunning hstep, runAtMost_of_error (hhalted.trans hrunning) hstep']
      exact ⟨rfl, hsame⟩
    | goesOn hrunning hstep =>
      obtain ⟨stepped', hstep', hsame⟩ := hm.exists_step h hstep
      rw [runAtMost_of_ok hrunning hstep, runAtMost_of_ok (hhalted.trans hrunning) hstep']
      exact ih hsame

end Machine.SameBut

end SupplySame

/-! ### Sources that are changed -/

section Change

variable {σ : Type} [NumberSource σ] {f : σ → σ} {source : σ}

/-- It does not matter to the number supplied next whether the source is changed before or after
it. -/
def SuppliesBefore (f : σ → σ) (pending : Word) (source : σ) : Prop :=
  NumberSource.ask pending (f source) =
    ((NumberSource.ask pending source).1, f (NumberSource.ask pending source).2)

theorem Deed.effect_change {s : State} {address : Nat} {d : Deed}
    (h : d = .readNumber → SuppliesBefore f s.pending source) :
    d.effect s (f source) address =
      { d.effect s source address with source := f (d.effect s source address).source } := by
  cases d with
  | readNumber =>
    have hask : NumberSource.ask s.pending (f source) = _ := h rfl
    simp [effect, State.readNumber, hask]
  | rest | fail cause | stop | accumulate data | goTo target | print text | store operand h => rfl

theorem State.step_change {s : State} (h : s.ReadsNext → SuppliesBefore f s.pending source) :
    s.step (f source) = { s.step source with source := f (s.step source).source } := by
  have hdeed : s.stepDeed.2 = .readNumber → SuppliesBefore f s.ahead.pending source := by
    rw [pending_ahead]
    exact h ∘ stepDeed_eq_readNumber_iff.mp
  rw [step_eq, Deed.effect_change hdeed, step_eq]

/-- **A source may be changed before or after a step** that does not ask it, or that is supplied the
same number. -/
theorem Machine.step_change {m : Machine σ}
    (h : m.state.ReadsNext → SuppliesBefore f m.state.pending m.source) :
    ({ m with source := f m.source } : Machine σ).step =
      (m.step.1, { m.step.2 with source := f m.step.2.source }) := by
  have hstep := State.step_change h
  refine Prod.ext ?_ ?_
  · rw [step_fst, hstep, step_fst]
  · rw [step_snd, hstep, step_snd]
    rfl

end Change

/-! ### Lines and queues -/

/-- A queue that has not run dry does not look at its end. -/
theorem QueuedInput.suppliesBefore_push {source : QueuedInput} (h : source.queue ≠ [])
    (value pending : Word) : SuppliesBefore (·.push value) pending source := by
  obtain ⟨queue, requests⟩ := source
  cases queue with
  | nil => exact absurd rfl h
  | cons next queue => rfl

namespace LineInput

/-- The numbers that lines say, in order. -/
def numbers (lines : List (Option String)) : List Word :=
  lines.filterMap fun line => line.bind Word.ofText?

/-- Reading on to the next number takes it off the numbers, and the lines up to it. -/
theorem next_eq {lines : List (Option String)} (h : ∀ line ∈ lines, line.isSome) :
    (next lines).1 = (numbers lines).head? ∧ numbers (next lines).2 = (numbers lines).tail ∧
      ∀ line ∈ (next lines).2, line.isSome := by
  induction lines with
  | nil => exact ⟨rfl, rfl, h⟩
  | cons line lines ih =>
    obtain ⟨hline, hlines⟩ := List.forall_mem_cons.mp h
    obtain ⟨text, rfl⟩ := Option.isSome_iff_exists.mp hline
    cases hnumber : Word.ofText? text with
    | some value => simpa [next, numbers, hnumber] using hlines
    | none => simpa [next, numbers, hnumber] using ih hlines

/-- All lines are texts, and the queue has the numbers that they say. -/
def Queued (lines : LineInput) (queued : QueuedInput) : Prop :=
  (∀ line ∈ lines.lines, line.isSome) ∧ queued.queue = numbers lines.lines

/-- **Lines supply the numbers that they say**, one after the other, and then none. -/
theorem supplySame : SupplySame Queued := by
  rintro ⟨lines⟩ ⟨queue, requests⟩ ⟨hsome, rfl⟩ pending
  obtain ⟨hhead, htail, hrest⟩ := next_eq hsome
  simp only [NumberSource.ask, hhead]
  cases hnumbers : numbers lines with
  | nil => exact ⟨rfl, hrest, by rw [htail, hnumbers]; rfl⟩
  | cons value values => exact ⟨rfl, hrest, by rw [htail, hnumbers]; rfl⟩

/-- Lines are not looked at behind one at which the search ends. -/
theorem suppliesBefore_push {source : LineInput} (h : ∃ line ∈ source.lines, ends line = true)
    (more : List (Option String)) (pending : Word) :
    SuppliesBefore (·.push more) pending source := by
  simp only [SuppliesBefore, NumberSource.ask, push, next_append h]

end LineInput

/-! ### Printed texts -/

theorem Deed.output {σ : Type} [NumberSource σ] (s : State) (source : σ) (address : Nat)
    (d : Deed) : (d.effect s source address).state.output = s.output ++
      String.join ((d.effect s source address).signals.filterMap Signal.piece?) := by
  cases d with
  | print text =>
    have hpieces : (s.print source text).signals.filterMap Signal.piece? = [text] := rfl
    have hjoin : String.join [text] = text := by simp
    rw [effect, hpieces, hjoin]
    rfl
  | rest | fail cause | stop | accumulate data | goTo target | store operand h | readNumber =>
    exact String.append_empty.symm

theorem State.output_step {σ : Type} [NumberSource σ] (s : State) (source : σ) :
    (s.step source).state.output = s.output ++
      String.join ((s.step source).signals.filterMap Signal.piece?) := by
  rw [s.filterMap_signals_step source fun _ => rfl, ← s.output_ahead, ← Deed.output, step_eq]

namespace Machine

variable {σ : Type}

theorem pieces_signal (m : Machine σ) (signals : List Signal) :
    (m.signal signals).pieces = m.pieces ++ signals.filterMap Signal.piece? := by
  refine m.filterMap_signal (fun signal => ?_) signals
  cases signal with
  | event e => exact filterMap_heard (fun _ => rfl) m.listeners
  | asked before after | printed appended output | remark r => rfl

variable [NumberSource σ]

theorem output_step {m : Machine σ} (h : m.state.output = String.join m.pieces) :
    m.step.2.state.output = String.join m.step.2.pieces := by
  rw [state_step, step_snd, pieces_signal, State.output_step, h, String.join_append]
  rfl

theorem output_steps {m : Machine σ} (h : m.state.output = String.join m.pieces) (n : Nat) :
    (m.steps n).2.state.output = String.join (m.steps n).2.pieces := by
  induction n generalizing m with
  | zero => exact h
  | succ n ih => exact ih (output_step h)

/-- **What has been printed are the texts that the sink has been called with.** -/
theorem output_runAtMost {m : Machine σ} (h : m.state.output = String.join m.pieces) (limit : Nat) :
    (m.runAtMost limit).2.state.output = String.join (m.runAtMost limit).2.pieces := by
  rw [runAtMost_snd]
  exact output_steps h limit

end Machine

end LittleMan
