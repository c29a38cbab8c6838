import LittleMan.Proofs.Machine.Runs
import LittleMan.Proofs.Machine.Sources
import Mathlib.Data.List.Basic

/-!
# Numbers from a queue

A machine whose source is a queue reads the numbers of the queue in order, one for each `INP` that
it executes, and reads the pending number again when the queue has run dry. It is asked as often as
an `INP` is executed, and what is left in the queue is what has not been read
(`Machine.source_steps`).

When a number is put into the queue does not matter, as long as it is there before an `INP` finds
the queue empty: up to then the run does not look at the end of the queue (`Machine.steps_enqueue`).
The first `INP` that finds the queue empty does make a difference, since it would have taken the
number (`Machine.neverDry_of_steps_enqueue`). `Machine.queue_in_order` puts this together.

A step reads a number if its deed is to read one (`State.stepDeed_eq_readNumber_iff`); all other
deeds leave the source alone (`Deed.source_effect`).
-/

namespace LittleMan

/-! ### Deeds that read -/

theorem QueuedInput.ask_eq (pending : Word) (source : QueuedInput) :
    NumberSource.ask pending source =
      (source.queue.head?.getD pending, ⟨source.queue.tail, source.requests + 1⟩) := by
  obtain ⟨queue, requests⟩ := source
  cases queue <;> rfl

namespace Deed

variable {s : State} {d : Deed} {address : Nat}

theorem source_effect {σ : Type} [NumberSource σ] (h : d ≠ .readNumber) (source : σ) :
    (d.effect s source address).source = source ∧
      (d.effect s source address).state.pending = s.pending := by
  cases d with
  | readNumber => exact absurd rfl h
  | rest | fail cause | stop | accumulate data | goTo target | print text | store operand h =>
    exact ⟨rfl, rfl⟩

end Deed

/-! ### What is read -/

/-- The number that has been read, if the event says so. -/
def Event.input? : Event → Option Word
  | input data => some data
  | _ => none

namespace Machine

section Readings

variable {σ : Type} [NumberSource σ]

/-- The numbers that come into the accumulator by each `INP` executed in the steps, in order. -/
def readings (m : Machine σ) : Nat → List Word
  | 0 => []
  | n + 1 =>
    (if m.state.ReadsNext then [m.step.2.state.accumulator] else []) ++ m.step.2.readings n

theorem readings_succ (m : Machine σ) (n : Nat) :
    m.readings (n + 1) = m.readings n ++
      (if (m.steps n).2.state.ReadsNext then [(m.steps n).2.step.2.state.accumulator] else []) := by
  induction n generalizing m with
  | zero => rw [readings, readings, readings, List.append_nil, List.nil_append]; rfl
  | succ n ih => rw [readings, ih, ← List.append_assoc, ← readings]; rfl

/-- A step that does not read leaves the source alone, and the pending number. -/
theorem step_of_not_readsNext {m : Machine σ} (h : ¬ m.state.ReadsNext) :
    m.step.2.source = m.source ∧ m.step.2.state.pending = m.state.pending := by
  have hdeed : m.state.stepDeed.2 ≠ .readNumber := mt State.stepDeed_eq_readNumber_iff.mp h
  have hsource :
      (m.state.stepDeed.2.effect m.state.ahead m.source m.state.pointer).source = m.source ∧
        (m.state.stepDeed.2.effect m.state.ahead m.source m.state.pointer).state.pending =
          m.state.ahead.pending :=
    Deed.source_effect hdeed m.source
  rw [State.pending_ahead] at hsource
  rw [source_step, state_step, State.step_eq]
  exact hsource

/-- A step that reads asks the source, and what the source supplies is pending, comes into the
accumulator and is told. -/
theorem step_of_readsNext {m : Machine σ} (h : m.state.ReadsNext) :
    let supply := NumberSource.ask m.state.pending m.source
    m.step.2.source = supply.2 ∧ m.step.2.state.pending = supply.1 ∧
      m.step.2.state.accumulator = supply.1 := by
  have hdeed := State.stepDeed_eq_readNumber_iff.mpr h
  rw [source_step, state_step, State.step_eq, hdeed, ← State.pending_ahead]
  exact ⟨rfl, rfl, rfl⟩

/-- **The numbers that listeners are told of are those that have been read.** -/
theorem heard_input_steps (m : Machine σ) {listener : Nat} (h : listener < m.listeners) (n : Nat) :
    ((m.steps n).2.heard listener).filterMap Event.input? =
      (m.heard listener).filterMap Event.input? ++ m.readings n := by
  induction n generalizing m with
  | zero => exact (List.append_nil _).symm
  | succ n ih =>
    have hstep : (m.step.2.heard listener).filterMap Event.input? =
        (m.heard listener).filterMap Event.input? ++
          (if m.state.ReadsNext then [m.step.2.state.accumulator] else []) := by
      rw [heard_step m h, List.filterMap_append, m.state.filterMap_signals_step _ fun _ => rfl]
      congr 1
      split
      · next hreads =>
        rw [(step_of_readsNext hreads).2.2, State.stepDeed_eq_readNumber_iff.mpr hreads,
          ← State.pending_ahead]
        rfl
      · next hreads =>
        have hdeed := mt State.stepDeed_eq_readNumber_iff.mp hreads
        cases hd : m.state.stepDeed.2 with
        | readNumber => exact absurd hd hdeed
        | rest | fail cause | stop | accumulate data | goTo target | print text
          | store operand h => rfl
    rw [steps, ih m.step.2 (by rwa [listeners_step]), hstep, readings, List.append_assoc]

end Readings

/-! ### Queues -/

variable {m : Machine QueuedInput}

/-- **The queue after some steps is the one before without the numbers that have been read**, and
the source has been asked for each of them. -/
theorem source_steps (m : Machine QueuedInput) (n : Nat) :
    (m.steps n).2.source =
      ⟨m.source.queue.drop (m.readings n).length, m.source.requests + (m.readings n).length⟩ := by
  induction n with
  | zero => rfl
  | succ n ih =>
    rw [steps_succ, readings_succ, List.length_append]
    split
    · next hreads =>
      rw [(step_of_readsNext hreads).1, QueuedInput.ask_eq, ih]
      simp [List.tail_drop, Nat.add_assoc]
    · next hreads =>
      rw [(step_of_not_readsNext hreads).1, ih]
      rfl

/-- The machine with one more number at the end of its queue. -/
def enqueue (m : Machine QueuedInput) (value : Word) : Machine QueuedInput :=
  { m with source := m.source.push value }

/-- No `INP` executed in the steps finds the queue empty. -/
def NeverDry (m : Machine QueuedInput) (n : Nat) : Prop :=
  ∀ i < n, (m.steps i).2.state.ReadsNext → (m.steps i).2.source.queue ≠ []

theorem neverDry_succ {n : Nat} : m.NeverDry (n + 1) ↔
    (m.state.ReadsNext → m.source.queue ≠ []) ∧ m.step.2.NeverDry n := by
  constructor
  · intro h
    exact ⟨h 0 (Nat.succ_pos n), fun i hi => h (i + 1) (Nat.succ_lt_succ hi)⟩
  · rintro ⟨hfirst, hrest⟩ i hi
    cases i with
    | zero => exact hfirst
    | succ i => exact hrest i (Nat.lt_of_succ_lt_succ hi)

theorem step_enqueue (h : m.state.ReadsNext → m.source.queue ≠ []) (value : Word) :
    (m.enqueue value).step = (m.step.1, m.step.2.enqueue value) :=
  step_change fun hreads => QueuedInput.suppliesBefore_push (h hreads) value _

/-- **A number may be put into the queue before or after a run** in which no `INP` finds the queue
empty: nothing else about the machine depends on it, and the answer is the same. -/
theorem runAtMost_enqueue {limit : Nat} (h : m.NeverDry limit) (value : Word) :
    (m.enqueue value).runAtMost limit =
      ((m.runAtMost limit).1, (m.runAtMost limit).2.enqueue value) := by
  induction limit generalizing m with
  | zero => rfl
  | succ limit ih =>
    obtain ⟨hfirst, hrest⟩ := neverDry_succ.mp h
    have henqueue := step_enqueue hfirst value
    cases m.next with
    | stopped hhalted =>
      have hhalted' : (m.enqueue value).state.halted = true := hhalted
      rw [runAtMost_of_halted hhalted, runAtMost_of_halted hhalted']
    | fails hrunning hstep _ =>
      have hrunning' : (m.enqueue value).state.halted = false := hrunning
      rw [hstep] at henqueue
      rw [runAtMost_of_error hrunning hstep, runAtMost_of_error hrunning' henqueue]
    | goesOn hrunning hstep =>
      have hrunning' : (m.enqueue value).state.halted = false := hrunning
      rw [hstep] at henqueue hrest
      rw [runAtMost_of_ok hrunning hstep, runAtMost_of_ok hrunning' henqueue, ih hrest]

/-- **An `INP` that finds the queue empty tells the difference**: it takes a number that is in the
queue by then, which is still there if it comes later. -/
theorem neverDry_of_steps_enqueue {n : Nat} {value : Word}
    (h : ((m.enqueue value).steps n).2 = (m.steps n).2.enqueue value) : m.NeverDry n := by
  induction n generalizing m with
  | zero => exact fun i hi => absurd hi (Nat.not_lt_zero i)
  | succ n ih =>
    have hfirst : m.state.ReadsNext → m.source.queue ≠ [] := by
      intro hreads hempty
      have hqueue : ((m.enqueue value).steps (n + 1)).2.source.queue = [] := by
        have hreads' : (m.enqueue value).state.ReadsNext := hreads
        rw [source_steps, readings, if_pos hreads', enqueue, QueuedInput.push, hempty]
        simp
      rw [h, enqueue, QueuedInput.push] at hqueue
      exact List.append_ne_nil_of_right_ne_nil _ (List.cons_ne_nil _ _) hqueue
    refine neverDry_succ.mpr ⟨hfirst, ih ?_⟩
    rw [steps, step_enqueue hfirst] at h
    exact h

/-! ### Both together -/

/-- **Queued numbers are read in order, and when they are queued does not matter.** In any number of
steps, and so in any run, each `INP` reads the next number of the queue or, if there is none, the
pending number; this number is pending then and in the accumulator, and the listeners are told of
it. The source has been asked once for each `INP`, and the queue is the one before without the
numbers that have been read. Nothing but an `INP` changes the pending number.

A number may be put into the queue before or after a run exactly if no `INP` of the run finds the
queue empty. In this case the run gives the same answer, and all that is done later does the same. -/
theorem queue_in_order (m : Machine QueuedInput) :
    (∀ n,
      let before := (m.steps n).2
      let after := (m.steps (n + 1)).2
      let count := (m.readings n).length
      (m.runAtMost n).2 = before ∧
      before.source.queue = m.source.queue.drop count ∧
      before.source.requests = m.source.requests + count ∧
      (∀ listener < m.listeners, (before.heard listener).filterMap Event.input? =
        (m.heard listener).filterMap Event.input? ++ m.readings n) ∧
      (before.state.ReadsNext →
        let value := (m.source.queue[count]?).getD before.state.pending
        m.readings (n + 1) = m.readings n ++ [value] ∧
          after.state.pending = value ∧ after.state.accumulator = value) ∧
      (¬ before.state.ReadsNext →
        m.readings (n + 1) = m.readings n ∧ after.state.pending = before.state.pending)) ∧
    ∀ (first : Nat) (value : Word),
      (((m.enqueue value).runAtMost first).2 = (m.runAtMost first).2.enqueue value ↔
        m.NeverDry first) ∧
      (m.NeverDry first →
        ((m.enqueue value).runAtMost first).1 = (m.runAtMost first).1 ∧
        ∀ second, ((m.enqueue value).runAtMost first).2.runAtMost second =
          ((m.runAtMost first).2.enqueue value).runAtMost second) := by
  refine ⟨fun n => ⟨m.runAtMost_snd n, ?_, ?_, fun _ h => m.heard_input_steps h n, fun hreads => ?_,
    fun hreads => ?_⟩, fun first value => ⟨⟨fun h => ?_, fun h => ?_⟩, fun h => ?_⟩⟩
  · rw [source_steps]
  · rw [source_steps]
  · obtain ⟨-, hpending, haccumulator⟩ := step_of_readsNext hreads
    have hsupply : (NumberSource.ask (m.steps n).2.state.pending (m.steps n).2.source).1 =
        (m.source.queue[(m.readings n).length]?).getD (m.steps n).2.state.pending := by
      rw [QueuedInput.ask_eq, source_steps, List.head?_drop]
    rw [readings_succ, if_pos hreads, steps_succ, hpending, haccumulator, hsupply]
    exact ⟨rfl, rfl, rfl⟩
  · rw [readings_succ, if_neg hreads, List.append_nil, steps_succ]
    exact ⟨rfl, (step_of_not_readsNext hreads).2⟩
  · rw [runAtMost_snd, runAtMost_snd] at h
    exact neverDry_of_steps_enqueue h
  · rw [runAtMost_enqueue h]
  · rw [runAtMost_enqueue h]
    exact ⟨rfl, fun _ => rfl⟩

/-- Two numbers are there for three `INP`. A third number may be queued at any time before the last
`INP`, which reads the second number again if it is not. -/
theorem queue_in_order_of_last :
    let m : Machine QueuedInput := {
      state := ({} : State).write 0 #[901, 902, 901, 902, 901]
      source := { queue := [5, -7] }
      listeners := 1 }
    (m.steps 4).2.state.ReadsNext ∧ m.readings 5 = [5, -7, -7] ∧
    ¬ (m.steps 3).2.state.ReadsNext ∧ m.readings 4 = m.readings 3 ∧
    m.NeverDry 4 ∧ ¬ m.NeverDry 5 ∧
    ((m.enqueue 9).runAtMost 5).2 ≠ (m.runAtMost 5).2.enqueue 9 ∧
    ((m.enqueue 9).runAtMost 4).2.runAtMost 2 = ((m.runAtMost 4).2.enqueue 9).runAtMost 2 ∧
    (((m.enqueue 9).runAtMost 4).2.runAtMost 2).2.heard 0 =
      [.input 5, .accumulator 5, .output "5", .input (-7), .accumulator (-7), .output "\n-7",
        .input 9, .accumulator 9, .halt] := by
  intro m
  obtain ⟨hsteps, hqueued⟩ := queue_in_order m
  obtain ⟨-, -, -, -, hreads, -⟩ := hsteps 4
  obtain ⟨-, -, -, -, -, hrest⟩ := hsteps 3
  have hlast : (m.steps 4).2.state.ReadsNext := by decide +kernel
  have hprints : ¬ (m.steps 3).2.state.ReadsNext := by decide +kernel
  have hnever : m.NeverDry 4 := by
    unfold NeverDry
    decide +kernel
  have hdry : ¬ m.NeverDry 5 := fun h => h 4 (by decide) hlast (by decide +kernel)
  refine ⟨hlast, (hreads hlast).1.trans (by decide +kernel), hprints, (hrest hprints).1, hnever,
    hdry, mt (hqueued 5 9).1.mp hdry, ((hqueued 4 9).2 hnever).2 2, by decide +kernel⟩

end Machine

end LittleMan
