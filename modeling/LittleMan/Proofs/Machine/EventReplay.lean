import LittleMan.Proofs.Machine.Steps

/-!
# Replaying events

A listener that has a copy of the state and makes every change it is told (`State.change`) keeps its
copy equal to the state of the machine, but for the pointer, of which it is told jumps only
(`Machine.replay_events`). This holds of any state, also of one in which steps fail.

`Effect.ToldFrom` says it of a single effect. It holds of every deed (`Deed.toldFrom`), so of a step
(`State.replay_step`, `State.pointer_step`), and of steps in a row by induction.
-/

namespace LittleMan

/-- Origin and target of a jump. -/
def Event.jump? : Event → Option (Nat × Nat)
  | jump origin target => some (origin, target)
  | _ => none

/-- The events among the signals. -/
def Effect.events {σ : Type} (e : Effect σ) : List Event := e.signals.filterMap Signal.event?

namespace State

/-! ### Making changes -/

/-- The state after the change that an event tells. The pointer stays where it is. -/
def change (s : State) : Event → State
  | .memory address data => { s with memory := s.memory.setIfInBounds address data }
  | .accumulator data => { s with accumulator := data }
  | .jump .. => s
  | .input data => { s with pending := data }
  | .output text => { s with output := s.output ++ text }
  | .halt => { s with halted := true }

/-- The state after the changes, one after the other. -/
def replay (s : State) (events : List Event) : State := events.foldl change s

@[simp] theorem replay_nil (s : State) : s.replay [] = s := rfl

@[simp] theorem replay_cons (s : State) (e : Event) (events : List Event) :
    s.replay (e :: events) = (s.change e).replay events := rfl

theorem replay_append (s : State) (first second : List Event) :
    s.replay (first ++ second) = (s.replay first).replay second := List.foldl_append ..

/-- Changes do not depend on the pointer. -/
theorem replay_pointer (s : State) (pointer : Nat) (events : List Event) :
    { s with pointer }.replay events = { s.replay events with pointer } := by
  induction events generalizing s with
  | nil => rfl
  | cons e events ih =>
    have hchange : { s with pointer }.change e = { s.change e with pointer } := by cases e <;> rfl
    rw [replay_cons, hchange]
    exact ih _

end State

/-! ### One deed -/

/-- The events of the effect, which a deed at `address` has on `s`, tell what has changed;
of the pointer they tell a jump from there. -/
structure Effect.ToldFrom {σ : Type} (e : Effect σ) (s : State) (address : Nat) : Prop where
  /-- Making the changes leads to the state of the effect. -/
  changes : s.replay e.events = { e.state with pointer := s.pointer }
  /-- The pointer has been left alone, or has been set by one jump. -/
  pointer : e.events.filterMap Event.jump? = [] ∧ e.state.pointer = s.pointer ∨
    e.events.filterMap Event.jump? = [(address, e.state.pointer)]

variable {σ : Type} [NumberSource σ] (s : State) (source : σ)

/-- **Every deed is told.** -/
theorem Deed.toldFrom (address : Nat) (d : Deed) :
    (d.effect s source address).ToldFrom s address := by
  cases d with
  | goTo target => exact ⟨rfl, .inr rfl⟩
  | store operand h =>
    refine ⟨?_, .inl ⟨rfl, rfl⟩⟩
    have hset : s.memory.setIfInBounds operand s.accumulator =
        s.memory.set operand s.accumulator h :=
      Vector.ext fun i hi => by rw [Vector.getElem_setIfInBounds hi, Vector.getElem_set h hi]
    change { s with memory := s.memory.setIfInBounds operand s.accumulator } = _
    rw [hset]
    rfl
  | rest | fail cause | stop | accumulate data | print text | readNumber =>
    exact ⟨rfl, .inl ⟨rfl, rfl⟩⟩

/-! ### One step -/

namespace State

/-- **Every step tells what it does** from where its deed is done. -/
theorem toldFrom_step : (s.step source).ToldFrom s.ahead s.pointer := by
  have hevents : (s.step source).events =
      (s.stepDeed.2.effect s.ahead source s.pointer).events :=
    s.filterMap_signals_step source fun _ => rfl
  obtain ⟨hchanges, hpointer⟩ := Deed.toldFrom s.ahead source s.pointer s.stepDeed.2
  rw [← hevents] at hchanges hpointer
  have hstate : (s.step source).state = (s.stepDeed.2.effect s.ahead source s.pointer).state := by
    rw [step_eq]
  rw [← hstate] at hchanges hpointer
  exact ⟨hchanges, hpointer⟩

/-- **Making the changes that a step tells** leads to the state after the step, but for the
pointer. -/
theorem replay_step : s.replay (s.step source).events =
    { (s.step source).state with pointer := s.pointer } := by
  have hchanges := (s.toldFrom_step source).changes
  unfold ahead at hchanges
  split at hchanges
  · rw [replay_pointer] at hchanges
    have hpointer := congrArg (fun t : State => { t with pointer := s.pointer }) hchanges
    have hkept := s.replay_pointer s.pointer (s.step source).events
    exact hkept.trans hpointer
  · exact hchanges

/-- **A step sets the pointer as it tells**, and moves it on to the next mailbox if it tells no
jump. -/
theorem pointer_step (h : s.halted = false) :
    (s.step source).events.filterMap Event.jump? = [] ∧
      (s.step source).state.pointer =
        (if s.pointer < mailboxCount then s.pointer + 1 else s.pointer) ∨
    (s.step source).events.filterMap Event.jump? = [(s.pointer, (s.step source).state.pointer)] := by
  have hpointer := (s.toldFrom_step source).pointer
  unfold ahead at hpointer
  by_cases hlt : s.pointer < mailboxCount
  · rw [if_pos ⟨h, hlt⟩] at hpointer
    rwa [if_pos hlt]
  · rw [if_neg fun hboth => hlt hboth.2] at hpointer
    rwa [if_neg hlt]

end State

/-! ### Steps in a row -/

namespace Machine

variable {σ : Type} [NumberSource σ]

/-- The events that the next step of the machine tells. -/
def stepEvents (m : Machine σ) : List Event := (m.state.step m.source).events

/-- The events that the next `n` steps tell. -/
def events (m : Machine σ) : Nat → List Event
  | 0 => []
  | n + 1 => m.stepEvents ++ m.step.2.events n

theorem step_of_halted {m : Machine σ} (h : m.state.halted = true) :
    m.step.2 = m ∧ m.stepEvents = [] := by
  rw [step_stopped h, stepEvents, State.step_of_halted h]
  exact ⟨rfl, rfl⟩

theorem replay_events_state (m : Machine σ) (n : Nat) : m.state.replay (m.events n) =
    { (m.steps n).2.state with pointer := m.state.pointer } := by
  induction n generalizing m with
  | zero => rfl
  | succ n ih =>
    have hstep : m.state.replay m.stepEvents = { m.step.2.state with pointer := m.state.pointer } := by
      rw [stepEvents, State.replay_step, state_step]
    rw [events, State.replay_append, hstep, State.replay_pointer, ih]
    rfl

theorem heard_steps (m : Machine σ) (n : Nat) {listener : Nat} (h : listener < m.listeners) :
    (m.steps n).2.heard listener = m.heard listener ++ m.events n := by
  induction n generalizing m with
  | zero => exact (List.append_nil _).symm
  | succ n ih =>
    have hlistener : listener < m.step.2.listeners := by rwa [listeners_step]
    rw [steps, events, ih m.step.2 hlistener, heard_step m h, List.append_assoc]
    rfl

/-- What the next step tells of the pointer: one jump, from where the pointer is to where it is then,
or none, and then the pointer moves on by one mailbox if it is at a mailbox. A machine that has
stopped stays as it is and tells nothing. -/
def TellsPointer (m : Machine σ) : Prop :=
  if m.state.halted then m.step.2 = m ∧ m.stepEvents = []
  else
    m.stepEvents.filterMap Event.jump? = [] ∧
      m.step.2.state.pointer =
        (if m.state.pointer < mailboxCount then m.state.pointer + 1 else m.state.pointer) ∨
    m.stepEvents.filterMap Event.jump? = [(m.state.pointer, m.step.2.state.pointer)]

theorem tellsPointer (m : Machine σ) : m.TellsPointer := by
  unfold TellsPointer
  split
  · exact step_of_halted ‹_›
  · next h =>
    rw [state_step]
    exact m.state.pointer_step m.source (Bool.not_eq_true _ ▸ h)

/-- **Events tell the whole story.** From any state, whether steps fail or not: making the changes
that `n` steps tell leads to the state after them, but for the pointer; every listener is told these
events, in this order; and each of the steps tells where it sets the pointer. -/
theorem replay_events (m : Machine σ) (n : Nat) :
    m.state.replay (m.events n) = { (m.steps n).2.state with pointer := m.state.pointer } ∧
    (∀ listener < m.listeners, (m.steps n).2.heard listener = m.heard listener ++ m.events n) ∧
    ∀ i < n, (m.steps i).2.TellsPointer :=
  ⟨m.replay_events_state n, fun _ h => m.heard_steps n h, fun i _ => (m.steps i).2.tellsPointer⟩

/-- A machine jumps, reads a number, meets a word that is no instruction and has stopped: the last
step tells nothing. -/
theorem replay_events_of_failure :
    let m : Machine QueuedInput := {
      state := ({} : State).write 0 #[602, 0, 901, 400]
      source := { queue := [7] }
      listeners := 2 }
    m.events 4 = [.jump 0 2, .input 7, .accumulator 7, .halt] ∧
    (m.steps 4).2.heard 1 = m.events 4 ∧
    m.state.replay (m.events 4) = { (m.steps 4).2.state with pointer := 0 } ∧
    (m.steps 4).2.state.pointer = 4 ∧ (m.steps 0).2.TellsPointer := by
  intro m
  obtain ⟨hreplay, hheard, hpointer⟩ := m.replay_events 4
  exact ⟨by decide +kernel, hheard 1 (by decide), hreplay, by decide +kernel, hpointer 0 (by decide)⟩

end Machine

end LittleMan
