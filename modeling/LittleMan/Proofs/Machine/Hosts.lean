import LittleMan.Proofs.Machine.Runs

/-!
# What hosts do

A host loads words and programs into a machine and makes it execute instructions, one or up to a
number of them (`Work`). All of this comes to loads of words and to steps (`Machine.worked`): what
holds of these holds of all work. Which other things a host does differs from one use to the other.

Instructions are executed with an answer (`Machine.execute`). A host that asks for several things in
a row gets the answers one after the other, as long as there are answers at all (`Machine.askAll`).
If nothing can go wrong, it does not matter that something could (`Machine.askAll_eq_pure`).
-/

namespace LittleMan

/-! ### Executing instructions -/

/-- A way to make a machine execute instructions, no more of them than a number. -/
inductive Execution where
  /-- One step. -/
  | step
  /-- At most that many steps. -/
  | runAtMost (limit : Nat)

namespace Execution

/-- The answer to a way of executing instructions. -/
inductive Answer where
  /-- Whether there has been a failure. -/
  | done (result : Except MachineError Unit)
  /-- Without a failure, whether the machine has stopped. -/
  | stopped (result : Except MachineError Bool)

/-- How many instructions are executed at most. -/
def bound : Execution → Nat
  | step => 1
  | runAtMost limit => limit

/-- The answer that says that all is well and that the machine has stopped. -/
def success : Execution → Answer
  | step => .done (.ok ())
  | runAtMost _ => .stopped (.ok true)

end Execution

/-! ### Work -/

/-- What a host has done by a machine. -/
inductive Work where
  /-- Words are loaded. -/
  | loadWords (words : Array Word) (address : Nat)
  /-- A program is loaded. -/
  | loadProgram (p : Program) (address : Nat)
  /-- Instructions are executed. -/
  | execute (x : Execution)

namespace Work

/-- The words that are put into mailboxes: none if they do not fit. -/
def loaded : Work → List Word
  | loadWords words address => if address + words.size ≤ mailboxCount then words.toList else []
  | loadProgram p address =>
    if address + p.size ≤ mailboxCount then (p.wordsAt address).toList else []
  | execute _ => []

/-- How many instructions are executed at most. -/
def bound : Work → Nat
  | loadWords .. | loadProgram .. => 0
  | execute x => x.bound

end Work

namespace Machine

section Work

variable {σ : Type} [NumberSource σ]

/-- The answer to executing instructions and the machine after it. -/
def execute (m : Machine σ) : Execution → Execution.Answer × Machine σ
  | .step => (.done m.step.1, m.step.2)
  | .runAtMost limit => (.stopped (m.runAtMost limit).1, (m.runAtMost limit).2)

/-- **Executing instructions is making steps.** -/
theorem execute_snd (m : Machine σ) (x : Execution) : (m.execute x).2 = (m.steps x.bound).2 := by
  cases x with
  | step => rfl
  | runAtMost limit => exact m.runAtMost_snd limit

theorem execute_of_halted {m : Machine σ} (h : m.state.halted = true) (x : Execution) :
    m.execute x = (x.success, m) := by
  cases x with
  | step => rw [execute, step_stopped h, Execution.success]
  | runAtMost limit => rw [execute, runAtMost_of_halted h, Execution.success]

/-- The machine after the work, whatever the answer to it. -/
def work (m : Machine σ) : Work → Machine σ
  | .loadWords words address => (m.loadWords words address).2
  | .loadProgram p address => (m.loadProgram p address).2
  | .execute x => (m.execute x).2

/-- What work comes to. -/
inductive Worked (m : Machine σ) (w : Work) : Prop where
  /-- Words are loaded, and no others are put into mailboxes. -/
  | loads {words : Array Word} {address : Nat} (hwork : m.work w = (m.loadWords words address).2)
    (hloaded : address + words.size ≤ mailboxCount → w.loaded = words.toList) (hbound : w.bound = 0)
  /-- Steps are made. -/
  | makesSteps (hwork : m.work w = (m.steps w.bound).2)

/-- **All work comes to loads of words and to steps.** -/
theorem worked (m : Machine σ) (w : Work) : m.Worked w := by
  cases w with
  | loadWords words address => exact .loads rfl (fun hfits => if_pos hfits) rfl
  | loadProgram p address =>
    by_cases hfits : address + p.size ≤ mailboxCount
    · have hload : m.loadProgram p address = m.loadWords (p.wordsAt address) address := if_pos hfits
      exact .loads (congrArg Prod.snd hload) (fun _ => if_pos hfits) rfl
    · have hload : m.loadProgram p address = m.loadWords p.words address := if_neg hfits
      exact .loads (congrArg Prod.snd hload) (fun hfits' => absurd hfits' hfits) rfl
  | execute x => exact .makesSteps (m.execute_snd x)

end Work

/-! ### Several things in a row -/

section Asking

variable {σ : Type} {M : Type → Type} [Monad M] {R A : Type}

/-- The answers to requests, one after the other, and the machine after them. -/
def askAll (ask : Machine σ → R → M (A × Machine σ)) (m : Machine σ) :
    List R → M (List A × Machine σ)
  | [] => pure ([], m)
  | r :: rs => do
    let (answer, m') ← ask m r
    let (answers, m'') ← m'.askAll ask rs
    return (answer :: answers, m'')

variable [LawfulMonad M] {ask : Machine σ → R → M (A × Machine σ)}

/-- **Where every request is answered, all requests are**, with the same answers. -/
theorem askAll_eq_pure {answer : Machine σ → R → A × Machine σ}
    (h : ∀ m r, ask m r = pure (answer m r)) (m : Machine σ) (rs : List R) :
    m.askAll ask rs = pure (m.askAll (M := Id) answer rs) := by
  induction rs generalizing m with
  | nil => rfl
  | cons r rs ih =>
    rw [askAll, h, pure_bind]
    dsimp only
    rw [ih, pure_bind]
    rfl

/-- A machine that every request leaves as it is gives each answer as if it were the only one. -/
theorem askAll_of_same {m : Machine σ} {answer : R → A} {rs : List R}
    (h : ∀ r ∈ rs, ask m r = pure (answer r, m)) :
    m.askAll ask rs = pure (rs.map answer, m) := by
  induction rs with
  | nil => rfl
  | cons r rs ih =>
    obtain ⟨hr, hrs⟩ := List.forall_mem_cons.mp h
    rw [askAll, hr, pure_bind]
    dsimp only
    rw [ih hrs, pure_bind]
    rfl

/-- If there are answers to all requests, there is one to each. -/
theorem exists_of_askAll {E : Type} {ask : Machine σ → R → Except E (A × Machine σ)}
    {m : Machine σ} {rs : List R} {outcome : List A × Machine σ}
    (h : m.askAll ask rs = .ok outcome) : ∀ r ∈ rs, ∃ m' answered, ask m' r = .ok answered := by
  induction rs generalizing m outcome with
  | nil => exact fun r hr => nomatch hr
  | cons first rs ih =>
    cases hfirst : ask m first with
    | error e =>
      rw [askAll, hfirst] at h
      cases h
    | ok answered =>
      cases hrest : answered.2.askAll ask rs with
      | error e =>
        simp only [askAll, hfirst, hrest, bind, Except.bind] at h
        cases h
      | ok rest => exact List.forall_mem_cons.mpr ⟨⟨m, answered, hfirst⟩, ih hrest⟩

end Asking

end Machine

end LittleMan
