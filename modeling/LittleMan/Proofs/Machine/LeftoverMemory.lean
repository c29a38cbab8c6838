import LittleMan.Proofs.Machine.Decoding
import LittleMan.Proofs.Machine.Steps
import Mathlib.Data.Set.Insert

/-!
# Leftover memory

What was left in the mailboxes does not matter to a program that does not look at it. Two machines
that are the same outside of some mailboxes make the same steps, as long as the first one looks into
these mailboxes only after it has put something there itself (`Machine.steps_withMemory`). The
second machine is the first one with other mailboxes (`Machine.withMemory`), so that it has the same
source of numbers, and to be the same in all but the mailboxes is one equation.

A step looks into the mailbox at the pointer and into the one that the instruction there reads
(`State.reads`). If these hold the same on both sides the deed of the step is the same
(`State.stepDeed_withMemory`), and a deed that stores makes one more mailbox the same
(`Deed.effect_withMemory`).
-/

namespace LittleMan

/-! ### What is read and written -/

namespace Instruction

/-- The mailbox that the instruction reads. -/
def readAddress? : Instruction → Option Nat
  | add a | sub a | lda a => some a
  | hlt | sta _ | bra _ | brz _ | brp _ | inp | out | otc => none

/-- The mailbox that the instruction changes. -/
def storeAddress? : Instruction → Option Nat
  | sta a => some a
  | hlt | add _ | sub _ | lda _ | bra _ | brz _ | brp _ | inp | out | otc => none

theorem address?_of_storeAddress? {ins : Instruction} {a : Nat} (h : a ∈ ins.storeAddress?) :
    a ∈ ins.address? := by
  cases ins <;> first | exact h | cases h

end Instruction

namespace State

/-- The mailboxes that the next step looks into: the one at the pointer and the one that the
instruction there reads. -/
def reads (s : State) : List Nat :=
  if s.halted = false ∧ s.pointer < mailboxCount then
    s.pointer :: (s.current.toOption.bind Instruction.readAddress?).toList
  else []

/-- The mailbox that the next step changes. -/
def storesTo? (s : State) : Option Nat :=
  if s.halted then none else s.current.toOption.bind Instruction.storeAddress?

end State

/-- The mailboxes that are changed in that many steps, in order. -/
def Machine.written {σ : Type} [NumberSource σ] (m : Machine σ) : Nat → List Nat
  | 0 => []
  | n + 1 => m.state.storesTo?.toList ++ m.step.2.written n

/-! ### Other mailboxes -/

/-- The state with other mailboxes. -/
def State.withMemory (s : State) (memory : Vector Word mailboxCount) : State := { s with memory }

/-- The effect with other mailboxes. -/
def Effect.withMemory {σ : Type} (e : Effect σ) (memory : Vector Word mailboxCount) : Effect σ :=
  { e with state := e.state.withMemory memory }

/-- The machine with other mailboxes. -/
def Machine.withMemory {σ : Type} (m : Machine σ) (memory : Vector Word mailboxCount) :
    Machine σ :=
  { m with state := m.state.withMemory memory }

/-- The mailboxes outside of `D` hold the same. -/
def SameOutside (D : Set Nat) (memory memory' : Vector Word mailboxCount) : Prop :=
  ∀ i, i ∉ D → memory'[i]? = memory[i]?

namespace SameOutside

variable {D D' : Set Nat} {memory memory' : Vector Word mailboxCount}

theorem mono (h : SameOutside D memory memory') (hD : D ⊆ D') : SameOutside D' memory memory' :=
  fun i hi => h i fun hmem => hi (hD hmem)

theorem set (h : SameOutside D memory memory') {address : Nat} (haddress : address < mailboxCount)
    (word : Word) :
    SameOutside (D \ {address}) (memory.set address word) (memory'.set address word) := by
  intro i hi
  by_cases heq : address = i
  · subst heq
    rw [Vector.getElem?_set_self haddress, Vector.getElem?_set_self haddress]
  · rw [Vector.getElem?_set_ne haddress heq, Vector.getElem?_set_ne haddress heq]
    exact h i fun hmem => hi ⟨hmem, Ne.symm heq⟩

end SameOutside

/-! ### Steps -/

section Step

variable {σ : Type} [NumberSource σ] {s : State} {memory : Vector Word mailboxCount} {D : Set Nat}

/-- The mailbox that the deed changes. -/
def Deed.storesTo? : Deed → Option Nat
  | store operand _ => some operand
  | rest | fail _ | stop | accumulate _ | goTo _ | print _ | readNumber => none

/-- **A deed does the same with other mailboxes**, and makes the one that it changes the same. -/
theorem Deed.effect_withMemory (d : Deed) (source : σ) (address : Nat)
    (h : SameOutside D s.memory memory) : ∃ memory',
      d.effect (s.withMemory memory) source address =
        (d.effect s source address).withMemory memory' ∧
      SameOutside (D \ {a | a ∈ d.storesTo?}) (d.effect s source address).state.memory memory' := by
  cases d with
  | store operand hoperand =>
    refine ⟨memory.set operand s.accumulator, rfl, ?_⟩
    refine (h.set hoperand s.accumulator).mono fun a ha => ⟨ha.1, fun heq => ha.2 ?_⟩
    exact (Option.some.inj heq).symm
  | rest | fail cause | stop | accumulate data | goTo target | print text | readNumber =>
    exact ⟨memory, rfl, h.mono fun a ha => ⟨ha, nofun⟩⟩

namespace State

@[simp] theorem accumulator_withMemory : (s.withMemory memory).accumulator = s.accumulator := rfl

@[simp] theorem ahead_withMemory : (s.withMemory memory).ahead = s.ahead.withMemory memory := by
  unfold ahead withMemory
  split <;> rfl

theorem deed_withMemory {ins : Instruction}
    (h : ∀ a ∈ ins.readAddress?, memory[a]? = s.memory[a]?) :
    (s.withMemory memory).deed ins = s.deed ins := by
  cases ins with
  | add a | sub a | lda a =>
    have hread : (s.withMemory memory).memory[a]? = s.memory[a]? := h a rfl
    simp only [deed, hread, accumulator_withMemory]
  | hlt | sta a | bra a | brz a | brp a | inp | out | otc => rfl

/-- **The deed of a step depends on the mailboxes that it looks into.** -/
theorem stepDeed_withMemory (h : ∀ a ∈ s.reads, memory[a]? = s.memory[a]?) :
    (s.withMemory memory).stepDeed = s.stepDeed := by
  by_cases hrunning : s.halted = false ∧ s.pointer < mailboxCount
  · rw [reads, if_pos hrunning] at h
    obtain ⟨hfetch, hread⟩ := List.forall_mem_cons.mp h
    have hword : s.memory[s.pointer]? = some s.memory[s.pointer] :=
      Vector.getElem?_eq_getElem hrunning.2
    unfold stepDeed
    rw [ahead_withMemory]
    simp only [withMemory, hfetch, hword]
    cases hins : Instruction.decode s.memory[s.pointer] with
    | error reason => rfl
    | ok ins =>
      have hdeed : (s.ahead.withMemory memory).deed ins = s.ahead.deed ins := by
        refine deed_withMemory fun a ha => ?_
        rw [memory_ahead]
        refine hread a ?_
        rw [current_of_decode hword hins]
        exact Option.mem_toList.mpr ha
      simp only [withMemory] at hdeed
      simp only [hdeed]
  · by_cases hhalted : s.halted = true
    · have hother : (s.withMemory memory).halted = true := hhalted
      rw [stepDeed, stepDeed, if_pos hhalted, if_pos hother]
    · have hpointer : mailboxCount ≤ s.pointer := by
        rw [Bool.not_eq_true] at hhalted
        exact Nat.le_of_not_lt fun hlt => hrunning ⟨hhalted, hlt⟩
      have hnone : s.memory[s.pointer]? = none := Vector.getElem?_eq_none hpointer
      have hother : memory[s.pointer]? = none := Vector.getElem?_eq_none hpointer
      unfold stepDeed
      simp only [withMemory, hnone, hother]

theorem storesTo?_deed (s : State) {ins : Instruction}
    (h : ∀ a ∈ ins.storeAddress?, a < mailboxCount) :
    (s.deed ins).storesTo? = ins.storeAddress? := by
  cases ins with
  | sta a =>
    rw [deed, dif_pos (h a rfl)]
    rfl
  | add a | sub a | lda a =>
    rw [deed]
    cases s.memory[a]? <;> rfl
  | brz a | brp a =>
    rw [deed]
    split <;> rfl
  | otc =>
    rw [deed]
    cases charOf? s.accumulator <;> rfl
  | hlt | bra a | inp | out => rfl

theorem storesTo?_stepDeed (s : State) : s.stepDeed.2.storesTo? = s.storesTo? := by
  cases s.turn with
  | stopped hhalted hdeed =>
    rw [hdeed, storesTo?, if_pos hhalted]
    rfl
  | unread hrunning hcurrent hdeed =>
    rw [hdeed, storesTo?, if_neg (Bool.eq_false_iff.mp hrunning), hcurrent]
    rfl
  | executes hrunning hcurrent hdeed =>
    rw [hdeed, storesTo?, if_neg (Bool.eq_false_iff.mp hrunning), hcurrent]
    refine storesTo?_deed s.ahead fun a ha => ?_
    exact address_lt_of_current hcurrent a (Instruction.address?_of_storeAddress? ha)

/-- **A step does the same with other mailboxes**, if it does not look into them. -/
theorem step_withMemory (source : σ) (h : SameOutside D s.memory memory)
    (hreads : ∀ a ∈ s.reads, a ∉ D) : ∃ memory',
      (s.withMemory memory).step source = (s.step source).withMemory memory' ∧
      SameOutside (D \ {a | a ∈ s.storesTo?}) (s.step source).state.memory memory' := by
  have hahead : SameOutside D s.ahead.memory memory := by rwa [memory_ahead]
  obtain ⟨memory', heffect, hsame⟩ :=
    s.stepDeed.2.effect_withMemory source s.pointer hahead
  have hdeed : (s.withMemory memory).stepDeed = s.stepDeed :=
    stepDeed_withMemory fun a ha => h a (hreads a ha)
  rw [storesTo?_stepDeed] at hsame
  refine ⟨memory', ?_, ?_⟩
  · have hpointer : (s.withMemory memory).pointer = s.pointer := rfl
    rw [step_eq, step_eq, hdeed, ahead_withMemory, hpointer, heffect]
    rfl
  · rw [step_eq]
    exact hsame

end State

end Step

/-! ### Runs -/

namespace Machine

variable {σ : Type} [NumberSource σ] {m : Machine σ} {memory : Vector Word mailboxCount}
  {D : Set Nat}

theorem step_withMemory (h : SameOutside D m.state.memory memory)
    (hreads : ∀ a ∈ m.state.reads, a ∉ D) : ∃ memory',
      (m.withMemory memory).step = (m.step.1, m.step.2.withMemory memory') ∧
      SameOutside (D \ {a | a ∈ m.state.storesTo?}) m.step.2.state.memory memory' := by
  obtain ⟨memory', hstep, hsame⟩ := State.step_withMemory m.source h hreads
  have hother : (m.withMemory memory).state.step (m.withMemory memory).source =
      (m.state.step m.source).withMemory memory' := hstep
  refine ⟨memory', Prod.ext ?_ ?_, by rwa [state_step]⟩
  · rw [step_fst, step_fst, hother]
    rfl
  · rw [step_snd, step_snd, hother]
    rfl

/-- **Leftover memory does not matter.** If a machine looks into the mailboxes of `D` only after it
has changed them itself, then the same machine with other words in these mailboxes gives the same
answers, asks its source of numbers for the same, and lets out the same. Afterwards the machines are
the same again but for the mailboxes of `D` that have not been changed. -/
theorem steps_withMemory (h : SameOutside D m.state.memory memory) {n : Nat}
    (hreads : ∀ i < n, ∀ a ∈ (m.steps i).2.state.reads, a ∈ D → a ∈ m.written i) : ∃ memory',
      (m.withMemory memory).steps n = ((m.steps n).1, (m.steps n).2.withMemory memory') ∧
      SameOutside (D \ {a | a ∈ m.written n}) (m.steps n).2.state.memory memory' := by
  induction n generalizing m memory D with
  | zero => exact ⟨memory, rfl, h.mono fun a ha => ⟨ha, List.not_mem_nil⟩⟩
  | succ n ih =>
    have hfirst : ∀ a ∈ m.state.reads, a ∉ D := fun a ha hD =>
      List.not_mem_nil (hreads 0 (Nat.succ_pos n) a ha hD)
    obtain ⟨memory₁, hstep, hsame⟩ := step_withMemory h hfirst
    have hlater : ∀ i < n, ∀ a ∈ (m.step.2.steps i).2.state.reads,
        a ∈ D \ {a | a ∈ m.state.storesTo?} → a ∈ m.step.2.written i := by
      intro i hi a ha hD
      have hwritten := hreads (i + 1) (Nat.succ_lt_succ hi) a ha hD.1
      rcases List.mem_append.mp hwritten with hstored | hwritten
      · exact absurd (Option.mem_toList.mp hstored) hD.2
      · exact hwritten
    obtain ⟨memory', hsteps, hsame⟩ := ih hsame hlater
    refine ⟨memory', ?_, hsame.mono ?_⟩
    · rw [steps, hstep, hsteps]
      rfl
    · rintro a ⟨⟨hD, hstored⟩, hwritten⟩
      refine ⟨hD, fun hmem => ?_⟩
      rcases List.mem_append.mp hmem with hmem | hmem
      · exact hstored (Option.mem_toList.mp hmem)
      · exact hwritten hmem

/-- The accumulator is kept in mailbox 5 and taken from there again, so that what was in it does not
matter. What was in mailbox 60 stays there. -/
theorem steps_withMemory_of_kept :
    let state : State := { ({} : State).write 0 #[305, 505, 902, 0] with accumulator := 7 }
    let m : Machine SilentInput := { state, source := {}, listeners := 1 }
    let memory := (state.memory.set 5 123).set 60 999
    ∃ memory', (m.withMemory memory).steps 4 = ((m.steps 4).1, (m.steps 4).2.withMemory memory') ∧
      (m.steps 4).2.state.output = "7" ∧ memory'[5] = 7 ∧
      SameOutside {60} (m.steps 4).2.state.memory memory' := by
  intro state m memory
  have hmemory : SameOutside {a | a = 5 ∨ a = 60} m.state.memory memory := by
    intro i hi
    obtain ⟨hfive, hsixty⟩ := not_or.mp hi
    rw [Vector.getElem?_set_ne _ (Ne.symm hsixty), Vector.getElem?_set_ne _ (Ne.symm hfive)]
  have hreads : ∀ i < 4, ∀ a ∈ (m.steps i).2.state.reads, (a = 5 ∨ a = 60) → a ∈ m.written i := by
    decide +kernel
  obtain ⟨memory', hsteps, hsame⟩ := steps_withMemory hmemory hreads
  have hwritten : 5 ∈ m.written 4 := by decide +kernel
  have houtside : SameOutside {60} (m.steps 4).2.state.memory memory' := by
    refine hsame.mono ?_
    rintro a ⟨rfl | rfl, ha⟩
    · exact absurd hwritten ha
    · rfl
  have hkept : (m.steps 4).2.state.memory[5]? = some 7 := by decide +kernel
  have hfive := houtside 5 (by simp)
  rw [hkept, Vector.getElem?_eq_getElem (by decide)] at hfive
  exact ⟨memory', hsteps, by decide +kernel, Option.some.inj hfive, houtside⟩

end Machine

end LittleMan
