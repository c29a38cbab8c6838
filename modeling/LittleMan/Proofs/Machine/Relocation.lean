import LittleMan.Proofs.Assembly.References
import LittleMan.Proofs.Machine.Decoding
import LittleMan.Proofs.Machine.Steps

/-!
# A program at another address

The same program is loaded into two fresh machines, at address `0` and at `offset`. As long as the
first one executes only its own words, uses operands that are labels only (`Program.Confines`) and
leaves the words that hold them alone, the second does the same `offset` mailboxes further on
(`Program.steps_moved`).

`Program.Moved` relates the two states. That the words with label operands are still what they were
(`Program.Intact`) is kept along: then each of them decodes to the same instruction on both sides,
at addresses that differ by `offset`. `Program.Moved.execute` goes through the instructions,
`Program.Moved.step` adds fetching and decoding, `Program.MovedMachine.steps` is the induction.
-/

namespace LittleMan

/-! ### Moving what a machine says -/

/-- The event with the addresses in it `offset` further on. -/
def Event.moved (offset : Nat) : Event → Event
  | memory address data => memory (address + offset) data
  | jump origin target => jump (origin + offset) (target + offset)
  | accumulator data => accumulator data
  | input data => input data
  | output text => output text
  | halt => halt

/-- The failure at an address `offset` further on. -/
def MachineError.moved (offset : Nat) (e : MachineError) : MachineError :=
  ⟨e.address + offset, e.cause⟩

namespace Program

/-! ### The relation -/

/-- The second state is what the first would be if the program had been loaded at `offset`. -/
structure Moved (p : Program) (offset : Nat) (s t : State) : Prop where
  /-- The pointer is as much further on. -/
  pointer : t.pointer = s.pointer + offset
  /-- The accumulator is the same, -/
  accumulator : t.accumulator = s.accumulator
  /-- and so is whether the machine has stopped, -/
  halted : t.halted = s.halted
  /-- the number supplied last -/
  pending : t.pending = s.pending
  /-- and what has been printed. -/
  output : t.output = s.output
  /-- The words of the program are further on, and label operands have been moved along. -/
  inside : ∀ i < p.size, t.memory[i + offset]? = s.memory[i]?.map (p.moveWord offset i)
  /-- The other mailboxes are empty. -/
  outside : ∀ i < mailboxCount, i < offset ∨ offset + p.size ≤ i → t.memory[i]? = some 0

/-- The words with label operands are as they have been loaded. -/
def Intact (p : Program) (s : State) : Prop := ∀ r ∈ p.relocations, s.memory[r]? = p.words[r]?

/-- The instruction at the pointer is one of the program, its operand is a label if it has one, and
it does not use a word with a label operand as data. -/
structure Confines (p : Program) (s : State) : Prop where
  /-- The pointer is at a word of the program. -/
  pointer : s.pointer < p.size
  /-- Operands are labels. -/
  operand : ∀ ins, s.current = .ok ins → ins.address?.isSome → s.pointer ∈ p.relocations
  /-- Words with label operands are not read and not changed. -/
  data : ∀ ins, s.current = .ok ins → ∀ a ∈ ins.dataAddress?, a ∉ p.relocations

instance (p : Program) (s : State) : Decidable (p.Confines s) :=
  decidable_of_iff (s.pointer < p.size ∧ ∀ ins ∈ s.current.toOption,
      (ins.address?.isSome → s.pointer ∈ p.relocations) ∧
        ∀ a ∈ ins.dataAddress?, a ∉ p.relocations) <| by
    have hcurrent (ins : Instruction) : ins ∈ s.current.toOption ↔ s.current = .ok ins := by
      cases s.current <;> simp [Except.toOption]
    simp only [hcurrent]
    constructor
    · rintro ⟨hpointer, hins⟩
      exact ⟨hpointer, fun ins h => (hins ins h).1, fun ins h => (hins ins h).2⟩
    · intro h
      exact ⟨h.pointer, fun ins hins => ⟨h.operand ins hins, h.data ins hins⟩⟩

/-- The second effect is the first on the other side of the relation. -/
structure MovedEffect (p : Program) (offset : Nat) {σ : Type} (e e' : Effect σ) : Prop where
  /-- The states are related. -/
  state : p.Moved offset e.state e'.state
  /-- The words with label operands are still intact. -/
  intact : p.Intact e.state
  /-- The sources have been asked the same. -/
  source : e'.source = e.source
  /-- The same events are told. -/
  events : e'.signals.filterMap Signal.event? =
    (e.signals.filterMap Signal.event?).map (Event.moved offset)
  /-- The same goes wrong. -/
  failure : e'.failure = e.failure.map (MachineError.moved offset)

variable {p : Program} {offset : Nat} {s t : State} {σ : Type}

theorem moveWord_of_mem {i : Nat} (h : i ∈ p.relocations) (word : Word) :
    p.moveWord offset i word = word + Int32.ofNat offset := if_pos h

theorem moveWord_of_not_mem {i : Nat} (h : i ∉ p.relocations) (word : Word) :
    p.moveWord offset i word = word := if_neg h

/-! ### What instructions are made of -/

namespace Moved

theorem rest (h : p.Moved offset s t) (hi : p.Intact s) (source : σ) :
    p.MovedEffect offset (s.rest source) (t.rest source) where
  state := h
  intact := hi
  source := rfl
  events := rfl
  failure := rfl

theorem fail (h : p.Moved offset s t) (hi : p.Intact s) (source : σ) (address : Nat)
    (cause : MachineError.Cause) :
    p.MovedEffect offset (s.fail source address cause)
      (t.fail source (address + offset) cause) where
  state := { h with halted := rfl }
  intact := hi
  source := rfl
  events := rfl
  failure := rfl

theorem stop (h : p.Moved offset s t) (hi : p.Intact s) (source : σ) :
    p.MovedEffect offset (s.stop source) (t.stop source) where
  state := { h with halted := rfl }
  intact := hi
  source := rfl
  events := rfl
  failure := rfl

theorem accumulate (h : p.Moved offset s t) (hi : p.Intact s) (source : σ) (data : Word) :
    p.MovedEffect offset (s.accumulate source data) (t.accumulate source data) where
  state := { h with accumulator := rfl }
  intact := hi
  source := rfl
  events := rfl
  failure := rfl

theorem goTo (h : p.Moved offset s t) (hi : p.Intact s) (source : σ) (origin target : Nat) :
    p.MovedEffect offset (s.goTo source origin target)
      (t.goTo source (origin + offset) (target + offset)) where
  state := { h with pointer := rfl }
  intact := hi
  source := rfl
  events := rfl
  failure := rfl

theorem print (h : p.Moved offset s t) (hi : p.Intact s) (source : σ) (text : String) :
    p.MovedEffect offset (s.print source text) (t.print source text) where
  state := { h with output := congrArg (· ++ text) h.output }
  intact := hi
  source := rfl
  events := rfl
  failure := rfl

theorem readNumber [NumberSource σ] (h : p.Moved offset s t) (hi : p.Intact s) (source : σ) :
    p.MovedEffect offset (s.readNumber source) (t.readNumber source) where
  state := by
    have hask := congrArg (NumberSource.ask · source) h.pending
    exact { h with
      accumulator := congrArg Prod.fst hask
      pending := congrArg Prod.fst hask }
  intact := hi
  source := congrArg (fun pending => (NumberSource.ask pending source).2) h.pending
  events := by
    unfold State.readNumber
    rw [h.pending]
    rfl
  failure := rfl

theorem store (h : p.Moved offset s t) (hi : p.Intact s) (source : σ) {address : Nat}
    (hsize : address < p.size) (hdata : address ∉ p.relocations) (ha : address < mailboxCount)
    (ha' : address + offset < mailboxCount) :
    p.MovedEffect offset (s.store source address ha) (t.store source (address + offset) ha') where
  state := { h with
    inside := by
      intro i hsize
      have hinside := h.inside i hsize
      simp only [State.store, h.accumulator, Vector.getElem?_set]
      by_cases hi : address = i
      · subst hi
        rw [if_pos rfl, if_pos rfl, Option.map_some, moveWord_of_not_mem hdata]
      · rw [if_neg hi, if_neg (by omega), hinside]
    outside := by
      intro i hi hout
      simp only [State.store, Vector.getElem?_set]
      rw [if_neg (by omega)]
      exact h.outside i hi hout }
  intact := by
    intro r hr
    have hne : address ≠ r := by
      rintro rfl
      exact hdata hr
    simp only [State.store, Vector.getElem?_set]
    rw [if_neg hne]
    exact hi r hr
  source := rfl
  events := by
    simp only [State.store, h.accumulator]
    rfl
  failure := rfl

theorem exists_data (h : p.Moved offset s t) (hfit : offset + p.size ≤ mailboxCount) {address : Nat}
    (hsize : address < p.size) (hdata : address ∉ p.relocations) :
    ∃ data, s.memory[address]? = some data ∧ t.memory[address + offset]? = some data := by
  have hlt : address < mailboxCount := by omega
  refine ⟨s.memory[address], Vector.getElem?_eq_getElem hlt, ?_⟩
  rw [h.inside address hsize, Vector.getElem?_eq_getElem hlt, Option.map_some,
    moveWord_of_not_mem hdata]

/-! ### Steps -/

variable [NumberSource σ]

/-- **Executing an instruction keeps states related**: the operand is moved along on the other
side. -/
theorem execute (h : p.Moved offset s t) (hi : p.Intact s) (hfit : offset + p.size ≤ mailboxCount)
    (source : σ) (address : Nat) {ins : Instruction} (hoperand : ∀ a ∈ ins.address?, a < p.size)
    (hdata : ∀ a ∈ ins.dataAddress?, a ∉ p.relocations) :
    p.MovedEffect offset (s.execute source address ins)
      (t.execute source (address + offset) (ins.moved offset)) := by
  cases ins with
  | hlt => exact h.stop hi source
  | add a =>
    obtain ⟨data, hs, ht⟩ := h.exists_data hfit (hoperand a rfl) (hdata a rfl)
    simp only [State.execute, Instruction.moved, hs, ht, h.accumulator]
    exact h.accumulate hi source _
  | sub a =>
    obtain ⟨data, hs, ht⟩ := h.exists_data hfit (hoperand a rfl) (hdata a rfl)
    simp only [State.execute, Instruction.moved, hs, ht, h.accumulator]
    exact h.accumulate hi source _
  | sta a =>
    have hsize := hoperand a rfl
    have hlt : a < mailboxCount := by omega
    have hlt' : a + offset < mailboxCount := by omega
    simp only [State.execute, Instruction.moved, hlt, hlt', dif_pos]
    exact h.store hi source hsize (hdata a rfl) hlt hlt'
  | lda a =>
    obtain ⟨data, hs, ht⟩ := h.exists_data hfit (hoperand a rfl) (hdata a rfl)
    simp only [State.execute, Instruction.moved, hs, ht]
    exact h.accumulate hi source _
  | bra a => exact h.goTo hi source address a
  | brz a =>
    simp only [State.execute, Instruction.moved, h.accumulator]
    split
    · exact h.goTo hi source address a
    · exact h.rest hi source
  | brp a =>
    simp only [State.execute, Instruction.moved, h.accumulator]
    split
    · exact h.goTo hi source address a
    · exact h.rest hi source
  | inp => exact h.readNumber hi source
  | out =>
    have htext : t.numberText = s.numberText := by
      unfold State.numberText
      rw [h.output, h.accumulator]
    simp only [State.execute, Instruction.moved, htext]
    exact h.print hi source _
  | otc =>
    simp only [State.execute, Instruction.moved, h.accumulator]
    split
    · exact h.print hi source _
    · exact h.fail hi source address _

/-- The word of a label operand is decoded to an instruction for an address of the program, and on
the other side to the same for an address further on. -/
theorem decode_of_mem (hlinked : p.Linked) (hi : p.Intact s)
    (hfit : offset + p.size ≤ mailboxCount) {r : Nat} (hr : r ∈ p.relocations) {word : Word}
    (hword : s.memory[r]? = some word) :
    ∃ ins, Instruction.decode word = .ok ins ∧ (∀ a ∈ ins.address?, a < p.size) ∧
      Instruction.decode (p.moveWord offset r word) = .ok (ins.moved offset) := by
  obtain ⟨op, target, ⟨htakes, hdirective⟩, htarget, hcode⟩ := hlinked.reference r hr
  rw [hi r hr, hcode] at hword
  obtain rfl := Option.some.inj hword
  obtain ⟨ins, hop, hdecode⟩ := Instruction.decode_code_add htakes hdirective
    (show target < mailboxCount by omega)
  obtain ⟨ins', hop', hdecode'⟩ := Instruction.decode_code_add htakes hdirective
    (show target + offset < mailboxCount by omega)
  rw [Instruction.ofOpcode?_moved hop offset] at hop'
  obtain rfl := Option.some.inj hop'
  refine ⟨ins, hdecode, fun a ha => ?_, ?_⟩
  · rw [Instruction.address?_of_ofOpcode? hop a ha]
    exact htarget
  · rw [moveWord_of_mem hr, Int32.add_assoc, ← Int32.ofNat_add]
    exact hdecode'

/-- **A step keeps states related.** -/
theorem step (h : p.Moved offset s t) (hi : p.Intact s) (hlinked : p.Linked)
    (hfit : offset + p.size ≤ mailboxCount) (hconfined : s.halted = false → p.Confines s)
    (source : σ) : p.MovedEffect offset (s.step source) (t.step source) := by
  cases hhalted : s.halted with
  | true =>
    rw [State.step_of_halted hhalted, State.step_of_halted (h.halted.trans hhalted)]
    exact h.rest hi source
  | false =>
    have hhalted' : t.halted = false := h.halted.trans hhalted
    obtain ⟨hpointer, hoperand, hdata⟩ := hconfined hhalted
    have hlt : s.pointer < mailboxCount := by omega
    have hword : s.memory[s.pointer]? = some s.memory[s.pointer] := Vector.getElem?_eq_getElem hlt
    have hword' : t.memory[t.pointer]? =
        some (p.moveWord offset s.pointer s.memory[s.pointer]) := by
      rw [h.pointer, h.inside _ hpointer, hword]
      rfl
    -- the pointer moves on first
    have hnext : p.Moved offset { s with pointer := s.pointer + 1 }
        { t with pointer := t.pointer + 1 } :=
      { h with pointer := by rw [h.pointer, Nat.add_right_comm] }
    -- an instruction with the same effect is found on both sides
    have hexecute {ins : Instruction} (hins : Instruction.decode s.memory[s.pointer] = .ok ins)
        (hins' : Instruction.decode (p.moveWord offset s.pointer s.memory[s.pointer]) =
          .ok (ins.moved offset)) (haddress : ∀ a ∈ ins.address?, a < p.size) :
        p.MovedEffect offset (s.step source) (t.step source) := by
      have hcurrent := State.current_of_decode hword hins
      have heffect := hnext.execute hi hfit source s.pointer haddress (hdata ins hcurrent)
      rw [State.step_of_decode hhalted hword hins, State.step_of_decode hhalted' hword' hins']
      rw [← h.pointer] at heffect
      exact {
        state := heffect.state
        intact := heffect.intact
        source := heffect.source
        events := heffect.events
        failure := heffect.failure }
    by_cases hr : s.pointer ∈ p.relocations
    · obtain ⟨ins, hins, haddress, hins'⟩ := decode_of_mem hlinked hi hfit hr hword
      exact hexecute hins hins' haddress
    · rw [moveWord_of_not_mem hr] at hword' hexecute
      cases hins : Instruction.decode s.memory[s.pointer] with
      | error reason =>
        rw [State.step_of_decode_error hhalted hword hins,
          State.step_of_decode_error hhalted' hword' hins]
        have heffect := hnext.fail hi source s.pointer (.badInstruction s.memory[s.pointer] reason)
        rwa [← h.pointer] at heffect
      | ok ins =>
        have hnone : ins.address? = none := by
          have hcurrent := State.current_of_decode hword hins
          rw [← Option.not_isSome_iff_eq_none]
          exact fun hsome => hr (hoperand ins hcurrent hsome)
        refine hexecute hins ?_ (by simp [hnone])
        rw [Instruction.moved_of_address?_eq_none hnone, hins]

end Moved

/-! ### Runs -/

/-- The second machine is what the first would be if the program had been loaded at `offset`. -/
structure MovedMachine (p : Program) (offset : Nat) (m m' : Machine σ) : Prop where
  /-- The states are related. -/
  state : p.Moved offset m.state m'.state
  /-- The words with label operands are intact. -/
  intact : p.Intact m.state
  /-- The sources are the same. -/
  source : m'.source = m.source
  /-- There are as many listeners. -/
  listeners : m'.listeners = m.listeners
  /-- The listeners have been told the same. -/
  heard : ∀ listener < m.listeners,
    m'.heard listener = (m.heard listener).map (Event.moved offset)

variable [NumberSource σ]

theorem MovedMachine.step {m m' : Machine σ} (h : p.MovedMachine offset m m')
    (hlinked : p.Linked) (hfit : offset + p.size ≤ mailboxCount)
    (hconfined : m.state.halted = false → p.Confines m.state) :
    p.MovedMachine offset m.step.2 m'.step.2 ∧
      m'.step.1 = m.step.1.mapError (MachineError.moved offset) := by
  have heffect := h.state.step h.intact hlinked hfit hconfined m.source
  refine ⟨⟨?_, ?_, ?_, ?_, ?_⟩, ?_⟩
  · rw [Machine.state_step, Machine.state_step, h.source]
    exact heffect.state
  · rw [Machine.state_step]
    exact heffect.intact
  · rw [Machine.source_step, Machine.source_step, h.source]
    exact heffect.source
  · rw [Machine.listeners_step, Machine.listeners_step]
    exact h.listeners
  · intro listener hl
    rw [Machine.listeners_step] at hl
    rw [Machine.heard_step _ hl, Machine.heard_step _ (h.listeners ▸ hl), h.heard listener hl,
      h.source, heffect.events, List.map_append]
  · rw [Machine.step_fst, Machine.step_fst, h.source, heffect.failure]
    cases (m.state.step m.source).failure <;> rfl

/-- **Steps in a row keep machines related**, and their answers are the same. -/
theorem MovedMachine.steps {m m' : Machine σ} (h : p.MovedMachine offset m m')
    (hlinked : p.Linked) (hfit : offset + p.size ≤ mailboxCount) (n : Nat)
    (hconfined : ∀ i < n, (m.steps i).2.state.halted = false → p.Confines (m.steps i).2.state) :
    p.MovedMachine offset (m.steps n).2 (m'.steps n).2 ∧
      (m'.steps n).1 = (m.steps n).1.map (Except.mapError (MachineError.moved offset)) := by
  induction n generalizing m m' with
  | zero => exact ⟨h, rfl⟩
  | succ n ih =>
    obtain ⟨hstep, hanswer⟩ := h.step hlinked hfit (hconfined 0 (Nat.succ_pos n))
    obtain ⟨hsteps, hanswers⟩ := ih hstep fun i hi => hconfined (i + 1) (Nat.succ_lt_succ hi)
    refine ⟨hsteps, ?_⟩
    rw [Machine.steps, Machine.steps, List.map_cons, hanswer, hanswers]

/-! ### Fresh machines -/

omit [NumberSource σ] in
theorem loadProgram_of_fits (m : Machine σ) {address : Nat} (h : address + p.size ≤ mailboxCount) :
    m.loadProgram p address = (.ok (),
      { m with state := m.state.write address (p.wordsAt address) }.signal
        [.remark (.loaded address p.size)]) := by
  have hsize : address + (p.wordsAt address).size ≤ mailboxCount := by
    rw [size_wordsAt]
    exact h
  rw [Machine.loadProgram, if_pos h, Machine.loadWords, if_pos hsize, size_wordsAt]

/-- A fresh machine after the program has been loaded into it, with the pointer at its first
word. -/
def loadedAt (p : Program) (address : Nat) (source : σ) (listeners : Nat) : Machine σ :=
  let loaded := (({ source, listeners } : Machine σ).loadProgram p address).2
  { loaded with state := { loaded.state with pointer := address } }

omit [NumberSource σ] in
theorem loadedAt_of_fits {address : Nat} (h : address + p.size ≤ mailboxCount) (source : σ)
    (listeners : Nat) :
    p.loadedAt address source listeners = {
      state := { ({} : State).write address (p.wordsAt address) with pointer := address }
      source
      listeners
      journal := #[.remark (.loaded address p.size)] } := by
  rw [loadedAt, loadProgram_of_fits _ h]
  simp [Machine.signal, Signal.notices]

omit [NumberSource σ] in
theorem memory_loadedAt {address : Nat} (h : address + p.size ≤ mailboxCount) (source : σ)
    (listeners : Nat) {i : Nat} (hi : i < mailboxCount) :
    (p.loadedAt address source listeners).state.memory[i]? =
      some (if address ≤ i then ((p.wordsAt address)[i - address]?).getD 0 else 0) := by
  have hempty : ({} : State).memory[i]? = some 0 := Vector.getElem?_replicate_of_lt hi
  rw [loadedAt_of_fits h]
  change (({} : State).write address (p.wordsAt address)).memory[i]? = _
  rw [State.getElem?_write, hempty]
  rfl

omit [NumberSource σ] in
theorem memory_loadedAt_add (hlinked : p.Linked) (h : offset + p.size ≤ mailboxCount) (source : σ)
    (listeners : Nat) {i : Nat} (hi : i < p.size) :
    (p.loadedAt offset source listeners).state.memory[i + offset]? =
      p.words[i]?.map (p.moveWord offset i) := by
  have hword := hlinked.getElem?_wordsAt offset i
  rw [Array.getElem?_eq_getElem hi, Option.map_some] at hword
  rw [memory_loadedAt h source listeners (by omega), if_pos (Nat.le_add_left ..),
    Nat.add_sub_cancel, hword, Array.getElem?_eq_getElem hi]
  rfl

omit [NumberSource σ] in
/-- **Fresh machines with the program at `0` and at `offset` are related.** -/
theorem movedMachine_loadedAt (hlinked : p.Linked) (hfit : offset + p.size ≤ mailboxCount)
    (source : σ) (listeners : Nat) :
    p.MovedMachine offset (p.loadedAt 0 source listeners) (p.loadedAt offset source listeners) := by
  have hfit₀ : 0 + p.size ≤ mailboxCount := by omega
  have hwords {i : Nat} (hi : i < p.size) :
      (p.loadedAt 0 source listeners).state.memory[i]? = p.words[i]? := by
    rw [memory_loadedAt hfit₀ source listeners (by omega), if_pos (Nat.zero_le i), Nat.sub_zero,
      wordsAt_zero, Array.getElem?_eq_getElem hi]
    rfl
  have hinside : ∀ i < p.size, (p.loadedAt offset source listeners).state.memory[i + offset]? =
      (p.loadedAt 0 source listeners).state.memory[i]?.map (p.moveWord offset i) := by
    intro i hi
    rw [memory_loadedAt_add hlinked hfit source listeners hi, hwords hi]
  have houtside : ∀ i < mailboxCount, i < offset ∨ offset + p.size ≤ i →
      (p.loadedAt offset source listeners).state.memory[i]? = some 0 := by
    intro i hi hout
    rw [memory_loadedAt hfit source listeners hi]
    split
    · have hnone : (p.wordsAt offset)[i - offset]? = none := by
        refine Array.getElem?_eq_none ?_
        rw [size_wordsAt]
        omega
      rw [hnone]
      rfl
    · rfl
  have hintact : p.Intact (p.loadedAt 0 source listeners).state := by
    intro r hr
    obtain ⟨op, target, -, -, hcode⟩ := hlinked.reference r hr
    exact hwords (Array.getElem?_eq_some_iff.mp hcode).choose
  -- apart from the memory, fresh machines differ only in the pointer
  rw [loadedAt_of_fits hfit] at hinside houtside ⊢
  rw [loadedAt_of_fits hfit₀] at hinside hintact ⊢
  exact {
    state := {
      pointer := (Nat.zero_add offset).symm
      accumulator := rfl
      halted := rfl
      pending := rfl
      output := rfl
      inside := hinside
      outside := houtside }
    intact := hintact
    source := rfl
    listeners := rfl
    heard := fun _ _ => rfl }

/-- **Moving a program does not change what it does.** A source is assembled to a program `p` that
fits at `offset`. One machine has it at `0`, the other at `offset`, where it is loaded without a
failure, and they have the same source of numbers. As long as the first executes only words of the
program, uses only labels as operands and leaves the words that hold them alone, both do the same,
step by step: the states stay related, the sources stay the same, and answers and events are the
same but for addresses that are `offset` further on. -/
theorem steps_moved {text : String} {policy : LabelPolicy} (hp : assemble text policy = .ok p)
    (hfit : offset + p.size ≤ mailboxCount) (source : σ) (listeners n : Nat)
    (hconfined : ∀ i < n, ((p.loadedAt 0 source listeners).steps i).2.state.halted = false →
      p.Confines ((p.loadedAt 0 source listeners).steps i).2.state) :
    let first := (p.loadedAt 0 source listeners).steps n
    let second := (p.loadedAt offset source listeners).steps n
    (∀ address ∈ [0, offset],
      (({ source, listeners } : Machine σ).loadProgram p address).1 = .ok ()) ∧
      p.Moved offset first.2.state second.2.state ∧
      second.2.source = first.2.source ∧
      second.1 = first.1.map (Except.mapError (MachineError.moved offset)) ∧
      ∀ listener < listeners,
        second.2.heard listener = (first.2.heard listener).map (Event.moved offset) := by
  intro first second
  have hlinked := linked_of_assemble hp
  obtain ⟨hmoved, hanswers⟩ := (movedMachine_loadedAt hlinked hfit source listeners).steps hlinked
    hfit n hconfined
  refine ⟨fun address haddress => ?_, hmoved.state, hmoved.source, hanswers,
    fun listener hl => hmoved.heard listener ?_⟩
  · have hle : address ≤ offset := by
      rw [List.mem_cons, List.mem_singleton] at haddress
      rcases haddress with rfl | rfl
      · exact Nat.zero_le offset
      · exact Nat.le_refl address
    rw [loadProgram_of_fits _ (Nat.le_trans (Nat.add_le_add_right hle _) hfit)]
  · rw [Machine.listeners_steps, loadedAt_of_fits (by omega)]
    exact hl

/-- A program that prints the number in its last word does so at address `50` as well. -/
theorem steps_moved_of_print : ∃ p, assemble "LDA n\nOUT\nHLT\nn DAT 7" .unique = .ok p ∧
    (∀ i < 3, ((p.loadedAt 0 ({} : SilentInput) 1).steps i).2.state.halted = false →
      p.Confines ((p.loadedAt 0 ({} : SilentInput) 1).steps i).2.state) ∧
    p.Moved 50 ((p.loadedAt 0 ({} : SilentInput) 1).steps 3).2.state
      ((p.loadedAt 50 ({} : SilentInput) 1).steps 3).2.state ∧
    ((p.loadedAt 50 ({} : SilentInput) 1).steps 3).2.state.output = "7" := by
  have hok {x : Except AssemblyError Program} (h : x.toOption.isSome) :
      x = .ok (x.toOption.getD {}) := by
    cases x with
    | ok p => rfl
    | error e => cases h
  refine ⟨_, hok (by decide +kernel), ?_, ?_, ?_⟩
  · decide +kernel
  · exact (steps_moved (hok (by decide +kernel)) (by decide +kernel) _ 1 3 (by decide +kernel)).2.1
  · decide +kernel

end Program

end LittleMan
