import LittleMan.Proofs.Machine.NumberRange
import Mathlib.Algebra.BigOperators.Group.List.Basic
import Mathlib.Algebra.Ring.Int.Defs

/-!
# Sums

`ADD` and `SUB` bring every result back into the range from −999 to 999. A row of them leaves the
exact sum in the accumulator, brought into that range once (`Machine.sums_wrapped_once`): it does
not matter that the results in between have been wrapped, nor in which order the instructions stand,
and accumulator and mailboxes may hold any words before.

A row is given by what it adds and takes away (`Summand`), which any row of these instructions in the
memory can be (`CodeAt.exists_summands`). Its instructions are executed where they stand in the
mailboxes (`Machine.runAtMost`) or, however many they are, from a list (`State.executeAll`).

Wrapping only takes multiples of 1999 away (`Word.eq_wrap_iff`), so that a result that has been
wrapped can stand for the exact one (`Word.wrap_wrap_add`). The machine is followed without a look
at the numbers: what a row of instructions does is to add a list of them, each result being wrapped
(`State.added`), and it is left to `Word.addAll_eq_wrap` to say what that comes to.
-/

namespace LittleMan

/-! ### Wrapping -/

namespace Word

theorem toInt_wrap (total : Int) : (wrap total).toInt = (total + 999) % 1999 - 999 :=
  Int32.toInt_ofInt_of_le (by omega) (by omega)

/-- **The wrapped number is the only one in range** that differs by a multiple of 1999. -/
theorem eq_wrap_iff {word : Word} {total : Int} :
    word = wrap total ↔ word.InRange ∧ word.toInt % 1999 = total % 1999 := by
  rw [← Int32.toInt_inj, toInt_wrap, InRange]
  omega

/-- A result that has been wrapped can stand for the exact one. -/
theorem wrap_wrap_add (total value : Int) :
    wrap ((wrap total).toInt + value) = wrap (total + value) := by
  refine eq_wrap_iff.mpr ⟨inRange_wrap _, ?_⟩
  rw [toInt_wrap, toInt_wrap]
  omega

/-- The word with numbers added to it one after the other, each result being wrapped. -/
def addAll (word : Word) (values : List Int) : Word :=
  values.foldl (fun sum value => wrap (sum.toInt + value)) word

/-- **It makes no difference that each result is wrapped**, rather than only the last one. -/
theorem addAll_eq_wrap (word : Word) {values : List Int} (h : values ≠ []) :
    word.addAll values = wrap (word.toInt + values.sum) := by
  induction values generalizing word with
  | nil => exact absurd rfl h
  | cons value values ih =>
    cases values with
    | nil => rw [List.sum_singleton]; rfl
    | cons next values =>
      calc word.addAll (value :: next :: values)
        _ = (wrap (word.toInt + value)).addAll (next :: values) := rfl
        _ = wrap ((wrap (word.toInt + value)).toInt + (next :: values).sum) :=
          ih _ (List.cons_ne_nil _ _)
        _ = wrap (word.toInt + value + (next :: values).sum) := wrap_wrap_add ..
        _ = wrap (word.toInt + (value :: next :: values).sum) := by
          rw [Int.add_assoc, List.sum_cons (a := value)]

end Word

/-! ### Rows of instructions -/

/-- A mailbox whose content is added or taken away. -/
inductive Summand where
  /-- The content is added. -/
  | plus (address : Fin mailboxCount)
  /-- The content is taken away. -/
  | minus (address : Fin mailboxCount)
  deriving DecidableEq, Repr

namespace Summand

/-- The instruction that adds the content or takes it away. -/
def instruction : Summand → Instruction
  | plus a => .add a
  | minus a => .sub a

/-- The mailbox. -/
def address : Summand → Fin mailboxCount
  | plus a | minus a => a

/-- What is added on the whole. -/
def value (memory : Vector Word mailboxCount) : Summand → Int
  | plus a => (memory.get a).toInt
  | minus a => -(memory.get a).toInt

theorem value_congr {memory memory' : Vector Word mailboxCount} {t : Summand}
    (h : memory'[t.address] = memory[t.address]) : t.value memory' = t.value memory := by
  cases t with
  | plus a => exact congrArg Int32.toInt h
  | minus a => exact congrArg (fun word => -Int32.toInt word) h

end Summand

/-- The instructions are in the mailboxes from an address on. -/
def CodeAt (memory : Vector Word mailboxCount) : Nat → List Instruction → Prop
  | _, [] => True
  | address, ins :: code =>
    (∃ word, memory[address]? = some word ∧ Instruction.decode word = .ok ins) ∧
      CodeAt memory (address + 1) code

/-- **Every row of `ADD` and `SUB` in the memory is one of summands.** -/
theorem CodeAt.exists_summands {memory : Vector Word mailboxCount} {address : Nat}
    {code : List Instruction} (h : CodeAt memory address code)
    (hcode : ∀ ins ∈ code, ∃ a, ins = .add a ∨ ins = .sub a) :
    ∃ terms : List Summand, terms.map Summand.instruction = code := by
  induction code generalizing address with
  | nil => exact ⟨[], rfl⟩
  | cons ins code ih =>
    obtain ⟨⟨word, -, hins⟩, hbehind⟩ := h
    obtain ⟨⟨a, hsum⟩, hsums⟩ := List.forall_mem_cons.mp hcode
    obtain ⟨terms, rfl⟩ := ih hbehind hsums
    have haddress := (Instruction.toInt_of_decode hins).2
    rcases hsum with rfl | rfl
    · exact ⟨.plus ⟨a, haddress a rfl⟩ :: terms, rfl⟩
    · exact ⟨.minus ⟨a, haddress a rfl⟩ :: terms, rfl⟩

namespace State

/-- The exact sum of the accumulator and the summands. -/
def total (s : State) (terms : List Summand) : Int :=
  s.accumulator.toInt + (terms.map (Summand.value s.memory)).sum

/-- The sum depends neither on the order of the summands nor on other mailboxes. -/
theorem total_eq_of_perm {s s' : State} {terms terms' : List Summand} (h : terms'.Perm terms)
    (haccumulator : s'.accumulator = s.accumulator)
    (hmemory : ∀ t ∈ terms, s'.memory[t.address] = s.memory[t.address]) :
    s'.total terms' = s.total terms := by
  have hvalues : terms.map (Summand.value s'.memory) = terms.map (Summand.value s.memory) :=
    List.map_congr_left fun t ht => Summand.value_congr (hmemory t ht)
  rw [total, total, haccumulator, (h.map _).sum_eq, hvalues]

/-- The state behind a row of instructions that have added the summands. -/
def added (s : State) (terms : List Summand) : State :=
  { s with
    pointer := s.pointer + terms.length
    accumulator := s.accumulator.addAll (terms.map (Summand.value s.memory)) }

theorem added_cons (s : State) (t : Summand) (terms : List Summand) :
    s.added (t :: terms) = (s.added [t]).added terms := by
  have hpointer : s.pointer + (terms.length + 1) = s.pointer + 1 + terms.length := by omega
  rw [added, List.length_cons, hpointer]
  rfl

/-- **Behind the row is the exact sum, wrapped once.** -/
theorem added_eq (s : State) {terms : List Summand} (h : terms ≠ []) :
    s.added terms = { s with
      pointer := s.pointer + terms.length
      accumulator := Word.wrap (s.total terms) } := by
  rw [added, Word.addAll_eq_wrap _ (mt List.map_eq_nil_iff.mp h), total]

variable {σ : Type} [NumberSource σ]

theorem execute_instruction (s : State) (source : σ) (address : Nat) (t : Summand) :
    s.execute source address t.instruction =
      s.accumulate source (s.accumulator.addAll [t.value s.memory]) := by
  cases t with
  | plus a =>
    simp only [Summand.instruction, execute, Vector.getElem?_eq_getElem a.isLt]
    rfl
  | minus a =>
    simp only [Summand.instruction, execute, Vector.getElem?_eq_getElem a.isLt,
      Int.sub_eq_add_neg]
    rfl

/-- What the instructions do when they are executed one after the other, each of them at the pointer
and with the pointer behind it, up to the first one that fails. There may be more of them than there
are mailboxes. -/
def executeAll (s : State) (source : σ) : List Instruction → Effect σ
  | [] => s.rest source
  | ins :: code =>
    let effect := { s with pointer := s.pointer + 1 }.execute source s.pointer ins
    match effect.failure with
    | some _ => effect
    | none =>
      let later := effect.state.executeAll effect.source code
      { later with signals := effect.signals ++ later.signals }

/-- **The instructions of summands add them**, one after the other. -/
theorem executeAll_instructions (s : State) (source : σ) (terms : List Summand) :
    let effect := s.executeAll source (terms.map Summand.instruction)
    effect.state = s.added terms ∧ effect.source = source ∧ effect.failure = none := by
  induction terms generalizing s with
  | nil => exact ⟨rfl, rfl, rfl⟩
  | cons t terms ih =>
    rw [List.map_cons, executeAll, execute_instruction, added_cons]
    exact ih (s.added [t])

end State

/-! ### Machines -/

namespace Machine

variable {σ : Type} [NumberSource σ] {m : Machine σ}

/-- A step at the instruction of a summand adds it. -/
theorem step_of_summand (hrunning : m.state.halted = false) {word : Word} {t : Summand}
    (hword : m.state.memory[m.state.pointer]? = some word)
    (ht : Instruction.decode word = .ok t.instruction) :
    m.step.1 = .ok () ∧ m.step.2.state = m.state.added [t] ∧ m.step.2.source = m.source := by
  rw [step_fst, state_step, source_step, State.step_of_decode hrunning hword ht,
    State.execute_instruction]
  exact ⟨rfl, rfl, rfl⟩

/-- **A run along the instructions of summands adds them.** -/
theorem runAtMost_of_codeAt {terms : List Summand} (hrunning : m.state.halted = false)
    (hcode : CodeAt m.state.memory m.state.pointer (terms.map Summand.instruction)) :
    let run := m.runAtMost terms.length
    run.1 = .ok false ∧ run.2.state = m.state.added terms ∧ run.2.source = m.source := by
  induction terms generalizing m with
  | nil => exact ⟨congrArg Except.ok hrunning, rfl, rfl⟩
  | cons t terms ih =>
    obtain ⟨⟨word, hword, ht⟩, hbehind⟩ := hcode
    obtain ⟨hanswer, hstate, hsource⟩ := step_of_summand hrunning hword ht
    have hrunning' : m.step.2.state.halted = false := by rw [hstate]; exact hrunning
    obtain ⟨hrun, hstates, hsources⟩ := ih hrunning' (by rw [hstate]; exact hbehind)
    rw [hstate, ← State.added_cons] at hstates
    rw [hsource] at hsources
    rw [List.length_cons, runAtMost_of_ok hrunning (Prod.ext hanswer rfl)]
    exact ⟨hrun, hstates, hsources⟩

/-- **Sums are exact up to multiples of 1999.** A row of `ADD` and `SUB`, whether it is in the
mailboxes or longer than these, adds to the accumulator and takes from it whatever words the named
mailboxes hold. It does not fail, and leaves in the accumulator the exact sum, wrapped once, which
is the only number between −999 and 999 that differs from the exact sum by a multiple of 1999; but
for the pointer, which is behind the row then, nothing else has changed. The same instructions in
any other order lead to the same state, and another machine that has them in its mailboxes in any
order comes to the same sum, if its accumulator and the named mailboxes hold the same words before.
-/
theorem sums_wrapped_once (m : Machine σ) {terms : List Summand} (hterms : terms ≠ []) :
    let sum := Word.wrap (m.state.total terms)
    let behind : State :=
      { m.state with pointer := m.state.pointer + terms.length, accumulator := sum }
    (∀ word : Word,
      word = sum ↔ word.InRange ∧ word.toInt % 1999 = m.state.total terms % 1999) ∧
    (∀ terms' : List Summand, terms'.Perm terms →
      let effect := m.state.executeAll m.source (terms'.map Summand.instruction)
      effect.state = behind ∧ effect.source = m.source ∧ effect.failure = none) ∧
    (m.state.halted = false →
      CodeAt m.state.memory m.state.pointer (terms.map Summand.instruction) →
        let run := m.runAtMost terms.length
        run.1 = .ok false ∧ run.2.state = behind ∧ run.2.source = m.source) ∧
    ∀ (m' : Machine σ) (terms' : List Summand), terms'.Perm terms →
      m'.state.accumulator = m.state.accumulator →
      (∀ t ∈ terms, m'.state.memory[t.address] = m.state.memory[t.address]) →
      m'.state.halted = false →
      CodeAt m'.state.memory m'.state.pointer (terms'.map Summand.instruction) →
        let run := m'.runAtMost terms'.length
        run.1 = .ok false ∧ run.2.state.accumulator = sum := by
  have hordered {terms' : List Summand} (hperm : terms'.Perm terms) : terms' ≠ [] := by
    rintro rfl
    exact hterms (List.nil_perm.mp hperm)
  intro sum behind
  refine ⟨fun word => Word.eq_wrap_iff, ?_, ?_, ?_⟩
  · intro terms' hperm
    have htotal : m.state.total terms' = m.state.total terms :=
      State.total_eq_of_perm hperm rfl fun _ _ => rfl
    have hbehind : m.state.added terms' = behind := by
      rw [m.state.added_eq (hordered hperm), hperm.length_eq, htotal]
    rw [← hbehind]
    exact m.state.executeAll_instructions m.source terms'
  · intro hrunning hcode
    have hbehind : m.state.added terms = behind := m.state.added_eq hterms
    rw [← hbehind]
    exact runAtMost_of_codeAt hrunning hcode
  · intro m' terms' hperm haccumulator hmemory hrunning hcode
    obtain ⟨hanswer, hstate, -⟩ := runAtMost_of_codeAt hrunning hcode
    rw [m'.state.added_eq (hordered hperm),
      State.total_eq_of_perm hperm haccumulator hmemory] at hstate
    exact ⟨hanswer, congrArg State.accumulator hstate⟩

/-- The extremes of the words are added and taken away, in two orders and at two places. -/
theorem sums_wrapped_once_of_extremes :
    let numbers : State :=
      { ({} : State).write 10 #[2147483647, -2147483648] with accumulator := -2147483648 }
    let m : Machine SilentInput := { state := numbers.write 0 #[110, 211, 110], source := {} }
    let m' : Machine SilentInput :=
      { state := { numbers.write 20 #[211, 110, 110] with pointer := 20 }, source := {} }
    let sum := Word.wrap 4294967294
    sum = -148 ∧ (∀ word : Word, word = sum ↔ word.InRange ∧ word.toInt % 1999 = 1851) ∧
      (m.runAtMost 3).2.state.accumulator = sum ∧
      (m'.runAtMost 3).1 = .ok false ∧ (m'.runAtMost 3).2.state.accumulator = sum ∧
      (m.state.executeAll m.source [.sub 11, .add 10, .add 10]).state.accumulator = sum := by
  intro numbers m m' sum
  let first : Summand := .plus ⟨10, by decide⟩
  let second : Summand := .minus ⟨11, by decide⟩
  have htotal : m.state.total [first, second, first] = 4294967294 := by decide +kernel
  have hcode : CodeAt m.state.memory 0 [.add 10, .sub 11, .add 10] :=
    ⟨⟨110, by decide +kernel, rfl⟩, ⟨211, by decide +kernel, rfl⟩,
      ⟨110, by decide +kernel, rfl⟩, trivial⟩
  have hcode' : CodeAt m'.state.memory 20 [.sub 11, .add 10, .add 10] :=
    ⟨⟨211, by decide +kernel, rfl⟩, ⟨110, by decide +kernel, rfl⟩,
      ⟨110, by decide +kernel, rfl⟩, trivial⟩
  have hperm : [second, first, first].Perm [first, second, first] := .swap ..
  have hlength : [second, first, first].length = 3 := rfl
  have hterms : [first, second, first] ≠ [] := List.cons_ne_nil _ _
  obtain ⟨hunique, hall, hrun, horders⟩ := sums_wrapped_once m hterms
  obtain ⟨-, hstate, -⟩ := hrun rfl hcode
  obtain ⟨hanswer, haccumulator⟩ :=
    horders m' [second, first, first] hperm rfl (by decide +kernel) rfl hcode'
  rw [hlength] at hanswer haccumulator
  rw [← hperm.length_eq, hlength] at hstate
  rw [htotal] at hunique hstate haccumulator hall
  exact ⟨by decide, hunique, congrArg State.accumulator hstate, hanswer, haccumulator,
    congrArg State.accumulator (hall _ hperm).1⟩

end Machine

end LittleMan
