import LittleMan.Proofs.Machine.Hosts
import LittleMan.Proofs.Machine.Relocation

/-!
# The range of numbers

A machine that is given numbers between −999 and 999 only has no other numbers in it, however it is
used (`Machine.numbers_inRange`). Arithmetic alone brings its results back into that range, whatever
the numbers are (`Word.inRange_wrap`); all other instructions only pass numbers on. So the bound has
to be kept for accumulator, pending number and mailboxes at once (`State.InRange`), by every deed
(`Deed.inRange_effect`) and then by everything that is done with a machine
(`Machine.keepsRange_operate`).

To check the words of an assembled program it does not matter where it is to be loaded
(`Program.Linked.inRange_wordsAt_iff`).
-/

namespace LittleMan

/-! ### Numbers in range -/

/-- The number has at most three digits. -/
def Word.InRange (word : Word) : Prop := -999 ≤ word.toInt ∧ word.toInt ≤ 999

instance (word : Word) : Decidable word.InRange := inferInstanceAs (Decidable (_ ∧ _))

/-- **What arithmetic gives is in range**, whatever the exact result is. -/
theorem Word.inRange_wrap (total : Int) : (wrap total).InRange := by
  unfold InRange wrap
  rw [Int32.toInt_ofInt_of_le (by omega) (by omega)]
  omega

/-- All numbers of the state are in range. -/
structure State.InRange (s : State) : Prop where
  /-- The mailboxes, -/
  memory : ∀ (i : Nat) (word : Word), s.memory[i]? = some word → word.InRange
  /-- the accumulator -/
  accumulator : s.accumulator.InRange
  /-- and the pending number. -/
  pending : s.pending.InRange

/-! ### Supplied numbers -/

/-- The number that the source has supplied in place of the pending one, if it has. -/
def Signal.supplied? : Signal → Option Word
  | asked before after => if after = before then none else some after
  | printed _ _ | event _ | remark _ => none

/-- The number that the source has supplied in place of the pending one, if it has. -/
def Notice.supplied? : Notice → Option Word
  | asked before after => if after = before then none else some after
  | printed _ _ | heard _ _ | remark _ => none

namespace Machine

variable {σ : Type}

/-- The numbers that the source has supplied so far, in order. -/
def supplied (m : Machine σ) : List Word := m.journal.toList.filterMap Notice.supplied?

theorem supplied_signal (m : Machine σ) (signals : List Signal) :
    (m.signal signals).supplied = m.supplied ++ signals.filterMap Signal.supplied? := by
  refine m.filterMap_signal (fun signal => ?_) signals
  cases signal with
  | asked before after =>
    simp only [Signal.notices, Notice.supplied?, Signal.supplied?, List.filterMap_cons,
      List.filterMap_nil]
    split <;> simp [*]
  | event e => exact filterMap_heard (fun _ => rfl) m.listeners
  | printed appended output | remark r => rfl

/-- Reports are not about supplied numbers, and neither is the state. -/
theorem supplied_remark (m : Machine σ) (state : State) (r : MachineRemark) :
    ({ m with state }.signal [.remark r]).supplied = m.supplied := by
  rw [supplied_signal]
  exact List.append_nil _

end Machine

/-! ### Steps -/

section Step

variable {σ : Type} [NumberSource σ] {s : State}

/-- **A deed keeps the numbers in range** if those are that come into the accumulator. -/
theorem Deed.inRange_effect (hs : s.InRange) {d : Deed} {source : σ} {address : Nat}
    (hdata : ∀ data, d = .accumulate data → data.InRange)
    (hsupplied : ∀ word ∈ (d.effect s source address).signals.filterMap Signal.supplied?,
      word.InRange) : (d.effect s source address).state.InRange := by
  cases d with
  | rest | fail cause | stop | goTo target | print text =>
    exact ⟨hs.memory, hs.accumulator, hs.pending⟩
  | accumulate data => exact ⟨hs.memory, hdata data rfl, hs.pending⟩
  | store operand hoperand =>
    refine ⟨fun i word hword => ?_, hs.accumulator, hs.pending⟩
    have hword : (s.memory.set operand s.accumulator)[i]? = some word := hword
    by_cases heq : operand = i
    · subst heq
      rw [Vector.getElem?_set_self hoperand] at hword
      obtain rfl := Option.some.inj hword
      exact hs.accumulator
    · rw [Vector.getElem?_set_ne hoperand heq] at hword
      exact hs.memory i word hword
  | readNumber =>
    have hnumber : (NumberSource.ask s.pending source).1.InRange := by
      by_cases heq : (NumberSource.ask s.pending source).1 = s.pending
      · rw [heq]
        exact hs.pending
      · refine hsupplied _ ?_
        simp [effect, State.readNumber, Signal.supplied?, heq]
    exact ⟨hs.memory, hnumber, hnumber⟩

namespace State

/-- What an instruction puts into the accumulator is in range: it comes from a mailbox or from
arithmetic. -/
theorem inRange_of_deed (hs : s.InRange) {ins : Instruction} {data : Word}
    (h : s.deed ins = .accumulate data) : data.InRange := by
  cases ins with
  | add a | sub a =>
    rw [deed] at h
    cases hword : s.memory[a]? with
    | none => rw [hword] at h; cases h
    | some word =>
      rw [hword] at h
      cases h
      exact Word.inRange_wrap _
  | lda a =>
    rw [deed] at h
    cases hword : s.memory[a]? with
    | none => rw [hword] at h; cases h
    | some word =>
      rw [hword] at h
      cases h
      exact hs.memory a _ hword
  | sta a | brz a | brp a =>
    rw [deed] at h
    split at h <;> cases h
  | otc =>
    rw [deed] at h
    cases hchar : charOf? s.accumulator <;> rw [hchar] at h <;> cases h
  | hlt | bra a | inp | out => cases h

/-- Addition and subtraction put an exact result into the accumulator that has been wrapped. -/
theorem exists_deed_arithmetic (s : State) {ins : Instruction} {a : Nat}
    (h : ins = .add a ∨ ins = .sub a) (ha : a < mailboxCount) :
    ∃ total, s.deed ins = .accumulate (Word.wrap total) := by
  have hword : s.memory[a]? = some s.memory[a] := Vector.getElem?_eq_getElem ha
  rcases h with rfl | rfl
  · exact ⟨_, by rw [deed, hword]; rfl⟩
  · exact ⟨_, by rw [deed, hword]; rfl⟩

theorem InRange.ahead (hs : s.InRange) : s.ahead.InRange where
  memory := by rw [memory_ahead]; exact hs.memory
  accumulator := by rw [accumulator_ahead]; exact hs.accumulator
  pending := by rw [pending_ahead]; exact hs.pending

theorem inRange_of_stepDeed (hs : s.InRange) {data : Word}
    (h : s.stepDeed.2 = .accumulate data) : data.InRange := by
  cases s.turn with
  | stopped _ hdeed | unread _ _ hdeed =>
    rw [hdeed] at h
    cases h
  | executes _ _ hdeed =>
    rw [hdeed] at h
    exact inRange_of_deed hs.ahead h

theorem inRange_step (hs : s.InRange) {source : σ}
    (hsupplied : ∀ word ∈ (s.step source).signals.filterMap Signal.supplied?, word.InRange) :
    (s.step source).state.InRange := by
  rw [s.filterMap_signals_step source fun _ => rfl] at hsupplied
  rw [step_eq]
  exact Deed.inRange_effect hs.ahead (fun _ => inRange_of_stepDeed hs) hsupplied

theorem inRange_write (hs : s.InRange) (address : Nat) {words : Array Word}
    (hwords : ∀ word ∈ words, word.InRange) : (s.write address words).InRange where
  memory i word hword := by
    rw [getElem?_write] at hword
    obtain ⟨old, hold, rfl⟩ := Option.map_eq_some_iff.mp hword
    split
    · cases hnew : words[i - address]? with
      | none => exact hs.memory i old hold
      | some new => exact hwords new (Array.mem_of_getElem? hnew)
    · exact hs.memory i old hold
  accumulator := by rw [write]; exact hs.accumulator
  pending := by rw [write]; exact hs.pending

theorem inRange_initial : ({} : State).InRange where
  memory i word hword := by
    obtain ⟨hi, hword⟩ := Vector.getElem?_eq_some_iff.mp hword
    rw [Vector.getElem_replicate] at hword
    obtain rfl := hword
    decide
  accumulator := by decide
  pending := by decide

end State

end Step

/-! ### Loading -/

namespace Machine

variable {σ : Type} {m : Machine σ}

theorem supplied_loadWords (m : Machine σ) (words : Array Word) (address : Nat) :
    (m.loadWords words address).2.supplied = m.supplied := by
  unfold loadWords
  split
  · exact supplied_remark m _ _
  · exact supplied_remark m m.state _

theorem inRange_loadWords (h : m.state.InRange) {words : Array Word} {address : Nat}
    (hwords : address + words.size ≤ mailboxCount → ∀ word ∈ words, word.InRange) :
    (m.loadWords words address).2.state.InRange := by
  unfold loadWords
  split
  · next hfits => exact State.inRange_write h address (hwords hfits)
  · exact h

end Machine

/-! ### Programs at other addresses -/

namespace Program

theorem inRange_code_add {op : Opcode} (h : op.Refers) {address : Nat}
    (haddress : address < mailboxCount) : (op.code + Int32.ofNat address).InRange := by
  have hlt : address < 100 := haddress
  have hcode : 0 ≤ op.code.toInt ∧ op.code.toInt ≤ 800 := by
    have htakes := h.1
    cases op <;> first | decide | cases htakes
  unfold Word.InRange
  rw [Word.toInt_add_ofNat hcode.1 (by unfold Word.greatest; omega)]
  omega

/-- **Where a program is to be loaded does not matter to the range of its words**: those that are
moved have three digits anyway. -/
theorem Linked.inRange_wordsAt_iff {p : Program} (h : p.Linked) {address : Nat}
    (hfits : address + p.size ≤ mailboxCount) :
    (∀ word ∈ p.wordsAt address, word.InRange) ↔ ∀ word ∈ p.words, word.InRange := by
  have hmoved {i : Nat} {word : Word} (hword : p.words[i]? = some word) :
      (p.moveWord address i word).InRange ↔ word.InRange := by
    by_cases hi : i ∈ p.relocations
    · obtain ⟨op, target, hop, htarget, hcode⟩ := h.reference i hi
      obtain rfl := Option.some.inj (hword.symm.trans hcode)
      have hsum : op.code + Int32.ofNat target + Int32.ofNat address =
          op.code + Int32.ofNat (target + address) := by
        rw [Int32.add_assoc, Int32.ofNat_add]
      rw [moveWord_of_mem hi, hsum]
      exact iff_of_true (inRange_code_add hop (by omega)) (inRange_code_add hop (by omega))
    · rw [moveWord_of_not_mem hi]
  constructor
  · intro hall word hmem
    obtain ⟨i, hword⟩ := Array.mem_iff_getElem?.mp hmem
    refine (hmoved hword).mp (hall _ ?_)
    refine Array.mem_of_getElem? (i := i) ?_
    rw [h.getElem?_wordsAt, hword]
    rfl
  · intro hall word hmem
    obtain ⟨i, hi⟩ := Array.mem_iff_getElem?.mp hmem
    rw [h.getElem?_wordsAt] at hi
    obtain ⟨old, hold, rfl⟩ := Option.map_eq_some_iff.mp hi
    exact (hmoved hold).mpr (hall old (Array.mem_of_getElem? hold))

end Program

/-! ### Uses of machines -/

/-- What can be done with a machine. -/
inductive Operation where
  /-- Work is done by it. -/
  | work (w : Work)
  /-- It is reset. -/
  | reset

/-- The words that are put into mailboxes. -/
def Operation.loaded : Operation → List Word
  | work w => w.loaded
  | reset => []

namespace Machine

variable {σ : Type}

/-- Supplied numbers are not forgotten, and if they are in range from the first machine to the
second, no other numbers leave the range. -/
structure KeepsRange (m m' : Machine σ) : Prop where
  /-- The numbers that have been supplied before have been supplied. -/
  supplied : m.supplied <+: m'.supplied
  /-- All numbers are in range if they have been. -/
  inRange : m.state.InRange → (∀ word ∈ m'.supplied, word.InRange) → m'.state.InRange

theorem KeepsRange.refl (m : Machine σ) : m.KeepsRange m := ⟨List.prefix_rfl, fun h _ => h⟩

theorem KeepsRange.trans {m m' m'' : Machine σ} (h : m.KeepsRange m') (h' : m'.KeepsRange m'') :
    m.KeepsRange m'' where
  supplied := h.supplied.trans h'.supplied
  inRange hm hsupplied :=
    h'.inRange (h.inRange hm fun word hword => hsupplied word (h'.supplied.mem hword)) hsupplied

theorem keepsRange_loadWords (m : Machine σ) {words : Array Word} {address : Nat}
    (hwords : address + words.size ≤ mailboxCount → ∀ word ∈ words, word.InRange) :
    m.KeepsRange (m.loadWords words address).2 where
  supplied := supplied_loadWords m words address ▸ List.prefix_rfl
  inRange h _ := inRange_loadWords h hwords

variable [NumberSource σ]

/-- The machine after an operation, whatever the answer is. -/
def operate (m : Machine σ) : Operation → Machine σ
  | .work w => m.work w
  | .reset => m.reset

/-- The machine after the operations, one after the other. -/
def operates (m : Machine σ) (ops : List Operation) : Machine σ := ops.foldl operate m

theorem keepsRange_step (m : Machine σ) : m.KeepsRange m.step.2 := by
  have hsupplied : m.step.2.supplied =
      m.supplied ++ (m.state.step m.source).signals.filterMap Signal.supplied? := by
    rw [step_snd]
    exact supplied_signal ..
  refine ⟨hsupplied ▸ List.prefix_append .., fun h hrange => ?_⟩
  rw [state_step]
  refine State.inRange_step h fun word hword => hrange word ?_
  rw [hsupplied]
  exact List.mem_append_right _ hword

theorem keepsRange_steps (m : Machine σ) (n : Nat) : m.KeepsRange (m.steps n).2 := by
  induction n generalizing m with
  | zero => exact .refl m
  | succ n ih => exact m.keepsRange_step.trans (ih m.step.2)

/-- **An operation keeps the numbers in range** if the loaded ones are. -/
theorem keepsRange_operate (m : Machine σ) {op : Operation}
    (hloaded : ∀ word ∈ op.loaded, word.InRange) : m.KeepsRange (m.operate op) := by
  cases op with
  | work w =>
    cases m.worked w with
    | loads hwork hwords _ =>
      rw [operate, hwork]
      refine m.keepsRange_loadWords fun hfits word hword => hloaded word ?_
      rw [Operation.loaded, hwords hfits]
      exact Array.mem_toList_iff.mpr hword
    | makesSteps hwork =>
      rw [operate, hwork]
      exact m.keepsRange_steps w.bound
  | reset =>
    exact ⟨supplied_remark m {} .reset ▸ List.prefix_rfl, fun _ _ => State.inRange_initial⟩

/-- **Operations keep the numbers in range** if the loaded ones are. -/
theorem keepsRange_operates (m : Machine σ) {ops : List Operation}
    (hloaded : ∀ op ∈ ops, ∀ word ∈ op.loaded, word.InRange) : m.KeepsRange (m.operates ops) :=
  List.foldlRecOn ops operate (.refl m) fun m' h op hop =>
    h.trans (m'.keepsRange_operate (hloaded op hop))

variable {m : Machine σ}

/-- Arithmetic does not fail, and its result is in range. -/
theorem inRange_arithmetic {ins : Instruction} {a : Nat} (hins : ins = .add a ∨ ins = .sub a)
    (hrunning : m.state.halted = false) (h : m.state.current = .ok ins) :
    m.step.1 = .ok () ∧ m.step.2.state.accumulator.InRange := by
  have haddress : a < mailboxCount := by
    refine State.address_lt_of_current h a ?_
    rcases hins with rfl | rfl <;> rfl
  obtain ⟨total, hdeed⟩ := m.state.ahead.exists_deed_arithmetic hins haddress
  rw [← State.stepDeed_of_current hrunning h] at hdeed
  rw [step_fst, state_step, State.step_eq, hdeed]
  exact ⟨rfl, Word.inRange_wrap total⟩

/-- **The numbers in a machine stay in range.** Whatever is done with a fresh machine, if the words
that are loaded and the numbers that are supplied lie between −999 and 999, then so do accumulator,
pending number and mailboxes. And whatever numbers there are in a machine, `ADD` and `SUB` leave one
of these in the accumulator. -/
theorem numbers_inRange :
    (∀ (source : σ) (listeners : Nat) (ops : List Operation),
      let m := ({ source, listeners } : Machine σ).operates ops
      (∀ op ∈ ops, ∀ word ∈ op.loaded, word.InRange) → (∀ word ∈ m.supplied, word.InRange) →
        m.state.InRange) ∧
    ∀ (m : Machine σ) (ins : Instruction) (a : Nat), ins = .add a ∨ ins = .sub a →
      m.state.halted = false → m.state.current = .ok ins →
        m.step.1 = .ok () ∧ m.step.2.state.accumulator.InRange := by
  refine ⟨fun source listeners ops => ?_, fun m ins a => inRange_arithmetic⟩
  intro m hloaded hsupplied
  exact (keepsRange_operates _ hloaded).inRange State.inRange_initial hsupplied

/-- A sum that is one too large comes out as the smallest number, which is stored. Words that do not
fit are not loaded, so that it does not matter that they are out of range. -/
theorem numbers_inRange_of_overflow :
    let ops : List Operation := [.work (.loadWords #[901, 104, 305, 0, 1] 0),
      .work (.loadWords #[1000] 100), .work (.execute (.runAtMost 3)), .work (.execute .step)]
    let m := ({ source := { queue := [999] } } : Machine QueuedInput).operates ops
    m.state.InRange ∧ m.supplied = [999] ∧ m.state.memory[5] = -999 ∧
      ∃ before : Machine QueuedInput, before.state.current = .ok (.add 4) ∧
        before.step.2.state.accumulator.InRange := by
  intro ops m
  obtain ⟨hrange, harithmetic⟩ := numbers_inRange (σ := QueuedInput)
  have hsupplied : m.supplied = [999] := by decide +kernel
  have hinput : ∀ word ∈ m.supplied, word.InRange := by
    rw [hsupplied]
    exact List.forall_mem_singleton.mpr (by decide)
  have hwords : ops.flatMap Operation.loaded = [901, 104, 305, 0, 1] := by decide +kernel
  have hloaded : ∀ op ∈ ops, ∀ word ∈ op.loaded, word.InRange := by
    intro op hop word hword
    have hmem : word ∈ ops.flatMap Operation.loaded := List.mem_flatMap.mpr ⟨op, hop, hword⟩
    rw [hwords] at hmem
    simp only [List.mem_cons, List.not_mem_nil, or_false] at hmem
    rcases hmem with rfl | rfl | rfl | rfl | rfl <;> decide
  let before := ({ source := { queue := [999] } } : Machine QueuedInput).operates
    [.work (.loadWords #[901, 104, 305, 0, 1] 0), .work (.execute .step)]
  have hadd : before.state.current = .ok (.add 4) :=
    toOption_eq_some_iff.mp (by decide +kernel)
  exact ⟨hrange _ 0 ops hloaded hinput, hsupplied, by decide +kernel, before, hadd,
    (harithmetic before (.add 4) 4 (.inl rfl) (by decide +kernel) hadd).2⟩

end Machine

end LittleMan
