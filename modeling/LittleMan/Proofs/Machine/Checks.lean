import LittleMan.Proofs.Machine.Failures

/-!
# Bounds

A program is broken off whose numbers leave their bounds, or that uses a mailbox that does not exist
(`Trap`). `State.stepChecked` is the step of the machine with a check wherever a mailbox is used and
wherever a number is calculated. No check ever fails, whatever is in the machine: what is calculated
with the checks is what the step does (`Machine.requestsChecked_eq`).

The checks are needed. An instruction passes those of its mailbox exactly if the mailbox exists
(`State.executeChecked_eq_iff`), and it does because decoded words name mailboxes only. The sums of
two words are far from 64 bits, and the pointer is moved on only from a mailbox, so that it never
leaves the memory by more than one (`State.pointer_step_le`).

`Machine.never_trapped` adds that looking at the instruction at the pointer tells what the next step
does: it executes that instruction, or it fails in the same way.
-/

namespace LittleMan

/-! ### Arithmetic -/

namespace Word

/-- `wrap` in numbers of 64 bits. -/
def wrapChecked (total : Int) : Checked Word := do
  let shifted ← Checked.long (total - -999)
  let wrapped ← Checked.long (shifted % 1999 + -999)
  return Int32.ofInt wrapped

/-- The number has at most 33 bits, as sums and differences of words have. -/
def SumInRange (total : Int) : Prop := -4294967296 ≤ total ∧ total ≤ 4294967296

theorem sumInRange (a b : Word) :
    SumInRange (a.toInt + b.toInt) ∧ SumInRange (a.toInt - b.toInt) := by
  have ha := a.le_toInt
  have ha' := a.toInt_lt
  have hb := b.le_toInt
  have hb' := b.toInt_lt
  unfold SumInRange
  omega

/-- **Wrapping a sum or a difference stays within 64 bits.** -/
theorem wrapChecked_eq {total : Int} (h : SumInRange total) :
    wrapChecked total = .ok (wrap total) := by
  unfold SumInRange at h
  have hshifted : Checked.long (total - -999) = .ok (total - -999) :=
    Checked.long_eq (by omega) (by omega)
  have hwrapped : Checked.long ((total - -999) % 1999 + -999) =
      .ok ((total - -999) % 1999 + -999) := Checked.long_eq (by omega) (by omega)
  rw [wrapChecked, hshifted, Checked.ok_bind, hwrapped]
  rfl

end Word

/-! ### Instructions -/

namespace State

variable {σ : Type}

/-- The word in a mailbox, which has to exist. -/
def mailbox (s : State) (address : Nat) : Checked Word :=
  match s.memory[address]? with
  | some word => .ok word
  | none => .error (.noElement address)

theorem mailbox_eq {s : State} {address : Nat} (h : address < mailboxCount) :
    s.mailbox address = .ok s.memory[address] := by
  rw [mailbox, Vector.getElem?_eq_getElem h]

theorem mailbox_eq_error {s : State} {address : Nat} (h : mailboxCount ≤ address) :
    s.mailbox address = .error (.noElement address) := by
  rw [mailbox, Vector.getElem?_eq_none h]

/-- The result of arithmetic comes into the accumulator. -/
def totalChecked (s : State) (source : σ) (total : Int) : Checked (Effect σ) := do
  let total ← Checked.long total
  let data ← Word.wrapChecked total
  return s.accumulate source data

theorem totalChecked_eq (s : State) (source : σ) {total : Int} (h : Word.SumInRange total) :
    s.totalChecked source total = .ok (s.accumulate source (Word.wrap total)) := by
  have hlong : Checked.long total = .ok total :=
    Checked.long_eq (Int.le_trans (by decide) h.1) (Int.le_trans h.2 (by decide))
  rw [totalChecked, hlong, Checked.ok_bind, Word.wrapChecked_eq h]
  rfl

/-- `execute` with checks. Only the instructions that use mailboxes have something to be checked. -/
def executeChecked [NumberSource σ] (s : State) (source : σ) (address : Nat) :
    Instruction → Checked (Effect σ)
  | .add operand => do
    let data ← s.mailbox operand
    s.totalChecked source (s.accumulator.toInt + data.toInt)
  | .sub operand => do
    let data ← s.mailbox operand
    s.totalChecked source (s.accumulator.toInt - data.toInt)
  | .sta operand =>
    if h : operand < mailboxCount then .ok (s.store source operand h)
    else .error (.noElement operand)
  | .lda operand => do
    let data ← s.mailbox operand
    return s.accumulate source data
  | ins => .ok (s.execute source address ins)

/-- `step` with checks, where addresses go up to `greatest`. -/
def stepChecked [NumberSource σ] (greatest : Nat) (s : State) (source : σ) : Checked (Effect σ) :=
  if s.halted then .ok (s.rest source)
  else
    match s.memory[s.pointer]? with
    | none => .ok (s.fail source s.pointer .noMailbox)
    | some word => do
      let next ← Checked.upTo greatest (s.pointer + 1)
      let moved := { s with pointer := next }
      match Instruction.decode word with
      | .error reason => return moved.fail source s.pointer (.badInstruction word reason)
      | .ok ins =>
        let effect ← moved.executeChecked source s.pointer ins
        return { effect with signals := .remark (.executing s.pointer word ins) :: effect.signals }

variable [NumberSource σ] {s : State} {source : σ}

/-- An instruction whose mailbox exists passes its checks. -/
theorem executeChecked_eq {ins : Instruction} (h : ∀ a ∈ ins.dataAddress?, a < mailboxCount)
    (address : Nat) : s.executeChecked source address ins = .ok (s.execute source address ins) := by
  cases ins with
  | add a =>
    have ha : a < mailboxCount := h a rfl
    simp only [executeChecked, execute, mailbox_eq ha, Vector.getElem?_eq_getElem ha]
    exact s.totalChecked_eq source (Word.sumInRange s.accumulator s.memory[a]).1
  | sub a =>
    have ha : a < mailboxCount := h a rfl
    simp only [executeChecked, execute, mailbox_eq ha, Vector.getElem?_eq_getElem ha]
    exact s.totalChecked_eq source (Word.sumInRange s.accumulator s.memory[a]).2
  | sta a =>
    have ha : a < mailboxCount := h a rfl
    simp only [executeChecked, execute, dif_pos ha]
  | lda a =>
    have ha : a < mailboxCount := h a rfl
    simp only [executeChecked, execute, mailbox_eq ha, Vector.getElem?_eq_getElem ha]
    rfl
  | hlt | bra a | brz a | brp a | inp | out | otc => rfl

/-- **An instruction passes its checks if and only if the mailbox exists that it uses.** -/
theorem executeChecked_eq_iff {ins : Instruction} {address : Nat} :
    s.executeChecked source address ins = .ok (s.execute source address ins) ↔
      ∀ a ∈ ins.dataAddress?, a < mailboxCount := by
  refine ⟨fun h a ha => Nat.lt_of_not_le fun hle => ?_, fun h => executeChecked_eq h address⟩
  cases ins with
  | add b | sub b | lda b =>
    obtain rfl := Option.some.inj ha
    simp only [executeChecked, mailbox_eq_error hle] at h
    cases h
  | sta b =>
    obtain rfl := Option.some.inj ha
    simp only [executeChecked, dif_neg (Nat.not_lt.mpr hle)] at h
    cases h
  | hlt | bra b | brz b | brp b | inp | out | otc => cases ha

/-! ### Steps -/

/-- **A step passes all its checks**, from any state. -/
theorem stepChecked_eq {greatest : Nat} (hgreatest : mailboxCount ≤ greatest) (s : State)
    (source : σ) : s.stepChecked greatest source = .ok (s.step source) := by
  unfold stepChecked step
  split
  · rfl
  · cases hword : s.memory[s.pointer]? with
    | none => rfl
    | some word =>
      have hpointer : s.pointer < mailboxCount := (Vector.getElem?_eq_some_iff.mp hword).choose
      have hnext : Checked.upTo greatest (s.pointer + 1) = .ok (s.pointer + 1) :=
        Checked.upTo_eq (Nat.le_trans hpointer hgreatest)
      dsimp only
      rw [hnext, Checked.ok_bind]
      cases hins : Instruction.decode word with
      | error reason => rfl
      | ok ins =>
        have hmailbox : ∀ a ∈ ins.dataAddress?, a < mailboxCount := fun a ha =>
          (Instruction.toInt_of_decode hins).2 a (Instruction.address?_of_dataAddress? ha)
        dsimp only
        rw [executeChecked_eq hmailbox]
        rfl

/-! ### The pointer -/

end State

/-- Of all deeds only a jump moves the pointer. -/
theorem Deed.pointer_effect {σ : Type} [NumberSource σ] (s : State) (source : σ) (address : Nat)
    (d : Deed) : (d.effect s source address).state.pointer = s.pointer ∨
      d = .goTo (d.effect s source address).state.pointer := by
  cases d with
  | goTo target => exact .inr rfl
  | rest | fail cause | stop | accumulate data | print text | store operand h | readNumber =>
    exact .inl rfl

namespace State

variable {σ : Type} [NumberSource σ] {s : State} {source : σ}

theorem address?_of_deed {ins : Instruction} {target : Nat} (h : s.deed ins = .goTo target) :
    ins.address? = some target := by
  cases ins with
  | bra a =>
    cases h
    rfl
  | brz a | brp a =>
    simp only [deed] at h
    split at h
    · cases h
      rfl
    · cases h
  | sta a =>
    simp only [deed] at h
    split at h <;> cases h
  | add a | sub a | lda a =>
    simp only [deed] at h
    cases hword : s.memory[a]? <;> rw [hword] at h <;> cases h
  | otc =>
    simp only [deed] at h
    cases hchar : charOf? s.accumulator <;> rw [hchar] at h <;> cases h
  | hlt | inp | out => cases h

theorem target_lt_of_stepDeed {target : Nat} (h : s.stepDeed.2 = .goTo target) :
    target < mailboxCount := by
  cases s.turn with
  | stopped _ hdeed | unread _ _ hdeed =>
    rw [hdeed] at h
    cases h
  | executes _ hcurrent hdeed =>
    rw [hdeed] at h
    exact address_lt_of_current hcurrent target (address?_of_deed h)

/-- **The pointer leaves the memory by one mailbox at most.** -/
theorem pointer_step_le (h : s.pointer ≤ mailboxCount) (source : σ) :
    (s.step source).state.pointer ≤ mailboxCount := by
  have hahead : s.ahead.pointer ≤ mailboxCount := by
    unfold ahead
    split
    · next hboth => exact hboth.2
    · exact h
  rw [step_eq]
  rcases Deed.pointer_effect s.ahead source s.pointer s.stepDeed.2 with hkept | hjump
  · exact Nat.le_trans (Nat.le_of_eq hkept) hahead
  · exact Nat.le_of_lt (target_lt_of_stepDeed hjump)

/-- A pointer that has left the memory stays where it is. -/
theorem pointer_step_of_le (h : mailboxCount ≤ s.pointer) (source : σ) :
    (s.step source).state.pointer = s.pointer := by
  have hahead : s.ahead = s := if_neg fun hboth => Nat.not_lt.mpr h hboth.2
  have hread := current_eq_noMailbox_iff.mpr h
  rw [step_eq, hahead]
  cases s.turn with
  | stopped _ hdeed | unread _ _ hdeed =>
    rw [hdeed]
    rfl
  | executes _ hcurrent _ =>
    rw [hcurrent] at hread
    cases hread

/-! ### Looking ahead -/

/-- The next step executes the instruction, at the pointer and with the pointer behind it, and
reports that it does. -/
def Executes (s : State) (source : σ) (ins : Instruction) : Prop :=
  ∃ word, s.memory[s.pointer]? = some word ∧ s.step source =
    let effect := { s with pointer := s.pointer + 1 }.execute source s.pointer ins
    { effect with signals := .remark (.executing s.pointer word ins) :: effect.signals }

/-- **What is seen at the pointer is executed**, and nothing else is. -/
theorem current_eq_ok_iff (hrunning : s.halted = false) {ins : Instruction} :
    s.current = .ok ins ↔ s.Executes source ins := by
  constructor
  · intro h
    obtain ⟨word, hword, hins⟩ := exists_word_of_current h
    exact ⟨word, hword, step_of_decode hrunning hword hins source⟩
  · rintro ⟨word, -, hstep⟩
    cases hcurrent : s.current with
    | ok ins' =>
      obtain ⟨word', hword', hins'⟩ := exists_word_of_current hcurrent
      rw [step_of_decode hrunning hword' hins'] at hstep
      have hsignals := congrArg Effect.signals hstep
      injection hsignals with hhead
      cases hhead
      rfl
    | error e =>
      have hread : s.current = .error ⟨s.pointer, e.cause⟩ := by
        rw [hcurrent, ← address_of_current hcurrent]
      rw [step_eq, stepDeed_of_current_error hrunning hread] at hstep
      have hsignals := congrArg Effect.signals hstep
      injection hsignals with hhead
      cases hhead

end State

/-! ### Machines -/

namespace Machine

variable {σ : Type}

/-- What a machine may be asked for. -/
inductive Request where
  /-- To execute instructions. -/
  | execute (x : Execution)
  /-- To tell the instruction at the pointer. -/
  | look

/-- The answer to a request. -/
inductive Request.Answer where
  /-- Instructions have been executed. -/
  | executed (answer : Execution.Answer)
  /-- The instruction has been told. -/
  | seen (result : Except MachineError Instruction)

variable [NumberSource σ]

/-- The answer to a request and the machine after it. -/
def request (m : Machine σ) : Request → Request.Answer × Machine σ
  | .execute x => (.executed (m.execute x).1, (m.execute x).2)
  | .look => (.seen m.state.current, m)

/-- The answers to requests, one after the other, and the machine after them. -/
def requests (m : Machine σ) (rs : List Request) : List Request.Answer × Machine σ :=
  m.askAll (M := Id) request rs

/-- `step` with checks. -/
def stepChecked (greatest : Nat) (m : Machine σ) :
    Checked (Except MachineError Unit × Machine σ) := do
  let effect ← m.state.stepChecked greatest m.source
  return m.after effect

/-- `runAtMost` with checks. -/
def runAtMostChecked (greatest : Nat) (m : Machine σ) :
    Nat → Checked (Except MachineError Bool × Machine σ)
  | 0 => .ok (.ok m.state.halted, m)
  | limit + 1 =>
    if m.state.halted then .ok (.ok true, m)
    else do
      match ← m.stepChecked greatest with
      | (.error e, stepped) => return (.error e, stepped)
      | (.ok (), stepped) => stepped.runAtMostChecked greatest limit

/-- `execute` with checks. -/
def executeChecked (greatest : Nat) (m : Machine σ) :
    Execution → Checked (Execution.Answer × Machine σ)
  | .step => do
    let (answer, stepped) ← m.stepChecked greatest
    return (.done answer, stepped)
  | .runAtMost limit => do
    let (answer, m') ← m.runAtMostChecked greatest limit
    return (.stopped answer, m')

/-- `request` with checks. There are none for looking, where a mailbox that does not exist is among
the answers. -/
def requestChecked (greatest : Nat) (m : Machine σ) : Request → Checked (Request.Answer × Machine σ)
  | .execute x => do
    let (answer, m') ← m.executeChecked greatest x
    return (.executed answer, m')
  | .look => .ok (.seen m.state.current, m)

/-- `requests` with checks. -/
def requestsChecked (greatest : Nat) (m : Machine σ) (rs : List Request) :
    Checked (List Request.Answer × Machine σ) := m.askAll (requestChecked greatest) rs

variable {greatest : Nat}

theorem stepChecked_eq (hgreatest : mailboxCount ≤ greatest) (m : Machine σ) :
    m.stepChecked greatest = .ok m.step := by
  rw [stepChecked, State.stepChecked_eq hgreatest]
  rfl

theorem runAtMostChecked_eq (hgreatest : mailboxCount ≤ greatest) (m : Machine σ) (limit : Nat) :
    m.runAtMostChecked greatest limit = .ok (m.runAtMost limit) := by
  induction limit generalizing m with
  | zero => rfl
  | succ limit ih =>
    rw [runAtMostChecked, stepChecked_eq hgreatest, Checked.ok_bind]
    cases m.next with
    | stopped h => rw [if_pos h, runAtMost_of_halted h]
    | fails h hstep _ =>
      rw [if_neg (by simp [h]), runAtMost_of_error h hstep, hstep]
      rfl
    | goesOn h hstep =>
      rw [if_neg (by simp [h]), runAtMost_of_ok h hstep, hstep]
      exact ih _

theorem executeChecked_eq (hgreatest : mailboxCount ≤ greatest) (m : Machine σ) (x : Execution) :
    m.executeChecked greatest x = .ok (m.execute x) := by
  cases x with
  | step =>
    rw [executeChecked, stepChecked_eq hgreatest]
    rfl
  | runAtMost limit =>
    rw [executeChecked, runAtMostChecked_eq hgreatest]
    rfl

theorem requestChecked_eq (hgreatest : mailboxCount ≤ greatest) (m : Machine σ) (r : Request) :
    m.requestChecked greatest r = .ok (m.request r) := by
  cases r with
  | look => rfl
  | execute x =>
    rw [requestChecked, executeChecked_eq hgreatest]
    rfl

/-- **No check ever fails**, in any state of the machine. -/
theorem requestsChecked_eq (hgreatest : mailboxCount ≤ greatest) (m : Machine σ)
    (rs : List Request) : m.requestsChecked greatest rs = .ok (m.requests rs) :=
  askAll_eq_pure (requestChecked_eq hgreatest) m rs

/-- **Nothing in a machine makes it go wrong.** Whatever is in its mailboxes and registers, wherever
its pointer is and whatever its source supplies, it makes steps, one or up to a number of them, and
tells the instruction at its pointer, as often as it is asked to, without using a mailbox that does
not exist and without a number that leaves its bounds, if addresses go up to the number of mailboxes
at least. A step leaves the memory by one mailbox at most, and does not move a pointer that has left
it. If the machine is running and its pointer at a mailbox, the instruction that is told is the one
that the next step executes, and the word there is found to be no instruction if and only if the
step fails for that reason. If the pointer is not at a mailbox, both fail. -/
theorem never_trapped (hgreatest : mailboxCount ≤ greatest) (m : Machine σ) :
    (∀ rs, m.requestsChecked greatest rs = .ok (m.requests rs)) ∧
    (m.state.pointer ≤ mailboxCount → m.step.2.state.pointer ≤ mailboxCount) ∧
    (mailboxCount ≤ m.state.pointer → m.step.2.state.pointer = m.state.pointer) ∧
    (m.state.halted = false → m.state.pointer < mailboxCount →
      (∀ ins, m.state.current = .ok ins ↔ m.state.Executes m.source ins) ∧
      (∀ e, m.state.current = .error e → ∃ word reason, e.cause = .badInstruction word reason) ∧
      ∀ address word reason,
        m.state.current = .error ⟨address, .badInstruction word reason⟩ ↔
          m.step.1 = .error ⟨address, .badInstruction word reason⟩) ∧
    (m.state.halted = false → mailboxCount ≤ m.state.pointer →
      m.state.current = .error ⟨m.state.pointer, .noMailbox⟩ ∧
        m.step.1 = .error ⟨m.state.pointer, .noMailbox⟩) := by
  refine ⟨requestsChecked_eq hgreatest m, ?_, ?_, fun hrunning hpointer => ⟨?_, ?_, ?_⟩,
    fun hrunning hpointer => ?_⟩
  · rw [state_step]
    exact fun h => m.state.pointer_step_le h m.source
  · rw [state_step]
    exact fun h => m.state.pointer_step_of_le h m.source
  · exact fun ins => State.current_eq_ok_iff hrunning
  · exact fun e => State.exists_badInstruction_of_current hpointer
  · intro address word reason
    rw [step_fst_eq_error_iff, State.failure_step_iff, State.fails_badInstruction_iff]
    constructor
    · intro h
      obtain rfl : address = m.state.pointer := State.address_of_current h
      exact ⟨hrunning, h, rfl⟩
    · rintro ⟨-, h, rfl⟩
      exact h
  · have hcurrent := State.current_eq_noMailbox_iff.mpr hpointer
    exact ⟨hcurrent, step_fst_eq_error_iff.mpr (State.failure_step_iff.mpr
      ⟨hrunning, .reading hcurrent, rfl⟩)⟩

/-- The greatest numbers are added, the smallest is subtracted, a word is no instruction; and a
pointer is at the greatest address. -/
theorem never_trapped_of_extremes :
    let greatest := 18446744073709551615
    let s : State := { ({} : State).write 0 #[103, 204, 1000, 2147483647, -2147483648] with
      accumulator := 2147483647 }
    let m : Machine SilentInput := { state := s, source := {} }
    let far : Machine SilentInput := { state := { s with pointer := greatest }, source := {} }
    let requests := [.execute .step, .look, .execute (.runAtMost 1), .look, .execute .step]
    m.requestsChecked greatest requests = .ok (m.requests requests) ∧
    (m.requests requests).2.state.accumulator = -221 ∧
    m.state.Executes m.source (.add 3) ∧ m.step.2.state.pointer ≤ mailboxCount ∧
    (m.steps 2).2.state.current = .error ⟨2, .badInstruction 1000 .outOfRange⟩ ∧
    far.step.2.state.pointer = greatest ∧ far.step.1 = .error ⟨greatest, .noMailbox⟩ := by
  intro greatest s m far requests
  have hgreatest : mailboxCount ≤ greatest := by decide
  obtain ⟨hchecked, hpointer, -, hlook, -⟩ := never_trapped hgreatest m
  obtain ⟨-, -, hfar, -, hfails⟩ := never_trapped hgreatest far
  obtain ⟨-, -, -, hbad, -⟩ := never_trapped hgreatest (m.steps 2).2
  have hword : m.state.memory[m.state.pointer]? = some 103 := by decide +kernel
  have hadd : m.state.current = .ok (.add 3) := State.current_of_decode hword rfl
  have hfailure : (m.steps 2).2.step.1 = .error ⟨2, .badInstruction 1000 .outOfRange⟩ :=
    step_fst_eq_error_iff.mpr (by decide +kernel)
  exact ⟨hchecked _, by decide +kernel, ((hlook rfl (by decide)).1 _).mp hadd, hpointer (by decide),
    ((hbad (by decide +kernel) (by decide +kernel)).2.2 _ _ _).mpr hfailure,
    hfar (by decide), (hfails rfl (by decide)).2⟩

end Machine

end LittleMan
