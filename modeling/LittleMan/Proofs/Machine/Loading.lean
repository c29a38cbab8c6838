import LittleMan.Proofs.Machine.Checks
import LittleMan.Proofs.Machine.NumberRange

/-!
# Loading

Loading is all or nothing (`Machine.Loads`). If the words fit into the memory they are put there and
nothing else changes; if they do not, nothing changes at all, and the failure is at the first
mailbox that is needed and does not exist. For a program the words are those of the program with the
address added where the operand is a label, and these are in the same way loaded or not
(`Machine.loads_allOrNothing`).

Where numbers are bounded (`Trap`) loading has to be careful: address and size may have no sum,
words are copied into a part of the memory that has to exist and to be of their size, and a program
is moved before that, word by word. `Machine.loadWordsChecked` and `Machine.loadProgramChecked` are
loading with these checks, none of which fails: a sum that is too great is that of words that do not
fit, and the words to be moved are words of the program, three digits each
(`Program.Linked.wordsAtChecked_eq`).
-/

namespace LittleMan

/-! ### Moving programs with checks -/

namespace Program

/-- `shiftWord` with checks: the word has to exist, and its sum with the offset has to be a word. -/
def shiftWordChecked (offset : Nat) (words : Array Word) (address : Nat) : Checked (Array Word) :=
  match words[address]? with
  | none => .error (.noElement address)
  | some word =>
    match Word.ofInt? (word.toInt + (Int32.ofNat offset).toInt) with
    | none => .error (.overflow (word.toInt + (Int32.ofNat offset).toInt))
    | some sum => .ok (words.setIfInBounds address sum)

/-- `wordsAt` with checks. -/
def wordsAtChecked (p : Program) (offset : Nat) : Checked (Array Word) :=
  p.relocations.foldlM (shiftWordChecked offset) p.words

theorem shiftWordChecked_eq {offset : Nat} (hoffset : offset ≤ mailboxCount) {words : Array Word}
    {address : Nat} {word : Word} (hword : words[address]? = some word) (hrange : word.InRange) :
    shiftWordChecked offset words address = .ok (shiftWord offset words address) := by
  have hle : offset ≤ 100 := hoffset
  obtain ⟨hlower, hupper⟩ := hrange
  have hshift : (Int32.ofNat offset).toInt = offset := Int32.toInt_ofNat_of_lt (by omega)
  have hsum : (word + Int32.ofNat offset).toInt = word.toInt + (Int32.ofNat offset).toInt := by
    rw [hshift, Int32.toInt_add, hshift]
    exact Int.bmod_eq_of_le_mul_two (by omega) (by omega)
  have hset : words.setIfInBounds address (word + Int32.ofNat offset) =
      shiftWord offset words address := by
    refine Array.ext_getElem? fun i => ?_
    by_cases hi : i = address
    · subst hi
      rw [getElem?_shiftWord_self, hword]
      exact Array.getElem?_setIfInBounds_self_of_lt (Array.getElem?_eq_some_iff.mp hword).choose
    · rw [getElem?_shiftWord_of_ne _ _ hi, Array.getElem?_setIfInBounds_ne (Ne.symm hi)]
  simp only [shiftWordChecked, hword, Word.ofInt?_eq_some_iff.mpr hsum, hset]

theorem foldlM_shiftWordChecked {offset : Nat} (hoffset : offset ≤ mailboxCount)
    {addresses : List Nat} (hnodup : addresses.Nodup) {words : Array Word}
    (h : ∀ a ∈ addresses, ∃ word, words[a]? = some word ∧ word.InRange) :
    addresses.foldlM (shiftWordChecked offset) words =
      .ok (addresses.foldl (shiftWord offset) words) := by
  induction addresses generalizing words with
  | nil => rfl
  | cons a addresses ih =>
    obtain ⟨ha, hnodup⟩ := List.nodup_cons.mp hnodup
    obtain ⟨⟨word, hword, hrange⟩, hrest⟩ := List.forall_mem_cons.mp h
    rw [List.foldlM_cons, shiftWordChecked_eq hoffset hword hrange, Checked.ok_bind,
      List.foldl_cons]
    refine ih hnodup fun b hb => ?_
    have hne : b ≠ a := fun heq => ha (heq ▸ hb)
    obtain ⟨word, hword, hrange⟩ := hrest b hb
    exact ⟨word, (getElem?_shiftWord_of_ne _ _ hne).trans hword, hrange⟩

namespace Linked

variable {p : Program} {address : Nat}

theorem exists_word (h : p.Linked) (hfits : address + p.size ≤ mailboxCount) :
    ∀ r ∈ p.relocations, ∃ word, p.words[r]? = some word ∧ word.InRange ∧ 0 ≤ word.toInt := by
  intro r hr
  obtain ⟨op, target, hop, htarget, hword⟩ := h.reference r hr
  have hlt : target < mailboxCount := by omega
  have hsmall : target < 100 := hlt
  obtain ⟨hlower, hupper⟩ := Instruction.toInt_code_le op
  refine ⟨_, hword, inRange_code_add hop hlt, ?_⟩
  rw [Word.toInt_add_ofNat hlower (by unfold Word.greatest; omega)]
  omega

/-- **A program that fits is moved without a failing check.** -/
theorem wordsAtChecked_eq (h : p.Linked) (hfits : address + p.size ≤ mailboxCount) :
    p.wordsAtChecked address = .ok (p.wordsAt address) := by
  refine foldlM_shiftWordChecked (Nat.le_trans (Nat.le_add_right ..) hfits)
    (h.sorted.imp fun hlt => Nat.ne_of_lt hlt) fun r hr => ?_
  obtain ⟨word, hword, hrange, -⟩ := h.exists_word hfits r hr
  exact ⟨word, hword, hrange⟩

/-- **What is moved is increased by the address**, and nothing else is. -/
theorem toInt_wordsAt (h : p.Linked) (hfits : address + p.size ≤ mailboxCount) {i : Nat}
    {word : Word} (hword : p.words[i]? = some word) :
    ∃ moved, (p.wordsAt address)[i]? = some moved ∧
      moved.toInt = word.toInt + if i ∈ p.relocations then (address : Int) else 0 := by
  refine ⟨p.moveWord address i word, by rw [h.getElem?_wordsAt, hword]; rfl, ?_⟩
  by_cases hi : i ∈ p.relocations
  · obtain ⟨word', hword', ⟨-, hupper⟩, hlower⟩ := h.exists_word hfits i hi
    obtain rfl := Option.some.inj (hword.symm.trans hword')
    have hle : address ≤ 100 := Nat.le_trans (Nat.le_add_right ..) hfits
    rw [moveWord_of_mem hi, if_pos hi]
    exact Word.toInt_add_ofNat hlower (by unfold Word.greatest; omega)
  · rw [moveWord_of_not_mem hi, if_neg hi]
    exact (Int.add_zero _).symm

end Linked

end Program

/-! ### Loading with checks -/

/-- The address behind that many words from `address` on, if there is one and it is not outside of
the memory. -/
def behind? (greatest address size : Nat) : Option Nat :=
  (Checked.upTo greatest (address + size)).toOption.filter (· ≤ mailboxCount)

theorem behind?_of_fits {greatest address size : Nat} (hgreatest : mailboxCount ≤ greatest)
    (h : address + size ≤ mailboxCount) :
    behind? greatest address size = some (address + size) := by
  rw [behind?, Checked.upTo_eq (Nat.le_trans h hgreatest)]
  simpa [Except.toOption] using h

theorem behind?_of_not_fits {greatest address size : Nat} (h : ¬ address + size ≤ mailboxCount) :
    behind? greatest address size = none := by
  unfold behind? Checked.upTo
  split
  · simpa [Except.toOption] using h
  · rfl

/-- `write` with checks: the mailboxes before `stop` have to exist, and to be as many as the words.
-/
def State.writeChecked (s : State) (address stop : Nat) (words : Array Word) : Checked State :=
  if address ≤ stop ∧ stop ≤ mailboxCount ∧ words.size = stop - address then
    .ok (s.write address words)
  else .error (.noElement stop)

namespace Machine

variable {σ : Type} {greatest : Nat}

/-- `loadWords` with checks, where addresses go up to `greatest`. -/
def loadWordsChecked (greatest : Nat) (m : Machine σ) (words : Array Word) (address : Nat) :
    Checked (Except MachineError Unit × Machine σ) :=
  match behind? greatest address words.size with
  | some stop => do
    let state ← m.state.writeChecked address stop words
    return (.ok (), { m with state }.signal [.remark (.loaded address words.size)])
  | none => .ok (.error ⟨max address mailboxCount, .noMailbox⟩,
      m.signal [.remark (.doesNotFit address words.size)])

/-- `loadProgram` with checks, where addresses go up to `greatest`. -/
def loadProgramChecked (greatest : Nat) (m : Machine σ) (p : Program) (address : Nat) :
    Checked (Except MachineError Unit × Machine σ) :=
  match behind? greatest address p.size with
  | some _ => do
    let words ← p.wordsAtChecked address
    m.loadWordsChecked greatest words address
  | none => m.loadWordsChecked greatest p.words address

/-- **Loading words fails no check**, whatever the address is. -/
theorem loadWordsChecked_eq (hgreatest : mailboxCount ≤ greatest) (m : Machine σ)
    (words : Array Word) (address : Nat) :
    m.loadWordsChecked greatest words address = .ok (m.loadWords words address) := by
  unfold loadWordsChecked loadWords
  by_cases hfits : address + words.size ≤ mailboxCount
  · have hwrite : m.state.writeChecked address (address + words.size) words =
        .ok (m.state.write address words) := if_pos ⟨Nat.le_add_right .., hfits, by omega⟩
    rw [behind?_of_fits hgreatest hfits, if_pos hfits]
    dsimp only
    rw [hwrite]
    rfl
  · rw [behind?_of_not_fits hfits, if_neg hfits]

/-- **Loading a program fails no check**, whatever the address is. -/
theorem loadProgramChecked_eq (hgreatest : mailboxCount ≤ greatest) (m : Machine σ) {p : Program}
    (hlinked : p.Linked) (address : Nat) :
    m.loadProgramChecked greatest p address = .ok (m.loadProgram p address) := by
  unfold loadProgramChecked loadProgram
  by_cases hfits : address + p.size ≤ mailboxCount
  · rw [behind?_of_fits hgreatest hfits, if_pos hfits]
    dsimp only
    rw [hlinked.wordsAtChecked_eq hfits, Checked.ok_bind, loadWordsChecked_eq hgreatest]
  · rw [behind?_of_not_fits hfits, if_neg hfits]
    exact loadWordsChecked_eq hgreatest m p.words address

/-! ### All or nothing -/

/-- The outcome is that of loading the words from `address` on. -/
structure Loads (m : Machine σ) (address : Nat) (words : Array Word)
    (outcome : Except MachineError Unit × Machine σ) : Prop where
  /-- It is a success if and only if the words fit. -/
  fits : outcome.1 = .ok () ↔ address + words.size ≤ mailboxCount
  /-- If they do not fit, this is a failure at the first mailbox that does not exist, and the state
  is the same. -/
  failure : ¬ address + words.size ≤ mailboxCount →
    outcome.1 = .error ⟨max address mailboxCount, .noMailbox⟩ ∧ outcome.2.state = m.state
  /-- If they fit, the words are in their mailboxes. -/
  inside : address + words.size ≤ mailboxCount →
    ∀ i < words.size, outcome.2.state.memory[address + i]? = words[i]?
  /-- The other mailboxes are as they were, -/
  outside : ∀ i, i < address ∨ address + words.size ≤ i →
    outcome.2.state.memory[i]? = m.state.memory[i]?
  /-- all other parts of the state are, -/
  registers : outcome.2.state = { m.state with memory := outcome.2.state.memory }
  /-- and so is what the machine is connected with. -/
  connections : outcome.2.source = m.source ∧ outcome.2.listeners = m.listeners
  /-- There has been one report, and nobody has been told anything. -/
  journal : ∃ r, outcome.2.journal = m.journal.push (.remark r)

/-- **Words are loaded all or none.** -/
theorem loads_loadWords (m : Machine σ) (words : Array Word) (address : Nat) :
    m.Loads address words (m.loadWords words address) := by
  by_cases hfits : address + words.size ≤ mailboxCount
  · have houtcome : m.loadWords words address = (.ok (),
        { m with state := m.state.write address words }.signal
          [.remark (.loaded address words.size)]) := if_pos hfits
    rw [houtcome]
    exact {
      fits := iff_of_true rfl hfits
      failure := fun h => absurd hfits h
      inside := fun _ i hi => by
        have hmailbox : address + i < mailboxCount := by omega
        rw [state_signal, State.getElem?_write, Vector.getElem?_eq_getElem hmailbox,
          Option.map_some, if_pos (Nat.le_add_right ..), Nat.add_sub_cancel_left,
          Array.getElem?_eq_getElem hi]
        rfl
      outside := fun i hi => by
        rw [state_signal, State.getElem?_write]
        cases hword : m.state.memory[i]? with
        | none => rfl
        | some word =>
          rw [Option.map_some]
          split
          · rw [Array.getElem?_eq_none (by omega)]
            rfl
          · rfl
      registers := by
        rw [state_signal]
        unfold State.write
        rfl
      connections := ⟨source_signal .., listeners_signal ..⟩
      journal := ⟨.loaded address words.size, by simp [signal, Signal.notices]⟩ }
  · have houtcome : m.loadWords words address =
        (.error ⟨max address mailboxCount, .noMailbox⟩,
          m.signal [.remark (.doesNotFit address words.size)]) := if_neg hfits
    rw [houtcome]
    exact {
      fits := iff_of_false (fun h => by cases h) hfits
      failure := fun _ => ⟨rfl, rfl⟩
      inside := fun h => absurd h hfits
      outside := fun _ _ => rfl
      registers := rfl
      connections := ⟨rfl, rfl⟩
      journal := ⟨.doesNotFit address words.size, by simp [signal, Signal.notices]⟩ }

variable {p : Program}

/-- **Programs are loaded all or not at all**, with the words that they have at the address. -/
theorem loads_loadProgram (m : Machine σ) (p : Program) (address : Nat) :
    m.Loads address (p.wordsAt address) (m.loadProgram p address) := by
  by_cases hfits : address + p.size ≤ mailboxCount
  · have houtcome : m.loadProgram p address = m.loadWords (p.wordsAt address) address :=
      if_pos hfits
    rw [houtcome]
    exact m.loads_loadWords (p.wordsAt address) address
  · have houtcome : m.loadProgram p address = m.loadWords p.words address := if_neg hfits
    have hloads := m.loads_loadWords p.words address
    have hsize : (p.wordsAt address).size = p.words.size := p.size_wordsAt address
    rw [houtcome]
    exact {
      fits := by rw [hsize]; exact hloads.fits
      failure := by rw [hsize]; exact hloads.failure
      inside := fun h => absurd h (hsize ▸ (hfits : ¬ address + p.words.size ≤ mailboxCount))
      outside := by rw [hsize]; exact hloads.outside
      registers := hloads.registers
      connections := hloads.connections
      journal := hloads.journal }

theorem loadProgram_fst (m : Machine σ) (p : Program) (address : Nat) :
    (m.loadProgram p address).1 = (m.loadWords p.words address).1 := by
  have hsize : (p.wordsAt address).size = p.words.size := p.size_wordsAt address
  unfold loadProgram
  split
  · next hfits =>
    have hmoved : address + (p.wordsAt address).size ≤ mailboxCount := hsize ▸ hfits
    have hwords : address + p.words.size ≤ mailboxCount := hfits
    rw [loadWords, if_pos hmoved, loadWords, if_pos hwords]
  · rfl

/-- **Loading is all or nothing.** Words are put into the mailboxes from an address on if and only
if they fit there, all of them and nothing else; otherwise the failure is at the first mailbox that
does not exist, and nothing is changed. So is an assembled program, with the address added to the
words that have a label for their operand, all of which are words of the program; it is refused
exactly when its words would be, with the same failure. Where addresses go up to the number of
mailboxes at least, none of this uses an element that does not exist or a number that leaves its
bounds. -/
theorem loads_allOrNothing (hgreatest : mailboxCount ≤ greatest) (m : Machine σ) (address : Nat) :
    (∀ words, m.loadWordsChecked greatest words address = .ok (m.loadWords words address) ∧
      m.Loads address words (m.loadWords words address)) ∧
    ∀ source policy p, Program.assemble source policy = .ok p →
      m.loadProgramChecked greatest p address = .ok (m.loadProgram p address) ∧
      m.Loads address (p.wordsAt address) (m.loadProgram p address) ∧
      (p.wordsAt address).size = p.words.size ∧
      (address + p.size ≤ mailboxCount → ∀ i word, p.words[i]? = some word →
        ∃ moved, (p.wordsAt address)[i]? = some moved ∧
          moved.toInt = word.toInt + if i ∈ p.relocations then (address : Int) else 0) ∧
      (∀ r ∈ p.relocations, r < p.words.size) ∧
      (m.loadProgram p address).1 = (m.loadWords p.words address).1 := by
  refine ⟨fun words => ⟨loadWordsChecked_eq hgreatest m words address,
    m.loads_loadWords words address⟩, fun source policy p hp => ?_⟩
  have hlinked := Program.linked_of_assemble hp
  refine ⟨loadProgramChecked_eq hgreatest m hlinked address, m.loads_loadProgram p address,
    p.size_wordsAt address, fun hfits i word => hlinked.toInt_wordsAt hfits, fun r hr => ?_,
    m.loadProgram_fst p address⟩
  obtain ⟨op, target, -, -, hword⟩ := hlinked.reference r hr
  exact (Array.getElem?_eq_some_iff.mp hword).choose

/-- A program of two words fits into the last two mailboxes, where its label is the last one. It
does not fit one mailbox further on, nor at the greatest address, to which its size cannot be added.
-/
theorem loads_allOrNothing_at_end :
    let greatest := 18446744073709551615
    let m : Machine SilentInput := { state := { accumulator := 12, pointer := 2 }, source := {} }
    ∃ p, Program.assemble "BRA n\nn DAT 5" .unique = .ok p ∧
      m.Loads 98 (p.wordsAt 98) (m.loadProgram p 98) ∧ (m.loadProgram p 98).1 = .ok () ∧
      (m.loadProgram p 98).2.state.memory[98]? = some 699 ∧
      (m.loadProgram p 99).1 = .error ⟨100, .noMailbox⟩ ∧ (m.loadProgram p 99).2.state = m.state ∧
      m.loadProgramChecked greatest p greatest = .ok (m.loadProgram p greatest) ∧
      (m.loadProgram p greatest).1 = .error ⟨greatest, .noMailbox⟩ := by
  intro greatest m
  have hgreatest : mailboxCount ≤ greatest := by decide
  have hrun : (Program.assemble "BRA n\nn DAT 5" .unique).toOption.map (fun p =>
      (p.size, (m.loadProgram p 98).2.state.memory[98]?)) = some (2, some 699) := by
    decide +kernel
  cases hp : Program.assemble "BRA n\nn DAT 5" .unique with
  | error e =>
    rw [hp] at hrun
    cases hrun
  | ok p =>
    rw [hp] at hrun
    obtain ⟨hsize, hword⟩ := Prod.mk.inj (Option.some.inj hrun)
    have hwords (address : Nat) : (p.wordsAt address).size = 2 := (p.size_wordsAt _).trans hsize
    obtain ⟨-, hfits, -⟩ := (loads_allOrNothing hgreatest m 98).2 _ _ p hp
    obtain ⟨-, hbehind, -⟩ := (loads_allOrNothing hgreatest m 99).2 _ _ p hp
    obtain ⟨hchecked, hfar, -⟩ := (loads_allOrNothing hgreatest m greatest).2 _ _ p hp
    obtain ⟨hrefused, hstate⟩ := hbehind.failure (by rw [hwords]; decide)
    exact ⟨p, rfl, hfits, hfits.fits.mpr (by rw [hwords]; decide), hword, hrefused, hstate,
      hchecked, (hfar.failure (by rw [hwords]; decide)).1⟩

end Machine

end LittleMan
