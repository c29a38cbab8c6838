import LittleMan.Proofs.Assembly.TwoPasses
import LittleMan.Proofs.Machine.Relocation

/-!
# What the mailboxes hold

Assembler and machine agree on what a statement is. Wherever a program is loaded, the mailbox of a
statement holds what the statement says: the machine decodes it to the instruction of the opcode at
the mailbox of the label or at the number, and the mailbox of a `DAT` holds the number itself
(`Program.holds_loadProgram`).

A word that names a label is moved exactly once. It is the code of the opcode plus the index of the
label, which lies inside of the program, so that the sum with the address of the program is still
the address of a mailbox and does not spill into the digit of the opcode.
-/

namespace LittleMan

/-- The word is decoded to the instruction of the opcode with that operand. -/
def Opcode.EncodedBy (op : Opcode) (operand : Nat) (word : Word) : Prop :=
  ∃ ins, Instruction.ofOpcode? op operand = some ins ∧ Instruction.decode word = .ok ins

/-- In a program that starts at `offset` and binds the labels as in the table, the word is what the
statement says. -/
structure Statement.HeldAs (labels : LabelTable) (offset : Nat) (s : Statement) (word : Word) :
    Prop where
  /-- A label is the mailbox of its definition. -/
  reference : ∀ label ∈ s.reference?, ∃ target, labels.address? label.value = some target ∧
    offset + target ≤ 99 ∧ s.opcode.value.EncodedBy (offset + target) word
  /-- Without an operand there is only the operation. -/
  operation : s.opcode.value.takesOperand = false → s.opcode.value.EncodedBy 0 word
  /-- A number of two digits is the mailbox with that number. -/
  number : s.opcode.value.isDirective = false → ∀ value text span,
    s.operand = some ⟨.number value text, span⟩ → 0 ≤ value.toInt → value.toInt ≤ 99 →
      s.opcode.value.EncodedBy value.toInt.toNat word
  /-- Data is the number, or zero if there is none. -/
  data : s.opcode.value.isDirective = true → word = match s.operand with
    | some ⟨.number value _, _⟩ => value
    | _ => 0

namespace Opcode

theorem encodedBy_code {op : Opcode} (h : op.takesOperand = false) : op.EncodedBy 0 op.code := by
  cases op with
  | hlt => exact ⟨.hlt, rfl, rfl⟩
  | inp => exact ⟨.inp, rfl, rfl⟩
  | out => exact ⟨.out, rfl, rfl⟩
  | otc => exact ⟨.otc, rfl, rfl⟩
  | _ => cases h

theorem encodedBy_of_toInt {op : Opcode} (htakes : op.takesOperand = true)
    (hdirective : op.isDirective = false) {operand : Nat} (hoperand : operand ≤ 99) {word : Word}
    (hword : word.toInt = op.code.toInt + operand) : op.EncodedBy operand word := by
  obtain ⟨hlower, hupper⟩ := Instruction.toInt_code_le op
  have hsum : op.code.toInt + operand ≤ Word.greatest := by unfold Word.greatest; omega
  obtain rfl : word = op.code + Int32.ofNat operand :=
    Int32.toInt_inj.mp (hword.trans (Word.toInt_add_ofNat hlower hsum).symm)
  exact Instruction.decode_code_add htakes hdirective (Nat.lt_succ_of_le hoperand)

end Opcode

namespace Statement

variable {s : Statement}

theorem refers_of_reference (hadmits : s.opcode.value.Admits (s.operand.map Located.value))
    {label : Located String} (h : s.reference? = some label) : s.opcode.value.Refers := by
  unfold reference? at h
  split at h
  · rename_i hoperand
    rw [hoperand] at hadmits
    exact ⟨hadmits.1, hadmits.2.1⟩
  · cases h

theorem heldAs_of_total (hadmits : s.opcode.value.Admits (s.operand.map Located.value))
    (hreference : s.reference? = none) (labels : LabelTable) (offset : Nat) {word : Word}
    (hword : word.toInt = s.total) : s.HeldAs labels offset word where
  reference label hlabel := by rw [hreference] at hlabel; cases hlabel
  operation htakes := by
    have hnone : s.operand = none := by
      cases hoperand : s.operand with
      | none => rfl
      | some o =>
        obtain ⟨value | label, span⟩ := o <;> rw [hoperand] at hadmits <;>
          exact absurd (htakes.symm.trans hadmits.1) Bool.false_ne_true
    obtain rfl : word = s.opcode.value.code :=
      Int32.toInt_inj.mp (by rw [hword, total, hnone]; exact Int.add_zero _)
    exact Opcode.encodedBy_code htakes
  number hdirective value text span hoperand hlower hupper := by
    have htakes : s.opcode.value.takesOperand = true := by rw [hoperand] at hadmits; exact hadmits.1
    refine Opcode.encodedBy_of_toInt htakes hdirective (by omega) ?_
    rw [hword, total, hoperand, Int.toNat_of_nonneg hlower]
  data hdirective := by
    have hdat : s.opcode.value = .dat := by simpa [Opcode.isDirective] using hdirective
    have hcode : s.opcode.value.code.toInt = 0 := by rw [hdat]; decide
    refine Int32.toInt_inj.mp (hword.trans ?_)
    rw [total, hcode, Int.zero_add]
    cases s.operand with
    | none => rfl
    | some o => obtain ⟨_ | _, _⟩ := o <;> rfl

/-- A statement with a label for its operand is the code plus the address of the label. -/
theorem heldAs_of_reference (hadmits : s.opcode.value.Admits (s.operand.map Located.value))
    {label : Located String} (hreference : s.reference? = some label) {labels : LabelTable}
    {target offset : Nat} (htarget : labels.address? label.value = some target)
    (hfits : offset + target ≤ 99) {word : Word}
    (hword : word.toInt = s.opcode.value.code.toInt + (offset + target : Nat)) :
    s.HeldAs labels offset word := by
  obtain ⟨htakes, hdirective⟩ := refers_of_reference hadmits hreference
  exact {
    reference := by
      rw [hreference]
      rintro _ ⟨⟩
      exact ⟨target, htarget, hfits, Opcode.encodedBy_of_toInt htakes hdirective hfits hword⟩
    operation := fun h => absurd (h.symm.trans htakes) Bool.false_ne_true
    number := fun _ value text span hoperand => by
      rw [reference?, hoperand] at hreference
      cases hreference
    data := fun h => absurd (hdirective.symm.trans h) Bool.false_ne_true }

end Statement

namespace Program

variable {σ : Type} {p : Program}

theorem fits_of_loadProgram {m : Machine σ} {address : Nat}
    (h : (m.loadProgram p address).1 = .ok ()) : address + p.size ≤ mailboxCount := by
  refine Classical.byContradiction fun hfits => ?_
  have hsize : ¬ address + p.words.size ≤ mailboxCount := hfits
  rw [Machine.loadProgram, if_neg hfits, Machine.loadWords, if_neg hsize] at h
  cases h

theorem memory_loadProgram (hlinked : p.Linked) (m : Machine σ) {address : Nat}
    (h : address + p.size ≤ mailboxCount) {i : Nat} {word : Word}
    (hword : p.words[i]? = some word) :
    (m.loadProgram p address).2.state.memory[address + i]? = some (p.moveWord address i word) := by
  have hi : i < p.size := (Array.getElem?_eq_some_iff.mp hword).choose
  have hmailbox : address + i < mailboxCount := by omega
  rw [loadProgram_of_fits m h, Machine.state_signal, State.getElem?_write,
    Vector.getElem?_eq_getElem hmailbox, Option.map_some, if_pos (Nat.le_add_right ..),
    Nat.add_sub_cancel_left, hlinked.getElem?_wordsAt, hword]
  rfl

/-- The word of a statement, moved if its operand is a label, is what the statement says. -/
theorem heldAs_moveWord {l : Listing} (hdenotes : l.Denotes p) {address : Nat}
    (hfits : address + l.size ≤ mailboxCount) {i : Nat} {s : Statement}
    (hs : l.statements[i]? = some s)
    (hadmits : s.opcode.value.Admits (s.operand.map Located.value)) {word : Word}
    (hword : Statement.Denotes l.statements s word.toInt) :
    s.HeldAs p.labels address (p.moveWord address i word) := by
  have hmoved := hdenotes.mem_relocations_iff hs
  unfold Statement.Denotes at hword
  cases hreference : s.reference? with
  | none =>
    rw [hreference] at hword hmoved
    rw [moveWord_of_not_mem (by simpa using hmoved)]
    exact Statement.heldAs_of_total hadmits hreference _ _ hword
  | some label =>
    rw [hreference] at hword hmoved
    obtain ⟨target, hlast, hsum⟩ := hword
    have hinside : target < l.size := hlast.lt_length
    have hhundred : address + l.size ≤ 100 := hfits
    obtain ⟨hlower, hupper⟩ := Instruction.toInt_code_le s.opcode.value
    rw [moveWord_of_mem (by simpa using hmoved)]
    refine Statement.heldAs_of_reference hadmits hreference ((hdenotes.labels _ _).mpr hlast)
      (by omega) ?_
    rw [Word.toInt_add_ofNat (by omega) (by unfold Word.greatest; omega)]
    omega

/-- **Wherever a program is loaded, the mailboxes hold what its statements say.** -/
theorem holds_loadProgram {source : String} {policy : LabelPolicy}
    (hp : assemble source policy = .ok p) (m : Machine σ) {address : Nat}
    (hload : (m.loadProgram p address).1 = .ok ()) :
    ∃ l, Listing.parse source = .ok l ∧ p.size = l.size ∧
      ∀ (i : Nat) s, l.statements[i]? = some s → ∃ word,
        (m.loadProgram p address).2.state.memory[address + i]? = some word ∧
          s.HeldAs p.labels address word := by
  have hlinked := linked_of_assemble hp
  have hfits := fits_of_loadProgram hload
  obtain ⟨l, hl, hp⟩ := exists_parse_of_assemble hp
  have hwritten := (Listing.writtenAs_of_parse hl).1
  have haddress := Listing.address_of_parse hl
  have hsize : p.size = l.size := Listing.size_of_assemble haddress hp
  have hcount : address + l.size ≤ 100 := hsize ▸ hfits
  have hdenotes : l.Denotes p := by
    refine Listing.denotes_of_assemble haddress (fun op i hi => ?_) hp
    have hcode := Instruction.toInt_code_le op
    unfold Word.greatest
    omega
  refine ⟨l, hl, hsize, fun i s hs => ?_⟩
  obtain ⟨word, hword, hmeaning⟩ := hdenotes.words i s hs
  exact ⟨_, memory_loadProgram hlinked m hfits hword,
    heldAs_moveWord hdenotes hcount hs (hwritten.admits s (List.mem_of_getElem? hs)) hmeaning⟩

/-- A label, a number, an operation and data at address `50`: the label has moved to mailbox `53`,
and the number has not moved. -/
theorem holds_loadProgram_of_branch :
    let m : Machine SilentInput := { source := {} }
    ∃ (p : Program) (l : Listing), assemble "LDA n\nBRZ 7\nHLT\nn DAT -7" .unique = .ok p ∧
      (m.loadProgram p 50).1 = .ok () ∧ l.statements.length = 4 ∧
      (∀ (i : Nat) s, l.statements[i]? = some s → ∃ word,
        (m.loadProgram p 50).2.state.memory[50 + i]? = some word ∧ s.HeldAs p.labels 50 word) ∧
      (List.range 4).map (fun i => (m.loadProgram p 50).2.state.memory[50 + i]?) =
        [some 553, some 707, some 0, some (-7)] := by
  intro m
  have hrun : (assemble "LDA n\nBRZ 7\nHLT\nn DAT -7" .unique).toOption.map (fun p =>
      (p.size, (List.range 4).map fun i => (m.loadProgram p 50).2.state.memory[50 + i]?)) =
        some (4, [some 553, some 707, some 0, some (-7)]) := by
    decide +kernel
  cases hp : assemble "LDA n\nBRZ 7\nHLT\nn DAT -7" .unique with
  | error e => rw [hp] at hrun; cases hrun
  | ok p =>
    rw [hp] at hrun
    obtain ⟨hsize, hmemory⟩ := Prod.mk.inj (Option.some.inj hrun)
    have hload : (m.loadProgram p 50).1 = .ok () := by
      rw [loadProgram_of_fits m (by rw [hsize]; decide)]
    obtain ⟨l, -, hl, hheld⟩ := holds_loadProgram hp m hload
    exact ⟨p, l, rfl, hload, hl.symm.trans hsize, hheld, hmemory⟩

end Program

end LittleMan
