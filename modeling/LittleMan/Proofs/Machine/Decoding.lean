import LittleMan.Instruction

/-!
# Decoding

Words of three digits are decoded digit by digit (`Instruction.decode_eq_ofDigits`). The code of an
opcode with an operand plus the address of a mailbox is the instruction of that opcode at that
address: the address never spills into the digit of the opcode (`Instruction.decode_code_add`).

So the words that are decoded are exactly the words of instructions that name no more than a mailbox
(`Instruction.decode_eq_ok_iff`), and on these decoding and encoding undo each other
(`Instruction.decode_encode_inverse`).
-/

namespace LittleMan

namespace Instruction

theorem decode_eq_ofDigits {word : Word} {n : Nat} (hword : word.toInt = n) (hn : n ≤ 999) :
    decode word = ofDigits (n / 100) (n % 100) := by
  have hrange : ¬ (word.toInt < 0 ∨ 999 < word.toInt) := by omega
  rw [decode, if_neg hrange, hword, Int.toNat_natCast]

theorem toInt_code_le (op : Opcode) : 0 ≤ op.code.toInt ∧ op.code.toInt ≤ 999 := by
  cases op <;> decide

/-- The first digit and the operand of a sum of hundreds and an address. -/
theorem ofDigits_of_lt (cls : Nat) {address : Nat} (h : address < mailboxCount) :
    ofDigits ((100 * cls + address) / 100) ((100 * cls + address) % 100) =
      ofDigits cls address := by
  have haddress : address < 100 := h
  have hcls : (100 * cls + address) / 100 = cls := by omega
  have hoperand : (100 * cls + address) % 100 = address := by omega
  rw [hcls, hoperand]

/-- **An opcode with the address of a mailbox is that instruction.** -/
theorem decode_code_add {op : Opcode} (htakes : op.takesOperand = true)
    (hdirective : op.isDirective = false) {address : Nat} (h : address < mailboxCount) :
    ∃ ins, ofOpcode? op address = some ins ∧ decode (op.code + Int32.ofNat address) = .ok ins := by
  have hlt : address < 100 := h
  have hdecode (cls : Nat) (hcls : cls ≤ 8) (hcode : op.code.toInt = 100 * cls) :
      decode (op.code + Int32.ofNat address) = ofDigits cls address := by
    rw [← ofDigits_of_lt cls h]
    refine decode_eq_ofDigits ?_ (by omega)
    obtain ⟨hlower, hupper⟩ := toInt_code_le op
    rw [Word.toInt_add_ofNat hlower (by unfold Word.greatest; omega), hcode]
    omega
  cases op with
  | add => exact ⟨.add address, rfl, hdecode 1 (by decide) (by decide)⟩
  | sub => exact ⟨.sub address, rfl, hdecode 2 (by decide) (by decide)⟩
  | sta => exact ⟨.sta address, rfl, hdecode 3 (by decide) (by decide)⟩
  | lda => exact ⟨.lda address, rfl, hdecode 5 (by decide) (by decide)⟩
  | bra => exact ⟨.bra address, rfl, hdecode 6 (by decide) (by decide)⟩
  | brz => exact ⟨.brz address, rfl, hdecode 7 (by decide) (by decide)⟩
  | brp => exact ⟨.brp address, rfl, hdecode 8 (by decide) (by decide)⟩
  | dat => cases hdirective
  | hlt => cases htakes
  | inp => cases htakes
  | out => cases htakes
  | otc => cases htakes

/-- An instruction that names a mailbox has it for its operand, and the instructions of class 9 are
told apart by theirs. -/
theorem digits_of_ofDigits {cls operand : Nat} (hcls : cls ≤ 9) {ins : Instruction}
    (h : ofDigits cls operand = .ok ins) :
    ins.opcode.code.toInt + (ins.address?.getD 0 : Nat) = 100 * cls + operand ∧
      ∀ a ∈ ins.address?, a = operand := by
  have hnone : ∀ a ∈ (none : Option Nat), a = operand := fun a ha => by cases ha
  have hsome : ∀ a ∈ some operand, a = operand := fun a ha => (Option.some.inj ha).symm
  unfold ofDigits at h
  split at h
  · split at h
    · next hzero =>
      cases h
      exact ⟨by rw [hzero]; rfl, hnone⟩
    · cases h
  · cases h
    exact ⟨rfl, hsome⟩
  · cases h
    exact ⟨rfl, hsome⟩
  · cases h
    exact ⟨rfl, hsome⟩
  · cases h
  · cases h
    exact ⟨rfl, hsome⟩
  · cases h
    exact ⟨rfl, hsome⟩
  · cases h
    exact ⟨rfl, hsome⟩
  · cases h
    exact ⟨rfl, hsome⟩
  · have hnine : cls = 9 := by grind
    subst hnine
    split at h
    · next hoperand =>
      cases h
      exact ⟨by rw [hoperand]; rfl, hnone⟩
    · split at h
      · next hoperand =>
        cases h
        exact ⟨by rw [hoperand]; rfl, hnone⟩
      · split at h
        · next hoperand =>
          cases h
          exact ⟨by rw [hoperand]; rfl, hnone⟩
        · cases h

/-- **A word that is decoded is the code of its opcode plus its address**, which is that of a
mailbox. -/
theorem toInt_of_decode {word : Word} {ins : Instruction} (h : decode word = .ok ins) :
    word.toInt = ins.opcode.code.toInt + (ins.address?.getD 0 : Nat) ∧
      ∀ a ∈ ins.address?, a < mailboxCount := by
  unfold decode at h
  split at h
  · cases h
  · next hrange =>
    obtain ⟨hsum, haddress⟩ := digits_of_ofDigits (by omega) h
    refine ⟨by omega, fun a ha => ?_⟩
    rw [haddress a ha]
    exact Nat.mod_lt _ (by decide)

/-! ### Encoding -/

/-- The operand of the instruction, if it has one, is the address of a mailbox. -/
def NamesMailbox (ins : Instruction) : Prop := ∀ a ∈ ins.address?, a < mailboxCount

theorem toInt_encode {ins : Instruction}
    (h : ins.opcode.code.toInt + (ins.address?.getD 0 : Nat) ≤ Word.greatest) :
    (encode ins).toInt = ins.opcode.code.toInt + (ins.address?.getD 0 : Nat) :=
  Word.toInt_add_ofNat (toInt_code_le ins.opcode).1 h

theorem ofOpcode?_opcode {ins : Instruction} {a : Nat} (h : ins.address? = some a) :
    ofOpcode? ins.opcode a = some ins ∧ ins.opcode.takesOperand = true ∧
      ins.opcode.isDirective = false := by
  cases ins <;> cases h <;> exact ⟨rfl, rfl, rfl⟩

/-- **An instruction that names no more than a mailbox is decoded from its word.** -/
theorem decode_encode {ins : Instruction} (h : ins.NamesMailbox) :
    decode (encode ins) = .ok ins := by
  cases haddress : ins.address? with
  | none => cases ins <;> first | rfl | cases haddress
  | some a =>
    obtain ⟨hins, htakes, hdirective⟩ := ofOpcode?_opcode haddress
    obtain ⟨ins', hins', hdecode⟩ := decode_code_add htakes hdirective (h a haddress)
    obtain rfl : ins = ins' := Option.some.inj (hins.symm.trans hins')
    rw [encode, haddress]
    exact hdecode

/-- **The words that are decoded are those of instructions that name no more than a mailbox.** -/
theorem decode_eq_ok_iff {word : Word} {ins : Instruction} :
    decode word = .ok ins ↔ ins.NamesMailbox ∧ encode ins = word := by
  constructor
  · intro h
    obtain ⟨hsum, haddress⟩ := toInt_of_decode h
    refine ⟨haddress, Int32.toInt_inj.mp ((toInt_encode ?_).trans hsum.symm)⟩
    rw [← hsum]
    have hlt := word.toInt_lt
    unfold Word.greatest
    omega
  · rintro ⟨haddress, rfl⟩
    exact decode_encode haddress

/-- **Decoding and encoding undo each other.**

- A word that is decoded is the word of the instruction, whose address, if it has one, is that of a
  mailbox.
- Let the code of an instruction and its address, however large, add up to a word. Then that is the
  word of the instruction, and it is decoded as the same instruction exactly if there is no address
  or it is that of a mailbox. A larger address spills into the first digit.
- Two instructions that name no more than a mailbox never share a word. -/
theorem decode_encode_inverse :
    (∀ word ins, decode word = .ok ins →
      encode ins = word ∧ ∀ a, ins.address? = some a → a < 100) ∧
    (∀ ins : Instruction, ins.opcode.code.toInt + (ins.address?.getD 0 : Nat) ≤ 2147483647 →
      (encode ins).toInt = ins.opcode.code.toInt + (ins.address?.getD 0 : Nat) ∧
        (decode (encode ins) = .ok ins ↔
          ins.address? = none ∨ ∃ a, ins.address? = some a ∧ a < 100)) ∧
    ∀ ins ins' : Instruction, (∀ a, ins.address? = some a → a < 100) →
      (∀ a, ins'.address? = some a → a < 100) → encode ins = encode ins' → ins = ins' := by
  refine ⟨fun word ins h => (decode_eq_ok_iff.mp h).symm, fun ins hfits => ⟨toInt_encode hfits, ?_⟩,
    fun ins ins' h h' heq => ?_⟩
  · rw [decode_eq_ok_iff, and_iff_left rfl, NamesMailbox]
    cases ins.address? <;> simp [mailboxCount]
  · have hdecode : decode (encode ins) = .ok ins := decode_encode h
    have hdecode' : decode (encode ins') = .ok ins' := decode_encode h'
    rw [heq, hdecode'] at hdecode
    exact (Except.ok.inj hdecode).symm

/-- The address 101 of a branch spills into the first digit, and makes it an input. -/
theorem decode_encode_inverse_of_spill :
    (brp 101).opcode.code.toInt + ((brp 101).address?.getD 0 : Nat) ≤ 2147483647 ∧
      (encode (brp 101)).toInt = 901 ∧ decode (encode (brp 101)) ≠ .ok (brp 101) ∧
        decode 901 = .ok inp ∧ encode inp = 901 := by
  have hfits : (brp 101).opcode.code.toInt + ((brp 101).address?.getD 0 : Nat) ≤ 2147483647 := by
    decide
  have hinput : decode 901 = .ok inp := rfl
  obtain ⟨hword, hinverse⟩ := decode_encode_inverse.2.1 (brp 101) hfits
  refine ⟨hfits, hword, fun h => ?_, hinput, (decode_encode_inverse.1 901 inp hinput).1⟩
  rcases hinverse.mp h with hnone | ⟨a, ha, hlt⟩
  · cases hnone
  · cases ha
    exact absurd hlt (by decide)

/-! ### Operands -/

/-- The mailbox whose content the instruction reads or changes; a branch only names one. -/
def dataAddress? : Instruction → Option Nat
  | add a | sub a | sta a | lda a => some a
  | hlt | bra _ | brz _ | brp _ | inp | out | otc => none

theorem address?_of_dataAddress? {ins : Instruction} {a : Nat} (h : a ∈ ins.dataAddress?) :
    a ∈ ins.address? := by
  cases ins <;> first | exact h | cases h

/-- The instruction with the mailbox it names `offset` mailboxes further on. -/
def moved (offset : Nat) : Instruction → Instruction
  | hlt => hlt
  | add a => add (a + offset)
  | sub a => sub (a + offset)
  | sta a => sta (a + offset)
  | lda a => lda (a + offset)
  | bra a => bra (a + offset)
  | brz a => brz (a + offset)
  | brp a => brp (a + offset)
  | inp => inp
  | out => out
  | otc => otc

theorem moved_of_address?_eq_none {ins : Instruction} (h : ins.address? = none) (offset : Nat) :
    ins.moved offset = ins := by
  cases ins <;> first | rfl | cases h

theorem ofOpcode?_moved {op : Opcode} {address : Nat} {ins : Instruction}
    (h : ofOpcode? op address = some ins) (offset : Nat) :
    ofOpcode? op (address + offset) = some (ins.moved offset) := by
  cases op <;> cases h <;> rfl

theorem address?_of_ofOpcode? {op : Opcode} {address : Nat} {ins : Instruction}
    (h : ofOpcode? op address = some ins) : ∀ a ∈ ins.address?, a = address := by
  cases op <;> cases h <;> simp [address?]

end Instruction

end LittleMan
