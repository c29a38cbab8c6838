import LittleMan.Text.EditDistance
import LittleMan.Text.Uppercase
import LittleMan.Word

/-!
# Opcodes

The mnemonics of the assembly language, the number each one contributes to its word, and which of
them are followed by an operand. `DAT` is a directive: it reserves a mailbox for data and is no
instruction of the machine.

A word of the source names an opcode in any letter case (`ofWord?`); one that is a single edit away
from a mnemonic is taken for a misspelling of it (`guess?`).
-/

namespace LittleMan

/-- What a statement asks for, named by its mnemonic. -/
inductive Opcode where
  /-- Stop. -/
  | hlt
  /-- Add a mailbox to the accumulator. -/
  | add
  /-- Subtract a mailbox from the accumulator. -/
  | sub
  /-- Store the accumulator into a mailbox. -/
  | sta
  /-- Load the accumulator from a mailbox. -/
  | lda
  /-- Branch always. -/
  | bra
  /-- Branch if the accumulator is zero. -/
  | brz
  /-- Branch if the accumulator is zero or positive. -/
  | brp
  /-- Read a number into the accumulator. -/
  | inp
  /-- Print the accumulator as a number. -/
  | out
  /-- Print the accumulator as a character. -/
  | otc
  /-- Reserve a mailbox for data. -/
  | dat
  deriving DecidableEq, Repr, Inhabited

namespace Opcode

/-- All opcodes, in the order in which guesses are tried. -/
def all : List Opcode := [hlt, add, sub, sta, lda, bra, brz, brp, inp, out, otc, dat]

theorem mem_all (op : Opcode) : op ∈ all := by cases op <;> decide

/-- The name of the opcode in the assembly language. -/
def mnemonic : Opcode → String
  | hlt => "HLT"
  | add => "ADD"
  | sub => "SUB"
  | sta => "STA"
  | lda => "LDA"
  | bra => "BRA"
  | brz => "BRZ"
  | brp => "BRP"
  | inp => "INP"
  | out => "OUT"
  | otc => "OTC"
  | dat => "DAT"

/-- The word of the opcode before an operand is added to it. -/
def code : Opcode → Word
  | hlt => 0
  | add => 100
  | sub => 200
  | sta => 300
  | lda => 500
  | bra => 600
  | brz => 700
  | brp => 800
  | inp => 901
  | out => 902
  | otc => 922
  | dat => 0

/-- Whether an operand may follow the mnemonic; it may be left out after `DAT` only. -/
def takesOperand : Opcode → Bool
  | hlt | inp | out | otc => false
  | _ => true

/-- Whether the opcode only reserves a mailbox. -/
def isDirective (op : Opcode) : Bool := op == dat

/-- The opcode whose mnemonic is the upper-case form of the word. -/
def ofWord? (word : String) : Option Opcode :=
  all.find? fun op => op.mnemonic.toList == Text.uppercase word.toList

/-- A word names no opcode if its upper-case form is no mnemonic. -/
theorem ofWord?_eq_none_iff {word : String} :
    ofWord? word = none ↔ ∀ op : Opcode, op.mnemonic.toList ≠ Text.uppercase word.toList := by
  rw [ofWord?, List.find?_eq_none]
  constructor
  · intro h op heq
    exact h op (mem_all op) (beq_iff_eq.mpr heq)
  · intro h op _ heq
    exact h op (beq_iff_eq.mp heq)

/-- How many edits separate the upper-case form of the word from the mnemonic. -/
def distance (word : String) (op : Opcode) : Nat :=
  Text.editDistance (Text.uppercase word.toList) op.mnemonic.toList

/-- The opcode that the word may have been meant for: the one it names, else the first that is one
edit away. -/
def guess? (word : String) : Option Opcode :=
  (all.find? fun op => distance word op == 0).or (all.find? fun op => distance word op == 1)

end Opcode

end LittleMan
