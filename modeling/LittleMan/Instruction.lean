import LittleMan.Opcode
import LittleMan.Text.Decimal

/-!
# Instructions

What the machine executes. A word of three digits is an instruction: its first digit is the class,
the other two the address of a mailbox or, in class 9, the selector of an input or output
operation. `encode` gives the word of an instruction, `decode` reads a word back or says why it is
no instruction.
-/

namespace LittleMan

/-- An instruction of the machine. An operand is the address of a mailbox. -/
inductive Instruction where
  /-- Stop. -/
  | hlt
  /-- Add the mailbox to the accumulator. -/
  | add (address : Nat)
  /-- Subtract the mailbox from the accumulator. -/
  | sub (address : Nat)
  /-- Copy the accumulator into the mailbox. -/
  | sta (address : Nat)
  /-- Copy the mailbox into the accumulator. -/
  | lda (address : Nat)
  /-- Continue at the mailbox. -/
  | bra (address : Nat)
  /-- Continue at the mailbox if the accumulator is zero. -/
  | brz (address : Nat)
  /-- Continue at the mailbox if the accumulator is zero or positive. -/
  | brp (address : Nat)
  /-- Read a number into the accumulator. -/
  | inp
  /-- Print the accumulator as a number. -/
  | out
  /-- Print the accumulator as a character. -/
  | otc
  deriving DecidableEq, Repr, Inhabited

namespace Instruction

/-- The opcode under which the instruction is written. -/
def opcode : Instruction → Opcode
  | hlt => .hlt
  | add _ => .add
  | sub _ => .sub
  | sta _ => .sta
  | lda _ => .lda
  | bra _ => .bra
  | brz _ => .brz
  | brp _ => .brp
  | inp => .inp
  | out => .out
  | otc => .otc

/-- The mailbox the instruction names, if it names one. -/
def address? : Instruction → Option Nat
  | add a | sub a | sta a | lda a | bra a | brz a | brp a => some a
  | hlt | inp | out | otc => none

/-- The instruction of an opcode and an address, which is ignored by opcodes without operand. There
is none for the directive. -/
def ofOpcode? (op : Opcode) (address : Nat) : Option Instruction :=
  match op with
  | .hlt => some hlt
  | .add => some (add address)
  | .sub => some (sub address)
  | .sta => some (sta address)
  | .lda => some (lda address)
  | .bra => some (bra address)
  | .brz => some (brz address)
  | .brp => some (brp address)
  | .inp => some inp
  | .out => some out
  | .otc => some otc
  | .dat => none

/-- The mnemonic and, if there is one, the address with at least two digits. -/
def text (ins : Instruction) : String :=
  match ins.address? with
  | some a => ins.opcode.mnemonic ++ " " ++ Decimal.zeroFilled 2 a
  | none => ins.opcode.mnemonic

/-- The word of the instruction: the code of its opcode plus its address. -/
def encode (ins : Instruction) : Word := ins.opcode.code + Int32.ofNat (ins.address?.getD 0)

end Instruction

/-! ### Decoding -/

/-- Why a word is no instruction. -/
inductive DecodeError where
  /-- The word is negative or has more than three digits. -/
  | outOfRange
  /-- Class 0 with an operand other than zero. -/
  | haltOperand (operand : Nat)
  /-- Class 4, which has no instruction. -/
  | reserved
  /-- Class 9 with an operand that selects no operation. -/
  | unknownSelector (operand : Nat)
  deriving DecidableEq, Repr, Inhabited

/-- The reason in words. -/
def DecodeError.message : DecodeError → String
  | outOfRange => "word is not a three digit instruction"
  | haltOperand operand => "HLT takes no operand but found " ++ operand.repr
  | reserved => "invalid opcode 4"
  | unknownSelector operand => "operand should be 1, 2 or 22 but found " ++ operand.repr

namespace Instruction

/-- The instruction of a class from 0 to 9 and an operand of two digits. -/
def ofDigits (cls operand : Nat) : Except DecodeError Instruction :=
  match cls with
  | 0 => if operand = 0 then .ok hlt else .error (.haltOperand operand)
  | 1 => .ok (add operand)
  | 2 => .ok (sub operand)
  | 3 => .ok (sta operand)
  | 4 => .error .reserved
  | 5 => .ok (lda operand)
  | 6 => .ok (bra operand)
  | 7 => .ok (brz operand)
  | 8 => .ok (brp operand)
  | _ =>
    if operand = 1 then .ok inp
    else if operand = 2 then .ok out
    else if operand = 22 then .ok otc
    else .error (.unknownSelector operand)

/-- The instruction a word stands for. -/
def decode (word : Word) : Except DecodeError Instruction :=
  if word.toInt < 0 ∨ 999 < word.toInt then .error .outOfRange
  else ofDigits (word.toInt.toNat / 100) (word.toInt.toNat % 100)

end Instruction

end LittleMan
