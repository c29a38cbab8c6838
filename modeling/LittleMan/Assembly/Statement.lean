import LittleMan.Assembly.Error
import LittleMan.Assembly.Numeral
import LittleMan.Assembly.Layout

/-!
# Statements

A statement is an optional label, a mnemonic and, for most opcodes, an operand: a number or a
reference to a label. Statements need not keep to lines; a statement ends where the grammar says so.

`Statement.read` takes one statement off a list of words, or says why there is none.
-/

namespace LittleMan

/-- What follows a mnemonic. -/
inductive Operand where
  /-- A number, and the text it was written as. -/
  | number (value : Word) (text : String)
  /-- A label, in place of which its address is put. -/
  | reference (label : String)
  deriving DecidableEq, Repr, Inhabited

/-- The operand as it was written. -/
def Operand.text : Operand → String
  | number _ text => text
  | reference label => label

/-- One mailbox worth of assembly. -/
structure Statement where
  /-- The place of the statement in the program, which is the address it is assembled for. -/
  address : Nat
  /-- The label before the mnemonic. -/
  label : Option (Located String)
  /-- The mnemonic. -/
  opcode : Located Opcode
  /-- The operand after the mnemonic. -/
  operand : Option (Located Operand)
  /-- The line breaks and comments before the statement. -/
  layout : String
  deriving DecidableEq, Repr, Inhabited

namespace Statement

/-- From the start of the label, or of the mnemonic, to the end of the operand, or of the
mnemonic. -/
def span (s : Statement) : Span where
  start := (s.label.map (·.span.start)).getD s.opcode.span.start
  stop := (s.operand.map (·.span.stop)).getD s.opcode.span.stop

/-- The label the operand refers to, and where. -/
def reference? (s : Statement) : Option (Located String) :=
  match s.operand with
  | some ⟨.reference label, span⟩ => some ⟨label, span⟩
  | _ => none

/-- The statement on a line of the listing: label, mnemonic and operand set apart by tabs. -/
def format (s : Statement) : String :=
  (s.label.map (·.value)).getD "" ++ "\t" ++ s.opcode.value.mnemonic ++
    (s.operand.map fun operand => "\t" ++ operand.value.text).getD ""

/-! ### Reading statements -/

/-- The word and the one after it are no mnemonics; the later one is the first to be taken for a
misspelling. -/
def unknownMnemonic (first : Located String) (second : Option (Located String)) : AssemblyError :=
  match second with
  | none => ⟨.unknownMnemonic first.value (Opcode.guess? first.value), some first.span⟩
  | some second =>
    ⟨.unknownMnemonic (first.value ++ " " ++ second.value)
        ((Opcode.guess? second.value).or (Opcode.guess? first.value)),
      some ⟨first.span.start, second.span.stop⟩⟩

/-- The number is too large. -/
def numberTooLarge (word : Located String) : AssemblyError :=
  ⟨.numberTooLarge word.value, some word.span⟩

/-- A number read as an operand. -/
def numberOperand (word : Located String) (value : Word) : Located Operand :=
  ⟨.number value word.value, word.span⟩

/-- Takes the label, if there is one, and the mnemonic off the words. -/
def readOpcode (first : Lexeme) (rest : List Lexeme) :
    Except AssemblyError (Option (Located String) × Located Opcode × List Lexeme) :=
  match Opcode.ofWord? first.word.value with
  | some op => .ok (none, ⟨op, first.word.span⟩, rest)
  | none =>
    match rest with
    | [] => .error (unknownMnemonic first.word none)
    | second :: rest =>
      match Opcode.ofWord? second.word.value with
      | some op => .ok (some first.word, ⟨op, second.word.span⟩, rest)
      | none => .error (unknownMnemonic first.word (some second.word))

/-- Takes the operand of an opcode off the words. After `DAT` only a number is one, and it may be
missing; an opcode without operand takes nothing. -/
def readOperand (op : Opcode) (words : List Lexeme) :
    Except AssemblyError (Option (Located Operand) × List Lexeme) :=
  if op.isDirective then
    match words with
    | [] => .ok (none, [])
    | ⟨layout, word⟩ :: rest =>
      match Numeral.read word.value with
      | .number value => .ok (some (numberOperand word value), rest)
      | .tooLarge => .error (numberTooLarge word)
      | .notANumeral => .ok (none, ⟨layout, word⟩ :: rest)
  else if op.takesOperand then
    match words with
    | [] => .error ⟨.missingOperand op, none⟩
    | ⟨_, word⟩ :: rest =>
      match Numeral.read word.value with
      | .number value => .ok (some (numberOperand word value), rest)
      | .tooLarge => .error (numberTooLarge word)
      | .notANumeral => .ok (some ⟨.reference word.value, word.span⟩, rest)
  else .ok (none, words)

/-- Takes the statement that starts with the word `first` off the words. -/
def read (address : Nat) (first : Lexeme) (rest : List Lexeme) :
    Except AssemblyError (Statement × List Lexeme) := do
  let (label, opcode, rest) ← readOpcode first rest
  let (operand, rest) ← readOperand opcode.value rest
  return (⟨address, label, opcode, operand, first.layout⟩, rest)

theorem length_le_of_readOpcode {first : Lexeme} {words rest : List Lexeme}
    {label : Option (Located String)} {opcode : Located Opcode}
    (h : readOpcode first words = .ok (label, opcode, rest)) : rest.length ≤ words.length := by
  unfold readOpcode at h
  split at h
  · cases h; exact Nat.le_refl _
  · split at h
    · cases h
    · split at h
      · cases h; simp
      · cases h

theorem length_le_of_readOperand {op : Opcode} {words rest : List Lexeme}
    {operand : Option (Located Operand)}
    (h : readOperand op words = .ok (operand, rest)) : rest.length ≤ words.length := by
  unfold readOperand at h
  repeat' split at h
  all_goals cases h <;> simp

theorem length_le_of_read {address : Nat} {first : Lexeme} {words rest : List Lexeme}
    {s : Statement} (h : read address first words = .ok (s, rest)) :
    rest.length ≤ words.length := by
  simp only [read, bind, Except.bind, pure, Except.pure] at h
  split at h
  · cases h
  · rename_i head hhead
    split at h
    · cases h
    · rename_i operand hoperand
      cases h
      exact Nat.le_trans (length_le_of_readOperand hoperand) (length_le_of_readOpcode hhead)

end Statement

end LittleMan
