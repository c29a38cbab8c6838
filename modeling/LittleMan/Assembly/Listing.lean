import LittleMan.Assembly.Statement

/-!
# Listings

A listing is a program as a list of statements, before labels have been replaced by addresses.
`Listing.parse` reads one from a source, `Listing.format` writes it out in a normal form: a line for
every statement, with the line breaks and comments that stood before the statements kept in place.
-/

namespace LittleMan

/-- A program as statements. -/
structure Listing where
  /-- The statements, in the order of the source. -/
  statements : List Statement := []
  /-- The line breaks and comments after the last statement. -/
  trailing : String := ""
  deriving DecidableEq, Repr, Inhabited

namespace Listing

/-- How many statements there are. -/
def size (l : Listing) : Nat := l.statements.length

/-- Reads words as statements for the addresses from `address` on. -/
def readStatements (address : Nat) : List Lexeme → Except AssemblyError (List Statement)
  | [] => .ok []
  | first :: words =>
    match _h : Statement.read address first words with
    | .error e => .error e
    | .ok (statement, rest) =>
      match readStatements (address + 1) rest with
      | .error e => .error e
      | .ok statements => .ok (statement :: statements)
termination_by words => words.length
decreasing_by simp [Nat.lt_succ_of_le (Statement.length_le_of_read _h)]

@[simp] theorem readStatements_nil (address : Nat) : readStatements address [] = .ok [] := by
  rw [readStatements]

theorem readStatements_cons (address : Nat) (first : Lexeme) (words : List Lexeme) :
    readStatements address (first :: words) =
      (Statement.read address first words).bind fun read =>
        (readStatements (address + 1) read.2).map (read.1 :: ·) := by
  rw [readStatements]
  split
  · rename_i h
    rw [h]
    rfl
  · rename_i statement rest h
    rw [h]
    simp only [Except.bind]
    cases readStatements (address + 1) rest <;> rfl

/-- Reads a source. Labels are not resolved here, so they may be used before they are defined. -/
def parse (source : String) : Except AssemblyError Listing := do
  let (words, trailing) := Lexeme.ofTokens (Token.ofSource source)
  let statements ← readStatements 0 words
  return { statements, trailing }

theorem parse_eq (source : String) :
    parse source = (readStatements 0 (Lexeme.ofTokens (Token.ofSource source)).1).map
      (⟨·, (Lexeme.ofTokens (Token.ofSource source)).2⟩) := by
  unfold parse
  obtain ⟨words, trailing⟩ := Lexeme.ofTokens (Token.ofSource source)
  dsimp only
  cases readStatements 0 words <;> rfl

/-- Writes the statements out, each after its layout. -/
def format (l : Listing) : String :=
  String.join (l.statements.map fun s => s.layout ++ s.format) ++ l.trailing

@[simp] theorem format_nil (trailing : String) : format ⟨[], trailing⟩ = trailing := by
  simp [format]

theorem format_cons (s : Statement) (ss : List Statement) (trailing : String) :
    format ⟨s :: ss, trailing⟩ = s.layout ++ s.format ++ format ⟨ss, trailing⟩ := by
  simp [format, String.append_assoc]

end Listing

end LittleMan
