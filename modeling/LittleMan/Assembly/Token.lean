import LittleMan.Source.Span

/-!
# Tokens

A source is a sequence of words set apart by blanks. A word that starts with two slashes starts a
comment, which runs to the end of its line. Comments and line breaks mean nothing to the assembler;
they are tokens because the listing of a program keeps them.
-/

namespace LittleMan

/-- A part of the source that is no blank. -/
inductive Token where
  /-- The end of a line. -/
  | newline
  /-- Two slashes and everything up to the end of the line. -/
  | comment (text : String)
  /-- A mnemonic, a label or a number. -/
  | word (text : String)
  deriving DecidableEq, Repr, Inhabited

namespace Token

/-- The characters the token was read from. -/
def text : Token → String
  | newline => "\n"
  | comment text => text
  | word text => text

/-! ### Reading tokens -/

/-- Whether the character can stand in a word: every character above the space can. -/
def isWordChar (c : Char) : Bool := ' ' < c

/-- The word or comment that starts the characters. -/
def lexeme (cs : List Char) : List Char :=
  if ['/', '/'].isPrefixOf cs then cs.takeWhile (· != '\n') else cs.takeWhile isWordChar

/-- What follows the word or comment that starts the characters. -/
def afterLexeme (cs : List Char) : List Char :=
  if ['/', '/'].isPrefixOf cs then cs.dropWhile (· != '\n') else cs.dropWhile isWordChar

/-- The token of a word or comment. -/
def ofLexeme (cs : List Char) : Token :=
  if ['/', '/'].isPrefixOf cs then comment (String.ofList cs) else word (String.ofList cs)

@[simp] theorem lexeme_append_afterLexeme (cs : List Char) : lexeme cs ++ afterLexeme cs = cs := by
  unfold lexeme afterLexeme
  split <;> exact List.takeWhile_append_dropWhile

theorem length_afterLexeme_lt {c : Char} (cs : List Char) (h : isWordChar c = true) :
    (afterLexeme (c :: cs)).length < (c :: cs).length := by
  have hc : c ≠ '\n' := by rintro rfl; revert h; decide
  have hle (p : Char → Bool) : (cs.dropWhile p).length ≤ cs.length :=
    (List.dropWhile_sublist p).length_le
  unfold afterLexeme
  split
  · simpa [hc, Nat.lt_succ_iff] using hle (· != '\n')
  · simpa [h, Nat.lt_succ_iff] using hle isWordChar

/-- The tokens of the characters, which stand in the source from byte `offset` on. -/
def scan (offset : Nat) : List Char → List (Located Token)
  | [] => []
  | c :: cs =>
    if c = '\n' then ⟨newline, ⟨offset, offset + 1⟩⟩ :: scan (offset + 1) cs
    else if isWordChar c then
      let read := lexeme (c :: cs)
      let stop := offset + Source.byteSize read
      ⟨ofLexeme read, ⟨offset, stop⟩⟩ :: scan stop (afterLexeme (c :: cs))
    else scan (offset + c.utf8Size) cs
termination_by cs => cs.length
decreasing_by
  · simp
  · exact length_afterLexeme_lt cs ‹_›
  · simp

/-- The tokens of a source. -/
def ofSource (source : String) : List (Located Token) := scan 0 source.toList

end Token

end LittleMan
