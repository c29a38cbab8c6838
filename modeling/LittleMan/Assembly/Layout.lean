import LittleMan.Assembly.Token

/-!
# Layout

The text of the line breaks and comments that stand before a word is its layout. A comment starts a
line of its own in a layout, whatever stood before it in the source. `Lexeme.ofTokens` cuts a source
into its words, each with its layout, and the layout that is left at the end.
-/

namespace LittleMan

/-- The layout with one more line break or comment behind it; words leave it as it is. -/
def Token.extendLayout (layout : String) : Token → String
  | newline => layout ++ "\n"
  | comment text =>
    if layout.toList.getLast? = some '\n' then layout ++ text else layout ++ "\n" ++ text
  | word _ => layout

/-- A word of the source and the line breaks and comments before it. -/
structure Lexeme where
  /-- The layout between the word before and this one. -/
  layout : String
  /-- The word and where it stands. -/
  word : Located String
  deriving DecidableEq, Repr, Inhabited

namespace Lexeme

/-- The words of the tokens, of which the first follows the given layout, and the layout after the
last word. -/
def gather (layout : String) : List (Located Token) → List Lexeme × String
  | [] => ([], layout)
  | ⟨.word text, span⟩ :: tokens =>
    let (lexemes, trailing) := gather "" tokens
    (⟨layout, ⟨text, span⟩⟩ :: lexemes, trailing)
  | ⟨token, _⟩ :: tokens => gather (token.extendLayout layout) tokens

/-- The words of the tokens and the layout after the last word. -/
def ofTokens (tokens : List (Located Token)) : List Lexeme × String := gather "" tokens

end Lexeme

end LittleMan
