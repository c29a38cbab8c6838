import LittleMan.Assembly.Layout
import LittleMan.Assembly.Replay

/-!
# Reading word by word

A cursor over a source for callers that want one word at a time. It can go past the layout before
the next word, read the word, or look at it and go back to where it stood.
-/

namespace LittleMan

/-- A cursor over the words of a source. -/
structure WordCursor where
  /-- The tokens, of which those before the cursor have been read. -/
  tokens : Replay (Located Token)

namespace WordCursor

/-- A cursor at the start of a source. -/
def ofSource (source : String) : WordCursor := ⟨Replay.ofList (Token.ofSource source)⟩

/-- Goes to the next word, or to the end, and adds the layout on the way to `layout`. -/
def passFrom (layout : String) (tokens : Replay (Located Token)) :
    String × Replay (Located Token) :=
  match h : tokens.next? with
  | none => (layout, tokens)
  | some (⟨.word _, _⟩, drawn) => (layout, (drawn.seek? (-1)).getD tokens)
  | some (⟨.newline, _⟩, drawn) => passFrom (Token.newline.extendLayout layout) drawn
  | some (⟨.comment text, _⟩, drawn) =>
    passFrom ((Token.comment text).extendLayout layout) drawn
termination_by tokens.rest.length
decreasing_by all_goals simp [Replay.rest_eq_cons_of_next? h]

/-- Goes to the next word, or to the end, and gives the layout on the way. -/
def passLayout (c : WordCursor) : String × WordCursor :=
  let (layout, tokens) := passFrom "" c.tokens
  (layout, ⟨tokens⟩)

/-- Reads the next word and goes behind it; at the end there is none. -/
def read (c : WordCursor) : Option (Located String) × WordCursor :=
  let (_, passed) := c.passLayout
  match passed.tokens.next? with
  | some (⟨.word text, span⟩, tokens) => (some ⟨text, span⟩, ⟨tokens⟩)
  | _ => (none, passed)

/-- Reads the next word and goes back to where the cursor stood. -/
def peek (c : WordCursor) : Option (Located String) × WordCursor :=
  let (word, after) := c.read
  let back := (c.tokens.position : Int) - after.tokens.position
  (word, ⟨(after.tokens.seek? back).getD after.tokens⟩)

end WordCursor

end LittleMan
