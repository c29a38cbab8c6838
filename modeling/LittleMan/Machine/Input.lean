import LittleMan.Text.Blank
import LittleMan.Text.Decimal
import LittleMan.Word

/-!
# Sources of numbers

When a machine reads a number it asks its source, which may put a number into the pending slot or
leave what is there. Sources are a silent one, a queue of numbers, and the lines of a text.
-/

namespace LittleMan

/-- A source of numbers with states of type `σ`. -/
class NumberSource (σ : Type) where
  /-- The pending number after the source has been asked, given the one before, and the next state
  of the source. -/
  ask : Word → σ → Word × σ

/-- The source that never supplies a number. -/
structure SilentInput where
  deriving DecidableEq, Repr, Inhabited

instance : NumberSource SilentInput where
  ask pending source := (pending, source)

/-! ### Queues -/

/-- A source that supplies numbers from a queue, and none when the queue has run dry. -/
structure QueuedInput where
  /-- The numbers to be supplied. -/
  queue : List Word := []
  /-- How often the source has been asked. -/
  requests : Nat := 0
  deriving DecidableEq, Repr, Inhabited

/-- The source with one more number at the end of its queue. -/
def QueuedInput.push (source : QueuedInput) (value : Word) : QueuedInput :=
  { source with queue := source.queue ++ [value] }

instance : NumberSource QueuedInput where
  ask pending source :=
    match source.queue with
    | [] => (pending, { source with requests := source.requests + 1 })
    | value :: queue => (value, ⟨queue, source.requests + 1⟩)

/-! ### Lines -/

/-- The number a text says, if it is one and a word: blanks around it do not count. -/
def Word.ofText? (text : String) : Option Word :=
  (Decimal.toInt? (Text.trim text.toList)).bind Word.ofInt?

/-- A source that reads a text line by line. `none` stands for a line that is no text. -/
structure LineInput where
  /-- The lines that have not been read. -/
  lines : List (Option String)
  deriving DecidableEq, Repr, Inhabited

namespace LineInput

/-- The first number on a line of its own, and the lines behind it. Lines that are no numbers are
passed over, a line that is no text ends the search. -/
def next : List (Option String) → Option Word × List (Option String)
  | [] => (none, [])
  | none :: lines => (none, lines)
  | some line :: lines =>
    match Word.ofText? line with
    | some value => (some value, lines)
    | none => next lines

/-- Whether the search for a number ends at a line. -/
def ends : Option String → Bool
  | none => true
  | some line => (Word.ofText? line).isSome

/-- The source with more lines behind those it has. -/
def push (source : LineInput) (lines : List (Option String)) : LineInput := ⟨source.lines ++ lines⟩

/-- What stands behind the line at which the search ends is not looked at. -/
theorem next_append {lines : List (Option String)} (h : ∃ line ∈ lines, ends line = true)
    (more : List (Option String)) :
    next (lines ++ more) = ((next lines).1, (next lines).2 ++ more) := by
  induction lines with
  | nil =>
    obtain ⟨line, hline, -⟩ := h
    cases hline
  | cons line lines ih =>
    cases line with
    | none => rfl
    | some text =>
      cases hnumber : Word.ofText? text with
      | some value => simp [next, hnumber]
      | none =>
        have hrest : ∃ line ∈ lines, ends line = true := by simpa [ends, hnumber] using h
        simpa [next, hnumber] using ih hrest

end LineInput

instance : NumberSource LineInput where
  ask pending source :=
    let (value, lines) := LineInput.next source.lines
    (value.getD pending, ⟨lines⟩)

end LittleMan
