import LittleMan.Opcode
import LittleMan.Source.Location
import LittleMan.Text.Decimal

/-!
# Assembly errors

Why a source is refused, and where. `AssemblyError.report?` adds what a reader of the source needs:
line, column and the text found there.
-/

namespace LittleMan

/-- Why a source, or a list of statements, is refused. -/
inductive AssemblyError.Cause where
  /-- There is no mnemonic where one has to stand. The word, or the two words, found there, and the
  mnemonic that may have been meant. -/
  | unknownMnemonic (word : String) (suggestion : Option Opcode)
  /-- A number that does not fit into a word, as it was written. -/
  | numberTooLarge (word : String)
  /-- The source ends where the operand of an opcode has to stand. -/
  | missingOperand (opcode : Opcode)
  /-- A label is referred to and never defined. -/
  | undefinedLabel (label : String)
  /-- A label is defined again although that is not allowed; the definition before stands at
  `previous`. -/
  | duplicateLabel (label : String) (previous : Span)
  /-- A statement with a reference claims an address outside the program. Statements that were read
  from a source never do. -/
  | strayAddress (address : Nat)
  deriving DecidableEq, Repr, Inhabited

/-- The reason in words. -/
def AssemblyError.Cause.message : AssemblyError.Cause → String
  | unknownMnemonic word (some suggestion) =>
    "invalid op '" ++ word ++ "', did you mean '" ++ suggestion.mnemonic ++ "'?"
  | unknownMnemonic word none => "invalid op '" ++ word ++ "'"
  | numberTooLarge word => "'" ++ word ++ "' is not a valid number"
  | missingOperand opcode => opcode.mnemonic ++ " expects an operand"
  | undefinedLabel label => "undefined reference " ++ label
  | duplicateLabel label _ => "label '" ++ label ++ "' is defined more than once"
  | strayAddress address => "address " ++ address.repr ++ " is outside of the program"

/-- The reason for which an assembly was given up, and the words it is about. -/
structure AssemblyError where
  /-- The reason. -/
  cause : AssemblyError.Cause
  /-- Where the words stand, if the source does not simply end too early. -/
  span : Option Span
  deriving DecidableEq, Repr, Inhabited

namespace AssemblyError

/-- The reason and the place, in bytes. -/
def message (e : AssemblyError) : String :=
  match e.span with
  | some span => e.cause.message ++ " at " ++ span.start.repr ++ ".." ++ span.stop.repr
  | none => e.cause.message ++ " at end of input"

/-! ### Reports -/

/-- What is shown to the author of a source. -/
structure Report where
  /-- Where the error stands. -/
  location : Location
  /-- The reason. -/
  cause : Cause
  /-- The text found there, up to the end of the line and of at most twenty characters. -/
  excerpt : String
  deriving DecidableEq, Repr, Inhabited

/-- The report in words. -/
def Report.text (r : Report) : String :=
  "at line " ++ r.location.line.repr ++ " col " ++ r.location.column.repr ++ ": " ++
    r.cause.message ++ if r.excerpt.isEmpty then "" else ", at '" ++ r.excerpt ++ "'"

/-- How many characters an excerpt has at most. -/
def excerptLength : Nat := 20

/-- The byte offset an error is reported at: where its words start, or the end of the source. -/
def offset (e : AssemblyError) (source : String) : Nat :=
  let size := Source.byteSize source.toList
  match e.span with
  | some span => min span.start size
  | none => size

/-- The report of an error found in `source`; there is none if the offset of the error cuts a
character of the source. -/
def report? (e : AssemblyError) (source : String) : Option Report :=
  (Source.splitAtByte? (e.offset source) source.toList).map fun (before, after) =>
    { location := Location.after before
      cause := e.cause
      excerpt := String.ofList ((after.takeWhile (· != '\n')).take excerptLength) }

/-- An error is reported with what stands before and behind the place it is reported at. -/
theorem report?_of_append {e : AssemblyError} {source : String} {before after : List Char}
    (hsource : source.toList = before ++ after)
    (hplace : e.offset source = Source.byteSize before) :
    e.report? source = some ⟨Location.after before, e.cause,
      String.ofList ((after.takeWhile (· != '\n')).take excerptLength)⟩ := by
  rw [report?, hplace, Source.splitAtByte?_eq_some_iff.mpr ⟨hsource, rfl⟩, Option.map_some]

theorem offset_of_append {e : AssemblyError} {source : String} {before after : List Char}
    (hsource : source.toList = before ++ after)
    (hplace : Source.byteSize before =
      (e.span.map Span.start).getD (Source.byteSize source.toList)) :
    e.offset source = Source.byteSize before := by
  cases hspan : e.span with
  | none =>
    rw [hspan] at hplace
    rw [offset, hspan]
    exact hplace.symm
  | some span =>
    rw [hspan] at hplace
    have hstart : Source.byteSize before = span.start := hplace
    have hle : span.start ≤ Source.byteSize source.toList := by
      rw [hsource, Source.byteSize_append, ← hstart]
      exact Nat.le_add_right _ _
    rw [offset, hspan]
    exact (Nat.min_eq_left hle).trans hstart.symm

end AssemblyError

end LittleMan
