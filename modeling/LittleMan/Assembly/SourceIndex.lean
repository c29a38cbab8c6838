import LittleMan.Source.Location
import LittleMan.Table

/-!
# Source indices

For each address the part of the source that was assembled for it, as a span in bytes or in lines
and columns. Machine errors are reported at a source line with the help of such an index.
-/

namespace LittleMan

/-- Places in the source, by address. -/
abbrev SourceIndex (ν : Type) := Table Nat ν

namespace SourceIndex

variable {ν : Type}

/-- The index of a program that has been moved `offset` mailboxes further. -/
def relocate (t : SourceIndex ν) (offset : Nat) : SourceIndex ν :=
  t.mapKeys (· + offset) fun _ _ => Nat.add_right_cancel

/-- The text that was assembled for an address. -/
def statement? (t : SourceIndex Span) (address : Nat) (source : String) : Option String :=
  (t.get? address).bind (·.text? source)

/-- The index in lines and columns, if no span of it cuts a character. -/
def toLines? (t : SourceIndex Span) (source : String) : Option (SourceIndex LineRange) :=
  t.mapValues? (·.toLines? source)

/-- The line on which the statement of an address starts. -/
def line? (t : SourceIndex LineRange) (address : Nat) : Option Nat :=
  (t.get? address).map (·.start.line)

end SourceIndex

end LittleMan
