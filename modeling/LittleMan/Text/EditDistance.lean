/-!
# Edit distance

How many characters have to be inserted, deleted or replaced to turn one text into another. The
distances of all the suffixes of the second text are computed together, one row for each suffix of
the first, so that no pair of suffixes is compared twice.
-/

namespace LittleMan.Text

variable {α : Type} [DecidableEq α]

/-- The distances of the empty text to all suffixes of `ys`, the longest suffix first. -/
def emptyRow : List α → List Nat
  | [] => [0]
  | _ :: ys => (ys.length + 1) :: emptyRow ys

/-- The distances of `x :: xs` to all suffixes of a text, given those of `xs`: the last character
is deleted, inserted, or matched with the one at its place. -/
def nextRow (x : α) : List α → List Nat → List Nat
  | y :: ys, d :: e :: ds =>
    let row := nextRow x ys (e :: ds)
    min (min (d + 1) (row.headD 0 + 1)) (if x = y then e else e + 1) :: row
  | _, d :: _ => [d + 1]
  | _, [] => []

/-- The distances of `xs` to all suffixes of `ys`, the longest suffix first. -/
def distanceRow (xs ys : List α) : List Nat := xs.foldr (nextRow · ys) (emptyRow ys)

/-- The least number of insertions, deletions and replacements that turn `xs` into `ys`. -/
def editDistance (xs ys : List α) : Nat := (distanceRow xs ys).headD 0

end LittleMan.Text
