import LittleMan.Text.Decimal
import LittleMan.Word

/-!
# Numerals

A word of the source may be a number: an optional sign and then decimal digits, or `0x` and
hexadecimal digits. A numeral whose magnitude is larger than the largest word is too large; any word
of another shape is no numeral at all.
-/

namespace LittleMan

/-- What a word of the source says as a number. -/
inductive Numeral where
  /-- A number that is a word. -/
  | number (value : Word)
  /-- Written like a number, but too large for a word. -/
  | tooLarge
  /-- Not written like a number. -/
  | notANumeral
  deriving DecidableEq, Repr, Inhabited

namespace Numeral

/-- The magnitude written by the part of a numeral that follows the sign. -/
def magnitude? : List Char → Option Nat
  | '0' :: 'x' :: digits => Decimal.digits? 16 digits
  | '0' :: 'X' :: digits => Decimal.digits? 16 digits
  | digits => Decimal.digits? 10 digits

/-- Reads a word of the source as a number. -/
def read (text : String) : Numeral :=
  let (negative, rest) := Decimal.splitSign text.toList
  match magnitude? rest with
  | none => notANumeral
  | some m =>
    if m ≤ Word.greatest then number (Int32.ofInt (Decimal.signed negative m)) else tooLarge

/-! ### Reading what is written -/

theorem magnitude?_of_isDigit {cs : List Char} (h : ∀ c ∈ cs, c.isDigit = true) :
    magnitude? cs = Decimal.digits? 10 cs := by
  unfold magnitude?
  split
  · exact absurd (h 'x' (by simp)) (by decide)
  · exact absurd (h 'X' (by simp)) (by decide)
  · rfl

/-- **A number that is filled up with zeros is read back** if its magnitude is small enough, and is
too large otherwise. -/
theorem read_zeroFilled (width : Nat) (n : Int) :
    read (Decimal.zeroFilled width n) =
      if n.natAbs ≤ Word.greatest then number (Int32.ofInt n) else tooLarge := by
  obtain ⟨cs, htext, hne, hdigits, hread⟩ := Decimal.exists_digits_zeroFilled width n
  rw [read, htext, Decimal.splitSign_append hne hdigits]
  dsimp only
  rw [magnitude?_of_isDigit hdigits, hread]
  dsimp only
  rw [Decimal.signed_natAbs]

end Numeral

end LittleMan
