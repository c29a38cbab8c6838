/-!
# Calculating within bounds

A processor calculates with numbers of 64 bits, and counts addresses and times up to a greatest one.
It breaks a program off whose numbers leave these bounds, or that uses a mailbox that does not exist
(`Trap`).
-/

namespace LittleMan

/-- Why a program is broken off. -/
inductive Trap where
  /-- An element is used that does not exist. -/
  | noElement (index : Nat)
  /-- A number leaves its bounds. -/
  | overflow (n : Int)
  deriving DecidableEq, Repr

/-- What is calculated by a program that may be broken off. -/
abbrev Checked := Except Trap

namespace Checked

/-- A number of 64 bits. -/
def long (n : Int) : Checked Int :=
  if -9223372036854775808 ≤ n ∧ n ≤ 9223372036854775807 then .ok n else .error (.overflow n)

/-- A number up to the greatest one. -/
def upTo (greatest n : Nat) : Checked Nat :=
  if n ≤ greatest then .ok n else .error (.overflow n)

@[simp] theorem ok_bind {α β : Type} (a : α) (f : α → Checked β) :
    (Except.ok a >>= f : Checked β) = f a := rfl

theorem long_eq {n : Int} (hlower : -9223372036854775808 ≤ n) (hupper : n ≤ 9223372036854775807) :
    long n = .ok n := if_pos ⟨hlower, hupper⟩

theorem upTo_eq {greatest n : Nat} (h : n ≤ greatest) : upTo greatest n = .ok n := if_pos h

theorem upTo_eq_error {greatest n : Nat} (h : greatest < n) :
    upTo greatest n = .error (.overflow n) := if_neg (Nat.not_le.mpr h)

end Checked

end LittleMan
