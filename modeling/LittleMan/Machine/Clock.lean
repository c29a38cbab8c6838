import LittleMan.Checked

/-!
# Clocks and deadlines

A run may be given a budget of time. When it begins, the clock is looked at and the deadline is
calculated, which must be a time that the clock can show; before each instruction the clock is
looked at again. Times are in nanoseconds.
-/

namespace LittleMan

/-- A clock, as it is looked at during one run. -/
structure Clock where
  /-- The time it shows when it is looked at once more after that many times. -/
  reading : Nat → Nat
  /-- The latest time that it can show. -/
  latest : Nat
  /-- It does not go back. -/
  reading_le_succ : ∀ n, reading n ≤ reading (n + 1)
  /-- It shows times that it can show. -/
  reading_le_latest : ∀ n, reading n ≤ latest

namespace Clock

/-- The clock that always shows the same time. -/
def still (time latest : Nat) (h : time ≤ latest) : Clock where
  reading _ := time
  latest := latest
  reading_le_succ _ := Nat.le_refl time
  reading_le_latest _ := h

/-- The time at which a budget will have passed, as it is calculated when the run begins. -/
def deadline (clock : Clock) (budget : Nat) : Checked Nat :=
  Checked.upTo clock.latest (clock.reading 0 + budget)

/-- Whether the deadline has not come yet when that many instructions have been executed. -/
def isBefore (clock : Clock) (deadline executed : Nat) : Bool :=
  clock.reading (executed + 1) < deadline

variable {clock : Clock} {budget : Nat}

theorem deadline_eq (h : clock.reading 0 + budget ≤ clock.latest) :
    clock.deadline budget = .ok (clock.reading 0 + budget) := Checked.upTo_eq h

theorem deadline_eq_error (h : clock.latest < clock.reading 0 + budget) :
    clock.deadline budget = .error (.overflow ↑(clock.reading 0 + budget)) :=
  Checked.upTo_eq_error h

theorem reading_zero_le (clock : Clock) (n : Nat) : clock.reading 0 ≤ clock.reading n := by
  induction n with
  | zero => exact Nat.le_refl _
  | succ n ih => exact Nat.le_trans ih (clock.reading_le_succ n)

/-- The time at which the run begins has passed before its first instruction. -/
theorem isBefore_reading_zero (clock : Clock) (executed : Nat) :
    clock.isBefore (clock.reading 0) executed = false :=
  decide_eq_false (Nat.not_lt.mpr (clock.reading_zero_le (executed + 1)))

end Clock

end LittleMan
