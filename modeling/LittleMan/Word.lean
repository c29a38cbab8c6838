/-!
# Words

Every mailbox and the accumulator hold a word, a signed number of 32 bits. Data may be any word;
instructions are the words of three digits. The results of arithmetic are kept between −999 and
999: `Word.wrap` brings an exact sum or difference back into that range.
-/

namespace LittleMan

/-- The content of a mailbox, of the accumulator or of the pending input. -/
abbrev Word := Int32

/-- How many mailboxes the machine has; their addresses are `0` to `99`. -/
def mailboxCount : Nat := 100

namespace Word

/-- The largest word, which is also the largest magnitude of a number in a source. -/
def greatest : Nat := 2147483647

/-- The word of a whole number, or `none` if the number does not fit into 32 bits. -/
def ofInt? (n : Int) : Option Word :=
  if -(greatest : Int) - 1 ≤ n ∧ n ≤ greatest then some (Int32.ofInt n) else none

/-- A number is that of a word if it fits into 32 bits. -/
theorem ofInt?_eq_some_iff {n : Int} {word : Word} : ofInt? n = some word ↔ word.toInt = n := by
  unfold ofInt? greatest
  constructor
  · intro h
    split at h
    · obtain rfl := Option.some.inj h
      exact Int32.toInt_ofInt_of_le (by omega) (by omega)
    · cases h
  · rintro rfl
    have hle := word.le_toInt
    have hlt := word.toInt_lt
    rw [if_pos (by omega), Int32.ofInt_toInt]

/-- A sum that is a word does not wrap around. -/
theorem toInt_add_ofNat {word : Word} {n : Nat} (hlower : 0 ≤ word.toInt)
    (hupper : word.toInt + n ≤ greatest) : (word + Int32.ofNat n).toInt = word.toInt + n := by
  unfold greatest at hupper
  rw [Int32.toInt_add, Int32.toInt_ofNat_of_lt (by omega)]
  exact Int.bmod_eq_of_le_mul_two (by omega) (by omega)

/-- The value between −999 and 999 that differs from the exact `total` by a multiple of 1999, so
that `1000` becomes `-999` and `-1000` becomes `999`. -/
def wrap (total : Int) : Word := Int32.ofInt ((total + 999) % 1999 - 999)

end Word

end LittleMan
