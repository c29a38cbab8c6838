/-!
# Numbers as text

How numbers are written (in decimal, a minus sign before negative ones, filled up to a width) and
how digits are read back. Only ASCII digits are digits.
-/

namespace LittleMan.Decimal

/-! ### Writing -/

/-- The minus sign of a negative number, nothing for the others. -/
def sign (n : Int) : String := if n < 0 then "-" else ""

/-- The number in decimal, with a minus sign if it is negative. -/
def ofInt (n : Int) : String := sign n ++ n.natAbs.repr

/-- Copies of `c` that fill a text of `length` characters up to `width`. -/
def filler (c : Char) (width length : Nat) : String := String.ofList (List.replicate (width - length) c)

/-- The number in decimal with at least `width` characters: zeros stand between the sign, which
counts towards the width, and the digits. -/
def zeroFilled (width : Nat) (n : Int) : String :=
  sign n ++ filler '0' width (ofInt n).length ++ n.natAbs.repr

/-- The text followed by blanks up to `width` characters. -/
def blankFilled (width : Nat) (text : String) : String := text ++ filler ' ' width text.length

/-! ### Reading -/

/-- The value of a digit; letters of either case are the digits from ten to fifteen. -/
def digitValue? (c : Char) : Option Nat :=
  if '0' ≤ c ∧ c ≤ '9' then some (c.toNat - '0'.toNat)
  else if 'a' ≤ c ∧ c ≤ 'f' then some (c.toNat - 'a'.toNat + 10)
  else if 'A' ≤ c ∧ c ≤ 'F' then some (c.toNat - 'A'.toNat + 10)
  else none

/-- `n` with one more digit of `base` behind it, if `c` is such a digit. -/
def pushDigit? (base n : Nat) (c : Char) : Option Nat :=
  ((digitValue? c).filter (· < base)).map (n * base + ·)

/-- The number that digits of `base` write, the most significant first. There is at least one digit
and nothing else. -/
def digits? (base : Nat) : List Char → Option Nat
  | [] => none
  | c :: cs => (c :: cs).foldlM (pushDigit? base) 0

/-- A leading sign, `true` for minus, and what follows it. -/
def splitSign : List Char → Bool × List Char
  | '-' :: cs => (true, cs)
  | '+' :: cs => (false, cs)
  | cs => (false, cs)

/-- The number of magnitude `m` with the sign read before it. -/
def signed (negative : Bool) (m : Nat) : Int := if negative then -(m : Int) else m

/-- A whole number in decimal after at most one sign. -/
def toInt? (cs : List Char) : Option Int :=
  (digits? 10 (splitSign cs).2).map (signed (splitSign cs).1)

/-- A natural number in decimal, below `bound`, after at most one plus sign. -/
def toNatBelow? (bound : Nat) (cs : List Char) : Option Nat :=
  let magnitude := match cs with
    | '+' :: rest => rest
    | _ => cs
  (digits? 10 magnitude).filter (· < bound)

/-! ### Reading what is written -/

theorem pushDigit?_digitChar (n : Nat) {d : Nat} (h : d < 10) :
    pushDigit? 10 n d.digitChar = some (n * 10 + d) := by
  have hdigit : ∀ d < 10, (digitValue? (Nat.digitChar d)).filter (· < 10) = some d := by decide
  rw [pushDigit?, hdigit d h]
  rfl

theorem foldlM_toDigits (n : Nat) : (Nat.toDigits 10 n).foldlM (pushDigit? 10) 0 = some n := by
  induction n using Nat.strongRecOn with
  | ind n ih =>
    rcases Nat.lt_or_ge n 10 with hlt | hge
    · rw [Nat.toDigits_of_lt_base hlt, List.foldlM_cons, pushDigit?_digitChar 0 hlt, Nat.zero_mul,
        Nat.zero_add]
      rfl
    · have hdigits : n / 10 * 10 + n % 10 = n := by omega
      rw [Nat.toDigits_of_base_le (by decide) hge, List.foldlM_append,
        ih (n / 10) (by omega), Option.bind_eq_bind, Option.bind_some, List.foldlM_cons,
        pushDigit?_digitChar _ (Nat.mod_lt n (by decide)), hdigits]
      rfl

/-- The decimal form of a number begins with a digit. -/
theorem exists_repr_eq_cons (n : Nat) : ∃ c cs, n.repr.toList = c :: cs ∧ c.isDigit = true := by
  have hrepr : n.repr.toList = Nat.toDigits 10 n := by
    rw [Nat.repr_eq_ofList_toDigits, String.toList_ofList]
  obtain ⟨c, cs, hcons⟩ := List.exists_cons_of_ne_nil (Nat.toDigits_ne_nil : Nat.toDigits 10 n ≠ [])
  exact ⟨c, cs, hrepr.trans hcons, Nat.isDigit_of_mem_toDigits (by decide) (by decide)
    (hcons ▸ List.mem_cons_self)⟩

theorem digits?_repr (n : Nat) : digits? 10 n.repr.toList = some n := by
  obtain ⟨c, cs, hcons, -⟩ := exists_repr_eq_cons n
  rw [hcons, digits?, ← hcons, Nat.repr_eq_ofList_toDigits, String.toList_ofList, foldlM_toDigits]

/-- **A number is read back from its decimal form.** -/
theorem toNatBelow?_repr {bound n : Nat} (h : n < bound) :
    toNatBelow? bound n.repr.toList = some n := by
  obtain ⟨c, cs, hcons, hdigit⟩ := exists_repr_eq_cons n
  have hplus : c ≠ '+' := by
    rintro rfl
    exact absurd hdigit (by decide)
  have hdigits := digits?_repr n
  rw [hcons] at hdigits ⊢
  rw [toNatBelow?]
  · rw [hdigits, Option.filter_some, if_pos (by simpa using h)]
  · exact fun _ heq => hplus (List.cons.inj heq).1

theorem digits?_zeros_append (k n : Nat) :
    digits? 10 (List.replicate k '0' ++ n.repr.toList) = some n := by
  induction k with
  | zero => exact digits?_repr n
  | succ k ih =>
    obtain ⟨c, cs, hcons⟩ : ∃ c cs, List.replicate k '0' ++ n.repr.toList = c :: cs := by
      obtain ⟨c, cs, hcons, -⟩ := exists_repr_eq_cons n
      exact List.exists_cons_of_ne_nil (by simp [hcons])
    have hzero : pushDigit? 10 0 '0' = some 0 := by decide
    rw [hcons, digits?] at ih
    rw [List.replicate_succ, List.cons_append, hcons, digits?, List.foldlM_cons, hzero]
    exact ih

/-- A character alone is a number exactly if it is one of the ten digits. -/
theorem digits?_singleton (c : Char) : digits? 10 [c] =
    if 48 ≤ c.toNat ∧ c.toNat ≤ 57 then some (c.toNat - 48) else none := by
  have hle (a b : Char) : a ≤ b ↔ a.toNat ≤ b.toNat := by
    rw [Char.le_def, UInt32.le_iff_toNat_le]
    rfl
  have hzero : '0'.toNat = 48 := rfl
  have hnine : '9'.toNat = 57 := rfl
  simp only [digits?, List.foldlM_cons, List.foldlM_nil, pushDigit?, digitValue?, hle, hzero, hnine]
  split
  · next hdigit =>
    have hvalue : c.toNat - 48 < 10 := by omega
    simp [hvalue]
  · -- the value of a letter is no decimal digit
    split
    · simp
    · split <;> simp

theorem splitSign_of_ne {c : Char} (hminus : c ≠ '-') (hplus : c ≠ '+') (cs : List Char) :
    splitSign (c :: cs) = (false, c :: cs) := by
  rw [splitSign]
  · exact fun _ heq => hminus (List.cons.inj heq).1
  · exact fun _ heq => hplus (List.cons.inj heq).1

theorem splitSign_of_isDigit {c : Char} (hc : c.isDigit = true) (cs : List Char) :
    splitSign (c :: cs) = (false, c :: cs) := by
  refine splitSign_of_ne ?_ ?_ cs
  · rintro rfl
    exact absurd hc (by decide)
  · rintro rfl
    exact absurd hc (by decide)

/-- A character alone says a number exactly if it is a digit: a sign alone says none. -/
theorem toInt?_singleton (c : Char) : toInt? [c] =
    if 48 ≤ c.toNat ∧ c.toNat ≤ 57 then some ((c.toNat : Int) - 48) else none := by
  by_cases hminus : c = '-'
  · subst hminus
    rfl
  by_cases hplus : c = '+'
  · subst hplus
    rfl
  rw [toInt?, splitSign_of_ne hminus hplus, digits?_singleton]
  split
  · next hdigit =>
    rw [Option.map_some, signed, if_neg Bool.false_ne_true]
    exact congrArg some (by omega)
  · rfl

theorem toList_ofInt (n : Int) :
    (ofInt n).toList = (if n < 0 then ['-'] else []) ++ n.natAbs.repr.toList := by
  rw [ofInt, String.toList_append, sign]
  split <;> rfl

theorem zeroFilled_zero (n : Int) : zeroFilled 0 n = ofInt n := by
  have hfiller : filler '0' 0 (ofInt n).length = "" := by
    rw [filler, Nat.zero_sub]
    rfl
  rw [zeroFilled, hfiller, String.append_empty, ofInt]

theorem isDigit_of_mem_repr {n : Nat} : ∀ c ∈ n.repr.toList, c.isDigit = true := by
  intro c hc
  rw [Nat.repr_eq_ofList_toDigits, String.toList_ofList] at hc
  exact Nat.isDigit_of_mem_toDigits (by decide) (by decide) hc

theorem splitSign_append {n : Int} {cs : List Char} (hne : cs ≠ [])
    (h : ∀ c ∈ cs, c.isDigit = true) :
    splitSign ((if n < 0 then ['-'] else []) ++ cs) = (decide (n < 0), cs) := by
  split
  · next hneg => rw [List.singleton_append, splitSign, decide_eq_true hneg]
  · next hneg =>
    obtain ⟨c, cs, rfl⟩ := List.exists_cons_of_ne_nil hne
    rw [List.nil_append, splitSign_of_isDigit (h c List.mem_cons_self), decide_eq_false hneg]

theorem signed_natAbs (n : Int) : signed (decide (n < 0)) n.natAbs = n := by
  unfold signed
  split
  · next hneg =>
    have hneg := of_decide_eq_true hneg
    omega
  · next hneg =>
    have hneg := of_decide_eq_false (eq_false_of_ne_true hneg)
    omega

/-- A number that is filled up is its sign, if it is negative, and digits that say its magnitude. -/
theorem exists_digits_zeroFilled (width : Nat) (n : Int) :
    ∃ cs, (zeroFilled width n).toList = (if n < 0 then ['-'] else []) ++ cs ∧
      cs ≠ [] ∧ (∀ c ∈ cs, c.isDigit = true) ∧ digits? 10 cs = some n.natAbs := by
  obtain ⟨c, cs, hcons, -⟩ := exists_repr_eq_cons n.natAbs
  refine ⟨List.replicate (width - (ofInt n).length) '0' ++ n.natAbs.repr.toList, ?_, ?_, ?_,
    digits?_zeros_append _ _⟩
  · rw [zeroFilled, String.toList_append, String.toList_append, List.append_assoc, filler,
      String.toList_ofList, sign]
    split <;> rfl
  · rw [hcons]
    exact List.append_ne_nil_of_right_ne_nil _ (List.cons_ne_nil c cs)
  · refine List.forall_mem_append.mpr ⟨fun c hc => ?_, isDigit_of_mem_repr⟩
    rw [List.eq_of_mem_replicate hc]
    rfl

/-- **A whole number is read back from a column in which it is filled up with zeros.** -/
theorem toInt?_zeroFilled (width : Nat) (n : Int) :
    toInt? (zeroFilled width n).toList = some n := by
  obtain ⟨cs, htext, hne, hdigits, hread⟩ := exists_digits_zeroFilled width n
  rw [toInt?, htext, splitSign_append hne hdigits, hread, Option.map_some, signed_natAbs]

/-- **A whole number is read back from its decimal form.** -/
theorem toInt?_ofInt (n : Int) : toInt? (ofInt n).toList = some n := by
  rw [← zeroFilled_zero]
  exact toInt?_zeroFilled 0 n

/-- No two numbers are filled up to the same text. -/
theorem zeroFilled_inj {width : Nat} {m n : Int}
    (h : (zeroFilled width m).toList = (zeroFilled width n).toList) : m = n := by
  have hread := congrArg toInt? h
  rw [toInt?_zeroFilled, toInt?_zeroFilled] at hread
  exact Option.some.inj hread

/-- The decimal form begins with a minus sign or a digit. -/
theorem exists_ofInt_eq_cons (n : Int) :
    ∃ c cs, (ofInt n).toList = c :: cs ∧ (c = '-' ∨ c.isDigit = true) := by
  obtain ⟨c, cs, hcons, hdigit⟩ := exists_repr_eq_cons n.natAbs
  rw [toList_ofInt, hcons]
  split
  · exact ⟨'-', c :: cs, rfl, .inl rfl⟩
  · exact ⟨c, cs, rfl, .inr hdigit⟩

theorem ofInt_ne_empty (n : Int) : ofInt n ≠ "" := by
  intro h
  obtain ⟨c, cs, hcons, -⟩ := exists_ofInt_eq_cons n
  rw [h] at hcons
  cases hcons

end LittleMan.Decimal
