import LittleMan.Assembly.Numeral
import Mathlib.Data.Nat.Digits.Defs

/-!
# Which words are numbers

A word of the source is written like a number if it is spelt with an optional sign, an optional mark
for base sixteen, and digits of the base (`Numeral.Spelling`). The digits say the number that has
them in positional notation (`Numeral.Spelling.magnitude`). What a word is read as is decided by its
spelling: the number that is spelt if its magnitude is not too large for a word, and no number at
all if there is no spelling (`Numeral.read_spellings`).

Reading takes the sign off (`Decimal.exists_splitSign`), then the mark
(`Numeral.exists_mark_of_magnitude?`), and then goes by the digits one after the other
(`Decimal.digits?_eq_some_iff`). The other way round, no digit can be taken for a sign or a mark, so
that a spelling is read part by part (`Numeral.Spelling.splitSign_chars`,
`Numeral.Spelling.magnitude?_body`) and there is only one for each word.
-/

namespace LittleMan

/-! ### Digits -/

namespace Decimal

/-- The digits up to base sixteen, from the one for zero on. -/
def alphabet : List Char := "0123456789abcdef".toList

/-- The value of a digit, of which the letters may be of either case: its place among the digits. No
other character has a value below sixteen. -/
def digitOf (c : Char) : Nat := alphabet.idxOf c.toLower

/-- The characters are digits of the base. -/
def AreDigits (base : Nat) (cs : List Char) : Prop := ∀ c ∈ cs, digitOf c < base

instance (base : Nat) (cs : List Char) : Decidable (AreDigits base cs) :=
  decidable_of_iff (cs.all (digitOf · < base) = true) (by simp [AreDigits])

/-- The number that digits of that base write, the last of them being the ones. -/
def numberOf (base : Nat) (cs : List Char) : Nat := Nat.ofDigits base (cs.map digitOf).reverse

theorem toLower_cases (c : Char) :
    c.toLower = c ∨ 65 ≤ c.toNat ∧ c.toNat ≤ 90 ∧ c.toLower.toNat = c.toNat + 32 := by
  unfold Char.toLower
  split
  · next hcapital =>
    have hfirst : 65 ≤ c.toNat := UInt32.le_iff_toNat_le.mp hcapital.1
    have hlast : c.toNat ≤ 90 := UInt32.le_iff_toNat_le.mp hcapital.2
    have hshift : ('a'.val - 'A'.val).toNat = 32 := rfl
    refine .inr ⟨hfirst, hlast, ?_⟩
    show (c.val + ('a'.val - 'A'.val)).toNat = c.val.toNat + 32
    have hval : c.val.toNat ≤ 90 := hlast
    rw [UInt32.toNat_add, hshift]
    omega
  · exact .inl rfl

theorem eq_of_toLower_eq {c d : Char} (h : c.toLower = d) (hd : d.toNat < 97) : c = d := by
  rcases toLower_cases c with hsame | ⟨hfirst, -, hsmall⟩
  · exact hsame.symm.trans h
  · rw [h] at hsmall
    omega

theorem digitValue?_eq (c : Char) :
    digitValue? c = if digitOf c < 16 then some (digitOf c) else none := by
  rcases Nat.lt_or_ge c.toNat 128 with hlt | hge
  · have hascii : ∀ n < 128, digitValue? (Char.ofNat n) =
        if digitOf (Char.ofNat n) < 16 then some (digitOf (Char.ofNat n)) else none := by
      decide +kernel
    simpa using hascii c.toNat hlt
  · -- all digits are ASCII characters
    have hle (d : Char) (hd : d.toNat < 128) : ¬ c ≤ d := by
      rw [Char.le_def, UInt32.le_iff_toNat_le]
      exact Nat.not_le.mpr (Nat.lt_of_lt_of_le hd hge)
    have hlower : c.toLower = c := by
      rcases toLower_cases c with h | ⟨-, h, -⟩
      · exact h
      · omega
    have hmem : c ∉ alphabet := by
      have hall : alphabet.all (·.toNat < 128) = true := by decide
      intro hmem
      exact Nat.not_lt.mpr hge (of_decide_eq_true (List.all_eq_true.mp hall c hmem))
    have hdigit : digitOf c = 16 := by
      rw [digitOf, hlower]
      exact List.idxOf_eq_length hmem
    simp [digitValue?, hle '9' (by decide), hle 'f' (by decide), hle 'F' (by decide), hdigit]

variable {base : Nat}

theorem pushDigit?_eq (hbase : base ≤ 16) (n : Nat) (c : Char) :
    pushDigit? base n c = if digitOf c < base then some (n * base + digitOf c) else none := by
  rw [pushDigit?, digitValue?_eq]
  by_cases hdigit : digitOf c < base
  · simp [hdigit, Nat.lt_of_lt_of_le hdigit hbase]
  · by_cases hvalue : digitOf c < 16 <;> simp [hdigit, hvalue, Nat.le_of_not_lt hdigit]

theorem areDigits_cons {c : Char} {cs : List Char} :
    AreDigits base (c :: cs) ↔ digitOf c < base ∧ AreDigits base cs :=
  List.forall_mem_cons

theorem foldlM_pushDigit? (hbase : base ≤ 16) (n : Nat) (cs : List Char) :
    cs.foldlM (pushDigit? base) n =
      if AreDigits base cs then some (n * base ^ cs.length + numberOf base cs) else none := by
  induction cs generalizing n with
  | nil => simp [AreDigits, numberOf]
  | cons c cs ih =>
    rw [List.foldlM_cons, pushDigit?_eq hbase]
    by_cases hc : digitOf c < base
    · have hnumber : numberOf base (c :: cs) = base ^ cs.length * digitOf c + numberOf base cs := by
        simp [numberOf, Nat.ofDigits_append, Nat.add_comm]
      simp only [hc, if_true, Option.bind_eq_bind, Option.bind_some, ih, areDigits_cons, true_and,
        hnumber, List.length_cons]
      congr 2
      ring
    · simp [hc, areDigits_cons]

/-- **Digits are read as the number that they write**, and nothing else is read. -/
theorem digits?_eq_some_iff (hbase : base ≤ 16) {cs : List Char} {m : Nat} :
    digits? base cs = some m ↔
      cs ≠ [] ∧ AreDigits base cs ∧ numberOf base cs = m := by
  cases cs with
  | nil => simp [digits?]
  | cons c cs =>
    rw [digits?, foldlM_pushDigit? hbase, Nat.zero_mul, Nat.zero_add]
    simp

/-- The sign of a text, which may be missing, is split off. -/
theorem exists_splitSign (cs : List Char) : ∃ sign ∈ [[], ['+'], ['-']],
    sign ++ (splitSign cs).2 = cs ∧ (splitSign cs).1 = decide (sign = ['-']) := by
  unfold splitSign
  split
  · exact ⟨['-'], by simp, rfl, rfl⟩
  · exact ⟨['+'], by simp, rfl, rfl⟩
  · exact ⟨[], by simp, rfl, rfl⟩

end Decimal

/-! ### Spellings -/

namespace Numeral

open Decimal

/-- The base that a mark in front of the digits stands for. -/
def base (mark : List Char) : Nat := if mark = [] then 10 else 16

theorem base_le (mark : List Char) : base mark ≤ 16 := by
  unfold base
  split <;> decide

/-- How a number can be written. -/
structure Spelling where
  /-- The sign, if there is one. -/
  sign : List Char
  /-- The mark for base sixteen, if there is one. -/
  mark : List Char
  /-- The digits. -/
  digits : List Char
  /-- There is no other sign, -/
  sign_mem : sign ∈ [[], ['+'], ['-']]
  /-- and no other mark. -/
  mark_mem : mark ∈ [[], ['0', 'x'], ['0', 'X']]
  /-- There is at least one digit, -/
  digits_ne_nil : digits ≠ []
  /-- and nothing but digits of the base. -/
  areDigits : AreDigits (base mark) digits

namespace Spelling

/-- The word that is spelt. -/
def text (s : Spelling) : String := String.ofList (s.sign ++ (s.mark ++ s.digits))

/-- The number that the digits write. -/
def magnitude (s : Spelling) : Nat := numberOf (base s.mark) s.digits

/-- The number with its sign. -/
def value (s : Spelling) : Int := if s.sign = ['-'] then -(s.magnitude : Int) else s.magnitude

variable (s : Spelling)

/-- A character whose value is too large is none of the digits. -/
theorem not_mem_digits {c : Char} (h : base s.mark ≤ digitOf c) : c ∉ s.digits :=
  fun hmem => Nat.not_lt.mpr h (s.areDigits c hmem)

theorem sign_cases : s.sign = [] ∨ s.sign = ['+'] ∨ s.sign = ['-'] := by
  simpa using s.sign_mem

theorem mark_cases : s.mark = [] ∨ s.mark = ['0', 'x'] ∨ s.mark = ['0', 'X'] := by
  simpa using s.mark_mem

theorem exists_body_eq_cons : ∃ c cs, s.mark ++ s.digits = c :: cs ∧ digitOf c < 16 := by
  rcases s.mark_cases with hmark | hmark | hmark
  · obtain ⟨c, cs, hdigits⟩ := List.exists_cons_of_ne_nil s.digits_ne_nil
    have hlt : digitOf c < base s.mark := s.areDigits c (hdigits ▸ List.mem_cons_self)
    exact ⟨c, cs, by rw [hmark, hdigits]; rfl, Nat.lt_of_lt_of_le hlt (base_le s.mark)⟩
  · exact ⟨'0', 'x' :: s.digits, by rw [hmark]; rfl, by decide⟩
  · exact ⟨'0', 'X' :: s.digits, by rw [hmark]; rfl, by decide⟩

theorem splitSign_chars :
    splitSign (s.sign ++ (s.mark ++ s.digits)) = (decide (s.sign = ['-']), s.mark ++ s.digits) := by
  rcases s.sign_cases with hsign | hsign | hsign
  · obtain ⟨c, cs, hbody, hdigit⟩ := s.exists_body_eq_cons
    have hne (d : Char) (hd : 16 ≤ digitOf d) : c ≠ d := by
      rintro rfl
      exact Nat.not_lt.mpr hd hdigit
    rw [hsign, hbody, List.nil_append,
      splitSign_of_ne (hne '-' (by decide)) (hne '+' (by decide))]
    rfl
  · rw [hsign]
    rfl
  · rw [hsign]
    rfl

/-- Without a mark, the digits are not taken for one: its letter is no digit then. -/
theorem digits_ne_mark_append (h : s.mark = []) {mark : List Char}
    (hmark : mark = ['0', 'x'] ∨ mark = ['0', 'X']) (cs : List Char) : s.digits ≠ mark ++ cs := by
  have hbase : base s.mark = 10 := by rw [h]; rfl
  intro heq
  rcases hmark with rfl | rfl
  · exact s.not_mem_digits (c := 'x') (by rw [hbase]; decide) (by simp [heq])
  · exact s.not_mem_digits (c := 'X') (by rw [hbase]; decide) (by simp [heq])

theorem magnitude?_body : magnitude? (s.mark ++ s.digits) = some s.magnitude := by
  have hdigits : digits? (base s.mark) s.digits = some s.magnitude :=
    (digits?_eq_some_iff (base_le s.mark)).mpr ⟨s.digits_ne_nil, s.areDigits, rfl⟩
  rcases s.mark_cases with hmark | hmark | hmark
  · rw [hmark] at hdigits
    rw [hmark, List.nil_append, magnitude?]
    · exact hdigits
    · exact s.digits_ne_mark_append hmark (.inl rfl)
    · exact s.digits_ne_mark_append hmark (.inr rfl)
  · rw [hmark] at hdigits ⊢
    exact hdigits
  · rw [hmark] at hdigits ⊢
    exact hdigits

/-- **A spelling is read as the number that it spells**, if its magnitude is not too large. -/
theorem read_text : read s.text =
    if s.magnitude ≤ Word.greatest then number (Int32.ofInt s.value) else tooLarge := by
  rw [read, text, String.toList_ofList, splitSign_chars]
  dsimp only
  rw [magnitude?_body]
  dsimp only [signed, value]
  simp only [decide_eq_true_eq]

end Spelling

/-- What can be read after a sign has digits of some base. -/
theorem exists_mark_of_magnitude? {cs : List Char} {m : Nat} (h : magnitude? cs = some m) :
    ∃ mark ∈ [[], ['0', 'x'], ['0', 'X']], ∃ digits, mark ++ digits = cs ∧
      digits ≠ [] ∧ AreDigits (base mark) digits := by
  unfold magnitude? at h
  split at h
  · next digits =>
    obtain ⟨hne, hdigits, -⟩ := (digits?_eq_some_iff (by decide)).mp h
    exact ⟨['0', 'x'], by simp, digits, rfl, hne, hdigits⟩
  · next digits =>
    obtain ⟨hne, hdigits, -⟩ := (digits?_eq_some_iff (by decide)).mp h
    exact ⟨['0', 'X'], by simp, digits, rfl, hne, hdigits⟩
  · obtain ⟨hne, hdigits, -⟩ := (digits?_eq_some_iff (by decide)).mp h
    exact ⟨[], by simp, cs, rfl, hne, hdigits⟩

/-- **A word is no number exactly if there is no spelling of it.** -/
theorem read_eq_notANumeral_iff {word : String} :
    read word = notANumeral ↔ ¬ ∃ s : Spelling, s.text = word := by
  constructor
  · rintro h ⟨s, rfl⟩
    rw [s.read_text] at h
    split at h <;> cases h
  · intro h
    obtain ⟨sign, hsign, hword, -⟩ := exists_splitSign word.toList
    rw [read]
    cases hmagnitude : magnitude? (splitSign word.toList).2 with
    | none => simp only [hmagnitude]
    | some m =>
      obtain ⟨mark, hmark, digits, hbody, hne, hdigits⟩ := exists_mark_of_magnitude? hmagnitude
      refine absurd ⟨⟨sign, mark, digits, hsign, hmark, hne, hdigits⟩, ?_⟩ h
      rw [Spelling.text, hbody, hword, String.ofList_toList]

/-! ### Other spellings -/

namespace Spelling

/-- Where one of two spellings has no mark, the other one has none. -/
theorem mark_eq_nil {s s' : Spelling} (hbody : s.mark ++ s.digits = s'.mark ++ s'.digits)
    (h : s.mark = []) : s'.mark = [] := by
  rw [h, List.nil_append] at hbody
  rcases s'.mark_cases with hmark | hmark | hmark
  · exact hmark
  · exact absurd hbody (s.digits_ne_mark_append h (.inl hmark) _)
  · exact absurd hbody (s.digits_ne_mark_append h (.inr hmark) _)

/-- **No word is spelt in two ways.** -/
theorem eq_of_text_eq {s s' : Spelling} (h : s.text = s'.text) : s = s' := by
  have hchars : s.sign ++ (s.mark ++ s.digits) = s'.sign ++ (s'.mark ++ s'.digits) :=
    String.ofList_injective h
  have hbody : s.mark ++ s.digits = s'.mark ++ s'.digits := by
    have hsplit := congrArg (fun cs => (splitSign cs).2) hchars
    simpa only [splitSign_chars] using hsplit
  have hsign : s.sign = s'.sign := List.append_cancel_right (hbody ▸ hchars)
  have hlength (t : Spelling) : t.mark = [] ∨ t.mark.length = 2 := by
    rcases t.mark_cases with hmark | hmark | hmark
    · exact .inl hmark
    · exact .inr (congrArg List.length hmark)
    · exact .inr (congrArg List.length hmark)
  have hmarks : s.mark.length = s'.mark.length := by
    rcases hlength s with hnone | htwo
    · rw [hnone, mark_eq_nil hbody hnone]
    rcases hlength s' with hnone' | htwo'
    · rw [hnone', mark_eq_nil hbody.symm hnone']
    rw [htwo, htwo']
  obtain ⟨hmark, hdigits⟩ := List.append_inj hbody hmarks
  cases s
  cases s'
  cases hsign
  cases hmark
  cases hdigits
  rfl

variable (s : Spelling) {cs : List Char}

/-- A sign is no letter, so that it has no other case. -/
theorem sign_of_toLower (h : cs.map Char.toLower = s.sign.map Char.toLower) : cs = s.sign := by
  rcases s.sign_cases with hsign | hsign | hsign
  · rw [hsign] at h ⊢
    exact List.map_eq_nil_iff.mp h
  all_goals
    rw [hsign] at h ⊢
    obtain ⟨c, rfl, hc⟩ := List.map_eq_singleton_iff.mp h
    rw [eq_of_toLower_eq hc (by decide)]
    rfl

theorem mark_of_toLower (h : cs.map Char.toLower = s.mark.map Char.toLower) :
    cs ∈ [[], ['0', 'x'], ['0', 'X']] ∧ base cs = base s.mark := by
  have hbase : base cs = base s.mark := by
    have hnil : cs = [] ↔ s.mark = [] := by
      rw [← List.map_eq_nil_iff, h, List.map_eq_nil_iff]
    simp only [base, hnil]
  refine ⟨?_, hbase⟩
  have hmarked (hmark : s.mark.map Char.toLower = ['0', 'x']) :
      cs ∈ [[], ['0', 'x'], ['0', 'X']] := by
    obtain ⟨zero, cs, rfl, hzero, hletter⟩ := List.map_eq_cons_iff.mp (h.trans hmark)
    obtain ⟨letter, rfl, hsmall⟩ := List.map_eq_singleton_iff.mp hletter
    rw [eq_of_toLower_eq hzero (by decide)]
    rcases toLower_cases letter with hsame | ⟨-, -, hcapital⟩
    · obtain rfl : letter = 'x' := hsame.symm.trans hsmall
      simp
    · rw [hsmall] at hcapital
      have hcode : letter.toNat + 32 = 'X'.toNat + 32 := hcapital.symm
      obtain rfl : letter = 'X' := Char.toNat_inj.mp (Nat.add_right_cancel hcode)
      simp
  rcases s.mark_cases with hmark | hmark | hmark
  · rw [hmark] at h
    simp [List.map_eq_nil_iff.mp h]
  · exact hmarked (by rw [hmark]; rfl)
  · exact hmarked (by rw [hmark]; rfl)

/-- **In letters of another case the same number is spelt.** -/
theorem exists_of_toLower_eq {word : String}
    (h : word.toList.map Char.toLower = s.text.toList.map Char.toLower) :
    ∃ s' : Spelling, s'.text = word ∧ s'.magnitude = s.magnitude ∧ s'.value = s.value := by
  have hchars : word.toList.map Char.toLower = s.sign.map Char.toLower ++
      (s.mark.map Char.toLower ++ s.digits.map Char.toLower) := by
    rw [h, text, String.toList_ofList, List.map_append, List.map_append]
  obtain ⟨sign, body, hword, hsign, hbody⟩ := List.map_eq_append_iff.mp hchars
  obtain ⟨mark, digits, rfl, hmark, hdigits⟩ := List.map_eq_append_iff.mp hbody
  obtain rfl := s.sign_of_toLower hsign
  obtain ⟨hmem, hbase⟩ := s.mark_of_toLower hmark
  have hvalues : digits.map digitOf = s.digits.map digitOf := by
    have hplaces := congrArg (List.map fun c => alphabet.idxOf c) hdigits
    rwa [List.map_map, List.map_map] at hplaces
  have hareDigits : AreDigits (base mark) digits := by
    intro c hc
    obtain ⟨c', hc', heq⟩ := List.mem_map.mp (hvalues ▸ List.mem_map_of_mem hc)
    rw [hbase, ← heq]
    exact s.areDigits c' hc'
  have hne : digits ≠ [] := by
    rintro rfl
    exact s.digits_ne_nil (List.map_eq_nil_iff.mp hdigits.symm)
  let s' : Spelling := ⟨s.sign, mark, digits, s.sign_mem, hmem, hne, hareDigits⟩
  have hmagnitude : s'.magnitude = s.magnitude := by
    show numberOf (base mark) digits = numberOf (base s.mark) s.digits
    rw [numberOf, numberOf, hvalues, hbase]
  refine ⟨s', ?_, hmagnitude, ?_⟩
  · rw [text, ← hword, String.ofList_toList]
  · rw [value, value, hmagnitude]

end Spelling

/-- Words that differ in the case of letters only are read alike. -/
theorem read_of_toLower_eq {word word' : String}
    (h : word'.toList.map Char.toLower = word.toList.map Char.toLower) :
    read word' = read word := by
  by_cases hspelt : ∃ s : Spelling, s.text = word
  · obtain ⟨s, rfl⟩ := hspelt
    obtain ⟨s', rfl, hmagnitude, hvalue⟩ := s.exists_of_toLower_eq h
    rw [s'.read_text, s.read_text, hmagnitude, hvalue]
  · have hspelt' : ¬ ∃ s : Spelling, s.text = word' := by
      rintro ⟨s', rfl⟩
      obtain ⟨s, hs, -⟩ := s'.exists_of_toLower_eq h.symm
      exact hspelt ⟨s, hs⟩
    rw [read_eq_notANumeral_iff.mpr hspelt, read_eq_notANumeral_iff.mpr hspelt']

/-! ### All words -/

/-- **Words are numbers exactly as they are spelt.** A word is no number if and only if it is not an
optional sign, an optional mark and digits of the base. A word that is spelt so says the number that
its digits write in the base, with the sign, if the magnitude of the number is not too large, and is
too large otherwise. There is one spelling of a word at most, and the case of letters does not
matter. -/
theorem read_spellings (word : String) :
    (read word = notANumeral ↔ ¬ ∃ s : Spelling, s.text = word) ∧
    (∀ s : Spelling, s.text = word →
      (s.magnitude ≤ 2147483647 → ∃ w, read word = number w ∧ w.toInt = s.value) ∧
      (2147483647 < s.magnitude → read word = tooLarge)) ∧
    (∀ s s' : Spelling, s.text = word → s'.text = word → s = s') ∧
    ∀ word' : String, word'.toList.map Char.toLower = word.toList.map Char.toLower →
      read word' = read word := by
  refine ⟨read_eq_notANumeral_iff, ?_, fun s s' h h' => Spelling.eq_of_text_eq (h.trans h'.symm),
    fun word' => read_of_toLower_eq⟩
  rintro s rfl
  rw [s.read_text, Word.greatest]
  constructor
  · intro hle
    rw [if_pos hle]
    have hvalue : -2147483647 ≤ s.value ∧ s.value ≤ 2147483647 := by
      unfold Spelling.value
      split <;> omega
    exact ⟨_, rfl, Int32.toInt_ofInt_of_le (by omega) (by omega)⟩
  · intro hlt
    rw [if_neg (Nat.not_le.mpr hlt)]

/-- The largest magnitude in base sixteen, with zeros in front and a minus sign; its letters may be
written small. The next number is too large, and a mark without digits is no number. -/
theorem read_spellings_of_largest :
    let s : Spelling := ⟨['-'], ['0', 'X'], "007FffFFFf".toList, by decide, by decide, by decide,
      by decide⟩
    let next : Spelling := ⟨[], [], "2147483648".toList, by decide, by decide, by decide, by decide⟩
    s.text = "-0X007FffFFFf" ∧ s.magnitude = 2147483647 ∧
    (∃ w, read "-0X007FffFFFf" = number w ∧ w.toInt = -2147483647) ∧
    "-0x007fffffff".toList.map Char.toLower = "-0X007FffFFFf".toList.map Char.toLower ∧
    read "-0x007fffffff" = read "-0X007FffFFFf" ∧
    next.magnitude = 2147483648 ∧ read next.text = tooLarge ∧
    ¬ ∃ s : Spelling, s.text = "0x" := by
  intro s next
  obtain ⟨-, hread, -, hcase⟩ := read_spellings "-0X007FffFFFf"
  have hlower : "-0x007fffffff".toList.map Char.toLower =
      "-0X007FffFFFf".toList.map Char.toLower := by decide +kernel
  have hmagnitude : s.magnitude = 2147483647 := by decide +kernel
  have hvalue : s.value = -2147483647 := by rw [Spelling.value, if_pos rfl, hmagnitude]; rfl
  have hnext : next.magnitude = 2147483648 := by decide +kernel
  refine ⟨by decide +kernel, hmagnitude, ?_, hlower, hcase _ hlower, hnext, ?_, ?_⟩
  · rw [← hvalue]
    exact (hread s (by decide +kernel)).1 (Nat.le_of_eq hmagnitude)
  · exact ((read_spellings next.text).2.1 next rfl).2 (by omega)
  · exact (read_spellings "0x").1.mp (by decide +kernel)

end Numeral

end LittleMan
