import LittleMan.Proofs.Machine.Printouts

/-!
# Which pieces of the output are numbers

The sink takes those pieces of the output for numbers that are written like one (`Machine.numbers`).
Every number that `OUT` prints is read back from its piece. But so is a digit that `OTC` prints, and
no other character (`Printout.Prints.readBack`). So the numbers of the sink are those printed with
`OUT`, and the digits printed with `OTC` among them; they are the former alone exactly if `OTC` has
printed no digit (`Machine.numbers_acts`).
-/

namespace LittleMan

namespace Printout

/-- The number that `OUT` prints. -/
def number? : Printout → Option Word
  | number value => some value
  | character _ => none

/-- Whether a code point is that of one of the ten digits. -/
def IsDigit (code : Word) : Prop := 48 ≤ code.toInt ∧ code.toInt ≤ 57

instance (code : Word) : Decidable (IsDigit code) := inferInstanceAs (Decidable (_ ∧ _))

/-- The number that is read back from the text: that of `OUT`, or the digit of `OTC`. -/
def readBack? : Printout → Option Word
  | number value => some value
  | character code => if IsDigit code then Word.ofInt? (code.toInt - 48) else none

theorem readBack?_of_isDigit {code : Word} (h : IsDigit code) :
    ∃ digit, readBack? (.character code) = some digit := by
  obtain ⟨hlow, hhigh⟩ := id h
  refine ⟨Int32.ofInt (code.toInt - 48), ?_⟩
  rw [readBack?, if_pos h, Word.ofInt?, if_pos]
  unfold Word.greatest
  omega

end Printout

theorem pieceNumber?_eq_bind {piece : String} (front cs : List Char)
    (h : piece.toList = front ++ cs) (hfront : ∀ c ∈ front, c = '\n') (hcs : cs.head? ≠ some '\n') :
    pieceNumber? piece = (Decimal.toInt? cs).bind Word.ofInt? := by
  have hdrop : piece.toList.dropWhile (· == '\n') = cs := by
    rw [h, List.dropWhile_append_of_pos (by simpa using hfront)]
    cases cs with
    | nil => rfl
    | cons c cs =>
      have hc : c ≠ '\n' := fun heq => hcs (congrArg some heq)
      rw [List.dropWhile_cons_of_neg (by simpa using hc)]
  rw [pieceNumber?, hdrop]

/-- **What is read back from a text** that has been printed. -/
theorem Printout.Prints.readBack {p : Printout} {before text : String} (h : p.Prints before text) :
    pieceNumber? text = p.readBack? := by
  cases p with
  | number value =>
    obtain ⟨c, cs, hcons, hfirst⟩ := Decimal.exists_ofInt_eq_cons value.toInt
    have htext : text.toList = (if before = "" then [] else ['\n']) ++
        (Decimal.ofInt value.toInt).toList := by
      rw [h, String.toList_append]
      split <;> rfl
    have hline : (Decimal.ofInt value.toInt).toList.head? ≠ some '\n' := by
      rw [hcons]
      rintro ⟨rfl⟩
      revert hfirst
      decide
    rw [pieceNumber?_eq_bind _ _ htext (by split <;> simp) hline, Decimal.toInt?_ofInt,
      Option.bind_some, readBack?, Word.ofInt?_eq_some_iff]
  | character code =>
    obtain ⟨char, hcode, rfl⟩ := h
    have htext : char.toString.toList = [char] := String.toList_singleton char
    have hdigit : Printout.IsDigit code ↔ 48 ≤ char.toNat ∧ char.toNat ≤ 57 := by
      unfold IsDigit
      omega
    have hread : pieceNumber? char.toString = (Decimal.toInt? [char]).bind Word.ofInt? := by
      by_cases hnewline : char = '\n'
      · -- the line break is dropped, and is no number either
        subst hnewline
        rw [pieceNumber?_eq_bind ['\n'] [] htext (by simp) (by simp)]
        rfl
      · rw [pieceNumber?_eq_bind [] [char] htext (by simp) (by simpa using hnewline)]
    rw [hread, Decimal.toInt?_singleton, readBack?]
    by_cases h : IsDigit code
    · rw [if_pos h, if_pos (hdigit.mp h), Option.bind_some, hcode]
    · rw [if_neg h, if_neg (mt hdigit.mpr h), Option.bind_none]

theorem Printout.AllPrint.readBack {before : String} {ps : List Printout} {texts : List String}
    (h : AllPrint before ps texts) : texts.filterMap pieceNumber? = ps.filterMap readBack? := by
  induction h with
  | nil => rfl
  | cons hp _ ih => rw [List.filterMap_cons, List.filterMap_cons, hp.readBack, ih]

/-- The numbers of `OUT` are among those read back. -/
theorem Printout.sublist_readBack? (ps : List Printout) :
    (ps.filterMap number?).Sublist (ps.filterMap readBack?) := by
  induction ps with
  | nil => exact .slnil
  | cons p ps ih =>
    cases p with
    | number value => exact ih.cons_cons value
    | character code =>
      rw [List.filterMap_cons_none rfl, List.filterMap_cons]
      split
      · exact ih
      · exact ih.cons _

/-- **Only digits are taken for numbers of `OUT`.** -/
theorem Printout.readBack?_eq_iff (ps : List Printout) :
    ps.filterMap readBack? = ps.filterMap number? ↔
      ∀ code, .character code ∈ ps → ¬ IsDigit code := by
  induction ps with
  | nil => simp
  | cons p ps ih =>
    cases p with
    | number value =>
      rw [List.filterMap_cons_some (rfl : readBack? (.number value) = some value),
        List.filterMap_cons_some (rfl : number? (.number value) = some value),
        List.cons_inj_right, ih]
      simp
    | character code =>
      rw [List.filterMap_cons_none (rfl : number? (.character code) = none)]
      by_cases hdigit : IsDigit code
      · -- the digit is one number more than those of `OUT`
        obtain ⟨digit, hdigit'⟩ := readBack?_of_isDigit hdigit
        rw [List.filterMap_cons_some hdigit']
        constructor
        · intro h
          have hlength := (sublist_readBack? ps).length_le
          rw [← h, List.length_cons] at hlength
          omega
        · intro h
          exact absurd hdigit (h code List.mem_cons_self)
      · have hnone : readBack? (.character code) = none := if_neg hdigit
        rw [List.filterMap_cons_none hnone, ih]
        simp [hdigit]

namespace Machine

variable {σ : Type}

theorem PrintsTo.pieces {m m' : Machine σ} {texts : List String} (h : m.PrintsTo m' texts) :
    m'.pieces = m.pieces ++ texts := by
  obtain ⟨notices, hjournal, hcalls, -⟩ := h.told
  have htexts : notices.filterMap Notice.piece? = texts := by
    have hpiece : Notice.piece? = fun notice => notice.call?.map Prod.fst := by
      funext notice
      cases notice <;> rfl
    rw [← map_fst_calls m.state.output texts, ← hcalls, List.map_filterMap, hpiece]
  rw [Machine.pieces, hjournal, List.filterMap_append, htexts]
  rfl

variable [NumberSource σ]

/-- **The numbers of the sink** are those it had before, the numbers that `OUT` has printed since
and the digits that `OTC` has printed since, in order. They are without digits of `OTC`, so that
only the accumulators of `OUT` are left, exactly if `OTC` has printed no digit. -/
theorem numbers_acts (m : Machine σ) (actions : List Action) :
    (m.acts actions).numbers =
        m.numbers ++ (m.printouts actions).filterMap Printout.readBack? ∧
      ((m.acts actions).numbers =
          m.numbers ++ (m.printouts actions).filterMap Printout.number? ↔
        ∀ code, .character code ∈ m.printouts actions → ¬ Printout.IsDigit code) := by
  obtain ⟨texts, hall, hprints⟩ := m.acts_print actions
  have hnumbers : (m.acts actions).numbers =
      m.numbers ++ (m.printouts actions).filterMap Printout.readBack? := by
    rw [numbers, hprints.pieces, List.filterMap_append, hall.readBack]
    rfl
  refine ⟨hnumbers, ?_⟩
  rw [hnumbers, List.append_cancel_left_eq]
  exact Printout.readBack?_eq_iff _

/-- A program that prints the character `5` executes no `OUT`, but the sink has a number. -/
theorem not_numbers_acts :
    let m : Machine QueuedInput := { source := {} }
    let actions := [Action.work (.loadWords #[503, 922, 0, 53] 0), .work (.execute (.runAtMost 3))]
    m.printouts actions = [.character 53] ∧ (m.acts actions).state.halted = true ∧
      (m.acts actions).numbers = [5] ∧
      (m.acts actions).numbers ≠ (m.printouts actions).filterMap Printout.number? := by
  decide +kernel

end Machine

end LittleMan
