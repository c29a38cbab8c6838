import LittleMan.Proofs.Assembly.Clauses
import LittleMan.Proofs.Text.Edits

/-!
# Suggestions

Which mnemonic is suggested for a word that is none. A word is a misspelling of a mnemonic if one
edit makes the mnemonic of its upper-case form (`Opcode.Misspells`). A mnemonic is guessed exactly for
the mnemonics themselves and for their misspellings, and of several that may have been meant it is
the first one (`Opcode.guess?_eq_some_iff`).

Reading stops for want of a mnemonic at a word that is none, alone at the end of the source or
behind another word that is none either (`Listing.exists_wantsMnemonic`). The suggestion is the
guess for one of these, the later one first, and never a word that stands there already, since
neither is a mnemonic. `Opcode.guess?_suggests` says all of this.
-/

namespace LittleMan

namespace Opcode

variable {word : String} {op : Opcode}

/-! ### Guesses -/

/-- One edit makes the mnemonic of the upper-case form of the word. -/
def Misspells (word : String) (op : Opcode) : Prop :=
  Text.OneEdit (Text.uppercase word.toList) op.mnemonic.toList

instance (word : String) (op : Opcode) : Decidable (Misspells word op) :=
  inferInstanceAs (Decidable (Text.OneEdit _ _))

theorem distance_eq_zero_iff :
    distance word op = 0 ↔ op.mnemonic.toList = Text.uppercase word.toList :=
  Text.editDistance_eq_zero_iff.trans eq_comm

theorem distance_eq_one_iff : distance word op = 1 ↔ Misspells word op :=
  Text.editDistance_eq_one_iff

theorem guess?_eq_or (word : String) :
    guess? word = (ofWord? word).or (all.find? fun op => decide (Misspells word op)) := by
  have hzero : (fun op => distance word op == 0) =
      fun op : Opcode => op.mnemonic.toList == Text.uppercase word.toList := by
    funext op
    rw [Bool.eq_iff_iff, beq_iff_eq, beq_iff_eq, distance_eq_zero_iff]
  have hone : (fun op => distance word op == 1) = fun op => decide (Misspells word op) := by
    funext op
    rw [Bool.eq_iff_iff, beq_iff_eq, decide_eq_true_iff, distance_eq_one_iff]
  rw [guess?, hzero, hone, ofWord?]

theorem guess?_of_ofWord? (h : ofWord? word = some op) : guess? word = some op := by
  rw [guess?_eq_or, h, Option.some_or]

/-- **Any other word is taken for the first mnemonic that it misspells.** -/
theorem guess?_eq_some_iff (h : ofWord? word = none) :
    guess? word = some op ↔ ∃ front behind, all = front ++ op :: behind ∧ Misspells word op ∧
      ∀ other ∈ front, ¬ Misspells word other := by
  rw [guess?_eq_or, h, Option.none_or, List.find?_eq_some_iff_append]
  simp only [decide_eq_true_iff, Bool.not_eq_true', decide_eq_false_iff_not]
  constructor
  · rintro ⟨hop, front, behind, hall, hfront⟩
    exact ⟨front, behind, hall, hop, hfront⟩
  · rintro ⟨front, behind, hall, hop, hfront⟩
    exact ⟨hop, front, behind, hall, hfront⟩

/-- **There is a guess for the mnemonics and their misspellings.** -/
theorem isSome_guess?_iff : (guess? word).isSome ↔
    ∃ op : Opcode, op.mnemonic.toList = Text.uppercase word.toList ∨ Misspells word op := by
  rw [guess?_eq_or, Option.isSome_or, Bool.or_eq_true, ofWord?, List.find?_isSome,
    List.find?_isSome]
  simp only [beq_iff_eq, decide_eq_true_iff, mem_all, true_and, ← exists_or]

end Opcode

/-! ### Words that are no mnemonics -/

/-- Behind complete clauses reading stops at the word `last`, where a mnemonic has to stand. The word
`earlier` is in the place of a label before it; without one, `last` is alone in its statement. -/
structure WantsMnemonic (ws : List (Located String)) (cs : List Clause)
    (earlier : Option (Located String)) (last : Located String)
    (unread : List (Located String)) : Prop where
  /-- All words before are those of the clauses, and the others are not read. -/
  row : Clause.Row ws cs (earlier.toList ++ last :: unread)
  /-- The word in the place of the label is no mnemonic, -/
  label : ∀ w ∈ earlier, Opcode.ofWord? w.value = none
  /-- and neither is the last one. -/
  mnemonic : Opcode.ofWord? last.value = none
  /-- A word that could be a label is the last one only at the end of the source. -/
  alone : earlier = none → unread = []

/-- **Reading stops for want of a mnemonic at one or two words that are none**, and the suggestion
is the first guess for them, from the last one on. -/
theorem Listing.exists_wantsMnemonic {source text : String} {suggestion : Option Opcode}
    {span : Option Span} (h : parse source = .error ⟨.unknownMnemonic text suggestion, span⟩) :
    ∃ cs earlier last unread,
      WantsMnemonic (Token.words 0 source.toList) cs earlier last unread ∧
      text = (earlier.map fun w => w.value ++ " ").getD "" ++ last.value ∧
      span = some ⟨(earlier.getD last).span.start, last.span.stop⟩ ∧
      suggestion = (Opcode.guess? last.value).or (earlier.bind fun w => Opcode.guess? w.value) := by
  obtain ⟨cs, rest, hrow, hstuck⟩ := parse_eq_error_iff.mp h
  cases hstuck with
  | @lastWord word hword =>
    refine ⟨cs, none, word, [], ⟨hrow, fun w hw => ?_, hword, fun _ => rfl⟩, ?_, rfl, ?_⟩
    · cases hw
    · exact String.empty_append.symm
    · exact Option.or_none.symm
  | @twoWords first second unread hfirst hsecond =>
    refine ⟨cs, some first, second, unread, ⟨hrow, fun w hw => ?_, hsecond, fun hnone => ?_⟩,
      rfl, rfl, rfl⟩
    · exact Option.some.inj hw ▸ hfirst
    · cases hnone

namespace Opcode

/-- **Suggestions are the mnemonics that are one edit away.**

- There is a guess for a word exactly if its upper-case form is a mnemonic or becomes one when a
  character is inserted, deleted or replaced. A mnemonic is the guess for itself; for any other word
  the guess is the first mnemonic that is one edit away.
- When a source is refused for want of a mnemonic, the suggestion is the guess for the last word
  that was read, or else for the word before it that stands in the place of a label; a word alone in
  its statement has none before it. Neither is a mnemonic, and the word that the guess is for is one
  edit away from the suggestion. -/
theorem guess?_suggests :
    (∀ word : String,
      ((guess? word).isSome ↔ ∃ op : Opcode, Text.uppercase word.toList = op.mnemonic.toList ∨
        Text.OneEdit (Text.uppercase word.toList) op.mnemonic.toList) ∧
      (∀ op, ofWord? word = some op → guess? word = some op) ∧
      (ofWord? word = none → ∀ op, guess? word = some op ↔
        ∃ front behind, all = front ++ op :: behind ∧
          Text.OneEdit (Text.uppercase word.toList) op.mnemonic.toList ∧ ∀ other ∈ front,
            ¬ Text.OneEdit (Text.uppercase word.toList) other.mnemonic.toList)) ∧
    ∀ source text suggestion span,
      Listing.parse source = .error ⟨.unknownMnemonic text suggestion, span⟩ →
        ∃ cs earlier last unread,
          WantsMnemonic (Token.words 0 source.toList) cs earlier last unread ∧
          text = (earlier.map fun w => w.value ++ " ").getD "" ++ last.value ∧
          span = some ⟨(earlier.getD last).span.start, last.span.stop⟩ ∧
          suggestion = (guess? last.value).or (earlier.bind fun w => guess? w.value) ∧
          ∀ op, suggestion = some op →
            (guess? last.value = some op ∧
              Text.OneEdit (Text.uppercase last.value.toList) op.mnemonic.toList) ∨
            guess? last.value = none ∧ ∃ w, earlier = some w ∧ guess? w.value = some op ∧
              Text.OneEdit (Text.uppercase w.value.toList) op.mnemonic.toList := by
  have hmisspells {word : String} {op : Opcode} (hword : ofWord? word = none)
      (h : guess? word = some op) : Misspells word op := by
    obtain ⟨-, -, -, hop, -⟩ := (guess?_eq_some_iff hword).mp h
    exact hop
  refine ⟨fun word => ⟨?_, fun op => guess?_of_ofWord?, fun h op => guess?_eq_some_iff h⟩, ?_⟩
  · simp only [isSome_guess?_iff, eq_comm (a := Text.uppercase word.toList), Misspells]
  · intro source text suggestion span h
    obtain ⟨cs, earlier, last, unread, hwords, htext, hspan, rfl⟩ :=
      Listing.exists_wantsMnemonic h
    refine ⟨cs, earlier, last, unread, hwords, htext, hspan, rfl, fun op hop => ?_⟩
    rcases Option.or_eq_some_iff.mp hop with hlast | ⟨hnone, hearlier⟩
    · exact .inl ⟨hlast, hmisspells hwords.mnemonic hlast⟩
    · obtain ⟨w, hw, hguess⟩ := Option.bind_eq_some_iff.mp hearlier
      exact .inr ⟨hnone, w, hw, hguess, hmisspells (hwords.label w hw) hguess⟩

/-- The word behind a misspelt mnemonic misspells none, so the suggestion is for the first one. -/
theorem guess?_suggests_of_label :
    Listing.parse "hlt ſtaa 5x" = .error ⟨.unknownMnemonic "ſtaa 5x" (some sta), some ⟨4, 12⟩⟩ ∧
      ∃ w : Located String, guess? w.value = some sta ∧
        Text.OneEdit (Text.uppercase w.value.toList) sta.mnemonic.toList := by
  have hparse : Listing.parse "hlt ſtaa 5x" =
      .error ⟨.unknownMnemonic "ſtaa 5x" (some sta), some ⟨4, 12⟩⟩ := by decide +kernel
  obtain ⟨_, _, last, _, -, -, -, -, hedit⟩ := guess?_suggests.2 _ _ _ _ hparse
  refine ⟨hparse, ?_⟩
  rcases hedit sta rfl with hlast | ⟨-, w, -, hlabel⟩
  · exact ⟨last, hlast⟩
  · exact ⟨w, hlabel⟩

end Opcode

end LittleMan
