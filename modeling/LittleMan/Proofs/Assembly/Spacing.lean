import LittleMan.Proofs.Assembly.HaltLines

/-!
# Spacing does not matter

A list of words can be written out in many ways: with any blanks, line breaks and comments before,
between and behind them (`Token.WrittenOut`). Every text is a way of writing out its own words and
no others (`Token.writtenOut_iff`), and what is assembled depends on the words alone, but for the
places (`Program.ofWords_nowhere`). So all ways of writing out the same words are assembled to the
same program, or refused for the same reason (`Program.assemble_writtenOut`).
-/

namespace LittleMan

namespace Token

/-! ### Ways of writing out words -/

/-- Blanks and line breaks, and comments that end with their line. -/
inductive Spacing : List Char → Prop where
  /-- Nothing at all. -/
  | nil : Spacing []
  /-- A blank or a line break. -/
  | blank {c : Char} {cs : List Char} : isWordChar c = false → Spacing cs → Spacing (c :: cs)
  /-- A comment at the end of a line. -/
  | comment {text cs : List Char} : IsComment text → Spacing ('\n' :: cs) →
      Spacing (text ++ '\n' :: cs)

/-- The text has the words, in this order, and nothing else but spacing. Every word ends at a blank,
at a line break or with the text, so that a comment never stands right behind a word. -/
inductive WrittenOut : List String → List Char → Prop where
  /-- Spacing has no words. -/
  | spacing {space : List Char} : Spacing space → WrittenOut [] space
  /-- Spacing whose last line ends with a comment and with the text has no words either. -/
  | open {space text : List Char} : Spacing space → IsComment text → WrittenOut [] (space ++ text)
  /-- A word behind spacing. -/
  | word {w : String} {ws : List String} {space rest : List Char} : Spacing space →
      IsWord w.toList → EndsWord rest → WrittenOut ws rest →
      WrittenOut (w :: ws) (space ++ (w.toList ++ rest))

/-- Spacing that stands before something else begins with a line break if the whole does. -/
theorem Spacing.of_append_eq_newline {space rest cs : List Char} (h : Spacing space)
    (hrest : ∃ c ∈ rest.head?, c ≠ '\n') (heq : space ++ rest = '\n' :: cs) :
    ∃ tail, space = '\n' :: tail ∧ Spacing ('\n' :: tail) := by
  cases space with
  | nil =>
    obtain ⟨c, hc, hn⟩ := hrest
    rw [List.nil_append] at heq
    rw [heq] at hc
    exact absurd (Option.some.inj hc).symm hn
  | cons c tail =>
    obtain rfl : c = '\n' := (List.cons.inj heq).1
    exact ⟨tail, rfl, h⟩

namespace WrittenOut

variable {ws : List String} {cs : List Char}

theorem blank {c : Char} (hc : isWordChar c = false) (h : WrittenOut ws cs) :
    WrittenOut ws (c :: cs) := by
  cases h with
  | spacing hspace => exact .spacing (.blank hc hspace)
  | «open» hspace htext => exact .open (.blank hc hspace) htext
  | word hspace hw hends hrest => exact .word (.blank hc hspace) hw hends hrest

theorem comment {text : List Char} (htext : IsComment text) (h : WrittenOut ws ('\n' :: cs)) :
    WrittenOut ws (text ++ '\n' :: cs) := by
  generalize hline : '\n' :: cs = line at h
  cases h with
  | spacing hspace =>
    subst hline
    exact .spacing (.comment htext hspace)
  | @«open» space note hspace hnote =>
    have hhead : ∃ c ∈ note.head?, c ≠ '\n' := by
      obtain ⟨tail, rfl⟩ := List.isPrefixOf_iff_prefix.mp hnote.slashes
      exact ⟨'/', rfl, by decide⟩
    obtain ⟨tail, rfl, htail⟩ := hspace.of_append_eq_newline hhead hline.symm
    have hopen := WrittenOut.open (.comment htext htail) hnote
    rwa [List.append_assoc] at hopen
  | @word w ws space rest hspace hw hends hrest =>
    have hhead : ∃ c ∈ (w.toList ++ rest).head?, c ≠ '\n' := by
      obtain ⟨c, tail, hcons⟩ := List.exists_cons_of_ne_nil hw.ne_nil
      rw [hcons]
      exact ⟨c, rfl, ne_newline_of_isWordChar (hw.chars c (hcons ▸ List.mem_cons_self))⟩
    obtain ⟨tail, rfl, htail⟩ := hspace.of_append_eq_newline hhead hline.symm
    have hword := WrittenOut.word (.comment htext htail) hw hends hrest
    rwa [List.append_assoc] at hword

end WrittenOut

/-! ### The words of a text -/

/-- The words of the characters, without their places. -/
def wordTexts (cs : List Char) : List String := (words 0 cs).map Located.value

theorem value_words (offset : Nat) (cs : List Char) :
    (words offset cs).map Located.value = wordTexts cs := by
  rw [wordTexts, words_eq_map offset, List.map_map]
  rfl

@[simp] theorem wordTexts_nil : wordTexts [] = [] := by simp [wordTexts, words]

theorem wordTexts_blank {c : Char} (hc : isWordChar c = false) (cs : List Char) :
    wordTexts (c :: cs) = wordTexts cs := by
  rw [wordTexts, words_blank hc]
  exact value_words _ cs

theorem wordTexts_word {w rest : List Char} (hw : IsWord w) (hr : EndsWord rest) :
    wordTexts (w ++ rest) = String.ofList w :: wordTexts rest := by
  rw [wordTexts, words, scan_word hw hr]
  exact congrArg _ (value_words _ rest)

theorem wordTexts_comment {text rest : List Char} (h : IsComment text) (hr : EndsComment rest) :
    wordTexts (text ++ rest) = wordTexts rest := by
  rw [wordTexts, words, scan_comment h hr, List.filterMap_cons_none rfl]
  exact value_words _ rest

theorem Spacing.wordTexts_append {space : List Char} (h : Spacing space) (rest : List Char) :
    wordTexts (space ++ rest) = wordTexts rest := by
  induction h with
  | nil => rfl
  | blank hc _ ih => rw [List.cons_append, wordTexts_blank hc, ih]
  | @comment text cs htext _ ih =>
    have hends : EndsComment ('\n' :: cs ++ rest) := endsComment_cons _
    rwa [List.append_assoc, wordTexts_comment htext hends]

theorem wordTexts_of_writtenOut {ws : List String} {cs : List Char} (h : WrittenOut ws cs) :
    wordTexts cs = ws := by
  induction h with
  | spacing hspace =>
    have hwords := hspace.wordTexts_append []
    rwa [List.append_nil, wordTexts_nil] at hwords
  | @«open» space text hspace htext =>
    have hend : EndsComment [] := fun c hc => by cases hc
    have hwords := wordTexts_comment htext hend
    rwa [List.append_nil, wordTexts_nil, ← hspace.wordTexts_append text] at hwords
  | word hspace hw hends _ ih =>
    rw [hspace.wordTexts_append, wordTexts_word hw hends, ih, String.ofList_toList]

/-- Every text is a way of writing out its words. -/
theorem writtenOut_wordTexts (cs : List Char) : WrittenOut (wordTexts cs) cs := by
  induction cs using text_induction with
  | nil =>
    rw [wordTexts_nil]
    exact .spacing .nil
  | newline cs ih =>
    rw [wordTexts_blank (by decide)]
    exact ih.blank (by decide)
  | blank c cs hc _ ih =>
    rw [wordTexts_blank hc]
    exact ih.blank hc
  | word w rest hw hr ih =>
    rw [wordTexts_word hw hr]
    have hword := WrittenOut.word (w := String.ofList w) .nil (by rwa [String.toList_ofList]) hr ih
    rwa [String.toList_ofList] at hword
  | comment text rest htext hr ih =>
    rw [wordTexts_comment htext hr]
    cases rest with
    | nil =>
      have hopen := WrittenOut.open .nil htext
      rwa [List.append_nil, wordTexts_nil]
    | cons c rest =>
      obtain rfl : c = '\n' := hr c rfl
      exact ih.comment htext

/-- **A text is a way of writing out its words, and no others.** -/
theorem writtenOut_iff {ws : List String} {cs : List Char} :
    WrittenOut ws cs ↔ wordTexts cs = ws := by
  constructor
  · exact wordTexts_of_writtenOut
  · rintro rfl
    exact writtenOut_wordTexts cs

end Token

/-! ### What is assembled -/

namespace Program

/-- The programs have the same words, and of the labels and statements they differ in the places at
most. -/
structure SameButPlaces (p p' : Program) : Prop where
  /-- The words are the same, -/
  words : p.words = p'.words
  /-- and so are those that are moved along with the program. -/
  relocations : p.relocations = p'.relocations
  /-- The labels stand for the same addresses -/
  address? : ∀ label, p.labels.address? label = p'.labels.address? label
  /-- and are referred to as often. -/
  labels : ∀ label, (p.labels.get? label).map (LabelRecord.moved 0 nowhere) =
    (p'.labels.get? label).map (LabelRecord.moved 0 nowhere)
  /-- The same addresses belong to statements. -/
  sourceIndex : ∀ i, (p.sourceIndex.get? i).map (Span.moved nowhere) =
    (p'.sourceIndex.get? i).map (Span.moved nowhere)

/-- The sources are assembled to programs that differ in the places at most, or refused for the same
reason. -/
def AgreeButPlaces : Except AssemblyError Program → Except AssemblyError Program → Prop
  | .ok p, .ok p' => p.SameButPlaces p'
  | .error e, .error e' => e.moved nowhere = e'.moved nowhere
  | _, _ => False

theorem Behind.sameButPlaces {p p' bare : Program} (h : Behind {} nowhere p bare)
    (h' : Behind {} nowhere p' bare) : p.SameButPlaces p' := by
  have hwords := h.words.symm.trans h'.words
  rw [Array.empty_append, Array.empty_append] at hwords
  refine ⟨?_, ?_, fun label => ?_, fun label => ?_, fun i => ?_⟩
  · rwa [← wordsAt_zero p, ← wordsAt_zero p']
  · have hrelocations := h.relocations.symm.trans h'.relocations
    simpa using hrelocations
  · have haddress := (h.labels.address? label).symm.trans (h'.labels.address? label)
    simpa using haddress
  · exact (h.labels label).symm.trans (h'.labels label)
  · exact (h.sourceIndex i).symm.trans (h'.sourceIndex i)

theorem agreeButPlaces_of_corresponds {x y bare : Except AssemblyError Program}
    (hx : Corresponds nowhere (Behind {} nowhere) x bare)
    (hy : Corresponds nowhere (Behind {} nowhere) y bare) : AgreeButPlaces x y := by
  cases x with
  | ok p =>
    obtain ⟨bare, rfl, h⟩ := hx.exists_ok rfl
    cases y with
    | ok p' => exact h.sameButPlaces hy
    | error e => exact hy.elim
  | error e =>
    have hbare := hx.eq_error rfl
    subst hbare
    cases y with
    | ok p => exact hy.elim
    | error e' => exact hy

/-- **Words without their places are assembled as the words are.** -/
theorem ofWords_nowhere (words : List (Located String)) (policy : LabelPolicy) :
    Corresponds nowhere (Behind {} nowhere) (ofWords words policy)
      (ofWords (words.map (Located.moved nowhere)) policy) := by
  have hread := Listing.readStatements_moved 0 nowhere id 0 (words.map Lexeme.plain)
  have hplain : (words.map (Located.moved nowhere)).map Lexeme.plain =
      (words.map Lexeme.plain).map (Lexeme.moved nowhere id) := by
    rw [List.map_map, List.map_map]
    rfl
  rw [Nat.zero_add] at hread
  rw [ofWords, ofWords, hplain, hread]
  cases hss : Listing.readStatements 0 (words.map Lexeme.plain) with
  | error e => rfl
  | ok ss =>
    have hrange : ss.map Statement.address = List.range ss.length := by
      rw [List.range_eq_range']
      exact (Listing.readStatements_eq_ok_iff.mp hss).address
    have hnothing : (([] : List Statement).foldlM (Draft.add policy) {}).result = .ok {} := rfl
    exact Listing.assemble_behind nowhere id hnothing (fun _ => rfl) rfl (fun _ => rfl) hrange

/-- **All ways of writing out the same words are assembled alike**: to programs that differ in the
places at most, or to errors that do. -/
theorem assemble_writtenOut {ws : List String} {text text' : String}
    (h : Token.WrittenOut ws text.toList) (h' : Token.WrittenOut ws text'.toList)
    (policy : LabelPolicy) : AgreeButPlaces (assemble text policy) (assemble text' policy) := by
  have hbare (words : List (Located String)) : words.map (Located.moved nowhere) =
      (words.map Located.value).map fun w => ⟨w, ⟨0, 0⟩⟩ := by
    rw [List.map_map]
    rfl
  have hwords : (Token.words 0 text.toList).map (Located.moved nowhere) =
      (Token.words 0 text'.toList).map (Located.moved nowhere) := by
    rw [hbare, hbare]
    exact congrArg _ ((Token.writtenOut_iff.mp h).trans (Token.writtenOut_iff.mp h').symm)
  rw [assemble_eq_ofWords, assemble_eq_ofWords text']
  refine agreeButPlaces_of_corresponds (ofWords_nowhere _ policy) ?_
  rw [hwords]
  exact ofWords_nowhere _ policy

/-- A comment in front, a label on a line of its own, a comment between `DAT` and its number and a
comment that ends with the text change nothing. -/
theorem assemble_writtenOut_of_comments :
    Token.WrittenOut ["x", "DAT", "7", "BRA", "x"] "x DAT 7 BRA x".toList ∧
    Token.WrittenOut ["x", "DAT", "7", "BRA", "x"]
      "// top\n\tx\n//a\n\n DAT //b\n7\r BRA x //end".toList ∧
    AgreeButPlaces (assemble "x DAT 7 BRA x" .unique)
      (assemble "// top\n\tx\n//a\n\n DAT //b\n7\r BRA x //end" .unique) := by
  have hline : Token.WrittenOut ["x", "DAT", "7", "BRA", "x"] "x DAT 7 BRA x".toList :=
    Token.writtenOut_iff.mpr (by decide +kernel)
  have hspaced : Token.WrittenOut ["x", "DAT", "7", "BRA", "x"]
      "// top\n\tx\n//a\n\n DAT //b\n7\r BRA x //end".toList :=
    Token.writtenOut_iff.mpr (by decide +kernel)
  exact ⟨hline, hspaced, assemble_writtenOut hline hspaced .unique⟩

end Program

end LittleMan
