import Mathlib.Data.List.Chain
import LittleMan.Proofs.Assembly.Grammar
import LittleMan.Proofs.Assembly.Layouts

/-!
# Reading a listing back

`Listing.WellFormed` is what parsed listings have in common: the texts in their statements are
words, their layouts are layouts, and no statement could have taken the label behind it as its
operand.

A well-formed listing in which no label is glued to the statement before it is written as the very
words it is made of, so it is read back as it was, but for the places
(`Listing.parse_format_of_unglued`).
-/

namespace LittleMan

/-! ### Well-formed statements -/

namespace Statement

/-- The texts of the statement can stand in a source. -/
structure WellFormed (s : Statement) : Prop where
  /-- The label is a word and no mnemonic. -/
  label : ∀ l ∈ s.label, Token.IsWord l.value.toList ∧ Opcode.ofWord? l.value = none
  /-- The operand is a word. -/
  word : ∀ o ∈ s.operand, Token.IsWord o.value.text.toList
  /-- The operand is one of the opcode. -/
  operand : s.opcode.value.Admits (s.operand.map Located.value)
  /-- The layout can be a layout. -/
  layout : Layout.Regular s.layout
  /-- The statement does not stand in a comment. -/
  closed : Layout.Closed s.layout

/-- The first statement would not take the label of the second as its operand. -/
def Apart (s t : Statement) : Prop := ∀ l ∈ t.label, ¬ s.Wants l.value

/-- The label stands right behind the statement before, for want of a line break. -/
def Glued (s : Statement) : Prop := s.label.isSome ∧ s.layout = ""

instance (s : Statement) : Decidable s.Glued := inferInstanceAs (Decidable (_ ∧ _))

theorem glued_bare {s : Statement} : s.bare.Glued ↔ s.Glued := by
  obtain ⟨address, label, opcode, operand, layout⟩ := s
  cases label <;> exact Iff.rfl

/-! ### The words of a statement -/

/-- The words that the statement is written with, without their places. -/
def lexemes (s : Statement) : List Lexeme :=
  match s.label with
  | none => Lexeme.bareWord s.layout s.opcode.value.mnemonic :: operand
  | some l => Lexeme.bareWord s.layout l.value ::
      Lexeme.bareWord "" s.opcode.value.mnemonic :: operand
where
  /-- The word of the operand. -/
  operand : List Lexeme := (s.operand.map fun o => Lexeme.bareWord "" o.value.text).toList

theorem lexemes_bare (s : Statement) : s.bare.lexemes = s.lexemes := by
  obtain ⟨address, label, opcode, operand, layout⟩ := s
  cases label <;> cases operand <;> rfl

theorem head?_lexemes (s : Statement) :
    s.lexemes.head? = some (Lexeme.bareWord s.layout
      ((s.label.map Located.value).getD s.opcode.value.mnemonic)) := by
  unfold lexemes
  cases s.label <;> rfl

theorem isWord_mnemonic (op : Opcode) : Token.IsWord op.mnemonic.toList := by
  cases op <;> decide

theorem ofWord?_mnemonic (op : Opcode) : Opcode.ofWord? op.mnemonic = some op := by
  cases op <;> decide

theorem read_mnemonic (op : Opcode) : Numeral.read op.mnemonic = .notANumeral := by
  cases op <;> decide

/-- **The statement is written as its words**, and the reader stops behind them. -/
theorem WellFormed.writtenAs {s : Statement} (h : s.WellFormed) {rest : List Lexeme}
    (hrest : ∀ w ∈ rest.head?, ¬ s.Wants w.word.value) : s.bare.WrittenAs s.lexemes rest := by
  obtain ⟨address, label, ⟨op, span⟩, operand, layout⟩ := s
  refine ⟨?_, ⟨⟨op.mnemonic, ⟨0, 0⟩⟩, ?_, rfl, ofWord?_mnemonic op⟩, ?_, ?_, ?_⟩
  · rw [head?_lexemes]
    rfl
  · cases label <;> cases operand <;> rfl
  · intro l hl
    obtain ⟨l', hl', rfl⟩ := Option.map_eq_some_iff.mp hl
    exact (h.label l' hl').2
  · have hoperand := h.operand
    cases operand <;> exact hoperand
  · intro w hw hwants
    refine hrest w hw ⟨hwants.1, ?_, hwants.2.2⟩
    simpa [bare, moved] using hwants.2.1

/-! ### The text of a statement -/

/-- The label as it is printed. -/
def labelText (s : Statement) : String := (s.label.map Located.value).getD ""

theorem WellFormed.labelText_chars {s : Statement} (h : s.WellFormed) :
    ∀ c ∈ s.labelText.toList, Token.isWordChar c = true := by
  unfold labelText
  cases hlabel : s.label with
  | none => simp
  | some l => exact (h.label l hlabel).1.chars

/-- The operand as it is printed, after a tab. -/
def operandText (s : Statement) : List Char :=
  match s.operand with
  | none => []
  | some o => '\t' :: o.value.text.toList

theorem toList_format (s : Statement) :
    s.format.toList =
      s.labelText.toList ++ '\t' :: (s.opcode.value.mnemonic.toList ++ s.operandText) := by
  obtain ⟨address, label, opcode, operand, layout⟩ := s
  cases label <;> cases operand <;> simp [format, labelText, operandText]

theorem endsWord_tab (rest : List Char) : Token.EndsWord ('\t' :: rest) :=
  Token.endsWord_cons (by decide)

/-- **The text of a statement falls into its words.** -/
theorem WellFormed.ofChars_format {s : Statement} (h : s.WellFormed) {rest : List Char}
    (hrest : Token.EndsWord rest) :
    Lexeme.ofChars "" (s.layout.toList ++ (s.format.toList ++ rest)) =
      (s.lexemes ++ (Lexeme.ofChars "" rest).1, (Lexeme.ofChars "" rest).2) := by
  rw [Lexeme.ofChars_layout h.layout (.inl h.closed), String.empty_append, toList_format]
  have hmnemonic := isWord_mnemonic s.opcode.value
  -- mnemonic and operand, whatever layout stands before the mnemonic
  have htail (layout : String) :
      Lexeme.ofChars layout (s.opcode.value.mnemonic.toList ++ (s.operandText ++ rest)) =
        (Lexeme.bareWord layout s.opcode.value.mnemonic ::
          (lexemes.operand s ++ (Lexeme.ofChars "" rest).1), (Lexeme.ofChars "" rest).2) := by
    unfold operandText lexemes.operand
    cases hoperand : s.operand with
    | none => exact Lexeme.ofChars_word hmnemonic hrest layout
    | some o =>
      rw [List.cons_append, Lexeme.ofChars_word hmnemonic (endsWord_tab _), Lexeme.ofChars_tab,
        Lexeme.ofChars_word (h.word o hoperand) hrest]
      rfl
  unfold labelText lexemes
  cases hlabel : s.label with
  | none =>
    have hshape : (Option.map Located.value none).getD "" = "" := rfl
    rw [hshape, String.toList_empty, List.nil_append, List.cons_append, List.append_assoc,
      Lexeme.ofChars_tab, htail]
    rfl
  | some l =>
    have hshape : (Option.map Located.value (some l)).getD "" = l.value := rfl
    rw [hshape, List.append_assoc, List.cons_append, List.append_assoc,
      Lexeme.ofChars_word (h.label l hlabel).1 (endsWord_tab _), Lexeme.ofChars_tab, htail]
    rfl

end Statement

/-! ### Well-formed listings -/

namespace Listing

/-- What parsed listings have in common. -/
structure WellFormed (l : Listing) : Prop where
  /-- The statements can stand in a source. -/
  statements : ∀ s ∈ l.statements, s.WellFormed
  /-- No statement takes the label of the next one. -/
  apart : l.statements.IsChain Statement.Apart
  /-- The addresses count the statements. -/
  addresses : l.statements.map Statement.address = List.range' 0 l.statements.length
  /-- The layout at the end can be a layout. -/
  trailing : Layout.Regular l.trailing

theorem WrittenAs.wellFormed {n : Nat} {ss : List Statement} {words : List Lexeme}
    (h : WrittenAs n ss words) (hwords : ∀ x ∈ words, x.WellFormed) :
    ∀ s ∈ ss, s.WellFormed := by
  induction h with
  | nil => simp
  | @cons address s ss used rest _ hs _ ih =>
    obtain ⟨hused, hrest⟩ := List.forall_mem_append.mp hwords
    refine List.forall_mem_cons.mpr ⟨?_, ih hrest⟩
    obtain ⟨first, used, rfl⟩ : ∃ first others, used = first :: others :=
      List.exists_cons_of_ne_nil (by rintro rfl; simpa using hs.layout)
    have hfirst := hused first List.mem_cons_self
    have hlayout : first.layout = s.layout := by simpa using hs.layout
    obtain ⟨mnemonic, hspelling, -⟩ := hs.words
    have hword : ∀ w ∈ s.spelling mnemonic, Token.IsWord w.value.toList := by
      intro w hw
      rw [← hspelling] at hw
      obtain ⟨x, hx, rfl⟩ := List.mem_map.mp hw
      exact (hused x hx).word
    exact {
      label := fun l hl => ⟨hword l (by simp [Statement.spelling, Option.mem_def.mp hl]),
        hs.label l hl⟩
      word := fun o ho => hword ⟨o.value.text, o.span⟩
        (by simp [Statement.spelling, Statement.operandWords, Option.mem_def.mp ho])
      operand := hs.operand
      layout := hlayout ▸ hfirst.layout
      closed := hlayout ▸ hfirst.closed }

theorem WrittenAs.head?_of_label {n : Nat} {t : Statement} {ss : List Statement}
    {words : List Lexeme} (h : WrittenAs n (t :: ss) words) {l : Located String}
    (hl : l ∈ t.label) : ∃ w ∈ words.head?, w.word = l := by
  cases h with
  | @cons _ _ _ used rest _ ht _ =>
    obtain ⟨mnemonic, hspelling, -⟩ := ht.words
    rw [Statement.spelling, Option.mem_def.mp hl] at hspelling
    obtain ⟨w, used, rfl, hw, -⟩ := List.map_eq_cons_iff.mp hspelling
    exact ⟨w, rfl, hw⟩

theorem WrittenAs.isChain {n : Nat} {ss : List Statement} {words : List Lexeme}
    (h : WrittenAs n ss words) : ss.IsChain Statement.Apart := by
  induction h with
  | nil => exact .nil
  | @cons address s ss used rest _ hs hss ih =>
    cases ss with
    | nil => exact .singleton s
    | cons t ss =>
      refine .cons_cons (fun l hl hwants => ?_) ih
      obtain ⟨w, hw, rfl⟩ := hss.head?_of_label hl
      exact hs.ends w hw hwants

/-- **What is parsed is well-formed.** -/
theorem wellFormed_of_parse {source : String} {l : Listing} (h : parse source = .ok l) :
    l.WellFormed := by
  obtain ⟨hwords, htrailing⟩ := Lexeme.gather_regular 0 source.toList Layout.Regular.nil
    (.inl Layout.closed_nil)
  obtain ⟨hwritten, hl⟩ := writtenAs_of_parse h
  exact {
    statements := hwritten.wellFormed hwords
    apart := hwritten.isChain
    addresses := hwritten.address
    trailing := hl ▸ htrailing }

/-! ### The text of a listing -/

/-- The characters of a listing. -/
def text (ss : List Statement) (trailing : String) : List Char := (format ⟨ss, trailing⟩).toList

@[simp] theorem text_nil (trailing : String) : text [] trailing = trailing.toList := by
  simp [text]

theorem text_cons (s : Statement) (ss : List Statement) (trailing : String) :
    text (s :: ss) trailing = s.layout.toList ++ (s.format.toList ++ text ss trailing) := by
  simp [text, format_cons]

/-- A statement ends where the next one begins, if that one is not glued to it. -/
theorem endsWord_text {ss : List Statement} {trailing : String} (h : ∀ s ∈ ss, s.WellFormed)
    (hglued : ∀ s ∈ ss.head?, ¬ s.Glued) (htrailing : Layout.Regular trailing) :
    Token.EndsWord (text ss trailing) := by
  cases ss with
  | nil =>
    rw [text_nil]
    exact htrailing.endsComment.endsWord
  | cons s ss =>
    have hs := h s List.mem_cons_self
    rw [text_cons]
    by_cases hlayout : s.layout = ""
    · have hlabel : s.labelText = "" := by
        have hnone : s.label.isSome ≠ true := fun hl => hglued s rfl ⟨hl, hlayout⟩
        rw [Statement.labelText, Option.not_isSome_iff_eq_none.mp hnone]
        rfl
      rw [hlayout, Statement.toList_format, hlabel]
      exact Statement.endsWord_tab _
    · obtain ⟨c, cs, hcs⟩ := List.exists_cons_of_ne_nil (mt String.toList_eq_nil_iff.mp hlayout)
      have hends := hs.layout.endsComment.endsWord
      rw [hcs] at hends ⊢
      exact Token.endsWord_cons (hends c rfl)

/-- **Without glued labels the text falls into the words of the statements.** -/
theorem ofChars_text {ss : List Statement} {trailing : String} (h : ∀ s ∈ ss, s.WellFormed)
    (hglued : ∀ s ∈ ss.tail, ¬ s.Glued) (htrailing : Layout.Regular trailing) :
    Lexeme.ofChars "" (text ss trailing) = (ss.flatMap Statement.lexemes, trailing) := by
  induction ss with
  | nil =>
    have hread : Lexeme.ofChars "" (trailing.toList ++ []) = Lexeme.ofChars ("" ++ trailing) [] :=
      Lexeme.ofChars_layout htrailing (.inr fun c hc => by cases hc) ""
    rw [List.append_nil, String.empty_append, Lexeme.ofChars_nil] at hread
    rw [text_nil, hread]
    rfl
  | cons s ss ih =>
    obtain ⟨hs, hss⟩ := List.forall_mem_cons.mp h
    have hends := endsWord_text hss (fun t ht => hglued t (List.mem_of_mem_head? ht)) htrailing
    rw [text_cons, hs.ofChars_format hends,
      ih hss (fun t ht => hglued t (List.mem_of_mem_tail ht)), List.flatMap_cons]

/-- **The words of the statements are read as the statements**, but for the places. -/
theorem writtenAs_lexemes {n : Nat} {ss : List Statement} (h : ∀ s ∈ ss, s.WellFormed)
    (hapart : ss.IsChain Statement.Apart)
    (haddress : ss.map Statement.address = List.range' n ss.length) :
    WrittenAs n (ss.map Statement.bare) (ss.flatMap Statement.lexemes) := by
  induction ss generalizing n with
  | nil => exact .nil
  | cons s ss ih =>
    obtain ⟨hs, hss⟩ := List.forall_mem_cons.mp h
    rw [List.map_cons, List.length_cons, List.range'_succ] at haddress
    obtain ⟨haddress, haddresses⟩ := List.cons.inj haddress
    rw [List.map_cons, List.flatMap_cons]
    refine .cons haddress (hs.writtenAs fun w hw hwants => ?_) (ih hss hapart.tail haddresses)
    cases ss with
    | nil => cases hw
    | cons t ss =>
      have hapart := (List.isChain_cons_cons.mp hapart).1
      rw [List.flatMap_cons, List.head?_append, t.head?_lexemes] at hw
      cases hw
      cases hlabel : t.label with
      | none =>
        rw [hlabel] at hwants
        exact hwants.2.2 (Statement.read_mnemonic _)
      | some l =>
        rw [hlabel] at hwants
        exact hapart l hlabel hwants

/-- **A well-formed listing without glued labels is read back**, but for the places. -/
theorem parse_format_of_unglued {l : Listing} (h : l.WellFormed)
    (hglued : ∀ s ∈ l.statements.tail, ¬ s.Glued) :
    ∃ l', parse l.format = .ok l' ∧ l'.bare = l.bare := by
  have htext : Lexeme.ofChars "" l.format.toList =
      (l.statements.flatMap Statement.lexemes, l.trailing) :=
    ofChars_text h.statements hglued h.trailing
  have hparse := bare_parse l.format
  rw [htext, readStatements_eq_ok_iff.mpr (writtenAs_lexemes h.statements h.apart h.addresses)]
    at hparse
  cases hl : parse l.format with
  | error e => rw [hl] at hparse; cases hparse
  | ok l' =>
    rw [hl] at hparse
    exact ⟨l', rfl, Except.ok.inj hparse⟩

end Listing

end LittleMan
