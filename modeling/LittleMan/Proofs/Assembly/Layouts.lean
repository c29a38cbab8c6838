import LittleMan.Proofs.Assembly.Lexing

/-!
# Layouts

Which texts are layouts (`Layout.Regular`), and that the reader of layouts keeps to them: what
stands before a word is a regular layout that no comment is left open in (`Lexeme.gather_regular`),
and such a layout, written in front of a text, is read as the layout before it
(`Lexeme.ofChars_layout`).

`Lexeme.ofChars` is what a text falls into when places do not count. Equations for what can stand at
the head of the text are all that later proofs need of the scanner.
-/

namespace LittleMan

/-! ### Regular layouts -/

/-- Line breaks, and comments on lines of their own. -/
inductive Layout.Regular : String → Prop where
  /-- Nothing. -/
  | nil : Regular ""
  /-- A line break more. -/
  | newline {layout : String} (h : Regular layout) : Regular (layout ++ "\n")
  /-- A line more with a comment on it. -/
  | comment {layout text : String} (h : Regular layout) (htext : Token.IsComment text.toList) :
    Regular (layout ++ "\n" ++ text)

/-- No comment is open at the end of the layout. -/
def Layout.Closed (layout : String) : Prop := ∀ c ∈ layout.toList.getLast?, c = '\n'

namespace Layout

theorem closed_nil : Closed "" := by
  intro c hc
  simp at hc

theorem closed_newline (layout : String) : Closed (layout ++ "\n") := by
  intro c hc
  simpa [eq_comm] using hc

theorem closed_of_getLast? {layout : String} (h : layout.toList.getLast? = some '\n') :
    Closed layout := by
  intro c hc
  rw [h] at hc
  exact (Option.some.inj hc).symm

theorem not_closed_comment (layout : String) {text : String} (h : Token.IsComment text.toList) :
    ¬ Closed (layout ++ text) := by
  intro hclosed
  have hne : text.toList ≠ [] := by
    intro hnil
    have := h.slashes
    rw [hnil] at this
    cases this
  refine h.line _ (List.getLast_mem hne) (hclosed _ ?_)
  rw [String.toList_append, List.getLast?_append, List.getLast?_eq_some_getLast hne]
  rfl

theorem Regular.extendLayout {layout : String} (h : Regular layout) {t : Token}
    (ht : t.WellFormed) : Regular (t.extendLayout layout) := by
  cases t with
  | newline => exact h.newline
  | comment text =>
    simp only [Token.extendLayout]
    split
    · rename_i hlast
      cases h with
      | nil => simp at hlast
      | newline h => exact h.comment ht
      | comment h htext =>
        exact absurd (closed_of_getLast? hlast) (not_closed_comment _ htext)
    · exact h.comment ht
  | word text => exact h

/-- A layout is nothing or begins with a line break. -/
theorem Regular.endsComment {layout : String} (h : Regular layout) :
    Token.EndsComment layout.toList := by
  induction h with
  | nil => intro c hc; simp at hc
  | @newline layout h ih =>
    intro c hc
    rw [String.toList_append, List.head?_append] at hc
    cases hhead : layout.toList.head? with
    | none => simpa [hhead, eq_comm] using hc
    | some d =>
      rw [hhead] at hc
      exact ih c (hhead ▸ hc)
  | @comment layout text h htext ih =>
    intro c hc
    rw [String.toList_append, String.toList_append, List.append_assoc, List.head?_append] at hc
    cases hhead : layout.toList.head? with
    | none => simpa [hhead, eq_comm] using hc
    | some d =>
      rw [hhead] at hc
      exact ih c (hhead ▸ hc)

end Layout

/-! ### Reading layouts -/

namespace Lexeme

open Layout

theorem gather_moved (f : Nat → Nat) (layout : String) (tokens : List (Located Token)) :
    gather layout (tokens.map (Located.moved f)) =
      ((gather layout tokens).1.map (Lexeme.moved f id), (gather layout tokens).2) := by
  induction tokens generalizing layout with
  | nil => rfl
  | cons t tokens ih =>
    obtain ⟨_ | text | text, span⟩ := t
    · exact ih _
    · exact ih _
    · simp only [List.map_cons, Located.moved, gather, ih ""]
      rfl

/-- What the words of a text and the layouts before them are like. -/
structure WellFormed (x : Lexeme) : Prop where
  /-- The word can be a word. -/
  word : Token.IsWord x.word.value.toList
  /-- The layout can be a layout. -/
  layout : Regular x.layout
  /-- The word does not stand in a comment. -/
  closed : Closed x.layout

/-- **Words are words and layouts are layouts**, if the first layout is one. -/
theorem gather_regular (offset : Nat) (cs : List Char) : ∀ {layout : String}, Regular layout →
    Closed layout ∨ Token.EndsComment cs →
      (∀ x ∈ (gather layout (Token.scan offset cs)).1, x.WellFormed) ∧
        Regular (gather layout (Token.scan offset cs)).2 := by
  induction offset, cs using Token.scan.induct with
  | case1 offset =>
    intro layout h _
    rw [Token.scan_nil]
    exact ⟨by simp [gather], h⟩
  | case2 offset cs ih =>
    intro layout h _
    rw [Token.scan_newline]
    exact ih h.newline (.inl (closed_newline layout))
  | case3 offset c cs hn hc read stop =>
    rename_i ih
    intro layout h hclosed
    -- a comment may stand at the end of the layout only if the text goes on with a line break
    have hclosed : Closed layout := hclosed.resolve_right fun hends => hn (hends c rfl)
    have hform := Token.wellFormed_ofLexeme hc cs
    rw [Token.scan_wordChar hc]
    cases hslashes : ['/', '/'].isPrefixOf (c :: cs) with
    | true =>
      have hends := Token.endsComment_afterLexeme hslashes
      obtain ⟨text, htext⟩ : ∃ text, Token.ofLexeme (Token.lexeme (c :: cs)) = .comment text := by
        rw [Token.ofLexeme, Token.isPrefixOf_lexeme, hslashes]
        exact ⟨_, rfl⟩
      rw [htext] at hform ⊢
      exact ih (h.extendLayout hform) (.inr hends)
    | false =>
      obtain ⟨text, htext⟩ : ∃ text, Token.ofLexeme (Token.lexeme (c :: cs)) = .word text := by
        rw [Token.ofLexeme, Token.isPrefixOf_lexeme, hslashes]
        exact ⟨_, rfl⟩
      rw [htext] at hform ⊢
      obtain ⟨hwords, htrailing⟩ := ih Regular.nil (.inl closed_nil)
      exact ⟨List.forall_mem_cons.mpr ⟨⟨hform, h, hclosed⟩, hwords⟩, htrailing⟩
  | case4 offset c cs hn hc ih =>
    intro layout h hclosed
    rw [Bool.not_eq_true] at hc
    rw [Token.scan_blank hc hn]
    exact ih h (.inl (hclosed.resolve_right fun hends => hn (hends c rfl)))

/-! ### Reading on without places -/

/-- The words of the characters, without their places, of which the first follows the given layout,
and the layout after the last word. -/
def ofChars (layout : String) (cs : List Char) : List Lexeme × String :=
  gather layout ((Token.scan 0 cs).map (Located.moved nowhere))

/-- A word without its place. -/
def bareWord (layout word : String) : Lexeme := ⟨layout, ⟨word, ⟨0, 0⟩⟩⟩

theorem scan_nowhere (offset : Nat) (cs : List Char) :
    (Token.scan offset cs).map (Located.moved nowhere) =
      (Token.scan 0 cs).map (Located.moved nowhere) := by
  have h := congrArg (List.map (Located.moved nowhere)) (Token.scan_add 0 offset cs)
  rw [Nat.zero_add, List.map_map] at h
  exact h

@[simp] theorem ofChars_nil (layout : String) : ofChars layout [] = ([], layout) := by
  simp [ofChars, gather]

@[simp] theorem ofChars_newline (layout : String) (cs : List Char) :
    ofChars layout ('\n' :: cs) = ofChars (layout ++ "\n") cs := by
  rw [ofChars, Token.scan_newline, List.map_cons, scan_nowhere]
  rfl

theorem ofChars_blank {c : Char} (hc : Token.isWordChar c = false) (hn : c ≠ '\n') (layout : String)
    (cs : List Char) : ofChars layout (c :: cs) = ofChars layout cs := by
  rw [ofChars, Token.scan_blank hc hn, scan_nowhere]
  rfl

@[simp] theorem ofChars_tab (layout : String) (cs : List Char) :
    ofChars layout ('\t' :: cs) = ofChars layout cs :=
  ofChars_blank (by decide) (by decide) layout cs

theorem ofChars_word {w : String} (hw : Token.IsWord w.toList) {rest : List Char}
    (hr : Token.EndsWord rest) (layout : String) :
    ofChars layout (w.toList ++ rest) =
      (bareWord layout w :: (ofChars "" rest).1, (ofChars "" rest).2) := by
  rw [ofChars, Token.scan_word hw hr, List.map_cons, scan_nowhere, String.ofList_toList]
  rfl

theorem ofChars_comment {text : String} (htext : Token.IsComment text.toList) {rest : List Char}
    (hr : Token.EndsComment rest) (layout : String) :
    ofChars layout (text.toList ++ rest) =
      ofChars ((Token.comment text).extendLayout layout) rest := by
  rw [ofChars, Token.scan_comment htext hr, List.map_cons, scan_nowhere, String.ofList_toList]
  rfl

/-- **A layout is read as a layout.** If it ends with a comment, the line has to end there. -/
theorem ofChars_layout {layout : String} (h : Regular layout) {rest : List Char}
    (hclosed : Closed layout ∨ Token.EndsComment rest) (before : String) :
    ofChars before (layout.toList ++ rest) = ofChars (before ++ layout) rest := by
  induction h generalizing rest with
  | nil => simp
  | @newline layout h ih =>
    have hlayout : (layout ++ "\n").toList ++ rest = layout.toList ++ '\n' :: rest := by simp
    rw [hlayout, ih (.inr (Token.endsComment_cons _)), ofChars_newline, String.append_assoc]
  | @comment layout text h htext ih =>
    have hends := hclosed.resolve_left (not_closed_comment _ htext)
    have hlayout : (layout ++ "\n" ++ text).toList ++ rest =
        layout.toList ++ '\n' :: (text.toList ++ rest) := by simp
    rw [hlayout, ih (.inr (Token.endsComment_cons _)), ofChars_newline, ofChars_comment htext hends]
    simp [Token.extendLayout, String.append_assoc]

end Lexeme

/-- **A source is parsed by its words alone**, but for the places. -/
theorem Listing.bare_parse (source : String) :
    movedResult nowhere Listing.bare (parse source) =
      (readStatements 0 (Lexeme.ofChars "" source.toList).1).map
        (⟨·, (Lexeme.ofChars "" source.toList).2⟩) := by
  have hmoved := readStatements_moved 0 nowhere id 0 (Lexeme.ofTokens (Token.ofSource source)).1
  rw [Lexeme.ofChars, Lexeme.gather_moved, parse_eq]
  change _ = (readStatements 0 ((Lexeme.ofTokens (Token.ofSource source)).1.map _)).map _
  rw [hmoved]
  cases readStatements 0 (Lexeme.ofTokens (Token.ofSource source)).1 <;> rfl

end LittleMan
