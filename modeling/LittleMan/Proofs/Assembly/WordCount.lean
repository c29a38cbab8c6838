import LittleMan.Proofs.Assembly.Printing

/-!
# Counting the words of a listing

The listing of a program has nothing between a statement and the label behind it, unless the layout
of the labelled statement is some. Such a label is glued to the last word before it: of the two
words the text makes one, or a comment that hides more of them. So the text of a listing has fewer
words than the listing, by one at least for every glued label (`Listing.count_text_le`), and no
listing with a glued label is read back from its own text (`Listing.unglued_of_parse_format`).
-/

namespace LittleMan

/-! ### Counting words -/

namespace Lexeme

/-- How many words the characters fall into. -/
def count (cs : List Char) : Nat := (ofChars "" cs).1.length

theorem length_gather (layout layout' : String) (tokens : List (Located Token)) :
    (gather layout tokens).1.length = (gather layout' tokens).1.length := by
  induction tokens generalizing layout layout' with
  | nil => rfl
  | cons t tokens ih =>
    obtain ⟨_ | text | text, span⟩ := t
    · exact ih _ _
    · exact ih _ _
    · rfl

theorem length_ofChars (layout : String) (cs : List Char) :
    (ofChars layout cs).1.length = count cs := length_gather _ _ _

@[simp] theorem count_nil : count [] = 0 := by simp [count]

theorem count_blank {c : Char} (hc : Token.isWordChar c = false) (hn : c ≠ '\n') (cs : List Char) :
    count (c :: cs) = count cs := by
  rw [count, ofChars_blank hc hn, length_ofChars]

@[simp] theorem count_tab (cs : List Char) : count ('\t' :: cs) = count cs :=
  count_blank (by decide) (by decide) cs

theorem count_word {w rest : List Char} (hw : Token.IsWord w) (hr : Token.EndsWord rest) :
    count (w ++ rest) = count rest + 1 := by
  have hw' : Token.IsWord (String.ofList w).toList := by rwa [String.toList_ofList]
  have hread := ofChars_word hw' hr ""
  rw [String.toList_ofList] at hread
  rw [count, hread]
  rfl

theorem count_comment {text rest : List Char} (h : Token.IsComment text)
    (hr : Token.EndsComment rest) : count (text ++ rest) = count rest := by
  have h' : Token.IsComment (String.ofList text).toList := by rwa [String.toList_ofList]
  have hread := ofChars_comment h' hr ""
  rw [String.toList_ofList] at hread
  rw [count, hread, length_ofChars]

theorem count_layout {layout : String} (h : Layout.Regular layout) {rest : List Char}
    (hclosed : Layout.Closed layout ∨ Token.EndsComment rest) :
    count (layout.toList ++ rest) = count rest := by
  rw [count, ofChars_layout h hclosed, length_ofChars]

theorem count_of_slashes {cs : List Char} (h : ['/', '/'].isPrefixOf cs = true) :
    count cs = count (cs.dropWhile (· != '\n')) := by
  have hcount := count_comment (Token.isComment_line h) (Token.endsComment_dropLine cs)
  rwa [List.takeWhile_append_dropWhile] at hcount

theorem count_dropLine_le (cs : List Char) : count (cs.dropWhile (· != '\n')) ≤ count cs := by
  induction cs using Token.text_induction with
  | nil => exact Nat.le_refl _
  | newline cs ih => exact Nat.le_refl _
  | blank c cs hc hn ih =>
    rwa [count_blank hc hn, List.dropWhile_cons_of_pos (by simpa using hn)]
  | word w rest hw hr ih =>
    rw [List.dropWhile_append_of_pos fun c hc => by
      simpa using Token.ne_newline_of_isWordChar (hw.chars c hc), count_word hw hr]
    exact Nat.le_succ_of_le ih
  | comment text rest htext hr ih =>
    rwa [List.dropWhile_append_of_pos fun c hc => by simpa using htext.line c hc,
      count_comment htext hr]

/-- At most one word comes of word characters, also if they make a comment. -/
theorem count_wordChars_le {cs rest : List Char} (hcs : ∀ c ∈ cs, Token.isWordChar c = true)
    (hr : Token.EndsWord rest) : count (cs ++ rest) ≤ count rest + 1 := by
  by_cases hnil : cs = []
  · subst hnil
    exact Nat.le_succ _
  cases hslashes : ['/', '/'].isPrefixOf cs with
  | false => exact Nat.le_of_eq (count_word ⟨hnil, hcs, hslashes⟩ hr)
  | true =>
    have hslashes' : ['/', '/'].isPrefixOf (cs ++ rest) = true :=
      (Token.isPrefixOf_append_of_endsWord hnil hr).trans hslashes
    rw [count_of_slashes hslashes', List.dropWhile_append_of_pos fun c hc => by
      simpa using Token.ne_newline_of_isWordChar (hcs c hc)]
    exact Nat.le_succ_of_le (count_dropLine_le rest)

end Lexeme

namespace Statement

/-- The statement without its label. -/
def unlabelled (s : Statement) : Statement := { s with label := none }

theorem WellFormed.count_le {s : Statement} (h : s.WellFormed) {cs rest : List Char}
    (hcs : ∀ c ∈ cs, Token.isWordChar c = true) (hr : Token.EndsWord rest) :
    Lexeme.count (s.layout.toList ++ (s.format.toList ++ (cs ++ rest))) ≤
      s.lexemes.length + Lexeme.count rest := by
  rw [Lexeme.count_layout h.layout (.inl h.closed), toList_format]
  have hmnemonic := isWord_mnemonic s.opcode.value
  have hextended {w : List Char} (hw : Token.IsWord w) :
      Lexeme.count (w ++ (cs ++ rest)) ≤ Lexeme.count rest + 1 := by
    rw [← List.append_assoc]
    exact Lexeme.count_wordChars_le (List.forall_mem_append.mpr ⟨hw.chars, hcs⟩) hr
  have htail : Lexeme.count (s.opcode.value.mnemonic.toList ++ (s.operandText ++ (cs ++ rest))) ≤
      (lexemes.operand s).length + 1 + Lexeme.count rest := by
    unfold operandText lexemes.operand
    cases hoperand : s.operand with
    | none =>
      have hle := hextended hmnemonic
      simp only [List.nil_append, Option.map_none, Option.toList_none, List.length_nil]
      omega
    | some o =>
      have hle := hextended (h.word o hoperand)
      rw [List.cons_append, Lexeme.count_word hmnemonic (endsWord_tab _), Lexeme.count_tab]
      simp only [Option.map_some, Option.toList_some, List.length_singleton]
      omega
  unfold labelText lexemes
  cases hlabel : s.label with
  | none =>
    simp only [Option.map_none, Option.getD_none, String.toList_empty, List.nil_append,
      List.cons_append, List.append_assoc, Lexeme.count_tab, List.length_cons]
    omega
  | some l =>
    simp only [Option.map_some, Option.getD_some, List.cons_append, List.append_assoc,
      List.length_cons]
    rw [Lexeme.count_word (h.label l hlabel).1 (endsWord_tab _), Lexeme.count_tab]
    omega

theorem WellFormed.unlabelled {s : Statement} (h : s.WellFormed) : s.unlabelled.WellFormed :=
  { h with label := fun l hl => by cases hl }

theorem not_glued_unlabelled (s : Statement) : ¬ s.unlabelled.Glued := fun h => by cases h.1

theorem length_lexemes (s : Statement) :
    s.lexemes.length = s.label.toList.length + 1 + s.operand.toList.length := by
  unfold lexemes lexemes.operand
  cases s.label <;> cases s.operand <;> rfl

end Statement

namespace Listing

open Statement

theorem wellFormed_unlabelled {t : Statement} {ss : List Statement}
    (h : ∀ u ∈ t :: ss, u.WellFormed) : ∀ u ∈ t.unlabelled :: ss, u.WellFormed := by
  obtain ⟨ht, hss⟩ := List.forall_mem_cons.mp h
  exact List.forall_mem_cons.mpr ⟨ht.unlabelled, hss⟩

theorem endsWord_text_unlabelled {t : Statement} {ss : List Statement} {trailing : String}
    (h : ∀ u ∈ t :: ss, u.WellFormed) (htrailing : Layout.Regular trailing) :
    Token.EndsWord (text (t.unlabelled :: ss) trailing) := by
  refine endsWord_text (wellFormed_unlabelled h) (fun u hu => ?_) htrailing
  obtain rfl := Option.some.inj hu
  exact not_glued_unlabelled t

theorem text_of_glued {t : Statement} {l : Located String} (hl : t.label = some l)
    (hlayout : t.layout = "") (ss : List Statement) (trailing : String) :
    text (t :: ss) trailing = l.value.toList ++ text (t.unlabelled :: ss) trailing := by
  rw [text_cons, text_cons, toList_format, toList_format, hlayout, labelText, hl]
  simp [labelText, unlabelled, hlayout, operandText]

/-- **Every glued label costs a word.** -/
theorem count_text_le {s : Statement} {ss : List Statement} {trailing : String}
    (h : ∀ t ∈ s :: ss, t.WellFormed) (htrailing : Layout.Regular trailing) :
    Lexeme.count (text (s :: ss) trailing) + ss.countP (·.Glued) ≤
      ((s :: ss).flatMap lexemes).length := by
  induction ss generalizing s with
  | nil =>
    have hends := htrailing.endsComment.endsWord
    have hle := (h s List.mem_cons_self).count_le
      (List.forall_mem_nil (Token.isWordChar · = true)) hends
    have hnone : Lexeme.count trailing.toList = 0 := by
      have hcount : Lexeme.count (trailing.toList ++ []) = Lexeme.count [] :=
        Lexeme.count_layout htrailing (.inr fun c hc => by cases hc)
      rwa [List.append_nil, Lexeme.count_nil] at hcount
    rw [text_cons, text_nil]
    simp only [List.nil_append, hnone] at hle
    simpa using hle
  | cons t ss ih =>
    obtain ⟨hs, hss⟩ := List.forall_mem_cons.mp h
    rw [List.flatMap_cons, List.length_append, text_cons]
    by_cases hglued : t.Glued
    · obtain ⟨l, hl⟩ := Option.isSome_iff_exists.mp hglued.1
      have hword := ((hss t List.mem_cons_self).label l hl).1
      have hle := hs.count_le hword.chars (endsWord_text_unlabelled hss htrailing)
      have hlength : t.unlabelled.lexemes.length + 1 = t.lexemes.length := by
        rw [length_lexemes, length_lexemes, hl]
        simp [unlabelled]
        omega
      have ih := ih (wellFormed_unlabelled hss)
      rw [text_of_glued hl hglued.2, List.countP_cons_of_pos (by simpa using hglued)]
      rw [List.flatMap_cons, List.length_append] at ih ⊢
      omega
    · have hle := hs.count_le (List.forall_mem_nil (Token.isWordChar · = true))
        (endsWord_text hss (fun u hu => by cases hu; exact hglued) htrailing)
      rw [List.countP_cons_of_neg (by simpa using hglued)]
      have ih := ih hss
      simp only [List.nil_append] at hle
      omega

theorem WrittenAs.length {n : Nat} {ss : List Statement} {words : List Lexeme}
    (h : WrittenAs n ss words) : words.length = (ss.flatMap lexemes).length := by
  induction h with
  | nil => rfl
  | @cons address s ss used rest _ hs _ ih =>
    obtain ⟨mnemonic, hspelling, -⟩ := hs.words
    have hused : used.length = s.lexemes.length := by
      have hlength := congrArg List.length hspelling
      rw [List.length_map] at hlength
      rw [hlength, length_lexemes]
      unfold spelling operandWords
      cases s.label <;> cases s.operand <;> rfl
    rw [List.length_append, List.flatMap_cons, List.length_append, hused, ih]

/-- **A listing that is read back from its own text has no glued label.** -/
theorem unglued_of_parse_format {l : Listing} (h : parse l.format = .ok l) :
    ∀ s ∈ l.statements.tail, ¬ s.Glued := by
  have hl := wellFormed_of_parse h
  have hparse := bare_parse l.format
  rw [h] at hparse
  obtain ⟨ss, trailing⟩ := l
  change _ = (readStatements 0 (Lexeme.ofChars "" (text ss trailing)).1).map _ at hparse
  cases hss : readStatements 0 (Lexeme.ofChars "" (text ss trailing)).1 with
  | error e => rw [hss] at hparse; cases hparse
  | ok bares =>
    rw [hss] at hparse
    have hbares : bares = ss.map Statement.bare := (congrArg statements (Except.ok.inj hparse)).symm
    have hlength := (readStatements_eq_ok_iff.mp hss).length
    rw [hbares, List.flatMap_map, funext lexemes_bare] at hlength
    cases ss with
    | nil => simp
    | cons s ss =>
      have hle := count_text_le hl.statements hl.trailing
      rw [Lexeme.count, hlength] at hle
      have hzero : ss.countP (·.Glued) = 0 := by omega
      intro t ht
      simpa using List.countP_eq_zero.mp hzero t ht

end Listing

end LittleMan
