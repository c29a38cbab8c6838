import LittleMan.Proofs.Assembly.WordCount

/-!
# The comments of a listing

The text of a listing has the comments of its layouts, in order. It has others besides exactly if a
label is glued to the statement before it in such a way that the last word of the one and the label
of the other begin with two slashes (`Statement.OpensComment`, `Listing.commentTexts_text_iff`).
Such a comment hides the rest of its line, which has statements but no other comments on it, so that
none of the layouts is lost (`Listing.sublist_commentTexts_text`).
-/

namespace LittleMan

/-! ### The comments of a text -/

namespace Token

/-- The comment of a token, if it is one, and its place. -/
def comment? (t : Located Token) : Option (Located String) :=
  match t.value with
  | .comment text => some ⟨text, t.span⟩
  | _ => none

/-- The comments of the characters, which stand in the source from byte `offset` on. -/
def comments (offset : Nat) (cs : List Char) : List (Located String) :=
  (scan offset cs).filterMap comment?

/-- The comments of the characters, without their places. -/
def commentTexts (cs : List Char) : List String := (comments 0 cs).map Located.value

theorem value_comments (offset : Nat) (cs : List Char) :
    (comments offset cs).map Located.value = commentTexts cs := by
  have hscan := scan_add 0 offset cs
  rw [Nat.zero_add] at hscan
  rw [commentTexts, comments, comments, hscan, List.filterMap_map, List.map_filterMap,
    List.map_filterMap]
  refine congrArg (List.filterMap · _) (funext fun t => ?_)
  obtain ⟨_ | text | text, span⟩ := t <;> rfl

@[simp] theorem commentTexts_nil : commentTexts [] = [] := by simp [commentTexts, comments]

@[simp] theorem commentTexts_newline (cs : List Char) :
    commentTexts ('\n' :: cs) = commentTexts cs := by
  rw [commentTexts, comments, scan_newline, List.filterMap_cons_none rfl]
  exact value_comments _ cs

theorem commentTexts_blank {c : Char} (hc : isWordChar c = false) (hn : c ≠ '\n')
    (cs : List Char) : commentTexts (c :: cs) = commentTexts cs := by
  rw [commentTexts, comments, scan_blank hc hn]
  exact value_comments _ cs

@[simp] theorem commentTexts_tab (cs : List Char) : commentTexts ('\t' :: cs) = commentTexts cs :=
  commentTexts_blank (by decide) (by decide) cs

theorem commentTexts_word {w rest : List Char} (hw : IsWord w) (hr : EndsWord rest) :
    commentTexts (w ++ rest) = commentTexts rest := by
  rw [commentTexts, comments, scan_word hw hr, List.filterMap_cons_none rfl]
  exact value_comments _ rest

theorem commentTexts_comment {text rest : List Char} (h : IsComment text) (hr : EndsComment rest) :
    commentTexts (text ++ rest) = String.ofList text :: commentTexts rest := by
  rw [commentTexts, comments, scan_comment h hr]
  exact congrArg _ (value_comments _ rest)

/-- Two slashes at the head make a comment of the first line. -/
theorem commentTexts_of_slashes {cs : List Char} (h : ['/', '/'].isPrefixOf cs = true) :
    commentTexts cs = String.ofList (cs.takeWhile (· != '\n')) ::
      commentTexts (cs.dropWhile (· != '\n')) := by
  have hcomments := commentTexts_comment (isComment_line h) (endsComment_dropLine cs)
  rwa [List.takeWhile_append_dropWhile] at hcomments

theorem sublist_commentTexts_dropLine (cs : List Char) :
    (commentTexts (cs.dropWhile (· != '\n'))).Sublist (commentTexts cs) := by
  induction cs using text_induction with
  | nil => exact List.Sublist.refl _
  | newline cs ih => exact List.Sublist.refl _
  | blank c cs hc hn ih =>
    rwa [commentTexts_blank hc hn, List.dropWhile_cons_of_pos (by simpa using hn)]
  | word w rest hw hr ih =>
    rwa [List.dropWhile_append_of_pos fun c hc => by
      simpa using ne_newline_of_isWordChar (hw.chars c hc), commentTexts_word hw hr]
  | comment text rest htext hr ih =>
    rw [List.dropWhile_append_of_pos fun c hc => by simpa using htext.line c hc,
      commentTexts_comment htext hr]
    exact ih.trans (List.sublist_cons_self _ _)

/-- The comments of a layout stand before those of the text behind it. -/
theorem commentTexts_layout {layout : String} (h : Layout.Regular layout) {rest : List Char}
    (hclosed : Layout.Closed layout ∨ EndsComment rest) :
    commentTexts (layout.toList ++ rest) = commentTexts layout.toList ++ commentTexts rest := by
  induction h generalizing rest with
  | nil => simp
  | @newline layout h ih =>
    have hnewline (rest : List Char) : (layout ++ "\n").toList ++ rest =
        layout.toList ++ '\n' :: rest := by simp
    have hlayout := hnewline []
    rw [List.append_nil] at hlayout
    rw [hnewline, hlayout, ih (.inr (endsComment_cons _)), ih (.inr (endsComment_cons _))]
    simp
  | @comment layout text h htext ih =>
    have hends := hclosed.resolve_left (Layout.not_closed_comment _ htext)
    have hcomment (rest : List Char) : (layout ++ "\n" ++ text).toList ++ rest =
        layout.toList ++ '\n' :: (text.toList ++ rest) := by simp
    have hlayout := hcomment []
    rw [List.append_nil] at hlayout
    rw [hcomment, hlayout, ih (.inr (endsComment_cons _)), ih (.inr (endsComment_cons _)),
      commentTexts_newline, commentTexts_newline, commentTexts_comment htext hends,
      commentTexts_comment htext fun c hc => by cases hc]
    simp

end Token

/-! ### Statements -/

namespace Statement

/-- The last word of the statement as it is printed. -/
def lastWord (s : Statement) : String :=
  (s.operand.map fun o => o.value.text).getD s.opcode.value.mnemonic

/-- The label of the second statement, right behind the first, begins a comment. -/
def OpensComment (s t : Statement) : Prop :=
  t.Glued ∧ ['/', '/'].isPrefixOf (s.lastWord.toList ++ t.labelText.toList) = true

instance (s t : Statement) : Decidable (s.OpensComment t) := inferInstanceAs (Decidable (_ ∧ _))

theorem WellFormed.isWord_lastWord {s : Statement} (h : s.WellFormed) :
    Token.IsWord s.lastWord.toList := by
  unfold lastWord
  cases hoperand : s.operand with
  | none => exact isWord_mnemonic _
  | some o => exact h.word o hoperand

theorem WellFormed.format_line {s : Statement} (h : s.WellFormed) :
    ∀ c ∈ s.format.toList, c ≠ '\n' := by
  have hword {cs : List Char} (hcs : ∀ c ∈ cs, Token.isWordChar c = true) : ∀ c ∈ cs, c ≠ '\n' :=
    fun c hc => Token.ne_newline_of_isWordChar (hcs c hc)
  have hoperand : ∀ c ∈ s.operandText, c ≠ '\n' := by
    unfold operandText
    cases ho : s.operand with
    | none => simp
    | some o => exact List.forall_mem_cons.mpr ⟨by decide, hword (h.word o ho).chars⟩
  rw [toList_format]
  exact List.forall_mem_append.mpr ⟨hword h.labelText_chars, List.forall_mem_cons.mpr
    ⟨by decide, List.forall_mem_append.mpr ⟨hword (isWord_mnemonic _).chars, hoperand⟩⟩⟩

/-- Only at its end can a statement begin a comment. -/
theorem WellFormed.commentTexts_format_append {s : Statement} (h : s.WellFormed)
    (rest : List Char) : Token.commentTexts (s.format.toList ++ rest) =
      Token.commentTexts (s.lastWord.toList ++ rest) := by
  have htail : Token.commentTexts (s.opcode.value.mnemonic.toList ++ (s.operandText ++ rest)) =
      Token.commentTexts (s.lastWord.toList ++ rest) := by
    unfold operandText lastWord
    cases s.operand with
    | none => rfl
    | some o =>
      rw [List.cons_append, Token.commentTexts_word (isWord_mnemonic _) (endsWord_tab _),
        Token.commentTexts_tab]
      rfl
  rw [toList_format, List.append_assoc, List.cons_append, List.append_assoc]
  unfold labelText
  cases hlabel : s.label with
  | none =>
    rw [← htail]
    exact Token.commentTexts_tab _
  | some l =>
    exact (Token.commentTexts_word (h.label l hlabel).1 (endsWord_tab _)).trans
      ((Token.commentTexts_tab _).trans htail)

end Statement

/-! ### Listings -/

namespace Listing

open Statement

/-- The comments before the statements and behind the last of them. -/
def layoutComments (ss : List Statement) (trailing : String) : List String :=
  ss.flatMap (fun s => Token.commentTexts s.layout.toList) ++ Token.commentTexts trailing.toList

theorem layoutComments_cons (s : Statement) (ss : List Statement) (trailing : String) :
    layoutComments (s :: ss) trailing =
      Token.commentTexts s.layout.toList ++ layoutComments ss trailing := by
  rw [layoutComments, layoutComments, List.flatMap_cons, List.append_assoc]

theorem commentTexts_text_cons {s : Statement} (h : s.WellFormed) (ss : List Statement)
    (trailing : String) : Token.commentTexts (text (s :: ss) trailing) =
      Token.commentTexts s.layout.toList ++
        Token.commentTexts (s.lastWord.toList ++ text ss trailing) := by
  rw [text_cons, Token.commentTexts_layout h.layout (.inl h.closed), h.commentTexts_format_append]

/-- The layouts keep their comments, even if the first line is lost. -/
theorem sublist_layoutComments_dropLine {ss : List Statement} {trailing : String}
    (h : ∀ s ∈ ss, s.WellFormed) (htrailing : Layout.Regular trailing) :
    (layoutComments ss trailing).Sublist
      (Token.commentTexts ((text ss trailing).dropWhile (· != '\n'))) := by
  have hkept {cs : List Char} (hcs : Token.EndsComment cs) :
      cs.dropWhile (· != '\n') = cs := by
    cases cs with
    | nil => rfl
    | cons c cs => rw [List.dropWhile_cons_of_neg (by simpa using hcs c rfl)]
  induction ss with
  | nil =>
    rw [text_nil, hkept htrailing.endsComment]
    exact List.Sublist.refl _
  | cons s ss ih =>
    obtain ⟨hs, hss⟩ := List.forall_mem_cons.mp h
    have hline : ∀ c ∈ s.format.toList, (c != '\n') = true := fun c hc => by
      simpa using hs.format_line c hc
    have ih := ih hss
    rw [← List.dropWhile_append_of_pos hline] at ih
    rw [layoutComments_cons, text_cons]
    by_cases hlayout : s.layout = ""
    · rw [hlayout, String.toList_empty, Token.commentTexts_nil]
      exact ih
    · obtain ⟨c, cs, hcs⟩ := List.exists_cons_of_ne_nil (mt String.toList_eq_nil_iff.mp hlayout)
      have hends : Token.EndsComment (s.layout.toList ++ (s.format.toList ++ text ss trailing)) := by
        have hends := hs.layout.endsComment
        rw [hcs] at hends ⊢
        exact hends
      rw [hkept hends, Token.commentTexts_layout hs.layout (.inl hs.closed)]
      exact (List.append_sublist_append_left _).mpr
        (ih.trans (Token.sublist_commentTexts_dropLine _))

/-- **The text of a listing has the comments of the layouts.** -/
theorem sublist_commentTexts_text {ss : List Statement} {trailing : String}
    (h : ∀ s ∈ ss, s.WellFormed) (htrailing : Layout.Regular trailing) :
    (layoutComments ss trailing).Sublist (Token.commentTexts (text ss trailing)) :=
  (sublist_layoutComments_dropLine h htrailing).trans (Token.sublist_commentTexts_dropLine _)

theorem isChain_opensComment_unlabelled {t : Statement} {ss : List Statement} :
    (t.unlabelled :: ss).IsChain (fun s t => ¬ s.OpensComment t) ↔
      (t :: ss).IsChain fun s t => ¬ s.OpensComment t := by
  cases ss with
  | nil => exact iff_of_true (.singleton _) (.singleton _)
  | cons u ss =>
    rw [List.isChain_cons_cons, List.isChain_cons_cons]
    exact Iff.rfl

/-- **The text of a listing has no other comments exactly if** no label begins one. -/
theorem commentTexts_text_iff {s : Statement} {ss : List Statement} {trailing : String}
    (h : ∀ t ∈ s :: ss, t.WellFormed) (htrailing : Layout.Regular trailing) :
    Token.commentTexts (text (s :: ss) trailing) = layoutComments (s :: ss) trailing ↔
      (s :: ss).IsChain fun s t => ¬ s.OpensComment t := by
  induction ss generalizing s with
  | nil =>
    have hs := h s List.mem_cons_self
    have hends := htrailing.endsComment.endsWord
    rw [commentTexts_text_cons hs, layoutComments_cons, text_nil,
      Token.commentTexts_word hs.isWord_lastWord hends]
    exact ⟨fun _ => .singleton s, fun _ => rfl⟩
  | cons t ss ih =>
    obtain ⟨hs, hss⟩ := List.forall_mem_cons.mp h
    have hw := hs.isWord_lastWord
    rw [commentTexts_text_cons hs, layoutComments_cons, List.append_cancel_left_eq,
      List.isChain_cons_cons]
    by_cases hglued : t.Glued
    · obtain ⟨l, hl⟩ := Option.isSome_iff_exists.mp hglued.1
      have hlabel : t.labelText = l.value := by rw [labelText, hl]; rfl
      have hends := endsWord_text_unlabelled hss htrailing
      have htext : s.lastWord.toList ++ text (t :: ss) trailing =
          s.lastWord.toList ++ t.labelText.toList ++ text (t.unlabelled :: ss) trailing := by
        rw [text_of_glued hl hglued.2, hlabel, List.append_assoc]
      have hne : s.lastWord.toList ++ t.labelText.toList ≠ [] := by simp [hw.ne_nil]
      have hchars := List.forall_mem_append.mpr
        ⟨hw.chars, (hss t List.mem_cons_self).labelText_chars⟩
      cases hslashes : ['/', '/'].isPrefixOf (s.lastWord.toList ++ t.labelText.toList) with
      | true =>
        -- there is a comment more than the layouts have
        refine iff_of_false (fun heq => ?_) fun hchain => hchain.1 ⟨hglued, hslashes⟩
        have hhead := (Token.isPrefixOf_append_of_endsWord hne hends).trans hslashes
        rw [← htext] at hhead
        rw [Token.commentTexts_of_slashes hhead, List.dropWhile_append_of_pos fun c hc => by
          simpa using Token.ne_newline_of_isWordChar (hw.chars c hc)] at heq
        have hle := (sublist_layoutComments_dropLine hss htrailing).length_le
        rw [← heq, List.length_cons] at hle
        exact Nat.not_succ_le_self _ hle
      | false =>
        rw [htext, Token.commentTexts_word ⟨hne, hchars, hslashes⟩ hends]
        refine (ih (wellFormed_unlabelled hss)).trans ?_
        rw [isChain_opensComment_unlabelled]
        refine (and_iff_right fun hopens => ?_).symm
        rw [hopens.2] at hslashes
        cases hslashes
    · have hends := endsWord_text hss (fun u hu => Option.some.inj hu ▸ hglued) htrailing
      rw [Token.commentTexts_word hw hends, ih hss]
      exact (and_iff_right fun hopens => hglued hopens.1).symm

end Listing

end LittleMan
