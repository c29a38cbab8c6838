import LittleMan.Proofs.Assembly.Comments
import LittleMan.Proofs.Assembly.TokenPlaces

/-!
# Which comments of a source are listed

The listing of a program has the comments that stand outside of the statements in the source, in
order. A comment inside of a statement, between its words, is lost: a statement has a layout before
it and none within. Together with the comments that glued labels begin this is all that happens to
the comments of a source (`Listing.commentTexts_format`).

Where a comment stands is a matter of spans. The tokens of a source stand one behind the other
(`Token.inOrder_scan`), and the reader of layouts cuts them into the layout before a statement, the
words and lost tokens of the statement, and what comes behind (`Lexeme.gather_eq_cons`,
`Lexeme.gather_eq_append`).
-/

namespace LittleMan

/-! ### The comments of tokens -/

namespace Token

theorem forall_comments (place : Span → Prop) {tokens : List (Located Token)}
    (h : ∀ t ∈ tokens, place t.span) : ∀ c ∈ tokens.filterMap comment?, place c.span := by
  intro c hc
  obtain ⟨t, ht, hcomment⟩ := List.mem_filterMap.mp hc
  have hplace := h t ht
  obtain ⟨_ | text | text, span⟩ := t <;> cases hcomment
  exact hplace

theorem commentTexts_extendLayout {layout : String} (h : Layout.Regular layout) {t : Located Token}
    (ht : t.value.WellFormed) :
    commentTexts (t.value.extendLayout layout).toList =
      commentTexts layout.toList ++ (comment? t).toList.map Located.value := by
  have hnewline : "\n".toList = ['\n'] := by decide
  obtain ⟨_ | text | text, span⟩ := t
  · rw [extendLayout, String.toList_append, hnewline,
      commentTexts_layout h (.inr (endsComment_cons _))]
    simp [comment?]
  · have hcomment : commentTexts text.toList = [text] := by
      have htexts := commentTexts_comment ht fun c (hc : c ∈ [].head?) => by cases hc
      rwa [List.append_nil, commentTexts_nil, String.ofList_toList] at htexts
    simp only [extendLayout]
    split
    · rename_i hlast
      rw [String.toList_append, commentTexts_layout h (.inl (Layout.closed_of_getLast? hlast)),
        hcomment]
      rfl
    · rw [String.append_assoc, String.toList_append, String.toList_append, hnewline,
        List.singleton_append, commentTexts_layout h (.inr (endsComment_cons _)),
        commentTexts_newline, hcomment]
      rfl
  · simp [extendLayout, comment?]

end Token

/-! ### Cutting tokens at words -/

namespace Lexeme

open Token

/-- The token of a word. -/
def token (x : Lexeme) : Located Token := ⟨.word x.word.value, x.word.span⟩

/-- The layout before the first word is what the tokens before it make. -/
theorem gather_eq_cons {layout trailing : String} {tokens : List (Located Token)} {x : Lexeme}
    {xs : List Lexeme} (h : gather layout tokens = (x :: xs, trailing)) :
    ∃ before behind, tokens = before ++ x.token :: behind ∧ gather layout before = ([], x.layout) ∧
      gather "" behind = (xs, trailing) := by
  induction tokens generalizing layout with
  | nil => cases h
  | cons t tokens ih =>
    obtain ⟨_ | text | text, span⟩ := t
    · obtain ⟨before, behind, rfl, hbefore, hbehind⟩ := ih h
      exact ⟨_ :: before, behind, rfl, hbefore, hbehind⟩
    · obtain ⟨before, behind, rfl, hbefore, hbehind⟩ := ih h
      exact ⟨_ :: before, behind, rfl, hbefore, hbehind⟩
    · cases h
      exact ⟨[], tokens, rfl, rfl, rfl⟩

theorem gather_append_token {layout : String} {before : List (Located Token)} {x : Lexeme}
    (h : gather layout before = ([], x.layout)) (behind : List (Located Token)) :
    gather layout (before ++ x.token :: behind) =
      (x :: (gather "" behind).1, (gather "" behind).2) := by
  induction before generalizing layout with
  | nil =>
    obtain rfl : layout = x.layout := congrArg Prod.snd h
    rfl
  | cons t before ih =>
    obtain ⟨_ | text | text, span⟩ := t
    · exact ih h
    · exact ih h
    · cases h

/-- Where words are cut off, tokens are, up to the last of the words. -/
theorem gather_eq_append {trailing : String} {tokens : List (Located Token)}
    {used rest : List Lexeme} (h : gather "" tokens = (used ++ rest, trailing)) :
    ∃ inside behind, tokens = inside ++ behind ∧ inside.getLast? = used.getLast?.map token ∧
      gather "" inside = (used, "") ∧ gather "" behind = (rest, trailing) := by
  induction used generalizing tokens with
  | nil => exact ⟨[], tokens, rfl, rfl, rfl, h⟩
  | cons x used ih =>
    obtain ⟨before, tokens, rfl, hbefore, htokens⟩ := gather_eq_cons h
    obtain ⟨inside, behind, rfl, hlast, hinside, hbehind⟩ := ih htokens
    refine ⟨before ++ x.token :: inside, behind, by simp, ?_, ?_, hbehind⟩
    · rw [List.getLast?_append, List.getLast?_cons, List.getLast?_cons, hlast]
      cases used.getLast? <;> rfl
    · rw [gather_append_token hbefore, hinside]

/-- The words as they are read from a text that begins with them. -/
def atStart : List Lexeme → List Lexeme
  | [] => []
  | x :: xs => ⟨"", x.word⟩ :: xs

theorem token_mem_of_gather {layout trailing : String} {tokens : List (Located Token)}
    {words : List Lexeme} (h : gather layout tokens = (words, trailing)) :
    ∀ x ∈ words, x.token ∈ tokens := by
  induction words generalizing layout tokens with
  | nil => simp
  | cons x words ih =>
    obtain ⟨before, behind, rfl, -, hbehind⟩ := gather_eq_cons h
    refine List.forall_mem_cons.mpr ⟨List.mem_append_right _ List.mem_cons_self, fun y hy => ?_⟩
    exact List.mem_append_right _ (List.mem_cons_of_mem _ (ih hbehind y hy))

/-- Tokens without a word make a layout with their comments. -/
theorem commentTexts_gather {layout layout' : String} {tokens : List (Located Token)}
    (h : gather layout tokens = ([], layout')) (hlayout : Layout.Regular layout)
    (hform : ∀ t ∈ tokens, t.value.WellFormed) :
    commentTexts layout'.toList =
      commentTexts layout.toList ++ (tokens.filterMap comment?).map Located.value := by
  induction tokens generalizing layout with
  | nil =>
    cases h
    simp
  | cons t tokens ih =>
    obtain ⟨ht, htokens⟩ := List.forall_mem_cons.mp hform
    have hextend := commentTexts_extendLayout hlayout ht
    obtain ⟨_ | text | text, span⟩ := t
    · rw [ih h (hlayout.extendLayout ht) htokens, hextend, List.append_assoc]
      rfl
    · rw [ih h (hlayout.extendLayout ht) htokens, hextend, List.append_assoc]
      rfl
    · cases h

end Lexeme

/-! ### Comments outside of statements -/

/-- The span lies inside of the statement. -/
def Statement.Encloses (s : Statement) (span : Span) : Prop :=
  s.span.start ≤ span.start ∧ span.stop ≤ s.span.stop

instance (s : Statement) (span : Span) : Decidable (s.Encloses span) :=
  inferInstanceAs (Decidable (_ ∧ _))

namespace Listing

/-- The comments that stand outside of the statements. -/
def outside (ss : List Statement) (comments : List (Located String)) : List (Located String) :=
  comments.filter fun c => ∀ s ∈ ss, ¬ s.Encloses c.span

end Listing

/-- The words of a statement reach from its start to its end. -/
theorem Statement.WrittenAs.span {s : Statement} {used rest : List Lexeme}
    (h : s.WrittenAs used rest) :
    used.head?.map (·.word.span.start) = some s.span.start ∧
      used.getLast?.map (·.word.span.stop) = some s.span.stop := by
  obtain ⟨mnemonic, hwords, hplace, -⟩ := h.words
  have hhead := congrArg (fun ws => ws.head?.map fun w : Located String => w.span.start) hwords
  have hlast := congrArg (fun ws => ws.getLast?.map fun w : Located String => w.span.stop) hwords
  simp only [List.head?_map, List.getLast?_map, Option.map_map] at hhead hlast
  refine ⟨hhead.trans ?_, hlast.trans ?_⟩
  · unfold spelling Statement.span
    cases s.label <;> simp [hplace]
  · unfold spelling Statement.span operandWords
    cases s.label <;> cases s.operand <;> simp [hplace]

namespace Listing

/-- A statement is written as some of the words, with others before it and behind it. -/
theorem WrittenAs.exists_split {n : Nat} {ss : List Statement} {words : List Lexeme}
    (h : WrittenAs n ss words) :
    ∀ s ∈ ss, ∃ front used rest, words = front ++ (used ++ rest) ∧ s.WrittenAs used rest := by
  induction h with
  | nil => simp
  | @cons address s ss used rest _ hs _ ih =>
    refine List.forall_mem_cons.mpr ⟨⟨[], used, rest, rfl, hs⟩, fun t ht => ?_⟩
    obtain ⟨front, usedLater, restLater, rfl, hwritten⟩ := ih t ht
    exact ⟨used ++ front, usedLater, restLater, (List.append_assoc ..).symm, hwritten⟩

theorem WrittenAs.exists_ends {n : Nat} {ss : List Statement} {words : List Lexeme}
    (h : WrittenAs n ss words) : ∀ s ∈ ss, ∃ first ∈ words, ∃ last ∈ words,
      s.span = ⟨first.word.span.start, last.word.span.stop⟩ := by
  intro s hs
  obtain ⟨front, used, rest, rfl, hwritten⟩ := h.exists_split s hs
  obtain ⟨first, hfirst, hstart⟩ := Option.map_eq_some_iff.mp hwritten.span.1
  obtain ⟨last, hlast, hstop⟩ := Option.map_eq_some_iff.mp hwritten.span.2
  have hused (x : Lexeme) (hx : x ∈ used) : x ∈ front ++ (used ++ rest) :=
    List.mem_append_right front (List.mem_append_left rest hx)
  exact ⟨first, hused first (List.mem_of_mem_head? hfirst), last,
    hused last (List.mem_of_getLast? hlast), by rw [hstart, hstop]⟩

end Listing

/-- The tokens are those of the statement that is written as `used`. -/
structure Statement.HasTokens (s : Statement) (used : List Lexeme) (inside : List (Located Token)) :
    Prop where
  /-- They begin where the statement begins. -/
  start : ∃ t ∈ inside.head?, t.span.start = s.span.start
  /-- They end with a word, where the statement ends. -/
  stop : ∃ text span, inside.getLast? = some ⟨.word text, span⟩ ∧ span.stop = s.span.stop
  /-- By themselves they are the words of the statement. -/
  words : Lexeme.gather "" inside = (Lexeme.atStart used, "")

/-- **A statement cuts the tokens of a source** into those before it, those inside of it and those
behind it. -/
theorem Statement.WrittenAs.exists_tokens {s : Statement} {used rest : List Lexeme}
    (h : s.WrittenAs used rest) {layout trailing : String} {tokens : List (Located Token)}
    (htokens : Lexeme.gather layout tokens = (used ++ rest, trailing)) :
    ∃ before inside behind, tokens = before ++ (inside ++ behind) ∧
      Lexeme.gather layout before = ([], s.layout) ∧ s.HasTokens used inside ∧
      Lexeme.gather "" behind = (rest, trailing) := by
  obtain ⟨first, used, rfl⟩ : ∃ first others, used = first :: others :=
    List.exists_cons_of_ne_nil (by rintro rfl; simpa using h.layout)
  obtain ⟨before, tokens, rfl, hbefore, htokens⟩ := Lexeme.gather_eq_cons htokens
  obtain ⟨inside, behind, rfl, hlast, hinside, hbehind⟩ := Lexeme.gather_eq_append htokens
  have hlayout : first.layout = s.layout := by simpa using h.layout
  obtain ⟨hstart, hstop⟩ := h.span
  refine ⟨before, first.token :: inside, behind, rfl, hlayout ▸ hbefore, ⟨?_, ?_, ?_⟩, hbehind⟩
  · exact ⟨first.token, rfl, Option.some.inj hstart⟩
  · obtain ⟨x, hx, hstop⟩ := Option.map_eq_some_iff.mp hstop
    refine ⟨x.word.value, x.word.span, ?_, hstop⟩
    rw [List.getLast?_cons] at hx ⊢
    rw [hlast, ← Option.some.inj hx]
    cases used.getLast? <;> rfl
  · rw [Lexeme.token, Lexeme.gather, hinside]
    rfl

/-- The tokens of a statement stand inside of it, and all others outside. -/
theorem Statement.HasTokens.places {s : Statement} {used : List Lexeme}
    {before inside behind : List (Located Token)} (h : s.HasTokens used inside)
    (horder : Token.InOrder (before ++ (inside ++ behind))) :
    (∀ t ∈ before, t.span.stop ≤ s.span.start) ∧ (∀ t ∈ inside, s.Encloses t.span) ∧
      ∀ t ∈ behind, s.span.stop ≤ t.span.start := by
  obtain ⟨first, hfirst, hstart⟩ := h.start
  obtain ⟨text, span, hlast, hstop⟩ := h.stop
  obtain ⟨others, rfl⟩ := List.head?_eq_some_iff.mp hfirst
  obtain ⟨-, horder, hbetween⟩ := Token.inOrder_append.mp horder
  obtain ⟨hinside, -, hbehind⟩ := Token.inOrder_append.mp horder
  refine ⟨?_, ?_, ?_⟩
  · intro t ht
    exact hstart ▸ hbetween t ht _ List.mem_cons_self
  · intro t ht
    exact ⟨hstart ▸ hinside.start_le t ht, hstop ▸ hinside.le_stop hlast t ht⟩
  · intro t ht
    exact hstop ▸ hbehind _ (List.mem_of_getLast? hlast) t ht

namespace Listing

theorem outside_eq_self {ss : List Statement} {comments : List (Located String)}
    (h : ∀ c ∈ comments, ∀ s ∈ ss, ¬ s.Encloses c.span) : outside ss comments = comments :=
  List.filter_eq_self.mpr fun c hc => decide_eq_true (h c hc)

theorem outside_append (ss : List Statement) (comments comments' : List (Located String)) :
    outside ss (comments ++ comments') = outside ss comments ++ outside ss comments' :=
  List.filter_append ..

theorem outside_of_encloses {s : Statement} {comments : List (Located String)}
    (h : ∀ c ∈ comments, s.Encloses c.span) (ss : List Statement) :
    outside (s :: ss) comments = [] :=
  List.filter_eq_nil_iff.mpr fun c hc hout =>
    of_decide_eq_true hout s List.mem_cons_self (h c hc)

theorem outside_of_behind {s : Statement} {comments : List (Located String)}
    (h : ∀ c ∈ comments, s.span.stop < c.span.stop) (ss : List Statement) :
    outside (s :: ss) comments = outside ss comments := by
  refine List.filter_congr fun c hc => decide_eq_decide.mpr ?_
  refine List.forall_mem_cons.trans (and_iff_right fun hencloses => ?_)
  exact Nat.not_le_of_lt (h c hc) hencloses.2

/-- **The layouts have the comments outside of the statements**, in order. -/
theorem WrittenAs.layoutComments {n : Nat} {ss : List Statement} {words : List Lexeme}
    (h : WrittenAs n ss words) {layout trailing : String} {tokens : List (Located Token)}
    (htokens : Lexeme.gather layout tokens = (words, trailing))
    (hlayout : Layout.Regular layout) (hform : ∀ t ∈ tokens, t.value.WellFormed)
    (horder : Token.InOrder tokens) :
    layoutComments ss trailing = Token.commentTexts layout.toList ++
      (outside ss (tokens.filterMap Token.comment?)).map Located.value := by
  induction h generalizing layout tokens with
  | nil =>
    rw [outside_eq_self (by simp), ← Lexeme.commentTexts_gather htokens hlayout hform]
    rfl
  | @cons address s ss used rest _ hs hss ih =>
    obtain ⟨before, inside, behind, rfl, hbefore, hinside, hbehind⟩ := hs.exists_tokens htokens
    obtain ⟨hends, hencloses, hbegins⟩ := hinside.places horder
    have hlt := horder.start_lt_stop
    obtain ⟨-, horder, hbetween⟩ := Token.inOrder_append.mp horder
    obtain ⟨-, horder, -⟩ := Token.inOrder_append.mp horder
    obtain ⟨hformBefore, hform⟩ := List.forall_mem_append.mp hform
    -- the comments before the statement stand before the others as well
    have hkept : outside (s :: ss) (before.filterMap Token.comment?) =
        before.filterMap Token.comment? := by
      refine outside_eq_self (Token.forall_comments
        (fun place => ∀ u ∈ s :: ss, ¬ u.Encloses place) fun t ht u hu hencloses => ?_)
      have hend : t.span.stop ≤ u.span.start := by
        rcases List.mem_cons.mp hu with rfl | hu
        · exact hends t ht
        · obtain ⟨x, hx, _, -, hspan⟩ := hss.exists_ends u hu
          have hstart : x.word.span.start = u.span.start := by rw [hspan]
          have hmem := Lexeme.token_mem_of_gather hbehind x hx
          exact hstart ▸ hbetween t ht _ (List.mem_append_right inside hmem)
      have hstart := hlt t (List.mem_append_left _ ht)
      exact Nat.not_le_of_lt (Nat.lt_of_lt_of_le hstart hend) hencloses.1
    have hlost : outside (s :: ss) (inside.filterMap Token.comment?) = [] :=
      outside_of_encloses (Token.forall_comments s.Encloses hencloses) ss
    have hothers : outside (s :: ss) (behind.filterMap Token.comment?) =
        outside ss (behind.filterMap Token.comment?) :=
      outside_of_behind (Token.forall_comments (s.span.stop < ·.stop) fun t ht =>
        Nat.lt_of_le_of_lt (hbegins t ht) (hlt t (by simp [ht]))) ss
    have hrest := ih hbehind .nil (fun t ht => hform t (List.mem_append_right _ ht)) horder
    rw [String.toList_empty, Token.commentTexts_nil, List.nil_append] at hrest
    rw [layoutComments_cons, hrest, Lexeme.commentTexts_gather hbefore hlayout hformBefore,
      List.filterMap_append, List.filterMap_append, outside_append, outside_append, hkept, hlost,
      hothers, List.nil_append, List.map_append, List.append_assoc]

/-- **What becomes of comments.** The listing of a program has the comments that stand outside of
the statements in the source, in order. It has others exactly if a label is glued to a word in such
a way that the two begin with slashes. If none is, all comments of the source are listed exactly if
none of them stands inside of a statement. -/
theorem commentTexts_format {source : String} {l : Listing} (h : parse source = .ok l) :
    ((outside l.statements (Token.comments 0 source.toList)).map Located.value).Sublist
      (Token.commentTexts l.format.toList) ∧
    (Token.commentTexts l.format.toList =
        (outside l.statements (Token.comments 0 source.toList)).map Located.value ↔
      l.statements.IsChain fun s t => ¬ s.OpensComment t) ∧
    ((l.statements.IsChain fun s t => ¬ s.OpensComment t) →
      (Token.commentTexts l.format.toList = Token.commentTexts source.toList ↔
        ∀ c ∈ Token.comments 0 source.toList, ∀ s ∈ l.statements, ¬ s.Encloses c.span)) := by
  have hl := wellFormed_of_parse h
  obtain ⟨hwritten, htrailing⟩ := writtenAs_of_parse h
  have hlayouts : layoutComments l.statements l.trailing =
      (outside l.statements (Token.comments 0 source.toList)).map Located.value := by
    have hread : Lexeme.gather "" (Token.scan 0 source.toList) =
        ((Lexeme.ofTokens (Token.ofSource source)).1, l.trailing) := by
      rw [htrailing]
      rfl
    have hcomments := hwritten.layoutComments hread .nil Token.wellFormed_of_mem_scan
      (Token.inOrder_scan 0 source.toList).1
    rwa [String.toList_empty, Token.commentTexts_nil, List.nil_append] at hcomments
  have hiff : Token.commentTexts l.format.toList = layoutComments l.statements l.trailing ↔
      l.statements.IsChain fun s t => ¬ s.OpensComment t := by
    obtain ⟨ss, trailing⟩ := l
    cases ss with
    | nil => exact iff_of_true (congrArg (Token.commentTexts ·.toList) (format_nil trailing)) .nil
    | cons s ss => exact commentTexts_text_iff hl.statements hl.trailing
  rw [hlayouts] at hiff
  refine ⟨hlayouts ▸ sublist_commentTexts_text hl.statements hl.trailing, hiff, fun hchain => ?_⟩
  -- a filter that leaves as many comments as there are leaves all of them
  rw [hiff.mpr hchain, Token.commentTexts]
  constructor
  · intro hall
    have hlength := congrArg List.length hall
    rw [List.length_map, List.length_map] at hlength
    intro c hc
    exact of_decide_eq_true (List.length_filter_eq_length_iff.mp hlength c hc)
  · intro hnone
    rw [outside_eq_self hnone]

/-- The comments before and behind the statements are listed, the one before an operand is not. -/
theorem commentTexts_format_of_operand :
    ∃ l, parse "// top\nLDA // in\nx y HLT // end" = .ok l ∧
      (l.statements.IsChain fun s t => ¬ s.OpensComment t) ∧
      (outside l.statements (Token.comments 0 "// top\nLDA // in\nx y HLT // end".toList)).map
        Located.value = ["// top", "// end"] ∧
      Token.commentTexts l.format.toList = ["// top", "// end"] ∧
      Token.commentTexts l.format.toList ≠
        Token.commentTexts "// top\nLDA // in\nx y HLT // end".toList := by
  let l : Listing := ⟨[⟨0, none, ⟨.lda, ⟨7, 10⟩⟩, some ⟨.reference "x", ⟨17, 18⟩⟩, "\n// top\n"⟩,
    ⟨1, some ⟨"y", ⟨19, 20⟩⟩, ⟨.hlt, ⟨21, 24⟩⟩, none, ""⟩], "\n// end"⟩
  have hparse : parse "// top\nLDA // in\nx y HLT // end" = .ok l := by decide +kernel
  have hchain : l.statements.IsChain fun s t => ¬ s.OpensComment t :=
    .cons_cons (by decide) (.singleton _)
  have houtside : (outside l.statements
      (Token.comments 0 "// top\nLDA // in\nx y HLT // end".toList)).map Located.value =
        ["// top", "// end"] := by
    decide +kernel
  obtain ⟨-, hlisted, hall⟩ := commentTexts_format hparse
  refine ⟨l, hparse, hchain, houtside, (hlisted.mpr hchain).trans houtside, fun heq => ?_⟩
  have hnone := (hall hchain).mp heq
  revert hnone
  decide +kernel

/-- A comment behind a label is lost. -/
theorem not_commentTexts_format : ∃ l, parse "a // note\nHLT" = .ok l ∧
    Token.commentTexts l.format.toList ≠ Token.commentTexts "a // note\nHLT".toList :=
  ⟨⟨[⟨0, some ⟨"a", ⟨0, 1⟩⟩, ⟨.hlt, ⟨10, 13⟩⟩, none, ""⟩], ""⟩,
    by decide +kernel, by decide +kernel⟩

end Listing

end LittleMan
