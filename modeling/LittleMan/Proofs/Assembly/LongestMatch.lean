import LittleMan.Proofs.Assembly.Lexing

/-!
# The longest match

What a scanner does that is given by patterns: of all the patterns that match what comes next, the
one with the longest match wins, and a comment goes before a word of the same length. Where no
pattern matches, a character is given up as an error. `Token.Reads` is this, said without any
function; `none` stands for an error.

The tokens of a text are what such a scanner reads, and it never reads an error
(`Token.reads_iff`). The first character of a match tells the patterns apart, but for comments and
words (`Pattern.Matches.kind`), and there is a pattern for every character (`Token.exists_wins`).
-/

namespace LittleMan.Token

/-! ### Patterns -/

/-- The kinds of characters that matches begin with. -/
inductive CharKind where
  /-- A character up to the space that does not end the line. -/
  | blank
  /-- The end of a line. -/
  | newline
  /-- A character above the space. -/
  | letter
  deriving DecidableEq, Repr

/-- The kind of a character. -/
def CharKind.of (c : Char) : CharKind :=
  if c = '\n' then newline else if ' ' < c then letter else blank

/-- Whether the character is passed over. -/
def IsBlank (c : Char) : Prop := c ≤ ' ' ∧ c ≠ '\n'

instance (c : Char) : Decidable (IsBlank c) := inferInstanceAs (Decidable (_ ∧ _))

/-- What a scanner looks for. -/
inductive Pattern where
  /-- Blanks, which are passed over. -/
  | blanks
  /-- The end of a line. -/
  | newline
  /-- Two slashes and anything behind them, but no end of a line. -/
  | comment
  /-- Characters above the space. -/
  | word
  deriving DecidableEq, Repr

namespace Pattern

/-- Whether the whole text is of the pattern. -/
def Matches : Pattern → List Char → Prop
  | blanks, cs => cs ≠ [] ∧ ∀ c ∈ cs, IsBlank c
  | newline, cs => cs = ['\n']
  | comment, cs => ['/', '/'] <+: cs ∧ ∀ c ∈ cs, c ≠ '\n'
  | word, cs => cs ≠ [] ∧ ∀ c ∈ cs, ' ' < c

/-- The token that a text of the pattern is; blanks are none. -/
def token? : Pattern → List Char → Option Token
  | blanks, _ => none
  | newline, _ => some .newline
  | comment, cs => some (.comment (String.ofList cs))
  | word, cs => some (.word (String.ofList cs))

/-- What matches of the pattern begin with. -/
def kind : Pattern → CharKind
  | blanks => .blank
  | newline => .newline
  | comment | word => .letter

end Pattern

/-- The pattern wins: no match of what comes next is longer, and none that is as long is preferred
to it. -/
structure Wins (p : Pattern) (read rest : List Char) : Prop where
  /-- The pattern matches. -/
  matched : p.Matches read
  /-- No match is longer. -/
  longest : ∀ q other rest', Pattern.Matches q other → other ++ rest' = read ++ rest →
    other.length ≤ read.length
  /-- The same text is of no other pattern, but that a comment may be a word. -/
  preferred : ∀ q, Pattern.Matches q read → q = p ∨ (p = .comment ∧ q = .word)

/-- The tokens are what a scanner reads off the characters, which stand in the source from byte
`offset` on; `none` is an error. -/
inductive Reads : Nat → List Char → List (Located (Option Token)) → Prop where
  /-- There is nothing left. -/
  | nil {offset : Nat} : Reads offset [] []
  /-- A pattern wins. -/
  | read {offset : Nat} {p : Pattern} {read rest : List Char}
      {tokens : List (Located (Option Token))} :
    Wins p read rest → Reads (offset + Source.byteSize read) rest tokens →
      Reads offset (read ++ rest) ((p.token? read).toList.map
        (⟨some ·, ⟨offset, offset + Source.byteSize read⟩⟩) ++ tokens)
  /-- No pattern matches. -/
  | error {offset : Nat} {c : Char} {cs : List Char} {tokens : List (Located (Option Token))} :
    (∀ p read rest, Pattern.Matches p read → read ++ rest ≠ c :: cs) →
      Reads (offset + c.utf8Size) cs tokens →
      Reads offset (c :: cs) (⟨none, ⟨offset, offset + c.utf8Size⟩⟩ :: tokens)

/-! ### What wins -/

theorem isWordChar_iff {c : Char} : isWordChar c = true ↔ ' ' < c := decide_eq_true_iff

theorem isWordChar_eq_false_iff {c : Char} : isWordChar c = false ↔ c ≤ ' ' :=
  decide_eq_false_iff_not.trans Char.not_lt

theorem Pattern.Matches.exists_head {p : Pattern} {cs : List Char} (h : p.Matches cs) :
    ∃ c tail, cs = c :: tail ∧ CharKind.of c = p.kind := by
  cases p with
  | blanks =>
    obtain ⟨c, tail, rfl⟩ := List.exists_cons_of_ne_nil h.1
    obtain ⟨hle, hne⟩ := h.2 c List.mem_cons_self
    exact ⟨c, tail, rfl, by rw [CharKind.of, if_neg hne, if_neg (Char.not_lt.mpr hle)]; rfl⟩
  | newline => exact ⟨'\n', [], h, rfl⟩
  | comment =>
    obtain ⟨tail, rfl⟩ := h.1
    exact ⟨'/', '/' :: tail, rfl, rfl⟩
  | word =>
    obtain ⟨c, tail, rfl⟩ := List.exists_cons_of_ne_nil h.1
    have hlt := h.2 c List.mem_cons_self
    have hne := ne_newline_of_isWordChar (isWordChar_iff.mpr hlt)
    exact ⟨c, tail, rfl, by rw [CharKind.of, if_neg hne, if_pos hlt]; rfl⟩

theorem Pattern.Matches.kind_eq {p q : Pattern} {read rest other rest' : List Char}
    (hp : p.Matches read) (hq : q.Matches other) (h : other ++ rest' = read ++ rest) :
    q.kind = p.kind := by
  obtain ⟨c, tail, rfl, hc⟩ := hp.exists_head
  obtain ⟨d, tail', rfl, hd⟩ := hq.exists_head
  rw [← hc, ← hd, (List.cons.inj h).1]

/-- A text whose characters are all such as what follows `read` does not begin with is no longer than
`read`. -/
theorem length_le_of_append_eq {such : Char → Prop} {other rest' read rest : List Char}
    (hother : ∀ c ∈ other, such c) (hrest : ∀ c ∈ rest.head?, ¬ such c)
    (h : other ++ rest' = read ++ rest) : other.length ≤ read.length := by
  rcases List.append_eq_append_iff.mp h with ⟨more, rfl, -⟩ | ⟨more, rfl, rfl⟩
  · simp
  · cases more with
    | nil => simp
    | cons c more => exact absurd (hother c (by simp)) (hrest c rfl)

/-- It is enough to look at the patterns that match what comes next. -/
theorem Wins.intro {p : Pattern} {read rest : List Char} (hmatched : p.Matches read)
    (h : ∀ q other rest', Pattern.Matches q other → other ++ rest' = read ++ rest →
      other.length ≤ read.length ∧ (q = p ∨ (p = .comment ∧ q = .word))) : Wins p read rest where
  matched := hmatched
  longest q other rest' hq heq := (h q other rest' hq heq).1
  preferred q hq := (h q read rest hq rfl).2

theorem wins_blanks {read rest : List Char} (hread : Pattern.blanks.Matches read)
    (hrest : ∀ c ∈ rest.head?, ¬ IsBlank c) : Wins .blanks read rest := by
  refine .intro hread fun q other rest' hq heq => ?_
  have hkind := hread.kind_eq hq heq
  cases q with
  | blanks => exact ⟨length_le_of_append_eq hq.2 hrest heq, .inl rfl⟩
  | newline => cases hkind
  | comment => cases hkind
  | word => cases hkind

theorem wins_newline (rest : List Char) : Wins .newline ['\n'] rest := by
  have hmatched : Pattern.newline.Matches ['\n'] := rfl
  refine .intro hmatched fun q other rest' hq heq => ?_
  have hkind := hmatched.kind_eq hq heq
  cases q with
  | newline => exact ⟨by rw [show other = ['\n'] from hq], .inl rfl⟩
  | blanks => cases hkind
  | comment => cases hkind
  | word => cases hkind

theorem wins_comment {read rest : List Char} (hread : IsComment read) (hrest : EndsComment rest) :
    Wins .comment read rest := by
  have hmatched : Pattern.comment.Matches read :=
    ⟨List.isPrefixOf_iff_prefix.mp hread.slashes, hread.line⟩
  refine .intro hmatched fun q other rest' hq heq => ?_
  have hends : ∀ c ∈ rest.head?, ¬ c ≠ '\n' := fun c hc hne => hne (hrest c hc)
  have hkind := hmatched.kind_eq hq heq
  cases q with
  | comment => exact ⟨length_le_of_append_eq hq.2 hends heq, .inl rfl⟩
  | word =>
    have hother : ∀ c ∈ other, c ≠ '\n' := fun c hc =>
      ne_newline_of_isWordChar (isWordChar_iff.mpr (hq.2 c hc))
    exact ⟨length_le_of_append_eq hother hends heq, .inr ⟨rfl, rfl⟩⟩
  | blanks => cases hkind
  | newline => cases hkind

theorem wins_word {read rest : List Char} (hread : IsWord read) (hrest : EndsWord rest) :
    Wins .word read rest := by
  have hmatched : Pattern.word.Matches read :=
    ⟨hread.ne_nil, fun c hc => isWordChar_iff.mp (hread.chars c hc)⟩
  refine .intro hmatched fun q other rest' hq heq => ?_
  have hkind := hmatched.kind_eq hq heq
  cases q with
  | word =>
    have hends : ∀ c ∈ rest.head?, ¬ ' ' < c := fun c hc hlt =>
      Bool.false_ne_true ((hrest c hc).symm.trans (isWordChar_iff.mpr hlt))
    exact ⟨length_le_of_append_eq hq.2 hends heq, .inl rfl⟩
  | comment =>
    -- a comment would begin with the slashes that the word does not begin with
    have hslashes := isPrefixOf_append_of_endsWord hread.ne_nil hrest
    obtain ⟨tail, rfl⟩ := hq.1
    rw [← heq, hread.noComment] at hslashes
    cases hslashes
  | blanks => cases hkind
  | newline => cases hkind

/-- **Some pattern wins** wherever there is something left. -/
theorem exists_wins (c : Char) (cs : List Char) :
    ∃ p read rest, c :: cs = read ++ rest ∧ read ≠ [] ∧ Wins p read rest := by
  by_cases hn : c = '\n'
  · subst hn
    exact ⟨.newline, ['\n'], cs, rfl, by simp, wins_newline cs⟩
  by_cases hc : isWordChar c = true
  · cases hslashes : ['/', '/'].isPrefixOf (c :: cs) with
    | true =>
      refine ⟨.comment, _, _, (List.takeWhile_append_dropWhile (p := (· != '\n'))).symm,
        by simp [hn], wins_comment (isComment_line hslashes) (endsComment_dropLine _)⟩
    | false =>
      refine ⟨.word, _, _, (List.takeWhile_append_dropWhile (p := isWordChar)).symm,
        by simp [hc], wins_word (isWord_takeWhile hc hslashes) head?_dropWhile⟩
  · let blank (d : Char) : Bool := decide (IsBlank d)
    have hblank : blank c = true :=
      decide_eq_true ⟨isWordChar_eq_false_iff.mp (Bool.not_eq_true _ ▸ hc), hn⟩
    refine ⟨.blanks, _, _, (List.takeWhile_append_dropWhile (p := blank)).symm,
      by simp [hblank], wins_blanks ⟨by simp [hblank], fun d hd => ?_⟩ fun d hd => ?_⟩
    · exact of_decide_eq_true (p := IsBlank d) (List.mem_takeWhile_imp (p := blank) hd)
    · exact of_decide_eq_false (head?_dropWhile (p := blank) d hd)

/-! ### What is read -/

theorem scan_blanks {read : List Char} (hread : ∀ c ∈ read, IsBlank c) (offset : Nat)
    (rest : List Char) : scan offset (read ++ rest) = scan (offset + Source.byteSize read) rest := by
  induction read generalizing offset with
  | nil => rfl
  | cons c read ih =>
    obtain ⟨⟨hle, hn⟩, hread⟩ := List.forall_mem_cons.mp hread
    rw [List.cons_append, scan_blank (isWordChar_eq_false_iff.mpr hle) hn, ih hread,
      Source.byteSize_cons, Nat.add_assoc]

/-- **What wins is read.** -/
theorem Wins.scan {p : Pattern} {read rest : List Char} (h : Wins p read rest) (offset : Nat) :
    scan offset (read ++ rest) = (p.token? read).toList.map
      (⟨·, ⟨offset, offset + Source.byteSize read⟩⟩) ++
        Token.scan (offset + Source.byteSize read) rest := by
  -- with one more character the match would be longer
  have hmore (c : Char) (tail : List Char) (hrest : rest = c :: tail) :
      ¬ p.Matches (read ++ [c]) := by
    intro hmatch
    have hle := h.longest p (read ++ [c]) tail hmatch (by simp [hrest])
    rw [List.length_append] at hle
    exact Nat.not_succ_le_self _ hle
  cases p with
  | blanks => exact scan_blanks h.matched.2 offset rest
  | newline =>
    rw [show read = ['\n'] from h.matched]
    exact scan_newline offset rest
  | comment =>
    have hread : IsComment read := ⟨List.isPrefixOf_iff_prefix.mpr h.matched.1, h.matched.2⟩
    refine scan_comment hread (fun c hc => ?_) offset
    obtain ⟨tail, hrest⟩ := List.head?_eq_some_iff.mp hc
    by_contra hne
    refine hmore c tail hrest ⟨h.matched.1.trans (List.prefix_append ..), ?_⟩
    simpa [or_imp, forall_and] using ⟨h.matched.2, hne⟩
  | word =>
    have hchars : ∀ c ∈ read, isWordChar c = true := fun c hc =>
      isWordChar_iff.mpr (h.matched.2 c hc)
    have hnone : ['/', '/'].isPrefixOf read = false := by
      by_contra hslashes
      rw [Bool.not_eq_false, List.isPrefixOf_iff_prefix] at hslashes
      have hmatch : Pattern.comment.Matches read :=
        ⟨hslashes, fun c hc => ne_newline_of_isWordChar (hchars c hc)⟩
      rcases h.preferred .comment hmatch with heq | ⟨heq, -⟩ <;> cases heq
    refine scan_word ⟨h.matched.1, hchars, hnone⟩ (fun c hc => ?_) offset
    obtain ⟨tail, hrest⟩ := List.head?_eq_some_iff.mp hc
    by_contra hword
    rw [Bool.not_eq_false, isWordChar_iff] at hword
    refine hmore c tail hrest ⟨by simp, ?_⟩
    simpa [or_imp, forall_and] using ⟨h.matched.2, hword⟩

/-- What is read are the tokens. -/
theorem Reads.eq_scan {offset : Nat} {cs : List Char} {tokens : List (Located (Option Token))}
    (h : Reads offset cs tokens) :
    tokens = (Token.scan offset cs).map fun t => ⟨some t.value, t.span⟩ := by
  induction h with
  | nil => simp
  | @read offset p read rest tokens hwins _ ih =>
    rw [hwins.scan, List.map_append, List.map_map, ← ih]
    rfl
  | @error offset c cs tokens hnone _ _ =>
    obtain ⟨p, read, rest, hread, -, hwins⟩ := exists_wins c cs
    exact absurd hread.symm (hnone p read rest hwins.matched)

theorem exists_reads (offset : Nat) (cs : List Char) : ∃ tokens, Reads offset cs tokens := by
  match cs with
  | [] => exact ⟨[], .nil⟩
  | c :: cs =>
    obtain ⟨p, read, rest, hread, hne, hwins⟩ := exists_wins c cs
    have hshorter : rest.length < (c :: cs).length := by
      rw [hread, List.length_append]
      exact Nat.lt_add_of_pos_left (List.length_pos_iff.mpr hne)
    obtain ⟨tokens, htokens⟩ := exists_reads (offset + Source.byteSize read) rest
    exact hread ▸ ⟨_, .read hwins htokens⟩
termination_by cs.length
decreasing_by exact hshorter

/-- **The tokens of a text are what is read off it**, and no error is. -/
theorem reads_iff {offset : Nat} {cs : List Char} {tokens : List (Located (Option Token))} :
    Reads offset cs tokens ↔ tokens = (scan offset cs).map fun t => ⟨some t.value, t.span⟩ := by
  refine ⟨Reads.eq_scan, ?_⟩
  rintro rfl
  obtain ⟨tokens, htokens⟩ := exists_reads offset cs
  exact htokens.eq_scan ▸ htokens

end LittleMan.Token
