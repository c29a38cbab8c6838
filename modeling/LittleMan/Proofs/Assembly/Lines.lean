import LittleMan.Proofs.Assembly.TokenPlaces

/-!
# Tokens line by line

A second account of the tokens of a text, which has no scanner in it: the text is split into lines,
and the tokens of a line are the runs of word characters on it, up to the first run that begins with
two slashes; from there on all of the line is one comment (`Token.lineTokens`). Between the tokens
of two lines stands one line break (`Token.byLines`).

Both accounts agree on every text (`Token.value_scan`). The induction is on what stands at the head
of the text (`Token.text_induction`): a line break ends a line, anything else changes the first line
only (`Token.byLines_append`).
-/

namespace LittleMan.Token

/-! ### The tokens of a line -/

/-- What is left of a line from each place on where a run of word characters begins; `inRun` says
whether there is a word character right before the line. -/
def runs (inRun : Bool) : List Char → List (List Char)
  | [] => []
  | c :: cs =>
    if isWordChar c && !inRun then (c :: cs) :: runs true cs else runs (isWordChar c) cs

/-- The tokens of a line. -/
def lineTokens (line : List Char) : List Token :=
  ((runs false line).takeWhile (!List.isPrefixOf ['/', '/'] ·)).map
      (fun run => word (String.ofList (run.takeWhile isWordChar))) ++
    ((runs false line).find? (['/', '/'].isPrefixOf ·)).toList.map
      (fun run => comment (String.ofList run))

/-- The tokens of a text, line by line. -/
def byLines (cs : List Char) : List Token :=
  [newline].intercalate ((cs.splitOn '\n').map lineTokens)

theorem runs_blank {c : Char} (hc : isWordChar c = false) (inRun : Bool) (cs : List Char) :
    runs inRun (c :: cs) = runs false cs := by
  simp [runs, hc]

theorem runs_true_of_endsWord {cs : List Char} (h : EndsWord cs) : runs true cs = runs false cs := by
  cases cs with
  | nil => rfl
  | cons c cs => rw [runs_blank (h c rfl), runs_blank (h c rfl)]

theorem runs_true_append {w : List Char} (hw : ∀ c ∈ w, isWordChar c = true) (cs : List Char) :
    runs true (w ++ cs) = runs true cs := by
  induction w with
  | nil => rfl
  | cons c w ih =>
    obtain ⟨hc, hw⟩ := List.forall_mem_cons.mp hw
    simpa [runs, hc] using ih hw

theorem runs_append {w cs : List Char} (hne : w ≠ []) (hw : ∀ c ∈ w, isWordChar c = true)
    (hcs : EndsWord cs) : runs false (w ++ cs) = (w ++ cs) :: runs false cs := by
  obtain ⟨c, w, rfl⟩ := List.exists_cons_of_ne_nil hne
  obtain ⟨hc, hw⟩ := List.forall_mem_cons.mp hw
  rw [← runs_true_of_endsWord hcs, ← runs_true_append hw cs]
  simp [runs, hc]

theorem lineTokens_blank {c : Char} (hc : isWordChar c = false) (line : List Char) :
    lineTokens (c :: line) = lineTokens line := by
  rw [lineTokens, lineTokens, runs_blank hc]

theorem lineTokens_word {w line : List Char} (hw : IsWord w) (hline : EndsWord line) :
    lineTokens (w ++ line) = word (String.ofList w) :: lineTokens line := by
  have hslashes : ['/', '/'].isPrefixOf (w ++ line) = false :=
    (isPrefixOf_append_of_endsWord hw.ne_nil hline).trans hw.noComment
  obtain ⟨htake, -⟩ := takeWhile_append_of_head hw.chars hline
  rw [lineTokens, runs_append hw.ne_nil hw.chars hline, List.takeWhile_cons_of_pos (by simp [hslashes]),
    List.find?_cons_of_neg (by simp [hslashes]), List.map_cons, htake]
  rfl

theorem lineTokens_comment {text : List Char} (h : IsComment text) :
    lineTokens text = [comment (String.ofList text)] := by
  obtain ⟨tail, rfl⟩ := List.isPrefixOf_iff_prefix.mp h.slashes
  have hruns : runs false (['/', '/'] ++ tail) = (['/', '/'] ++ tail) :: runs true tail := rfl
  rw [lineTokens, hruns, List.takeWhile_cons_of_neg (by simp),
    List.find?_cons_of_pos h.slashes]
  rfl

/-! ### Lines -/

theorem splitOn_newline (cs : List Char) : ('\n' :: cs).splitOn '\n' = [] :: cs.splitOn '\n' := by
  rw [List.splitOn, List.splitOnP_cons_eq_if_modifyHead, if_pos (by decide)]
  rfl

theorem splitOn_cons {c : Char} (hc : c ≠ '\n') (cs : List Char) :
    (c :: cs).splitOn '\n' = (cs.splitOn '\n').modifyHead (c :: ·) := by
  rw [List.splitOn, List.splitOnP_cons_eq_if_modifyHead, if_neg (by simpa using hc)]
  rfl

theorem exists_splitOn (cs : List Char) :
    ∃ lines, cs.splitOn '\n' = cs.takeWhile (· != '\n') :: lines := by
  induction cs with
  | nil => exact ⟨[], rfl⟩
  | cons c cs ih =>
    by_cases hc : c = '\n'
    · subst hc
      exact ⟨_, splitOn_newline cs⟩
    · obtain ⟨lines, hlines⟩ := ih
      refine ⟨lines, ?_⟩
      rw [splitOn_cons hc, hlines, List.takeWhile_cons_of_pos (by simpa using hc)]
      rfl

theorem splitOn_append {xs : List Char} (h : ∀ c ∈ xs, c ≠ '\n') (rest : List Char) :
    (xs ++ rest).splitOn '\n' = (rest.splitOn '\n').modifyHead (xs ++ ·) := by
  obtain ⟨lines, hlines⟩ := exists_splitOn rest
  rw [hlines]
  induction xs with
  | nil => exact hlines
  | cons c xs ih =>
    obtain ⟨hc, hxs⟩ := List.forall_mem_cons.mp h
    rw [List.cons_append, splitOn_cons hc, ih hxs]
    rfl

theorem byLines_newline (cs : List Char) : byLines ('\n' :: cs) = newline :: byLines cs := by
  obtain ⟨lines, hlines⟩ := exists_splitOn cs
  rw [byLines, byLines, splitOn_newline, hlines, List.map_cons, List.map_cons,
    List.intercalate_cons_cons]
  rfl

/-- Characters in front of a text change its first line only. -/
theorem byLines_append {xs rest : List Char} (hxs : ∀ c ∈ xs, c ≠ '\n') {tokens : List Token}
    (h : lineTokens (xs ++ rest.takeWhile (· != '\n')) =
      tokens ++ lineTokens (rest.takeWhile (· != '\n'))) :
    byLines (xs ++ rest) = tokens ++ byLines rest := by
  obtain ⟨lines, hlines⟩ := exists_splitOn rest
  rw [byLines, byLines, splitOn_append hxs, hlines]
  simp only [List.modifyHead_cons, List.map_cons, h]
  cases lines.map lineTokens with
  | nil => simp
  | cons line lines => simp only [List.intercalate_cons_cons, List.append_assoc]

/-- **Both accounts of the tokens of a text agree.** -/
theorem value_scan (offset : Nat) (cs : List Char) :
    (scan offset cs).map Located.value = byLines cs := by
  induction cs using text_induction generalizing offset with
  | nil =>
    rw [scan_nil]
    rfl
  | newline cs ih =>
    rw [scan_newline, byLines_newline, List.map_cons, ih]
  | blank c cs hc hn ih =>
    have hline : lineTokens ([c] ++ cs.takeWhile (· != '\n')) =
        [] ++ lineTokens (cs.takeWhile (· != '\n')) := lineTokens_blank hc _
    rw [scan_blank hc hn, ih]
    exact (byLines_append (by simpa using hn) hline).symm
  | word w rest hw hr ih =>
    have hends : EndsWord (rest.takeWhile (· != '\n')) := by
      intro c hc
      rw [List.head?_takeWhile] at hc
      exact hr c (Option.mem_filter_iff.mp hc).1
    have hline : lineTokens (w ++ rest.takeWhile (· != '\n')) =
        [word (String.ofList w)] ++ lineTokens (rest.takeWhile (· != '\n')) :=
      lineTokens_word hw hends
    rw [scan_word hw hr, List.map_cons, ih,
      byLines_append (fun c hc => ne_newline_of_isWordChar (hw.chars c hc)) hline]
    rfl
  | comment text rest htext hr ih =>
    have hrest : rest.takeWhile (· != '\n') = [] := by
      cases rest with
      | nil => rfl
      | cons c rest => rw [List.takeWhile_cons_of_neg (by simp [hr c rfl])]
    have hline : lineTokens (text ++ rest.takeWhile (· != '\n')) =
        [comment (String.ofList text)] ++ lineTokens (rest.takeWhile (· != '\n')) := by
      rw [hrest, List.append_nil, lineTokens_comment htext]
      rfl
    rw [scan_comment htext hr, List.map_cons, ih, byLines_append htext.line hline]
    rfl

/-! ### All about tokens -/

/-- **The tokens of a source.** They are what a scanner reads that takes the longest match, which
meets no error; they are the words and comments of its lines, with a line break between two lines;
each of them is the part of the source that its span names; they stand one behind the other; and
what stands outside of all of them are the blanks that no comment has. -/
theorem ofSource_by_lines (source : String) :
    (∀ tokens, Reads 0 source.toList tokens ↔
      tokens = (ofSource source).map fun t => ⟨some t.value, t.span⟩) ∧
    (ofSource source).map Located.value = byLines source.toList ∧
    (∀ t ∈ ofSource source, t.span.text? source = some t.value.text) ∧
    InOrder (ofSource source) ∧
    ∀ before c after, source.toList = before ++ c :: after →
      ((∀ t ∈ ofSource source, (Source.place 0 before c).Apart t.span) ↔
        IsBlank c ∧ ∀ text span, ⟨comment text, span⟩ ∈ ofSource source →
          ¬ (Source.place 0 before c).Within span) :=
  ⟨fun _ => reads_iff, value_scan 0 source.toList, fun _ => text?_of_mem_ofSource,
    (inOrder_scan 0 source.toList).1, fun _ _ _ => apart_iff⟩

/-- Slashes within a word are no comment, the blank before a comment is outside of it and the one at
its end is not. -/
theorem ofSource_by_lines_of_comment :
    (ofSource "a//b //c \n\tx").map Located.value =
      [word "a//b", comment "//c ", newline, word "x"] ∧
    (∀ t ∈ ofSource "a//b //c \n\tx", (Source.place 0 "a//b".toList ' ').Apart t.span) ∧
    ¬ ∀ t ∈ ofSource "a//b //c \n\tx", (Source.place 0 "a//b //c".toList ' ').Apart t.span := by
  obtain ⟨-, hlines, -, -, hapart⟩ := ofSource_by_lines "a//b //c \n\tx"
  have hbefore := hapart "a//b".toList ' ' "//c \n\tx".toList (by decide)
  have hwithin := hapart "a//b //c".toList ' ' "\n\tx".toList (by decide)
  have htokens : ofSource "a//b //c \n\tx" = [⟨word "a//b", ⟨0, 4⟩⟩, ⟨comment "//c ", ⟨5, 9⟩⟩,
      ⟨newline, ⟨9, 10⟩⟩, ⟨word "x", ⟨11, 12⟩⟩] := by decide +kernel
  rw [htokens] at hbefore hwithin ⊢
  refine ⟨htokens ▸ hlines.trans (by decide), hbefore.mpr ⟨by decide, fun text span hmem => ?_⟩,
    fun hall => (hwithin.mp hall).2 "//c " ⟨5, 9⟩ (by decide) (by decide)⟩
  obtain ⟨rfl, rfl⟩ : text = "//c " ∧ span = ⟨5, 9⟩ := by simpa using hmem
  decide

end LittleMan.Token
