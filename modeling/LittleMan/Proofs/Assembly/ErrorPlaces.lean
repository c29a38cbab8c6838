import LittleMan.Proofs.Assembly.StatementTexts
import LittleMan.Proofs.Assembly.WordPlaces

/-!
# Where errors stand

The span of an error is that of the words that the error is about (`AssemblyError.PointsInto`): the
number that is too large, the label that is not defined or defined again, the word that is no
mnemonic, or all from the first of two such words to the end of the second. Only if an operand is
missing at the end of the source there is no span.

Every such place lies between characters, so that every error of a source can be reported, with its
line and column and with the text that begins there (`Program.report?_of_assemble`).
-/

namespace LittleMan

/-! ### Errors and their words -/

namespace AssemblyError

/-- The span of the error is that of the words in the source that the error is about. -/
inductive PointsInto (source : String) : AssemblyError → Prop where
  /-- It is the last word of the source, which is no mnemonic. -/
  | lastWord {word : String} {suggestion : Option Opcode} {span : Span} :
    Token.IsWord word.toList → span.text? source = some word →
      PointsInto source ⟨.unknownMnemonic word suggestion, some span⟩
  /-- They are two words that are no mnemonics, with what stands between them. -/
  | twoWords {first second between : String} {suggestion : Option Opcode} {span : Span} :
    Token.IsWord first.toList → Token.IsWord second.toList →
      span.text? source = some (first ++ between ++ second) →
      PointsInto source ⟨.unknownMnemonic (first ++ " " ++ second) suggestion, some span⟩
  /-- It is a number. -/
  | number {word : String} {span : Span} : Numeral.read word ≠ .notANumeral →
    span.text? source = some word → PointsInto source ⟨.numberTooLarge word, some span⟩
  /-- It is a label behind a mnemonic. -/
  | reference {label : String} {span : Span} : span.text? source = some label →
    PointsInto source ⟨.undefinedLabel label, some span⟩
  /-- It is a label, which stands further in front as well. -/
  | label {label : String} {span previous : Span} : span.text? source = some label →
    previous.text? source = some label → previous.stop < span.start →
      PointsInto source ⟨.duplicateLabel label previous, some span⟩
  /-- There are none because the source ends where an operand has to stand. -/
  | ending {opcode : Opcode} : PointsInto source ⟨.missingOperand opcode, none⟩

end AssemblyError

/-- **Words that begin no clause** are what the error is about. -/
theorem Stuck.pointsInto {source : String} {rest : List (Located String)} {e : AssemblyError}
    (h : Stuck rest e) (hrest : rest.Sublist (Token.words 0 source.toList)) :
    e.PointsInto source := by
  have htext (w : Located String) (hw : w ∈ rest) := Token.text?_of_mem_words (hrest.mem hw)
  have hpairwise := (Token.pairwise_words 0 source.toList).1.sublist hrest
  cases h with
  | @lastWord word _ =>
    obtain ⟨hword, hform⟩ := htext word List.mem_cons_self
    exact .lastWord hform hword
  | @twoWords first second rest _ _ =>
    obtain ⟨hfirst, hformFirst⟩ := htext first List.mem_cons_self
    obtain ⟨hsecond, hformSecond⟩ := htext second (List.mem_cons_of_mem _ List.mem_cons_self)
    have horder := (List.pairwise_cons.mp hpairwise).1 second List.mem_cons_self
    obtain ⟨between, hbetween⟩ := Span.exists_text?_between hfirst hsecond horder
    exact .twoWords hformFirst hformSecond hbetween
  | @tooLarge label mnemonic word op rest _ _ _ hread =>
    have hmem : word ∈ label.toList ++ mnemonic :: word :: rest :=
      List.mem_append_right _ (List.mem_cons_of_mem _ List.mem_cons_self)
    refine .number ?_ (htext word hmem).1
    rw [hread]
    exact Numeral.noConfusion
  | missing _ _ _ _ => exact .ending

namespace Listing

variable {source : String} {l : Listing} {policy : LabelPolicy} {e : AssemblyError}

theorem pointsInto_of_overflow? (hl : parse source = .ok l) {s : Statement}
    (hs : s ∈ l.statements) (h : s.overflow? = some e) : e.PointsInto source := by
  unfold Statement.overflow? at h
  split at h
  · next value text span hoperand =>
    split at h
    · cases h
    · obtain rfl := Option.some.inj h
      have hadmits := (writtenAs_of_parse hl).1.admits s hs
      rw [hoperand] at hadmits
      refine .number ?_ (text?_of_operand hl hs hoperand)
      rw [hadmits.2]
      exact Numeral.noConfusion
  · cases h

theorem pointsInto_of_duplicate? (hl : parse source = .ok l) {front behind : List Statement}
    {s : Statement} (hss : l.statements = front ++ s :: behind)
    (h : s.duplicate? policy front = some e) : e.PointsInto source := by
  obtain ⟨-, label, d, hlabel, hd, rfl⟩ := Statement.duplicate?_eq_some_iff.mp h
  obtain ⟨before, t, after, previous, hfront, hlabel', -, rfl⟩ := definition?_eq_some_iff.mp hd
  have htfront : t ∈ front := hfront ▸ List.mem_append_cons_self
  have hsmem : s ∈ l.statements := hss ▸ List.mem_append_cons_self
  have htmem : t ∈ l.statements := hss ▸ List.mem_append_left _ htfront
  obtain ⟨htext, hstart, -⟩ := text?_of_label hl hsmem hlabel
  obtain ⟨htext', -, hstop⟩ := text?_of_label hl htmem hlabel'
  -- the statement of the earlier label ends before the one of the later label begins
  have horder := ((writtenAs_of_parse hl).1.pairwise_span rfl
    (Token.inOrder_scan 0 source.toList).1).1
  rw [hss] at horder
  have hbetween := (List.pairwise_append.mp horder).2.2 t htfront s List.mem_cons_self
  have hlt : previous.stop < label.span.start := by
    dsimp only at hstop
    omega
  exact .label htext htext' hlt

theorem pointsInto_of_undefined? (hl : parse source = .ok l) {s : Statement}
    (hs : s ∈ l.statements) (h : s.undefined? l.statements = some e) : e.PointsInto source := by
  unfold Statement.undefined? at h
  split at h
  · next label hlabel =>
    split at h
    · cases h
    · obtain rfl := Option.some.inj h
      exact .reference (text?_of_reference hl hs hlabel)
  · cases h

/-- **A fault of a listing** is about words of its source. -/
theorem pointsInto_of_fault? (hl : parse source = .ok l) (h : l.fault? policy = some e) :
    e.PointsInto source := by
  rcases Option.or_eq_some_iff.mp h with hfirst | ⟨-, hundefined⟩
  · obtain ⟨front, s, behind, hss, -, hfault⟩ := firstFault?_eq_some_iff.mp hfirst
    have hs : s ∈ l.statements := hss ▸ List.mem_append_cons_self
    rcases Option.or_eq_some_iff.mp hfault with hoverflow | ⟨-, hduplicate⟩
    · exact pointsInto_of_overflow? hl hs hoverflow
    · exact pointsInto_of_duplicate? hl hss hduplicate
  · obtain ⟨s, hs, hundefined⟩ := List.exists_of_findSome?_eq_some hundefined
    exact pointsInto_of_undefined? hl hs hundefined

end Listing

/-- **Every error is about words of the source**, and points to them. -/
theorem Program.pointsInto_of_assemble {source : String} {policy : LabelPolicy} {e : AssemblyError}
    (h : assemble source policy = .error e) : e.PointsInto source := by
  cases hl : Listing.parse source with
  | error e' =>
    rw [assemble_of_parse_error hl] at h
    obtain rfl : e' = e := Except.error.inj h
    obtain ⟨cs, rest, hrow, hstuck⟩ := Listing.parse_eq_error_iff.mp hl
    refine hstuck.pointsInto ?_
    rw [hrow.words]
    exact List.sublist_append_right _ _
  | ok l =>
    rw [assemble_of_parse hl] at h
    exact Listing.pointsInto_of_fault? hl
      ((Listing.assemble_eq_error_iff (Listing.address_of_parse hl)).mp h)

/-! ### Reports -/

/-- What is shown of an error when `before` stands in front of it and `behind` begins with it. -/
structure AssemblyError.Report.StandsBetween (r : Report) (before behind : List Char) : Prop where
  /-- The line is one plus the number of line breaks in front. -/
  line : r.location.line = before.count '\n' + 1
  /-- The column is one plus the number of characters in front that are on the line. -/
  column : r.location.column = (before.reverse.takeWhile (· != '\n')).length + 1
  /-- The excerpt is what stands there, -/
  starts : r.excerpt.toList <+: behind
  /-- on one line -/
  sameLine : '\n' ∉ r.excerpt.toList
  /-- and of at most twenty characters, -/
  short : r.excerpt.toList.length ≤ 20
  /-- and it goes up to the end of the line unless it has twenty. -/
  full : ∀ c rest, behind = r.excerpt.toList ++ c :: rest →
    c = '\n' ∨ r.excerpt.toList.length = 20

namespace AssemblyError

theorem standsBetween_report (cause : Cause) (before behind : List Char) :
    Report.StandsBetween ⟨Location.after before, cause,
      String.ofList ((behind.takeWhile (· != '\n')).take excerptLength)⟩ before behind := by
  refine ⟨Location.line_after before, Location.column_after before, ?_, ?_, ?_, ?_⟩ <;>
    dsimp only <;> rw [String.toList_ofList]
  · exact (List.take_prefix _ _).trans ( List.takeWhile_prefix _)
  · intro hmem
    have hline := List.mem_takeWhile_imp (List.mem_of_mem_take hmem)
    exact absurd hline (by decide)
  · exact List.length_take_le _ _
  · intro c rest hbehind
    by_cases hshort : (behind.takeWhile (· != '\n')).length < excerptLength
    · left
      rw [List.take_of_length_le (Nat.le_of_lt hshort)] at hbehind
      have hlines : behind.takeWhile (· != '\n') ++ behind.dropWhile (· != '\n') =
          behind.takeWhile (· != '\n') ++ c :: rest := by
        rw [List.takeWhile_append_dropWhile]
        exact hbehind
      have hrest := List.append_cancel_left hlines
      have hends := Token.endsComment_dropLine behind
      rw [hrest] at hends
      exact hends c rfl
    · right
      rw [List.length_take, Nat.min_eq_left (Nat.le_of_not_lt hshort)]
      rfl

theorem PointsInto.exists_split {source : String} {e : AssemblyError} (h : e.PointsInto source) :
    ∃ before behind, source.toList = before ++ behind ∧ Source.byteSize before =
      (e.span.map Span.start).getD (Source.byteSize source.toList) := by
  have hsplit {span : Span} {text : String} (htext : span.text? source = some text) :
      ∃ before behind, source.toList = before ++ behind ∧ Source.byteSize before = span.start := by
    obtain ⟨before, after, hsource, hstart, -⟩ := Span.text?_eq_some_iff.mp htext
    exact ⟨before, text.toList ++ after, hsource, hstart⟩
  cases h with
  | lastWord _ htext => exact hsplit htext
  | twoWords _ _ htext => exact hsplit htext
  | number _ htext => exact hsplit htext
  | reference htext => exact hsplit htext
  | label htext _ _ => exact hsplit htext
  | ending => exact ⟨source.toList, [], (List.append_nil _).symm, rfl⟩

end AssemblyError

namespace Program

/-- **Errors point to the words that they are about, and can be shown.** Let a source be refused.
The span of the error is that of the number that is too large, of the label that is not defined, of
the label that is defined again behind the end of its first definition, or of all from the first to
the last word that is no mnemonic; there is none exactly if an operand is missing. The error can be
reported with the line and the column where the span begins, or where the source ends, and with
what stands there on the line, cut off after twenty characters. -/
theorem report?_of_assemble {source : String} {policy : LabelPolicy} {e : AssemblyError}
    (h : assemble source policy = .error e) :
    e.PointsInto source ∧ (e.span = none ↔ ∃ opcode, e.cause = .missingOperand opcode) ∧
      ∃ report before behind, e.report? source = some report ∧ report.cause = e.cause ∧
        source.toList = before ++ behind ∧ Source.byteSize before =
          (e.span.map Span.start).getD (Source.byteSize source.toList) ∧
        report.StandsBetween before behind := by
  have hpoints := pointsInto_of_assemble h
  obtain ⟨before, behind, hsource, hplace⟩ := hpoints.exists_split
  refine ⟨hpoints, ?_, ?_⟩
  · cases hpoints with
    | ending => simp
    | lastWord | twoWords | number | reference | label => simp
  · have hoffset := AssemblyError.offset_of_append hsource hplace
    exact ⟨_, before, behind, AssemblyError.report?_of_append hsource hoffset, rfl, hsource, hplace,
      AssemblyError.standsBetween_report e.cause before behind⟩

/-- A label of two bytes is defined on the first line and again on the third. The excerpt begins
there and is cut off in the comment. -/
theorem report?_of_assemble_of_redefined :
    let source := "ä DAT 1 // é\nBRA ä\n\tä HLT // naïve façade"
    let e : AssemblyError := ⟨.duplicateLabel "ä" ⟨0, 2⟩, some ⟨23, 25⟩⟩
    assemble source .unique = .error e ∧ e.PointsInto source ∧
      ∃ report before behind, e.report? source = some report ∧ report.location = ⟨3, 2⟩ ∧
        report.excerpt = "ä HLT // naïve façad" ∧ source.toList = before ++ behind ∧
        Source.byteSize before = 23 ∧ report.StandsBetween before behind := by
  intro source e
  have hassemble : assemble source .unique = .error e := by
    have hfails : (assemble source .unique).map (fun _ => ()) = .error e := by decide +kernel
    cases hp : assemble source .unique with
    | ok p =>
      rw [hp] at hfails
      cases hfails
    | error e' =>
      rw [hp] at hfails
      exact congrArg Except.error (Except.error.inj hfails)
  obtain ⟨hpoints, -, report, before, behind, hreport, -, hsource, hplace, hbetween⟩ :=
    report?_of_assemble hassemble
  have hshown : (e.report? source).map (fun r => (r.location, r.excerpt)) =
      some (⟨3, 2⟩, "ä HLT // naïve façad") := by
    decide +kernel
  rw [hreport] at hshown
  obtain ⟨hlocation, hexcerpt⟩ := Prod.mk.inj (Option.some.inj hshown)
  exact ⟨hassemble, hpoints, report, before, behind, hreport, hlocation, hexcerpt, hsource, hplace,
    hbetween⟩

end Program

end LittleMan
