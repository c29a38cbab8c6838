import LittleMan.Proofs.Assembly.StatementLines

/-!
# Texts of statements

The source index has for every mailbox the part of the source that its word was assembled from. That
part is the statement and nothing else: read as a source of its own it is this one statement, with
places that count from its start (`Statement.alone`, `Program.parse_statement?_sourceIndex`).

A statement runs over whatever stands between its words, over comments and line breaks too. It can
be cut out of the source all the same. The scanner does not look back, so a text may be cut in front
of any token (`Token.exists_cut_before`); and it looks no further than to the next character to see
that a word ends, so a text may be cut behind any word (`Token.exists_cut_behind`). The reader of
statements does see one word ahead, but only to leave it where it is, so that it can do without
(`Statement.WrittenAs.alone`).
-/

namespace LittleMan

/-! ### Cutting texts at tokens -/

namespace Token

/-- The text, which begins at byte `offset`, can be cut in front of the token `u`, so that `u` and
the tokens `us` are behind the cut. -/
def CutsBefore (offset : Nat) (cs : List Char) (u : Located Token) (us : List (Located Token)) :
    Prop :=
  ∃ front rest, cs = front ++ rest ∧ offset + Source.byteSize front = u.span.start ∧
    scan u.span.start rest = u :: us

variable {offset : Nat} {cs : List Char} {ts us : List (Located Token)} {u : Located Token}

theorem cutsBefore_head (h : scan offset cs = u :: us) (hstart : u.span.start = offset) :
    CutsBefore offset cs u us :=
  ⟨[], cs, rfl, hstart.symm, hstart ▸ h⟩

theorem CutsBefore.append (front : List Char)
    (h : CutsBefore (offset + Source.byteSize front) cs u us) :
    CutsBefore offset (front ++ cs) u us := by
  obtain ⟨middle, rest, rfl, hstart, hscan⟩ := h
  refine ⟨front ++ middle, rest, (List.append_assoc ..).symm, ?_, hscan⟩
  rw [Source.byteSize_append, ← Nat.add_assoc, hstart]

theorem cutsBefore_append {front rest : List Char} {t : Located Token}
    (hscan : scan offset (front ++ rest) = t :: scan (offset + Source.byteSize front) rest)
    (hstart : t.span.start = offset)
    (hrest : ∀ {offset : Nat} {ts : List (Located Token)},
      scan offset rest = ts ++ u :: us → CutsBefore offset rest u us)
    (h : scan offset (front ++ rest) = ts ++ u :: us) : CutsBefore offset (front ++ rest) u us := by
  rw [hscan] at h
  rcases List.cons_eq_append_iff.mp h with ⟨-, hhead⟩ | ⟨ts, -, htail⟩
  · obtain ⟨rfl, rfl⟩ := List.cons.inj hhead
    exact cutsBefore_head hscan hstart
  · exact (hrest htail).append front

/-- **A text can be cut in front of any token.** -/
theorem exists_cut_before (h : scan offset cs = ts ++ u :: us) : CutsBefore offset cs u us := by
  induction cs using text_induction generalizing offset ts with
  | nil => simp at h
  | newline cs ih =>
    have hscan : scan offset (['\n'] ++ cs) = ⟨newline, ⟨offset, offset + 1⟩⟩ ::
        scan (offset + Source.byteSize ['\n']) cs := scan_newline offset cs
    exact cutsBefore_append hscan rfl ih h
  | blank c cs hc hn ih =>
    rw [scan_blank hc hn] at h
    exact (ih h).append [c]
  | word w rest hw hr ih => exact cutsBefore_append (scan_word hw hr offset) rfl ih h
  | comment note rest hnote hr ih => exact cutsBefore_append (scan_comment hnote hr offset) rfl ih h

/-- The text, which begins at byte `offset`, can be cut at byte `stop`, so that the tokens `ts` are
in front of the cut. -/
def CutsBehind (offset : Nat) (cs : List Char) (ts : List (Located Token)) (stop : Nat) : Prop :=
  ∃ part rest, cs = part ++ rest ∧ scan offset part = ts ∧ offset + Source.byteSize part = stop

theorem CutsBehind.cons {front rest : List Char} {t : Located Token} {stop : Nat}
    (hscan : ∀ part behind, rest = part ++ behind →
      scan offset (front ++ part) = t :: scan (offset + Source.byteSize front) part)
    (h : CutsBehind (offset + Source.byteSize front) rest ts stop) :
    CutsBehind offset (front ++ rest) (t :: ts) stop := by
  obtain ⟨part, behind, rfl, hpart, hstop⟩ := h
  refine ⟨front ++ part, behind, (List.append_assoc ..).symm, ?_, ?_⟩
  · rw [hscan part behind rfl, hpart]
  · rw [Source.byteSize_append, ← Nat.add_assoc, hstop]

/-- The first of the tokens is the last one of `ts` too, or there are others in `ts`. -/
theorem eq_singleton_or_cons {t u : Located Token} {tokens : List (Located Token)}
    (h : t :: tokens = ts ++ us) (hlast : ts.getLast? = some u) :
    (ts = [t] ∧ t = u) ∨ ∃ others, ts = t :: others ∧ tokens = others ++ us ∧
      others.getLast? = some u := by
  rcases List.cons_eq_append_iff.mp h with ⟨rfl, -⟩ | ⟨others, rfl, htokens⟩
  · cases hlast
  cases others with
  | nil => exact .inl ⟨rfl, Option.some.inj hlast⟩
  | cons v others =>
    rw [List.getLast?_cons_cons] at hlast
    exact .inr ⟨v :: others, rfl, htokens, hlast⟩

theorem EndsWord.of_append {part behind : List Char} (h : EndsWord (part ++ behind)) :
    EndsWord part :=
  fun c hc => h c (List.mem_head?_append_of_mem_head? hc)

theorem EndsComment.of_append {part behind : List Char} (h : EndsComment (part ++ behind)) :
    EndsComment part :=
  fun c hc => h c (List.mem_head?_append_of_mem_head? hc)

/-- **A text can be cut behind any word.** -/
theorem exists_cut_behind {text : String} {span : Span} (h : scan offset cs = ts ++ us)
    (hlast : ts.getLast? = some ⟨word text, span⟩) : CutsBehind offset cs ts span.stop := by
  induction cs using text_induction generalizing offset ts with
  | nil =>
    rw [scan_nil, eq_comm, List.append_eq_nil_iff] at h
    rw [h.1] at hlast
    cases hlast
  | newline cs ih =>
    rw [scan_newline] at h
    rcases eq_singleton_or_cons h hlast with ⟨-, heq⟩ | ⟨others, rfl, htail, hlast⟩
    · cases heq
    · have hcut : CutsBehind (offset + Source.byteSize ['\n']) cs others span.stop := ih htail hlast
      exact hcut.cons fun part _ _ => scan_newline offset part
  | blank c cs hc hn ih =>
    rw [scan_blank hc hn] at h
    obtain ⟨part, rest, rfl, hpart, hstop⟩ := ih h hlast
    refine ⟨c :: part, rest, rfl, (scan_blank hc hn offset part).trans hpart, ?_⟩
    rw [Source.byteSize_cons, ← Nat.add_assoc, hstop]
  | word w rest hw hr ih =>
    have hscan (part behind : List Char) (heq : rest = part ++ behind) :=
      scan_word hw (EndsWord.of_append (heq ▸ hr)) offset
    rw [scan_word hw hr] at h
    rcases eq_singleton_or_cons h hlast with ⟨rfl, heq⟩ | ⟨others, rfl, htail, hlast⟩
    · obtain ⟨-, rfl⟩ := Located.mk.inj heq
      -- the word ends as well where nothing is behind it
      refine ⟨w, rest, rfl, ?_, rfl⟩
      rw [← List.append_nil w, hscan [] rest rfl, scan_nil, List.append_nil]
    · exact (ih htail hlast).cons hscan
  | comment note rest hnote hr ih =>
    rw [scan_comment hnote hr] at h
    rcases eq_singleton_or_cons h hlast with ⟨-, heq⟩ | ⟨others, rfl, htail, hlast⟩
    · cases heq
    · exact (ih htail hlast).cons fun part behind heq =>
        scan_comment hnote (EndsComment.of_append (heq ▸ hr)) offset

/-- **Tokens that end with a word can be cut out of a text** with the characters between them. -/
theorem exists_part {before inside : List (Located Token)} {first : Located Token} {text : String}
    {span : Span} (h : scan offset cs = before ++ (inside ++ us))
    (hfirst : inside.head? = some first) (hlast : inside.getLast? = some ⟨word text, span⟩) :
    ∃ front part rest, cs = front ++ (part ++ rest) ∧
      offset + Source.byteSize front = first.span.start ∧ scan first.span.start part = inside ∧
      first.span.start + Source.byteSize part = span.stop := by
  obtain ⟨others, rfl⟩ := List.head?_eq_some_iff.mp hfirst
  obtain ⟨front, rest, rfl, hfront, hscan⟩ := exists_cut_before h
  obtain ⟨part, rest, rfl, hpart, hstop⟩ := exists_cut_behind hscan hlast
  exact ⟨front, part, rest, rfl, hfront, hpart, hstop⟩

end Token

/-! ### Statements by themselves -/

namespace Statement

/-- The statement as the only one of a source, which begins where it begins. -/
def alone (s : Statement) : Statement where
  address := 0
  label := s.label.map (Located.moved (· - s.span.start))
  opcode := s.opcode.moved (· - s.span.start)
  operand := s.operand.map (Located.moved (· - s.span.start))
  layout := ""

/-- The words of a statement spell it without a layout before them and without words behind them. -/
theorem WrittenAs.alone {s : Statement} {used rest : List Lexeme} (h : s.WrittenAs used rest) :
    ({ s with address := 0, layout := "" } : Statement).WrittenAs (Lexeme.atStart used) [] := by
  obtain ⟨hlayout, hwords, hlabel, hoperand, -⟩ := h
  cases used with
  | nil => cases hlayout
  | cons first used => exact ⟨rfl, hwords, hlabel, hoperand, by simp⟩

/-- **What falls into the tokens of a statement is read as that statement.** -/
theorem HasTokens.parse {s : Statement} {used rest : List Lexeme} {inside : List (Located Token)}
    (h : s.HasTokens used inside) (hwritten : s.WrittenAs used rest) {text : String}
    (htext : Token.scan s.span.start text.toList = inside) :
    Listing.parse text = .ok ⟨[s.alone], ""⟩ := by
  have hback : Located.moved (· - s.span.start) ∘ Located.moved (· + s.span.start) =
      (id : Located Token → Located Token) := by
    funext t
    simp [Located.moved, Span.moved]
  have htokens : Token.ofSource text = inside.map (Located.moved (· - s.span.start)) := by
    have hmoved := Token.scan_add 0 s.span.start text.toList
    rw [Nat.zero_add, htext] at hmoved
    rw [hmoved, List.map_map, hback, List.map_id]
    rfl
  have hread : Listing.readStatements 0 (Lexeme.atStart used) =
      .ok [{ s with address := 0, layout := "" }] := by
    have hlist := Listing.WrittenAs.cons rfl hwritten.alone .nil
    rw [List.append_nil] at hlist
    exact Listing.readStatements_eq_ok_iff.mpr hlist
  have hmoved := Listing.readStatements_moved 0 (· - s.span.start) id 0 (Lexeme.atStart used)
  rw [hread] at hmoved
  rw [Listing.parse_eq, Lexeme.ofTokens, htokens, Lexeme.gather_moved, h.words]
  simp only [hmoved]
  rfl

end Statement

namespace Listing

variable {source : String} {l : Listing}

/-- A statement of a source is cut out by its span. -/
theorem exists_text? (h : parse source = .ok l) {s : Statement} (hs : s ∈ l.statements) :
    ∃ text, s.span.text? source = some text ∧ parse text = .ok ⟨[s.alone], ""⟩ := by
  obtain ⟨hwritten, -⟩ := writtenAs_of_parse h
  obtain ⟨front, used, rest, hwords, hs⟩ := hwritten.exists_split s hs
  have htokens : Lexeme.gather "" (Token.scan 0 source.toList) = (front ++ (used ++ rest),
      (Lexeme.ofTokens (Token.ofSource source)).2) := by
    rw [← hwords]
    rfl
  obtain ⟨others, tokens, hscan, -, -, htokens⟩ := Lexeme.gather_eq_append htokens
  obtain ⟨before, inside, behind, rfl, -, hinside, -⟩ := hs.exists_tokens htokens
  obtain ⟨first, hfirst, hstart⟩ := hinside.start
  obtain ⟨word, span, hlast, hstop⟩ := hinside.stop
  rw [← List.append_assoc] at hscan
  obtain ⟨ahead, part, remainder, hsource, hahead, hpart, hend⟩ :=
    Token.exists_part hscan hfirst hlast
  rw [hstart] at hahead hpart hend
  rw [Nat.zero_add] at hahead
  refine ⟨String.ofList part, ?_, hinside.parse hs (by rwa [String.toList_ofList])⟩
  rw [Span.text?_eq_some_iff, String.toList_ofList]
  exact ⟨ahead, remainder, hsource, hahead, hend.trans hstop⟩

theorem WrittenAs.pairwise_span {n : Nat} {ss : List Statement} {words : List Lexeme}
    (h : WrittenAs n ss words) {layout trailing : String} {tokens : List (Located Token)}
    (htokens : Lexeme.gather layout tokens = (words, trailing)) (horder : Token.InOrder tokens) :
    ss.Pairwise (fun s t => s.span.stop ≤ t.span.start) ∧ ∀ s ∈ ss, s.span.start < s.span.stop := by
  induction h generalizing layout tokens with
  | nil => exact ⟨.nil, by simp⟩
  | @cons address s ss used rest _ hs hss ih =>
    obtain ⟨before, inside, behind, rfl, -, hinside, hbehind⟩ := hs.exists_tokens htokens
    obtain ⟨-, hencloses, hbegins⟩ := hinside.places horder
    have hlt := horder.start_lt_stop
    obtain ⟨-, horder, -⟩ := Token.inOrder_append.mp horder
    obtain ⟨-, horder, -⟩ := Token.inOrder_append.mp horder
    obtain ⟨hpairwise, hne⟩ := ih hbehind horder
    refine ⟨.cons (fun t ht => ?_) hpairwise, List.forall_mem_cons.mpr ⟨?_, hne⟩⟩
    · obtain ⟨first, hfirst, _, -, hspan⟩ := hss.exists_ends t ht
      rw [hspan]
      exact hbegins _ (Lexeme.token_mem_of_gather hbehind first hfirst)
    · obtain ⟨first, hfirst, -⟩ := hinside.start
      have hmem := List.mem_of_mem_head? hfirst
      obtain ⟨hstart, hstop⟩ := hencloses first hmem
      have hfirst := hlt first (List.mem_append_right _ (List.mem_append_left _ hmem))
      omega

end Listing

/-! ### The source index -/

theorem Span.isSome_splitAtByte?_of_text? {span : Span} {source text : String}
    (h : span.text? source = some text) :
    (Source.splitAtByte? span.start source.toList).isSome ∧
      (Source.splitAtByte? span.stop source.toList).isSome := by
  obtain ⟨before, after, hsource, hstart, hstop⟩ := text?_eq_some_iff.mp h
  constructor
  · rw [Source.splitAtByte?_eq_some_iff.mpr ⟨hsource, hstart⟩]
    rfl
  · rw [← List.append_assoc] at hsource
    have hsize : Source.byteSize (before ++ text.toList) = span.stop := by
      rw [Source.byteSize_append, hstart, hstop]
    rw [Source.splitAtByte?_eq_some_iff.mpr ⟨hsource, hsize⟩]
    rfl

/-- The index has parts of the source, one for each address below `size`, one behind the other. -/
structure SourceIndex.HasParts (index : SourceIndex Span) (source : String) (size : Nat) :
    Prop where
  /-- There is exactly one entry for each of the addresses, and no other. -/
  keys : index.keys.Perm (List.range size)
  /-- A span is not empty. -/
  start_lt_stop : ∀ {i : Nat} {span : Span}, index.get? i = some span → span.start < span.stop
  /-- A span begins and ends between characters. -/
  boundaries : ∀ {i : Nat} {span : Span}, index.get? i = some span →
    (Source.splitAtByte? span.start source.toList).isSome ∧
      (Source.splitAtByte? span.stop source.toList).isSome
  /-- The spans of later addresses stand behind. -/
  increasing : ∀ {i j : Nat} {s t : Span}, i < j → index.get? i = some s → index.get? j = some t →
    s.stop ≤ t.start

namespace Program

variable {source : String} {policy : LabelPolicy} {p : Program}

/-- **The index of a program has parts of its source.** -/
theorem hasParts_sourceIndex (hp : assemble source policy = .ok p) :
    p.sourceIndex.HasParts source p.size := by
  obtain ⟨l, hl, hassemble⟩ := exists_parse_of_assemble hp
  have hget := Listing.get?_sourceIndex (Listing.address_of_parse hl) hassemble
  obtain ⟨hpairwise, hne⟩ := (Listing.writtenAs_of_parse hl).1.pairwise_span rfl
    (Token.inOrder_scan 0 source.toList).1
  have hstatement {i : Nat} {span : Span} (h : p.sourceIndex.get? i = some span) :
      ∃ s, l.statements[i]? = some s ∧ s.span = span := by
    rw [hget] at h
    exact Option.map_eq_some_iff.mp h
  constructor
  case keys =>
    refine (List.perm_ext_iff_of_nodup p.sourceIndex.nodup List.nodup_range).mpr fun i => ?_
    rw [List.mem_range, ← isSome_sourceIndex_iff hp i]
    exact p.sourceIndex.mem_keys_iff
  case start_lt_stop =>
    intro i span h
    obtain ⟨s, hs, rfl⟩ := hstatement h
    exact hne s (List.mem_of_getElem? hs)
  case boundaries =>
    intro i span h
    obtain ⟨s, hs, rfl⟩ := hstatement h
    obtain ⟨text, htext, -⟩ := Listing.exists_text? hl (List.mem_of_getElem? hs)
    exact Span.isSome_splitAtByte?_of_text? htext
  case increasing =>
    intro i j _ _ hlt hi hj
    obtain ⟨s, hs, rfl⟩ := hstatement hi
    obtain ⟨t, ht, rfl⟩ := hstatement hj
    obtain ⟨hilt, rfl⟩ := List.getElem?_eq_some_iff.mp hs
    obtain ⟨hjlt, rfl⟩ := List.getElem?_eq_some_iff.mp ht
    exact List.pairwise_iff_getElem.mp hpairwise i j hilt hjlt hlt

/-- **The text for a mailbox is the statement that made it.** The index of a program has one part of
the source for each of its addresses and no other; these parts stand one behind the other and cut no
characters. Each of them is read, as a source of its own, as exactly one statement, which is the one
at that address in the listing of the whole source: it has the same label, opcode and operand, at
the places that they have from its start on, and no layout is left behind it. -/
theorem parse_statement?_sourceIndex (hp : assemble source policy = .ok p) :
    p.sourceIndex.HasParts source p.size ∧
      ∃ l, Listing.parse source = .ok l ∧ l.size = p.size ∧
        ∀ (i : Nat) (s : Statement), l.statements[i]? = some s →
          ∃ text, p.sourceIndex.statement? i source = some text ∧
            Listing.parse text = .ok ⟨[s.alone], ""⟩ := by
  refine ⟨hasParts_sourceIndex hp, ?_⟩
  obtain ⟨l, hl, hassemble⟩ := exists_parse_of_assemble hp
  have haddress := Listing.address_of_parse hl
  refine ⟨l, hl, (Listing.size_of_assemble haddress hassemble).symm, fun i s hs => ?_⟩
  obtain ⟨text, htext, hparse⟩ := Listing.exists_text? hl (List.mem_of_getElem? hs)
  refine ⟨text, ?_, hparse⟩
  rw [SourceIndex.statement?, Listing.get?_sourceIndex haddress hassemble, hs]
  exact htext

/-- The first statement reaches over a comment and two line breaks; the third has no operand. -/
theorem parse_statement?_of_comments : ∃ p,
    assemble "ü // note\nLDA\n\nn HLT\nn DAT // done" .unique = .ok p ∧
    p.sourceIndex.HasParts "ü // note\nLDA\n\nn HLT\nn DAT // done" 3 ∧
    p.sourceIndex.statement? 0 "ü // note\nLDA\n\nn HLT\nn DAT // done" =
      some "ü // note\nLDA\n\nn" ∧
    Listing.parse "ü // note\nLDA\n\nn" =
      .ok ⟨[⟨0, some ⟨"ü", ⟨0, 2⟩⟩, ⟨.lda, ⟨11, 14⟩⟩, some ⟨.reference "n", ⟨16, 17⟩⟩, ""⟩], ""⟩ ∧
    p.sourceIndex.statement? 2 "ü // note\nLDA\n\nn HLT\nn DAT // done" = some "n DAT" ∧
    Listing.parse "n DAT" = .ok ⟨[⟨0, some ⟨"n", ⟨0, 1⟩⟩, ⟨.dat, ⟨2, 5⟩⟩, none, ""⟩], ""⟩ := by
  let source := "ü // note\nLDA\n\nn HLT\nn DAT // done"
  let first : Statement :=
    ⟨0, some ⟨"ü", ⟨0, 2⟩⟩, ⟨.lda, ⟨11, 14⟩⟩, some ⟨.reference "n", ⟨16, 17⟩⟩, ""⟩
  let second : Statement := ⟨1, none, ⟨.hlt, ⟨18, 21⟩⟩, none, ""⟩
  let third : Statement := ⟨2, some ⟨"n", ⟨22, 23⟩⟩, ⟨.dat, ⟨24, 27⟩⟩, none, "\n"⟩
  have hsource : Listing.parse source = .ok ⟨[first, second, third], "\n// done"⟩ := by
    decide +kernel
  have htexts : (assemble source .unique).toOption.map (fun p =>
      (p.sourceIndex.statement? 0 source, p.sourceIndex.statement? 2 source)) =
        some (some "ü // note\nLDA\n\nn", some "n DAT") := by
    decide +kernel
  obtain ⟨p, hp, hfirst, hthird⟩ : ∃ p, assemble source .unique = .ok p ∧
      p.sourceIndex.statement? 0 source = some "ü // note\nLDA\n\nn" ∧
      p.sourceIndex.statement? 2 source = some "n DAT" := by
    cases h : assemble source .unique with
    | error e => rw [h] at htexts; cases htexts
    | ok p =>
      rw [h] at htexts
      obtain ⟨hfirst, hthird⟩ := Prod.mk.inj (Option.some.inj htexts)
      exact ⟨p, rfl, hfirst, hthird⟩
  obtain ⟨hparts, l, hl, hsize, htexts⟩ := parse_statement?_sourceIndex hp
  obtain rfl := Except.ok.inj (hl.symm.trans hsource)
  obtain ⟨text, htext, hparse⟩ := htexts 0 first rfl
  obtain rfl : "ü // note\nLDA\n\nn" = text := Option.some.inj (hfirst.symm.trans htext)
  obtain ⟨text, htext, hparse'⟩ := htexts 2 third rfl
  obtain rfl : "n DAT" = text := Option.some.inj (hthird.symm.trans htext)
  rw [← hsize] at hparts
  exact ⟨p, hp, hparts, hfirst, hparse, hthird, hparse'⟩

end Program

end LittleMan
