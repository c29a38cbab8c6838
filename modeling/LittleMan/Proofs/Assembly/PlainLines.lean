import LittleMan.Proofs.Assembly.Clauses
import LittleMan.Proofs.Assembly.Printing
import LittleMan.Proofs.Assembly.TwoPasses

/-!
# Lines without labels

A line with a mnemonic and, for most opcodes, a number behind a blank (`PlainLine`) is a clause by
itself: no label stands on it, none is named, and it takes no word of the line behind it. So lines
like that are assembled one by one, to the words that they stand for
(`Program.assemble_plainLines`). If there is a number that is too large among them, the first of
these is the error (`Program.assemble_plainLines_of_tooLarge`).

That lines cannot run into each other is said of their words: the words of a text of lines are those
of every line, in their places (`PlainLine.words_ofLines`).
-/

namespace LittleMan

/-! ### Statements without labels -/

/-- The statement has no label and names none, and what it stands for is the word. -/
structure Statement.Plain (s : Statement) (word : Word) : Prop where
  /-- No label stands in front of it. -/
  label : s.label = none
  /-- Its operand, if there is one, is a number. -/
  reference : s.reference? = none
  /-- The word is the code of the opcode plus that number. -/
  word : word.toInt = s.total

theorem Draft.exists_plain (policy : LabelPolicy) {ss : List Statement} {words : List Word}
    (h : List.Forall₂ Statement.Plain ss words) (d : Draft) :
    ∃ d', (ss.foldlM (add policy) d).result = .ok d' ∧ d'.words.toList = d.words.toList ++ words ∧
      d'.labels = d.labels ∧ d'.references = d.references := by
  induction h generalizing d with
  | nil => exact ⟨d, rfl, (List.append_nil _).symm, rfl, rfl⟩
  | @cons s word ss words hs _ ih =>
    have hclash : d.clash? policy s = none := by
      unfold clash?
      rw [hs.label]
      cases policy <;> rfl
    have hadd : (d.add policy s).result = .ok (d.extend s word) := by
      rw [result_add, result_encode_eq_ok_iff.mpr hs.word, hclash]
      rfl
    obtain ⟨d', hd', hwords, hlabels, hreferences⟩ := ih (d.extend s word)
    refine ⟨d', ?_, ?_, ?_, ?_⟩
    · rw [Logged.result_foldlM_cons, hadd]
      exact hd'
    · rw [hwords, extend, Array.toList_push, List.append_assoc]
      rfl
    · rw [hlabels, extend, LabelTable.noteReference, LabelTable.noteLabel, hs.reference, hs.label]
    · rw [hreferences, extend, hs.reference]
      exact Array.append_empty ..

/-- **Statements without labels are assembled one by one.** -/
theorem Listing.assemble_plain {l : Listing} {words : List Word}
    (h : List.Forall₂ Statement.Plain l.statements words) (policy : LabelPolicy) :
    ∃ p, l.assemble policy = .ok p ∧ p.words.toList = words ∧ p.labels = ∅ ∧
      p.relocations = [] := by
  obtain ⟨d, hd, hwords, hlabels, hreferences⟩ := Draft.exists_plain policy h {}
  refine ⟨d.toProgram d.words, ?_, hwords, hlabels, ?_⟩
  · rw [assemble_eq, hd]
    simp only [Except.bind, hreferences]
    rfl
  · rw [Draft.toProgram, hreferences]
    rfl

/-! ### Lines -/

/-- The lines with line breaks between them, and `ending` behind the last one. -/
def Source.ofLines (lines : List String) (ending : String) : String :=
  "\n".intercalate lines ++ ending

/-- A line of a source without labels: a mnemonic and, for most opcodes, a numeral. -/
structure PlainLine where
  /-- What the mnemonic stands for. -/
  opcode : Opcode
  /-- What stands behind the mnemonic. -/
  numeral : Option String
  /-- It is a word. -/
  isWord : ∀ text ∈ numeral, Token.IsWord text.toList

namespace PlainLine

/-- The text of the line. -/
def text (x : PlainLine) : String :=
  x.opcode.mnemonic ++ (x.numeral.map (" " ++ ·)).getD ""

/-- The words of the line, which begins at byte `offset`. -/
def clause (offset : Nat) (x : PlainLine) : Clause where
  label := none
  mnemonic := ⟨x.opcode.mnemonic, ⟨offset, offset + 3⟩⟩
  operand := x.numeral.map fun numeral =>
    ⟨numeral, ⟨offset + 4, offset + 4 + Source.byteSize numeral.toList⟩⟩

/-- The characters of lines that are all ended by a line break. -/
def chars (xs : List PlainLine) : List Char := xs.flatMap fun x => x.text.toList ++ ['\n']

/-- The words of the lines, of which the first begins at byte `offset`. -/
def clauses (offset : Nat) : List PlainLine → List Clause
  | [] => []
  | x :: xs => x.clause offset :: clauses (offset + Source.byteSize x.text.toList + 1) xs

theorem clauses_append (offset : Nat) (xs ys : List PlainLine) :
    clauses offset (xs ++ ys) =
      clauses offset xs ++ clauses (offset + Source.byteSize (chars xs)) ys := by
  induction xs generalizing offset with
  | nil => rfl
  | cons x xs ih =>
    have hsize : Source.byteSize (chars (x :: xs)) =
        Source.byteSize x.text.toList + 1 + Source.byteSize (chars xs) := by
      rw [chars, List.flatMap_cons, Source.byteSize_append, Source.byteSize_append]
      rfl
    rw [List.cons_append, clauses, ih, clauses, hsize, List.cons_append]
    simp only [Nat.add_assoc]

/-! ### The text of a line -/

theorem text_of_none {x : PlainLine} (h : x.numeral = none) : x.text = x.opcode.mnemonic := by
  rw [text, h]
  exact String.append_empty

theorem toList_text_of_some {x : PlainLine} {numeral : String} (h : x.numeral = some numeral) :
    x.text.toList = x.opcode.mnemonic.toList ++ ' ' :: numeral.toList := by
  rw [text, h]
  simp

theorem byteSize_mnemonic (op : Opcode) : Source.byteSize op.mnemonic.toList = 3 := by
  cases op <;> rfl

theorem length_mnemonic_blank (op : Opcode) : (op.mnemonic.toList ++ [' ']).length = 4 := by
  cases op <;> rfl

theorem ne_newline_of_mem_mnemonic (op : Opcode) : ∀ c ∈ op.mnemonic.toList, c ≠ '\n' :=
  fun c hc => Token.ne_newline_of_isWordChar ((Statement.isWord_mnemonic op).chars c hc)

theorem ne_newline_of_mem_text (x : PlainLine) : ∀ c ∈ x.text.toList, c ≠ '\n' := by
  have hmnemonic := ne_newline_of_mem_mnemonic x.opcode
  cases hnumeral : x.numeral with
  | none =>
    rw [text_of_none hnumeral]
    exact hmnemonic
  | some numeral =>
    rw [toList_text_of_some hnumeral]
    refine List.forall_mem_append.mpr ⟨hmnemonic, List.forall_mem_cons.mpr ⟨by decide, ?_⟩⟩
    intro c hc
    exact Token.ne_newline_of_isWordChar ((x.isWord numeral hnumeral).chars c hc)

/-- **The words of a text that begins with a line** are those of the line and those behind it. -/
theorem words_text (x : PlainLine) (offset : Nat) {rest : List Char} (hrest : Token.EndsWord rest) :
    Token.words offset (x.text.toList ++ rest) =
      (x.clause offset).words ++ Token.words (offset + Source.byteSize x.text.toList) rest := by
  have hmnemonic := Statement.isWord_mnemonic x.opcode
  unfold Clause.words clause
  cases hnumeral : x.numeral with
  | none =>
    rw [text_of_none hnumeral, Token.words_word hmnemonic hrest, byteSize_mnemonic]
    rfl
  | some numeral =>
    have hbytes : Source.byteSize (x.opcode.mnemonic.toList ++ ' ' :: numeral.toList) =
        4 + Source.byteSize numeral.toList := by
      rw [Source.byteSize_append, Source.byteSize_cons, byteSize_mnemonic, ← Nat.add_assoc]
      rfl
    rw [toList_text_of_some hnumeral, List.append_assoc, List.cons_append,
      Token.words_word hmnemonic (Token.endsWord_cons (by decide)), byteSize_mnemonic,
      Token.words_blank (by decide), Token.words_word (x.isWord numeral hnumeral) hrest, hbytes,
      ← Nat.add_assoc]
    rfl

/-! ### The text of lines -/

theorem toList_ofLines_cons (x : PlainLine) {xs : List PlainLine} (hne : xs ≠ [])
    (ending : String) : (Source.ofLines ((x :: xs).map text) ending).toList =
      x.text.toList ++ '\n' :: (Source.ofLines (xs.map text) ending).toList := by
  obtain ⟨y, ys, rfl⟩ := List.exists_cons_of_ne_nil hne
  simp [Source.ofLines, String.intercalate_cons_cons]

theorem exists_toList_ofLines_cons (x : PlainLine) (xs : List PlainLine) (ending : String) :
    ∃ rest, (Source.ofLines ((x :: xs).map text) ending).toList = x.text.toList ++ rest := by
  by_cases hnil : xs = []
  · subst hnil
    exact ⟨ending.toList, by simp [Source.ofLines]⟩
  · exact ⟨_, toList_ofLines_cons x hnil ending⟩

theorem toList_ofLines_append (xs : List PlainLine) {ys : List PlainLine} (hne : ys ≠ [])
    (ending : String) : (Source.ofLines ((xs ++ ys).map text) ending).toList =
      chars xs ++ (Source.ofLines (ys.map text) ending).toList := by
  induction xs with
  | nil => rfl
  | cons x xs ih =>
    have happend : xs ++ ys ≠ [] := List.append_ne_nil_of_right_ne_nil xs hne
    rw [List.cons_append, toList_ofLines_cons x happend, ih]
    simp [chars]

/-- **The words of lines** are those of each of them, where it stands. -/
theorem words_ofLines (xs : List PlainLine) {ending : String}
    (hending : ∀ c ∈ ending.toList, Token.isWordChar c = false) (offset : Nat) :
    Token.words offset (Source.ofLines (xs.map text) ending).toList =
      (clauses offset xs).flatMap Clause.words := by
  induction xs generalizing offset with
  | nil =>
    have htext : Source.ofLines [] ending = ending := String.empty_append
    rw [List.map_nil, htext, Token.words_eq_nil hending]
    rfl
  | cons x xs ih =>
    rw [clauses, List.flatMap_cons]
    by_cases hnil : xs = []
    · subst hnil
      have htext : (Source.ofLines ([x].map text) ending).toList =
          x.text.toList ++ ending.toList := by
        simp [Source.ofLines]
      have hends : Token.EndsWord ending.toList := fun c hc => hending c (List.mem_of_mem_head? hc)
      rw [htext, words_text x offset hends, Token.words_eq_nil hending]
      rfl
    · rw [toList_ofLines_cons x hnil, words_text x offset (Token.endsWord_cons (by decide)),
        Token.words_blank (by decide), ih]
      rfl

/-- The numeral of a line stands in the fifth column. -/
theorem text?_numeral (xs : List PlainLine) {y : PlainLine} {numeral : String}
    (hy : y.numeral = some numeral) (ys : List PlainLine) (ending : String) :
    let source := Source.ofLines ((xs ++ y :: ys).map text) ending
    let start := Source.byteSize (chars xs) + 4
    Span.text? ⟨start, start + Source.byteSize numeral.toList⟩ source = some numeral ∧
      Location.ofOffset? source start = some ⟨xs.length + 1, 5⟩ := by
  intro source start
  let head := y.opcode.mnemonic.toList ++ [' ']
  have hlength : head.length = 4 := length_mnemonic_blank y.opcode
  have hnewline : ∀ c ∈ head, c ≠ '\n' := List.forall_mem_append.mpr
    ⟨ne_newline_of_mem_mnemonic y.opcode, List.forall_mem_singleton.mpr (by decide)⟩
  have hstart : Source.byteSize (chars xs ++ head) = start := by
    rw [Source.byteSize_append, Source.byteSize_append, byteSize_mnemonic]
    rfl
  obtain ⟨after, hafter⟩ := exists_toList_ofLines_cons y ys ending
  have hsource : source.toList = chars xs ++ head ++ (numeral.toList ++ after) := by
    rw [toList_ofLines_append xs (List.cons_ne_nil y ys), hafter, toList_text_of_some hy]
    simp [head]
  have hlines : ∀ line ∈ xs.map fun x => x.text.toList, ∀ c ∈ line, c ≠ '\n' := by
    intro line hline
    obtain ⟨x, -, rfl⟩ := List.mem_map.mp hline
    exact x.ne_newline_of_mem_text
  have hlocation : Location.after (chars xs ++ head) = ⟨xs.length + 1, 5⟩ := by
    have hafter := Location.after_lines hlines hnewline
    rwa [List.flatMap_map, List.length_map, hlength] at hafter
  refine ⟨Span.text?_eq_some_iff.mpr ⟨chars xs ++ head, after, hsource, hstart, rfl⟩, ?_⟩
  rw [← hlocation, ← Location.ofOffset?_byteSize hsource, hstart]

/-! ### What becomes of lines -/

/-- What the line says is the word, the code of the opcode plus the number behind it. -/
def StandsFor (x : PlainLine) (word : Word) : Prop :=
  match x.numeral with
  | none => x.opcode.takesOperand = false ∧ word = x.opcode.code
  | some numeral => x.opcode.takesOperand = true ∧
      ∃ value, Numeral.read numeral = .number value ∧
        word.toInt = x.opcode.code.toInt + value.toInt

theorem standsFor_of_none {x : PlainLine} (h : x.numeral = none) (word : Word) :
    x.StandsFor word ↔ x.opcode.takesOperand = false ∧ word = x.opcode.code := by
  rw [StandsFor, h]

theorem standsFor_of_some {x : PlainLine} {numeral : String} (h : x.numeral = some numeral)
    (word : Word) : x.StandsFor word ↔ x.opcode.takesOperand = true ∧
      ∃ value, Numeral.read numeral = .number value ∧
        word.toInt = x.opcode.code.toInt + value.toInt := by
  rw [StandsFor, h]

/-- The words of the line are a clause, whatever comes behind them. -/
theorem StandsFor.complete {x : PlainLine} {word : Word} (h : x.StandsFor word) (offset : Nat)
    (next : Option (Located String)) : (x.clause offset).Complete next := by
  have hdirective : x.opcode.isDirective = true → x.opcode.takesOperand = true :=
    Opcode.takesOperand_of_isDirective
  refine ⟨fun label hlabel => (by cases hlabel), x.opcode, Statement.ofWord?_mnemonic _, ?_⟩
  unfold Opcode.Takes clause
  cases hnumeral : x.numeral with
  | none =>
    obtain ⟨htakes, -⟩ := (standsFor_of_none hnumeral word).mp h
    have hdirective : x.opcode.isDirective = false := by simpa [htakes] using hdirective
    rw [hdirective, htakes]
    rfl
  | some numeral =>
    obtain ⟨htakes, value, hvalue, -⟩ := (standsFor_of_some hnumeral word).mp h
    rw [htakes]
    cases x.opcode.isDirective with
    | true => exact ⟨value, hvalue⟩
    | false => exact ⟨_, rfl, by rw [hvalue]; exact Numeral.noConfusion⟩

/-- A statement that is spelt as the line stands for the word that the line does. -/
theorem StandsFor.plain {x : PlainLine} {word : Word} (h : x.StandsFor word) {offset : Nat}
    {s : Statement} (hs : s.SpeltBy (x.clause offset)) : s.Plain word := by
  obtain ⟨hlabel, hopcode, -, hoperand⟩ := hs
  have hop : s.opcode.value = x.opcode :=
    (Option.some.inj ((Statement.ofWord?_mnemonic x.opcode).symm.trans hopcode)).symm
  unfold clause at hoperand
  cases hnumeral : x.numeral with
  | none =>
    rw [hnumeral] at hoperand
    obtain ⟨-, rfl⟩ := (standsFor_of_none hnumeral word).mp h
    have hnone : s.operand = none := hoperand
    refine ⟨hlabel, ?_, ?_⟩
    · rw [Statement.reference?, hnone]
    · rw [Statement.total, hnone, hop]
      exact (Int.add_zero _).symm
  | some numeral =>
    rw [hnumeral] at hoperand
    obtain ⟨-, value, hvalue, hword⟩ := (standsFor_of_some hnumeral word).mp h
    have hnumber : s.operand = some ⟨.number value numeral,
        ⟨offset + 4, offset + 4 + Source.byteSize numeral.toList⟩⟩ := by
      rw [hoperand]
      simp only [Option.map_some, Operand.ofWord, hvalue]
    refine ⟨hlabel, ?_, ?_⟩
    · rw [Statement.reference?, hnumber]
    · rw [Statement.total, hnumber, hop]
      exact hword

variable {xs : List PlainLine} {words : List Word}

theorem allComplete_clauses (h : List.Forall₂ StandsFor xs words) (offset : Nat)
    (rest : List (Located String)) : Clause.AllComplete (clauses offset xs) rest := by
  induction h generalizing offset with
  | nil => exact trivial
  | cons hx _ ih => exact ⟨hx.complete offset _, ih _⟩

theorem plain_of_speltBy (h : List.Forall₂ StandsFor xs words) {offset : Nat} {ss : List Statement}
    (hss : List.Forall₂ Statement.SpeltBy ss (clauses offset xs)) :
    List.Forall₂ Statement.Plain ss words := by
  induction h generalizing offset ss with
  | nil =>
    obtain rfl := List.forall₂_nil_right_iff.mp hss
    exact .nil
  | cons hx _ ih =>
    obtain ⟨s, others, hs, hothers, rfl⟩ := List.forall₂_cons_right_iff.mp hss
    exact .cons (hx.plain hs) (ih hothers)

/-- A line with a number that is too large begins no clause. -/
theorem stuck_clauses {y : PlainLine} {numeral : String} (hy : y.numeral = some numeral)
    (htakes : y.opcode.takesOperand = true) (hread : Numeral.read numeral = .tooLarge)
    (offset : Nat) (ys : List PlainLine) : Stuck ((clauses offset (y :: ys)).flatMap Clause.words)
      ⟨.numberTooLarge numeral,
        some ⟨offset + 4, offset + 4 + Source.byteSize numeral.toList⟩⟩ := by
  have hnone : ∀ l ∈ (none : Option (Located String)), Opcode.ofWord? l.value = none :=
    fun l hl => by cases hl
  rw [clauses, List.flatMap_cons, Clause.words, clause, hy]
  exact Stuck.tooLarge hnone (Statement.ofWord?_mnemonic y.opcode) htakes hread

end PlainLine

namespace Program

open PlainLine

variable {xs : List PlainLine} {words : List Word} {ending : String}

/-- **Lines without labels are assembled one by one**, to the words that they stand for. -/
theorem assemble_plainLines (h : List.Forall₂ StandsFor xs words)
    (hending : ∀ c ∈ ending.toList, Token.isWordChar c = false) (policy : LabelPolicy) :
    ∃ p, assemble (Source.ofLines (xs.map text) ending) policy = .ok p ∧
      p.words.toList = words ∧ p.labels = ∅ ∧ p.relocations = [] := by
  have hrow : Clause.Row (Token.words 0 (Source.ofLines (xs.map text) ending).toList)
      (clauses 0 xs) [] :=
    ⟨allComplete_clauses h 0 [], by rw [List.append_nil, words_ofLines xs hending]⟩
  obtain ⟨l, hl, hspelt⟩ := Listing.exists_parse_of_row hrow
  obtain ⟨p, hp, hprogram⟩ := Listing.assemble_plain (plain_of_speltBy h hspelt) policy
  refine ⟨p, ?_, hprogram⟩
  rw [assemble_of_parse hl]
  exact hp

/-- **A number that is too large is refused**, and the error is that of the first line that has
one. -/
theorem assemble_plainLines_of_tooLarge (h : List.Forall₂ StandsFor xs words) {y : PlainLine}
    {numeral : String} (hy : y.numeral = some numeral) (htakes : y.opcode.takesOperand = true)
    (hread : Numeral.read numeral = .tooLarge) (ys : List PlainLine)
    (hending : ∀ c ∈ ending.toList, Token.isWordChar c = false) (policy : LabelPolicy) :
    let source := Source.ofLines ((xs ++ y :: ys).map text) ending
    ∃ span, assemble source policy = .error ⟨.numberTooLarge numeral, some span⟩ ∧
      span.text? source = some numeral ∧
      Location.ofOffset? source span.start = some ⟨xs.length + 1, 5⟩ := by
  intro source
  -- the words are those of the lines in front, and then of a line that is no clause
  have hrow : Clause.Row (Token.words 0 source.toList) (clauses 0 xs)
      ((clauses (Source.byteSize (chars xs)) (y :: ys)).flatMap Clause.words) := by
    refine ⟨allComplete_clauses h 0 _, ?_⟩
    rw [words_ofLines _ hending, clauses_append, List.flatMap_append, Nat.zero_add]
  have hstuck := stuck_clauses hy htakes hread (Source.byteSize (chars xs)) ys
  obtain ⟨htext, hplace⟩ := text?_numeral xs hy ys ending
  refine ⟨_, ?_, htext, hplace⟩
  exact assemble_of_parse_error (Listing.parse_eq_error_iff.mpr ⟨_, _, hrow, hstuck⟩) policy

end Program

end LittleMan
