import LittleMan.Proofs.Assembly.Grammar
import Mathlib.Data.List.Forall2

/-!
# Sources as clauses

Which sources are programs, said of their words alone. The words of a statement are a *clause*: a
label or none, a mnemonic, and the operand that the opcode takes. `DAT` takes the word behind it if
that is a number, so a clause is complete only as seen with the next word (`Clause.Complete`).

A source is read exactly if its words are a row of complete clauses, which then spell the statements
word by word and place by place; there is at most one such row. Any other source is a row of
complete clauses in front of words that begin no clause (`Stuck`), and the error is theirs. All of
this is `Listing.parse_clauses`.
-/

namespace LittleMan

/-! ### Clauses -/

/-- The words of a statement. -/
structure Clause where
  /-- The label before the mnemonic. -/
  label : Option (Located String)
  /-- The mnemonic. -/
  mnemonic : Located String
  /-- The operand after the mnemonic. -/
  operand : Option (Located String)
  deriving DecidableEq, Repr

/-- Whether the opcode takes that operand, or none, when `next` is the word behind it. -/
def Opcode.Takes (op : Opcode) (operand next : Option (Located String)) : Prop :=
  if op.isDirective then
    match operand with
    | some word => ∃ value, Numeral.read word.value = .number value
    | none => ∀ word ∈ next, Numeral.read word.value = .notANumeral
  else if op.takesOperand then ∃ word, operand = some word ∧ Numeral.read word.value ≠ .tooLarge
  else operand = none

/-- The operand that a word is: a number if it is written like one, and else a label. -/
def Operand.ofWord (word : Located String) : Located Operand :=
  match Numeral.read word.value with
  | .number value => ⟨.number value word.value, word.span⟩
  | _ => ⟨.reference word.value, word.span⟩

namespace Clause

/-- The words, in order. -/
def words (c : Clause) : List (Located String) := c.label.toList ++ c.mnemonic :: c.operand.toList

/-- The clause is that of a statement when `next` is the word behind it. -/
structure Complete (c : Clause) (next : Option (Located String)) : Prop where
  /-- A label is no mnemonic. -/
  label : ∀ word ∈ c.label, Opcode.ofWord? word.value = none
  /-- The opcode takes the operand. -/
  operand : ∃ op, Opcode.ofWord? c.mnemonic.value = some op ∧ op.Takes c.operand next

/-- The clauses are complete when the words `rest` stand behind the last of them. -/
def AllComplete : List Clause → List (Located String) → Prop
  | [], _ => True
  | c :: cs, rest => c.Complete (cs.flatMap words ++ rest).head? ∧ AllComplete cs rest

/-- The words `ws` are a row of complete clauses and then `rest`. -/
structure Row (ws : List (Located String)) (cs : List Clause) (rest : List (Located String)) :
    Prop where
  /-- The clauses are complete. -/
  complete : AllComplete cs rest
  /-- No word is left out. -/
  words : ws = cs.flatMap words ++ rest

end Clause

/-- The statement is what the clause spells. -/
structure Statement.SpeltBy (s : Statement) (c : Clause) : Prop where
  /-- The label stands as it is written. -/
  label : s.label = c.label
  /-- The opcode is that of the mnemonic, -/
  opcode : Opcode.ofWord? c.mnemonic.value = some s.opcode.value
  /-- and stands where the mnemonic does. -/
  place : s.opcode.span = c.mnemonic.span
  /-- The operand is the word behind the mnemonic. -/
  operand : s.operand = c.operand.map Operand.ofWord

/-- The words begin no clause, for the reason that `e` gives. -/
inductive Stuck : List (Located String) → AssemblyError → Prop where
  /-- The last word is no mnemonic. -/
  | lastWord {word : Located String} : Opcode.ofWord? word.value = none →
    Stuck [word] ⟨.unknownMnemonic word.value (Opcode.guess? word.value), some word.span⟩
  /-- Neither of two words is a mnemonic. -/
  | twoWords {first second : Located String} {rest : List (Located String)} :
    Opcode.ofWord? first.value = none → Opcode.ofWord? second.value = none →
      Stuck (first :: second :: rest)
        ⟨.unknownMnemonic (first.value ++ " " ++ second.value)
            ((Opcode.guess? second.value).or (Opcode.guess? first.value)),
          some ⟨first.span.start, second.span.stop⟩⟩
  /-- The word behind a mnemonic that can have an operand is too large a number. -/
  | tooLarge {label : Option (Located String)} {mnemonic word : Located String} {op : Opcode}
      {rest : List (Located String)} : (∀ l ∈ label, Opcode.ofWord? l.value = none) →
    Opcode.ofWord? mnemonic.value = some op → op.takesOperand = true →
      Numeral.read word.value = .tooLarge →
        Stuck (label.toList ++ mnemonic :: word :: rest)
          ⟨.numberTooLarge word.value, some word.span⟩
  /-- No word is left for the operand. -/
  | missing {label : Option (Located String)} {mnemonic : Located String} {op : Opcode} :
    (∀ l ∈ label, Opcode.ofWord? l.value = none) → Opcode.ofWord? mnemonic.value = some op →
      op.takesOperand = true → op.isDirective = false →
        Stuck (label.toList ++ [mnemonic]) ⟨.missingOperand op, none⟩

/-! ### Operands -/

/-- The word of an operand. -/
def Operand.word (operand : Located Operand) : Located String := ⟨operand.value.text, operand.span⟩

theorem Operand.word_ofWord (word : Located String) : Operand.word (ofWord word) = word := by
  unfold ofWord
  split <;> rfl

theorem Operand.ofWord_word {op : Opcode} {operand : Located Operand}
    (h : op.Admits (some operand.value)) : ofWord (Operand.word operand) = operand := by
  unfold Operand.word
  obtain ⟨value | label, span⟩ := operand
  · simp [ofWord, Operand.text, h.2]
  · simp [ofWord, Operand.text, h.2.2]

/-- What an opcode takes is what the grammar admits, unless the next word is a number that `DAT`
wants. -/
theorem Opcode.takes_iff {op : Opcode} {operand next : Option (Located String)} :
    op.Takes operand next ↔
      op.Admits ((operand.map Operand.ofWord).map Located.value) ∧
        (op.isDirective = true → operand = none →
          ∀ word ∈ next, Numeral.read word.value = .notANumeral) := by
  have htakes : op.isDirective = true → op.takesOperand = true := takesOperand_of_isDirective
  cases operand with
  | none =>
    cases hdirective : op.isDirective <;> cases h : op.takesOperand <;>
      simp_all [Takes, Admits]
  | some word =>
    cases hread : Numeral.read word.value <;> cases hdirective : op.isDirective <;>
      cases h : op.takesOperand <;> simp_all [Takes, Admits, Operand.ofWord]

namespace Statement

/-! ### One statement -/

theorem writtenAs_iff_clause {s : Statement} {used rest : List Lexeme} :
    s.WrittenAs used rest ↔ used.head?.map Lexeme.layout = some s.layout ∧
      ∃ c : Clause, used.map Lexeme.word = c.words ∧
        c.Complete (rest.head?.map Lexeme.word) ∧ s.SpeltBy c := by
  constructor
  · rintro ⟨hlayout, ⟨mnemonic, hwords, hplace, hop⟩, hlabel, hadmits, hends⟩
    have hoperand : s.operand = (s.operand.map Operand.word).map Operand.ofWord := by
      cases ho : s.operand with
      | none => rfl
      | some o =>
        rw [ho] at hadmits
        exact congrArg some (Operand.ofWord_word hadmits).symm
    refine ⟨hlayout, ⟨s.label, mnemonic, s.operand.map Operand.word⟩, hwords,
      ⟨hlabel, s.opcode.value, hop, Opcode.takes_iff.mpr ⟨hoperand ▸ hadmits, ?_⟩⟩,
      rfl, hop, hplace.symm, hoperand⟩
    intro hdirective hnone word hword
    obtain ⟨w, hw, rfl⟩ := Option.map_eq_some_iff.mp hword
    refine Classical.byContradiction fun hread => hends w hw ⟨hdirective, ?_, hread⟩
    exact Option.map_eq_none_iff.mp hnone
  · rintro ⟨hlayout, c, hwords, ⟨hlabel, op, hop, htakes⟩, hspelt⟩
    obtain rfl : op = s.opcode.value := Option.some.inj (hop.symm.trans hspelt.opcode)
    obtain ⟨hadmits, hnext⟩ := Opcode.takes_iff.mp htakes
    have hoperand : operandWords s.operand = c.operand.toList := by
      rw [operandWords, hspelt.operand, Option.map_map]
      cases c.operand with
      | none => rfl
      | some word => exact congrArg (fun w => [w]) (Operand.word_ofWord word)
    refine ⟨hlayout, ⟨c.mnemonic, ?_, hspelt.place.symm, hop⟩, hspelt.label ▸ hlabel,
      hspelt.operand ▸ hadmits, ?_⟩
    · rw [hwords, spelling, hoperand, hspelt.label]
      rfl
    · rintro w hw ⟨hdirective, hnone, hread⟩
      rw [hspelt.operand, Option.map_eq_none_iff] at hnone
      exact hread (hnext hdirective hnone _ (Option.mem_map_of_mem _ hw))

theorem exists_read_of_complete {c : Clause} {rest : List Lexeme}
    (hc : c.Complete (rest.head?.map Lexeme.word)) (address : Nat) {used : List Lexeme}
    (hused : used.map Lexeme.word = c.words) :
    ∃ first words s, first :: words = used ++ rest ∧
      read address first words = .ok (s, rest) := by
  obtain ⟨first, used, rfl⟩ := List.exists_cons_of_ne_nil (l := used) (by
    rintro rfl
    simp [Clause.words] at hused)
  obtain ⟨op, hop, -⟩ := hc.operand
  let s : Statement :=
    ⟨address, c.label, ⟨op, c.mnemonic.span⟩, c.operand.map Operand.ofWord, first.layout⟩
  have hspelt : s.SpeltBy c := ⟨rfl, hop, rfl, rfl⟩
  exact ⟨first, used ++ rest, s, rfl, read_eq_ok_iff.mpr
    ⟨rfl, _, rfl, writtenAs_iff_clause.mpr ⟨rfl, c, hused, hc, hspelt⟩⟩⟩

/-! ### No statement -/

theorem readOpcode_eq_error_iff {first : Lexeme} {words : List Lexeme} {e : AssemblyError} :
    readOpcode first words = .error e ↔ Opcode.ofWord? first.word.value = none ∧
      ((words = [] ∧ unknownMnemonic first.word none = e) ∨
        ∃ second rest, words = second :: rest ∧ Opcode.ofWord? second.word.value = none ∧
          unknownMnemonic first.word (some second.word) = e) := by
  unfold readOpcode
  cases hfirst : Opcode.ofWord? first.word.value with
  | some op => simp
  | none =>
    cases words with
    | nil => simp
    | cons second rest => cases hsecond : Opcode.ofWord? second.word.value <;> simp [hsecond]

theorem readOperand_eq_error_iff {op : Opcode} {words : List Lexeme} {e : AssemblyError} :
    readOperand op words = .error e ↔ op.takesOperand = true ∧
      ((words = [] ∧ op.isDirective = false ∧ ⟨.missingOperand op, none⟩ = e) ∨
        ∃ w rest, words = w :: rest ∧ Numeral.read w.word.value = .tooLarge ∧
          numberTooLarge w.word = e) := by
  have htakes : op.isDirective = true → op.takesOperand = true := Opcode.takesOperand_of_isDirective
  unfold readOperand
  cases words with
  | nil => cases hdirective : op.isDirective <;> cases h : op.takesOperand <;> simp_all
  | cons w rest =>
    cases hdirective : op.isDirective <;> cases h : op.takesOperand <;>
      cases hread : Numeral.read w.word.value <;> simp_all

theorem read_eq_error_iff {address : Nat} {first : Lexeme} {words : List Lexeme}
    {e : AssemblyError} : read address first words = .error e ↔
      readOpcode first words = .error e ∨ ∃ label opcode rest,
        readOpcode first words = .ok (label, opcode, rest) ∧
          readOperand opcode.value rest = .error e := by
  simp only [read, bind, Except.bind, pure, Except.pure]
  cases hhead : readOpcode first words with
  | error e => simp
  | ok head =>
    obtain ⟨label, opcode, rest⟩ := head
    simp only [reduceCtorEq, Except.ok.injEq, Prod.mk.injEq, false_or]
    constructor
    · intro h
      refine ⟨label, opcode, rest, ⟨rfl, rfl, rfl⟩, ?_⟩
      cases htail : readOperand opcode.value rest with
      | error e' => rw [htail] at h; cases h; rfl
      | ok tail => rw [htail] at h; cases h
    · rintro ⟨_, _, _, ⟨rfl, rfl, rfl⟩, htail⟩
      rw [htail]

/-- **No statement is read exactly where no clause begins**, and the error says why. -/
theorem read_eq_error_iff_stuck {address : Nat} {first : Lexeme} {words : List Lexeme}
    {e : AssemblyError} :
    read address first words = .error e ↔ Stuck ((first :: words).map Lexeme.word) e := by
  rw [read_eq_error_iff]
  constructor
  · rintro (hhead | ⟨label, opcode, rest, hhead, htail⟩)
    · obtain ⟨hfirst, ⟨rfl, rfl⟩ | ⟨second, rest, rfl, hsecond, rfl⟩⟩ :=
        readOpcode_eq_error_iff.mp hhead
      · exact .lastWord hfirst
      · exact .twoWords hfirst hsecond
    · obtain ⟨used, mnemonic, hused, hwords, -, hop, hlabel⟩ := readOpcode_eq_ok_iff.mp hhead
      rw [hused, List.map_append, hwords]
      obtain ⟨htakes, ⟨rfl, hdirective, rfl⟩ | ⟨w, rest, rfl, hread, rfl⟩⟩ :=
        readOperand_eq_error_iff.mp htail
      · rw [List.map_nil, List.append_nil]
        exact .missing hlabel hop htakes hdirective
      · rw [List.append_assoc]
        exact .tooLarge hlabel hop htakes hread
  · intro h
    generalize hws : (first :: words).map Lexeme.word = ws at h
    cases h with
    | lastWord hfirst =>
      obtain ⟨rfl, hnil⟩ := List.cons.inj hws
      obtain rfl := List.map_eq_nil_iff.mp hnil
      exact .inl (readOpcode_eq_error_iff.mpr ⟨hfirst, .inl ⟨rfl, rfl⟩⟩)
    | twoWords hfirst hsecond =>
      obtain ⟨rfl, hcons⟩ := List.cons.inj hws
      obtain ⟨second, rest, rfl, rfl, -⟩ := List.map_eq_cons_iff.mp hcons
      exact .inl (readOpcode_eq_error_iff.mpr ⟨hfirst, .inr ⟨second, rest, rfl, hsecond, rfl⟩⟩)
    | @tooLarge label mnemonic word op rest hlabel hop htakes hread =>
      rw [List.append_cons] at hws
      obtain ⟨used, tail, hsplit, hused, htail⟩ := List.map_eq_append_iff.mp hws
      obtain ⟨w, tail, rfl, rfl, -⟩ := List.map_eq_cons_iff.mp htail
      exact .inr ⟨label, ⟨op, mnemonic.span⟩, w :: tail,
        readOpcode_eq_ok_iff.mpr ⟨used, mnemonic, hsplit, hused, rfl, hop, hlabel⟩,
        readOperand_eq_error_iff.mpr ⟨htakes, .inr ⟨w, tail, rfl, hread, rfl⟩⟩⟩
    | @missing label mnemonic op hlabel hop htakes hdirective =>
      exact .inr ⟨label, ⟨op, mnemonic.span⟩, [],
        readOpcode_eq_ok_iff.mpr
          ⟨first :: words, mnemonic, (List.append_nil _).symm, hws, rfl, hop, hlabel⟩,
        readOperand_eq_error_iff.mpr ⟨htakes, .inl ⟨rfl, hdirective, rfl⟩⟩⟩

end Statement

namespace Listing

/-! ### Rows of clauses -/

theorem WrittenAs.exists_row {n : Nat} {ss : List Statement} {words : List Lexeme}
    (h : WrittenAs n ss words) :
    ∃ cs, Clause.Row (words.map Lexeme.word) cs [] ∧ List.Forall₂ Statement.SpeltBy ss cs := by
  induction h with
  | nil => exact ⟨[], ⟨trivial, rfl⟩, .nil⟩
  | @cons address s ss used rest _ hs _ ih =>
    obtain ⟨cs, ⟨hcs, hrest⟩, hspelt⟩ := ih
    obtain ⟨-, c, hused, hc, hsc⟩ := Statement.writtenAs_iff_clause.mp hs
    -- the word behind the clause is the first one of the others
    rw [← List.head?_map, hrest] at hc
    refine ⟨c :: cs, ⟨⟨hc, hcs⟩, ?_⟩, .cons hsc hspelt⟩
    rw [List.map_append, hused, hrest, List.flatMap_cons, List.append_assoc]

/-- **Complete clauses are read as statements**, and reading goes on behind them. -/
theorem readStatements_row {cs : List Clause} {rest : List (Located String)} (n : Nat)
    {words : List Lexeme} (h : Clause.Row (words.map Lexeme.word) cs rest) :
    ∃ ss tail, tail.map Lexeme.word = rest ∧
      readStatements n words = (readStatements (n + cs.length) tail).map (ss ++ ·) := by
  obtain ⟨hcs, hwords⟩ := h
  induction cs generalizing n words with
  | nil => exact ⟨[], words, hwords, by cases readStatements n words <;> rfl⟩
  | cons c cs ih =>
    rw [List.flatMap_cons, List.append_assoc] at hwords
    obtain ⟨used, behind, rfl, hused, hbehind⟩ := List.map_eq_append_iff.mp hwords
    obtain ⟨hc, hcs⟩ := hcs
    rw [← hbehind, List.head?_map] at hc
    obtain ⟨first, words, s, hfirst, hread⟩ := Statement.exists_read_of_complete hc n hused
    obtain ⟨ss, tail, htail, hss⟩ := ih (n + 1) hcs hbehind
    refine ⟨s :: ss, tail, htail, ?_⟩
    have hcount : n + 1 + cs.length = n + (c :: cs).length := by
      rw [List.length_cons]
      omega
    rw [← hfirst, readStatements_cons, hread]
    simp only [Except.bind, hss, hcount]
    cases readStatements (n + (c :: cs).length) tail <;> rfl

/-- **Reading stops behind complete clauses**, where no other one begins. -/
theorem readStatements_eq_error_iff {n : Nat} {words : List Lexeme} {e : AssemblyError} :
    readStatements n words = .error e ↔
      ∃ cs rest, Clause.Row (words.map Lexeme.word) cs rest ∧ Stuck rest e := by
  constructor
  · intro h
    induction n, words using readStatements.induct with
    | case1 n => rw [readStatements_nil] at h; cases h
    | case2 n first words e' he =>
      rw [readStatements_cons, he] at h
      cases h
      exact ⟨[], _, ⟨trivial, rfl⟩, Statement.read_eq_error_iff_stuck.mp he⟩
    | case3 n first words s rest hs e' he ih =>
      simp only [readStatements_cons, hs, Except.bind, he] at h
      cases h
      obtain ⟨cs, stuck, ⟨hcs, hrest⟩, hstuck⟩ := ih he
      obtain ⟨-, used, hused, hwritten⟩ := Statement.read_eq_ok_iff.mp hs
      obtain ⟨-, c, hc, hcomplete, -⟩ := Statement.writtenAs_iff_clause.mp hwritten
      rw [← List.head?_map, hrest] at hcomplete
      refine ⟨c :: cs, stuck, ⟨⟨hcomplete, hcs⟩, ?_⟩, hstuck⟩
      rw [hused, List.map_append, hc, hrest, List.flatMap_cons, List.append_assoc]
    | case4 n first words s rest hs ss hss ih =>
      simp only [readStatements_cons, hs, Except.bind, hss] at h
      cases h
  · rintro ⟨cs, rest, hrow, hstuck⟩
    obtain ⟨ss, tail, rfl, hread⟩ := readStatements_row n hrow
    cases tail with
    | nil =>
      -- no words are not stuck
      generalize hnil : List.map Lexeme.word [] = ws at hstuck
      cases hstuck <;> simp at hnil
    | cons first tail =>
      rw [hread, readStatements_cons, Statement.read_eq_error_iff_stuck.mpr hstuck]
      rfl

end Listing

/-! ### One row at most -/

theorem Opcode.Takes.ne_none {op : Opcode} {word : Located String}
    {next : Option (Located String)} (h : op.Takes (some word) next) :
    ¬ op.Takes none (some word) := by
  intro hnone
  unfold Opcode.Takes at h hnone
  cases hdirective : op.isDirective with
  | true =>
    rw [if_pos hdirective] at h hnone
    obtain ⟨value, hvalue⟩ := h
    have hnot : Numeral.read word.value = .notANumeral := hnone word rfl
    rw [hvalue] at hnot
    cases hnot
  | false => cases htakes : op.takesOperand <;> simp [hdirective, htakes] at h hnone

theorem Opcode.Takes.unique {op : Opcode} {operand operand' : Option (Located String)}
    {rest rest' : List (Located String)} (htakes : op.Takes operand rest.head?)
    (htakes' : op.Takes operand' rest'.head?)
    (h : operand.toList ++ rest = operand'.toList ++ rest') : operand = operand' := by
  cases operand with
  | none =>
    cases operand' with
    | none => rfl
    | some word' =>
      obtain rfl : rest = word' :: rest' := h
      exact absurd htakes htakes'.ne_none
  | some word =>
    cases operand' with
    | none =>
      obtain rfl : word :: rest = rest' := h
      exact absurd htakes' htakes.ne_none
    | some word' => exact congrArg some (List.cons.inj h).1

namespace Clause

/-- A complete clause ends where the grammar says so. -/
theorem Complete.unique {c c' : Clause} {rest rest' : List (Located String)}
    (hc : c.Complete rest.head?) (hc' : c'.Complete rest'.head?)
    (h : c.words ++ rest = c'.words ++ rest') : c = c' := by
  obtain ⟨label, mnemonic, operand⟩ := c
  obtain ⟨label', mnemonic', operand'⟩ := c'
  obtain ⟨hlabel, op, hop, htakes⟩ := hc
  obtain ⟨hlabel', op', hop', htakes'⟩ := hc'
  have hnone {word : Located String} {op : Opcode} (hmnemonic : Opcode.ofWord? word.value = some op)
      (hlabel : Opcode.ofWord? word.value = none) : False := by
    rw [hmnemonic] at hlabel
    cases hlabel
  -- the first word is a mnemonic or not, so both have a label or none has
  obtain ⟨rfl, rfl, hbehind⟩ : label = label' ∧ mnemonic = mnemonic' ∧
      operand.toList ++ rest = operand'.toList ++ rest' := by
    cases label <;> cases label' <;>
      simp only [words, Option.toList_none, Option.toList_some, List.nil_append, List.cons_append,
        List.cons.injEq] at h
    · exact ⟨rfl, h⟩
    · exact (hnone hop (h.1 ▸ hlabel' _ rfl)).elim
    · exact (hnone hop' (h.1 ▸ hlabel _ rfl)).elim
    · exact ⟨congrArg some h.1, h.2⟩
  obtain rfl : op = op' := Option.some.inj (hop.symm.trans hop')
  exact congrArg _ (htakes.unique htakes' hbehind)

/-- **There is one way at most to cut words into clauses.** -/
theorem Row.unique {ws : List (Located String)} {cs cs' : List Clause} (h : Row ws cs [])
    (h' : Row ws cs' []) : cs = cs' := by
  obtain ⟨hcs, hws⟩ := h
  obtain ⟨hcs', hws'⟩ := h'
  have hwords (c : Clause) : c.words ≠ [] := by simp [Clause.words]
  induction cs generalizing ws cs' with
  | nil =>
    cases cs' with
    | nil => rfl
    | cons c' cs' => exact absurd (hws.symm.trans hws') (by simp [hwords])
  | cons c cs ih =>
    cases cs' with
    | nil => exact absurd (hws'.symm.trans hws) (by simp [hwords])
    | cons c' cs' =>
      obtain ⟨hc, hcs⟩ := hcs
      obtain ⟨hc', hcs'⟩ := hcs'
      have heq := hws.symm.trans hws'
      rw [List.flatMap_cons, List.flatMap_cons, List.append_assoc, List.append_assoc] at heq
      obtain rfl := hc.unique hc' heq
      rw [ih hcs rfl hcs' (List.append_cancel_left heq)]

end Clause

/-! ### Sources -/

namespace Listing

theorem words_ofTokens (source : String) :
    (Lexeme.ofTokens (Token.ofSource source)).1.map Lexeme.word =
      Token.words 0 source.toList := Lexeme.word_gather "" _

theorem exists_row_of_parse {source : String} {l : Listing} (h : parse source = .ok l) :
    ∃ cs, Clause.Row (Token.words 0 source.toList) cs [] ∧
      List.Forall₂ Statement.SpeltBy l.statements cs := by
  rw [← words_ofTokens]
  exact (writtenAs_of_parse h).1.exists_row

/-- A source whose words are complete clauses is read as the statements that they spell. -/
theorem exists_parse_of_row {source : String} {cs : List Clause}
    (h : Clause.Row (Token.words 0 source.toList) cs []) :
    ∃ l, parse source = .ok l ∧ List.Forall₂ Statement.SpeltBy l.statements cs := by
  obtain ⟨ss, tail, htail, hread⟩ := readStatements_row 0 (words_ofTokens source ▸ h)
  obtain rfl := List.map_eq_nil_iff.mp htail
  rw [readStatements_nil] at hread
  have hparse : parse source = .ok ⟨ss ++ [], (Lexeme.ofTokens (Token.ofSource source)).2⟩ := by
    rw [parse_eq, hread]
    rfl
  obtain ⟨cs', hrow, hspelt⟩ := exists_row_of_parse hparse
  obtain rfl := h.unique hrow
  exact ⟨_, hparse, hspelt⟩

/-- A source is refused exactly if its words are complete clauses and then no clause. -/
theorem parse_eq_error_iff {source : String} {e : AssemblyError} : parse source = .error e ↔
    ∃ cs rest, Clause.Row (Token.words 0 source.toList) cs rest ∧ Stuck rest e := by
  have hread : parse source = .error e ↔
      readStatements 0 (Lexeme.ofTokens (Token.ofSource source)).1 = .error e := by
    rw [parse_eq]
    cases readStatements 0 (Lexeme.ofTokens (Token.ofSource source)).1 <;> simp [Except.map]
  rw [hread, readStatements_eq_error_iff, words_ofTokens]

/-- **What is read, and how reading fails.** A source is read exactly if its words are a row of
complete clauses. There is one such row at most; its clauses spell the statements, which stand at
the addresses that count them. Reading fails with an error exactly if the words are complete clauses
and then words that begin no clause, for the reason that the error gives. -/
theorem parse_clauses (source : String) :
    ((∃ l, parse source = .ok l) ↔ ∃ cs, Clause.Row (Token.words 0 source.toList) cs []) ∧
    (∀ cs cs', Clause.Row (Token.words 0 source.toList) cs [] →
      Clause.Row (Token.words 0 source.toList) cs' [] → cs = cs') ∧
    (∀ l, parse source = .ok l → l.statements.map Statement.address = List.range l.size ∧
      ∃ cs, Clause.Row (Token.words 0 source.toList) cs [] ∧
        List.Forall₂ Statement.SpeltBy l.statements cs) ∧
    ∀ e, parse source = .error e ↔
      ∃ cs rest, Clause.Row (Token.words 0 source.toList) cs rest ∧ Stuck rest e := by
  refine ⟨⟨?_, ?_⟩, fun cs cs' h h' => h.unique h',
    fun l hl => ⟨address_of_parse hl, exists_row_of_parse hl⟩, fun e => parse_eq_error_iff⟩
  · rintro ⟨l, hl⟩
    obtain ⟨cs, hrow, -⟩ := exists_row_of_parse hl
    exact ⟨cs, hrow⟩
  · rintro ⟨cs, hrow⟩
    obtain ⟨l, hl, -⟩ := exists_parse_of_row hrow
    exact ⟨l, hl⟩

end Listing

end LittleMan
