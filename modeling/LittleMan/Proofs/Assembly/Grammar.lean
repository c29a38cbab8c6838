import LittleMan.Assembly.Listing

/-!
# The grammar of listings

What it is for a statement to be written as a sequence of words, said without the functions that
read it: `Statement.WrittenAs` for one statement, `Listing.WrittenAs` for a list of them. The reader
finds exactly that (`Statement.read_eq_ok_iff`, `Listing.readStatements_eq_ok_iff`), so that later
proofs need not look into it.
-/

namespace LittleMan

/-! ### The words of a source -/

/-- The word of a token, if it is one, and its place. -/
def Token.word? (t : Located Token) : Option (Located String) :=
  match t.value with
  | .word text => some ⟨text, t.span⟩
  | _ => none

theorem Token.word?_eq_some_iff {t : Located Token} {w : Located String} :
    word? t = some w ↔ t = ⟨.word w.value, w.span⟩ := by
  constructor
  · intro h
    obtain ⟨token, span⟩ := t
    cases token with
    | newline => cases h
    | comment text => cases h
    | word text =>
      obtain rfl := Option.some.inj h
      rfl
  · rintro rfl
    rfl

/-- The words of the characters, which stand in the source from byte `offset` on. -/
def Token.words (offset : Nat) (cs : List Char) : List (Located String) :=
  (scan offset cs).filterMap word?

theorem Lexeme.word_gather (layout : String) (tokens : List (Located Token)) :
    (gather layout tokens).1.map Lexeme.word = tokens.filterMap Token.word? := by
  induction tokens generalizing layout with
  | nil => rfl
  | cons t tokens ih =>
    obtain ⟨_ | text | text, span⟩ := t
    · exact ih _
    · exact ih _
    · simp only [gather, List.map_cons, List.filterMap_cons, Token.word?, ih]

/-! ### What a statement is -/

/-- Whether the opcode can have that operand, or none. -/
def Opcode.Admits (op : Opcode) : Option Operand → Prop
  | none => op.takesOperand = false ∨ op.isDirective = true
  | some (.number value text) => op.takesOperand = true ∧ Numeral.read text = .number value
  | some (.reference label) =>
    op.takesOperand = true ∧ op.isDirective = false ∧ Numeral.read label = .notANumeral

theorem Opcode.takesOperand_of_isDirective {op : Opcode} (h : op.isDirective = true) :
    op.takesOperand = true := by
  cases op <;> first | rfl | cases h

namespace Statement

/-- The words of an operand. -/
def operandWords (operand : Option (Located Operand)) : List (Located String) :=
  (operand.map fun o => ⟨o.value.text, o.span⟩).toList

/-- The words of a statement whose mnemonic is written as `mnemonic`. -/
def spelling (s : Statement) (mnemonic : Located String) : List (Located String) :=
  s.label.toList ++ mnemonic :: operandWords s.operand

/-- Whether the statement could take the word as an operand that it does not have: `DAT` without a
number takes the next word if it is written like one. -/
def Wants (s : Statement) (word : String) : Prop :=
  s.opcode.value.isDirective = true ∧ s.operand = none ∧ Numeral.read word ≠ .notANumeral

/-- The statement is written as `used`, with `rest` behind it. -/
structure WrittenAs (s : Statement) (used rest : List Lexeme) : Prop where
  /-- The layout is that of the first word. -/
  layout : used.head?.map Lexeme.layout = some s.layout
  /-- The words are label, mnemonic and operand. -/
  words : ∃ mnemonic, used.map Lexeme.word = s.spelling mnemonic ∧
    mnemonic.span = s.opcode.span ∧ Opcode.ofWord? mnemonic.value = some s.opcode.value
  /-- A label is no mnemonic. -/
  label : ∀ l ∈ s.label, Opcode.ofWord? l.value = none
  /-- The operand is one of the opcode. -/
  operand : s.opcode.value.Admits (s.operand.map Located.value)
  /-- The next word does not belong to the statement. -/
  ends : ∀ w ∈ rest.head?, ¬ s.Wants w.word.value

/-! ### One statement -/

theorem readOpcode_eq_ok_iff {first : Lexeme} {words rest : List Lexeme}
    {label : Option (Located String)} {opcode : Located Opcode} :
    readOpcode first words = .ok (label, opcode, rest) ↔
      ∃ used mnemonic, first :: words = used ++ rest ∧
        used.map Lexeme.word = label.toList ++ [mnemonic] ∧ mnemonic.span = opcode.span ∧
        Opcode.ofWord? mnemonic.value = some opcode.value ∧
        ∀ l ∈ label, Opcode.ofWord? l.value = none := by
  constructor
  · intro h
    unfold readOpcode at h
    split at h
    · rename_i op hop
      cases h
      exact ⟨[first], first.word, rfl, rfl, rfl, hop, by simp⟩
    · rename_i hnone
      split at h
      · cases h
      · rename_i second rest'
        split at h
        · rename_i op hop
          cases h
          exact ⟨[first, second], second.word, rfl, rfl, rfl, hop, by simp [hnone]⟩
        · cases h
  · rintro ⟨used, mnemonic, hused, hwords, hspan, hop, hlabel⟩
    cases label with
    | none =>
      obtain ⟨x, rfl, hx⟩ := List.map_eq_singleton_iff.mp hwords
      obtain ⟨rfl, rfl⟩ := List.cons.inj hused
      subst hx
      simp [readOpcode, hop, hspan]
    | some l =>
      obtain ⟨x, xs, rfl, hx, hxs⟩ := List.map_eq_cons_iff.mp hwords
      obtain ⟨y, rfl, hy⟩ := List.map_eq_singleton_iff.mp hxs
      obtain ⟨rfl, rfl⟩ := List.cons.inj hused
      subst hx hy
      simp [readOpcode, hop, hspan, hlabel _ rfl]

theorem readOperand_eq_ok_iff {op : Opcode} {words rest : List Lexeme}
    {operand : Option (Located Operand)} :
    readOperand op words = .ok (operand, rest) ↔
      ∃ used, words = used ++ rest ∧ used.map Lexeme.word = operandWords operand ∧
        op.Admits (operand.map Located.value) ∧
        ∀ w ∈ rest.head?, op.isDirective = true → operand = none →
          Numeral.read w.word.value = .notANumeral := by
  constructor
  · intro h
    unfold readOperand at h
    split at h
    · rename_i hdir
      have htakes := Opcode.takesOperand_of_isDirective hdir
      split at h
      · cases h
        exact ⟨[], rfl, rfl, .inr hdir, by simp⟩
      · rename_i layout word rest'
        split at h
        · rename_i value hvalue
          cases h
          exact ⟨[⟨layout, word⟩], rfl, rfl, ⟨htakes, hvalue⟩, by simp [numberOperand]⟩
        · cases h
        · rename_i hnot
          cases h
          exact ⟨[], rfl, rfl, .inr hdir, by simp [hnot]⟩
    · rename_i hdir
      rw [Bool.not_eq_true] at hdir
      split at h
      · rename_i htakes
        split at h
        · cases h
        · rename_i layout word rest'
          split at h
          · rename_i value hvalue
            cases h
            exact ⟨[⟨layout, word⟩], rfl, rfl, ⟨htakes, hvalue⟩, by simp [hdir]⟩
          · cases h
          · rename_i hnot
            cases h
            exact ⟨[⟨layout, word⟩], rfl, rfl, ⟨htakes, hdir, hnot⟩, by simp [hdir]⟩
      · rename_i htakes
        rw [Bool.not_eq_true] at htakes
        cases h
        exact ⟨[], rfl, rfl, .inl htakes, by simp [hdir]⟩
  · rintro ⟨used, rfl, hwords, hadmits, hends⟩
    cases operand with
    | none =>
      obtain rfl := List.map_eq_nil_iff.mp hwords
      unfold readOperand
      cases hdir : op.isDirective with
      | true =>
        cases rest with
        | nil => rfl
        | cons w rest => simp [hends w rfl hdir rfl]
      | false =>
        have htakes : op.takesOperand = false := by simpa [Opcode.Admits, hdir] using hadmits
        simp [htakes]
    | some o =>
      obtain ⟨x, rfl, hx⟩ := List.map_eq_singleton_iff.mp hwords
      obtain ⟨layout, word⟩ := x
      subst hx
      obtain ⟨value | label, span⟩ := o
      · obtain ⟨htakes, hread⟩ := hadmits
        cases hdir : op.isDirective <;>
          simp [readOperand, hdir, htakes, hread, numberOperand, Operand.text]
      · obtain ⟨htakes, hdir, hread⟩ := hadmits
        simp [readOperand, hdir, htakes, hread, Operand.text]

/-- **The reader of a statement finds what is written**: the statement is read off the words exactly
if they begin with what it is written as. -/
theorem read_eq_ok_iff {address : Nat} {first : Lexeme} {words rest : List Lexeme} {s : Statement} :
    read address first words = .ok (s, rest) ↔
      s.address = address ∧ ∃ used, first :: words = used ++ rest ∧ s.WrittenAs used rest := by
  constructor
  · intro h
    simp only [read, bind, Except.bind, pure, Except.pure] at h
    split at h
    · cases h
    · rename_i head hhead
      obtain ⟨label, opcode, middle⟩ := head
      split at h
      · cases h
      · rename_i tail htail
        obtain ⟨operand, rest'⟩ := tail
        cases h
        obtain ⟨u, mnemonic, hu, hwords, hspan, hop, hlabel⟩ := readOpcode_eq_ok_iff.mp hhead
        obtain ⟨v, rfl, hoperand, hadmits, hends⟩ := readOperand_eq_ok_iff.mp htail
        refine ⟨rfl, u ++ v, by rw [List.append_assoc, hu], ?_, ⟨mnemonic, ?_, hspan, hop⟩, hlabel,
          hadmits, fun w hw hwants => hwants.2.2 (hends w hw hwants.1 hwants.2.1)⟩
        · have hne : u ≠ [] := by rintro rfl; simp at hwords
          obtain ⟨x, u, rfl⟩ := List.exists_cons_of_ne_nil hne
          rw [← (List.cons.inj hu).1]
          rfl
        · rw [List.map_append, hwords, hoperand, spelling, List.append_assoc]
          rfl
  · rintro ⟨haddress, used, hused, hlayout, ⟨mnemonic, hwords, hspan, hop⟩, hlabel, hadmits, hends⟩
    obtain ⟨u, v, rfl, hu, hv⟩ : ∃ u v, used = u ++ v ∧
        u.map Lexeme.word = s.label.toList ++ [mnemonic] ∧
        v.map Lexeme.word = operandWords s.operand := by
      rw [spelling, List.append_cons] at hwords
      obtain ⟨u, v, rfl, hu, hv⟩ := List.map_eq_append_iff.mp hwords
      exact ⟨u, v, rfl, hu, hv⟩
    have hhead : readOpcode first words = .ok (s.label, s.opcode, v ++ rest) :=
      readOpcode_eq_ok_iff.mpr
        ⟨u, mnemonic, by rw [hused, List.append_assoc], hu, hspan, hop, hlabel⟩
    have htail : readOperand s.opcode.value (v ++ rest) = .ok (s.operand, rest) :=
      readOperand_eq_ok_iff.mpr ⟨v, rfl, hv, hadmits, fun w hw hdir hnone =>
        Classical.byContradiction fun hread => hends w hw ⟨hdir, hnone, hread⟩⟩
    have hfirst : first.layout = s.layout := by
      have hne : u ≠ [] := by rintro rfl; simp at hu
      obtain ⟨x, u, rfl⟩ := List.exists_cons_of_ne_nil hne
      rw [(List.cons.inj hused).1]
      simpa using hlayout
    simp only [read, hhead, htail, bind, Except.bind, pure, Except.pure, hfirst, ← haddress]

end Statement

/-! ### Lists of statements -/

/-- The statements, the first of them at `address`, are written as the words. -/
inductive Listing.WrittenAs : Nat → List Statement → List Lexeme → Prop where
  /-- No statement is no word. -/
  | nil {address : Nat} : WrittenAs address [] []
  /-- A statement is written in front of the others. -/
  | cons {address : Nat} {s : Statement} {ss : List Statement} {used rest : List Lexeme} :
    s.address = address → s.WrittenAs used rest → WrittenAs (address + 1) ss rest →
      WrittenAs address (s :: ss) (used ++ rest)

/-- **The reader of statements finds what is written**, and nothing but statements. -/
theorem Listing.readStatements_eq_ok_iff {address : Nat} {words : List Lexeme}
    {ss : List Statement} : readStatements address words = .ok ss ↔ WrittenAs address ss words := by
  constructor
  · intro h
    induction address, words using readStatements.induct generalizing ss with
    | case1 address =>
      rw [readStatements_nil] at h
      cases h
      exact .nil
    | case2 address first words e he => rw [readStatements_cons, he] at h; cases h
    | case3 address first words statement rest hs e he ih =>
      simp only [readStatements_cons, hs, Except.bind, he] at h
      cases h
    | case4 address first words statement rest hs statements hss ih =>
      simp only [readStatements_cons, hs, Except.bind, hss] at h
      cases h
      obtain ⟨haddress, used, hused, hwritten⟩ := Statement.read_eq_ok_iff.mp hs
      exact hused ▸ .cons haddress hwritten (ih hss)
  · intro h
    induction h with
    | nil => exact readStatements_nil _
    | @cons address s ss used rest haddress hwritten _ ih =>
      have hne : used ≠ [] := by rintro rfl; simpa using hwritten.layout
      obtain ⟨first, used, rfl⟩ := List.exists_cons_of_ne_nil hne
      have hread : Statement.read address first (used ++ rest) = .ok (s, rest) :=
        Statement.read_eq_ok_iff.mpr ⟨haddress, first :: used, rfl, hwritten⟩
      rw [List.cons_append, readStatements_cons, hread]
      simp only [Except.bind, ih]
      rfl

theorem Listing.writtenAs_of_parse {source : String} {l : Listing} (h : parse source = .ok l) :
    WrittenAs 0 l.statements (Lexeme.ofTokens (Token.ofSource source)).1 ∧
      l.trailing = (Lexeme.ofTokens (Token.ofSource source)).2 := by
  rw [parse_eq] at h
  cases hss : readStatements 0 (Lexeme.ofTokens (Token.ofSource source)).1 with
  | error e => rw [hss] at h; cases h
  | ok ss =>
    rw [hss] at h
    cases h
    exact ⟨readStatements_eq_ok_iff.mp hss, rfl⟩

theorem Listing.WrittenAs.address {n : Nat} {ss : List Statement} {words : List Lexeme}
    (h : WrittenAs n ss words) : ss.map Statement.address = List.range' n ss.length := by
  induction h with
  | nil => rfl
  | cons haddress _ _ ih => rw [List.map_cons, ih, haddress, List.length_cons, List.range'_succ]

/-- In a parsed listing the addresses count the statements. -/
theorem Listing.address_of_parse {source : String} {l : Listing} (h : parse source = .ok l) :
    l.statements.map Statement.address = List.range l.size := by
  rw [(writtenAs_of_parse h).1.address, List.range_eq_range']
  rfl

/-- What is read is grammatical. -/
theorem Listing.WrittenAs.admits {n : Nat} {ss : List Statement} {words : List Lexeme}
    (h : WrittenAs n ss words) : ∀ s ∈ ss, s.opcode.value.Admits (s.operand.map Located.value) := by
  induction h with
  | nil => simp
  | cons _ hwritten _ ih => exact List.forall_mem_cons.mpr ⟨hwritten.operand, ih⟩

end LittleMan
