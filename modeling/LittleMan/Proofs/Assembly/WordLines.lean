import LittleMan.Proofs.Assembly.PlainLines

/-!
# Words written as lines

Two ways of writing words down, one on each line: as the instructions that they are, or as data.
Both are lines without labels, with a number in decimal behind the mnemonic.

Instructions are assembled to the words that they were decoded from
(`Program.assemble_instructionLines`). Data are assembled to the words that they show, with one
exception: the least of all words cannot be written, because a numeral is read as a sign and a
magnitude, and its magnitude is no word (`Program.assemble_dataLines`).
-/

namespace LittleMan

/-! ### Numbers -/

theorem Token.isWordChar_of_isDigit {c : Char} (h : c.isDigit = true) :
    isWordChar c = true ∧ c ≠ '/' := by
  have hdigit : 48 ≤ c.toNat ∧ c.toNat ≤ 57 := by
    simpa [Char.isDigit, UInt32.le_iff_toNat_le] using h
  constructor
  · have hblank : ' '.toNat = 32 := rfl
    have hlt : ' '.toNat < c.toNat := by omega
    exact decide_eq_true hlt
  · rintro rfl
    exact absurd h (by decide)

theorem Decimal.isWord_zeroFilled (width : Nat) (n : Int) :
    Token.IsWord (zeroFilled width n).toList := by
  obtain ⟨cs, htext, hne, hdigits, -⟩ := exists_digits_zeroFilled width n
  have hchars : ∀ c ∈ (zeroFilled width n).toList, Token.isWordChar c = true ∧ c ≠ '/' := by
    rw [htext]
    refine List.forall_mem_append.mpr ⟨?_, fun c hc => Token.isWordChar_of_isDigit (hdigits c hc)⟩
    split
    · exact List.forall_mem_singleton.mpr (by decide)
    · exact nofun
  refine ⟨?_, fun c hc => (hchars c hc).1, ?_⟩
  · rw [htext]
    exact List.append_ne_nil_of_right_ne_nil _ hne
  · rw [Bool.eq_false_iff, Ne, List.isPrefixOf_iff_prefix]
    intro hslashes
    exact (hchars '/' (hslashes.subset List.mem_cons_self)).2 rfl

/-! ### Instructions -/

/-- The line of an instruction. -/
def Instruction.line (ins : Instruction) : PlainLine where
  opcode := ins.opcode
  numeral := ins.address?.map fun a => Decimal.zeroFilled 2 a
  isWord := by
    intro numeral hnumeral
    obtain ⟨a, -, rfl⟩ := Option.map_eq_some_iff.mp hnumeral
    exact Decimal.isWord_zeroFilled 2 a

theorem Instruction.numeral_line (ins : Instruction) :
    ins.line.numeral = ins.address?.map fun a => Decimal.zeroFilled 2 a := rfl

theorem Instruction.text_line (ins : Instruction) : ins.line.text = ins.text := by
  rw [PlainLine.text, numeral_line, text]
  cases ins.address? with
  | none => exact String.append_empty
  | some a => exact String.append_assoc.symm

theorem Instruction.standsFor_line {word : Word} {ins : Instruction} (h : decode word = .ok ins) :
    ins.line.StandsFor word := by
  obtain ⟨hword, hmailbox⟩ := toInt_of_decode h
  have htakes : ins.opcode.takesOperand = ins.address?.isSome := by cases ins <;> rfl
  have hnumeral := ins.numeral_line
  cases haddress : ins.address? with
  | none =>
    rw [haddress] at hword htakes hnumeral
    have hcode : word = ins.opcode.code := Int32.toInt_inj.mp (hword.trans (Int.add_zero _))
    exact (PlainLine.standsFor_of_none hnumeral word).mpr ⟨htakes, hcode⟩
  | some a =>
    rw [haddress] at hword htakes hnumeral
    have ha : a < 100 := hmailbox a haddress
    have hsmall : (a : Int).natAbs ≤ Word.greatest := by
      unfold Word.greatest
      omega
    refine (PlainLine.standsFor_of_some hnumeral word).mpr ⟨htakes, Int32.ofInt a, ?_, ?_⟩
    · rw [Numeral.read_zeroFilled, if_pos hsmall]
    · rw [hword, Int32.toInt_ofInt_of_le (by omega) (by omega)]
      rfl

/-- **Assembling undoes disassembling.** Let some words be decoded. The text of the instructions,
one on each line, is assembled to exactly these words, whether labels have to be unique or not; no
label comes of it, and no word is to be moved. There may be blanks and line breaks behind the last
line. -/
theorem Program.assemble_instructionLines {words : List Word} {instructions : List Instruction}
    (h : List.Forall₂ (fun word ins => Instruction.decode word = .ok ins) words instructions)
    {ending : String} (hending : ∀ c ∈ ending.toList, Token.isWordChar c = false)
    (policy : LabelPolicy) :
    ∃ p, assemble (Source.ofLines (instructions.map Instruction.text) ending) policy = .ok p ∧
      p.words.toList = words ∧ p.labels = ∅ ∧ p.relocations = [] := by
  have hlines : List.Forall₂ PlainLine.StandsFor (instructions.map Instruction.line) words := by
    rw [List.forall₂_map_left_iff]
    exact (h.imp fun _ _ hdecode => Instruction.standsFor_line hdecode).flip
  have htexts : (instructions.map Instruction.line).map PlainLine.text =
      instructions.map Instruction.text := by
    rw [List.map_map]
    exact List.map_congr_left fun ins _ => ins.text_line
  rw [← htexts]
  exact assemble_plainLines hlines hending policy

/-- The operands `99` and `05` are read back as addresses, and `HLT` takes nothing of the line
behind it. -/
theorem Program.assemble_instructionLines_of_five :
    let words : List Word := [901, 399, 0, 205, 922]
    let instructions : List Instruction := [.inp, .sta 99, .hlt, .sub 5, .otc]
    List.Forall₂ (fun word ins => Instruction.decode word = .ok ins) words instructions ∧
      (∀ c ∈ "\n".toList, Token.isWordChar c = false) ∧
      Source.ofLines (instructions.map Instruction.text) "\n" =
        "INP\nSTA 99\nHLT\nSUB 05\nOTC\n" ∧
      ∃ p, assemble "INP\nSTA 99\nHLT\nSUB 05\nOTC\n" .unique = .ok p ∧ p.words.toList = words ∧
        p.labels = ∅ ∧ p.relocations = [] := by
  intro words instructions
  have hdecode : List.Forall₂ (fun word ins => Instruction.decode word = .ok ins) words
      instructions :=
    .cons (by decide) (.cons (by decide) (.cons (by decide) (.cons (by decide)
      (.cons (by decide) .nil))))
  have hending : ∀ c ∈ "\n".toList, Token.isWordChar c = false := List.forall_mem_singleton.mpr rfl
  have htext : Source.ofLines (instructions.map Instruction.text) "\n" =
      "INP\nSTA 99\nHLT\nSUB 05\nOTC\n" := by decide +kernel
  exact ⟨hdecode, hending, htext, htext ▸ assemble_instructionLines hdecode hending .unique⟩

/-! ### Data -/

/-- The word as data, on a line of its own. -/
def Word.dataLine (word : Word) : String :=
  Opcode.dat.mnemonic ++ " " ++ Decimal.ofInt word.toInt

namespace PlainLine

/-- The line of a word as data. -/
def ofWord (word : Word) : PlainLine where
  opcode := .dat
  numeral := some (Decimal.ofInt word.toInt)
  isWord := by
    intro numeral hnumeral
    obtain rfl := Option.some.inj hnumeral
    rw [← Decimal.zeroFilled_zero]
    exact Decimal.isWord_zeroFilled 0 _

theorem text_ofWord (word : Word) : (ofWord word).text = word.dataLine :=
  String.append_assoc.symm

theorem standsFor_ofWord {word : Word} (h : word ≠ Int32.minValue) :
    (ofWord word).StandsFor word := by
  have hlower := word.le_toInt
  have hupper := word.toInt_lt
  have hmin : word.toInt ≠ -2147483648 := fun heq => h (Int32.toInt_inj.mp heq)
  have hsmall : word.toInt.natAbs ≤ Word.greatest := by
    unfold Word.greatest
    omega
  refine (standsFor_of_some rfl word).mpr ⟨rfl, word, ?_, (Int.zero_add _).symm⟩
  rw [← Decimal.zeroFilled_zero, Numeral.read_zeroFilled, if_pos hsmall, Int32.ofInt_toInt]

end PlainLine

namespace Program

/-- **Every list of words but those with the least word can be written as data.** The lines are
assembled to exactly these words, with no label and nothing to be moved, unless the least word is
among them. Then they are refused: the number on the first line that has it is too large. -/
theorem assemble_dataLines (words : List Word) {ending : String}
    (hending : ∀ c ∈ ending.toList, Token.isWordChar c = false) (policy : LabelPolicy) :
    let source := Source.ofLines (words.map Word.dataLine) ending
    (Int32.minValue ∉ words → ∃ p, assemble source policy = .ok p ∧ p.words.toList = words ∧
      p.labels = ∅ ∧ p.relocations = []) ∧
    (Int32.minValue ∈ words → ∃ span,
      assemble source policy = .error ⟨.numberTooLarge "-2147483648", some span⟩ ∧
        span.text? source = some "-2147483648" ∧
        Location.ofOffset? source span.start = some ⟨words.idxOf Int32.minValue + 1, 5⟩) := by
  have htexts : words.map Word.dataLine = (words.map PlainLine.ofWord).map PlainLine.text := by
    rw [List.map_map]
    exact List.map_congr_left fun word _ => (PlainLine.text_ofWord word).symm
  have hlines (ws : List Word) (hws : Int32.minValue ∉ ws) :
      List.Forall₂ PlainLine.StandsFor (ws.map PlainLine.ofWord) ws := by
    rw [List.forall₂_map_left_iff, List.forall₂_same]
    intro word hword
    exact PlainLine.standsFor_ofWord fun heq => hws (heq ▸ hword)
  dsimp only
  rw [htexts]
  refine ⟨fun hleast => assemble_plainLines (hlines words hleast) hending policy, ?_⟩
  intro hleast
  obtain ⟨front, behind, rfl, hfront⟩ := List.eq_append_cons_of_mem hleast
  have hread : Numeral.read "-2147483648" = .tooLarge := by decide +kernel
  have hnumeral : (PlainLine.ofWord Int32.minValue).numeral = some "-2147483648" := by
    decide +kernel
  rw [List.map_append, List.map_cons]
  obtain ⟨span, herror, htext, hplace⟩ := assemble_plainLines_of_tooLarge (hlines front hfront)
    hnumeral rfl hread (behind.map PlainLine.ofWord) hending policy
  refine ⟨span, herror, htext, hplace.trans ?_⟩
  rw [List.length_map, List.idxOf_append_of_notMem hfront, List.idxOf_cons_self, Nat.add_zero]

/-- The greatest word and the one next to the least are read back, and the least is refused on the
third line. -/
theorem assemble_dataLines_of_extremes :
    (∀ c ∈ "\r\n".toList, Token.isWordChar c = false) ∧
      (∃ p, assemble "DAT 2147483647\nDAT -2147483647\r\n" .unique = .ok p ∧
        p.words.toList = [2147483647, -2147483647] ∧ p.labels = ∅ ∧ p.relocations = []) ∧
      ∃ span, assemble "DAT 7\nDAT 0\nDAT -2147483648\nDAT -1\r\n" .unique =
          .error ⟨.numberTooLarge "-2147483648", some span⟩ ∧
        span.text? "DAT 7\nDAT 0\nDAT -2147483648\nDAT -1\r\n" = some "-2147483648" ∧
        Location.ofOffset? "DAT 7\nDAT 0\nDAT -2147483648\nDAT -1\r\n" span.start =
          some ⟨3, 5⟩ := by
  have hending : ∀ c ∈ "\r\n".toList, Token.isWordChar c = false :=
    List.forall_mem_cons.mpr ⟨rfl, List.forall_mem_singleton.mpr rfl⟩
  refine ⟨hending, ?_, ?_⟩
  · exact (assemble_dataLines [2147483647, -2147483647] hending .unique).1 (by decide)
  · exact (assemble_dataLines [7, 0, Int32.minValue, -1] hending .unique).2 (by decide)

/-- The least word is not read back, although it is a word. -/
theorem not_assemble_dataLines :
    Source.ofLines ([Int32.minValue].map Word.dataLine) "" = "DAT -2147483648" ∧
      ¬ ∃ p, assemble "DAT -2147483648" .lastWins = .ok p ∧ p.words.toList = [Int32.minValue] := by
  refine ⟨by decide +kernel, ?_⟩
  rintro ⟨p, hp, -⟩
  have herror : (assemble "DAT -2147483648" .lastWins).toOption.isNone := by decide +kernel
  rw [hp] at herror
  cases herror

end Program

end LittleMan
