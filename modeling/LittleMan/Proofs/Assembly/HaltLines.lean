import LittleMan.Proofs.Assembly.Behind
import LittleMan.Proofs.Assembly.Grammar
import LittleMan.Proofs.Assembly.Lexing

/-!
# Assembling behind a row of halts

A source with `k` lines `HLT` in front of it is assembled to the same program, `k` mailboxes further
on: `Program.wordsAt k` is what the assembler itself makes of the source at that place, and its
errors are the same, `4 * k` bytes further on (`Program.assemble_halts_append`).

The assembler sees only the words of a source (`Program.assemble_eq_ofWords`), and the lines in
front leave the words behind them as they are but for their places (`Token.words_halts_append`).
They are assembled to a draft without labels, behind which `Listing.assemble_behind` takes over.
-/

namespace LittleMan

/-! ### Sources are words -/

/-- The word with no layout before it. -/
def Lexeme.plain (word : Located String) : Lexeme := ⟨"", word⟩

/-- The program of a list of words. -/
def Program.ofWords (words : List (Located String)) (policy : LabelPolicy) :
    Except AssemblyError Program :=
  (Listing.readStatements 0 (words.map Lexeme.plain)).bind fun ss =>
    Listing.assemble ⟨ss, ""⟩ policy

theorem Draft.add_moved (policy : LabelPolicy) (g : String → String) (d : Draft) (s : Statement) :
    d.add policy (s.moved 0 id g) = d.add policy s := by
  obtain ⟨address, label, opcode, operand, layout⟩ := s
  cases label <;> cases operand <;> rfl

/-- Layouts are not assembled. -/
theorem Listing.assemble_moved (policy : LabelPolicy) (g : String → String) (ss : List Statement)
    (trailing trailing' : String) :
    assemble ⟨ss.map (Statement.moved 0 id g), trailing'⟩ policy =
      assemble ⟨ss, trailing⟩ policy := by
  rw [assemble_eq, assemble_eq, List.foldlM_map]
  simp only [Draft.add_moved]

/-- **The assembler sees only the words of a source.** -/
theorem Program.assemble_eq_ofWords (source : String) (policy : LabelPolicy) :
    assemble source policy = ofWords (Token.words 0 source.toList) policy := by
  have hwords : (Token.words 0 source.toList).map Lexeme.plain =
      (Lexeme.ofTokens (Token.ofSource source)).1.map (Lexeme.moved id fun _ => "") := by
    rw [Token.words, ← Lexeme.word_gather "", List.map_map]
    rfl
  have hread := Listing.readStatements_moved 0 id (fun _ => "") 0
    (Lexeme.ofTokens (Token.ofSource source)).1
  rw [assemble_eq, Listing.parse_eq, ofWords, hwords]
  rw [Nat.zero_add] at hread
  rw [hread]
  cases Listing.readStatements 0 (Lexeme.ofTokens (Token.ofSource source)).1 with
  | error e => exact congrArg Except.error (e.moved_id).symm
  | ok ss => exact (Listing.assemble_moved policy _ ss _ _).symm

/-! ### Lines in front -/

/-- Lines that each have only the mnemonic `HLT` on them. -/
def haltLines (k : Nat) : String := String.join (List.replicate k "HLT\n")

/-- The words of the lines, of which the first begins at byte `offset`. -/
def haltWords (offset : Nat) : Nat → List (Located String)
  | 0 => []
  | k + 1 => ⟨"HLT", ⟨offset, offset + 3⟩⟩ :: haltWords (offset + 4) k

/-- The statements of the lines, for the addresses from `address` on. -/
def haltStatements (address offset : Nat) : Nat → List Statement
  | 0 => []
  | k + 1 => ⟨address, none, ⟨.hlt, ⟨offset, offset + 3⟩⟩, none, ""⟩ ::
      haltStatements (address + 1) (offset + 4) k

theorem Token.words_halt (offset : Nat) (cs : List Char) :
    words offset ('H' :: 'L' :: 'T' :: '\n' :: cs) =
      ⟨"HLT", ⟨offset, offset + 3⟩⟩ :: words (offset + 4) cs := by
  have hword : IsWord "HLT".toList := by decide
  have hread := words_word hword (endsComment_cons cs).endsWord offset
  rw [words_blank (by decide)] at hread
  exact hread

/-- **The words behind the lines are those of the source**, further on. -/
theorem Token.words_halts_append (offset k : Nat) (cs : List Char) :
    words offset ((haltLines k).toList ++ cs) =
      haltWords offset k ++ (words 0 cs).map (Located.moved (· + (offset + 4 * k))) := by
  induction k generalizing offset with
  | zero => exact words_eq_map offset cs
  | succ k ih =>
    have hlines : (haltLines (k + 1)).toList ++ cs =
        'H' :: 'L' :: 'T' :: '\n' :: ((haltLines k).toList ++ cs) := by
      simp [haltLines, List.replicate_succ]
    have hoffset : offset + 4 + 4 * k = offset + 4 * (k + 1) := by omega
    rw [hlines, words_halt, ih, hoffset]
    rfl

/-! ### What becomes of the lines -/

theorem Statement.read_halt (address : Nat) (span : Span) (rest : List Lexeme) :
    read address (Lexeme.plain ⟨"HLT", span⟩) rest =
      .ok (⟨address, none, ⟨.hlt, span⟩, none, ""⟩, rest) := by
  have hword : Opcode.ofWord? "HLT" = some .hlt := by decide
  simp [read, readOpcode, readOperand, Lexeme.plain, hword, Opcode.isDirective,
    Opcode.takesOperand, bind, Except.bind, pure, Except.pure]

theorem Listing.readStatements_halts (address offset k : Nat) (words : List Lexeme) :
    readStatements address ((haltWords offset k).map Lexeme.plain ++ words) =
      (readStatements (address + k) words).map (haltStatements address offset k ++ ·) := by
  induction k generalizing address offset with
  | zero =>
    change readStatements address words = (readStatements address words).map id
    cases readStatements address words <;> rfl
  | succ k ih =>
    have haddress : address + 1 + k = address + (k + 1) := by omega
    rw [haltWords, List.map_cons, List.cons_append, readStatements_cons, Statement.read_halt]
    simp only [Except.bind]
    rw [ih, haddress]
    cases readStatements (address + (k + 1)) words <;> rfl

/-- What a draft becomes with the statements of the lines behind it. -/
structure Draft.Halted (d : Draft) (address offset k : Nat) (d' : Draft) : Prop where
  /-- There is a zero for every line. -/
  words : d'.words = d.words ++ Array.replicate k 0
  /-- No label comes of them, -/
  labels : d'.labels = d.labels
  /-- and no reference. -/
  references : d'.references = d.references
  /-- Each line has its place. -/
  inside : ∀ i < k, d'.sourceIndex.get? (address + i) =
    some ⟨offset + 4 * i, offset + 4 * i + 3⟩
  /-- The other addresses keep theirs. -/
  outside : ∀ i, i < address ∨ address + k ≤ i → d'.sourceIndex.get? i = d.sourceIndex.get? i

theorem Draft.exists_halted (policy : LabelPolicy) (d : Draft) (address offset k : Nat) :
    ∃ d', ((haltStatements address offset k).foldlM (add policy) d).result = .ok d' ∧
      d.Halted address offset k d' := by
  induction k generalizing d address offset with
  | zero =>
    refine ⟨d, rfl, ?_, rfl, rfl, by simp, fun _ _ => rfl⟩
    rw [Array.replicate_zero, Array.append_empty]
  | succ k ih =>
    let s : Statement := ⟨address, none, ⟨.hlt, ⟨offset, offset + 3⟩⟩, none, ""⟩
    obtain ⟨d', hd', h⟩ := ih (d.extend s 0) (address + 1) (offset + 4)
    have hadd : (d.add policy s).result = .ok (d.extend s 0) := by
      rw [result_add]
      cases policy <;> rfl
    refine ⟨d', ?_, ?_, ?_, ?_, ?_, ?_⟩
    · rw [haltStatements, Logged.result_foldlM_cons, hadd]
      exact hd'
    · refine (h.words).trans (Array.ext' ?_)
      simp [Draft.extend, List.replicate_succ]
    · exact h.labels
    · exact h.references.trans (Array.append_empty ..)
    · intro i hi
      cases i with
      | zero =>
        rw [Nat.add_zero, h.outside _ (.inl (Nat.lt_succ_self address))]
        exact Table.get?_put_self ..
      | succ i =>
        have haddress : address + (i + 1) = address + 1 + i := by omega
        have hoffset : offset + 4 * (i + 1) = offset + 4 + 4 * i := by omega
        rw [haddress, hoffset]
        exact h.inside i (by omega)
    · intro i hi
      have hne : i ≠ address := by omega
      rw [h.outside i (by omega)]
      exact Table.get?_put_of_ne _ hne _

/-- **A source behind `k` lines with `HLT` is assembled as it is alone**, `k` mailboxes and `4 * k`
bytes further on: there are `k` zeros in front of its words at address `k`, everything else is
moved, and an error stays the same but for its places. -/
theorem Program.assemble_halts_append (k : Nat) (source : String) (policy : LabelPolicy) :
    match assemble source policy with
    | .ok p => ∃ p', assemble (haltLines k ++ source) policy = .ok p' ∧
        p'.words = Array.replicate k 0 ++ p.wordsAt k ∧
        p'.relocations = p.relocations.map (· + k) ∧
        (∀ label, p'.labels.definition? label =
          (p.labels.definition? label).map fun d => ⟨d.address + k, d.span.moved (· + 4 * k)⟩) ∧
        (∀ i, p'.sourceIndex.get? (i + k) = (p.sourceIndex.get? i).map (Span.moved (· + 4 * k))) ∧
        ∀ i < k, p'.sourceIndex.get? i = some ⟨4 * i, 4 * i + 3⟩
    | .error e => assemble (haltLines k ++ source) policy = .error (e.moved (· + 4 * k)) := by
  obtain ⟨front, hfront, h⟩ := Draft.exists_halted policy {} 0 0 k
  have hsize : front.words.size = k := by simp [h.words]
  -- the words behind the lines are read as the same statements, for addresses further on
  have hwords : (Token.words 0 (haltLines k ++ source).toList).map Lexeme.plain =
      (haltWords 0 k).map Lexeme.plain ++
        ((Token.words 0 source.toList).map Lexeme.plain).map (Lexeme.moved (· + 4 * k) id) := by
    rw [String.toList_append, Token.words_halts_append, Nat.zero_add, List.map_append, List.map_map,
      List.map_map]
    rfl
  have hread := Listing.readStatements_moved k (· + 4 * k) id 0
    ((Token.words 0 source.toList).map Lexeme.plain)
  rw [assemble_eq_ofWords, assemble_eq_ofWords (haltLines k ++ source), ofWords, ofWords, hwords,
    Listing.readStatements_halts, hread]
  cases hss : Listing.readStatements 0 ((Token.words 0 source.toList).map Lexeme.plain) with
  | error e => rfl
  | ok ss =>
    have hrange : ss.map Statement.address = List.range ss.length := by
      rw [List.range_eq_range']
      exact (Listing.readStatements_eq_ok_iff.mp hss).address
    have hbehind : Corresponds (· + 4 * k) (Behind front (· + 4 * k))
        (Listing.assemble ⟨ss, ""⟩ policy)
        (Listing.assemble ⟨haltStatements 0 0 k ++
          ss.map (Statement.moved front.words.size (· + 4 * k) id), ""⟩ policy) :=
      Listing.assemble_behind (· + 4 * k) id hfront (fun l => by rw [h.labels]; rfl) h.references
        (fun i => by rw [h.outside _ (.inr (by omega))]; rfl) hrange
    rw [hsize] at hbehind
    simp only [movedResult, Except.map, Except.bind]
    cases hp : Listing.assemble ⟨ss, ""⟩ policy with
    | error e => exact hbehind.eq_error hp
    | ok p =>
      obtain ⟨p', hp', hp⟩ := hbehind.exists_ok hp
      have hfrontWords : front.words = Array.replicate k 0 := by
        rw [h.words]
        exact Array.empty_append
      have hlabels := hp.labels
      have hindex := hp.sourceIndex
      have hwords := hp.words
      have hrelocations := hp.relocations
      rw [hsize] at hlabels hindex hwords hrelocations
      refine ⟨p', hp', hfrontWords ▸ hwords, hrelocations, hlabels.definition?, hindex, ?_⟩
      intro i hi
      have hplace := h.inside i hi
      rw [Nat.zero_add, Nat.zero_add] at hplace
      rw [hp.before i (hsize ▸ hi), hplace]

end LittleMan
