import LittleMan.Proofs.Assembly.Clauses
import LittleMan.Proofs.Assembly.CommentPlaces

/-!
# Where words stand

The words of a source stand where their spans say, one behind the other
(`Token.text?_of_mem_words`, `Token.pairwise_words`), and statements are spelt by some of them
(`Listing.exists_clause_of_parse`). So the places of labels and operands are known without going
back to the tokens.
-/

namespace LittleMan

/-! ### The words of a source -/

namespace Token

theorem text?_of_mem_words {source : String} {w : Located String}
    (h : w ∈ words 0 source.toList) :
    w.span.text? source = some w.value ∧ IsWord w.value.toList := by
  obtain ⟨t, ht, hw⟩ := List.mem_filterMap.mp h
  obtain rfl := word?_eq_some_iff.mp hw
  exact ⟨text?_of_mem_ofSource ht, wellFormed_of_mem_scan _ ht⟩

theorem pairwise_words (offset : Nat) (cs : List Char) :
    (words offset cs).Pairwise (fun v w => v.span.stop ≤ w.span.start) ∧
      ∀ w ∈ words offset cs, w.span.start < w.span.stop := by
  obtain ⟨⟨hpairwise, hne⟩, -⟩ := inOrder_scan offset cs
  constructor
  · refine List.Pairwise.filterMap word? (fun t u htu v hv w hw => ?_) hpairwise
    obtain rfl := word?_eq_some_iff.mp hv
    obtain rfl := word?_eq_some_iff.mp hw
    exact htu
  · intro w hw
    obtain ⟨t, ht, hw⟩ := List.mem_filterMap.mp hw
    obtain rfl := word?_eq_some_iff.mp hw
    exact hne _ ht

end Token

/-! ### The words of statements -/

namespace Listing

variable {source : String} {l : Listing}

/-- A statement is spelt by words of the source. -/
theorem exists_clause_of_parse (h : parse source = .ok l) {s : Statement} (hs : s ∈ l.statements) :
    ∃ c : Clause, c.words.Sublist (Token.words 0 source.toList) ∧ s.SpeltBy c := by
  obtain ⟨front, used, rest, hsplit, hs⟩ := (writtenAs_of_parse h).1.exists_split s hs
  obtain ⟨-, c, hc, -, hspelt⟩ := Statement.writtenAs_iff_clause.mp hs
  refine ⟨c, ?_, hspelt⟩
  rw [← words_ofTokens, hsplit, List.map_append, List.map_append, hc]
  exact (List.sublist_append_left _ _).trans (List.sublist_append_right _ _)

theorem text?_of_operand (h : parse source = .ok l) {s : Statement} (hs : s ∈ l.statements)
    {o : Located Operand} (ho : s.operand = some o) :
    o.span.text? source = some o.value.text := by
  obtain ⟨c, hwords, hspelt⟩ := exists_clause_of_parse h hs
  obtain ⟨word, hword, rfl⟩ := Option.map_eq_some_iff.mp (hspelt.operand.symm.trans ho)
  have hmem : word ∈ c.words := by
    rw [Clause.words, hword]
    exact List.mem_append_right _ (List.mem_cons_of_mem _ List.mem_cons_self)
  have hoperand := Operand.word_ofWord word
  show (Operand.word (Operand.ofWord word)).span.text? source =
    some (Operand.word (Operand.ofWord word)).value
  rw [hoperand]
  exact (Token.text?_of_mem_words (hwords.mem hmem)).1

theorem text?_of_reference (h : parse source = .ok l) {s : Statement} (hs : s ∈ l.statements)
    {label : Located String} (hlabel : s.reference? = some label) :
    label.span.text? source = some label.value := by
  unfold Statement.reference? at hlabel
  split at hlabel
  · next hoperand =>
    obtain rfl := Option.some.inj hlabel
    exact text?_of_operand h hs hoperand
  · cases hlabel

/-- The label of a statement is a word of the source. It begins with the statement and ends before
it does. -/
theorem text?_of_label (h : parse source = .ok l) {s : Statement} (hs : s ∈ l.statements)
    {label : Located String} (hlabel : s.label = some label) :
    label.span.text? source = some label.value ∧ label.span.start = s.span.start ∧
      label.span.stop < s.span.stop := by
  obtain ⟨⟨first, mnemonic, operand⟩, hwords, hspelt⟩ := exists_clause_of_parse h hs
  obtain rfl : first = some label := hspelt.label.symm.trans hlabel
  obtain ⟨hpairwise, hne⟩ := Token.pairwise_words 0 source.toList
  have hpairwise := hpairwise.sublist hwords
  have hne (w : Located String) (hw : w ∈ label :: mnemonic :: operand.toList) :=
    hne w (hwords.mem hw)
  obtain ⟨hbehind, hpairwise⟩ := List.pairwise_cons.mp hpairwise
  have hmnemonic := hne mnemonic (List.mem_cons_of_mem _ List.mem_cons_self)
  have hlabelEnd := hbehind mnemonic List.mem_cons_self
  refine ⟨(Token.text?_of_mem_words (hwords.mem List.mem_cons_self)).1, ?_, ?_⟩
  · rw [Statement.span, hlabel]
    rfl
  · cases operand with
    | none =>
      have hstop : s.span.stop = mnemonic.span.stop := by
        rw [Statement.span, hspelt.operand, ← hspelt.place]
        rfl
      omega
    | some word =>
      have hstop : s.span.stop = word.span.stop := by
        rw [Statement.span, hspelt.operand]
        exact congrArg (fun w : Located String => w.span.stop) (Operand.word_ofWord word)
      have hword := hne word (by simp)
      have hbetween : mnemonic.span.stop ≤ word.span.start :=
        (List.pairwise_cons.mp hpairwise).1 word (by simp)
      omega

end Listing

end LittleMan
