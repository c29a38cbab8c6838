import LittleMan.Proofs.Assembly.CommentPlaces
import LittleMan.Proofs.Assembly.TwoPasses
import LittleMan.Assembly.SourceIndex

/-!
# Lines of statements

The index of an assembled program has the span of every statement at its address
(`Listing.get?_sourceIndex`). A statement begins and ends with a token, so that its span cuts no
character of the source (`Statement.isSome_toLines?`). So the index can be told in lines, wherever
the program has been loaded (`Program.exists_toLines?`), and exactly the mailboxes of the program
have a line (`Program.isSome_lineAt?_iff`): the one that their statement begins on.
-/

namespace LittleMan

/-! ### The spans of statements -/

/-- The index after the statements have been put into it. -/
def Listing.putSpans (index : SourceIndex Span) (ss : List Statement) : SourceIndex Span :=
  ss.foldl (fun index s => index.put s.address s.span) index

theorem Draft.sourceIndex_foldlM_add {policy : LabelPolicy} {ss : List Statement} {d d' : Draft}
    (h : (ss.foldlM (add policy) d).result = .ok d') :
    d'.sourceIndex = Listing.putSpans d.sourceIndex ss := by
  induction ss generalizing d with
  | nil =>
    cases h
    rfl
  | cons s ss ih =>
    obtain ⟨word, -, hss⟩ := exists_extend_of_foldlM_add h
    exact ih hss

namespace Listing

theorem get?_putSpans {ss : List Statement} {first : Nat} (index : SourceIndex Span)
    (haddress : ss.map Statement.address = List.range' first ss.length) (i : Nat) :
    (putSpans index ss).get? i =
      if first ≤ i ∧ i < first + ss.length then (ss[i - first]?).map Statement.span
      else index.get? i := by
  induction ss generalizing first index with
  | nil => rw [if_neg (by simp)]; rfl
  | cons s ss ih =>
    rw [List.map_cons, List.length_cons, List.range'_succ] at haddress
    obtain ⟨hs, hss⟩ := List.cons.inj haddress
    change (putSpans (index.put s.address s.span) ss).get? i = _
    rw [ih _ hss, List.length_cons]
    rcases Nat.lt_trichotomy i first with hlt | rfl | hgt
    · rw [if_neg (by omega), if_neg (by omega), Table.get?_put_of_ne _ (by omega)]
    · rw [if_neg (by omega), if_pos (by omega), hs, Table.get?_put_self, Nat.sub_self]
      rfl
    · by_cases hin : i < first + 1 + ss.length
      · have hindex : i - first = i - (first + 1) + 1 := by omega
        rw [if_pos (by omega), if_pos (by omega), hindex, List.getElem?_cons_succ]
      · rw [if_neg (by omega), if_neg (by omega), Table.get?_put_of_ne _ (by omega)]

/-- **The index of a program has the spans of its statements.** -/
theorem get?_sourceIndex {l : Listing}
    (haddress : l.statements.map Statement.address = List.range l.size) {policy : LabelPolicy}
    {p : Program} (h : l.assemble policy = .ok p) (i : Nat) :
    p.sourceIndex.get? i = (l.statements[i]?).map Statement.span := by
  obtain ⟨d, words, hd, -, rfl⟩ := exists_passes_of_assemble h
  have hrange : l.statements.map Statement.address = List.range' 0 l.statements.length := by
    rw [haddress, List.range_eq_range']
    rfl
  have hindex := get?_putSpans ∅ hrange i
  rw [← Draft.sourceIndex_foldlM_add hd] at hindex
  refine hindex.trans ?_
  by_cases hi : i < l.statements.length
  · rw [if_pos (by omega), Nat.sub_zero]
  · rw [if_neg (by omega), List.getElem?_eq_none (by omega)]
    rfl

end Listing

/-! ### Spans between characters -/

theorem Token.isSome_ofOffset? {source : String} {t : Located Token} (h : t ∈ ofSource source) :
    (Location.ofOffset? source t.span.start).isSome ∧
      (Location.ofOffset? source t.span.stop).isSome := by
  obtain ⟨before, after, hsource, hstart, hstop⟩ := standsIn_of_mem_scan 0 source.toList t h
  rw [Nat.zero_add] at hstart
  rw [hstop, hstart, ← Source.byteSize_append, Location.ofOffset?_byteSize hsource]
  rw [← List.append_assoc] at hsource
  rw [Location.ofOffset?_byteSize hsource]
  exact ⟨rfl, rfl⟩

/-- **The span of a statement cuts no character.** -/
theorem Statement.isSome_toLines? {source : String} {l : Listing} (h : Listing.parse source = .ok l)
    {s : Statement} (hs : s ∈ l.statements) : (s.span.toLines? source).isSome := by
  obtain ⟨first, hfirst, last, hlast, hspan⟩ := (Listing.writtenAs_of_parse h).1.exists_ends s hs
  have htoken (x : Lexeme) (hx : x ∈ (Lexeme.ofTokens (Token.ofSource source)).1) :=
    Token.isSome_ofOffset? (Lexeme.token_mem_of_gather rfl x hx)
  obtain ⟨start, hstart⟩ := Option.isSome_iff_exists.mp (htoken first hfirst).1
  obtain ⟨stop, hstop⟩ := Option.isSome_iff_exists.mp (htoken last hlast).2
  have hstart : Location.ofOffset? source first.word.span.start = some start := hstart
  have hstop : Location.ofOffset? source last.word.span.stop = some stop := hstop
  rw [hspan, Span.toLines?, hstart, hstop]
  rfl

/-! ### Lines -/

theorem Span.map_line_toLines? {span : Span} {source : String} (h : (span.toLines? source).isSome) :
    (span.toLines? source).map (·.start.line) =
      (Location.ofOffset? source span.start).map Location.line := by
  unfold toLines? at h ⊢
  cases hstart : Location.ofOffset? source span.start with
  | none => simp [hstart] at h
  | some start =>
    cases hstop : Location.ofOffset? source span.stop with
    | none => simp [hstart, hstop] at h
    | some stop => rfl

namespace Program

/-- The line of the source that the statement for a mailbox begins on, if the program has been
loaded from mailbox `start` on and has a word there. -/
def lineAt? (p : Program) (source : String) (start address : Nat) : Option Nat :=
  if start ≤ address then
    (p.sourceIndex.get? (address - start)).bind fun span =>
      (Location.ofOffset? source span.start).map Location.line
  else none

variable {source : String} {policy : LabelPolicy} {p : Program}

theorem isSome_sourceIndex_iff (hp : assemble source policy = .ok p) (i : Nat) :
    (p.sourceIndex.get? i).isSome ↔ i < p.size := by
  obtain ⟨l, hl, hassemble⟩ := exists_parse_of_assemble hp
  have haddress := Listing.address_of_parse hl
  rw [Listing.get?_sourceIndex haddress hassemble, Listing.size_of_assemble haddress hassemble,
    Option.isSome_map, isSome_getElem?]
  rfl

theorem isSome_toLines?_sourceIndex (hp : assemble source policy = .ok p) {i : Nat} {span : Span}
    (h : p.sourceIndex.get? i = some span) : (span.toLines? source).isSome := by
  obtain ⟨l, hl, hassemble⟩ := exists_parse_of_assemble hp
  rw [Listing.get?_sourceIndex (Listing.address_of_parse hl) hassemble] at h
  obtain ⟨s, hs, rfl⟩ := Option.map_eq_some_iff.mp h
  exact Statement.isSome_toLines? hl (List.mem_of_getElem? hs)

/-- **The index can be told in lines**, wherever the program has been loaded. -/
theorem exists_toLines? (hp : assemble source policy = .ok p) (start : Nat) :
    ∃ lines, (p.sourceIndex.relocate start).toLines? source = some lines ∧
      ∀ address, lines.line? address = p.lineAt? source start address := by
  have hentries : ∀ e ∈ (p.sourceIndex.relocate start).entries, (e.2.toLines? source).isSome := by
    intro e he
    obtain ⟨⟨i, span⟩, hmem, rfl⟩ := List.mem_map.mp he
    exact isSome_toLines?_sourceIndex hp ((Table.get?_eq_some_iff _).mpr hmem)
  obtain ⟨lines, hlines, hget⟩ := Table.exists_mapValues? (p.sourceIndex.relocate start)
    (Span.toLines? · source) hentries
  refine ⟨lines, hlines, fun address => ?_⟩
  rw [SourceIndex.line?, hget, lineAt?, SourceIndex.relocate]
  split
  · next hle =>
    have hkey := Table.get?_mapKeys p.sourceIndex (· + start) (fun _ _ => Nat.add_right_cancel)
      (address - start)
    simp only [Nat.sub_add_cancel hle] at hkey
    rw [hkey]
    cases hi : p.sourceIndex.get? (address - start) with
    | none => rfl
    | some span => exact Span.map_line_toLines? (isSome_toLines?_sourceIndex hp hi)
  · next hlt =>
    rw [Table.get?_mapKeys_of_forall_ne _ _ _ fun i => by omega]
    rfl

/-- **Exactly the mailboxes of the program have a line.** -/
theorem isSome_lineAt?_iff (hp : assemble source policy = .ok p) (start address : Nat) :
    (p.lineAt? source start address).isSome ↔ start ≤ address ∧ address < start + p.size := by
  have hindex := isSome_sourceIndex_iff hp (address - start)
  rw [lineAt?]
  split
  · next hle =>
    have hmailbox : start ≤ address ∧ address < start + p.size ↔ address - start < p.size := by
      omega
    rw [hmailbox, ← hindex]
    cases hi : p.sourceIndex.get? (address - start) with
    | none => rfl
    | some span =>
      have hlines := isSome_toLines?_sourceIndex hp hi
      have hline := Span.map_line_toLines? hlines
      rw [Option.bind_some, ← hline, Option.isSome_map, hlines]
      rfl
  · next hlt =>
    refine iff_of_false (by simp) fun h => hlt h.1

end Program

end LittleMan
