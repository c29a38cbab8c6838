import LittleMan.Proofs.Assembly.LabelRecords
import LittleMan.Proofs.Assembly.Lines
import LittleMan.Proofs.Assembly.WordLines
import Mathlib.Data.List.Sort

/-!
# Reading dumps

The dump of an assembled program has one line for each word, which begins with the address and the
word (`Program.splitOn_dump`). Nothing is lost in it: the words and the labels with their addresses
can be told from the text (`Program.dump_eq_iff`).

A line is cut into its parts from the left. Address and word are numbers without blanks, each
followed by a blank, so that they end where a word ends (`Program.dumpEntry_inj`). The instruction is
that of the word. What is left shows the label, since there is one at most for an address of an
assembled program (`Program.labelsAt_cases`). The lines themselves do not run into each other, since
no part has a line break in it (`Program.ne_newline_of_mem_dumpEntry`).
-/

namespace LittleMan

/-! ### Lines -/

theorem Token.splitOn_lines {lines : List (List Char)} (h : ∀ line ∈ lines, ∀ c ∈ line, c ≠ '\n') :
    (lines.flatMap (· ++ ['\n'])).splitOn '\n' = lines ++ [[]] := by
  induction lines with
  | nil => rfl
  | cons line lines ih =>
    obtain ⟨hline, hlines⟩ := List.forall_mem_cons.mp h
    rw [List.flatMap_cons, List.append_assoc, splitOn_append hline, List.singleton_append,
      splitOn_newline, ih hlines]
    simp

namespace Program

/-- The labels at the end of a line. -/
def labelColumn (labels : List String) : List Char :=
  (if labels.isEmpty then "" else "  " ++ ", ".intercalate labels).toList

/-- The line of a dump without its line break. -/
def dumpEntry (address : Nat) (word : Word) (labels : List String) : List Char :=
  (Decimal.zeroFilled 2 address).toList ++ ' ' :: ' ' ::
    ((Decimal.zeroFilled 3 word.toInt).toList ++ ' ' :: ' ' ::
      ((Decimal.blankFilled 8 (describe word)).toList ++ labelColumn labels))

theorem toList_dumpLine (address : Nat) (word : Word) (labels : List String) :
    (dumpLine address word labels).toList = dumpEntry address word labels ++ ['\n'] := by
  simp [dumpLine, dumpEntry, labelColumn]

/-- **A line shows its address and its word**, and its labels as far as the last column does. -/
theorem dumpEntry_inj {address address' : Nat} {word word' : Word} {labels labels' : List String}
    (h : dumpEntry address word labels = dumpEntry address' word' labels') :
    address = address' ∧ word = word' ∧ labelColumn labels = labelColumn labels' := by
  have hends (cs : List Char) : Token.EndsWord (' ' :: cs) := Token.endsWord_cons (by decide)
  obtain ⟨haddress, hrest⟩ := Token.eq_of_append_eq (Decimal.isWord_zeroFilled 2 address).chars
    (Decimal.isWord_zeroFilled 2 address').chars (hends _) (hends _) h
  obtain ⟨hword, hrest⟩ := Token.eq_of_append_eq (Decimal.isWord_zeroFilled 3 word.toInt).chars
    (Decimal.isWord_zeroFilled 3 word'.toInt).chars (hends _) (hends _)
    (List.cons.inj (List.cons.inj hrest).2).2
  obtain rfl : word = word' := Int32.toInt_inj.mp (Decimal.zeroFilled_inj hword)
  refine ⟨Int.ofNat.inj (Decimal.zeroFilled_inj haddress), rfl, ?_⟩
  exact List.append_cancel_left (List.cons.inj (List.cons.inj hrest).2).2

theorem ne_newline_of_mem_describe (word : Word) : ∀ c ∈ (describe word).toList, c ≠ '\n' := by
  unfold describe
  split
  · next ins _ =>
    rw [← ins.text_line]
    exact ins.line.ne_newline_of_mem_text
  · exact PlainLine.ne_newline_of_mem_mnemonic .dat

/-! ### Labels -/

/-- The labels are words, and each of them has the address of a word to itself. -/
structure Addressed (p : Program) : Prop where
  /-- They can be read from a source. -/
  isWord : ∀ a ∈ p.labels.defined, Token.IsWord a.1.toList
  /-- They stand for words of the program, -/
  inside : ∀ a ∈ p.labels.defined, a.2 < p.size
  /-- no two of them for the same one. -/
  sorted : p.labels.defined.Pairwise fun a b => a.2 < b.2

/-- **The labels of assembled programs have addresses to themselves.** -/
theorem addressed_of_assemble {source : String} {policy : LabelPolicy} {p : Program}
    (h : assemble source policy = .ok p) : p.Addressed := by
  obtain ⟨l, hl, h⟩ := exists_parse_of_assemble h
  have haddress := Listing.address_of_parse hl
  obtain ⟨d, words, rfl, hcollects, -⟩ := Listing.exists_draft_of_assemble haddress h
  have hlast {label : String} {i : Nat} (ha : (label, i) ∈ d.labels.defined) :
      Listing.LastLabelled l.statements label i :=
    (hcollects.labels_iff haddress).mp (d.labels.mem_defined_iff.mp ha)
  refine ⟨?_, ?_, ?_⟩
  · rintro ⟨label, i⟩ ha
    obtain ⟨s, hs, hlabelled⟩ := (hlast ha).getElem?
    obtain ⟨place, hlabel⟩ := Statement.labelled_iff.mp hlabelled
    have hwellFormed := (Listing.wellFormed_of_parse hl).statements s (List.mem_of_getElem? hs)
    exact (hwellFormed.label ⟨label, place⟩ hlabel).1
  · rintro ⟨label, i⟩ ha
    have hinside : i < l.size := (hlast ha).lt_length
    rwa [Listing.size_of_assemble haddress h]
  · exact pairwise_defined_of_assemble hl h

theorem mem_labelsAt_iff {defined : List (String × Nat)} {label : String} {address : Nat} :
    label ∈ labelsAt defined address ↔ (label, address) ∈ defined := by
  simp [labelsAt]

/-- Behind a word there is one label at most. -/
theorem labelsAt_cases {defined : List (String × Nat)}
    (h : defined.Pairwise fun a b => a.2 < b.2) (address : Nat) :
    labelsAt defined address = [] ∨
      ∃ label, labelsAt defined address = [label] ∧ (label, address) ∈ defined := by
  have hsorted := h.filter (·.2 == address)
  have hmem : ∀ a ∈ defined.filter (·.2 == address), a ∈ defined ∧ a.2 = address := by
    simp
  unfold labelsAt
  cases hlabels : defined.filter (·.2 == address) with
  | nil => exact .inl rfl
  | cons a rest =>
    rw [hlabels] at hsorted hmem
    obtain ⟨hdefined, rfl⟩ := hmem a List.mem_cons_self
    cases rest with
    | nil => exact .inr ⟨a.1, rfl, hdefined⟩
    | cons b rest =>
      have hlt : a.2 < b.2 := (List.pairwise_cons.mp hsorted).1 b List.mem_cons_self
      have heq : b.2 = a.2 := (hmem b (by simp)).2
      omega

theorem labelColumn_nil : labelColumn [] = [] := by
  simp [labelColumn]

theorem labelColumn_singleton (label : String) :
    labelColumn [label] = ' ' :: ' ' :: label.toList := by
  simp [labelColumn]

/-- What stands behind the last blanks of a line is the label, or there is none. -/
theorem labelsAt_inj {defined defined' : List (String × Nat)} {address : Nat}
    (hsorted : defined.Pairwise fun a b => a.2 < b.2)
    (hsorted' : defined'.Pairwise fun a b => a.2 < b.2)
    (h : labelColumn (labelsAt defined address) = labelColumn (labelsAt defined' address)) :
    labelsAt defined address = labelsAt defined' address := by
  rcases labelsAt_cases hsorted address with hlabels | ⟨label, hlabels, -⟩ <;>
    rcases labelsAt_cases hsorted' address with hlabels' | ⟨label', hlabels', -⟩ <;>
    rw [hlabels, hlabels'] at h ⊢
  · rw [labelColumn_nil, labelColumn_singleton] at h
    cases h
  · rw [labelColumn_nil, labelColumn_singleton] at h
    cases h
  · rw [labelColumn_singleton, labelColumn_singleton] at h
    rw [String.toList_inj.mp (List.cons.inj (List.cons.inj h).2).2]

/-! ### Dumps -/

/-- The lines of a dump without their line breaks. -/
def dumpEntries (p : Program) : List (List Char) :=
  p.words.toList.mapIdx fun address word =>
    dumpEntry address word (labelsAt p.labels.defined address)

@[simp] theorem length_dumpEntries (p : Program) : p.dumpEntries.length = p.size :=
  List.length_mapIdx

theorem getElem?_dumpEntries (p : Program) (address : Nat) :
    p.dumpEntries[address]? = p.words[address]?.map fun word =>
      dumpEntry address word (labelsAt p.labels.defined address) := by
  rw [dumpEntries, List.getElem?_mapIdx, Array.getElem?_toList]

theorem toList_dump (p : Program) : p.dump.toList = p.dumpEntries.flatMap (· ++ ['\n']) := by
  rw [dump, String.toList_join, dumpEntries]
  simp only [List.mapIdx_eq_zipIdx_map, List.flatMap_map, toList_dumpLine]

theorem ne_newline_of_mem_dumpEntry {p : Program} (h : p.Addressed) :
    ∀ line ∈ p.dumpEntries, ∀ c ∈ line, c ≠ '\n' := by
  intro line hline
  obtain ⟨i, -, rfl⟩ := List.mem_mapIdx.mp hline
  have hnumeral (width : Nat) (n : Int) : ∀ c ∈ (Decimal.zeroFilled width n).toList, c ≠ '\n' :=
    fun c hc => Token.ne_newline_of_isWordChar ((Decimal.isWord_zeroFilled width n).chars c hc)
  have hblank : ' ' ≠ '\n' := by decide
  have hdescribed (word : Word) :
      ∀ c ∈ (Decimal.blankFilled 8 (describe word)).toList, c ≠ '\n' := by
    rw [Decimal.blankFilled, String.toList_append, Decimal.filler, String.toList_ofList]
    refine List.forall_mem_append.mpr ⟨ne_newline_of_mem_describe word, fun c hc => ?_⟩
    rw [List.eq_of_mem_replicate hc]
    exact hblank
  have hcolumn : ∀ c ∈ labelColumn (labelsAt p.labels.defined i), c ≠ '\n' := by
    rcases labelsAt_cases h.sorted i with hlabels | ⟨label, hlabels, hdefined⟩
    · rw [hlabels, labelColumn_nil]
      exact List.forall_mem_nil _
    · rw [hlabels, labelColumn_singleton]
      refine List.forall_mem_cons.mpr ⟨hblank, List.forall_mem_cons.mpr ⟨hblank, fun c hc => ?_⟩⟩
      exact Token.ne_newline_of_isWordChar ((h.isWord _ hdefined).chars c hc)
  simp only [dumpEntry, List.forall_mem_append, List.forall_mem_cons]
  exact ⟨hnumeral _ _, hblank, hblank, hnumeral _ _, hblank, hblank, hdescribed _, hcolumn⟩

/-- **A dump is split into its lines.** -/
theorem splitOn_dump {p : Program} (h : p.Addressed) :
    p.dump.toList.splitOn '\n' = p.dumpEntries ++ [[]] := by
  rw [toList_dump, Token.splitOn_lines (ne_newline_of_mem_dumpEntry h)]

theorem dumpEntries_inj {p q : Program} (hp : p.Addressed) (hq : q.Addressed)
    (h : p.dumpEntries = q.dumpEntries) :
    p.words = q.words ∧ p.labels.defined = q.labels.defined := by
  have hsize : p.size = q.size := by
    rw [← length_dumpEntries, h, length_dumpEntries]
  have hlines (i : Nat) (hi : i < p.words.size) (hi' : i < q.words.size) :
      p.words[i] = q.words[i] ∧ labelsAt p.labels.defined i = labelsAt q.labels.defined i := by
    have hline : p.dumpEntries[i]? = q.dumpEntries[i]? := by rw [h]
    rw [getElem?_dumpEntries, getElem?_dumpEntries, Array.getElem?_eq_getElem hi,
      Array.getElem?_eq_getElem hi'] at hline
    obtain ⟨-, hword, hlabels⟩ := dumpEntry_inj (Option.some.inj hline)
    exact ⟨hword, labelsAt_inj hp.sorted hq.sorted hlabels⟩
  have hlabels : ∀ i < p.size, labelsAt p.labels.defined i = labelsAt q.labels.defined i :=
    fun i hi => (hlines i hi (Nat.lt_of_lt_of_eq hi hsize)).2
  refine ⟨Array.ext hsize fun i hi hi' => (hlines i hi hi').1, ?_⟩
  -- The labels are sorted, so that it is enough that the same ones are listed.
  have : Std.Antisymm fun a b : String × Nat => a.2 < b.2 :=
    ⟨fun _ _ hab hba => absurd hab (Nat.lt_asymm hba)⟩
  have : Std.Irrefl fun a b : String × Nat => a.2 < b.2 := ⟨fun a => Nat.lt_irrefl a.2⟩
  refine hp.sorted.eq_of_mem_iff hq.sorted ?_
  rintro ⟨label, i⟩
  constructor
  · intro ha
    rwa [← mem_labelsAt_iff, ← hlabels i (hp.inside _ ha), mem_labelsAt_iff]
  · intro ha
    rwa [← mem_labelsAt_iff, hlabels i (hsize ▸ hq.inside _ ha), mem_labelsAt_iff]

/-- **A dump shows all words and all labels.** Two programs that were assembled have the same dump
exactly if they have the same words and the same labels with the same addresses. The dump has a line
for each word, which begins with the address and the word. -/
theorem dump_eq_iff {source source' : String} {policy policy' : LabelPolicy} {p q : Program}
    (hp : assemble source policy = .ok p) (hq : assemble source' policy' = .ok q) :
    (p.dump = q.dump ↔ p.words = q.words ∧ p.labels.defined = q.labels.defined) ∧
      ∃ lines, p.dump.toList.splitOn '\n' = lines ++ [[]] ∧ lines.length = p.size ∧
        ∀ (i : Nat) (word : Word), p.words[i]? = some word → ∃ rest, lines[i]? = some
          ((Decimal.zeroFilled 2 i).toList ++ ' ' :: ' ' ::
            ((Decimal.zeroFilled 3 word.toInt).toList ++ ' ' :: ' ' :: rest)) := by
  have hp := addressed_of_assemble hp
  have hq := addressed_of_assemble hq
  refine ⟨⟨fun h => dumpEntries_inj hp hq ?_, fun ⟨hwords, hlabels⟩ => ?_⟩, p.dumpEntries,
    splitOn_dump hp, p.length_dumpEntries, fun i word hword => ?_⟩
  · have hlines : p.dumpEntries ++ [[]] = q.dumpEntries ++ [[]] := by
      rw [← splitOn_dump hp, h, splitOn_dump hq]
    exact List.append_cancel_right hlines
  · rw [dump, dump, hwords, hlabels]
  · exact ⟨_, by rw [getElem?_dumpEntries, hword]; rfl⟩

/-- The dump does not show whether an operand was written as a label or as its address. -/
theorem dump_eq_of_label_of_address :
    ∃ p q, assemble "x DAT 7\nLDA x" .unique = .ok p ∧ assemble "x DAT 07\nLDA 0" .lastWins = .ok q ∧
      p.dump = q.dump ∧ p.relocations ≠ q.relocations ∧
      ∃ lines, p.dump.toList.splitOn '\n' = lines ++ [[]] ∧ lines.length = 2 := by
  have hp : (assemble "x DAT 7\nLDA x" .unique).toOption.map
      (fun p => (p.words, p.labels.defined, p.relocations)) =
        some (#[7, 500], [("x", 0)], [1]) := by
    decide +kernel
  have hq : (assemble "x DAT 07\nLDA 0" .lastWins).toOption.map
      (fun q => (q.words, q.labels.defined, q.relocations)) =
        some (#[7, 500], [("x", 0)], []) := by
    decide +kernel
  obtain ⟨p, hp, hfieldsp⟩ := Option.map_eq_some_iff.mp hp
  obtain ⟨q, hq, hfieldsq⟩ := Option.map_eq_some_iff.mp hq
  rw [toOption_eq_some_iff] at hp hq
  simp only [Prod.mk.injEq] at hfieldsp hfieldsq
  obtain ⟨hwords, hlabels, hrelocations⟩ := hfieldsp
  obtain ⟨hwords', hlabels', hrelocations'⟩ := hfieldsq
  obtain ⟨hdump, lines, hsplit, hlength, -⟩ := dump_eq_iff hp hq
  refine ⟨p, q, hp, hq, hdump.mpr ⟨hwords.trans hwords'.symm, hlabels.trans hlabels'.symm⟩, ?_,
    lines, hsplit, ?_⟩
  · rw [hrelocations, hrelocations']
    decide
  · rw [hlength, size, hwords]
    rfl

end Program

end LittleMan
