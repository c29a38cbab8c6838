import LittleMan.Proofs.Assembly.TwoPasses
import LittleMan.Proofs.Assembly.WordPlaces

/-!
# What is known about labels

The label table of an assembled program says neither more nor less than the statements do: a label
has a record if a statement has it or refers to it, and the record has the last definition of the
label and all the places where it is referred to (`Listing.record?`, `Listing.get?_labels`). The first
pass comes to that one statement after the other (`Draft.get?_labels_extend`).

For a source this means that labels are words of it which are no mnemonics, and that no two of them
stand for the same address (`Program.labels_of_assemble`).
-/

namespace LittleMan

/-- Whether the statement has the label or refers to it. -/
def Statement.Mentions (s : Statement) (label : String) : Prop :=
  s.Labelled label ∨ s.reference?.map Located.value = some label

instance (s : Statement) (label : String) : Decidable (s.Mentions label) :=
  inferInstanceAs (Decidable (_ ∨ _))

/-- Where the statement refers to the label, if it does. -/
def Statement.referenceTo? (s : Statement) (label : String) : Option Span :=
  (s.reference?.filter fun reference => reference.value = label).map Located.span

namespace Listing

/-- Where the statements refer to the label, in order. -/
def references (ss : List Statement) (label : String) : List Span :=
  ss.filterMap fun s => s.referenceTo? label

/-- What the statements say about the label, if they mention it. -/
def record? (ss : List Statement) (label : String) : Option LabelRecord :=
  if ∃ s ∈ ss, s.Mentions label then some ⟨definition? ss label, references ss label⟩ else none

end Listing

/-! ### Statements -/

namespace Statement

theorem referenceTo?_eq_some_iff {s : Statement} {label : String} {place : Span} :
    s.referenceTo? label = some place ↔ s.reference? = some ⟨label, place⟩ := by
  unfold referenceTo?
  constructor
  · intro h
    obtain ⟨reference, hfilter, rfl⟩ := Option.map_eq_some_iff.mp h
    obtain ⟨hreference, hvalue⟩ := Option.filter_eq_some_iff.mp hfilter
    rw [hreference, ← of_decide_eq_true hvalue]
  · intro h
    rw [h, Option.filter_some_pos (by simp)]
    rfl

theorem isSome_referenceTo?_iff {s : Statement} {label : String} :
    (s.referenceTo? label).isSome ↔ s.reference?.map Located.value = some label := by
  rw [Option.isSome_iff_exists]
  simp only [referenceTo?_eq_some_iff]
  constructor
  · rintro ⟨place, h⟩
    rw [h]
    rfl
  · intro h
    obtain ⟨⟨_, place⟩, hreference, rfl⟩ := Option.map_eq_some_iff.mp h
    exact ⟨place, hreference⟩

end Statement

namespace Listing

theorem getD_record? (ss : List Statement) (label : String) :
    (record? ss label).getD {} = ⟨definition? ss label, references ss label⟩ := by
  unfold record?
  split
  · rfl
  · next hnone =>
    have hdefinition : definition? ss label = none := by
      rw [← Option.not_isSome_iff_eq_none, isSome_definition?_iff]
      rintro ⟨s, hs, hlabelled⟩
      exact hnone ⟨s, hs, .inl hlabelled⟩
    have hreferences : references ss label = [] := by
      refine List.filterMap_eq_nil_iff.mpr fun s hs => ?_
      rw [← Option.not_isSome_iff_eq_none, Statement.isSome_referenceTo?_iff]
      exact fun hrefers => hnone ⟨s, hs, .inr hrefers⟩
    rw [hdefinition, hreferences]
    rfl

/-- **What one more statement says about a label.** -/
theorem record?_append_singleton (ss : List Statement) (s : Statement) (label : String) :
    record? (ss ++ [s]) label =
      if s.Mentions label then
        some ⟨if s.Labelled label then s.label.map fun l => ⟨s.address, l.span⟩
            else definition? ss label,
          references ss label ++ (s.referenceTo? label).toList⟩
      else record? ss label := by
  have hreferences : references (ss ++ [s]) label =
      references ss label ++ (s.referenceTo? label).toList := by
    rw [references, List.filterMap_append]
    cases h : s.referenceTo? label <;> simp [references, h]
  by_cases h : s.Mentions label
  · rw [if_pos h, record?, if_pos ⟨s, by simp, h⟩, definition?_append_singleton, hreferences]
  · have hnone : s.referenceTo? label = none := by
      rw [← Option.not_isSome_iff_eq_none, Statement.isSome_referenceTo?_iff]
      exact fun hrefers => h (.inr hrefers)
    have hlabelled : ¬ s.Labelled label := fun hlabelled => h (.inl hlabelled)
    rw [if_neg h, record?, definition?_append_singleton, if_neg hlabelled, hreferences, hnone]
    simp [record?, h]

end Listing

/-! ### First pass -/

namespace LabelTable

theorem get?_noteReference (t : LabelTable) (s : Statement) (label : String) :
    (t.noteReference s).get? label =
      match s.referenceTo? label with
      | some place =>
        some { (t.get? label).getD {} with
          references := ((t.get? label).getD {}).references ++ [place] }
      | none => t.get? label := by
  unfold noteReference
  cases hreference : s.reference? with
  | none => simp [Statement.referenceTo?, hreference]
  | some reference =>
    by_cases h : label = reference.value
    · subst h
      rw [Statement.referenceTo?_eq_some_iff.mpr hreference]
      exact (get?_refer ..).trans (if_pos rfl)
    · simp only [Statement.referenceTo?, hreference, Option.filter, Ne.symm h, decide_false]
      exact (get?_refer ..).trans (if_neg h)

theorem get?_noteLabel (t : LabelTable) (s : Statement) (label : String) :
    (t.noteLabel s).get? label =
      if s.Labelled label then
        some { (t.get? label).getD {} with
          definition := s.label.map fun l => ⟨s.address, l.span⟩ }
      else t.get? label := by
  by_cases hlabelled : s.Labelled label
  · obtain ⟨span, hlabel⟩ := Statement.labelled_iff.mp hlabelled
    rw [if_pos hlabelled, noteLabel, hlabel]
    exact (get?_define ..).trans (if_pos rfl)
  · rw [if_neg hlabelled, noteLabel]
    cases hlabel : s.label with
    | none => rfl
    | some l =>
      have hne : label ≠ l.value := by
        rintro rfl
        exact hlabelled (Statement.labelled_iff.mpr ⟨l.span, hlabel⟩)
      exact (get?_define ..).trans (if_neg hne)

end LabelTable

namespace Draft

/-- A statement is noted in the records of the labels that it mentions. -/
theorem get?_labels_extend {before : List Statement} {d : Draft} {label : String}
    (h : d.labels.get? label = Listing.record? before label) (s : Statement) (word : Word) :
    (d.extend s word).labels.get? label = Listing.record? (before ++ [s]) label := by
  show ((d.labels.noteReference s).noteLabel s).get? label = _
  have hknown := Listing.getD_record? before label
  rw [LabelTable.get?_noteLabel, LabelTable.get?_noteReference, h,
    Listing.record?_append_singleton, hknown]
  cases hreference : s.referenceTo? label with
  | some place =>
    have hmentions : s.Mentions label :=
      .inr (Statement.isSome_referenceTo?_iff.mp (Option.isSome_of_eq_some hreference))
    rw [if_pos hmentions]
    by_cases hlabelled : s.Labelled label
    · simp [hlabelled]
    · simp [hlabelled]
  | none =>
    by_cases hlabelled : s.Labelled label
    · simp [hlabelled, Statement.Mentions, hknown]
    · have hmentions : ¬ s.Mentions label := by
        rintro (hlabel | hrefers)
        · exact hlabelled hlabel
        · rw [← Statement.isSome_referenceTo?_iff, hreference] at hrefers
          cases hrefers
      rw [if_neg hlabelled, if_neg hmentions]

/-- **The first pass notes what all statements say about a label.** -/
theorem get?_labels_foldlM_add {policy : LabelPolicy} {before ss : List Statement} {d d' : Draft}
    {label : String} (h : d.labels.get? label = Listing.record? before label)
    (hadd : (ss.foldlM (add policy) d).result = .ok d') :
    d'.labels.get? label = Listing.record? (before ++ ss) label := by
  induction ss generalizing before d with
  | nil =>
    obtain rfl := Except.ok.inj hadd
    rwa [List.append_nil]
  | cons s ss ih =>
    obtain ⟨word, -, hss⟩ := exists_extend_of_foldlM_add hadd
    rw [List.append_cons]
    exact ih (get?_labels_extend h s word) hss

end Draft

/-! ### Programs -/

namespace Listing

/-- **The label table is what the statements say.** -/
theorem get?_labels {l : Listing} {policy : LabelPolicy} {p : Program}
    (h : l.assemble policy = .ok p) (label : String) :
    p.labels.get? label = record? l.statements label := by
  obtain ⟨d, words, hd, -, rfl⟩ := exists_passes_of_assemble h
  have hnone : Table.get? ({} : Draft).labels label = record? [] label := rfl
  exact Draft.get?_labels_foldlM_add hnone hd

theorem mnemonic_ne_of_label {source : String} {l : Listing} (h : parse source = .ok l)
    {s : Statement} (hs : s ∈ l.statements) {label : Located String}
    (hlabel : s.label = some label) (op : Opcode) :
    op.mnemonic.toList ≠ Text.uppercase label.value.toList := by
  obtain ⟨front, used, rest, -, hwritten⟩ := (writtenAs_of_parse h).1.exists_split s hs
  exact Opcode.ofWord?_eq_none_iff.mp (hwritten.label label hlabel) op

theorem LastLabelled.getElem? {ss : List Statement} {label : String} {i : Nat}
    (h : LastLabelled ss label i) : ∃ s, ss[i]? = some s ∧ s.Labelled label := by
  obtain ⟨before, s, after, rfl, rfl, hlabelled, -⟩ := h
  exact ⟨s, by simp, hlabelled⟩

/-- No two labels stand for the same place. -/
theorem LastLabelled.label_unique {ss : List Statement} {label label' : String} {i : Nat}
    (h : LastLabelled ss label i) (h' : LastLabelled ss label' i) : label = label' := by
  obtain ⟨s, hs, hlabelled⟩ := h.getElem?
  obtain ⟨t, ht, hlabelled'⟩ := h'.getElem?
  obtain rfl := Option.some.inj (hs.symm.trans ht)
  exact Option.some.inj (hlabelled.symm.trans hlabelled')

end Listing

/-- The record says of the label what the statements of the source do. -/
structure LabelRecord.Describes (record : LabelRecord) (source : String) (ss : List Statement)
    (label : String) : Prop where
  /-- The label is defined where it is written last, for the index of that statement. -/
  definition : ∃ before s after place, ss = before ++ s :: after ∧
    s.label = some ⟨label, place⟩ ∧ (∀ t ∈ after, ¬ t.Labelled label) ∧
    record.definition = some ⟨before.length, place⟩ ∧ place.text? source = some label
  /-- The references are those of the statements, in order, -/
  references : record.references = Listing.references ss label
  /-- and each of them is the label, as it is written. -/
  text : ∀ place ∈ record.references, place.text? source = some label
  /-- The label is no mnemonic, in upper or lower case. -/
  mnemonic : ∀ op : Opcode, op.mnemonic.toList ≠ Text.uppercase label.toList

namespace Program

variable {source : String} {l : Listing} {policy : LabelPolicy} {p : Program}

/-- A label that is mentioned in an assembled listing is defined in it. -/
theorem exists_labelled_of_assemble (hl : Listing.parse source = .ok l)
    (h : l.assemble policy = .ok p) {s : Statement} (hs : s ∈ l.statements) {label : String}
    (hmentions : s.Mentions label) : ∃ t ∈ l.statements, t.Labelled label := by
  have hfault := (Listing.exists_assemble_iff (Listing.address_of_parse hl)).mp ⟨p, h⟩
  rcases hmentions with hlabelled | hrefers
  · exact ⟨s, hs, hlabelled⟩
  · obtain ⟨reference, hreference, rfl⟩ := Option.map_eq_some_iff.mp hrefers
    exact (Listing.fault?_eq_none_iff.mp hfault).2.1 s hs reference hreference

theorem describes_of_assemble (hl : Listing.parse source = .ok l) (h : l.assemble policy = .ok p)
    {label : String} {record : LabelRecord} (hrecord : p.labels.get? label = some record) :
    record.Describes source l.statements label := by
  rw [Listing.get?_labels h, Listing.record?] at hrecord
  split at hrecord
  · next hmentioned =>
    obtain ⟨s, hs, hmentions⟩ := hmentioned
    obtain rfl := Option.some.inj hrecord
    obtain ⟨d, hd⟩ := Option.isSome_iff_exists.mp
      (Listing.isSome_definition?_iff.mpr (exists_labelled_of_assemble hl h hs hmentions))
    obtain ⟨before, t, after, place, hss, hlabel, hafter, rfl⟩ :=
      Listing.definition?_eq_some_iff.mp hd
    have ht : t ∈ l.statements := by rw [hss]; simp
    have haddress : t.address = before.length :=
      Listing.address_of_getElem? (Listing.address_of_parse hl) (by simp [hss])
    refine ⟨⟨before, t, after, place, hss, hlabel, hafter, ?_, ?_⟩, rfl, ?_, ?_⟩
    · rw [hd, haddress]
    · exact (Listing.text?_of_label hl ht hlabel).1
    · intro place hplace
      obtain ⟨u, hu, hreference⟩ := List.mem_filterMap.mp hplace
      exact Listing.text?_of_reference hl hu (Statement.referenceTo?_eq_some_iff.mp hreference)
    · exact Listing.mnemonic_ne_of_label hl ht hlabel
  · cases hrecord

theorem label_unique_of_assemble (hl : Listing.parse source = .ok l)
    (h : l.assemble policy = .ok p) {label label' : String} {i : Nat}
    (hi : p.labels.address? label = some i) (hi' : p.labels.address? label' = some i) :
    label = label' := by
  obtain ⟨d, words, rfl, hcollects, -⟩ :=
    Listing.exists_draft_of_assemble (Listing.address_of_parse hl) h
  have hlast := (hcollects.labels_iff (Listing.address_of_parse hl)).mp hi
  exact hlast.label_unique ((hcollects.labels_iff (Listing.address_of_parse hl)).mp hi')

/-- The labels of an assembled program are listed by address alone. -/
theorem pairwise_defined_of_assemble (hl : Listing.parse source = .ok l)
    (h : l.assemble policy = .ok p) : p.labels.defined.Pairwise fun a b => a.2 < b.2 := by
  refine p.labels.pairwise_defined.imp_of_mem ?_
  rintro ⟨label, i⟩ ⟨label', i'⟩ ha hb (hlt | ⟨heq, hlt⟩)
  · exact hlt
  · have ha := p.labels.mem_defined_iff.mp ha
    have hb := p.labels.mem_defined_iff.mp hb
    obtain rfl : i = i' := heq
    obtain rfl := label_unique_of_assemble hl h ha hb
    exact absurd hlt (String.lt_irrefl label)

/-- **The label table of an assembled program is what its source says about labels.** A label has a
record exactly if it is mentioned. The record has the place of the last definition and the index of
that statement, and the places of all references in order; the label stands at each of these places,
and is no mnemonic. No two labels have the same address, so that they are listed by address alone. -/
theorem labels_of_assemble (h : assemble source policy = .ok p) :
    ∃ l, Listing.parse source = .ok l ∧
      (∀ label, (p.labels.get? label).isSome ↔ ∃ s ∈ l.statements, s.Mentions label) ∧
      (∀ label record, p.labels.get? label = some record →
        record.Describes source l.statements label) ∧
      (∀ label label' i, p.labels.address? label = some i → p.labels.address? label' = some i →
        label = label') ∧
      (∀ label i, (label, i) ∈ p.labels.defined ↔ p.labels.address? label = some i) ∧
      p.labels.defined.Pairwise fun a b => a.2 < b.2 := by
  obtain ⟨l, hl, h⟩ := exists_parse_of_assemble h
  refine ⟨l, hl, ?_, fun _ _ => describes_of_assemble hl h,
    fun _ _ _ => label_unique_of_assemble hl h, fun _ _ => p.labels.mem_defined_iff,
    pairwise_defined_of_assemble hl h⟩
  intro label
  rw [Listing.get?_labels h, Listing.record?]
  split <;> simp [*]

/-- A label that is defined twice, with a reference in front of the definitions and one behind. -/
theorem labels_of_assemble_of_redefined :
    let source := "LDA x\nx DAT 1\nx DAT 2\nADD x"
    let record : LabelRecord := ⟨some ⟨2, ⟨14, 15⟩⟩, [⟨4, 5⟩, ⟨26, 27⟩]⟩
    ∃ l p, assemble source .lastWins = .ok p ∧ Listing.parse source = .ok l ∧
      p.labels.get? "x" = some record ∧ record.Describes source l.statements "x" ∧
      ("x", 2) ∈ p.labels.defined := by
  intro source record
  have hrecord : (assemble source .lastWins).toOption.map (fun p => p.labels.get? "x") =
      some (some record) := by
    decide +kernel
  obtain ⟨p, hp, hrecord⟩ := Option.map_eq_some_iff.mp hrecord
  rw [toOption_eq_some_iff] at hp
  obtain ⟨l, hl, -, hdescribes, -, hdefined, -⟩ := labels_of_assemble hp
  have haddress : p.labels.address? "x" = some 2 := by
    rw [LabelTable.address?, LabelTable.definition?, hrecord]
    rfl
  exact ⟨l, p, hp, hl, hrecord, hdescribes "x" record hrecord, (hdefined "x" 2).mpr haddress⟩

end Program

end LittleMan
