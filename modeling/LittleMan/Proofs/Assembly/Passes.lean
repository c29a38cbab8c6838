import LittleMan.Assembly.Assemble

/-!
# The two passes

One equation for each step of the assembler, so that proofs about it need not unfold it.
`Draft.result_add` says what the first pass makes of a statement: it fails if the number does not
fit (`Draft.encode`) or the label is taken (`Draft.clash?`), and else extends the draft
(`Draft.extend`). `Draft.result_insertAddress` and `Draft.result_finish` do the same for the second
pass.
-/

namespace LittleMan

theorem toOption_eq_some_iff {ε α : Type} {x : Except ε α} {a : α} :
    x.toOption = some a ↔ x = .ok a := by
  cases x <;> simp [Except.toOption]

namespace LabelTable

theorem definition?_refer (t : LabelTable) (label l : String) (span : Span) :
    (t.refer label span).definition? l = t.definition? l := by
  rw [definition?, get?_refer, definition?]
  split
  · cases t.get? l <;> rfl
  · rfl

theorem definition?_define_self (t : LabelTable) (label : String) (d : Definition) :
    (t.define label d).definition? label = some d := by
  rw [definition?, get?_define, if_pos rfl]
  rfl

theorem definition?_define_of_ne (t : LabelTable) {label l : String} (h : l ≠ label)
    (d : Definition) : (t.define label d).definition? l = t.definition? l := by
  rw [definition?, get?_define, if_neg h]
  rfl

/-- The table with the reference of a statement noted, if it has one. -/
def noteReference (t : LabelTable) (s : Statement) : LabelTable :=
  match s.reference? with
  | none => t
  | some label => t.refer label.value label.span

/-- The table with the label of a statement defined, if it has one. -/
def noteLabel (t : LabelTable) (s : Statement) : LabelTable :=
  match s.label with
  | none => t
  | some label => t.define label.value ⟨s.address, label.span⟩

theorem definition?_noteReference (t : LabelTable) (s : Statement) (l : String) :
    (t.noteReference s).definition? l = t.definition? l := by
  unfold noteReference
  cases s.reference? with
  | none => rfl
  | some label => exact definition?_refer t label.value l label.span

end LabelTable

namespace Draft

/-! ### First pass -/

/-- The draft with a statement added, whose word is `word`. -/
def extend (d : Draft) (s : Statement) (word : Word) : Draft where
  words := d.words.push word
  labels := (d.labels.noteReference s).noteLabel s
  sourceIndex := d.sourceIndex.put s.address s.span
  references := d.references ++ (s.reference?.map (s.address, ·)).toArray

/-- The error of a statement whose label must not be defined again. -/
def clash? (policy : LabelPolicy) (d : Draft) (s : Statement) : Option AssemblyError :=
  match policy, s.label with
  | .unique, some label =>
    (d.labels.definition? label.value).map fun previous =>
      ⟨.duplicateLabel label.value previous.span, some label.span⟩
  | _, _ => none

theorem result_addReference (d : Draft) (s : Statement) :
    (d.addReference s).result = .ok { d with
      labels := d.labels.noteReference s
      references := d.references ++ (s.reference?.map (s.address, ·)).toArray } := by
  unfold addReference LabelTable.noteReference
  cases s.reference? with
  | none => simp
  | some label => simp [Except.bind]

theorem result_addLabel (policy : LabelPolicy) (d : Draft) (s : Statement) :
    (d.addLabel policy s).result = match d.clash? policy s with
      | some e => .error e
      | none => .ok { d with labels := d.labels.noteLabel s } := by
  unfold addLabel LabelTable.noteLabel clash?
  cases s.label with
  | none => cases policy <;> rfl
  | some label =>
    simp only [Logged.result_bind, Logged.result_note, Except.bind]
    cases policy with
    | lastWins => cases d.labels.definition? label.value <;> rfl
    | unique =>
      simp only
      cases d.labels.definition? label.value <;> rfl

/-- **What the first pass makes of a statement.** -/
theorem result_add (policy : LabelPolicy) (d : Draft) (s : Statement) :
    (add policy d s).result = (encode s).result.bind fun word =>
      match d.clash? policy s with
      | some e => .error e
      | none => .ok (d.extend s word) := by
  have hclash (words : Array Word) : clash? policy { d with
      words
      labels := d.labels.noteReference s
      references := d.references ++ (s.reference?.map (s.address, ·)).toArray } s =
        d.clash? policy s := by
    unfold clash?
    simp only [LabelTable.definition?_noteReference]
  simp only [add, Logged.result_bind, result_addReference, Except.bind, addWord, Logged.result_note,
    Logged.result_pure, result_addLabel, hclash]
  cases (encode s).result with
  | error e => rfl
  | ok word => cases d.clash? policy s <;> rfl

/-- A first statement that is added extends the draft by the word that it is encoded as. -/
theorem exists_extend_of_foldlM_add {policy : LabelPolicy} {s : Statement} {ss : List Statement}
    {d d' : Draft} (h : ((s :: ss).foldlM (add policy) d).result = .ok d') :
    ∃ word, (encode s).result = .ok word ∧
      (ss.foldlM (add policy) (d.extend s word)).result = .ok d' := by
  rw [Logged.result_foldlM_cons, result_add] at h
  cases hword : (encode s).result with
  | error e => rw [hword] at h; cases h
  | ok word =>
    rw [hword] at h
    cases hclash : d.clash? policy s with
    | some e =>
      simp only [Except.bind, hclash] at h
      cases h
    | none =>
      simp only [Except.bind, hclash] at h
      exact ⟨word, rfl, h⟩

/-! ### Second pass -/

theorem result_insertAddress (labels : LabelTable) (words : Array Word) (address : Nat)
    (label : Located String) :
    (insertAddress labels words (address, label)).result = match labels.address? label.value with
      | none => .error ⟨.undefinedLabel label.value, some label.span⟩
      | some target =>
        if address < words.size then .ok (Program.shiftWord target words address)
        else .error ⟨.strayAddress address, none⟩ := by
  simp only [insertAddress]
  cases labels.address? label.value with
  | none => rfl
  | some target =>
    simp only [Logged.result_bind, Logged.result_note, Except.bind]
    split <;> rfl

/-- The program of a draft whose words have become `words`. -/
def toProgram (d : Draft) (words : Array Word) : Program where
  words
  labels := d.labels
  sourceIndex := d.sourceIndex
  relocations := d.references.toList.map Prod.fst

theorem result_finish (d : Draft) :
    d.finish.result =
      (d.references.toList.foldlM (insertAddress d.labels) d.words).result.map d.toProgram := by
  simp only [finish, Logged.result_bind]
  cases (d.references.toList.foldlM (insertAddress d.labels) d.words).result with
  | error e => rfl
  | ok words =>
    simp only [Except.bind]
    split <;> simp [Except.map, toProgram, Except.bind]

end Draft

/-- **Assembling is the first pass and then the second.** -/
theorem Listing.assemble_eq (l : Listing) (policy : LabelPolicy) :
    l.assemble policy = (l.statements.foldlM (Draft.add policy) {}).result.bind fun d =>
      (d.references.toList.foldlM (Draft.insertAddress d.labels) d.words).result.map
        d.toProgram := by
  simp only [assemble, assembling, Logged.result_bind, Draft.result_finish]

theorem Listing.exists_passes_of_assemble {l : Listing} {policy : LabelPolicy} {p : Program}
    (h : l.assemble policy = .ok p) : ∃ (d : Draft) (words : Array Word),
      (l.statements.foldlM (Draft.add policy) {}).result = .ok d ∧
      (d.references.toList.foldlM (Draft.insertAddress d.labels) d.words).result = .ok words ∧
      p = d.toProgram words := by
  rw [assemble_eq] at h
  cases hd : (l.statements.foldlM (Draft.add policy) {}).result with
  | error e => rw [hd] at h; cases h
  | ok d =>
    rw [hd] at h
    simp only [Except.bind] at h
    cases hwords : (d.references.toList.foldlM (Draft.insertAddress d.labels) d.words).result with
    | error e => rw [hwords] at h; cases h
    | ok words =>
      rw [hwords] at h
      exact ⟨d, words, rfl, hwords, (Except.ok.inj h).symm⟩

theorem Program.assemble_eq (source : String) (policy : LabelPolicy) :
    Program.assemble source policy = (Listing.parse source).bind (·.assemble policy) := by
  unfold Program.assemble Program.assembling
  cases Listing.parse source <;> rfl

theorem Program.assemble_of_parse {source : String} {l : Listing}
    (h : Listing.parse source = .ok l) (policy : LabelPolicy) :
    assemble source policy = l.assemble policy := by
  rw [assemble_eq, h]
  rfl

theorem Program.assemble_of_parse_error {source : String} {e : AssemblyError}
    (h : Listing.parse source = .error e) (policy : LabelPolicy) :
    assemble source policy = .error e := by
  rw [assemble_eq, h]
  rfl

/-- What is assembled has been parsed. -/
theorem Program.exists_parse_of_assemble {source : String} {policy : LabelPolicy} {p : Program}
    (h : assemble source policy = .ok p) :
    ∃ l, Listing.parse source = .ok l ∧ l.assemble policy = .ok p := by
  cases hl : Listing.parse source with
  | error e =>
    rw [assemble_of_parse_error hl] at h
    cases h
  | ok l =>
    rw [assemble_of_parse hl] at h
    exact ⟨l, rfl, h⟩

end LittleMan
