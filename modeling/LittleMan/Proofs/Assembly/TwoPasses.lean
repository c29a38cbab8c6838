import LittleMan.Proofs.Assembly.Meaning
import LittleMan.Proofs.Assembly.References

/-!
# The two passes find the meaning

What both passes of the assembler make of a listing is what the listing denotes, and they give up
for its fault (`Listing.assemble_denotes`).

`Draft.Collects` is what the first pass keeps to: the draft is a view of the statements so far, with
every label bound to the last of them that has it. The second pass is an induction on the statements
whose references are left; it stops at the first label that is nowhere.
-/

namespace LittleMan

/-! ### First pass -/

namespace Draft

/-- The draft is what the first pass makes of the statements. -/
structure Collects (ss : List Statement) (d : Draft) : Prop where
  /-- There is a word for every statement, without the address of its label. -/
  words : d.words.toList.map Except.ok = ss.map fun s => (encode s).result
  /-- The labels are bound to the last statements that have them. -/
  labels : ∀ label, d.labels.definition? label = Listing.definition? ss label
  /-- The references are those of the statements. -/
  references : d.references.toList =
    ss.filterMap fun s => s.reference?.map (s.address, ·)

theorem collects_nil : Collects [] {} where
  words := rfl
  labels := fun _ => rfl
  references := rfl

theorem result_encode_eq_ok_iff {s : Statement} {word : Word} :
    (encode s).result = .ok word ↔ word.toInt = s.total := by
  obtain ⟨address, label, opcode, operand, layout⟩ := s
  have hcode : (.ok opcode.value.code : Except AssemblyError Word) = .ok word ↔
      word.toInt = opcode.value.code.toInt + 0 := by
    rw [Except.ok.injEq, ← Int32.toInt_inj, Int.add_zero, eq_comm]
  obtain _ | ⟨value | reference, span⟩ := operand
  · exact hcode
  · rw [Statement.total, ← Word.ofInt?_eq_some_iff]
    unfold encode
    dsimp only
    cases Word.ofInt? (opcode.value.code.toInt + value.toInt) <;> simp
  · exact hcode

theorem result_encode (s : Statement) :
    match s.overflow? with
    | some e => (encode s).result = .error e
    | none => ∃ word, (encode s).result = .ok word := by
  cases hoverflow : s.overflow? with
  | none =>
    obtain ⟨word, hword⟩ := Option.isSome_iff_exists.mp
      (Word.isSome_ofInt?_iff.mpr (Statement.overflow?_eq_none_iff.mp hoverflow))
    exact ⟨word, result_encode_eq_ok_iff.mpr (Word.ofInt?_eq_some_iff.mp hword)⟩
  | some e =>
    have hfits : ¬ s.Fits := fun h => by
      rw [Statement.overflow?_eq_none_iff.mpr h] at hoverflow
      cases hoverflow
    unfold Statement.overflow? at hoverflow
    split at hoverflow
    · rename_i value text span hoperand
      rw [if_neg hfits] at hoverflow
      obtain rfl := Option.some.inj hoverflow
      have htotal : s.opcode.value.code.toInt + value.toInt = s.total := by
        rw [Statement.total, hoperand]
      have hnone : Word.ofInt? s.total = none :=
        Option.not_isSome_iff_eq_none.mp (mt Word.isSome_ofInt?_iff.mp hfits)
      simp only [encode, hoperand, htotal, hnone]
      rfl
    · cases hoverflow

theorem definition?_noteLabel (t : LabelTable) (s : Statement) (label : String) :
    (t.noteLabel s).definition? label =
      if s.Labelled label then s.label.map fun l => ⟨s.address, l.span⟩
      else t.definition? label := by
  cases hlabel : s.label with
  | none => simp [LabelTable.noteLabel, Statement.Labelled, hlabel]
  | some l =>
    by_cases h : l.value = label
    · simp [LabelTable.noteLabel, Statement.Labelled, hlabel, h, LabelTable.definition?_define_self]
    · simp [LabelTable.noteLabel, Statement.Labelled, hlabel, h,
        LabelTable.definition?_define_of_ne _ (Ne.symm h)]

theorem Collects.extend {before : List Statement} {d : Draft} (h : d.Collects before)
    {s : Statement} {word : Word} (hword : (encode s).result = .ok word) :
    (d.extend s word).Collects (before ++ [s]) where
  words := by
    rw [List.map_append, ← h.words]
    simp [Draft.extend, hword]
  labels label := by
    rw [Listing.definition?_append_singleton, ← h.labels, ← d.labels.definition?_noteReference s]
    exact definition?_noteLabel _ s label
  references := by
    rw [List.filterMap_append, ← h.references]
    cases hr : s.reference? <;> simp [Draft.extend, hr]

theorem Collects.clash? {before : List Statement} {d : Draft} (h : d.Collects before)
    (policy : LabelPolicy) (s : Statement) : d.clash? policy s = s.duplicate? policy before := by
  unfold Draft.clash? Statement.duplicate?
  cases policy with
  | lastWins => rfl
  | unique =>
    cases s.label with
    | none => rfl
    | some label => exact congrArg (Option.map _) (h.labels label.value)

theorem Collects.add {before : List Statement} {d : Draft} (h : d.Collects before)
    (policy : LabelPolicy) (s : Statement) :
    match s.fault? policy before with
    | some e => (d.add policy s).result = .error e
    | none => ∃ d', (d.add policy s).result = .ok d' ∧ d'.Collects (before ++ [s]) := by
  have hencode := result_encode s
  rw [result_add, h.clash? policy s, Statement.fault?]
  cases hoverflow : s.overflow? with
  | some e =>
    rw [hoverflow] at hencode
    rw [hencode]
    rfl
  | none =>
    rw [hoverflow] at hencode
    obtain ⟨word, hword⟩ := hencode
    rw [hword]
    cases s.duplicate? policy before with
    | some e => rfl
    | none => exact ⟨d.extend s word, rfl, h.extend hword⟩

/-- **The first pass stops at the first fault**, and without one it collects all statements. -/
theorem Collects.foldlM_add {before : List Statement} {d : Draft} (h : d.Collects before)
    (policy : LabelPolicy) (ss : List Statement) :
    match Listing.firstFault? policy before ss with
    | some e => (ss.foldlM (Draft.add policy) d).result = .error e
    | none =>
      ∃ d', (ss.foldlM (Draft.add policy) d).result = .ok d' ∧ d'.Collects (before ++ ss) := by
  induction ss generalizing before d with
  | nil => exact ⟨d, rfl, by rwa [List.append_nil]⟩
  | cons s ss ih =>
    have hadd := h.add policy s
    rw [Listing.firstFault?, Logged.result_foldlM_cons]
    cases hfault : s.fault? policy before with
    | some e =>
      rw [hfault] at hadd
      rw [hadd]
      rfl
    | none =>
      rw [hfault] at hadd
      obtain ⟨d', hd', hcollects⟩ := hadd
      rw [hd', Option.none_or, List.append_cons before s ss]
      exact ih hcollects

/-! ### Second pass -/

/-- **The second pass stops at the first reference to no label**, and without one it completes all
words. -/
theorem result_resolve {all : List Statement} {labels : LabelTable}
    (hlabels : ∀ label, (labels.address? label).isSome ↔ ∃ t ∈ all, t.Labelled label)
    (ss : List Statement) {words : Array Word} (hin : ∀ s ∈ ss, s.address < words.size) :
    match ss.findSome? (Statement.undefined? all) with
    | some e => ((ss.filterMap fun s => s.reference?.map (s.address, ·)).foldlM
        (insertAddress labels) words).result = .error e
    | none => ∃ words', ((ss.filterMap fun s => s.reference?.map (s.address, ·)).foldlM
        (insertAddress labels) words).result = .ok words' := by
  induction ss generalizing words with
  | nil => exact ⟨words, rfl⟩
  | cons s ss ih =>
    obtain ⟨hs, hss⟩ := List.forall_mem_cons.mp hin
    rw [List.findSome?_cons, List.filterMap_cons, Statement.undefined?]
    cases hreference : s.reference? with
    | none => exact ih hss
    | some label =>
      simp only [Option.map_some, Logged.result_foldlM_cons, result_insertAddress]
      have hlabel := hlabels label.value
      cases htarget : labels.address? label.value with
      | none =>
        rw [htarget] at hlabel
        rw [if_neg (by simpa using hlabel)]
        rfl
      | some target =>
        rw [htarget] at hlabel
        rw [if_pos (by simpa using hlabel)]
        simp only [hs, if_true, Except.bind]
        exact ih fun t ht => by rw [Program.size_shiftWord]; exact hss t ht

end Draft

/-! ### Both passes -/

namespace Draft

variable {l : Listing} {d : Draft}

theorem Collects.size (h : d.Collects l.statements) : d.words.size = l.size := by
  simpa [Listing.size] using congrArg List.length h.words

theorem Collects.getElem?_words (h : d.Collects l.statements) {i : Nat} {s : Statement}
    (hs : l.statements[i]? = some s) :
    ∃ word : Word, d.words[i]? = some word ∧ word.toInt = s.total := by
  have hget := congrArg (·[i]?) h.words
  simp only [List.getElem?_map, hs, Option.map_some, Option.map_eq_some_iff,
    Array.getElem?_toList] at hget
  obtain ⟨word, hword, hencode⟩ := hget
  exact ⟨word, hword, result_encode_eq_ok_iff.mp hencode.symm⟩

theorem Collects.mem_references (h : d.Collects l.statements)
    (haddress : l.statements.map Statement.address = List.range l.size) {i : Nat}
    {label : Located String} :
    (i, label) ∈ d.references.toList ↔
      ∃ s, l.statements[i]? = some s ∧ s.reference? = some label := by
  simp only [h.references, List.mem_filterMap, Option.map_eq_some_iff, Prod.mk.injEq]
  constructor
  · rintro ⟨s, hs, label, hlabel, rfl, rfl⟩
    obtain ⟨i, hi⟩ := List.mem_iff_getElem?.mp hs
    rw [Listing.address_of_getElem? haddress hi]
    exact ⟨s, hi, hlabel⟩
  · rintro ⟨s, hs, hlabel⟩
    exact ⟨s, List.mem_of_getElem? hs, label, hlabel, Listing.address_of_getElem? haddress hs, rfl⟩

theorem Collects.sorted (h : d.Collects l.statements)
    (haddress : l.statements.map Statement.address = List.range l.size) :
    (d.references.toList.map Prod.fst).Pairwise (· < ·) := by
  have hfilter : d.references.toList.map Prod.fst =
      (l.statements.filter (·.reference?.isSome)).map Statement.address := by
    rw [h.references]
    induction l.statements with
    | nil => rfl
    | cons s ss ih => cases hr : s.reference? <;> simp [hr, ih]
  rw [hfilter]
  have hsublist : (l.statements.filter (·.reference?.isSome)).Sublist l.statements :=
    List.filter_sublist
  have hranged := hsublist.map Statement.address
  rw [haddress] at hranged
  exact List.pairwise_lt_range.sublist hranged

theorem Collects.labels_iff (h : d.Collects l.statements)
    (haddress : l.statements.map Statement.address = List.range l.size) {label : String} {i : Nat} :
    d.labels.address? label = some i ↔ Listing.LastLabelled l.statements label i := by
  rw [LabelTable.address?, h.labels]
  exact Listing.address_definition?_eq_some_iff haddress

/-- **What both passes make of a listing is what it denotes.** -/
theorem Collects.denotes (h : d.Collects l.statements)
    (haddress : l.statements.map Statement.address = List.range l.size)
    (hsize : ∀ op : Opcode, ∀ i < l.size, op.code.toInt + i ≤ Word.greatest) {words : Array Word}
    (hwords : (d.references.toList.foldlM (insertAddress d.labels) d.words).result = .ok words) :
    l.Denotes (d.toProgram words) := by
  have hsorted := h.sorted haddress
  obtain ⟨hkeeps, hinserted, hkept⟩ := getElem?_resolve (hsorted.imp Nat.ne_of_lt) hwords
  have hmem : ∀ i : Nat, i ∈ d.references.toList.map Prod.fst ↔
      ∃ s, l.statements[i]? = some s ∧ s.reference?.isSome := by
    intro i
    constructor
    · intro hi
      obtain ⟨⟨i, label⟩, hr, rfl⟩ := List.mem_map.mp hi
      obtain ⟨s, hs, hlabel⟩ := (h.mem_references haddress).mp hr
      exact ⟨s, hs, by rw [hlabel]; rfl⟩
    · rintro ⟨s, hs, hlabel⟩
      obtain ⟨label, hlabel⟩ := Option.isSome_iff_exists.mp hlabel
      exact List.mem_map.mpr ⟨(i, label), (h.mem_references haddress).mpr ⟨s, hs, hlabel⟩, rfl⟩
  refine ⟨hkeeps.trans h.size, fun i s hs => ?_, hsorted, hmem, fun _ _ => h.labels_iff haddress⟩
  obtain ⟨word, hword, htotal⟩ := h.getElem?_words hs
  unfold Statement.Denotes
  cases hlabel : s.reference? with
  | none =>
    have hi : i ∉ d.references.toList.map Prod.fst := fun hi => by
      obtain ⟨s', hs', hsome⟩ := (hmem i).mp hi
      obtain rfl : s = s' := Option.some.inj (hs.symm.trans hs')
      rw [hlabel] at hsome
      cases hsome
    exact ⟨word, (hkept i hi).trans hword, htotal⟩
  | some label =>
    obtain ⟨target, htarget, hinsert⟩ :=
      hinserted (i, label) ((h.mem_references haddress).mpr ⟨s, hs, hlabel⟩)
    have hlast := (h.labels_iff haddress).mp htarget
    have htarget : target < l.size := hlast.lt_length
    obtain rfl : word = s.opcode.value.code :=
      Int32.toInt_inj.mp (htotal.trans (Statement.total_of_reference hlabel))
    have hcompleted : words[i]? = some (s.opcode.value.code + Int32.ofNat target) := by
      rw [hinsert, hword]
      rfl
    refine ⟨_, hcompleted, target, hlast, ?_⟩
    exact Word.toInt_add_ofNat (Instruction.toInt_code_le _).1 (hsize _ target htarget)

end Draft

namespace Listing

/-- The assembler refuses a listing for its fault, and a listing without one has a complete
draft. -/
theorem assemble_eq_fault? {l : Listing}
    (haddress : l.statements.map Statement.address = List.range l.size) (policy : LabelPolicy) :
    match l.fault? policy with
    | some e => l.assemble policy = .error e
    | none => ∃ (d : Draft) (words : Array Word),
        l.assemble policy = .ok (d.toProgram words) ∧ d.Collects l.statements ∧
        (d.references.toList.foldlM (Draft.insertAddress d.labels) d.words).result = .ok words := by
  have hfirst := Draft.collects_nil.foldlM_add policy l.statements
  rw [assemble_eq, fault?]
  cases hfault : firstFault? policy [] l.statements with
  | some e =>
    rw [hfault] at hfirst
    rw [hfirst]
    rfl
  | none =>
    rw [hfault] at hfirst
    obtain ⟨d, hd, hcollects⟩ := hfirst
    rw [List.nil_append] at hcollects
    have hlabels : ∀ label, (d.labels.address? label).isSome ↔
        ∃ t ∈ l.statements, t.Labelled label := by
      intro label
      rw [LabelTable.address?, Option.isSome_map, hcollects.labels, isSome_definition?_iff]
    have hin : ∀ s ∈ l.statements, s.address < d.words.size := by
      intro s hs
      rw [hcollects.size, ← List.mem_range, ← haddress]
      exact List.mem_map_of_mem hs
    have hsecond := Draft.result_resolve hlabels l.statements hin
    rw [← hcollects.references] at hsecond
    rw [hd, Option.none_or]
    simp only [Except.bind]
    cases hundefined : l.statements.findSome? (Statement.undefined? l.statements) with
    | some e =>
      rw [hundefined] at hsecond
      rw [hsecond]
      rfl
    | none =>
      rw [hundefined] at hsecond
      obtain ⟨words, hwords⟩ := hsecond
      exact ⟨d, words, by rw [hwords]; rfl, hcollects, hwords⟩

/-- **An assembled listing has a complete draft.** -/
theorem exists_draft_of_assemble {l : Listing}
    (haddress : l.statements.map Statement.address = List.range l.size) {policy : LabelPolicy}
    {p : Program} (h : l.assemble policy = .ok p) :
    ∃ (d : Draft) (words : Array Word), p = d.toProgram words ∧ d.Collects l.statements ∧
      (d.references.toList.foldlM (Draft.insertAddress d.labels) d.words).result = .ok words := by
  have hcases := assemble_eq_fault? haddress policy
  cases hfault : l.fault? policy with
  | some e =>
    rw [hfault] at hcases
    cases hcases.symm.trans h
  | none =>
    rw [hfault] at hcases
    obtain ⟨d, words, hp, hcollects, hwords⟩ := hcases
    exact ⟨d, words, Except.ok.inj (h.symm.trans hp), hcollects, hwords⟩

/-- **A listing is refused for its fault.** -/
theorem assemble_eq_error_iff {l : Listing}
    (haddress : l.statements.map Statement.address = List.range l.size) {policy : LabelPolicy}
    {e : AssemblyError} : l.assemble policy = .error e ↔ l.fault? policy = some e := by
  have hcases := assemble_eq_fault? haddress policy
  cases hfault : l.fault? policy with
  | some e =>
    rw [hfault] at hcases
    simp [hcases]
  | none =>
    rw [hfault] at hcases
    obtain ⟨d, words, hp, -⟩ := hcases
    simp [hp]

theorem exists_assemble_iff {l : Listing}
    (haddress : l.statements.map Statement.address = List.range l.size) {policy : LabelPolicy} :
    (∃ p, l.assemble policy = .ok p) ↔ l.fault? policy = none := by
  rw [Option.eq_none_iff_forall_ne_some]
  simp only [Ne, ← assemble_eq_error_iff haddress]
  cases l.assemble policy <;> simp

theorem size_of_assemble {l : Listing}
    (haddress : l.statements.map Statement.address = List.range l.size) {policy : LabelPolicy}
    {p : Program} (h : l.assemble policy = .ok p) : p.size = l.size := by
  obtain ⟨d, words, rfl, hcollects, hwords⟩ := exists_draft_of_assemble haddress h
  have hdistinct := (hcollects.sorted haddress).imp Nat.ne_of_lt
  exact (Draft.getElem?_resolve hdistinct hwords).1.trans hcollects.size

/-- An assembled listing stands for its program. -/
theorem denotes_of_assemble {l : Listing}
    (haddress : l.statements.map Statement.address = List.range l.size)
    (hsize : ∀ op : Opcode, ∀ i < l.size, op.code.toInt + i ≤ Word.greatest)
    {policy : LabelPolicy} {p : Program} (h : l.assemble policy = .ok p) : l.Denotes p := by
  obtain ⟨d, words, rfl, hcollects, hwords⟩ := exists_draft_of_assemble haddress h
  exact hcollects.denotes haddress hsize hwords

/-- **The assembler means what it should.** Let the statements stand at the addresses that count
them, and let no code plus an address be too large for a word. Then a listing is assembled exactly
if every number fits, every label referred to is the label of some statement and, where labels have
to be unique, no label is used twice. The program is what the listing denotes, and a listing without
one is refused for its fault. -/
theorem assemble_denotes {l : Listing}
    (haddress : l.statements.map Statement.address = List.range l.size)
    (hsize : ∀ op : Opcode, ∀ i < l.size, op.code.toInt + i ≤ Word.greatest)
    (policy : LabelPolicy) :
    ((∃ p, l.assemble policy = .ok p) ↔ (∀ s ∈ l.statements, s.Fits) ∧
      (∀ s ∈ l.statements, ∀ label ∈ s.reference?, ∃ t ∈ l.statements, t.Labelled label.value) ∧
      (policy = .unique → (labels l.statements).Nodup)) ∧
    (∀ p, l.assemble policy = .ok p → l.Denotes p) ∧
    ∀ e, l.assemble policy = .error e ↔ l.fault? policy = some e :=
  ⟨(exists_assemble_iff haddress).trans fault?_eq_none_iff,
    fun _ h => denotes_of_assemble haddress hsize h, fun _ => assemble_eq_error_iff haddress⟩

/-- A label used before it is defined, and again afterwards: the later definition counts, or the
listing is refused with the place of the earlier one. -/
theorem assemble_denotes_of_redefined :
    let l : Listing := ⟨[⟨0, none, ⟨.lda, ⟨0, 3⟩⟩, some ⟨.reference "b", ⟨4, 5⟩⟩, ""⟩,
      ⟨1, some ⟨"b", ⟨6, 7⟩⟩, ⟨.dat, ⟨8, 11⟩⟩, some ⟨.number 7 "7", ⟨12, 13⟩⟩, "\n"⟩,
      ⟨2, some ⟨"b", ⟨14, 15⟩⟩, ⟨.bra, ⟨16, 19⟩⟩, some ⟨.reference "b", ⟨20, 21⟩⟩, "\n"⟩], ""⟩
    l.statements.map Statement.address = List.range l.size ∧
      (∀ op : Opcode, ∀ i < l.size, op.code.toInt + i ≤ Word.greatest) ∧
      (∃ p, l.assemble .lastWins = .ok p ∧ l.Denotes p ∧ p.words = #[502, 7, 602]) ∧
      l.assemble .unique = .error ⟨.duplicateLabel "b" ⟨6, 7⟩, some ⟨14, 15⟩⟩ := by
  intro l
  have haddress : l.statements.map Statement.address = List.range l.size := by decide
  have hsize : ∀ op : Opcode, ∀ i < l.size, op.code.toInt + i ≤ Word.greatest := by
    intro op i hi
    have hcode := Instruction.toInt_code_le op
    have hi : i < 3 := hi
    unfold Word.greatest
    omega
  have hlast := assemble_denotes haddress hsize .lastWins
  obtain ⟨p, hp⟩ := hlast.1.mpr (by decide)
  have hwords : (l.assemble .lastWins).toOption.map Program.words = some #[502, 7, 602] := by
    decide +kernel
  rw [hp] at hwords
  refine ⟨haddress, hsize, ⟨p, hp, hlast.2.1 p hp, Option.some.inj hwords⟩, ?_⟩
  exact ((assemble_denotes haddress hsize .unique).2.2 _).mpr (by decide +kernel)

end Listing

end LittleMan
