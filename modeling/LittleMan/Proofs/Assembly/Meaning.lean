import Mathlib.Algebra.Ring.Int.Defs
import LittleMan.Assembly.Assemble
import LittleMan.Proofs.Machine.Decoding

/-!
# What a listing means

The meaning of a listing, said without passes and tables. The word of a statement is the code of its
opcode plus its operand, where a label counts as the index of the last statement that has it
(`Statement.Denotes`, `Listing.Denotes`). The fault of a listing is that of the first statement
whose number does not fit or whose label is taken, and else that of the first reference to a label
that no statement has (`Listing.fault?`). `Listing.fault?_eq_none_iff` says which listings have
none.
-/

namespace LittleMan

/-! ### Faults -/

theorem Word.isSome_ofInt?_iff {n : Int} : (ofInt? n).isSome ↔ -2 ^ 31 ≤ n ∧ n < 2 ^ 31 := by
  unfold ofInt? greatest
  split <;> simp <;> omega

namespace Statement

/-- Whether the statement has that label. -/
def Labelled (s : Statement) (label : String) : Prop := s.label.map Located.value = some label

instance (s : Statement) (label : String) : Decidable (s.Labelled label) :=
  inferInstanceAs (Decidable (_ = _))

theorem labelled_iff {s : Statement} {label : String} :
    s.Labelled label ↔ ∃ span, s.label = some ⟨label, span⟩ := by
  unfold Labelled
  constructor
  · intro h
    obtain ⟨⟨_, span⟩, hlabel, rfl⟩ := Option.map_eq_some_iff.mp h
    exact ⟨span, hlabel⟩
  · rintro ⟨span, hlabel⟩
    rw [hlabel]
    rfl

/-- The sum of the code of the opcode and the number after it, if there is one. -/
def total (s : Statement) : Int :=
  s.opcode.value.code.toInt +
    match s.operand with
    | some ⟨.number value _, _⟩ => value.toInt
    | _ => 0

/-- Whether the sum is a word. -/
def Fits (s : Statement) : Prop := -2 ^ 31 ≤ s.total ∧ s.total < 2 ^ 31

instance (s : Statement) : Decidable s.Fits := inferInstanceAs (Decidable (_ ∧ _))

/-- The error of a statement whose number does not fit. -/
def overflow? (s : Statement) : Option AssemblyError :=
  match s.operand with
  | some ⟨.number _ text, span⟩ => if s.Fits then none else some ⟨.numberTooLarge text, some span⟩
  | _ => none

theorem total_of_reference {s : Statement} {label : Located String}
    (h : s.reference? = some label) : s.total = s.opcode.value.code.toInt := by
  unfold reference? at h
  split at h
  · rename_i hoperand
    rw [total, hoperand]
    exact Int.add_zero _
  · cases h

theorem overflow?_eq_none_iff {s : Statement} : s.overflow? = none ↔ s.Fits := by
  have hcode := Instruction.toInt_code_le s.opcode.value
  unfold overflow?
  split
  · simp
  · rename_i hnumber
    have htotal : s.total = s.opcode.value.code.toInt := by
      unfold total
      split
      · rename_i hoperand
        exact absurd hoperand (hnumber _ _ _)
      · exact Int.add_zero _
    unfold Fits
    simp only [htotal, true_iff]
    omega

end Statement

namespace Listing

/-- The last statement that has the label. -/
def labelled? (ss : List Statement) (label : String) : Option Statement :=
  ss.reverse.find? (·.Labelled label)

/-- The last definition of the label. -/
def definition? (ss : List Statement) (label : String) : Option Definition :=
  (labelled? ss label).bind fun s => s.label.map fun l => ⟨s.address, l.span⟩

end Listing

namespace Statement

/-- The error of a statement behind `before` whose label must not be defined again. -/
def duplicate? (policy : LabelPolicy) (before : List Statement) (s : Statement) :
    Option AssemblyError :=
  match policy, s.label with
  | .unique, some label =>
    (Listing.definition? before label.value).map fun previous =>
      ⟨.duplicateLabel label.value previous.span, some label.span⟩
  | _, _ => none

/-- What is wrong with a statement behind `before`, apart from its reference. -/
def fault? (policy : LabelPolicy) (before : List Statement) (s : Statement) :
    Option AssemblyError :=
  s.overflow?.or (s.duplicate? policy before)

/-- The error of a statement that refers to a label none of the statements `all` has. -/
def undefined? (all : List Statement) (s : Statement) : Option AssemblyError :=
  match s.reference? with
  | some label =>
    if ∃ t ∈ all, t.Labelled label.value then none
    else some ⟨.undefinedLabel label.value, some label.span⟩
  | none => none

end Statement

namespace Listing

/-- The labels of the statements, in order. -/
def labels (ss : List Statement) : List String := ss.filterMap fun s => s.label.map Located.value

/-- The fault of the first statement that has one, where `before` stands in front of them. -/
def firstFault? (policy : LabelPolicy) :
    (before : List Statement) → List Statement → Option AssemblyError
  | _, [] => none
  | before, s :: ss => (s.fault? policy before).or (firstFault? policy (before ++ [s]) ss)

/-- What is wrong with the listing. -/
def fault? (l : Listing) (policy : LabelPolicy) : Option AssemblyError :=
  (firstFault? policy [] l.statements).or
    (l.statements.findSome? (Statement.undefined? l.statements))

end Listing

/-! ### Meaning -/

/-- The label is that of the statement at `i`, and of none behind it. -/
def Listing.LastLabelled (ss : List Statement) (label : String) (i : Nat) : Prop :=
  ∃ before s after, ss = before ++ s :: after ∧ before.length = i ∧ s.Labelled label ∧
    ∀ t ∈ after, ¬ t.Labelled label

/-- Among the statements `all` the statement stands for the number `n`. -/
def Statement.Denotes (all : List Statement) (s : Statement) (n : Int) : Prop :=
  match s.reference? with
  | none => n = s.total
  | some label => ∃ i, Listing.LastLabelled all label.value i ∧ n = s.opcode.value.code.toInt + i

/-- What the listing stands for is the program. -/
structure Listing.Denotes (l : Listing) (p : Program) : Prop where
  /-- There is a word for every statement, -/
  size : p.size = l.size
  /-- which is what the statement stands for. -/
  words : ∀ (i : Nat) s, l.statements[i]? = some s →
    ∃ word : Word, p.words[i]? = some word ∧ Statement.Denotes l.statements s word.toInt
  /-- The words to be moved are listed in order, -/
  sorted : p.relocations.Pairwise (· < ·)
  /-- and they are those of the references. -/
  relocations : ∀ i : Nat, i ∈ p.relocations ↔ ∃ s, l.statements[i]? = some s ∧ s.reference?.isSome
  /-- Labels are bound to the last statements that have them. -/
  labels : ∀ label i, p.labels.address? label = some i ↔ LastLabelled l.statements label i

namespace Listing

theorem LastLabelled.lt_length {ss : List Statement} {label : String} {i : Nat}
    (h : LastLabelled ss label i) : i < ss.length := by
  obtain ⟨before, s, after, rfl, rfl, -⟩ := h
  simp

theorem Denotes.mem_relocations_iff {l : Listing} {p : Program} (h : l.Denotes p) {i : Nat}
    {s : Statement} (hs : l.statements[i]? = some s) :
    i ∈ p.relocations ↔ s.reference?.isSome := by
  rw [h.relocations]
  constructor
  · rintro ⟨t, ht, hsome⟩
    obtain rfl : s = t := Option.some.inj (hs.symm.trans ht)
    exact hsome
  · exact fun hsome => ⟨s, hs, hsome⟩

/-! ### Last definitions -/

theorem labelled?_eq_some_iff {ss : List Statement} {label : String} {s : Statement} :
    labelled? ss label = some s ↔ s.Labelled label ∧ ∃ before after,
      ss = before ++ s :: after ∧ ∀ t ∈ after, ¬ t.Labelled label := by
  rw [labelled?, List.find?_eq_some_iff_append]
  simp only [decide_eq_true_eq, Bool.not_eq_eq_eq_not, Bool.not_true, decide_eq_false_iff_not]
  refine and_congr_right fun _ => ?_
  constructor
  · rintro ⟨after, before, hss, hafter⟩
    refine ⟨before.reverse, after.reverse, ?_, fun t ht => hafter t (List.mem_reverse.mp ht)⟩
    simpa using congrArg List.reverse hss
  · rintro ⟨before, after, rfl, hafter⟩
    exact ⟨after.reverse, before.reverse, by simp, fun t ht => hafter t (List.mem_reverse.mp ht)⟩

/-- The last definition of a label is that of a statement that has it, behind which none has it. -/
theorem definition?_eq_some_iff {ss : List Statement} {label : String} {d : Definition} :
    definition? ss label = some d ↔ ∃ before s after span, ss = before ++ s :: after ∧
      s.label = some ⟨label, span⟩ ∧ (∀ t ∈ after, ¬ t.Labelled label) ∧ d = ⟨s.address, span⟩ := by
  unfold definition?
  constructor
  · intro h
    obtain ⟨s, hs, hdefinition⟩ := Option.bind_eq_some_iff.mp h
    obtain ⟨hlabelled, before, after, hss, hafter⟩ := labelled?_eq_some_iff.mp hs
    obtain ⟨span, hlabel⟩ := Statement.labelled_iff.mp hlabelled
    rw [hlabel] at hdefinition
    exact ⟨before, s, after, span, hss, hlabel, hafter, (Option.some.inj hdefinition).symm⟩
  · rintro ⟨before, s, after, span, hss, hlabel, hafter, rfl⟩
    have hlabelled : s.Labelled label := Statement.labelled_iff.mpr ⟨span, hlabel⟩
    rw [labelled?_eq_some_iff.mpr ⟨hlabelled, before, after, hss, hafter⟩, Option.bind_some, hlabel]
    rfl

theorem definition?_append_singleton (ss : List Statement) (s : Statement) (label : String) :
    definition? (ss ++ [s]) label =
      if s.Labelled label then s.label.map fun l => ⟨s.address, l.span⟩
      else definition? ss label := by
  rw [definition?, labelled?, List.reverse_concat]
  by_cases h : s.Labelled label
  · rw [List.find?_cons_of_pos (by simpa using h), if_pos h]
    rfl
  · rw [List.find?_cons_of_neg (by simpa using h), if_neg h]
    rfl

theorem isSome_definition?_iff {ss : List Statement} {label : String} :
    (definition? ss label).isSome ↔ ∃ t ∈ ss, t.Labelled label := by
  have hsome : (definition? ss label).isSome = (labelled? ss label).isSome := by
    unfold definition?
    cases ht : labelled? ss label with
    | none => rfl
    | some t =>
      obtain ⟨l, hl, -⟩ := Option.map_eq_some_iff.mp (labelled?_eq_some_iff.mp ht).1
      rw [Option.bind_some, hl]
      rfl
  rw [hsome, labelled?, List.find?_isSome]
  simp only [List.mem_reverse, decide_eq_true_eq]

theorem address_of_getElem? {ss : List Statement}
    (haddress : ss.map Statement.address = List.range ss.length) {i : Nat} {s : Statement}
    (hs : ss[i]? = some s) : s.address = i := by
  have hlt := (List.getElem?_eq_some_iff.mp hs).1
  have hget := congrArg (·[i]?) haddress
  simpa [hs, List.getElem?_range hlt] using hget

/-- A label stands for the index of the last statement that has it. -/
theorem address_definition?_eq_some_iff {ss : List Statement}
    (haddress : ss.map Statement.address = List.range ss.length) {label : String} {i : Nat} :
    (definition? ss label).map Definition.address = some i ↔ LastLabelled ss label i := by
  have hindex {before : List Statement} {s : Statement} {after : List Statement}
      (hss : ss = before ++ s :: after) : s.address = before.length :=
    address_of_getElem? haddress (by rw [hss, List.getElem?_append_right (Nat.le_refl _)]; simp)
  unfold LastLabelled
  constructor
  · intro h
    obtain ⟨d, hd, rfl⟩ := Option.map_eq_some_iff.mp h
    obtain ⟨before, s, after, span, hss, hlabel, hafter, rfl⟩ := definition?_eq_some_iff.mp hd
    exact ⟨before, s, after, hss, (hindex hss).symm, Statement.labelled_iff.mpr ⟨span, hlabel⟩,
      hafter⟩
  · rintro ⟨before, s, after, hss, rfl, hlabelled, hafter⟩
    obtain ⟨span, hlabel⟩ := Statement.labelled_iff.mp hlabelled
    rw [definition?_eq_some_iff.mpr ⟨before, s, after, span, hss, hlabel, hafter, rfl⟩,
      Option.map_some, hindex hss]

end Listing

/-! ### Faults of listings -/

/-- A label is taken if it is that of a statement in front, the last of which is named. -/
theorem Statement.duplicate?_eq_some_iff {policy : LabelPolicy} {front : List Statement}
    {s : Statement} {e : AssemblyError} :
    s.duplicate? policy front = some e ↔ policy = .unique ∧ ∃ label d, s.label = some label ∧
      Listing.definition? front label.value = some d ∧
        e = ⟨.duplicateLabel label.value d.span, some label.span⟩ := by
  unfold duplicate?
  constructor
  · intro h
    split at h
    · next label hlabel =>
      obtain ⟨d, hd, rfl⟩ := Option.map_eq_some_iff.mp h
      exact ⟨rfl, label, d, hlabel, hd, rfl⟩
    · cases h
  · rintro ⟨rfl, label, d, hlabel, hd, rfl⟩
    simp only [hlabel, hd, Option.map_some]

namespace Listing

theorem mem_labels {ss : List Statement} {label : String} :
    label ∈ labels ss ↔ ∃ t ∈ ss, t.Labelled label := List.mem_filterMap

theorem labels_append (ss ts : List Statement) : labels (ss ++ ts) = labels ss ++ labels ts :=
  List.filterMap_append

theorem duplicate?_eq_none_iff {policy : LabelPolicy} {before : List Statement} {s : Statement}
    (hbefore : policy = .unique → (labels before).Nodup) :
    s.duplicate? policy before = none ↔ (policy = .unique → (labels (before ++ [s])).Nodup) := by
  unfold Statement.duplicate?
  cases policy with
  | lastWins => simp
  | unique =>
    simp only [true_imp_iff] at hbefore ⊢
    cases hlabel : s.label with
    | none => simpa [labels_append, labels, hlabel] using hbefore
    | some label =>
      have hsingle : labels [s] = [label.value] := by simp [labels, hlabel]
      rw [Option.map_eq_none_iff, ← Option.not_isSome_iff_eq_none, isSome_definition?_iff,
        ← mem_labels, labels_append, hsingle, List.perm_append_comm.nodup_iff,
        List.singleton_append, List.nodup_cons]
      exact (and_iff_left hbefore).symm

/-- The first pass meets no fault exactly if all numbers fit and no label that has to be unique is
used twice. -/
theorem firstFault?_eq_none_iff {policy : LabelPolicy} {before ss : List Statement}
    (hbefore : policy = .unique → (labels before).Nodup) :
    firstFault? policy before ss = none ↔
      (∀ s ∈ ss, s.Fits) ∧ (policy = .unique → (labels (before ++ ss)).Nodup) := by
  induction ss generalizing before with
  | nil => simpa [firstFault?] using hbefore
  | cons s ss ih =>
    rw [firstFault?, Option.or_eq_none_iff, Statement.fault?, Option.or_eq_none_iff,
      Statement.overflow?_eq_none_iff, List.forall_mem_cons, List.append_cons before s ss]
    constructor
    · rintro ⟨⟨hfits, hduplicate⟩, hss⟩
      obtain ⟨hss, hnodup⟩ := (ih ((duplicate?_eq_none_iff hbefore).mp hduplicate)).mp hss
      exact ⟨⟨hfits, hss⟩, hnodup⟩
    · rintro ⟨⟨hfits, hss⟩, hnodup⟩
      have hs : policy = .unique → (labels (before ++ [s])).Nodup := fun hpolicy => by
        have hall := hnodup hpolicy
        rw [labels_append] at hall
        exact (List.sublist_append_left _ _).nodup hall
      exact ⟨⟨hfits, (duplicate?_eq_none_iff hbefore).mpr hs⟩, (ih hs).mpr ⟨hss, hnodup⟩⟩

theorem firstFault?_eq_some_iff {policy : LabelPolicy} {before ss : List Statement}
    {e : AssemblyError} :
    firstFault? policy before ss = some e ↔ ∃ front s behind, ss = front ++ s :: behind ∧
      firstFault? policy before front = none ∧ s.fault? policy (before ++ front) = some e := by
  induction ss generalizing before with
  | nil => simp [firstFault?]
  | cons t ss ih =>
    rw [firstFault?, Option.or_eq_some_iff, ih]
    constructor
    · rintro (ht | ⟨ht, front, s, behind, rfl, hfront, hs⟩)
      · exact ⟨[], t, ss, rfl, rfl, by rwa [List.append_nil]⟩
      · refine ⟨t :: front, s, behind, rfl, ?_, by rwa [List.append_cons]⟩
        rw [firstFault?, ht, Option.none_or, hfront]
    · rintro ⟨front, s, behind, hss, hfront, hs⟩
      cases front with
      | nil =>
        obtain ⟨rfl, rfl⟩ := List.cons.inj hss
        rw [List.append_nil] at hs
        exact .inl hs
      | cons u front =>
        obtain ⟨rfl, rfl⟩ := List.cons.inj hss
        rw [firstFault?, Option.or_eq_none_iff] at hfront
        rw [List.append_cons] at hs
        exact .inr ⟨hfront.1, front, s, behind, rfl, hfront.2, hs⟩

theorem undefined?_eq_none_iff {all : List Statement} {s : Statement} :
    s.undefined? all = none ↔ ∀ label ∈ s.reference?, ∃ t ∈ all, t.Labelled label.value := by
  unfold Statement.undefined?
  cases s.reference? <;> simp

/-- The first pass meets no fault in a listing exactly if all numbers fit and no label that has to be
unique is used twice. -/
theorem firstFault?_nil_eq_none_iff {policy : LabelPolicy} {ss : List Statement} :
    firstFault? policy [] ss = none ↔
      (∀ s ∈ ss, s.Fits) ∧ (policy = .unique → (labels ss).Nodup) := by
  have hnone : policy = .unique → (labels []).Nodup := fun _ => List.nodup_nil
  exact firstFault?_eq_none_iff hnone

/-- **A listing has no fault exactly if** all numbers fit, every label referred to is the label of
some statement, and no label that has to be unique is used twice. -/
theorem fault?_eq_none_iff {l : Listing} {policy : LabelPolicy} :
    l.fault? policy = none ↔ (∀ s ∈ l.statements, s.Fits) ∧
      (∀ s ∈ l.statements, ∀ label ∈ s.reference?, ∃ t ∈ l.statements, t.Labelled label.value) ∧
      (policy = .unique → (labels l.statements).Nodup) := by
  rw [fault?, Option.or_eq_none_iff, firstFault?_nil_eq_none_iff, List.findSome?_eq_none_iff]
  simp only [undefined?_eq_none_iff]
  exact ⟨fun ⟨⟨hfits, hnodup⟩, hdefined⟩ => ⟨hfits, hdefined, hnodup⟩,
    fun ⟨hfits, hdefined, hnodup⟩ => ⟨⟨hfits, hnodup⟩, hdefined⟩⟩

end Listing

end LittleMan
