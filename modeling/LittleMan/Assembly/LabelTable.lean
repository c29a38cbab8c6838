import LittleMan.Source.Span
import LittleMan.Table

/-!
# Label tables

What is known about the labels of a program: where each one is defined, for which address, and
where it is referred to. Labels are told apart by letter case. A label may be defined again; the
last definition counts.

Tables keep the order in which labels came in, but the list of the defined labels does not show it:
which labels are listed and in which order depends on their addresses alone (`mem_defined_iff`,
`pairwise_defined`), so that tables with the same records have the same list (`defined_congr`).
-/

namespace LittleMan

/-- A place where a label is defined and the address it stands for. -/
structure Definition where
  /-- The address the label stands for. -/
  address : Nat
  /-- Where the label is written. -/
  span : Span
  deriving DecidableEq, Repr, Inhabited

/-- What is known about one label. -/
structure LabelRecord where
  /-- The last definition, if there is any. -/
  definition : Option Definition := none
  /-- Where the label is referred to, in order. -/
  references : List Span := []
  deriving DecidableEq, Repr, Inhabited

/-- What is known about every label that was defined or referred to. -/
abbrev LabelTable := Table String LabelRecord

namespace LabelTable

/-- Defines a label. -/
def define (t : LabelTable) (label : String) (definition : Definition) : LabelTable :=
  t.alter label fun known => { known.getD {} with definition := some definition }

/-- Notes a reference to a label. -/
def refer (t : LabelTable) (label : String) (span : Span) : LabelTable :=
  t.alter label fun known =>
    { known.getD {} with references := (known.getD {}).references ++ [span] }

/-- The last definition of a label. -/
def definition? (t : LabelTable) (label : String) : Option Definition :=
  (t.get? label).bind LabelRecord.definition

/-- The address a label stands for. -/
def address? (t : LabelTable) (label : String) : Option Nat :=
  (t.definition? label).map Definition.address

/-- Whether a label with its address is listed before another: by address, then by the code points
of the label. -/
def listedBefore (a b : String × Nat) : Bool :=
  a.2 < b.2 || (a.2 == b.2 && decide (a.1 ≤ b.1))

/-- The defined labels and their addresses, sorted by address and then by label. -/
def defined (t : LabelTable) : List (String × Nat) :=
  (t.entries.filterMap fun (label, known) =>
    known.definition.map fun d => (label, d.address)).mergeSort listedBefore

/-! ### Records -/

/-- A definition takes the place of the one in the record of its label. -/
theorem get?_define (t : LabelTable) (label l : String) (definition : Definition) :
    (t.define label definition).get? l =
      if l = label then some { (t.get? l).getD {} with definition := some definition }
      else t.get? l := by
  by_cases h : l = label
  · subst h
    rw [if_pos rfl]
    exact Table.get?_alter_self ..
  · rw [if_neg h]
    exact Table.get?_alter_of_ne _ h _

/-- A reference goes to the end of the record of its label. -/
theorem get?_refer (t : LabelTable) (label l : String) (span : Span) :
    (t.refer label span).get? l =
      if l = label then
        some { (t.get? l).getD {} with references := ((t.get? l).getD {}).references ++ [span] }
      else t.get? l := by
  by_cases h : l = label
  · subst h
    rw [if_pos rfl]
    exact Table.get?_alter_self ..
  · rw [if_neg h]
    exact Table.get?_alter_of_ne _ h _

/-! ### The list of labels -/

theorem listedBefore_iff {a b : String × Nat} :
    listedBefore a b = true ↔ a.2 < b.2 ∨ a.2 = b.2 ∧ a.1 ≤ b.1 := by
  simp [listedBefore]

theorem listedBefore_trans (a b c : String × Nat) (hab : listedBefore a b = true)
    (hbc : listedBefore b c = true) : listedBefore a c = true := by
  rw [listedBefore_iff] at *
  rcases hab with hab | ⟨hab, hab'⟩
  · exact .inl (by omega)
  · rcases hbc with hbc | ⟨hbc, hbc'⟩
    · exact .inl (by omega)
    · exact .inr ⟨by omega, String.le_trans hab' hbc'⟩

theorem listedBefore_total (a b : String × Nat) :
    (listedBefore a b || listedBefore b a) = true := by
  rw [Bool.or_eq_true, listedBefore_iff, listedBefore_iff]
  rcases Nat.lt_trichotomy a.2 b.2 with hlt | heq | hgt
  · exact .inl (.inl hlt)
  · rcases String.le_total a.1 b.1 with hle | hle
    · exact .inl (.inr ⟨heq, hle⟩)
    · exact .inr (.inr ⟨heq.symm, hle⟩)
  · exact .inr (.inl hgt)

/-- The labels that are listed are those that have an address. -/
theorem mem_defined_iff (t : LabelTable) {label : String} {address : Nat} :
    (label, address) ∈ t.defined ↔ t.address? label = some address := by
  rw [defined, List.mem_mergeSort, List.mem_filterMap, address?, definition?,
    Option.map_eq_some_iff]
  constructor
  · rintro ⟨⟨l, known⟩, hmem, h⟩
    obtain ⟨d, hd, heq⟩ := Option.map_eq_some_iff.mp h
    obtain ⟨rfl, rfl⟩ := Prod.mk.inj heq
    exact ⟨d, by rw [t.get?_eq_some_iff.mpr hmem, Option.bind_some, hd], rfl⟩
  · rintro ⟨d, h, rfl⟩
    obtain ⟨known, hknown, hd⟩ := Option.bind_eq_some_iff.mp h
    refine ⟨(label, known), t.get?_eq_some_iff.mp hknown, ?_⟩
    show known.definition.map (fun d => (label, d.address)) = _
    rw [hd]
    rfl

theorem nodup_defined (t : LabelTable) : (t.defined.map Prod.fst).Nodup := by
  refine List.pairwise_map.mpr (((List.mergeSort_perm _ _).pairwise_iff Ne.symm).mpr ?_)
  refine List.Pairwise.filterMap _ ?_ (List.pairwise_map.mp t.nodup)
  intro (l, known) (l', known') hne a ha b hb
  obtain ⟨d, -, rfl⟩ := Option.map_eq_some_iff.mp ha
  obtain ⟨d', -, rfl⟩ := Option.map_eq_some_iff.mp hb
  exact hne

/-- **Labels are listed once**, by address and then by label. -/
theorem pairwise_defined (t : LabelTable) :
    t.defined.Pairwise fun a b => a.2 < b.2 ∨ a.2 = b.2 ∧ a.1 < b.1 := by
  have hsorted := List.pairwise_mergeSort listedBefore_trans listedBefore_total
    (t.entries.filterMap fun (label, known) => known.definition.map fun d => (label, d.address))
  refine hsorted.imp₂ (fun a b hab hne => ?_) (List.pairwise_map.mp t.nodup_defined)
  rcases listedBefore_iff.mp hab with hlt | ⟨heq, hle⟩
  · exact .inl hlt
  · exact .inr ⟨heq, String.not_le.mp fun hge => hne (String.le_antisymm hle hge)⟩

theorem before_asymm {a b : String × Nat} (hab : a.2 < b.2 ∨ a.2 = b.2 ∧ a.1 < b.1) :
    ¬ (b.2 < a.2 ∨ b.2 = a.2 ∧ b.1 < a.1) := by
  rcases hab with hlt | ⟨heq, hlt⟩ <;> rintro (hgt | ⟨heq', hgt⟩)
  · omega
  · omega
  · omega
  · exact String.lt_asymm hlt hgt

/-- Lists in this order are the same if they list the same. -/
theorem eq_of_pairwise_of_mem_iff {labels labels' : List (String × Nat)}
    (h : labels.Pairwise fun a b => a.2 < b.2 ∨ a.2 = b.2 ∧ a.1 < b.1)
    (h' : labels'.Pairwise fun a b => a.2 < b.2 ∨ a.2 = b.2 ∧ a.1 < b.1)
    (hmem : ∀ entry, entry ∈ labels ↔ entry ∈ labels') : labels = labels' := by
  have hnodup {labels : List (String × Nat)}
      (h : labels.Pairwise fun a b => a.2 < b.2 ∨ a.2 = b.2 ∧ a.1 < b.1) : labels.Nodup := by
    refine h.imp ?_
    rintro a b hab rfl
    exact before_asymm hab hab
  exact List.Perm.eq_of_pairwise (fun a b _ _ hab hba => absurd hba (before_asymm hab)) h h'
    ((List.perm_ext_iff_of_nodup (hnodup h) (hnodup h')).mpr hmem)

theorem defined_congr {t t' : LabelTable} (h : ∀ label, t.get? label = t'.get? label) :
    t.defined = t'.defined := by
  refine eq_of_pairwise_of_mem_iff t.pairwise_defined t'.pairwise_defined fun (label, address) => ?_
  rw [mem_defined_iff, mem_defined_iff, address?, address?, definition?, definition?, h]

end LabelTable

end LittleMan
