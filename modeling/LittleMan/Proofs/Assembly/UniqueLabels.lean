import LittleMan.Proofs.Assembly.Clauses
import LittleMan.Proofs.Assembly.TwoPasses

/-!
# Labels that have to be unique

What it changes to ask for unique labels: sources are refused in which a label is used twice, and
nothing else becomes of the others (`Program.assemble_policies`).

The refusal is about the first label that repeats one in front of it (`Listing.FirstRepeat`). Every
fault that a listing has when labels must be unique is that repeat, or the fault that it has when
they need not be (`Listing.fault?_unique`). Where both policies accept a listing they take the same
steps with the same drafts, so that the programs are equal in everything
(`Listing.assemble_lastWins`).
-/

namespace LittleMan

namespace Listing

/-- The label of a statement is the first that repeats one in front of it, which is `previous`: all
labels up to there are different. -/
def FirstRepeat (ss : List Statement) (previous label : Located String) : Prop :=
  ∃ before first between second after,
    ss = (before ++ first :: between) ++ second :: after ∧
    first.label = some previous ∧ second.label = some label ∧ previous.value = label.value ∧
    (labels (before ++ first :: between)).Nodup

theorem FirstRepeat.not_nodup {ss : List Statement} {previous label : Located String}
    (h : FirstRepeat ss previous label) : ¬ (labels ss).Nodup := by
  obtain ⟨before, first, between, second, after, rfl, hfirst, hsecond, hvalue, -⟩ := h
  intro hnodup
  rw [labels_append] at hnodup
  have hfront : label.value ∈ labels (before ++ first :: between) :=
    mem_labels.mpr ⟨first, by simp, Statement.labelled_iff.mpr ⟨previous.span, hvalue ▸ hfirst⟩⟩
  have hbehind : label.value ∈ labels (second :: after) :=
    mem_labels.mpr ⟨second, by simp, Statement.labelled_iff.mpr ⟨label.span, hsecond⟩⟩
  exact (List.nodup_append.mp hnodup).2.2 _ hfront _ hbehind rfl

/-! ### Faults -/

variable {l : Listing} {policy : LabelPolicy} {e : AssemblyError}

theorem firstFault?_lastWins {ss : List Statement} (h : firstFault? policy [] ss = none) :
    firstFault? .lastWins [] ss = none := by
  have hfits := (firstFault?_nil_eq_none_iff.mp h).1
  exact firstFault?_nil_eq_none_iff.mpr ⟨hfits, fun hunique => by cases hunique⟩

/-- **A fault of labels that have to be unique** is the first label that repeats one, or a fault
without regard to that. -/
theorem fault?_unique (h : l.fault? .unique = some e) :
    (∃ previous label, FirstRepeat l.statements previous label ∧
      e = ⟨.duplicateLabel label.value previous.span, some label.span⟩) ∨
    l.fault? .lastWins = some e := by
  rcases Option.or_eq_some_iff.mp h with hfirst | ⟨hnone, hundefined⟩
  · obtain ⟨front, s, behind, hss, hfront, hfault⟩ := firstFault?_eq_some_iff.mp hfirst
    rcases Option.or_eq_some_iff.mp hfault with hoverflow | ⟨-, hduplicate⟩
    · right
      have hsame : firstFault? .lastWins [] l.statements = some e :=
        firstFault?_eq_some_iff.mpr ⟨front, s, behind, hss, firstFault?_lastWins hfront,
          Option.or_eq_some_iff.mpr (.inl hoverflow)⟩
      rw [fault?, hsame]
      rfl
    · left
      obtain ⟨-, label, d, hlabel, hd, rfl⟩ := Statement.duplicate?_eq_some_iff.mp hduplicate
      obtain ⟨before, t, between, previous, hsplit, hprevious, -, rfl⟩ :=
        definition?_eq_some_iff.mp hd
      have hunique := (firstFault?_nil_eq_none_iff.mp hfront).2 rfl
      rw [List.nil_append] at hsplit
      subst hsplit
      exact ⟨⟨label.value, previous⟩, label,
        ⟨before, t, between, s, behind, hss, hprevious, hlabel, rfl, hunique⟩, rfl⟩
  · right
    rw [fault?, firstFault?_lastWins hnone, Option.none_or, hundefined]

theorem cause_of_fault?_lastWins (h : l.fault? .lastWins = some e) (label : String)
    (previous : Span) : e.cause ≠ .duplicateLabel label previous := by
  rcases Option.or_eq_some_iff.mp h with hfirst | ⟨-, hundefined⟩
  · obtain ⟨front, s, behind, -, -, hfault⟩ := firstFault?_eq_some_iff.mp hfirst
    rcases Option.or_eq_some_iff.mp hfault with hoverflow | ⟨-, hduplicate⟩
    · unfold Statement.overflow? at hoverflow
      split at hoverflow
      · split at hoverflow
        · cases hoverflow
        · cases hoverflow
          exact nofun
      · cases hoverflow
    · cases (Statement.duplicate?_eq_some_iff.mp hduplicate).1
  · obtain ⟨s, -, hs⟩ := List.exists_of_findSome?_eq_some hundefined
    unfold Statement.undefined? at hs
    split at hs
    · split at hs
      · cases hs
      · cases hs
        exact nofun
    · cases hs

end Listing

/-! ### Programs -/

namespace Draft

/-- **The first pass makes the same draft** of statements whose labels are unique. -/
theorem result_foldlM_add_lastWins {ss : List Statement} {d d' : Draft}
    (h : (ss.foldlM (add .unique) d).result = .ok d') :
    (ss.foldlM (add .lastWins) d).result = .ok d' := by
  induction ss generalizing d with
  | nil => exact h
  | cons s ss ih =>
    obtain ⟨word, hword, hss⟩ := exists_extend_of_foldlM_add h
    rw [Logged.result_foldlM_cons, result_add, hword]
    exact ih hss

end Draft

/-- **Programs do not depend on the policy.** -/
theorem Listing.assemble_lastWins {l : Listing} {p : Program} (h : l.assemble .unique = .ok p) :
    l.assemble .lastWins = .ok p := by
  obtain ⟨d, words, hd, hwords, rfl⟩ := exists_passes_of_assemble h
  rw [assemble_eq, Draft.result_foldlM_add_lastWins hd]
  simp only [Except.bind, hwords]
  rfl

namespace Program

theorem cause_of_parse {source : String} {e : AssemblyError} (h : Listing.parse source = .error e)
    (label : String) (previous : Span) : e.cause ≠ .duplicateLabel label previous := by
  obtain ⟨cs, rest, -, hstuck⟩ := Listing.parse_eq_error_iff.mp h
  cases hstuck <;> exact nofun

variable {source : String} {e : AssemblyError}

/-- **Why a source is refused when labels have to be unique**: for its first label that repeats one,
or for what it is refused for anyway. -/
theorem refused_unique (h : assemble source .unique = .error e) :
    (∃ l previous label, Listing.parse source = .ok l ∧
      Listing.FirstRepeat l.statements previous label ∧
      e = ⟨.duplicateLabel label.value previous.span, some label.span⟩) ∨
    assemble source .lastWins = .error e := by
  cases hl : Listing.parse source with
  | error e' =>
    rw [assemble_of_parse_error hl] at h ⊢
    exact .inr h
  | ok l =>
    have haddress := Listing.address_of_parse hl
    rw [assemble_of_parse hl, Listing.assemble_eq_error_iff haddress] at h ⊢
    rcases Listing.fault?_unique h with ⟨previous, label, hrepeat, he⟩ | hsame
    · exact .inl ⟨l, previous, label, rfl, hrepeat, he⟩
    · exact .inr hsame

theorem assemble_lastWins {p : Program} (h : assemble source .unique = .ok p) :
    assemble source .lastWins = .ok p := by
  obtain ⟨l, hl, hp⟩ := exists_parse_of_assemble h
  rw [assemble_of_parse hl]
  exact Listing.assemble_lastWins hp

theorem cause_of_assemble_lastWins (h : assemble source .lastWins = .error e) (label : String)
    (previous : Span) : e.cause ≠ .duplicateLabel label previous := by
  cases hl : Listing.parse source with
  | error e' =>
    rw [assemble_of_parse_error hl] at h
    cases h
    exact cause_of_parse hl label previous
  | ok l =>
    rw [assemble_of_parse hl, Listing.assemble_eq_error_iff (Listing.address_of_parse hl)] at h
    exact Listing.cause_of_fault?_lastWins h label previous

theorem nodup_labels_of_assemble {l : Listing} {p : Program} (hl : Listing.parse source = .ok l)
    (h : assemble source .unique = .ok p) : (Listing.labels l.statements).Nodup := by
  rw [assemble_of_parse hl] at h
  have hfault := (Listing.exists_assemble_iff (Listing.address_of_parse hl)).mp ⟨p, h⟩
  exact (Listing.fault?_eq_none_iff.mp hfault).2.2 rfl

/-- **To ask for unique labels refuses sources, and changes nothing else.** A source that is accepted
then is accepted anyway, and the programs are equal. A source that is accepted only if labels need
not be unique is refused for the first label that repeats one in front of it, with the place of the
one before. A source that is refused anyway is refused as well, for the same reason or for a label
that is used twice. And only a source in which a label is used twice is ever refused for that, and
then for the first repeat. -/
theorem assemble_policies (source : String) :
    (∀ p, assemble source .unique = .ok p → assemble source .lastWins = .ok p) ∧
    (∀ l p, Listing.parse source = .ok l → assemble source .lastWins = .ok p →
      ¬ (Listing.labels l.statements).Nodup →
        ∃ previous label, Listing.FirstRepeat l.statements previous label ∧
          assemble source .unique =
            .error ⟨.duplicateLabel label.value previous.span, some label.span⟩) ∧
    (∀ e, assemble source .lastWins = .error e → ∃ e', assemble source .unique = .error e' ∧
      (e' = e ∨ ∃ label previous, e'.cause = .duplicateLabel label previous)) ∧
    ∀ e label previous, assemble source .unique = .error e →
      e.cause = .duplicateLabel label previous →
        ∃ l first repeated, Listing.parse source = .ok l ∧
          ¬ (Listing.labels l.statements).Nodup ∧
          Listing.FirstRepeat l.statements first repeated ∧
          e = ⟨.duplicateLabel repeated.value first.span, some repeated.span⟩ := by
  refine ⟨fun p hp => assemble_lastWins hp, ?_, ?_, ?_⟩
  · intro l p hl hp hrepeated
    cases hunique : assemble source .unique with
    | ok p' => exact absurd (nodup_labels_of_assemble hl hunique) hrepeated
    | error e =>
      rcases refused_unique hunique with ⟨l', previous, label, hl', hrepeat, rfl⟩ | hsame
      · obtain rfl : l = l' := Except.ok.inj (hl.symm.trans hl')
        exact ⟨previous, label, hrepeat, rfl⟩
      · rw [hp] at hsame
        cases hsame
  · intro e he
    cases hunique : assemble source .unique with
    | ok p =>
      rw [assemble_lastWins hunique] at he
      cases he
    | error e' =>
      refine ⟨e', rfl, ?_⟩
      rcases refused_unique hunique with ⟨-, previous, label, -, -, rfl⟩ | hsame
      · exact .inr ⟨label.value, previous.span, rfl⟩
      · rw [he] at hsame
        exact .inl (Except.error.inj hsame).symm
  · intro e label previous he hcause
    rcases refused_unique he with ⟨l, first, repeated, hl, hrepeat, he⟩ | hsame
    · exact ⟨l, first, repeated, hl, hrepeat.not_nodup, hrepeat, he⟩
    · exact absurd hcause (cause_of_assemble_lastWins hsame label previous)

/-- Two labels are used twice. The one that is first to repeat is refused, although the other one was
first to be defined. -/
theorem assemble_policies_of_repeats :
    let source := "x DAT 1\nLDA y\ny HLT\ny DAT 2\nx DAT 3"
    ∃ l p previous label, Listing.parse source = .ok l ∧ assemble source .lastWins = .ok p ∧
      Listing.labels l.statements = ["x", "y", "y", "x"] ∧
      Listing.FirstRepeat l.statements previous label ∧ p.words = #[1, 503, 0, 2, 3] ∧
      assemble source .unique = .error ⟨.duplicateLabel label.value previous.span, some label.span⟩ ∧
      label = ⟨"y", ⟨20, 21⟩⟩ ∧ previous.span = ⟨14, 15⟩ := by
  intro source
  have hlabels : (Listing.parse source).toOption.map (fun l => Listing.labels l.statements) =
      some ["x", "y", "y", "x"] := by
    decide +kernel
  have hwords : (assemble source .lastWins).toOption.map words = some #[1, 503, 0, 2, 3] := by
    decide +kernel
  have hrefused : (assemble source .unique).map (fun _ => ()) =
      .error ⟨.duplicateLabel "y" ⟨14, 15⟩, some ⟨20, 21⟩⟩ := by
    decide +kernel
  obtain ⟨l, hl, hlabels⟩ := Option.map_eq_some_iff.mp hlabels
  obtain ⟨p, hp, hwords⟩ := Option.map_eq_some_iff.mp hwords
  rw [toOption_eq_some_iff] at hl hp
  obtain ⟨-, hrepeats, -⟩ := assemble_policies source
  obtain ⟨previous, label, hrepeat, hunique⟩ := hrepeats l p hl hp (by rw [hlabels]; decide)
  rw [hunique] at hrefused
  obtain ⟨hcause, hspan⟩ := AssemblyError.mk.inj (Except.error.inj hrefused)
  obtain ⟨hvalue, hprevious⟩ := AssemblyError.Cause.duplicateLabel.inj hcause
  have hlabel : label = ⟨"y", ⟨20, 21⟩⟩ := by
    rw [← hvalue, ← Option.some.inj hspan]
  exact ⟨l, p, previous, label, hl, hp, hlabels, hrepeat, hwords, hunique, hlabel, hprevious⟩

end Program

end LittleMan
