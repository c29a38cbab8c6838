import LittleMan.Proofs.Assembly.Passes
import LittleMan.Proofs.Assembly.Places

/-!
# Assembling behind other statements

The assembler has put together a draft `front` that uses no label and goes on with statements that
were made for a program of their own. `Draft.Behind` says what its draft is in terms of that
program's draft: the words stand behind those of `front`, the addresses are as many words further on
and the places have moved. Both passes keep to it, with the same errors (`Behind.foldlM_add`,
`Draft.corresponds_resolve`), so the programs correspond (`Listing.assemble_behind`): the words of
the references are moved along, which is what `Program.wordsAt` does.
-/

namespace LittleMan

/-- The definition `k` addresses further on, at the moved place. -/
def Definition.moved (k : Nat) (f : Nat → Nat) (d : Definition) : Definition :=
  ⟨d.address + k, d.span.moved f⟩

/-- What is known about a label, with addresses and places moved. -/
def LabelRecord.moved (k : Nat) (f : Nat → Nat) (r : LabelRecord) : LabelRecord :=
  ⟨r.definition.map (Definition.moved k f), r.references.map (Span.moved f)⟩

/-- The second table knows what the first knows, with addresses and places moved. -/
def LabelTable.Moved (k : Nat) (f : Nat → Nat) (t t' : LabelTable) : Prop :=
  ∀ l, t'.get? l = (t.get? l).map (LabelRecord.moved k f)

namespace LabelTable.Moved

variable {k : Nat} {f : Nat → Nat} {t t' : LabelTable}

theorem definition? (h : Moved k f t t') (l : String) :
    t'.definition? l = (t.definition? l).map (Definition.moved k f) := by
  rw [LabelTable.definition?, LabelTable.definition?, h l]
  cases t.get? l <;> rfl

theorem address? (h : Moved k f t t') (l : String) :
    t'.address? l = (t.address? l).map (· + k) := by
  rw [LabelTable.address?, LabelTable.address?, h.definition? l]
  cases t.definition? l <;> rfl

/-- A change that means the same before and after moving is made on both sides. -/
theorem alter (h : Moved k f t t') (label : String)
    (change change' : Option LabelRecord → LabelRecord)
    (hc : ∀ known, change' (known.map (LabelRecord.moved k f)) = (change known).moved k f) :
    Moved k f (Table.alter t label change) (Table.alter t' label change') := by
  intro l
  by_cases hl : l = label
  · subst hl
    rw [Table.get?_alter_self, Table.get?_alter_self, h l, hc]
    rfl
  · rw [Table.get?_alter_of_ne _ hl, Table.get?_alter_of_ne _ hl, h l]

theorem noteReference (h : Moved k f t t') (g : String → String) (s : Statement) :
    Moved k f (t.noteReference s) (t'.noteReference (s.moved k f g)) := by
  unfold LabelTable.noteReference
  rw [Statement.reference?_moved]
  cases s.reference? with
  | none => exact h
  | some label =>
    refine h.alter label.value _ _ fun known => ?_
    cases known <;> simp [LabelRecord.moved]

theorem noteLabel (h : Moved k f t t') (g : String → String) (s : Statement) :
    Moved k f (t.noteLabel s) (t'.noteLabel (s.moved k f g)) := by
  unfold LabelTable.noteLabel
  simp only [Statement.moved]
  cases s.label with
  | none => exact h
  | some label =>
    refine h.alter label.value _ _ fun known => ?_
    cases known <;> rfl

end LabelTable.Moved

namespace Draft

variable {front d d' : Draft} {f : Nat → Nat}

/-- `d'` is what `front` has become when it goes on with the statements of `d`. -/
structure Behind (front : Draft) (f : Nat → Nat) (d d' : Draft) : Prop where
  /-- The words follow those in front. -/
  words : d'.words = front.words ++ d.words
  /-- The labels are those of `d`. -/
  labels : LabelTable.Moved front.words.size f d.labels d'.labels
  /-- The statements keep their places. -/
  sourceIndex : ∀ i, d'.sourceIndex.get? (i + front.words.size) =
    (d.sourceIndex.get? i).map (Span.moved f)
  /-- So do those in front. -/
  before : ∀ i < front.words.size, d'.sourceIndex.get? i = front.sourceIndex.get? i
  /-- The references are those of `d`. -/
  references : d'.references.toList =
    d.references.toList.map fun r => (r.1 + front.words.size, r.2.moved f)
  /-- The references of `d` stand at words of `d`. -/
  inside : ∀ r ∈ d.references.toList, r.1 < d.words.size

/-! ### First pass -/

theorem encode_moved (k : Nat) (f : Nat → Nat) (g : String → String) (s : Statement) :
    (encode (s.moved k f g)).result = movedResult f id (encode s).result := by
  obtain ⟨address, label, opcode, operand, layout⟩ := s
  unfold encode
  simp only [Statement.moved]
  rcases operand with _ | ⟨value | label, span⟩
  · rfl
  · simp only [Option.map_some, Located.moved]
    cases Word.ofInt? (opcode.value.code.toInt + value.toInt) <;> rfl
  · rfl

theorem Behind.clash? (h : Behind front f d d') (policy : LabelPolicy) (g : String → String)
    (s : Statement) :
    d'.clash? policy (s.moved front.words.size f g) =
      (d.clash? policy s).map (AssemblyError.moved f) := by
  unfold Draft.clash?
  simp only [Statement.moved]
  cases policy with
  | lastWins => cases s.label <;> rfl
  | unique =>
    cases s.label with
    | none => rfl
    | some label =>
      simp only [Option.map_some, Located.value_moved, h.labels.definition?]
      cases d.labels.definition? label.value <;> rfl

theorem Behind.extend (h : Behind front f d d') (g : String → String) {s : Statement}
    (hs : s.address = d.words.size) (word : Word) :
    Behind front f (d.extend s word) (d'.extend (s.moved front.words.size f g) word) where
  words := by simp [Draft.extend, h.words]
  labels := (h.labels.noteReference g s).noteLabel g s
  sourceIndex i := by
    simp only [Draft.extend, Statement.span_moved]
    by_cases hi : i = s.address
    · subst hi
      rw [Table.get?_put_self]
      exact Table.get?_put_self ..
    · rw [Table.get?_put_of_ne _ hi, Table.get?_put_of_ne _ (by simp [Statement.moved, hi]),
        h.sourceIndex]
  before i hi := by
    have hne : i ≠ (s.moved front.words.size f g).address := by
      simp only [Statement.moved]
      omega
    exact (Table.get?_put_of_ne _ hne _).trans (h.before i hi)
  references := by
    simp only [Draft.extend, Statement.reference?_moved, Array.toList_append, h.references,
      List.map_append]
    cases s.reference? <;> rfl
  inside r hr := by
    simp only [Draft.extend, Array.toList_append, List.mem_append, Array.size_push] at hr ⊢
    rcases hr with hr | hr
    · exact Nat.lt_succ_of_lt (h.inside r hr)
    · cases hlabel : s.reference? with
      | none => simp [hlabel] at hr
      | some label =>
        obtain rfl : r = (s.address, label) := by simpa [hlabel] using hr
        exact hs ▸ Nat.lt_succ_self _

theorem Behind.foldlM_add (h : Behind front f d d') (policy : LabelPolicy) (g : String → String)
    {ss : List Statement} (hss : ss.map Statement.address = List.range' d.words.size ss.length) :
    Corresponds f (Behind front f) (ss.foldlM (add policy) d).result
      ((ss.map (Statement.moved front.words.size f g)).foldlM (add policy) d').result := by
  induction ss generalizing d d' with
  | nil => exact h
  | cons s ss ih =>
    rw [List.map_cons, List.length_cons, List.range'_succ] at hss
    obtain ⟨hs, hss⟩ := List.cons.inj hss
    rw [List.map_cons, Logged.result_foldlM_cons, Logged.result_foldlM_cons, result_add, result_add,
      encode_moved, h.clash? policy g s]
    cases hword : (encode s).result with
    | error e => rfl
    | ok word =>
      cases d.clash? policy s with
      | some e => rfl
      | none =>
        have hsize : (d.extend s word).words.size = d.words.size + 1 := Array.size_push ..
        exact ih (h.extend g hs word) (hsize ▸ hss)

/-! ### Second pass -/

theorem shiftWord_foldl (m n : Nat) (addresses : List Nat) (words : Array Word) (a : Nat) :
    Program.shiftWord m (addresses.foldl (Program.shiftWord n) words) a =
      addresses.foldl (Program.shiftWord n) (Program.shiftWord m words a) := by
  induction addresses generalizing words with
  | nil => rfl
  | cons b addresses ih => rw [List.foldl_cons, List.foldl_cons, ih, Program.shiftWord_comm]

/-- Inserting an address that is `k` larger is inserting the address and moving the word. -/
theorem shiftWord_add (target k : Nat) (words : Array Word) (a : Nat) :
    Program.shiftWord (target + k) words a =
      Program.shiftWord k (Program.shiftWord target words a) a := by
  refine Array.ext_getElem? fun i => ?_
  by_cases hi : i = a
  · subst hi
    simp only [Program.getElem?_shiftWord_self, Option.map_map]
    congr 1
    funext w
    simp only [Function.comp, Int32.ofNat_add, Int32.add_assoc]
  · simp only [Program.getElem?_shiftWord_of_ne _ _ hi]

/-- Both second passes go on alike. The words behind `front` are those of the first pass, of which
the references that are `done` have been moved along. -/
theorem corresponds_resolve {labels labels' : LabelTable} {front : Array Word}
    (h : LabelTable.Moved front.size f labels labels') (references : List (Nat × Located String))
    (done : List Nat) (words : Array Word) (hin : ∀ r ∈ references, r.1 < words.size) :
    Corresponds f
      (fun w w' => w' = front ++
        (done ++ references.map Prod.fst).foldl (Program.shiftWord front.size) w)
      (references.foldlM (insertAddress labels) words).result
      ((references.map fun r => (r.1 + front.size, r.2.moved f)).foldlM (insertAddress labels')
        (front ++ done.foldl (Program.shiftWord front.size) words)).result := by
  induction references generalizing done words with
  | nil => simp [Corresponds]
  | cons reference references ih =>
    obtain ⟨address, label⟩ := reference
    have haddress : address < words.size := hin _ List.mem_cons_self
    simp only [List.map_cons, Logged.result_foldlM_cons, result_insertAddress,
      Located.value_moved, h.address?]
    cases labels.address? label.value with
    | none => rfl
    | some target =>
      have hin' : address + front.size <
          (front ++ done.foldl (Program.shiftWord front.size) words).size := by
        rw [Array.size_append, Program.size_foldl_shiftWord]
        omega
      -- the word is completed and moved along at once, so it joins those that are done
      have hwords : Program.shiftWord (target + front.size)
          (front ++ done.foldl (Program.shiftWord front.size) words) (address + front.size) =
          front ++ (done ++ [address]).foldl (Program.shiftWord front.size)
            (Program.shiftWord target words address) := by
        rw [Program.shiftWord_append, shiftWord_add, shiftWord_foldl, List.foldl_append]
        rfl
      simp only [Option.map_some, haddress, hin', if_true, Except.bind, hwords]
      rw [List.append_cons done]
      refine ih (done ++ [address]) _ fun r hr => ?_
      rw [Program.size_shiftWord]
      exact hin r (List.mem_cons_of_mem _ hr)

end Draft

/-- `p'` is the program `p` behind the words of `front`, at the places moved by `f`. -/
structure Program.Behind (front : Draft) (f : Nat → Nat) (p p' : Program) : Prop where
  /-- The words are those in front and then those of `p`, moved along. -/
  words : p'.words = front.words ++ p.wordsAt front.words.size
  /-- The words to be moved are those of `p`. -/
  relocations : p'.relocations = p.relocations.map (· + front.words.size)
  /-- The labels are those of `p`. -/
  labels : LabelTable.Moved front.words.size f p.labels p'.labels
  /-- The statements keep their places. -/
  sourceIndex : ∀ i, p'.sourceIndex.get? (i + front.words.size) =
    (p.sourceIndex.get? i).map (Span.moved f)
  /-- So do those in front. -/
  before : ∀ i < front.words.size, p'.sourceIndex.get? i = front.sourceIndex.get? i

/-- **Statements behind others are assembled as they are alone**, but that what refers to labels
moves along. -/
theorem Listing.assemble_behind {front : Draft} {policy : LabelPolicy} {first ss : List Statement}
    {trailing trailing' : String} (f : Nat → Nat) (g : String → String)
    (hfirst : (first.foldlM (Draft.add policy) {}).result = .ok front)
    (hlabels : ∀ l, front.labels.get? l = none) (hreferences : front.references = #[])
    (hindex : ∀ i, front.sourceIndex.get? (i + front.words.size) = none)
    (hss : ss.map Statement.address = List.range ss.length) :
    Corresponds f (Program.Behind front f) (assemble ⟨ss, trailing⟩ policy)
      (assemble ⟨first ++ ss.map (Statement.moved front.words.size f g), trailing'⟩ policy) := by
  have hstart : Draft.Behind front f {} front := {
    words := (Array.append_empty ..).symm
    labels := fun l => hlabels l
    sourceIndex := fun i => hindex i
    before := fun _ _ => rfl
    references := by simp [hreferences]
    inside := by simp }
  have hrange : ss.map Statement.address = List.range' 0 ss.length := by
    rw [hss, List.range_eq_range']
  rw [assemble_eq, assemble_eq, Logged.result_foldlM_append, hfirst]
  refine (hstart.foldlM_add policy g hrange).bind fun d d' h => ?_
  rw [h.references, h.words]
  refine (Draft.corresponds_resolve h.labels _ [] _ h.inside).map fun words words' hwords => ?_
  exact {
    words := hwords
    relocations := by simp [Draft.toProgram, h.references]
    labels := h.labels
    sourceIndex := h.sourceIndex
    before := h.before }

/-- **What is assembled does not depend on the places.** -/
theorem Listing.assemble_bare {l : Listing} (policy : LabelPolicy)
    (hl : l.statements.map Statement.address = List.range l.statements.length) :
    movedResult nowhere Program.words (l.bare.assemble policy) =
      movedResult nowhere Program.words (l.assemble policy) := by
  have hnothing : (([] : List Statement).foldlM (Draft.add policy) {}).result = .ok {} := rfl
  have h : Corresponds nowhere (Program.Behind {} nowhere) (l.assemble policy)
      (l.bare.assemble policy) :=
    assemble_behind nowhere id hnothing (fun _ => rfl) rfl (fun _ => rfl) hl
  cases hl : l.assemble policy with
  | ok p =>
    obtain ⟨p', hp', hbehind⟩ := h.exists_ok hl
    have hwords : p'.words = #[] ++ p.wordsAt 0 := hbehind.words
    rw [Program.wordsAt_zero, Array.empty_append] at hwords
    rw [hp']
    exact congrArg Except.ok hwords
  | error e =>
    rw [h.eq_error hl]
    exact congrArg Except.error (e.moved_moved nowhere nowhere)

end LittleMan
