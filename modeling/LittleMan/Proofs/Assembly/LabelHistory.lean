import LittleMan.Assembly.LabelTable
import LittleMan.Proofs.Text.Bytes

/-!
# What label tables have been told

A label table is told definitions and references, in any order and for any labels, and is asked for
addresses, records and the list of labels. What it answers depends on what it has been told, and for
one label on the calls about that label alone (`LabelTable.Call.about`): its record has the last of
their definitions and all of their references (`LabelTable.Call.told?`).

A call notes itself in the record of its label and leaves the others alone
(`LabelTable.get?_call`), so after any row of calls every record is what was told
(`LabelTable.get?_callAll`). All answers come from the records (`LabelTable.answers_congr`); those
about the list do since its order is strict, which leaves one list only (`LabelTable.Lists.unique`).
It follows that nobody can tell in which order labels have been called, as long as the calls about
each one of them come in the same order (`LabelTable.told_callAll`).
-/

namespace LittleMan.LabelTable

/-! ### Calls -/

/-- What a table can be told and asked. -/
inductive Call where
  /-- To define a label, in place of its definition before. -/
  | define (label : String) (definition : Definition)
  /-- To note a reference to a label. -/
  | refer (label : String) (span : Span)
  /-- For the address of a label. -/
  | address (label : String)
  /-- For all that is known about a label. -/
  | record (label : String)
  /-- For the labels that are defined. -/
  | defined
  deriving DecidableEq, Repr

/-- What a table answers. -/
inductive Answer where
  /-- Where the label was defined before, if it was. -/
  | replaced (place : Option Span)
  /-- The reference has been noted. -/
  | noted
  /-- The address of the label, if it is defined. -/
  | address (address : Option Nat)
  /-- What is known about the label, if it was defined or referred to. -/
  | record (record : Option LabelRecord)
  /-- The defined labels and their addresses. -/
  | listed (labels : List (String × Nat))
  deriving DecidableEq, Repr

/-- The answer to a call, and the table afterwards. -/
def call (t : LabelTable) : Call → Answer × LabelTable
  | .define label definition =>
    (.replaced ((t.definition? label).map Definition.span), t.define label definition)
  | .refer label span => (.noted, t.refer label span)
  | .address label => (.address (t.address? label), t)
  | .record label => (.record (t.get? label), t)
  | .defined => (.listed t.defined, t)

/-- The table after calls that are made one after the other. -/
def callAll (t : LabelTable) : List Call → LabelTable
  | [] => t
  | x :: xs => (t.call x).2.callAll xs

/-- The answers to calls that are made one after the other. -/
def answers (t : LabelTable) : List Call → List Answer
  | [] => []
  | x :: xs => (t.call x).1 :: (t.call x).2.answers xs

/-- Every call is answered by the table that the calls before have led to. -/
theorem getElem?_answers_append (t : LabelTable) (before after : List Call) (x : Call) :
    (t.answers (before ++ x :: after))[before.length]? = some ((t.callAll before).call x).1 := by
  induction before generalizing t with
  | nil => rfl
  | cons y before ih => exact ih (t.call y).2

/-! ### What has been told -/

namespace Call

/-- The label that the call tells something about; questions tell nothing. -/
def label? : Call → Option String
  | define label _ | refer label _ => some label
  | _ => none

/-- The definition that the call gives, if it does. -/
def definition? : Call → Option Definition
  | define _ definition => some definition
  | _ => none

/-- The reference that the call gives, if it does. -/
def reference? : Call → Option Span
  | refer _ span => some span
  | _ => none

/-- The calls that tell something about the label, in order. -/
def about (calls : List Call) (label : String) : List Call :=
  calls.filter fun x => x.label? = some label

/-- The last definition of the label. -/
def lastDefinition? (calls : List Call) (label : String) : Option Definition :=
  ((about calls label).filterMap definition?).getLast?

/-- The references to the label, in order. -/
def references (calls : List Call) (label : String) : List Span :=
  (about calls label).filterMap reference?

/-- What the calls tell about the label, if they tell anything. -/
def told? (calls : List Call) (label : String) : Option LabelRecord :=
  if about calls label = [] then none
  else some ⟨lastDefinition? calls label, references calls label⟩

/-- The record of a label after one more call about it. -/
def note : Call → LabelRecord → LabelRecord
  | define _ definition, known => { known with definition := some definition }
  | refer _ span, known => { known with references := known.references ++ [span] }
  | _, known => known

theorem about_append_singleton (calls : List Call) (x : Call) (label : String) :
    about (calls ++ [x]) label =
      if x.label? = some label then about calls label ++ [x] else about calls label := by
  rw [about, List.filter_append]
  by_cases h : x.label? = some label
  · simp [about, h]
  · simp [about, h]

theorem getD_told? (calls : List Call) (label : String) :
    (told? calls label).getD {} = ⟨lastDefinition? calls label, references calls label⟩ := by
  unfold told?
  split
  · next hnone => simp [lastDefinition?, references, hnone]
  · rfl

/-- **What one more call tells about a label.** -/
theorem told?_append_singleton (calls : List Call) (x : Call) (label : String) :
    told? (calls ++ [x]) label =
      if x.label? = some label then some (x.note ((told? calls label).getD {}))
      else told? calls label := by
  rw [getD_told?]
  unfold told? lastDefinition? references
  rw [about_append_singleton]
  by_cases h : x.label? = some label
  · rw [if_pos h, if_pos h, if_neg (by simp)]
    cases x with
    | define l definition | refer l span => simp [note, definition?, reference?]
    | address l | record l | defined => cases h
  · rw [if_neg h, if_neg h]

end Call

/-- **A call is noted in the record of its label**, and in no other. -/
theorem get?_call (t : LabelTable) (x : Call) (label : String) :
    (t.call x).2.get? label =
      if x.label? = some label then some (x.note ((t.get? label).getD {})) else t.get? label := by
  cases x with
  | define l definition =>
    rw [call, get?_define]
    simp only [Call.label?, Call.note, Option.some.injEq, eq_comm]
  | refer l span =>
    rw [call, get?_refer]
    simp only [Call.label?, Call.note, Option.some.injEq, eq_comm]
  | address l | record l | defined => rfl

/-- **So are calls that are made one after the other.** -/
theorem get?_callAll {t : LabelTable} {before : List Call} {label : String}
    (h : t.get? label = Call.told? before label) (calls : List Call) :
    (t.callAll calls).get? label = Call.told? (before ++ calls) label := by
  -- Calls go from the front of those to come to the end of those that were made.
  induction calls generalizing t before with
  | nil => rwa [List.append_nil]
  | cons x calls ih =>
    rw [List.append_cons]
    refine ih ?_
    rw [get?_call, h, Call.told?_append_singleton]

/-- A table that started empty knows what it was told. -/
theorem get?_callAll_empty (calls : List Call) (label : String) :
    (callAll ∅ calls).get? label = Call.told? calls label := by
  have hnone : (∅ : LabelTable).get? label = Call.told? [] label := rfl
  exact get?_callAll hnone calls

theorem definition?_callAll_empty (calls : List Call) (label : String) :
    (callAll ∅ calls).definition? label = Call.lastDefinition? calls label := by
  have hknown : ((Call.told? calls label).getD {}).definition = Call.lastDefinition? calls label := by
    rw [Call.getD_told?]
  rw [definition?, get?_callAll_empty, ← hknown]
  cases Call.told? calls label <;> rfl

/-! ### The list of labels -/

/-- The list has the labels that the calls define, and goes by address and then by label. -/
structure Lists (calls : List Call) (labels : List (String × Nat)) : Prop where
  /-- A label is listed if it was defined, with the address of its last definition, -/
  mem_iff : ∀ label address, (label, address) ∈ labels ↔
    (Call.lastDefinition? calls label).map Definition.address = some address
  /-- and once. -/
  nodup : (labels.map Prod.fst).Nodup
  /-- The addresses go up, and where they are the same the bytes of the labels do. -/
  sorted : labels.Pairwise fun a b =>
    a.2 < b.2 ∨ a.2 = b.2 ∧ a.1.toUTF8.toList < b.1.toUTF8.toList

theorem lists_defined (calls : List Call) : Lists calls (callAll ∅ calls).defined where
  mem_iff label address := by
    rw [mem_defined_iff, address?, definition?_callAll_empty]
  nodup := nodup_defined _
  sorted := by
    simpa only [Text.toUTF8_lt_iff] using pairwise_defined (callAll ∅ calls)

/-- **There is only one such list.** -/
theorem Lists.unique {calls : List Call} {labels labels' : List (String × Nat)}
    (h : Lists calls labels) (h' : Lists calls labels') : labels = labels' := by
  have hsorted := h.sorted
  have hsorted' := h'.sorted
  simp only [Text.toUTF8_lt_iff] at hsorted hsorted'
  refine eq_of_pairwise_of_mem_iff hsorted hsorted' fun (label, address) => ?_
  rw [h.mem_iff, h'.mem_iff]

/-- Tables with the same entries list the same labels, in whatever order they keep the entries. -/
theorem defined_eq_of_perm {t t' : LabelTable} (h : t.entries.Perm t'.entries) :
    t.defined = t'.defined := by
  refine defined_congr fun label => Option.ext fun known => ?_
  rw [t.get?_eq_some_iff, t'.get?_eq_some_iff, h.mem_iff]

/-! ### All answers -/

/-- Tables with the same records answer a call alike, and have the same records afterwards. -/
theorem call_congr {t t' : LabelTable} (h : ∀ label, t.get? label = t'.get? label) (x : Call) :
    (t.call x).1 = (t'.call x).1 ∧
      ∀ label, (t.call x).2.get? label = (t'.call x).2.get? label := by
  refine ⟨?_, fun label => by rw [get?_call, get?_call, h]⟩
  cases x with
  | define l definition => simp only [call, definition?, h]
  | refer l span => rfl
  | address l => simp only [call, address?, definition?, h]
  | record l => simp only [call, h]
  | defined => simp only [call, defined_congr h]

/-- **Tables with the same records cannot be told apart.** -/
theorem answers_congr {t t' : LabelTable} (h : ∀ label, t.get? label = t'.get? label)
    (calls : List Call) : t.answers calls = t'.answers calls := by
  induction calls generalizing t t' with
  | nil => rfl
  | cons x calls ih =>
    obtain ⟨hanswer, hrecords⟩ := call_congr h x
    rw [answers, answers, hanswer, ih hrecords]

/-- **A label table answers from what it has been told.** Let calls be made of an empty table.

- The address of a label is that of its last definition, and its record has this definition and all
  references to the label in order; there is no record if the label was neither defined nor referred
  to.
- Every definition has been answered with the place of the definition of the label before it.
- The defined labels are listed once, with their last addresses, by address and then by the bytes of
  the label. No other list does this, and a table that keeps the same entries in another order has
  the same list.
- Calls about different labels may be made in another order: as long as those about each label come
  as they did, the table gives the same answers from then on. -/
theorem told_callAll (calls : List Call) :
    (∀ label, (callAll ∅ calls).address? label =
        (Call.lastDefinition? calls label).map Definition.address) ∧
      (∀ label, (callAll ∅ calls).get? label =
        if Call.about calls label = [] then none
        else some ⟨Call.lastDefinition? calls label, Call.references calls label⟩) ∧
      (∀ before label definition after, calls = before ++ .define label definition :: after →
        (answers ∅ calls)[before.length]? =
          some (.replaced ((Call.lastDefinition? before label).map Definition.span))) ∧
      (∀ labels, Lists calls labels ↔ labels = (callAll ∅ calls).defined) ∧
      (∀ t : LabelTable, t.entries.Perm (callAll ∅ calls).entries →
        t.defined = (callAll ∅ calls).defined) ∧
      ∀ calls', (∀ label, Call.about calls' label = Call.about calls label) →
        ∀ later, (callAll ∅ calls').answers later = (callAll ∅ calls).answers later := by
  refine ⟨fun label => ?_, get?_callAll_empty calls, ?_, fun labels => ⟨fun h => ?_, ?_⟩,
    fun t h => defined_eq_of_perm h, fun calls' h => answers_congr fun label => ?_⟩
  · rw [address?, definition?_callAll_empty]
  · rintro before label definition after rfl
    rw [getElem?_answers_append, call, definition?_callAll_empty]
  · exact h.unique (lists_defined calls)
  · rintro rfl
    exact lists_defined calls
  · simp only [get?_callAll_empty, Call.told?, Call.lastDefinition?, Call.references, h]

/-- A label that is only referred to is not listed, and one that is defined again has the later
address only. -/
example : answers ∅ [.refer "c" ⟨9, 10⟩, .define "b" ⟨2, ⟨0, 1⟩⟩, .define "a" ⟨5, ⟨2, 3⟩⟩,
      .define "b" ⟨5, ⟨4, 5⟩⟩, .address "c", .defined] =
    [.noted, .replaced none, .replaced none, .replaced (some ⟨0, 1⟩), .address none,
      .listed [("a", 5), ("b", 5)]] := by
  cbv

end LittleMan.LabelTable
