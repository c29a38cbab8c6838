import LittleMan.Source.Span

/-!
# Locations

Offsets are for programs; people are told a line and a column. Both count from one, and columns
count characters.
-/

namespace LittleMan

/-- A line and a column, both counted from one. -/
structure Location where
  /-- One more than the number of line breaks before it. -/
  line : Nat
  /-- One more than the number of characters between the last line break and it. -/
  column : Nat
  deriving DecidableEq, Repr, Inhabited

namespace Location

/-- Where a text begins. -/
def start : Location := ⟨1, 1⟩

/-- The location after one more character. -/
def next (l : Location) (c : Char) : Location :=
  if c = '\n' then ⟨l.line + 1, 1⟩ else ⟨l.line, l.column + 1⟩

/-- The location right after the characters. -/
def after (cs : List Char) : Location := cs.foldl next start

theorem after_concat (cs : List Char) (c : Char) : after (cs ++ [c]) = (after cs).next c := by
  simp [after]

/-- Characters of one line only move the column. -/
theorem foldl_next {cs : List Char} (h : ∀ c ∈ cs, c ≠ '\n') (l : Location) :
    cs.foldl next l = ⟨l.line, l.column + cs.length⟩ := by
  induction cs generalizing l with
  | nil => rfl
  | cons c cs ih =>
    obtain ⟨hc, hcs⟩ := List.forall_mem_cons.mp h
    rw [List.foldl_cons, next, if_neg hc, ih hcs, List.length_cons, Nat.add_right_comm,
      Nat.add_assoc l.column]

/-- Behind some lines and a part of the next one. -/
theorem after_lines {lines : List (List Char)} (hlines : ∀ line ∈ lines, ∀ c ∈ line, c ≠ '\n')
    {cs : List Char} (hcs : ∀ c ∈ cs, c ≠ '\n') :
    after (lines.flatMap (· ++ ['\n']) ++ cs) = ⟨lines.length + 1, cs.length + 1⟩ := by
  have hfold (l : Location) (hl : l.column = 1) :
      (lines.flatMap (· ++ ['\n'])).foldl next l = ⟨l.line + lines.length, 1⟩ := by
    induction lines generalizing l with
    | nil =>
      rw [← hl]
      rfl
    | cons line lines ih =>
      obtain ⟨hline, hlines⟩ := List.forall_mem_cons.mp hlines
      rw [List.flatMap_cons, List.foldl_append, List.foldl_append, foldl_next hline,
        List.foldl_cons, List.foldl_nil, next, if_pos rfl, ih hlines _ rfl, List.length_cons,
        Nat.add_assoc, Nat.add_comm 1]
  rw [after, List.foldl_append, hfold start rfl, foldl_next hcs, start, Nat.add_comm 1,
    Nat.add_comm 1]

/-- The line counts the line breaks. -/
theorem line_after (cs : List Char) : (after cs).line = cs.count '\n' + 1 := by
  obtain ⟨ds, rfl⟩ : ∃ ds : List Char, cs = ds.reverse := ⟨cs.reverse, by simp⟩
  induction ds with
  | nil => rfl
  | cons d ds ih =>
    rw [List.reverse_cons, after_concat, next, List.count_append, ← Nat.add_right_comm, ← ih]
    split
    · next hbreak => simp [hbreak]
    · next hother => simp [hother]

/-- The column counts the characters behind the last line break. -/
theorem column_after (cs : List Char) :
    (after cs).column = (cs.reverse.takeWhile (· != '\n')).length + 1 := by
  obtain ⟨ds, rfl⟩ : ∃ ds : List Char, cs = ds.reverse := ⟨cs.reverse, by simp⟩
  rw [List.reverse_reverse]
  induction ds with
  | nil => rfl
  | cons d ds ih =>
    rw [List.reverse_cons, after_concat, next]
    split
    · next hbreak => simp [hbreak]
    · next hother => simp [hother, ih]

/-- The location of a byte offset; offsets past the end of the text count as its end. There is none
inside a character. -/
def ofOffset? (source : String) (offset : Nat) : Option Location :=
  let cs := source.toList
  (Source.splitAtByte? (min offset (Source.byteSize cs)) cs).map fun (before, _) => after before

theorem ofOffset?_byteSize {source : String} {before after : List Char}
    (h : source.toList = before ++ after) :
    ofOffset? source (Source.byteSize before) = some (Location.after before) := by
  have hmin : min (Source.byteSize before) (Source.byteSize source.toList) =
      Source.byteSize before := by
    rw [h, Source.byteSize_append]
    omega
  have hsplit : Source.splitAtByte? (Source.byteSize before) source.toList = some (before, after) :=
    Source.splitAtByte?_eq_some_iff.mpr ⟨h, rfl⟩
  simp only [ofOffset?, hmin, hsplit, Option.map_some]

end Location

/-- Where a span begins and ends, in lines and columns. -/
structure LineRange where
  /-- The location of the first character. -/
  start : Location
  /-- The location after the last character. -/
  stop : Location
  deriving DecidableEq, Repr, Inhabited

/-- The span in lines and columns, if both its ends lie between characters. -/
def Span.toLines? (span : Span) (source : String) : Option LineRange := do
  let first ← Location.ofOffset? source span.start
  let last ← Location.ofOffset? source span.stop
  return ⟨first, last⟩

end LittleMan
