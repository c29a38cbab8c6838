/-!
# Spans

Parts of a source text are named by their byte offsets in its UTF-8 form: a `Span` runs from one
offset up to, and not including, another. `splitAtByte?` cuts a text at an offset and refuses to
cut inside a character.
-/

namespace LittleMan

/-- The bytes from `start` up to `stop`. -/
structure Span where
  /-- The offset of the first byte. -/
  start : Nat
  /-- The offset after the last byte. -/
  stop : Nat
  deriving DecidableEq, Repr, Inhabited

/-- A value and the part of the source it was read from. -/
structure Located (α : Type) where
  /-- What was read. -/
  value : α
  /-- Where it stands. -/
  span : Span
  deriving DecidableEq, Repr, Inhabited

namespace Source

/-- How many bytes the characters take. -/
def byteSize : List Char → Nat
  | [] => 0
  | c :: cs => c.utf8Size + byteSize cs

@[simp] theorem byteSize_nil : byteSize [] = 0 := rfl

@[simp] theorem byteSize_cons (c : Char) (cs : List Char) :
    byteSize (c :: cs) = c.utf8Size + byteSize cs := rfl

@[simp] theorem byteSize_append (cs ds : List Char) :
    byteSize (cs ++ ds) = byteSize cs + byteSize ds := by
  induction cs with
  | nil => simp
  | cons c cs ih => simp [ih, Nat.add_assoc]

theorem byteSize_pos {cs : List Char} (h : cs ≠ []) : 0 < byteSize cs := by
  obtain ⟨c, cs, rfl⟩ := List.exists_cons_of_ne_nil h
  exact Nat.add_pos_left c.utf8Size_pos _

/-- Of two beginnings of a text one that has no more bytes is a beginning of the other. -/
theorem exists_eq_append_of_byteSize_le {cs ds cs' ds' : List Char} (h : cs ++ ds = cs' ++ ds')
    (hle : byteSize cs ≤ byteSize cs') : ∃ mid, cs' = cs ++ mid := by
  rcases List.append_eq_append_iff.mp h with ⟨mid, hmid, -⟩ | ⟨mid, rfl, -⟩
  · exact ⟨mid, hmid⟩
  · have hnil : mid = [] := by
      refine Classical.byContradiction fun hne => ?_
      have hpos := byteSize_pos hne
      rw [byteSize_append] at hle
      omega
    exact ⟨[], by rw [hnil, List.append_nil, List.append_nil]⟩

/-- The characters before and after a byte offset, or `none` if the offset lies inside a character
or past the end. -/
def splitAtByte? : Nat → List Char → Option (List Char × List Char)
  | 0, cs => some ([], cs)
  | _ + 1, [] => none
  | n + 1, c :: cs =>
    if c.utf8Size ≤ n + 1 then
      (splitAtByte? (n + 1 - c.utf8Size) cs).map fun (before, after) => (c :: before, after)
    else none

/-- A text can be cut exactly where a part of it ends. -/
theorem splitAtByte?_eq_some_iff {n : Nat} {cs before after : List Char} :
    splitAtByte? n cs = some (before, after) ↔ cs = before ++ after ∧ byteSize before = n := by
  induction cs generalizing n before with
  | nil =>
    cases n with
    | zero =>
      cases before with
      | nil => simp [splitAtByte?, eq_comm]
      | cons d ds => simp [splitAtByte?]
    | succ n =>
      simp only [splitAtByte?, reduceCtorEq, false_iff, not_and]
      intro h
      simp [(List.append_eq_nil_iff.1 h.symm).1]
  | cons c cs ih =>
    have hpos := c.utf8Size_pos
    cases n with
    | zero =>
      cases before with
      | nil => simp [splitAtByte?, eq_comm]
      | cons d ds =>
        have hd := d.utf8Size_pos
        simp only [splitAtByte?, byteSize_cons, Option.some.injEq, Prod.mk.injEq, reduceCtorEq,
          false_and, false_iff, not_and]
        intro _ h
        omega
    | succ n =>
      unfold splitAtByte?
      cases before with
      | nil => split <;> simp
      | cons d ds =>
        split
        · rename_i hle
          simp only [Option.map_eq_some_iff, Prod.mk.injEq, List.cons.injEq, Prod.exists,
            List.cons_append, byteSize_cons]
          constructor
          · rintro ⟨a, b, h, ⟨rfl, rfl⟩, rfl⟩
            obtain ⟨rfl, hn⟩ := ih.1 h
            exact ⟨⟨rfl, rfl⟩, by omega⟩
          · rintro ⟨⟨rfl, rfl⟩, hn⟩
            exact ⟨ds, after, ih.2 ⟨rfl, by omega⟩, ⟨rfl, rfl⟩, rfl⟩
        · rename_i hgt
          simp only [reduceCtorEq, List.cons_append, List.cons.injEq, byteSize_cons, false_iff,
            not_and]
          rintro ⟨rfl, -⟩ hn
          omega

/-- The characters of a span, or `none` if the span ends before it starts, cuts a character or
leaves the text. -/
def slice? (cs : List Char) (span : Span) : Option (List Char) :=
  if span.start ≤ span.stop then
    (splitAtByte? span.start cs).bind fun (_, rest) =>
      (splitAtByte? (span.stop - span.start) rest).map Prod.fst
  else none

theorem slice?_eq_some_iff {cs part : List Char} {span : Span} :
    slice? cs span = some part ↔ ∃ before after, cs = before ++ (part ++ after) ∧
      byteSize before = span.start ∧ span.start + byteSize part = span.stop := by
  unfold slice?
  constructor
  · intro h
    split at h
    · rename_i hle
      obtain ⟨⟨before, rest⟩, hbefore, h⟩ := Option.bind_eq_some_iff.mp h
      obtain ⟨⟨part', after⟩, hpart, rfl⟩ := Option.map_eq_some_iff.mp h
      obtain ⟨rfl, hstart⟩ := splitAtByte?_eq_some_iff.mp hbefore
      obtain ⟨rfl, hsize⟩ := splitAtByte?_eq_some_iff.mp hpart
      exact ⟨before, after, rfl, hstart, hsize ▸ Nat.add_sub_of_le hle⟩
    · cases h
  · rintro ⟨before, after, rfl, hstart, hstop⟩
    have hbefore : splitAtByte? span.start (before ++ (part ++ after)) =
        some (before, part ++ after) := splitAtByte?_eq_some_iff.mpr ⟨rfl, hstart⟩
    have hpart : splitAtByte? (span.stop - span.start) (part ++ after) = some (part, after) :=
      splitAtByte?_eq_some_iff.mpr ⟨rfl, by omega⟩
    have hle : span.start ≤ span.stop := hstop ▸ Nat.le_add_right ..
    simp only [if_pos hle, hbefore, Option.bind_some, hpart, Option.map_some]

end Source

/-- The text of the span in `source`, if it has one. -/
def Span.text? (span : Span) (source : String) : Option String :=
  (Source.slice? source.toList span).map String.ofList

/-- A span has a text exactly if the source consists of what stands before the span, of the text and
of what stands behind it. -/
theorem Span.text?_eq_some_iff {span : Span} {source text : String} :
    span.text? source = some text ↔ ∃ before after,
      source.toList = before ++ (text.toList ++ after) ∧ Source.byteSize before = span.start ∧
        span.start + Source.byteSize text.toList = span.stop := by
  rw [text?, ← Source.slice?_eq_some_iff]
  constructor
  · intro h
    obtain ⟨part, hpart, rfl⟩ := Option.map_eq_some_iff.mp h
    rw [hpart, String.toList_ofList]
  · intro h
    rw [h, Option.map_some, String.ofList_toList]

/-- Two spans of which one stands behind the other have their texts at both ends of what reaches
from the first to the second. -/
theorem Span.exists_text?_between {source first second : String} {s t : Span}
    (hs : s.text? source = some first) (ht : t.text? source = some second) (h : s.stop ≤ t.start) :
    ∃ between, text? ⟨s.start, t.stop⟩ source = some (first ++ between ++ second) := by
  obtain ⟨before, after, hsource, hstart, hstop⟩ := text?_eq_some_iff.mp hs
  obtain ⟨before', after', hsource', hstart', hstop'⟩ := text?_eq_some_iff.mp ht
  rw [← List.append_assoc] at hsource
  obtain ⟨mid, rfl⟩ := Source.exists_eq_append_of_byteSize_le (hsource.symm.trans hsource') (by
    rw [Source.byteSize_append]
    omega)
  refine ⟨String.ofList mid, text?_eq_some_iff.mpr ⟨before, after', ?_, hstart, ?_⟩⟩
  · rw [hsource']
    simp
  · rw [Source.byteSize_append, Source.byteSize_append] at hstart'
    simp only [String.toList_append, String.toList_ofList, Source.byteSize_append]
    omega

end LittleMan
