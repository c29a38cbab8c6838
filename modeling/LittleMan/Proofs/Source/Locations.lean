import LittleMan.Source.Location
import Mathlib.Data.List.TakeWhile
import Mathlib.Data.Prod.Lex

/-!
# Lines and columns

Byte offsets, characters and lines are three ways to name a place in a text. An offset that does not
cut a character has a location, which counts the line breaks in front of it and the characters
behind the last of them (`Location.counts_after`).

Locations are ordered as they are read, lines first. Every character leads to a later location
(`Location.lt_next`), so that of two offsets the greater one has the later location, and no two
offsets share one. The offset of a location is found again by walking through the text
(`Location.offset?`). All of this is `Location.ofOffset?_faithful`.
-/

namespace LittleMan

/-! ### Offsets -/

namespace Source

theorem byteSize_eq_utf8ByteSize (cs : List Char) :
    byteSize cs = (String.ofList cs).utf8ByteSize := by
  induction cs with
  | nil => rfl
  | cons c cs ih =>
    have hcons : String.ofList (c :: cs) = String.singleton c ++ String.ofList cs := by
      rw [String.singleton_eq_ofList, ← String.ofList_append]
      rfl
    rw [hcons, String.utf8ByteSize_append, ← ih, byteSize_cons, String.utf8ByteSize_singleton]

theorem byteSize_toList (text : String) : byteSize text.toList = text.utf8ByteSize := by
  rw [byteSize_eq_utf8ByteSize, String.ofList_toList]

/-- A text can be cut exactly at the offsets between its characters. -/
theorem isSome_splitAtByte?_iff {source : String} {n : Nat} :
    (splitAtByte? n source.toList).isSome ↔ String.Pos.Raw.IsValid source ⟨n⟩ := by
  rw [String.Pos.Raw.isValid_iff_exists_append, Option.isSome_iff_exists, Prod.exists]
  constructor
  · rintro ⟨before, after, h⟩
    obtain ⟨hsource, hn⟩ := splitAtByte?_eq_some_iff.mp h
    refine ⟨String.ofList before, String.ofList after, ?_, ?_⟩
    · rw [← String.ofList_append, ← hsource, String.ofList_toList]
    · rw [String.Pos.Raw.ext_iff, String.byteIdx_rawEndPos, ← byteSize_eq_utf8ByteSize, hn]
  · rintro ⟨before, after, rfl, hn⟩
    refine ⟨before.toList, after.toList, splitAtByte?_eq_some_iff.mpr
      ⟨String.toList_append, ?_⟩⟩
    rw [byteSize_toList]
    exact (String.Pos.Raw.ext_iff.mp hn).symm

end Source

namespace Location

/-! ### The order of reading -/

/-- The line and the column, to be compared in this order. -/
def key (l : Location) : ℕ ×ₗ ℕ := toLex (l.line, l.column)

theorem key_injective : Function.Injective key := by
  rintro ⟨line, column⟩ ⟨line', column'⟩ h
  obtain ⟨rfl, rfl⟩ := Prod.mk.inj (toLex_inj.mp h)
  rfl

/-- Locations are read line by line, and from left to right on a line. -/
instance : LinearOrder Location := LinearOrder.lift' key key_injective

theorem lt_iff {l m : Location} :
    l < m ↔ l.line < m.line ∨ l.line = m.line ∧ l.column < m.column :=
  Prod.Lex.toLex_lt_toLex

/-- **Every character leads to a later location.** -/
theorem lt_next (l : Location) (c : Char) : l < l.next c := by
  unfold next
  split
  · exact lt_iff.mpr (.inl (Nat.lt_succ_self _))
  · exact lt_iff.mpr (.inr ⟨rfl, Nat.lt_succ_self _⟩)

theorem le_foldl_next (cs : List Char) (l : Location) : l ≤ cs.foldl next l := by
  induction cs generalizing l with
  | nil => exact le_rfl
  | cons c cs ih => exact (lt_next l c).le.trans (ih (l.next c))

theorem lt_foldl_next {cs : List Char} (h : cs ≠ []) (l : Location) : l < cs.foldl next l := by
  obtain ⟨c, cs, rfl⟩ := List.exists_cons_of_ne_nil h
  exact (lt_next l c).trans_le (le_foldl_next cs (l.next c))

/-- Of two beginnings of a text the one with fewer bytes ends at the earlier location. -/
theorem after_lt_after {before behind before' behind' : List Char}
    (h : before ++ behind = before' ++ behind')
    (hlt : Source.byteSize before < Source.byteSize before') : after before < after before' := by
  obtain ⟨mid, rfl⟩ := Source.exists_eq_append_of_byteSize_le h hlt.le
  rw [Source.byteSize_append] at hlt
  have hmid : mid ≠ [] := by
    rintro rfl
    exact lt_irrefl _ hlt
  rw [after, after, List.foldl_append]
  exact lt_foldl_next hmid _

/-! ### Counting -/

/-- The location counts the lines of what stands in front of it, and the characters on the last
of them. -/
structure Counts (l : Location) (before : List Char) : Prop where
  /-- The line is one plus the number of line breaks. -/
  line : l.line = 1 + before.count '\n'
  /-- The column is one plus the number of characters behind the last line break, or from the
  start on if there is none. -/
  column : ∃ lines last, before = lines ++ last ∧ (lines = [] ∨ lines.getLast? = some '\n') ∧
    '\n' ∉ last ∧ l.column = 1 + last.length

/-- **The location behind some characters counts them.** -/
theorem counts_after (before : List Char) : (after before).Counts before := by
  refine ⟨by rw [line_after, Nat.add_comm], ?_⟩
  refine ⟨(before.reverse.dropWhile (· != '\n')).reverse,
    (before.reverse.takeWhile (· != '\n')).reverse, ?_, ?_, ?_, ?_⟩
  · rw [← List.reverse_append, List.takeWhile_append_dropWhile, List.reverse_reverse]
  · have hhead := List.head?_dropWhile_not (· != '\n') before.reverse
    rw [List.getLast?_reverse]
    cases h : before.reverse.dropWhile (· != '\n') with
    | nil => exact .inl rfl
    | cons c cs =>
      rw [h] at hhead
      exact .inr (congrArg some (by simpa using hhead))
  · intro hmem
    have hline := List.mem_takeWhile_imp (List.mem_reverse.mp hmem)
    exact absurd hline (by decide)
  · rw [column_after, List.length_reverse, Nat.add_comm]

/-! ### Back to offsets -/

/-- How many bytes lie between the location `here`, where the characters begin, and the location
`target`. -/
def bytesTo? (target here : Location) : List Char → Option Nat
  | [] => if here = target then some 0 else none
  | c :: cs =>
    if here = target then some 0 else (bytesTo? target (here.next c) cs).map (c.utf8Size + ·)

/-- The byte offset that has this location in the source. -/
def offset? (l : Location) (source : String) : Option Nat := bytesTo? l start source.toList

theorem bytesTo?_eq_some_iff {target here : Location} {cs : List Char} {n : Nat} :
    bytesTo? target here cs = some n ↔ ∃ before behind, cs = before ++ behind ∧
      Source.byteSize before = n ∧ before.foldl next here = target := by
  -- from a location that is reached there is no way back to it
  have hstay {before : List Char} {l : Location} (h : before.foldl next l = l) : before = [] := by
    refine Classical.byContradiction fun hne => ?_
    exact (lt_foldl_next hne l).ne h.symm
  induction cs generalizing here n with
  | nil =>
    rw [bytesTo?]
    constructor
    · intro h
      split at h
      · next hhere => exact ⟨[], [], rfl, Option.some.inj h, hhere⟩
      · cases h
    · rintro ⟨before, behind, hnil, rfl, rfl⟩
      obtain ⟨rfl, rfl⟩ := List.append_eq_nil_iff.mp hnil.symm
      exact if_pos rfl
  | cons c cs ih =>
    rw [bytesTo?]
    by_cases hhere : here = target
    · rw [if_pos hhere]
      constructor
      · intro h
        exact ⟨[], c :: cs, rfl, Option.some.inj h, hhere⟩
      · rintro ⟨before, behind, -, rfl, htarget⟩
        obtain rfl := hstay (htarget.trans hhere.symm)
        rfl
    · rw [if_neg hhere, Option.map_eq_some_iff]
      constructor
      · rintro ⟨m, hm, rfl⟩
        obtain ⟨before, behind, rfl, rfl, rfl⟩ := ih.mp hm
        exact ⟨c :: before, behind, rfl, rfl, rfl⟩
      · rintro ⟨before, behind, hcs, rfl, rfl⟩
        cases before with
        | nil => exact absurd rfl hhere
        | cons d before =>
          obtain ⟨rfl, rfl⟩ := List.cons.inj hcs
          exact ⟨_, ih.mpr ⟨before, behind, rfl, rfl, rfl⟩, rfl⟩

/-! ### Offsets and locations -/

theorem ofOffset?_eq_some_iff {source : String} {offset : Nat} {l : Location} :
    ofOffset? source offset = some l ↔ ∃ before behind, source.toList = before ++ behind ∧
      Source.byteSize before = min offset source.utf8ByteSize ∧ after before = l := by
  simp only [ofOffset?, Source.byteSize_toList, Option.map_eq_some_iff, Prod.exists,
    Source.splitAtByte?_eq_some_iff, and_assoc]

/-- The greater of two offsets within the source has the later location. -/
theorem lt_of_ofOffset? {source : String} {m n : Nat} (hn : n ≤ source.utf8ByteSize)
    {l k : Location} (hl : ofOffset? source m = some l) (hk : ofOffset? source n = some k)
    (h : m < n) : l < k := by
  obtain ⟨before, behind, hsource, hm, rfl⟩ := ofOffset?_eq_some_iff.mp hl
  obtain ⟨before', behind', hsource', hn', rfl⟩ := ofOffset?_eq_some_iff.mp hk
  exact after_lt_after (hsource.symm.trans hsource') (by omega)

/-- **Locations tell offsets apart and say where they are.** Let an offset beyond the end of a
source count as its end.

- An offset has a location exactly if it does not lie inside a character. The location of the end of
  `before` counts the line breaks of `before` and the characters behind the last of them.
- Of two offsets within the source one is less than the other exactly if its location comes first.
  So different offsets have different locations.
- The offset within the source that has a location is found again from the location. -/
theorem ofOffset?_faithful (source : String) :
    (∀ offset, (ofOffset? source offset).isSome ↔
      String.Pos.Raw.IsValid source ⟨min offset source.utf8ByteSize⟩) ∧
    (∀ before behind : String, source = before ++ behind → ∀ offset,
      min offset source.utf8ByteSize = before.utf8ByteSize →
        ∃ l, ofOffset? source offset = some l ∧ l.Counts before.toList) ∧
    (∀ m n l k, m ≤ source.utf8ByteSize → n ≤ source.utf8ByteSize →
      ofOffset? source m = some l → ofOffset? source n = some k →
        (m < n ↔ l < k) ∧ (m = n ↔ l = k)) ∧
    ∀ l n, l.offset? source = some n ↔ n ≤ source.utf8ByteSize ∧ ofOffset? source n = some l := by
  refine ⟨fun offset => ?_, ?_, ?_, fun l n => ?_⟩
  · rw [← Source.isSome_splitAtByte?_iff, ofOffset?, Option.isSome_map, Source.byteSize_toList]
  · rintro before behind rfl offset hoffset
    refine ⟨after before.toList, ofOffset?_eq_some_iff.mpr ⟨before.toList, behind.toList,
      String.toList_append, ?_, rfl⟩, counts_after _⟩
    rw [Source.byteSize_toList, hoffset]
  · intro m n l k hm hn hl hk
    rcases lt_trichotomy m n with hlt | rfl | hgt
    · have hlk := lt_of_ofOffset? hn hl hk hlt
      exact ⟨iff_of_true hlt hlk, iff_of_false hlt.ne hlk.ne⟩
    · obtain rfl := Option.some.inj (hl.symm.trans hk)
      exact ⟨iff_of_false (lt_irrefl m) (lt_irrefl l), iff_of_true rfl rfl⟩
    · have hkl := lt_of_ofOffset? hm hk hl hgt
      exact ⟨iff_of_false hgt.not_gt hkl.not_gt, iff_of_false hgt.ne' hkl.ne'⟩
  · rw [offset?, bytesTo?_eq_some_iff, ofOffset?_eq_some_iff]
    constructor
    · rintro ⟨before, behind, hsource, rfl, hl⟩
      have hle : Source.byteSize before ≤ source.utf8ByteSize := by
        rw [← Source.byteSize_toList, hsource, Source.byteSize_append]
        exact Nat.le_add_right _ _
      exact ⟨hle, before, behind, hsource, (min_eq_left hle).symm, hl⟩
    · rintro ⟨hle, before, behind, hsource, hsize, hl⟩
      exact ⟨before, behind, hsource, hsize.trans (min_eq_left hle), hl⟩

/-- On a line behind a letter of two bytes, a character of four bytes moves the column by one. -/
theorem ofOffset?_faithful_of_bytes :
    ofOffset? "é\n😀x" 3 = some ⟨2, 1⟩ ∧ ofOffset? "é\n😀x" 7 = some ⟨2, 2⟩ ∧
      (⟨2, 1⟩ : Location) < ⟨2, 2⟩ ∧ offset? ⟨2, 2⟩ "é\n😀x" = some 7 := by
  have hthird : ofOffset? "é\n😀x" 3 = some ⟨2, 1⟩ := by decide +kernel
  have hseventh : ofOffset? "é\n😀x" 7 = some ⟨2, 2⟩ := by decide +kernel
  obtain ⟨-, -, horder, hback⟩ := ofOffset?_faithful "é\n😀x"
  exact ⟨hthird, hseventh,
    (horder 3 7 _ _ (by decide) (by decide) hthird hseventh).1.mp (by decide),
    (hback _ 7).mpr ⟨by decide, hseventh⟩⟩

end Location

end LittleMan
