import Mathlib.Data.List.TakeWhile
import LittleMan.Proofs.Assembly.Grammar
import LittleMan.Proofs.Assembly.Places

/-!
# How texts fall into tokens

What the scanner makes of a text that begins with a word, a comment, a line break or a blank, as one
equation for each (`scan_word`, `scan_comment`, `scan_newline`, `scan_blank`). A text further on in
the source falls into the same tokens, further on (`scan_add`). What is a word among the tokens has
equations of the same kind (`words_word`, `words_blank`, `words_eq_map`).
-/

namespace LittleMan.Token

/-! ### Shapes -/

/-- The characters of a word: at least one, all above the space, and no comment. -/
structure IsWord (w : List Char) : Prop where
  /-- There is a character. -/
  ne_nil : w ≠ []
  /-- Every character can stand in a word. -/
  chars : ∀ c ∈ w, isWordChar c = true
  /-- No comment begins here. -/
  noComment : ['/', '/'].isPrefixOf w = false

instance (w : List Char) : Decidable (IsWord w) :=
  decidable_of_iff (w ≠ [] ∧ w.all isWordChar = true ∧ ['/', '/'].isPrefixOf w = false)
    ⟨fun ⟨h₁, h₂, h₃⟩ => ⟨h₁, List.all_eq_true.mp h₂, h₃⟩,
      fun ⟨h₁, h₂, h₃⟩ => ⟨h₁, List.all_eq_true.mpr h₂, h₃⟩⟩

/-- The characters of a comment: two slashes, and no line break. -/
structure IsComment (cs : List Char) : Prop where
  /-- It begins with two slashes. -/
  slashes : ['/', '/'].isPrefixOf cs = true
  /-- It ends before the line does. -/
  line : ∀ c ∈ cs, c ≠ '\n'

/-- Whether a word in front of the text would end there. -/
def EndsWord (rest : List Char) : Prop := ∀ c ∈ rest.head?, isWordChar c = false

/-- Whether a comment in front of the text would end there. -/
def EndsComment (rest : List Char) : Prop := ∀ c ∈ rest.head?, c = '\n'

theorem ne_newline_of_isWordChar {c : Char} (h : isWordChar c = true) : c ≠ '\n' := by
  rintro rfl
  revert h
  decide

theorem EndsComment.endsWord {rest : List Char} (h : EndsComment rest) : EndsWord rest := by
  intro c hc
  rw [h c hc]
  rfl

theorem endsWord_cons {c : Char} {rest : List Char} (h : isWordChar c = false) :
    EndsWord (c :: rest) := by
  rintro d hd
  obtain rfl : c = d := by simpa using hd
  exact h

theorem endsComment_cons (rest : List Char) : EndsComment ('\n' :: rest) := by
  rintro d hd
  exact (Option.some.inj hd).symm

/-- Two slashes at the head are seen whatever follows a text of two characters or a word. -/
theorem isPrefixOf_append_of_endsWord {w rest : List Char} (hw : w ≠ []) (hr : EndsWord rest) :
    ['/', '/'].isPrefixOf (w ++ rest) = ['/', '/'].isPrefixOf w := by
  obtain _ | ⟨a, _ | ⟨b, w⟩⟩ := w
  · exact absurd rfl hw
  · cases rest with
    | nil => rfl
    | cons c rest =>
      have hc : c ≠ '/' := by
        rintro rfl
        exact absurd (hr '/' rfl) (by decide)
      simp [List.isPrefixOf, hc.symm]
  · simp [List.isPrefixOf]

theorem takeWhile_append_of_head {p : Char → Bool} {w rest : List Char} (hw : ∀ c ∈ w, p c = true)
    (hr : ∀ c ∈ rest.head?, p c = false) :
    (w ++ rest).takeWhile p = w ∧ (w ++ rest).dropWhile p = rest := by
  rw [List.takeWhile_append_of_pos hw, List.dropWhile_append_of_pos hw]
  cases rest with
  | nil => simp
  | cons c rest => simp [hr c rfl]

/-- Where a word ends in two equal texts it is the same word. -/
theorem eq_of_append_eq {w w' rest rest' : List Char} (hw : ∀ c ∈ w, isWordChar c = true)
    (hw' : ∀ c ∈ w', isWordChar c = true) (hr : EndsWord rest) (hr' : EndsWord rest')
    (h : w ++ rest = w' ++ rest') : w = w' ∧ rest = rest' := by
  obtain ⟨htake, hdrop⟩ := takeWhile_append_of_head hw hr
  obtain ⟨htake', hdrop'⟩ := takeWhile_append_of_head hw' hr'
  rw [h] at htake hdrop
  exact ⟨htake.symm.trans htake', hdrop.symm.trans hdrop'⟩

theorem head?_dropWhile {p : Char → Bool} {cs : List Char} :
    ∀ c ∈ (cs.dropWhile p).head?, p c = false := by
  intro c hc
  have hnot := List.head?_dropWhile_not p cs
  rw [Option.mem_def.mp hc] at hnot
  exact hnot

/-! ### Reading on -/

@[simp] theorem scan_nil (offset : Nat) : scan offset [] = [] := by rw [scan]

@[simp] theorem scan_newline (offset : Nat) (cs : List Char) :
    scan offset ('\n' :: cs) = ⟨newline, ⟨offset, offset + 1⟩⟩ :: scan (offset + 1) cs := by
  rw [scan, if_pos rfl]

theorem scan_blank {c : Char} (hc : isWordChar c = false) (hn : c ≠ '\n') (offset : Nat)
    (cs : List Char) : scan offset (c :: cs) = scan (offset + c.utf8Size) cs := by
  rw [scan, if_neg hn, if_neg (by simp [hc])]

theorem scan_wordChar {c : Char} (hc : isWordChar c = true) (offset : Nat) (cs : List Char) :
    scan offset (c :: cs) =
      ⟨ofLexeme (lexeme (c :: cs)),
        ⟨offset, offset + Source.byteSize (lexeme (c :: cs))⟩⟩ ::
        scan (offset + Source.byteSize (lexeme (c :: cs))) (afterLexeme (c :: cs)) := by
  rw [scan, if_neg (ne_newline_of_isWordChar hc), if_pos hc]

/-- A text that is known to begin with the lexeme `read` goes on behind it. -/
theorem scan_lexeme {read rest : List Char} (hhead : ∃ c ∈ read.head?, isWordChar c = true)
    (hread : lexeme (read ++ rest) = read) (hrest : afterLexeme (read ++ rest) = rest)
    (offset : Nat) :
    scan offset (read ++ rest) =
      ⟨ofLexeme read, ⟨offset, offset + Source.byteSize read⟩⟩ ::
        scan (offset + Source.byteSize read) rest := by
  obtain ⟨c, hmem, hc⟩ := hhead
  obtain ⟨tail, rfl⟩ := List.head?_eq_some_iff.mp hmem
  have hscan := scan_wordChar hc offset (tail ++ rest)
  rw [List.cons_append] at *
  rwa [hread, hrest] at hscan

/-- **A word is read up to where it ends.** -/
theorem scan_word {w rest : List Char} (hw : IsWord w) (hr : EndsWord rest) (offset : Nat) :
    scan offset (w ++ rest) =
      ⟨word (String.ofList w), ⟨offset, offset + Source.byteSize w⟩⟩ ::
        scan (offset + Source.byteSize w) rest := by
  have hslashes : ['/', '/'].isPrefixOf (w ++ rest) = false :=
    (isPrefixOf_append_of_endsWord hw.ne_nil hr).trans hw.noComment
  obtain ⟨htake, hdrop⟩ := takeWhile_append_of_head hw.chars hr
  have hlexeme : lexeme (w ++ rest) = w := by rw [lexeme, hslashes, if_neg (by simp), htake]
  have hafter : afterLexeme (w ++ rest) = rest := by
    rw [afterLexeme, hslashes, if_neg (by simp), hdrop]
  obtain ⟨c, tail, rfl⟩ := List.exists_cons_of_ne_nil hw.ne_nil
  rw [scan_lexeme ⟨c, rfl, hw.chars c List.mem_cons_self⟩ hlexeme hafter, ofLexeme, hw.noComment]
  rfl

/-- **A comment is read up to the end of its line.** -/
theorem scan_comment {cs rest : List Char} (hcs : IsComment cs) (hr : EndsComment rest)
    (offset : Nat) :
    scan offset (cs ++ rest) =
      ⟨comment (String.ofList cs), ⟨offset, offset + Source.byteSize cs⟩⟩ ::
        scan (offset + Source.byteSize cs) rest := by
  obtain ⟨tail, rfl⟩ := List.isPrefixOf_iff_prefix.mp hcs.slashes
  have hslashes : ['/', '/'].isPrefixOf (['/', '/'] ++ tail ++ rest) = true := by
    simp [List.isPrefixOf]
  have hline : ∀ c ∈ ['/', '/'] ++ tail, (c != '\n') = true := fun c hc => by
    simpa using hcs.line c hc
  obtain ⟨htake, hdrop⟩ := takeWhile_append_of_head hline fun c hc => by simpa using hr c hc
  have hlexeme : lexeme (['/', '/'] ++ tail ++ rest) = ['/', '/'] ++ tail := by
    rw [lexeme, if_pos hslashes, htake]
  have hafter : afterLexeme (['/', '/'] ++ tail ++ rest) = rest := by
    rw [afterLexeme, if_pos hslashes, hdrop]
  rw [scan_lexeme ⟨'/', rfl, by decide⟩ hlexeme hafter, ofLexeme, if_pos hcs.slashes]

/-! ### All tokens -/

/-- What can be said of a token without its neighbours. -/
def WellFormed : Token → Prop
  | newline => True
  | comment text => IsComment text.toList
  | word text => IsWord text.toList

/-- The word or comment at the head shows what it is. -/
theorem isPrefixOf_lexeme (cs : List Char) :
    ['/', '/'].isPrefixOf (lexeme cs) = ['/', '/'].isPrefixOf cs := by
  unfold lexeme
  cases hslashes : ['/', '/'].isPrefixOf cs with
  | true =>
    obtain ⟨tail, rfl⟩ := List.isPrefixOf_iff_prefix.mp hslashes
    simp [List.isPrefixOf]
  | false =>
    rw [Bool.eq_false_iff, Ne, List.isPrefixOf_iff_prefix] at hslashes ⊢
    simp only [Bool.false_eq_true, if_false]
    exact fun h => hslashes (h.trans ( List.takeWhile_prefix _))

/-- What stands at the head is a word, if it is no comment. -/
theorem isWord_takeWhile {c : Char} (hc : isWordChar c = true) {cs : List Char}
    (hslashes : ['/', '/'].isPrefixOf (c :: cs) = false) :
    IsWord ((c :: cs).takeWhile isWordChar) := by
  refine ⟨by simp [hc], fun d hd => List.mem_takeWhile_imp hd, ?_⟩
  have hlexeme := isPrefixOf_lexeme (c :: cs)
  rwa [lexeme, hslashes, if_neg (by simp)] at hlexeme

theorem wellFormed_ofLexeme {c : Char} (hc : isWordChar c = true) (cs : List Char) :
    (ofLexeme (lexeme (c :: cs))).WellFormed := by
  have hlexeme := isPrefixOf_lexeme (c :: cs)
  unfold ofLexeme
  cases hslashes : ['/', '/'].isPrefixOf (c :: cs) with
  | true =>
    rw [hslashes] at hlexeme
    rw [hlexeme, if_pos rfl]
    refine ⟨by simpa using hlexeme, fun d hd => ?_⟩
    rw [String.toList_ofList, lexeme, hslashes, if_pos rfl] at hd
    simpa using List.mem_takeWhile_imp hd
  | false =>
    rw [hslashes] at hlexeme
    rw [hlexeme, if_neg (by simp), WellFormed, String.toList_ofList, lexeme, hslashes,
      if_neg (by simp)]
    exact isWord_takeWhile hc hslashes

theorem endsComment_dropLine (cs : List Char) : EndsComment (cs.dropWhile (· != '\n')) := by
  intro c hc
  simpa using head?_dropWhile c hc

theorem isComment_line {cs : List Char} (h : ['/', '/'].isPrefixOf cs = true) :
    IsComment (cs.takeWhile (· != '\n')) := by
  refine ⟨?_, fun c hc => by simpa using List.mem_takeWhile_imp hc⟩
  have hlexeme := isPrefixOf_lexeme cs
  rwa [lexeme, if_pos h, h] at hlexeme

theorem endsComment_afterLexeme {cs : List Char} (h : ['/', '/'].isPrefixOf cs = true) :
    EndsComment (afterLexeme cs) := by
  rw [afterLexeme, if_pos h]
  exact endsComment_dropLine cs

/-- **What holds behind a line break, a blank, a word or a comment if it holds of the rest** holds
of every text. -/
theorem text_induction {motive : List Char → Prop} (nil : motive [])
    (newline : ∀ cs, motive cs → motive ('\n' :: cs))
    (blank : ∀ c cs, isWordChar c = false → c ≠ '\n' → motive cs → motive (c :: cs))
    (word : ∀ w rest, IsWord w → EndsWord rest → motive rest → motive (w ++ rest))
    (comment : ∀ text rest, IsComment text → EndsComment rest → motive rest →
      motive (text ++ rest))
    (cs : List Char) : motive cs := by
  induction 0, cs using scan.induct with
  | case1 _ => exact nil
  | case2 _ cs ih => exact newline cs ih
  | case3 _ c cs _ hc _ _ ih =>
    rw [← lexeme_append_afterLexeme (c :: cs)]
    cases hslashes : ['/', '/'].isPrefixOf (c :: cs) with
    | true =>
      have hends := endsComment_afterLexeme hslashes
      rw [lexeme, if_pos hslashes] at *
      exact comment _ _ (isComment_line hslashes) hends ih
    | false =>
      have hends : EndsWord (afterLexeme (c :: cs)) := by
        rw [afterLexeme, if_neg (by simp [hslashes])]
        exact head?_dropWhile
      rw [lexeme, if_neg (by simp [hslashes])] at *
      exact word _ _ (isWord_takeWhile hc hslashes) hends ih
  | case4 _ c cs hn hc ih => exact blank c cs (by simpa using hc) hn ih

/-- **The tokens of a text are well-formed.** -/
theorem wellFormed_of_mem_scan {offset : Nat} {cs : List Char} :
    ∀ t ∈ scan offset cs, t.value.WellFormed := by
  induction offset, cs using scan.induct with
  | case1 offset => simp
  | case2 offset cs ih =>
    rw [scan_newline]
    exact List.forall_mem_cons.mpr ⟨trivial, ih⟩
  | case3 offset c cs hn hc read stop ih =>
    rw [scan_wordChar hc]
    exact List.forall_mem_cons.mpr ⟨wellFormed_ofLexeme hc cs, ih⟩
  | case4 offset c cs hn hc ih =>
    rw [scan_blank (by simpa using hc) hn]
    exact ih

/-- **A text further on falls into the same tokens, further on.** -/
theorem scan_add (offset distance : Nat) (cs : List Char) :
    scan (offset + distance) cs = (scan offset cs).map (Located.moved (· + distance)) := by
  induction offset, cs using scan.induct with
  | case1 offset => simp
  | case2 offset cs ih =>
    rw [scan_newline, scan_newline, List.map_cons, ← ih]
    simp only [Located.moved, Span.moved, Nat.add_right_comm offset 1]
  | case3 offset c cs hn hc read stop ih =>
    rw [scan_wordChar hc, scan_wordChar hc, List.map_cons, ← ih]
    simp only [Located.moved, Span.moved, stop, read, Nat.add_right_comm offset distance]
  | case4 offset c cs hn hc ih =>
    rw [Bool.not_eq_true] at hc
    rw [scan_blank hc hn, scan_blank hc hn, ← ih, Nat.add_right_comm offset distance]

/-! ### Words -/

theorem words_word {w : String} (hw : IsWord w.toList) {rest : List Char} (hrest : EndsWord rest)
    (offset : Nat) : words offset (w.toList ++ rest) =
      ⟨w, ⟨offset, offset + Source.byteSize w.toList⟩⟩ ::
        words (offset + Source.byteSize w.toList) rest := by
  rw [words, scan_word hw hrest, String.ofList_toList]
  rfl

theorem words_blank {c : Char} (hc : isWordChar c = false) (offset : Nat) (cs : List Char) :
    words offset (c :: cs) = words (offset + c.utf8Size) cs := by
  by_cases hn : c = '\n'
  · rw [hn, words, scan_newline]
    rfl
  · rw [words, scan_blank hc hn]
    rfl

theorem words_eq_nil {cs : List Char} (h : ∀ c ∈ cs, isWordChar c = false) (offset : Nat) :
    words offset cs = [] := by
  induction cs generalizing offset with
  | nil =>
    rw [words, scan_nil]
    rfl
  | cons c cs ih =>
    obtain ⟨hc, hcs⟩ := List.forall_mem_cons.mp h
    rw [words_blank hc]
    exact ih hcs _

/-- The words of a text further on are the same words, further on. -/
theorem words_eq_map (offset : Nat) (cs : List Char) :
    words offset cs = (words 0 cs).map (Located.moved (· + offset)) := by
  have hscan := scan_add 0 offset cs
  rw [Nat.zero_add] at hscan
  have hword : word? ∘ Located.moved (· + offset) =
      fun t => (word? t).map (Located.moved (· + offset)) := by
    funext t
    obtain ⟨_ | text | text, span⟩ := t <;> rfl
  rw [words, hscan, words, List.filterMap_map, List.map_filterMap, hword]

end LittleMan.Token
