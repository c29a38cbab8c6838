import LittleMan.Assembly.WordCursor
import LittleMan.Proofs.Assembly.Grammar
import Mathlib.Data.List.Induction
import Mathlib.Data.List.TakeWhile

/-!
# Reading the words of a source

A caller of a cursor sees its answers alone. They are those of the list of tokens that the cursor
still has before it, from which a read takes the next word with the layout in front, passing the
layout takes that layout, and a peek takes nothing (`WordCursor.answers_eq`). So peeks can be left
out, and the reads go through the words of the source (`WordCursor.answers_ofSource`).

`WordCursor.passFrom_spec`, `read_spec` and `peek_spec` say for each call how far the cursor goes.
It goes back by a seek over tokens that were drawn before, which is never refused
(`Replay.Advanced.exists_seek?`).
-/

namespace LittleMan

/-! ### Layouts of tokens -/

namespace Token

/-- Whether the token belongs to the layout before the next word. -/
def isLayout (t : Located Token) : Bool := (word? t).isNone

/-- The layout with line breaks and comments behind it. -/
def extendLayouts (layout : String) (run : List (Located Token)) : String :=
  run.foldl (fun layout t => t.value.extendLayout layout) layout

end Token

/-- The text is the layout of the line breaks and comments: a line break for each line break, and
each comment on a line of its own. -/
inductive Layout.OfTokens : List (Located Token) → String → Prop where
  /-- Where there is nothing the layout is empty. -/
  | nil : OfTokens [] ""
  /-- A line break is kept. -/
  | newline {run : List (Located Token)} {text : String} (h : OfTokens run text) (span : Span) :
    OfTokens (run ++ [⟨.newline, span⟩]) (text ++ "\n")
  /-- A comment goes behind a line break -/
  | comment {run : List (Located Token)} {text : String} (h : OfTokens run text)
    (hends : ∃ front, text = front ++ "\n") (comment : String) (span : Span) :
    OfTokens (run ++ [⟨.comment comment, span⟩]) (text ++ comment)
  /-- or gets one. -/
  | commentOnNewLine {run : List (Located Token)} {text : String} (h : OfTokens run text)
    (hends : ¬ ∃ front, text = front ++ "\n") (comment : String) (span : Span) :
    OfTokens (run ++ [⟨.comment comment, span⟩]) (text ++ "\n" ++ comment)

namespace Token

theorem endsLine_iff {text : String} :
    text.toList.getLast? = some '\n' ↔ ∃ front, text = front ++ "\n" := by
  rw [List.getLast?_eq_some_iff]
  constructor
  · rintro ⟨front, h⟩
    refine ⟨String.ofList front, String.toList_inj.mp ?_⟩
    rw [h, String.toList_append, String.toList_ofList]
    rfl
  · rintro ⟨front, rfl⟩
    exact ⟨front.toList, String.toList_append ..⟩

theorem extendLayouts_append_singleton (layout : String) (run : List (Located Token))
    (t : Located Token) :
    extendLayouts layout (run ++ [t]) = t.value.extendLayout (extendLayouts layout run) :=
  List.foldl_append

theorem ofTokens_extendLayouts {run : List (Located Token)} (h : ∀ t ∈ run, isLayout t = true) :
    Layout.OfTokens run (extendLayouts "" run) := by
  induction run using List.reverseRecOn with
  | nil => exact .nil
  | append_singleton run t ih =>
    obtain ⟨hrun, ht⟩ := List.forall_mem_append.mp h
    rw [extendLayouts_append_singleton]
    obtain ⟨_ | text | text, span⟩ := t
    · exact .newline (ih hrun) span
    · simp only [extendLayout]
      split
      · next hends => exact .comment (ih hrun) (endsLine_iff.mp hends) text span
      · next hends => exact .commentOnNewLine (ih hrun) (hends ∘ endsLine_iff.mpr) text span
    · cases ht _ List.mem_cons_self

/-- Behind the layout there is a word, or nothing. -/
theorem isSome_word?_of_head?_dropWhile (tokens : List (Located Token)) :
    ∀ t ∈ (tokens.dropWhile isLayout).head?, (word? t).isSome := by
  intro t ht
  have hnot := List.head?_dropWhile_not isLayout tokens
  rw [Option.mem_def.mp ht] at hnot
  simpa [isLayout] using hnot

theorem filterMap_word?_dropWhile (tokens : List (Located Token)) :
    (tokens.dropWhile isLayout).filterMap word? = tokens.filterMap word? := by
  induction tokens with
  | nil => rfl
  | cons t tokens ih =>
    cases h : word? t with
    | none => rw [List.dropWhile_cons_of_pos (by simp [isLayout, h]), List.filterMap_cons_none h, ih]
    | some w => rw [List.dropWhile_cons_of_neg (by simp [isLayout, h])]

theorem filterMap_word?_tail (tokens : List (Located Token)) :
    (tokens.dropWhile isLayout).tail.filterMap word? = (tokens.filterMap word?).tail := by
  rw [← filterMap_word?_dropWhile tokens]
  have hhead := isSome_word?_of_head?_dropWhile tokens
  cases h : tokens.dropWhile isLayout with
  | nil => rfl
  | cons t rest =>
    rw [h] at hhead
    obtain ⟨w, hw⟩ := Option.isSome_iff_exists.mp (hhead t rfl)
    rw [List.filterMap_cons_some hw]
    rfl

end Token

namespace WordCursor

/-! ### Calls -/

/-- What can be asked of a cursor. -/
inductive Call where
  /-- To go to the next word and give the layout on the way. -/
  | passLayout
  /-- To read the next word. -/
  | read
  /-- To look at the next word. -/
  | peek
  deriving DecidableEq, Repr

/-- What a cursor answers. -/
inductive Answer where
  /-- The layout that was passed. -/
  | passed (layout : String)
  /-- The word that was read, if there was one. -/
  | read (word : Option (Located String))
  /-- The word that was looked at, if there was one. -/
  | peeked (word : Option (Located String))
  deriving DecidableEq, Repr

/-- Whether a look was answered. -/
def Answer.isPeeked : Answer → Bool
  | peeked _ => true
  | _ => false

/-- What was read, if a read was answered. -/
def Answer.read? : Answer → Option (Option (Located String))
  | read word => some word
  | _ => none

/-- The answer to a call, and the cursor afterwards. -/
def call (c : WordCursor) : Call → Answer × WordCursor
  | .passLayout => c.passLayout.map .passed id
  | .read => c.read.map .read id
  | .peek => c.peek.map .peeked id

/-- The answers to calls that are made one after the other. -/
def answers (c : WordCursor) : List Call → List Answer
  | [] => []
  | x :: xs => (c.call x).1 :: (c.call x).2.answers xs

/-! ### Calls on tokens -/

namespace Call

/-- What a call leaves of the tokens: a read takes the next word and the layout before it, and a
peek takes nothing. -/
def leave (tokens : List (Located Token)) : Call → List (Located Token)
  | passLayout => tokens.dropWhile Token.isLayout
  | read => (tokens.dropWhile Token.isLayout).tail
  | peek => tokens

/-- The answer to a call where these tokens are left. -/
def answer (tokens : List (Located Token)) : Call → Answer
  | passLayout => .passed (Token.extendLayouts "" (tokens.takeWhile Token.isLayout))
  | read => .read (tokens.filterMap Token.word?).head?
  | peek => .peeked (tokens.filterMap Token.word?).head?

/-- The answers to calls that are made one after the other. -/
def answers (tokens : List (Located Token)) : List Call → List Answer
  | [] => []
  | x :: xs => x.answer tokens :: answers (x.leave tokens) xs

variable {tokens : List (Located Token)}

theorem getElem?_answers_append (before after : List Call) (x : Call) :
    (answers tokens (before ++ x :: after))[before.length]? =
      some (x.answer (before.foldl leave tokens)) := by
  induction before generalizing tokens with
  | nil => rfl
  | cons y before ih => exact ih

/-- Calls that take nothing need not be made. -/
theorem answers_filter (calls : List Call) :
    answers tokens (calls.filter (· ≠ .peek)) =
      (answers tokens calls).filter fun a => !a.isPeeked := by
  induction calls generalizing tokens with
  | nil => rfl
  | cons x calls ih =>
    cases x with
    | peek => exact ih
    | passLayout => exact congrArg (_ :: ·) ih
    | read => exact congrArg (_ :: ·) ih

/-- The reads go through the words. -/
theorem filterMap_read?_answers (calls : List Call) :
    (answers tokens calls).filterMap Answer.read? =
      (List.range (calls.count .read)).map ((tokens.filterMap Token.word?)[·]?) := by
  induction calls generalizing tokens with
  | nil => rfl
  | cons x calls ih =>
    cases x with
    | passLayout =>
      rw [List.count_cons_of_ne (by decide), ← Token.filterMap_word?_dropWhile tokens]
      exact ih
    | read =>
      rw [List.count_cons_self, List.range_succ_eq_map, List.map_cons, List.map_map]
      refine congrArg₂ List.cons List.head?_eq_getElem? (ih.trans ?_)
      refine List.map_congr_left fun k _ => ?_
      rw [leave, Token.filterMap_word?_tail, List.getElem?_tail]
      rfl
    | peek =>
      rw [List.count_cons_of_ne (by decide)]
      exact ih

end Call

/-! ### Calls on cursors -/

theorem passFrom_of_end {tokens : Replay (Located Token)} (h : tokens.next? = none)
    (layout : String) : passFrom layout tokens = (layout, tokens) := by
  rw [passFrom]
  split
  · rfl
  all_goals
    next hnext => cases h.symm.trans hnext

theorem passFrom_of_layout {tokens drawn : Replay (Located Token)} {t : Located Token}
    (h : tokens.next? = some (t, drawn)) (ht : Token.isLayout t = true) (layout : String) :
    passFrom layout tokens = passFrom (t.value.extendLayout layout) drawn := by
  rw [passFrom]
  split <;> next hnext => cases h.symm.trans hnext <;> first | rfl | cases ht

/-- The cursor goes back before a word, which it has drawn. -/
theorem exists_passFrom_of_word {tokens drawn : Replay (Located Token)} {t : Located Token}
    (h : tokens.next? = some (t, drawn)) (ht : Token.isLayout t = false) (layout : String) :
    ∃ back, drawn.seek? (-1) = some back ∧ tokens.Advanced 0 back ∧
      passFrom layout tokens = (layout, back) := by
  obtain ⟨back, hback, hsame⟩ := (Replay.advanced_of_next? h).exists_seek?
  have hback : drawn.seek? (-1) = some back := hback
  refine ⟨back, hback, hsame, ?_⟩
  rw [passFrom]
  split <;> next hnext => cases h.symm.trans hnext <;> first | rw [hback]; rfl | cases ht

/-- **The layout is passed up to the next word.** -/
theorem passFrom_spec (layout : String) (tokens : Replay (Located Token)) :
    (passFrom layout tokens).1 =
        Token.extendLayouts layout (tokens.rest.takeWhile Token.isLayout) ∧
      tokens.Advanced (tokens.rest.takeWhile Token.isLayout).length
        (passFrom layout tokens).2 := by
  induction hrest : tokens.rest generalizing layout tokens with
  | nil =>
    rw [passFrom_of_end (Replay.next?_eq_none_iff.mpr hrest)]
    exact ⟨rfl, .refl tokens⟩
  | cons t rest ih =>
    obtain ⟨drawn, hnext, hdrawn, hadvanced⟩ := Replay.exists_next?_of_rest hrest
    cases ht : Token.isLayout t with
    | true =>
      obtain ⟨hlayout, hpassed⟩ := ih (t.value.extendLayout layout) drawn hdrawn
      rw [passFrom_of_layout hnext ht, List.takeWhile_cons_of_pos ht, List.length_cons,
        Nat.add_comm]
      exact ⟨hlayout, hadvanced.trans hpassed⟩
    | false =>
      obtain ⟨back, -, hsame, hpassed⟩ := exists_passFrom_of_word hnext ht layout
      rw [hpassed, List.takeWhile_cons_of_neg (by simp [ht])]
      exact ⟨rfl, hsame⟩

/-- **Passing the layout** gives what stands before the next word, and stops there. -/
theorem passLayout_spec (c : WordCursor) :
    c.passLayout.1 = Token.extendLayouts "" (c.tokens.rest.takeWhile Token.isLayout) ∧
      ∃ n, c.tokens.Advanced n c.passLayout.2.tokens ∧
        c.passLayout.2.tokens.rest = c.tokens.rest.dropWhile Token.isLayout := by
  obtain ⟨hlayout, hadvanced⟩ := passFrom_spec "" c.tokens
  have hdrop := @List.drop_left _ (c.tokens.rest.takeWhile Token.isLayout)
    (c.tokens.rest.dropWhile Token.isLayout)
  rw [List.takeWhile_append_dropWhile] at hdrop
  exact ⟨hlayout, _, hadvanced, hadvanced.rest.trans hdrop⟩

/-- **A read** gives the next word, and goes behind it. -/
theorem read_spec (c : WordCursor) :
    c.read.1 = (c.tokens.rest.filterMap Token.word?).head? ∧
      ∃ n, c.tokens.Advanced n c.read.2.tokens ∧
        c.read.2.tokens.rest = (c.tokens.rest.dropWhile Token.isLayout).tail := by
  obtain ⟨-, n, hpassed, hrest⟩ := c.passLayout_spec
  have hhead := Token.isSome_word?_of_head?_dropWhile c.tokens.rest
  rw [← Token.filterMap_word?_dropWhile]
  unfold read
  cases hwords : c.tokens.rest.dropWhile Token.isLayout with
  | nil =>
    rw [hwords] at hrest
    simp only [Replay.next?_eq_none_iff.mpr hrest]
    exact ⟨rfl, n, hpassed, hrest⟩
  | cons t rest =>
    rw [hwords] at hrest hhead
    obtain ⟨w, hw⟩ := Option.isSome_iff_exists.mp (hhead t rfl)
    obtain rfl := Token.word?_eq_some_iff.mp hw
    obtain ⟨drawn, hnext, hdrawn, hadvanced⟩ := Replay.exists_next?_of_rest hrest
    simp only [hnext]
    exact ⟨rfl, n + 1, hpassed.trans hadvanced, hdrawn⟩

/-- **A peek** gives what a read would, and goes back to where it sees what it saw before. -/
theorem peek_spec (c : WordCursor) :
    ∃ back, c.read.2.tokens.seek? (c.tokens.position - c.read.2.tokens.position) = some back ∧
      c.peek = (c.read.1, ⟨back⟩) ∧ back.rest = c.tokens.rest := by
  obtain ⟨-, n, hadvanced, -⟩ := c.read_spec
  obtain ⟨back, hback, hsame⟩ := hadvanced.exists_seek?
  have hamount : (c.tokens.position : Int) - c.read.2.tokens.position = -(n : Int) := by
    rw [hadvanced.position]
    omega
  rw [← hamount] at hback
  refine ⟨back, hback, ?_, hsame.rest⟩
  simp only [peek, hback, Option.getD_some]

/-- **A call answers for the tokens that are left, and leaves its share of them.** -/
theorem call_spec (c : WordCursor) (x : Call) :
    (c.call x).1 = x.answer c.tokens.rest ∧ (c.call x).2.tokens.rest = x.leave c.tokens.rest := by
  cases x with
  | passLayout =>
    obtain ⟨hlayout, -, -, hrest⟩ := c.passLayout_spec
    exact ⟨congrArg Answer.passed hlayout, hrest⟩
  | read =>
    obtain ⟨hword, -, -, hrest⟩ := c.read_spec
    exact ⟨congrArg Answer.read hword, hrest⟩
  | peek =>
    obtain ⟨back, -, hpeek, hrest⟩ := c.peek_spec
    rw [call, hpeek]
    exact ⟨congrArg Answer.peeked c.read_spec.1, hrest⟩

/-- **A cursor answers as the list of its tokens does**, whatever is asked of it. -/
theorem answers_eq (c : WordCursor) (calls : List Call) :
    c.answers calls = Call.answers c.tokens.rest calls := by
  induction calls generalizing c with
  | nil => rfl
  | cons x calls ih =>
    obtain ⟨hanswer, hrest⟩ := c.call_spec x
    rw [answers, Call.answers, hanswer, ih, hrest]

theorem rest_ofSource (source : String) :
    (ofSource source).tokens.rest = Token.ofSource source := rfl

/-- **Peeking cannot be told, and reading goes through the source.** Let calls be made of a cursor
at the start of a source.

- Without its peeks a caller gets the same other answers.
- A peek answers what a read in its place would.
- The reads answer the words of the source in order, and then that there is none.
- Passing the layout answers the layout of the line breaks and comments between what was taken by
  the calls before and the next word. -/
theorem answers_ofSource (source : String) (calls before after : List Call) :
    (ofSource source).answers (calls.filter (· ≠ .peek)) =
        ((ofSource source).answers calls).filter (fun a => !a.isPeeked) ∧
      (∃ word,
        ((ofSource source).answers (before ++ .peek :: after))[before.length]? =
          some (.peeked word) ∧
        ((ofSource source).answers (before ++ .read :: after))[before.length]? =
          some (.read word)) ∧
      ((ofSource source).answers calls).filterMap Answer.read? =
        (List.range (calls.count .read)).map ((Token.words 0 source.toList)[·]?) ∧
      ∃ run rest text, before.foldl Call.leave (Token.ofSource source) = run ++ rest ∧
        (∀ t ∈ rest.head?, (Token.word? t).isSome) ∧ Layout.OfTokens run text ∧
        ((ofSource source).answers (before ++ .passLayout :: after))[before.length]? =
          some (.passed text) := by
  simp only [answers_eq, rest_ofSource, Call.getElem?_answers_append]
  refine ⟨Call.answers_filter calls, ⟨_, rfl, rfl⟩, Call.filterMap_read?_answers calls, ?_⟩
  refine ⟨_, _, _, List.takeWhile_append_dropWhile.symm, Token.isSome_word?_of_head?_dropWhile _,
    Token.ofTokens_extendLayouts fun t ht => List.mem_takeWhile_imp ht, rfl⟩

/-- A peek at a word behind a layout leaves the layout to be passed. -/
example : (ofSource "A // b\n\n5").answers [.read, .peek, .passLayout, .read, .peek, .read] =
    [.read (some ⟨"A", ⟨0, 1⟩⟩), .peeked (some ⟨"5", ⟨8, 9⟩⟩), .passed "\n// b\n\n",
      .read (some ⟨"5", ⟨8, 9⟩⟩), .peeked none, .read none] := by
  decide +kernel

end WordCursor

end LittleMan
