import LittleMan.Assembly.Listing

/-!
# Places do not matter to the grammar

Words, statements and errors say where in the source they stand. This module moves all these places
by one function `f` on offsets, statements by a number of addresses besides, and changes layouts by
a function `g`. Reading statements commutes with that (`readStatements_moved`): which statements
there are, and which error, depends on the words alone.

With `f` adding a distance this is what a text in front of the source does; with `f` constant it is
what "the same but for the places" means (`Statement.bare`, `Listing.bare`).
-/

namespace LittleMan

/-! ### Moving -/

/-- The span with both its ends moved. -/
def Span.moved (f : Nat → Nat) (s : Span) : Span := ⟨f s.start, f s.stop⟩

/-- The value at the moved place. -/
def Located.moved {α : Type} (f : Nat → Nat) (x : Located α) : Located α :=
  ⟨x.value, x.span.moved f⟩

@[simp] theorem Located.value_moved {α : Type} (f : Nat → Nat) (x : Located α) :
    (x.moved f).value = x.value := rfl

@[simp] theorem Located.span_moved {α : Type} (f : Nat → Nat) (x : Located α) :
    (x.moved f).span = x.span.moved f := rfl

/-- The word at the moved place, behind a changed layout. -/
def Lexeme.moved (f : Nat → Nat) (g : String → String) (x : Lexeme) : Lexeme :=
  ⟨g x.layout, x.word.moved f⟩

@[simp] theorem Lexeme.word_moved (f : Nat → Nat) (g : String → String) (x : Lexeme) :
    (x.moved f g).word = x.word.moved f := rfl

/-- The statement `k` addresses further on, at the moved place and behind a changed layout. -/
def Statement.moved (k : Nat) (f : Nat → Nat) (g : String → String) (s : Statement) :
    Statement where
  address := s.address + k
  label := s.label.map (Located.moved f)
  opcode := s.opcode.moved f
  operand := s.operand.map (Located.moved f)
  layout := g s.layout

/-- The cause of an error with the place it names moved, if it names one. -/
def AssemblyError.Cause.moved (f : Nat → Nat) : AssemblyError.Cause → AssemblyError.Cause
  | .duplicateLabel label previous => .duplicateLabel label (previous.moved f)
  | cause => cause

/-- The error at the moved place. -/
def AssemblyError.moved (f : Nat → Nat) (e : AssemblyError) : AssemblyError :=
  ⟨e.cause.moved f, e.span.map (Span.moved f)⟩

theorem AssemblyError.moved_moved (f g : Nat → Nat) (e : AssemblyError) :
    (e.moved f).moved g = e.moved fun n => g (f n) := by
  obtain ⟨cause, span⟩ := e
  cases cause <;> cases span <;> rfl

@[simp] theorem AssemblyError.moved_id (e : AssemblyError) : e.moved id = e := by
  obtain ⟨cause, span⟩ := e
  cases cause <;> cases span <;> rfl

/-- What is read at the moved places: the values changed by `h`, or the moved error. -/
def movedResult {α β : Type} (f : Nat → Nat) (h : α → β) :
    Except AssemblyError α → Except AssemblyError β
  | .ok a => .ok (h a)
  | .error e => .error (e.moved f)

/-- Both succeed, with results that `R` relates, or both fail, the second with the moved error. -/
def Corresponds {α β : Type} (f : Nat → Nat) (R : α → β → Prop) :
    Except AssemblyError α → Except AssemblyError β → Prop
  | .ok a, .ok b => R a b
  | .error e, .error e' => e' = e.moved f
  | _, _ => False

theorem Corresponds.exists_ok {α β : Type} {f : Nat → Nat} {R : α → β → Prop}
    {x : Except AssemblyError α} {y : Except AssemblyError β} (h : Corresponds f R x y) {a : α}
    (ha : x = .ok a) : ∃ b, y = .ok b ∧ R a b := by
  subst ha
  cases y with
  | ok b => exact ⟨b, rfl, h⟩
  | error e => exact h.elim

theorem Corresponds.eq_error {α β : Type} {f : Nat → Nat} {R : α → β → Prop}
    {x : Except AssemblyError α} {y : Except AssemblyError β} (h : Corresponds f R x y)
    {e : AssemblyError} (he : x = .error e) : y = .error (e.moved f) := by
  subst he
  cases y with
  | ok b => exact h.elim
  | error e' => exact congrArg Except.error h

theorem Corresponds.bind {α β γ δ : Type} {f : Nat → Nat} {R : α → β → Prop} {S : γ → δ → Prop}
    {x : Except AssemblyError α} {y : Except AssemblyError β} {g : α → Except AssemblyError γ}
    {h : β → Except AssemblyError δ} (hxy : Corresponds f R x y)
    (hgh : ∀ a b, R a b → Corresponds f S (g a) (h b)) :
    Corresponds f S (x.bind g) (y.bind h) := by
  cases x with
  | ok a =>
    cases y with
    | ok b => exact hgh a b hxy
    | error e => exact hxy.elim
  | error e =>
    cases y with
    | ok b => exact hxy.elim
    | error e' => exact hxy

theorem Corresponds.map {α β γ δ : Type} {f : Nat → Nat} {R : α → β → Prop} {S : γ → δ → Prop}
    {x : Except AssemblyError α} {y : Except AssemblyError β} {g : α → γ} {h : β → δ}
    (hxy : Corresponds f R x y) (hgh : ∀ a b, R a b → S (g a) (h b)) :
    Corresponds f S (x.map g) (y.map h) := by
  cases x with
  | ok a =>
    cases y with
    | ok b => exact hgh a b hxy
    | error e => exact hxy.elim
  | error e =>
    cases y with
    | ok b => exact hxy.elim
    | error e' => exact hxy

/-! ### Without places -/

/-- No place at all. -/
def nowhere (_ : Nat) : Nat := 0

/-- The statement without its places. -/
def Statement.bare (s : Statement) : Statement := s.moved 0 nowhere id

/-- The listing without its places: equal bare listings are the same but for the places. -/
def Listing.bare (l : Listing) : Listing := ⟨l.statements.map Statement.bare, l.trailing⟩

@[simp] theorem Statement.format_moved (k : Nat) (f : Nat → Nat) (g : String → String)
    (s : Statement) : (s.moved k f g).format = s.format := by
  obtain ⟨address, label, opcode, operand, layout⟩ := s
  cases label <;> cases operand <;> rfl

/-- A listing is written without regard to its places. -/
theorem Listing.format_bare (l : Listing) : l.bare.format = l.format := by
  simp only [Listing.format, Listing.bare, List.map_map]
  congr 2
  refine List.map_congr_left fun s _ => ?_
  simp only [Function.comp, Statement.bare, Statement.format_moved]
  rfl

@[simp] theorem Statement.span_moved (k : Nat) (f : Nat → Nat) (g : String → String)
    (s : Statement) : (s.moved k f g).span = s.span.moved f := by
  obtain ⟨address, label, opcode, operand, layout⟩ := s
  cases label <;> cases operand <;> rfl

@[simp] theorem Statement.reference?_moved (k : Nat) (f : Nat → Nat) (g : String → String)
    (s : Statement) : (s.moved k f g).reference? = s.reference?.map (Located.moved f) := by
  obtain ⟨address, label, opcode, operand, layout⟩ := s
  rcases operand with _ | ⟨_ | _, span⟩ <;> rfl

/-! ### Reading -/

namespace Statement

variable (k : Nat) (f : Nat → Nat) (g : String → String)

theorem readOpcode_moved (first : Lexeme) (rest : List Lexeme) :
    readOpcode (first.moved f g) (rest.map (Lexeme.moved f g)) =
      movedResult f (fun r => (r.1.map (Located.moved f), r.2.1.moved f,
        r.2.2.map (Lexeme.moved f g))) (readOpcode first rest) := by
  unfold readOpcode
  rw [Lexeme.word_moved, Located.value_moved]
  cases Opcode.ofWord? first.word.value with
  | some op => rfl
  | none =>
    cases rest with
    | nil => rfl
    | cons second rest =>
      simp only [List.map_cons, Lexeme.word_moved, Located.value_moved]
      cases Opcode.ofWord? second.word.value <;> rfl

theorem readOperand_moved (op : Opcode) (words : List Lexeme) :
    readOperand op (words.map (Lexeme.moved f g)) =
      movedResult f (fun r => (r.1.map (Located.moved f), r.2.map (Lexeme.moved f g)))
        (readOperand op words) := by
  unfold readOperand
  cases words with
  | nil => cases op.isDirective <;> cases op.takesOperand <;> rfl
  | cons first rest =>
    simp only [List.map_cons, Lexeme.moved, Located.value_moved]
    cases op.isDirective <;> cases op.takesOperand <;> cases Numeral.read first.word.value <;> rfl

theorem read_moved (address : Nat) (first : Lexeme) (rest : List Lexeme) :
    read (address + k) (first.moved f g) (rest.map (Lexeme.moved f g)) =
      movedResult f (fun r => (r.1.moved k f g, r.2.map (Lexeme.moved f g)))
        (read address first rest) := by
  unfold read
  rw [readOpcode_moved]
  cases readOpcode first rest with
  | error e => rfl
  | ok head =>
    obtain ⟨label, opcode, rest⟩ := head
    simp only [movedResult, bind, Except.bind, Located.value_moved, readOperand_moved]
    cases readOperand opcode.value rest <;> rfl

end Statement

namespace Listing

/-- Reading commutes with moving. -/
theorem readStatements_moved (k : Nat) (f : Nat → Nat) (g : String → String) (address : Nat)
    (words : List Lexeme) :
    readStatements (address + k) (words.map (Lexeme.moved f g)) =
      movedResult f (List.map (Statement.moved k f g)) (readStatements address words) := by
  induction address, words using readStatements.induct with
  | case1 address => simp [movedResult]
  | case2 address first words e h =>
    rw [List.map_cons, readStatements_cons, readStatements_cons, Statement.read_moved, h]
    rfl
  | case3 address first words statement rest h e he ih =>
    rw [List.map_cons, readStatements_cons, readStatements_cons, Statement.read_moved, h]
    simp only [movedResult, Except.bind, Nat.add_right_comm address k 1, ih, he]
    rfl
  | case4 address first words statement rest h statements hs ih =>
    rw [List.map_cons, readStatements_cons, readStatements_cons, Statement.read_moved, h]
    simp only [movedResult, Except.bind, Nat.add_right_comm address k 1, ih, hs]
    rfl

end Listing

end LittleMan
