/-!
# Log records

What the assembler and the machine report while they work. A record has a level, a fixed message
and named values as text. `Logged` is a computation that keeps the remarks made on its way, also
when it ends in an error: `result` forgets them and commutes with sequencing.
-/

namespace LittleMan

/-- How much a record matters. -/
inductive Log.Level where
  /-- Every step of the work. -/
  | trace
  /-- The work as a whole. -/
  | debug
  /-- What the user may not have meant. -/
  | warning
  deriving DecidableEq, Repr, Inhabited

/-- One line of a log. -/
structure Log.Record where
  /-- How much it matters. -/
  level : Log.Level
  /-- What it says. -/
  message : String
  /-- The values it is about, by name. -/
  fields : List (String × String)
  deriving DecidableEq, Repr, Inhabited

/-- The record on a line: level, message and values. -/
def Log.Record.text (r : Log.Record) : String :=
  let level := match r.level with
    | .trace => "TRACE"
    | .debug => "DEBUG"
    | .warning => "WARNING"
  ", ".intercalate ((level ++ " " ++ r.message) :: r.fields.map fun (name, value) =>
    name ++ ": " ++ value)

/-- A result or an error, with the remarks of type `ρ` made before it was reached. -/
structure Logged (ρ ε α : Type) where
  /-- The remarks, in order. -/
  log : List ρ
  /-- How the computation ended. -/
  result : Except ε α

namespace Logged

variable {ρ ε α β : Type}

/-- Goes on with `f` unless the computation ended in an error. -/
def andThen (x : Logged ρ ε α) (f : α → Logged ρ ε β) : Logged ρ ε β :=
  match x.result with
  | .ok a => ⟨x.log ++ (f a).log, (f a).result⟩
  | .error e => ⟨x.log, .error e⟩

instance : Monad (Logged ρ ε) where
  pure a := ⟨[], .ok a⟩
  bind := andThen

/-- Makes a remark. -/
def note (remark : ρ) : Logged ρ ε Unit := ⟨[remark], .ok ()⟩

/-- Ends in an error. -/
def fail (e : ε) : Logged ρ ε α := ⟨[], .error e⟩

@[simp] theorem result_pure (a : α) : (pure a : Logged ρ ε α).result = .ok a := rfl

@[simp] theorem result_bind (x : Logged ρ ε α) (f : α → Logged ρ ε β) :
    (x >>= f).result = x.result.bind fun a => (f a).result := by
  show (andThen x f).result = _
  unfold andThen
  cases x.result <;> rfl

@[simp] theorem result_note (remark : ρ) : (note remark : Logged ρ ε Unit).result = .ok () := rfl

@[simp] theorem result_fail (e : ε) : (fail e : Logged ρ ε α).result = .error e := rfl

@[simp] theorem result_foldlM_nil (f : β → α → Logged ρ ε β) (b : β) :
    (List.foldlM f b []).result = .ok b := rfl

theorem result_foldlM_cons (f : β → α → Logged ρ ε β) (b : β) (a : α) (as : List α) :
    (List.foldlM f b (a :: as)).result =
      (f b a).result.bind fun b => (List.foldlM f b as).result := by
  rw [List.foldlM_cons, result_bind]

theorem result_foldlM_append (f : β → α → Logged ρ ε β) (b : β) (as bs : List α) :
    (List.foldlM f b (as ++ bs)).result =
      (List.foldlM f b as).result.bind fun b => (List.foldlM f b bs).result := by
  induction as generalizing b with
  | nil => rfl
  | cons a as ih =>
    rw [List.cons_append, result_foldlM_cons, result_foldlM_cons]
    cases (f b a).result with
    | error e => rfl
    | ok b => exact ih b

end Logged

end LittleMan
