import LittleMan.Assembly.Listing
import LittleMan.Assembly.Program
import LittleMan.Log

/-!
# Assembling

A listing becomes a program in two passes. The first turns every statement into a word and collects
the labels; references get the code of their opcode only. The second adds to each of these the
address of its label, so that labels may be used before they are defined.

Both passes report what they do. `Listing.assemble` is the outcome without the reports.
-/

namespace LittleMan

/-- What happens when a label is defined more than once. -/
inductive LabelPolicy where
  /-- The last definition counts. -/
  | lastWins
  /-- A second definition is an error. -/
  | unique
  deriving DecidableEq, Repr, Inhabited

/-! ### Reports -/

/-- What the assembler reports. -/
inductive AssemblyRemark where
  /-- The word at `address` will get the address of a label. -/
  | referenceNoted (address : Nat) (label : String)
  /-- The word of a statement has been appended. -/
  | wordAppended (address : Nat) (opcode : Opcode) (word : Word)
  /-- A label is about to be defined. -/
  | labelNoted (address : Nat) (label : String)
  /-- The label had been defined before. -/
  | labelRedefined (address : Nat) (label : String)
  /-- The word at `address` gets the address of its label. -/
  | addressInserted (address : Nat) (label : String) (target : Nat)
  /-- The program has more words than the machine has mailboxes. -/
  | tooLong (words : Nat)
  /-- The program is complete. -/
  | assembled (words : Nat)
  deriving DecidableEq, Repr, Inhabited

namespace AssemblyRemark

/-- The level the remark is logged at. -/
def level : AssemblyRemark → Log.Level
  | labelRedefined .. | tooLong .. => .warning
  | assembled .. => .debug
  | _ => .trace

/-- The message of the remark. -/
def message : AssemblyRemark → String
  | referenceNoted .. => "add a location to relocation table"
  | wordAppended .. => "append word"
  | labelNoted .. => "add a label to the symbol table"
  | labelRedefined .. => "label redefined"
  | addressInserted .. => "replace address part"
  | tooLong .. => "program does not fit into memory"
  | assembled .. => "assembled program"

/-- The values the remark is about. -/
def fields : AssemblyRemark → List (String × String)
  | referenceNoted address label | labelNoted address label | labelRedefined address label =>
    [("address", address.repr), ("label", label)]
  | wordAppended address opcode word =>
    [("address", address.repr), ("opcode", opcode.mnemonic), ("word", Decimal.ofInt word.toInt)]
  | addressInserted address label target =>
    [("address", address.repr), ("label", label), ("target", target.repr)]
  | tooLong words => [("words", words.repr), ("memory", mailboxCount.repr)]
  | assembled words => [("words", words.repr)]

/-- The remark as a record of the assembly stage. -/
def record (r : AssemblyRemark) : Log.Record :=
  ⟨r.level, r.message, ("stage", "assembly") :: r.fields⟩

end AssemblyRemark

/-- A computation of the assembler. -/
abbrev Assembling := Logged AssemblyRemark AssemblyError

/-! ### First pass -/

/-- What the first pass has put together. -/
structure Draft where
  /-- The words; those of references lack the address of their label. -/
  words : Array Word := #[]
  /-- The labels defined and referred to. -/
  labels : LabelTable := ∅
  /-- The statement of each address. -/
  sourceIndex : SourceIndex Span := ∅
  /-- The words that lack an address, and the labels it is the address of. -/
  references : Array (Nat × Located String) := #[]
  deriving Inhabited

namespace Draft

/-- The word of a statement as far as it does not depend on labels. -/
def encode (s : Statement) : Assembling Word :=
  match s.operand with
  | some ⟨.number value text, span⟩ =>
    match Word.ofInt? (s.opcode.value.code.toInt + value.toInt) with
    | some word => pure word
    | none => Logged.fail ⟨.numberTooLarge text, some span⟩
  | _ => pure s.opcode.value.code

/-- Notes the reference of a statement, if it has one. -/
def addReference (d : Draft) (s : Statement) : Assembling Draft :=
  match s.reference? with
  | none => pure d
  | some label => do
    Logged.note (.referenceNoted s.address label.value)
    return { d with
      labels := d.labels.refer label.value label.span
      references := d.references.push (s.address, label) }

/-- Appends the word of a statement. -/
def addWord (d : Draft) (s : Statement) (word : Word) : Assembling Draft := do
  Logged.note (.wordAppended s.address s.opcode.value word)
  return { d with words := d.words.push word }

/-- Defines the label of a statement, if it has one. -/
def addLabel (policy : LabelPolicy) (d : Draft) (s : Statement) : Assembling Draft :=
  match s.label with
  | none => pure d
  | some label => do
    Logged.note (.labelNoted s.address label.value)
    let defined := { d with labels := d.labels.define label.value ⟨s.address, label.span⟩ }
    match d.labels.definition? label.value, policy with
    | some previous, .unique =>
      Logged.fail ⟨.duplicateLabel label.value previous.span, some label.span⟩
    | some _, .lastWins =>
      Logged.note (.labelRedefined s.address label.value)
      return defined
    | none, _ => return defined

/-- Adds a statement. -/
def add (policy : LabelPolicy) (d : Draft) (s : Statement) : Assembling Draft := do
  let word ← encode s
  let d ← d.addReference s
  let d ← d.addWord s word
  let d ← d.addLabel policy s
  return { d with sourceIndex := d.sourceIndex.put s.address s.span }

/-! ### Second pass -/

/-- Adds the address of a label to the word that refers to it. -/
def insertAddress (labels : LabelTable) (words : Array Word) (reference : Nat × Located String) :
    Assembling (Array Word) :=
  let (address, label) := reference
  match labels.address? label.value with
  | none => Logged.fail ⟨.undefinedLabel label.value, some label.span⟩
  | some target => do
    Logged.note (.addressInserted address label.value target)
    if address < words.size then return Program.shiftWord target words address
    else Logged.fail ⟨.strayAddress address, none⟩

/-- The program of a complete draft. -/
def finish (d : Draft) : Assembling Program := do
  let words ← d.references.toList.foldlM (insertAddress d.labels) d.words
  if mailboxCount < words.size then Logged.note (.tooLong words.size)
  Logged.note (.assembled words.size)
  return {
    words
    labels := d.labels
    sourceIndex := d.sourceIndex
    relocations := d.references.toList.map Prod.fst }

end Draft

/-! ### The assembler -/

/-- Both passes over the statements, with their reports. -/
def Listing.assembling (l : Listing) (policy : LabelPolicy) : Assembling Program := do
  let draft ← l.statements.foldlM (Draft.add policy) {}
  draft.finish

/-- The program of a listing, or why there is none. -/
def Listing.assemble (l : Listing) (policy : LabelPolicy) : Except AssemblyError Program :=
  (l.assembling policy).result

/-- Reads and assembles a source, with the reports of the assembler. -/
def Program.assembling (source : String) (policy : LabelPolicy) : Assembling Program :=
  match Listing.parse source with
  | .ok listing => listing.assembling policy
  | .error e => Logged.fail e

/-- The program of a source, or why there is none. -/
def Program.assemble (source : String) (policy : LabelPolicy) : Except AssemblyError Program :=
  (Program.assembling source policy).result

end LittleMan
