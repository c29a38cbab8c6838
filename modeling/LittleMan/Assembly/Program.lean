import LittleMan.Assembly.SourceIndex
import LittleMan.Assembly.LabelTable
import LittleMan.Instruction

/-!
# Assembled programs

A program is one word for every statement, with the labels bound to the addresses they have when the
program starts at address `0`. `wordsAt` moves it to another address, `dump` prints it.
-/

namespace LittleMan

/-- A program in words. -/
structure Program where
  /-- The words, in the order of the statements. -/
  words : Array Word := #[]
  /-- What is known about the labels. -/
  labels : LabelTable := ∅
  /-- The statement of each address. -/
  sourceIndex : SourceIndex Span := ∅
  /-- The addresses of the words whose operand is a label. -/
  relocations : List Nat := []
  deriving Inhabited

namespace Program

/-- How many words there are. -/
def size (p : Program) : Nat := p.words.size

/-- The words with `offset` added to the one at `address`. -/
def shiftWord (offset : Nat) (words : Array Word) (address : Nat) : Array Word :=
  words.modify address (· + Int32.ofNat offset)

/-- The words for a start at `offset`: the operands that are labels move along, those that are
numbers stay. -/
def wordsAt (p : Program) (offset : Nat) : Array Word :=
  p.relocations.foldl (shiftWord offset) p.words

@[simp] theorem size_shiftWord (offset : Nat) (words : Array Word) (address : Nat) :
    (shiftWord offset words address).size = words.size := Array.size_modify ..

theorem getElem?_shiftWord_self (offset : Nat) (words : Array Word) (address : Nat) :
    (shiftWord offset words address)[address]? =
      words[address]?.map (· + Int32.ofNat offset) := by
  simp [shiftWord, Array.getElem?_modify]

theorem getElem?_shiftWord_of_ne (offset : Nat) (words : Array Word) {address i : Nat}
    (h : i ≠ address) : (shiftWord offset words address)[i]? = words[i]? := by
  simp [shiftWord, Array.getElem?_modify, h.symm]

theorem shiftWord_comm (m n : Nat) (words : Array Word) (a b : Nat) :
    shiftWord m (shiftWord n words a) b = shiftWord n (shiftWord m words b) a := by
  refine Array.ext_getElem? fun i => ?_
  by_cases ha : i = a <;> by_cases hb : i = b
  · subst ha hb
    simp only [getElem?_shiftWord_self, Option.map_map]
    congr 1
    funext w
    simp only [Function.comp, Int32.add_assoc, Int32.add_comm (Int32.ofNat m)]
  · subst ha
    simp only [getElem?_shiftWord_of_ne _ _ hb, getElem?_shiftWord_self]
  · subst hb
    simp only [getElem?_shiftWord_of_ne _ _ ha, getElem?_shiftWord_self]
  · simp only [getElem?_shiftWord_of_ne _ _ ha, getElem?_shiftWord_of_ne _ _ hb]

theorem shiftWord_append (offset : Nat) (front words : Array Word) (address : Nat) :
    shiftWord offset (front ++ words) (address + front.size) =
      front ++ shiftWord offset words address := by
  refine Array.ext_getElem? fun i => ?_
  by_cases hi : i = address + front.size
  · subst hi
    simp only [getElem?_shiftWord_self, Array.getElem?_append_right, Nat.le_add_left,
      Nat.add_sub_cancel]
  · rw [getElem?_shiftWord_of_ne _ _ hi]
    rcases Nat.lt_or_ge i front.size with hlt | hge
    · rw [Array.getElem?_append_left hlt, Array.getElem?_append_left hlt]
    · rw [Array.getElem?_append_right hge, Array.getElem?_append_right hge,
        getElem?_shiftWord_of_ne _ _ (by omega)]

@[simp] theorem size_foldl_shiftWord (offset : Nat) (addresses : List Nat) (words : Array Word) :
    (addresses.foldl (shiftWord offset) words).size = words.size := by
  induction addresses generalizing words with
  | nil => rfl
  | cons a addresses ih => rw [List.foldl_cons, ih, size_shiftWord]

@[simp] theorem size_wordsAt (p : Program) (offset : Nat) : (p.wordsAt offset).size = p.size :=
  size_foldl_shiftWord ..

theorem shiftWord_zero (words : Array Word) (address : Nat) : shiftWord 0 words address = words := by
  refine Array.ext_getElem? fun i => ?_
  by_cases hi : i = address
  · subst hi
    rw [getElem?_shiftWord_self]
    cases words[i]? <;> simp
  · rw [getElem?_shiftWord_of_ne _ _ hi]

theorem wordsAt_zero (p : Program) : p.wordsAt 0 = p.words := by
  unfold wordsAt
  induction p.relocations with
  | nil => rfl
  | cons a addresses ih => rw [List.foldl_cons, shiftWord_zero, ih]

/-! ### Printing -/

/-- What a word is printed as: the instruction it is, or `DAT`. -/
def describe (word : Word) : String :=
  match Instruction.decode word with
  | .ok ins => ins.text
  | .error _ => Opcode.dat.mnemonic

/-- The line of a dump: address, word, instruction, and the labels if there are any. -/
def dumpLine (address : Nat) (word : Word) (labels : List String) : String :=
  Decimal.zeroFilled 2 address ++ "  " ++ Decimal.zeroFilled 3 word.toInt ++ "  " ++
    Decimal.blankFilled 8 (describe word) ++
    (if labels.isEmpty then "" else "  " ++ ", ".intercalate labels) ++ "\n"

/-- The labels of an address, in order. -/
def labelsAt (defined : List (String × Nat)) (address : Nat) : List String :=
  (defined.filter (·.2 == address)).map Prod.fst

/-- The words of the program, a line for each. -/
def dump (p : Program) : String :=
  let defined := p.labels.defined
  String.join (p.words.toList.mapIdx fun address word =>
    dumpLine address word (labelsAt defined address))

end Program

end LittleMan
