import LittleMan.Command.Session
import LittleMan.Proofs.Assembly.Lines
import LittleMan.Proofs.Machine.Sources
import LittleMan.Proofs.Text.Bytes

/-!
# The lines of an input

The standard input is cut into lines as bytes, before they are known to be a text, so that it can be
read line by line (`inputLines_append`). Where the bytes are a text, the lines are those of the
text: the byte of a line break is no part of any other character
(`ne_newline_of_mem_utf8EncodeChar`), so cutting and encoding commute (`byteLines_encode`), and each
line is read back (`inputLines_toUTF8`).
-/

namespace LittleMan.Command

/-! ### Line by line -/

theorem byteLines_ne_nil (bytes : List UInt8) : byteLines (bytes ++ [10]) ≠ [] := by
  cases bytes with
  | nil => exact List.cons_ne_nil _ _
  | cons b bytes =>
    rw [List.cons_append, byteLines]
    split
    · exact List.cons_ne_nil _ _
    · split <;> exact List.cons_ne_nil _ _

/-- What stands behind a line break are lines of their own. -/
theorem byteLines_append_newline (bytes rest : List UInt8) :
    byteLines (bytes ++ [10] ++ rest) = byteLines (bytes ++ [10]) ++ byteLines rest := by
  induction bytes with
  | nil => rfl
  | cons b bytes ih =>
    rw [List.cons_append, List.cons_append, byteLines, ih, byteLines]
    by_cases hb : b = 10
    · rw [if_pos hb, if_pos hb, List.cons_append]
    · rw [if_neg hb, if_neg hb]
      obtain ⟨line, lines, hlines⟩ := List.exists_cons_of_ne_nil (byteLines_ne_nil bytes)
      rw [hlines]
      rfl

/-- **An input may be read line by line.** -/
theorem inputLines_append {first : ByteArray} {bytes : List UInt8}
    (h : first.toList = bytes ++ [10]) (rest : ByteArray) :
    inputLines (first ++ rest) = (inputLines first).push (inputLines rest).lines := by
  have hbytes : (first ++ rest).toList = bytes ++ [10] ++ rest.toList := by
    rw [Text.toList_eq, ByteArray.data_append, Array.toList_append, ← Text.toList_eq, h,
      ← Text.toList_eq]
  rw [inputLines, hbytes, byteLines_append_newline, List.map_append, ← h]
  rfl

/-! ### Bytes of texts -/

/-- The bytes of the characters in UTF-8. -/
def encode (cs : List Char) : List UInt8 := cs.flatMap String.utf8EncodeChar

theorem fromUTF8?_toUTF8 (text : String) : String.fromUTF8? text.toUTF8 = some text := by
  rw [String.fromUTF8?, String.toUTF8_eq_toByteArray, dif_pos text.isValidUTF8]
  rfl

theorem fromUTF8?_encode (cs : List Char) :
    String.fromUTF8? ⟨(encode cs).toArray⟩ = some (String.ofList cs) := by
  have hbytes : (⟨(encode cs).toArray⟩ : ByteArray) = (String.ofList cs).toUTF8 := by
    rw [String.toUTF8_eq_toByteArray]
    exact ByteArray.ext List.data_toByteArray.symm
  rw [hbytes, fromUTF8?_toUTF8]

/-! ### Cutting into lines -/

/-- The byte of a line break is no part of another character. -/
theorem ne_newline_of_mem_utf8EncodeChar {c : Char} (hc : c ≠ '\n') :
    ∀ b ∈ String.utf8EncodeChar c, b ≠ 10 := by
  have hv : c.val.toNat ≠ 10 := fun h => hc (Char.ext (UInt32.toNat_inj.mp h))
  have hbyte {n : Nat} (h : n % 256 ≠ 10) : UInt8.ofNat n ≠ 10 := fun heq =>
    h (by simpa using congrArg UInt8.toNat heq)
  have hnil : ∀ b ∈ ([] : List UInt8), b ≠ 10 := by simp
  rw [String.utf8EncodeChar]
  split
  · exact List.forall_mem_cons.mpr ⟨hbyte (by omega), hnil⟩
  split
  · exact List.forall_mem_cons.mpr ⟨hbyte (by omega), List.forall_mem_cons.mpr
      ⟨hbyte (by omega), hnil⟩⟩
  split
  · exact List.forall_mem_cons.mpr ⟨hbyte (by omega), List.forall_mem_cons.mpr
      ⟨hbyte (by omega), List.forall_mem_cons.mpr ⟨hbyte (by omega), hnil⟩⟩⟩
  · exact List.forall_mem_cons.mpr ⟨hbyte (by omega), List.forall_mem_cons.mpr
      ⟨hbyte (by omega), List.forall_mem_cons.mpr ⟨hbyte (by omega), List.forall_mem_cons.mpr
        ⟨hbyte (by omega), hnil⟩⟩⟩⟩

/-- The lines with something in front of the first of them. -/
def inFront {α : Type} (front : List α) : List (List α) → List (List α)
  | [] => [front]
  | line :: lines => (front ++ line) :: lines

theorem byteLines_append {front : List UInt8} (hne : front ≠ []) (h : ∀ b ∈ front, b ≠ 10)
    (bytes : List UInt8) : byteLines (front ++ bytes) = inFront front (byteLines bytes) := by
  induction front with
  | nil => exact absurd rfl hne
  | cons b front ih =>
    obtain ⟨hb, hfront⟩ := List.forall_mem_cons.mp h
    rw [List.cons_append, byteLines, if_neg hb]
    cases front with
    | nil =>
      rw [List.nil_append]
      cases byteLines bytes <;> rfl
    | cons b' front =>
      rw [ih (List.cons_ne_nil _ _) hfront]
      cases byteLines bytes <;> rfl

/-- The lines of a text. A line break ends a line; what follows the last one is a line if there is
anything. -/
def textLines : List Char → List (List Char)
  | [] => []
  | c :: cs => if c = '\n' then [] :: textLines cs else inFront [c] (textLines cs)

/-- **The bytes of the lines are the lines of the bytes.** -/
theorem byteLines_encode (cs : List Char) :
    byteLines (encode cs) = (textLines cs).map encode := by
  induction cs with
  | nil => rfl
  | cons c cs ih =>
    have hcons : encode (c :: cs) = String.utf8EncodeChar c ++ encode cs := List.flatMap_cons
    rw [hcons, textLines]
    by_cases hc : c = '\n'
    · subst hc
      have hnewline : String.utf8EncodeChar '\n' = [10] := by decide
      rw [if_pos rfl, hnewline, List.cons_append, List.nil_append, byteLines, if_pos rfl, ih]
      rfl
    · have hne : String.utf8EncodeChar c ≠ [] := by
        rw [← List.length_pos_iff, String.length_utf8EncodeChar]
        exact c.utf8Size_pos
      rw [if_neg hc, byteLines_append hne (ne_newline_of_mem_utf8EncodeChar hc), ih]
      cases textLines cs with
      | nil => simp [inFront, encode]
      | cons line lines => simp [inFront, encode]

/-- **The lines of an input that is a text** are the lines of the text. -/
theorem inputLines_toUTF8 (text : String) :
    inputLines text.toUTF8 = ⟨(textLines text.toList).map fun line => some (String.ofList line)⟩ := by
  have hbytes : text.toUTF8.toList = encode text.toList := Text.toList_toUTF8 text
  rw [inputLines, hbytes, byteLines_encode, List.map_map]
  exact congrArg LineInput.mk (List.map_congr_left fun line _ => fromUTF8?_encode line)

/-- Cut at its line breaks, a text has the same lines, and perhaps an empty one at its end. -/
theorem splitOn_eq_textLines (cs : List Char) :
    cs.splitOn '\n' = textLines cs ∨ cs.splitOn '\n' = textLines cs ++ [[]] := by
  induction cs with
  | nil => exact .inr rfl
  | cons c cs ih =>
    by_cases hc : c = '\n'
    · subst hc
      rw [Token.splitOn_newline, textLines, if_pos rfl]
      exact ih.imp (congrArg _) (congrArg _)
    · obtain ⟨lines, hlines⟩ := Token.exists_splitOn cs
      rw [Token.splitOn_cons hc, textLines, if_neg hc]
      cases hcut : textLines cs with
      | nil =>
        -- the rest is empty, so the character is the first of an unended line
        rw [hcut] at ih
        have hone : cs.splitOn '\n' = [[]] := ih.resolve_left (by simp [hlines])
        exact .inl (congrArg _ hone)
      | cons line rest =>
        rw [hcut] at ih
        exact ih.imp (fun h => congrArg _ h) (fun h => congrArg _ h)

theorem numbers_inputLines (text : String) :
    LineInput.numbers (inputLines text.toUTF8).lines =
      (text.toList.splitOn '\n').filterMap fun line => Word.ofText? (String.ofList line) := by
  have hempty : ([[]] : List (List Char)).filterMap
      (fun line => Word.ofText? (String.ofList line)) = [] := by decide
  rw [inputLines_toUTF8, LineInput.numbers, List.filterMap_map]
  rcases splitOn_eq_textLines text.toList with h | h
  · rw [h]
    rfl
  · rw [h, List.filterMap_append, hempty, List.append_nil]
    rfl

end LittleMan.Command
