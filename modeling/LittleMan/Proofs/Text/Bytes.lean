import Mathlib.Tactic.SplitIfs

/-!
# Texts as bytes

The bytes of a text in UTF-8 are those of its characters, one after the other (`toList_toUTF8`).

They come in the order of the texts: comparing two texts byte by byte is the same as comparing them
character by character (`toUTF8_lt_iff`). For a lesser character has bytes that are less at the first
place where they differ, and there is such a place (`utf8EncodeChar_append_lt`).
-/

namespace LittleMan.Text

/-! ### The bytes of the characters -/

theorem toList_loop (bytes : ByteArray) (i : Nat) (read : List UInt8) :
    ByteArray.toList.loop bytes i read = read.reverse ++ bytes.data.toList.drop i := by
  induction i, read using ByteArray.toList.loop.induct bytes with
  | case1 i read hi ih =>
    have hlt : i < bytes.data.toList.length := hi
    have hget : bytes.get! i = bytes.data.toList[i] := by
      rw [Array.getElem_toList]
      exact getElem!_pos bytes.data i hi
    rw [ByteArray.toList.loop, if_pos hi, ih, List.drop_eq_getElem_cons hlt, hget]
    simp
  | case2 i read hi =>
    have hle : bytes.data.toList.length ≤ i := Nat.le_of_not_lt hi
    rw [ByteArray.toList.loop, if_neg hi, List.drop_eq_nil_of_le hle, List.append_nil]

theorem toList_eq (bytes : ByteArray) : bytes.toList = bytes.data.toList := by
  rw [ByteArray.toList, toList_loop]
  rfl

theorem toList_toUTF8 (text : String) :
    text.toUTF8.toList = text.toList.flatMap String.utf8EncodeChar := by
  have hdata : text.toByteArray = (String.ofList text.toList).toByteArray := by
    rw [String.ofList_toList]
  rw [toList_eq, String.toUTF8_eq_toByteArray, hdata]
  exact List.toList_data_toByteArray

/-! ### Order -/

/-- A lesser byte decides, whatever follows; -/
theorem ofNat_cons_lt {m n : Nat} (hlt : m < n) (hn : n < 256) (front behind : List UInt8) :
    UInt8.ofNat m :: front < UInt8.ofNat n :: behind :=
  List.cons_lt_cons_iff.mpr (.inl ((UInt8.ofNat_lt_iff_lt (Nat.lt_trans hlt hn) hn).mpr hlt))

/-- an equal one leaves it to the bytes that follow. -/
theorem ofNat_cons_lt_of_le {m n : Nat} (hle : m ≤ n) (hn : n < 256) {front behind : List UInt8}
    (h : m = n → front < behind) : UInt8.ofNat m :: front < UInt8.ofNat n :: behind := by
  rcases Nat.lt_or_eq_of_le hle with hlt | rfl
  · exact ofNat_cons_lt hlt hn front behind
  · exact List.cons_lt_cons_iff.mpr (.inr ⟨rfl, h rfl⟩)

/-- **The bytes of a lesser character are less**, whatever follows. -/
theorem utf8EncodeChar_append_lt {c d : Char} (h : c < d) (front behind : List UInt8) :
    String.utf8EncodeChar c ++ front < String.utf8EncodeChar d ++ behind := by
  have hlt : c.val.toNat < d.val.toNat := h
  have hd : d.val.toNat < 0x110000 := by
    rcases d.valid with hd | hd
    · exact Nat.lt_trans hd (by decide)
    · exact hd.2
  rw [String.utf8EncodeChar, String.utf8EncodeChar]
  generalize c.val.toNat = v at *
  generalize d.val.toNat = w at *
  -- The greater character has as many bytes or more. If it has more, its first byte is greater;
  -- else the bytes are digits, and as long as they agree the rest of the number is less.
  split
  · split_ifs <;> exact ofNat_cons_lt (by omega) (by omega) _ _
  split
  · split_ifs
    · omega
    · exact ofNat_cons_lt_of_le (by omega) (by omega) fun _ =>
        ofNat_cons_lt (by omega) (by omega) _ _
    · exact ofNat_cons_lt (by omega) (by omega) _ _
    · exact ofNat_cons_lt (by omega) (by omega) _ _
  split
  · split_ifs
    · omega
    · omega
    · exact ofNat_cons_lt_of_le (by omega) (by omega) fun _ =>
        ofNat_cons_lt_of_le (by omega) (by omega) fun _ =>
        ofNat_cons_lt (by omega) (by omega) _ _
    · exact ofNat_cons_lt (by omega) (by omega) _ _
  · split_ifs
    · omega
    · omega
    · omega
    · exact ofNat_cons_lt_of_le (by omega) (by omega) fun _ =>
        ofNat_cons_lt_of_le (by omega) (by omega) fun _ =>
        ofNat_cons_lt_of_le (by omega) (by omega) fun _ =>
        ofNat_cons_lt (by omega) (by omega) _ _

theorem flatMap_utf8EncodeChar_lt {cs ds : List Char} (h : cs < ds) :
    cs.flatMap String.utf8EncodeChar < ds.flatMap String.utf8EncodeChar := by
  rw [← List.lex_lt] at h
  induction h with
  | nil =>
    rw [List.flatMap_nil, List.flatMap_cons]
    obtain ⟨byte, bytes, hbytes⟩ := List.exists_cons_of_ne_nil String.utf8EncodeChar_ne_nil
    rw [hbytes]
    exact List.nil_lt_cons _ _
  | rel hcd =>
    rw [List.flatMap_cons, List.flatMap_cons]
    exact utf8EncodeChar_append_lt hcd _ _
  | cons _ ih =>
    rw [List.flatMap_cons, List.flatMap_cons]
    exact List.append_left_lt ih

/-- **Texts are ordered as their bytes are.** -/
theorem toUTF8_lt_iff {s t : String} : s.toUTF8.toList < t.toUTF8.toList ↔ s < t := by
  have hmono {s t : String} (h : s < t) : s.toUTF8.toList < t.toUTF8.toList := by
    rw [toList_toUTF8, toList_toUTF8]
    exact flatMap_utf8EncodeChar_lt h
  refine ⟨fun h => ?_, hmono⟩
  by_cases hlt : s < t
  · exact hlt
  by_cases hgt : t < s
  · exact absurd (hmono hgt) (List.lt_asymm h)
  · obtain rfl := String.le_antisymm (String.not_lt.mp hgt) (String.not_lt.mp hlt)
    exact absurd h (List.lt_irrefl _)

end LittleMan.Text
