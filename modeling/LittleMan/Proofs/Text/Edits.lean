import LittleMan.Text.EditDistance
import Mathlib.Order.Bounds.Basic

/-!
# Edits

What the rows of distances compute. An edit inserts, deletes or replaces one character at any place
(`OneEdit`); the distance of two texts is the least number of edits that lead from one to the other
(`isLeast_editDistance`). So texts at distance zero are the same, and texts at distance one are one
edit apart.

The row for `x :: xs` is that of `xs` moved on by one character, which gives the distance of two
texts from the distances of their rests (`editDistance_cons_cons`). As many edits as the distance
are then found by going through both texts (`edits_editDistance`). Fewer are not enough, since an
edit changes the distance to any text by one at most (`OneEdit.editDistance_le`): at the start of a
text this is said by the equation for the distance, and what stands in front of the edit can be
added on both sides (`editDistance_cons_le`).
-/

namespace LittleMan.Text

variable {α : Type}

/-- One character is inserted, deleted or replaced by another one. -/
inductive OneEdit : List α → List α → Prop where
  /-- A character is inserted. -/
  | insert (front behind : List α) (c : α) : OneEdit (front ++ behind) (front ++ c :: behind)
  /-- A character is deleted. -/
  | delete (front behind : List α) (c : α) : OneEdit (front ++ c :: behind) (front ++ behind)
  /-- A character is replaced. -/
  | replace (front behind : List α) {c d : α} (h : c ≠ d) :
    OneEdit (front ++ c :: behind) (front ++ d :: behind)

/-- So many edits lead from one text to the other. -/
inductive Edits : Nat → List α → List α → Prop where
  /-- No edit leads to the same text. -/
  | refl (xs : List α) : Edits 0 xs xs
  /-- One more edit in front. -/
  | step {n : Nat} {xs ys zs : List α} : OneEdit xs ys → Edits n ys zs → Edits (n + 1) xs zs

theorem OneEdit.ne {xs ys : List α} (h : OneEdit xs ys) : xs ≠ ys := by
  cases h with
  | insert front behind c => simp
  | delete front behind c => simp
  | replace front behind h => simpa using h

theorem OneEdit.cons {xs ys : List α} (h : OneEdit xs ys) (x : α) :
    OneEdit (x :: xs) (x :: ys) := by
  cases h with
  | insert front behind c => exact .insert (x :: front) behind c
  | delete front behind c => exact .delete (x :: front) behind c
  | replace front behind h => exact .replace (x :: front) behind h

/-- Edits can be made behind any character. -/
theorem Edits.cons {n : Nat} {xs ys : List α} (h : Edits n xs ys) (x : α) :
    Edits n (x :: xs) (x :: ys) := by
  induction h with
  | refl xs => exact .refl (x :: xs)
  | step hedit _ ih => exact .step (hedit.cons x) ih

theorem edits_zero_iff {xs ys : List α} : Edits 0 xs ys ↔ xs = ys := by
  constructor
  · rintro ⟨⟩
    rfl
  · rintro rfl
    exact .refl xs

theorem edits_one_iff {xs ys : List α} : Edits 1 xs ys ↔ OneEdit xs ys := by
  constructor
  · intro h
    cases h with
    | step hedit hrest => exact edits_zero_iff.mp hrest ▸ hedit
  · intro h
    exact .step h (.refl ys)

theorem edits_nil (ys : List α) : Edits ys.length [] ys := by
  induction ys with
  | nil => exact .refl []
  | cons y ys ih => exact .step (.insert [] [] y) (ih.cons y)

theorem edits_nil_right (xs : List α) : Edits xs.length xs [] := by
  induction xs with
  | nil => exact .refl []
  | cons x xs ih => exact .step (.delete [] xs x) ih

/-! ### Rows -/

theorem length_emptyRow (ys : List α) : (emptyRow ys).length = ys.length + 1 := by
  induction ys with
  | nil => rfl
  | cons y ys ih => rw [emptyRow, List.length_cons, ih, List.length_cons]

section

variable [DecidableEq α]

theorem length_nextRow (x : α) {ys : List α} {row : List Nat} (h : row.length = ys.length + 1) :
    (nextRow x ys row).length = ys.length + 1 := by
  induction ys generalizing row with
  | nil =>
    obtain ⟨d, rfl⟩ := List.length_eq_one_iff.mp h
    rfl
  | cons y ys ih =>
    match row, h with
    | d :: e :: row, h => rw [nextRow, List.length_cons, ih (by simpa using h), List.length_cons]

theorem length_distanceRow (xs ys : List α) : (distanceRow xs ys).length = ys.length + 1 := by
  induction xs with
  | nil => exact length_emptyRow ys
  | cons x xs ih => exact length_nextRow x ih

theorem exists_distanceRow (xs ys : List α) :
    ∃ rest, distanceRow xs ys = editDistance xs ys :: rest := by
  obtain ⟨d, rest, hrow⟩ := List.exists_cons_of_length_eq_add_one (length_distanceRow xs ys)
  exact ⟨rest, by rw [editDistance, hrow, List.headD_cons]⟩

/-- The distances to the rests of the second text are behind the distance to the text itself. -/
theorem distanceRow_cons (xs : List α) (y : α) (ys : List α) :
    distanceRow xs (y :: ys) = editDistance xs (y :: ys) :: distanceRow xs ys := by
  induction xs with
  | nil => rfl
  | cons x xs ih =>
    obtain ⟨rest, hrest⟩ := exists_distanceRow xs ys
    have hrow : distanceRow (x :: xs) (y :: ys) =
        nextRow x (y :: ys) (distanceRow xs (y :: ys)) := rfl
    have hbehind : distanceRow (x :: xs) ys = nextRow x ys (distanceRow xs ys) := rfl
    rw [editDistance, hrow, hbehind, ih, hrest]
    rfl

@[simp] theorem editDistance_nil (ys : List α) : editDistance [] ys = ys.length := by
  cases ys <;> rfl

@[simp] theorem editDistance_nil_right (xs : List α) : editDistance xs [] = xs.length := by
  induction xs with
  | nil => rfl
  | cons x xs ih =>
    obtain ⟨d, hrow⟩ := List.length_eq_one_iff.mp (length_distanceRow xs [])
    have hd : d = xs.length := by rw [← ih, editDistance, hrow, List.headD_cons]
    have hnext : distanceRow (x :: xs) [] = nextRow x [] (distanceRow xs []) := rfl
    rw [editDistance, hnext, hrow, hd]
    rfl

/-- **The distance of two texts from those of their rests**: the first character is deleted,
inserted, or matched with the first one of the other text. -/
theorem editDistance_cons_cons (x y : α) (xs ys : List α) :
    editDistance (x :: xs) (y :: ys) =
      min (min (editDistance xs (y :: ys) + 1) (editDistance (x :: xs) ys + 1))
        (if x = y then editDistance xs ys else editDistance xs ys + 1) := by
  obtain ⟨rest, hrest⟩ := exists_distanceRow xs ys
  have hrow : distanceRow (x :: xs) (y :: ys) =
      nextRow x (y :: ys) (distanceRow xs (y :: ys)) := rfl
  have hbehind : distanceRow (x :: xs) ys = nextRow x ys (distanceRow xs ys) := rfl
  rw [editDistance, hrow, distanceRow_cons, hrest, nextRow, List.headD_cons, ← hrest, ← hbehind]
  rfl

/-! ### The distance is enough -/

/-- **There are as many edits as the distance says.** -/
theorem edits_editDistance (xs ys : List α) : Edits (editDistance xs ys) xs ys := by
  induction xs generalizing ys with
  | nil =>
    rw [editDistance_nil]
    exact edits_nil ys
  | cons x xs ihxs =>
    induction ys with
    | nil =>
      rw [editDistance_nil_right]
      exact edits_nil_right (x :: xs)
    | cons y ys ihys =>
      have hdelete : Edits (editDistance xs (y :: ys) + 1) (x :: xs) (y :: ys) :=
        .step (.delete [] xs x) (ihxs (y :: ys))
      have hinsert : Edits (editDistance (x :: xs) ys + 1) (x :: xs) (y :: ys) :=
        .step (.insert [] (x :: xs) y) (ihys.cons y)
      have hmatch : Edits (if x = y then editDistance xs ys else editDistance xs ys + 1)
          (x :: xs) (y :: ys) := by
        split
        · next heq => exact heq ▸ (ihxs ys).cons x
        · next hne => exact .step (.replace [] xs hne) ((ihxs ys).cons y)
      rw [editDistance_cons_cons]
      exact min_rec' (Edits · (x :: xs) (y :: ys))
        (min_rec' (Edits · (x :: xs) (y :: ys)) hdelete hinsert) hmatch

/-! ### Less is not enough -/

theorem editDistance_cons_right_le (xs : List α) (y : α) (ys : List α) :
    editDistance xs (y :: ys) ≤ editDistance xs ys + 1 := by
  cases xs with
  | nil => simp
  | cons x xs =>
    rw [editDistance_cons_cons]
    exact (min_le_left _ _).trans (min_le_right _ _)

theorem editDistance_cons_left_le (x : α) (xs ys : List α) :
    editDistance (x :: xs) ys ≤ editDistance xs ys + 1 := by
  cases ys with
  | nil => simp
  | cons y ys =>
    rw [editDistance_cons_cons]
    exact (min_le_left _ _).trans (min_le_left _ _)

theorem editDistance_cons_cons_le (x y : α) (xs ys : List α) :
    editDistance (x :: xs) (y :: ys) ≤
      if x = y then editDistance xs ys else editDistance xs ys + 1 := by
  rw [editDistance_cons_cons]
  exact min_le_right _ _

theorem le_editDistance_cons_cons {x y : α} {xs ys : List α} {n : Nat}
    (hdelete : n ≤ editDistance xs (y :: ys) + 1) (hinsert : n ≤ editDistance (x :: xs) ys + 1)
    (hmatch : n ≤ if x = y then editDistance xs ys else editDistance xs ys + 1) :
    n ≤ editDistance (x :: xs) (y :: ys) := by
  rw [editDistance_cons_cons]
  exact le_min (le_min hdelete hinsert) hmatch

theorem editDistance_le_cons (x : α) (xs ys : List α) :
    editDistance xs ys ≤ editDistance (x :: xs) ys + 1 := by
  induction ys with
  | nil => simp; omega
  | cons y ys ih =>
    have hright := editDistance_cons_right_le xs y ys
    refine Nat.sub_le_iff_le_add.mp (le_editDistance_cons_cons ?_ ?_ ?_)
    · omega
    · omega
    · split <;> omega

theorem editDistance_replace_le (c d : α) (xs ys : List α) :
    editDistance (c :: xs) ys ≤ editDistance (d :: xs) ys + 1 := by
  induction ys with
  | nil => simp
  | cons y ys ih =>
    have hright := editDistance_cons_right_le (c :: xs) y ys
    have hleft := editDistance_cons_left_le c xs (y :: ys)
    have hboth := editDistance_cons_cons_le c y xs ys
    have hle : editDistance (c :: xs) (y :: ys) ≤ editDistance xs ys + 1 :=
      hboth.trans (by split <;> omega)
    refine Nat.sub_le_iff_le_add.mp (le_editDistance_cons_cons ?_ ?_ ?_)
    · omega
    · omega
    · split <;> omega

/-- **What holds of two texts holds of them behind any character.** -/
theorem editDistance_cons_le {xs ys : List α}
    (h : ∀ zs, editDistance xs zs ≤ editDistance ys zs + 1) (x : α) (zs : List α) :
    editDistance (x :: xs) zs ≤ editDistance (x :: ys) zs + 1 := by
  induction zs with
  | nil => simpa using h []
  | cons z zs ih =>
    have hright := editDistance_cons_right_le (x :: xs) z zs
    have hleft := editDistance_cons_left_le x xs (z :: zs)
    have hthis := h (z :: zs)
    have hbehind := h zs
    have hboth := editDistance_cons_cons_le x z xs zs
    refine Nat.sub_le_iff_le_add.mp (le_editDistance_cons_cons ?_ ?_ ?_)
    · omega
    · omega
    · by_cases heq : x = z
      · rw [if_pos heq] at hboth ⊢
        omega
      · rw [if_neg heq] at hboth ⊢
        omega

/-- **An edit changes the distance to any text by one at most.** -/
theorem OneEdit.editDistance_le {xs ys : List α} (h : OneEdit xs ys) (zs : List α) :
    editDistance xs zs ≤ editDistance ys zs + 1 := by
  -- what stands in front of the edit is added on both sides
  have hfront (front : List α) {xs ys : List α}
      (h : ∀ zs, editDistance xs zs ≤ editDistance ys zs + 1) (zs : List α) :
      editDistance (front ++ xs) zs ≤ editDistance (front ++ ys) zs + 1 := by
    induction front generalizing zs with
    | nil => exact h zs
    | cons x front ih => exact editDistance_cons_le ih x zs
  cases h with
  | insert front behind c => exact hfront front (editDistance_le_cons c behind) zs
  | delete front behind c => exact hfront front (editDistance_cons_left_le c behind) zs
  | replace front behind _ => exact hfront front (editDistance_replace_le _ _ behind) zs

theorem editDistance_self (xs : List α) : editDistance xs xs = 0 := by
  induction xs with
  | nil => rfl
  | cons x xs ih => simp [editDistance_cons_cons, ih]

/-! ### The distance -/

/-- **The distance of two texts is the least number of edits** that lead from one to the other. -/
theorem isLeast_editDistance (xs ys : List α) :
    IsLeast {n | Edits n xs ys} (editDistance xs ys) := by
  refine ⟨edits_editDistance xs ys, fun n h => ?_⟩
  induction h with
  | refl xs => exact (editDistance_self xs).le
  | @step n xs ys zs hedit _ ih => exact (hedit.editDistance_le zs).trans (Nat.succ_le_succ ih)

theorem editDistance_eq_zero_iff {xs ys : List α} : editDistance xs ys = 0 ↔ xs = ys := by
  constructor
  · intro h
    exact edits_zero_iff.mp (h ▸ edits_editDistance xs ys)
  · rintro rfl
    exact editDistance_self xs

/-- **Texts at distance one are one edit apart.** -/
theorem editDistance_eq_one_iff {xs ys : List α} : editDistance xs ys = 1 ↔ OneEdit xs ys := by
  constructor
  · intro h
    exact edits_one_iff.mp (h ▸ edits_editDistance xs ys)
  · intro h
    have hle : editDistance xs ys ≤ 1 := (isLeast_editDistance xs ys).2 (edits_one_iff.mpr h)
    have hne : editDistance xs ys ≠ 0 := fun hzero => h.ne (editDistance_eq_zero_iff.mp hzero)
    omega

instance (xs ys : List α) : Decidable (OneEdit xs ys) :=
  decidable_of_iff _ editDistance_eq_one_iff

end

end LittleMan.Text
