/-!
# Replayable sequences

A cursor that goes through a sequence one item at a time and may step back over what it has
already drawn, and forward again, but never past the furthest item drawn. Every item is drawn once.

What the cursor can see is the rest of the sequence (`Replay.rest`), which depends on the items and
on the position alone, and not on how many items have been drawn. So a cursor that has gone forward
(`Replay.Advanced`) can go back the same way, and then sees what it saw before
(`Replay.Advanced.exists_seek?`).
-/

namespace LittleMan

/-- A cursor over a sequence whose drawn part can be read again. -/
structure Replay (α : Type) where
  /-- The items drawn so far, in order. -/
  drawn : Array α := #[]
  /-- The items not drawn yet. -/
  fresh : List α
  /-- How many items lie before the cursor. -/
  position : Nat := 0
  /-- The cursor stands among the drawn items or right behind them. -/
  position_le : position ≤ drawn.size := by simp

namespace Replay

variable {α : Type}

/-- A cursor at the start of a sequence of which nothing has been drawn. -/
def ofList (items : List α) : Replay α := { fresh := items }

/-- All items, those before the cursor too. -/
def items (r : Replay α) : List α := r.drawn.toList ++ r.fresh

/-- The items from the cursor on. -/
def rest (r : Replay α) : List α := r.drawn.toList.drop r.position ++ r.fresh

/-- Reads the item at the cursor and steps over it; at the end there is no item and no step. -/
def next? (r : Replay α) : Option (α × Replay α) :=
  if h : r.position < r.drawn.size then
    some (r.drawn[r.position], { r with position := r.position + 1, position_le := h })
  else match r.fresh with
    | [] => none
    | item :: fresh => some (item,
        { drawn := r.drawn.push item, fresh, position := r.position + 1,
          position_le := by have := r.position_le; simp; omega })

/-- The least and the greatest number of items the cursor may be moved by. -/
def reach (r : Replay α) : Int × Int := (-(r.position : Int), (r.drawn.size : Int) - r.position)

/-- Moves the cursor by a number of items, back if it is negative, unless this would leave the
drawn items. -/
def seek? (r : Replay α) (amount : Int) : Option (Replay α) :=
  if h : r.reach.1 ≤ amount ∧ amount ≤ r.reach.2 then
    some { r with
      position := (r.position + amount).toNat
      position_le := by simp only [reach] at h; omega }
  else none

/-! ### Going forward -/

/-- The cursor has gone forward by `n` items of the same sequence. -/
structure Advanced (n : Nat) (r r' : Replay α) : Prop where
  /-- The sequence is the same. -/
  items : r'.items = r.items
  /-- There are `n` items more before the cursor. -/
  position : r'.position = r.position + n

theorem Advanced.refl (r : Replay α) : Advanced 0 r r := ⟨rfl, rfl⟩

theorem Advanced.trans {m n : Nat} {r r' r'' : Replay α} (h : Advanced m r r')
    (h' : Advanced n r' r'') : Advanced (m + n) r r'' where
  items := h'.items.trans h.items
  position := by rw [h'.position, h.position, Nat.add_assoc]

/-- What the cursor sees depends on the items and the position alone. -/
theorem rest_eq_drop (r : Replay α) : r.rest = r.items.drop r.position := by
  have hle : r.position ≤ r.drawn.toList.length := r.position_le
  rw [rest, items, List.drop_append_of_le_length hle]

/-- The items that have not been drawn are the last ones. -/
theorem fresh_eq_drop (r : Replay α) : r.fresh = r.items.drop r.drawn.size := by
  simp [items]

theorem Advanced.rest {n : Nat} {r r' : Replay α} (h : Advanced n r r') :
    r'.rest = r.rest.drop n := by
  rw [rest_eq_drop, h.items, h.position, rest_eq_drop, List.drop_drop]

theorem advanced_of_next? {r r' : Replay α} {item : α} (h : r.next? = some (item, r')) :
    Advanced 1 r r' := by
  unfold next? at h
  split at h
  · obtain ⟨-, rfl⟩ := Prod.mk.inj (Option.some.inj h)
    exact ⟨rfl, rfl⟩
  · split at h
    · cases h
    · next item' fresh hfresh =>
      obtain ⟨-, rfl⟩ := Prod.mk.inj (Option.some.inj h)
      exact ⟨by simp [items, hfresh], rfl⟩

theorem rest_eq_cons_of_next? {r r' : Replay α} {item : α} (h : r.next? = some (item, r')) :
    r.rest = item :: r'.rest := by
  unfold next? at h
  split at h
  · rename_i hlt
    obtain ⟨rfl, rfl⟩ := Prod.mk.inj (Option.some.inj h)
    have hlt' : r.position < r.drawn.toList.length := by simpa using hlt
    simp [rest, List.drop_eq_getElem_cons hlt']
  · rename_i hge
    have heq : r.position = r.drawn.size := Nat.le_antisymm r.position_le (by omega)
    split at h
    · cases h
    · rename_i item' fresh hf
      obtain ⟨rfl, rfl⟩ := Prod.mk.inj (Option.some.inj h)
      simp [rest, hf, heq, List.drop_eq_nil_of_le]

/-- The item that is read is the one at the position. -/
theorem getElem?_of_next? {r r' : Replay α} {item : α} (h : r.next? = some (item, r')) :
    r.items[r.position]? = some item := by
  have hrest := rest_eq_cons_of_next? h
  rw [rest_eq_drop] at hrest
  rw [← List.head?_drop, hrest, List.head?_cons]

/-- A read draws an item only where the drawn items end. -/
theorem size_of_next? {r r' : Replay α} {item : α} (h : r.next? = some (item, r')) :
    r'.drawn.size = max r.drawn.size (r.position + 1) := by
  have hle := r.position_le
  unfold next? at h
  split at h
  · obtain ⟨-, rfl⟩ := Prod.mk.inj (Option.some.inj h)
    exact (Nat.max_eq_left ‹_›).symm
  · split at h
    · cases h
    · obtain ⟨-, rfl⟩ := Prod.mk.inj (Option.some.inj h)
      rw [Array.size_push]
      omega

theorem rest_eq_nil_of_next? {r : Replay α} (h : r.next? = none) : r.rest = [] := by
  unfold next? at h
  split at h
  · cases h
  · rename_i hge
    split at h
    · rename_i hf
      simp only [rest, hf, List.append_nil]
      exact List.drop_eq_nil_of_le (by rw [Array.length_toList]; omega)
    · cases h

theorem next?_eq_none_iff {r : Replay α} : r.next? = none ↔ r.rest = [] := by
  refine ⟨rest_eq_nil_of_next?, fun h => ?_⟩
  cases hnext : r.next? with
  | none => rfl
  | some read =>
    obtain ⟨item, r'⟩ := read
    rw [rest_eq_cons_of_next? hnext] at h
    cases h

theorem exists_next?_of_rest {r : Replay α} {item : α} {items : List α}
    (h : r.rest = item :: items) :
    ∃ r', r.next? = some (item, r') ∧ r'.rest = items ∧ Advanced 1 r r' := by
  cases hnext : r.next? with
  | none =>
    rw [rest_eq_nil_of_next? hnext] at h
    cases h
  | some read =>
    obtain ⟨item', r'⟩ := read
    rw [rest_eq_cons_of_next? hnext] at h
    obtain ⟨rfl, hrest⟩ := List.cons.inj h
    exact ⟨r', rfl, hrest, advanced_of_next? hnext⟩

/-! ### Going back -/

/-- **The way that a cursor has come it can go back**, and then it sees what it saw before. -/
theorem Advanced.exists_seek? {n : Nat} {r r' : Replay α} (h : Advanced n r r') :
    ∃ r'', r'.seek? (-(n : Int)) = some r'' ∧ Advanced 0 r r'' := by
  have hposition := h.position
  have hle := r'.position_le
  have hreach : r'.reach.1 ≤ -(n : Int) ∧ -(n : Int) ≤ r'.reach.2 := by
    simp only [reach]
    omega
  refine ⟨_, dif_pos hreach, h.items, ?_⟩
  show ((r'.position : Int) + -(n : Int)).toNat = r.position + 0
  omega

end Replay

end LittleMan
